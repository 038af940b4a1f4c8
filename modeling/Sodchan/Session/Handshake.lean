import Sodchan.Session.Effects

/-! # What the handshake leaves alone

The handlers of HELLO and of the secretstream headers neither touch the
channel table nor the flags of authentication, whether they succeed or not.
-/

namespace Sodchan

variable {Rng SS : Type} {E : Env Rng SS} {c c' c'' : Ctx Rng SS}

/-- The occurrences that concern the authentication of the client. -/
def Occ.isAuth : Occ → Bool
  | .authDevice .. | .authBadSig | .authDecided _ => true
  | .did k => k.isDecide
  | _ => false

theorem Occ.isSession_of_isAuth (o : Occ) (h : o.isAuth) : o.isSession := by
  cases o <;> simp_all [Occ.isAuth, Occ.isSession]

/-- Same role, same flags, same table, and nothing recorded about either. -/
structure HandshakeOnly (c c' : Ctx Rng SS) : Prop where
  role : c'.role = c.role
  awaiting : c'.authAwaitingDecide = c.authAwaitingDecide
  decided : c'.authDecided = c.authDecided
  complete : c'.authComplete = c.authComplete
  slots : ∀ i, c'.channels i = c.channels i ∨ (c'.channels i).state = .unused
  hist : ∃ l, c'.hist = c.hist ++ l ∧ ∀ o ∈ l, o.isAuth = false ∧ o.isChannel = false

namespace HandshakeOnly

theorem trans (h : HandshakeOnly c c') (h' : HandshakeOnly c' c'') : HandshakeOnly c c'' := by
  obtain ⟨l, hl, ho⟩ := h.hist
  obtain ⟨l', hl', ho'⟩ := h'.hist
  refine ⟨h'.role.trans h.role, h'.awaiting.trans h.awaiting, h'.decided.trans h.decided,
    h'.complete.trans h.complete, fun i => ?_, l ++ l', ?_, ?_⟩
  · rcases h'.slots i with hi | hi
    · exact (h.slots i).imp hi.trans fun hu => (congrArg Channel.state hi).trans hu
    · exact Or.inr hi
  · rw [hl', hl, List.append_assoc]
  · intro o hm
    rcases List.mem_append.mp hm with hm | hm
    · exact ho o hm
    · exact ho' o hm

theorem same_hist (hr : c'.role = c.role) (ha : c'.authAwaitingDecide = c.authAwaitingDecide)
    (hd : c'.authDecided = c.authDecided) (hc : c'.authComplete = c.authComplete)
    (ht : c'.channels = c.channels) (hh : c'.hist = c.hist) : HandshakeOnly c c' :=
  ⟨hr, ha, hd, hc, fun i => Or.inl (congrFun ht i), [], by rw [hh, List.append_nil], by simp⟩

theorem logged (hr : c'.role = c.role) (ha : c'.authAwaitingDecide = c.authAwaitingDecide)
    (hd : c'.authDecided = c.authDecided) (hc : c'.authComplete = c.authComplete)
    (ht : c'.channels = c.channels) {o : Occ} (hh : c'.hist = c.hist ++ [o])
    (ho : o.isAuth = false ∧ o.isChannel = false) : HandshakeOnly c c' :=
  ⟨hr, ha, hd, hc, fun i => Or.inl (congrFun ht i), [o], hh, by simpa using ho⟩

theorem event (ev : Event) (hev : ev.isChannel = false) : HandshakeOnly c (emit c ev) := by
  rw [emit_eq]
  refine logged rfl rfl rfl rfl rfl rfl ?_
  rcases emitOcc_cases c ev with h | h <;> rw [h] <;> exact ⟨rfl, hev⟩

theorem withFrame (body : Bytes) : HandshakeOnly c (c.withFrame body) :=
  logged rfl rfl rfl rfl rfl rfl ⟨rfl, rfl⟩

theorem failed (code : Rc) (msg : String) : HandshakeOnly c (setError c code msg) := by
  have hfail : HandshakeOnly c
      { c with
        error := if code = .ok then .protocol else code, state := .error, errorMsg := msg } :=
    same_hist rfl rfl rfl rfl rfl rfl
  exact hfail.trans (event (.error _ msg) rfl)

theorem enter (s : State) (h : Hs) : HandshakeOnly c (c.enter s h) :=
  same_hist rfl rfl rfl rfl rfl rfl

theorem withC2s (kc : Key) : HandshakeOnly c (c.withC2s kc) := same_hist rfl rfl rfl rfl rfl rfl

theorem withKeys (kc ks : Key) : HandshakeOnly c (c.withKeys kc ks) :=
  same_hist rfl rfl rfl rfl rfl rfl

theorem withPush (st : SS) (rng : Rng) : HandshakeOnly c (c.withPush st rng) :=
  same_hist rfl rfl rfl rfl rfl rfl

theorem withPull (st : SS) : HandshakeOnly c (c.withPull st) := same_hist rfl rfl rfl rfl rfl rfl

theorem compacted : HandshakeOnly c c.compacted := same_hist rfl rfl rfl rfl rfl rfl

theorem transcript : HandshakeOnly c (serverTranscript c) := same_hist rfl rfl rfl rfl rfl rfl

theorem headerLost (h : HeaderLost c c') : HandshakeOnly c c' := by
  cases h with
  | noState rng => exact same_hist rfl rfl rfl rfl rfl rfl
  | noRoom st rng => exact (withPush st rng).trans compacted

theorem takeHello (h : Wire.Hello) : HandshakeOnly c (clientTakeHello c h) := by
  rw [clientTakeHello_eq]
  exact same_hist rfl rfl rfl rfl rfl rfl

theorem verifiedServer (h : Wire.Hello) : HandshakeOnly c (c.verifiedServer h) := by
  have hlog : HandshakeOnly (clientTakeHello c h) ((clientTakeHello c h).log (.helloVerified h)) :=
    logged rfl rfl rfl rfl rfl rfl ⟨rfl, rfl⟩
  unfold Ctx.verifiedServer emitHelloReceived
  exact (takeHello h).trans (hlog.trans (event _ rfl))

theorem sawClient (h : Wire.Hello) : HandshakeOnly c (c.sawClient h) := by
  have htake : HandshakeOnly c (serverTakeHello c h) := by
    rw [serverTakeHello_eq]
    exact same_hist rfl rfl rfl rfl rfl rfl
  unfold Ctx.sawClient emitHelloReceived
  exact htake.trans (event _ rfl)

theorem helloQueued (sig : Sig) : HandshakeOnly c (c.helloQueued sig) := by
  unfold Ctx.helloQueued
  exact transcript.trans (withFrame _)

theorem clientKx (st : SS) : HandshakeOnly c (c.clientKx st) := by
  rw [clientKx_eq]
  refine logged rfl rfl rfl rfl rfl rfl ?_
  rcases emitOcc_cases c .kxComplete with h | h <;> rw [h] <;> exact ⟨rfl, rfl⟩

end HandshakeOnly

open HandshakeOnly

theorem clientHandleHello_only (h : Wire.Hello) :
    HandshakeOnly c (clientHandleHello E c h).1 := by
  have he := clientHandleHello_effect E c h
  generalize clientHandleHello E c h = r at he
  cases he with
  | refused msg => exact failed _ msg
  | forged msg => exact (takeHello h).trans (failed _ msg)
  | keyless kc msg => exact (verifiedServer h).trans ((withC2s kc).trans (failed _ msg))
  | stuck kc ks c' msg _ hl =>
    exact (verifiedServer h).trans ((withKeys kc ks).trans ((headerLost hl).trans (failed _ msg)))
  | accepted kc ks st header rng =>
    exact (verifiedServer h).trans ((withKeys kc ks).trans ((withPush st rng).trans
      ((withFrame header.val).trans (enter _ _))))

theorem serverHandleHello_only (hr : c.role = .server) (h : Wire.Hello) :
    HandshakeOnly c (serverHandleHello E c h).1 := by
  have he := serverHandleHello_effect E hr h
  generalize serverHandleHello E c h = r at he
  cases he with
  | refused msg => exact failed _ msg
  | unsigned msg => exact (sawClient h).trans (transcript.trans (failed _ msg))
  | noRoom msg => exact (sawClient h).trans (transcript.trans (compacted.trans (failed _ msg)))
  | keyless sig kc msg =>
    exact (sawClient h).trans ((helloQueued sig).trans ((withC2s kc).trans (failed _ msg)))
  | accepted sig kc ks =>
    exact (sawClient h).trans ((helloQueued sig).trans ((withKeys kc ks).trans (enter _ _)))

theorem handlePeerHello_only (body : Bytes) : HandshakeOnly c (handlePeerHello E c body).1 := by
  unfold handlePeerHello
  split
  · exact failed _ _
  · split
    · exact clientHandleHello_only _
    · rename_i hr
      exact serverHandleHello_only hr _

theorem clientHandleSsHeader_only (header : SsHeader) :
    HandshakeOnly c (clientHandleSsHeader E c header).1 := by
  have he := clientHandleSsHeader_effect E c header
  generalize clientHandleSsHeader E c header = r at he
  cases he with
  | refused msg => exact failed _ msg
  | unsent st c' msg _ hc =>
    rcases hc with rfl | rfl
    · exact (clientKx st).trans (failed _ msg)
    · exact (clientKx st).trans (compacted.trans (failed _ msg))
  | silent st => exact clientKx st
  | sent st pdu st' ct =>
    refine (clientKx st).trans
      ⟨rfl, rfl, rfl, rfl, fun _ => Or.inl rfl, [.sent pdu, .appended (rawFrame ct)], rfl, ?_⟩
    simp [Occ.isAuth, Occ.isChannel]

theorem serverHandleSsHeader_only (header : SsHeader) :
    HandshakeOnly c (serverHandleSsHeader E c header).1 := by
  have he := serverHandleSsHeader_effect E c header
  generalize serverHandleSsHeader E c header = r at he
  cases he with
  | refused msg => exact failed _ msg
  | stuck st c' msg hl => exact (withPull st).trans ((headerLost hl).trans (failed _ msg))
  | accepted st st' own rng =>
    exact (withPull st).trans ((withPush st' rng).trans ((withFrame own.val).trans
      ((enter _ _).trans (event .kxComplete rfl))))

theorem handlePeerSsHeader_only (body : Bytes) :
    HandshakeOnly c (handlePeerSsHeader E c body).1 := by
  unfold handlePeerSsHeader
  split
  · split
    · exact clientHandleSsHeader_only _
    · exact serverHandleSsHeader_only _
  · exact failed _ _

end Sodchan
