import Sodchan.Session.Handshake

/-! # The lifecycle of a session

The public state and the handshake state move together: what the peer is
expected to send next is determined by the state the host sees. Only a reset
without a key pair leaves a stale state behind, with both streams closed.
-/

namespace Sodchan

variable {Rng SS : Type} {E : Env Rng SS} {c c' : Ctx Rng SS} {quit : Prop}

theorem getOutput_eq (c : Ctx Rng SS) (n : ℕ) :
    ∃ b o, (getOutput c n).1 = { c with outBuf := b, outOff := o } := by
  unfold getOutput
  split
  · exact ⟨_, _, rfl⟩
  · split
    · exact ⟨_, _, rfl⟩
    · dsimp only
      split
      · exact ⟨_, _, rfl⟩
      · exact ⟨_, _, rfl⟩

theorem handlePeerHello_state (E : Env Rng SS) (c : Ctx Rng SS) (body : Bytes) :
    (handlePeerHello E c body).1.state = .error ∨
      ((handlePeerHello E c body).1.state = .ssHeader ∧
        (handlePeerHello E c body).1.hs = .waitPeerSs) := by
  unfold handlePeerHello
  split
  · exact Or.inl (setError_state _ _ _)
  · rename_i h _
    split
    · have he := clientHandleHello_effect E c h
      generalize clientHandleHello E c h = r at he
      cases he with
      | accepted => exact Or.inr ⟨rfl, rfl⟩
      | _ => exact Or.inl (setError_state _ _ _)
    · rename_i hr
      have he := serverHandleHello_effect E hr h
      generalize serverHandleHello E c h = r at he
      cases he with
      | accepted => exact Or.inr ⟨rfl, rfl⟩
      | _ => exact Or.inl (setError_state _ _ _)

theorem handlePeerSsHeader_state (E : Env Rng SS) (c : Ctx Rng SS) (body : Bytes) :
    (handlePeerSsHeader E c body).1.state = .error ∨
      ((handlePeerSsHeader E c body).1.state = .auth ∧
        (handlePeerSsHeader E c body).1.hs = .done) := by
  unfold handlePeerSsHeader
  split
  · rename_i hl
    split
    · have he := clientHandleSsHeader_effect E c ⟨body, hl⟩
      generalize clientHandleSsHeader E c ⟨body, hl⟩ = r at he
      cases he with
      | silent st => exact Or.inr (by rw [clientKx_eq]; exact ⟨rfl, rfl⟩)
      | sent st => exact Or.inr (by rw [clientKx_eq]; exact ⟨rfl, rfl⟩)
      | _ => exact Or.inl (setError_state _ _ _)
    · have he := serverHandleSsHeader_effect E c ⟨body, hl⟩
      generalize serverHandleSsHeader E c ⟨body, hl⟩ = r at he
      cases he with
      | accepted => exact Or.inr (by rw [emitKxComplete, emit_eq]; exact ⟨rfl, rfl⟩)
      | _ => exact Or.inl (setError_state _ _ _)
  · exact Or.inl (setError_state _ _ _)

theorem takeAuthDevice_eq (E : Env Rng SS) (c : Ctx Rng SS) (d : Wire.AuthDevice)
    (user device : Bytes) :
    ∃ ev r, (∃ e, e.isChannel = false ∧ (ev = .queued e ∨ ev = .dropped e)) ∧
      takeAuthDevice E c d user device = { c with
        peerIdPk := d.clientIdPk
        havePeerId := true
        authAwaitingDecide := true
        events := r
        hist := c.hist ++ [ev, .authDevice d.clientIdPk d.clientSig user device] } := by
  unfold takeAuthDevice
  simp only [emit_eq, Ctx.log, List.append_assoc, List.cons_append, List.nil_append]
  exact ⟨_, _, ⟨_, rfl, emitOcc_cases _ _⟩, rfl⟩

theorem handleAuthDevicePdu_frame (hst : c.state = .auth) (plain : Bytes) :
    Moves E ⟨False, False⟩ c (handleAuthDevicePdu E c plain).1 ∨
      (Moves E ⟨False, False⟩ (c.log .authBadSig) (handleAuthDevicePdu E c plain).1) ∨
      ∃ d user device,
        (handleAuthDevicePdu E c plain).1 = takeAuthDevice E c d user device := by
  have he := handleAuthDevicePdu_effect E c plain
  generalize handleAuthDevicePdu E c plain = r at he
  cases he with
  | refused code msg hm => exact Or.inl (Moves.setError code msg hm)
  | forged msg msg' _ _ hm =>
    exact Or.inr (Or.inl ((serverSendAuthFail_moves (by simp [Ctx.log, hst])
      (by simp [Ctx.log, hst])).trans
        ((Moves.emit (.authFailed .badSig msg) rfl rfl (by rintro ⟨⟩)).trans
          (Moves.setError _ _ hm))))
  | accepted d user device => exact Or.inr (Or.inr ⟨d, user, device, rfl⟩)

theorem Moves.role {p : Powers} (h : Moves E p c c') : c'.role = c.role := by
  rw [h.overlay]
  rfl

theorem log_hist (c : Ctx Rng SS) (o : Occ) : c.hist <+: (c.log o).hist := ⟨[o], rfl⟩

theorem record_hist {k : Call} {r : Ctx Rng SS × Rc} (h : c.hist <+: r.1.hist) :
    c.hist <+: (record k r).1.hist := by
  unfold record
  split
  · exact h.trans (log_hist _ _)
  · exact h

theorem Turn.role_hist (h : Turn E quit c c') : c'.role = c.role ∧ c.hist <+: c'.hist := by
  have honly : ∀ {d : Ctx Rng SS}, HandshakeOnly c d → d.role = c.role ∧ c.hist <+: d.hist := by
    intro d ho
    obtain ⟨l, hl, -⟩ := ho.hist
    exact ⟨ho.role, l, hl.symm⟩
  cases h with
  | output n =>
    obtain ⟨b, o, he⟩ := getOutput_eq c n
    rw [he]
    exact ⟨rfl, List.prefix_rfl⟩
  | input => exact ⟨rfl, List.prefix_rfl⟩
  | frame raw => exact ⟨rfl, log_hist _ _⟩
  | pull => exact ⟨rfl, _, rfl⟩
  | drain => exact ⟨rfl, List.prefix_rfl⟩
  | hello body => exact honly (handlePeerHello_only body)
  | ssHeader body => exact honly (handlePeerSsHeader_only body)
  | authDevice plain _ hst =>
    obtain hm | hm | ⟨d, user, device, he⟩ := handleAuthDevicePdu_frame (E := E) hst plain
    · exact ⟨hm.role, hm.hist_mono⟩
    · exact ⟨hm.role, (log_hist _ _).trans hm.hist_mono⟩
    · obtain ⟨ev, r, -, ht⟩ := takeAuthDevice_eq E c d user device
      rw [he, ht]
      exact ⟨rfl, _, rfl⟩
  | authOk plain =>
    have he := handleAuthOkPdu_effect c plain
    generalize handleAuthOkPdu c plain = r at he
    cases he with
    | refused msg => exact honly (.failed _ msg)
    | accepted =>
      rw [emitAuthenticated, emit_eq]
      exact ⟨rfl, _, rfl⟩
  | decide k accept claims =>
    have hmoves : ∀ {d : Ctx Rng SS}, Moves E ⟨False, False⟩ (takeDecision c accept) d →
        d.role = c.role ∧ c.hist <+: d.hist :=
      fun hm => ⟨hm.role, (log_hist c (.authDecided accept)).trans hm.hist_mono⟩
    have he := authDecideEx_effect E c accept claims
    generalize authDecideEx E c accept claims = r at he
    have hr : r.1.role = c.role ∧ c.hist <+: r.1.hist := by
      cases he with
      | refused => exact ⟨rfl, List.prefix_rfl⟩
      | unsent c' msg _ hs hm => exact hmoves ((hs _).trans (Moves.setError _ _ hm))
      | accepted c' _ _ hm =>
        have h := hmoves (hm _)
        rw [emitAuthenticated, emit_eq]
        exact ⟨h.1, h.2.trans ⟨_, rfl⟩⟩
      | rejected c' msg msg' _ _ hs hm =>
        exact hmoves ((hs _).trans
          ((Moves.emit (.authFailed .policy msg) rfl rfl (by rintro ⟨⟩)).trans
          (Moves.setError _ _ hm)))
    refine ⟨?_, record_hist hr.2⟩
    unfold record
    split
    · exact hr.1
    · exact hr.1

theorem Advance.role_hist (h : Advance E quit c c') : c'.role = c.role ∧ c.hist <+: c'.hist := by
  refine h.preserves (P := fun d => d.role = c.role ∧ c.hist <+: d.hist) ⟨rfl, List.prefix_rfl⟩
    (fun a b ha hm => ⟨hm.role.trans ha.1, ha.2.trans hm.hist_mono⟩)
    (fun a b ha ht => ⟨ht.role_hist.1.trans ha.1, ha.2.trans ht.role_hist.2⟩)

theorem reset_role (c : Ctx Rng SS) : (reset E c).role = c.role := by
  obtain ⟨rng, -, h⟩ | ⟨pk, sk, rng, -, h⟩ := reset_cases E c <;> rw [h]
  · rfl
  · unfold Ctx.started
    split <;> rfl

/-- The handshake state that goes with a public state. -/
structure Coherent (c : Ctx Rng SS) : Prop where
  idle : c.state ≠ .idle
  hello : c.state = .hello → c.hs = .waitPeerHello
  ssHeader : c.state = .ssHeader → c.hs = .waitPeerSs
  done : c.state = .auth ∨ c.state = .ready ∨ c.state = .draining → c.hs = .done

def Ctx.streamsClosed (c : Ctx Rng SS) : Prop := c.ssPushReady = false ∧ c.ssPullReady = false

/-- The host has dispatched channels only after authentication, or, after a reset without a key
pair, with closed streams. -/
structure Cleared (stale quit : Prop) (c : Ctx Rng SS) : Prop where
  ready : c.state = .ready → c.authComplete ∨ stale ∧ c.streamsClosed
  draining : ¬ quit → c.state = .draining → c.authComplete ∨ stale ∧ c.streamsClosed

/-- `crypto_kx_keypair` never fails. -/
def KeypairSucceeds (E : Env Rng SS) : Prop := ∀ rng, (E.kxKeypair rng).1.isSome

theorem Coherent.ended (h : c.state = .error ∨ c.state = .closed) : Coherent c := by
  rcases h with h | h <;> constructor <;> simp [h]

theorem Coherent.congr (h : Coherent c) (hs : c'.state = c.state) (hh : c'.hs = c.hs) :
    Coherent c' := by
  constructor <;> rw [hs]
  · exact h.idle
  · exact fun hx => hh.trans (h.hello hx)
  · exact fun hx => hh.trans (h.ssHeader hx)
  · exact fun hx => hh.trans (h.done hx)

theorem Coherent.moves {p : Powers} (h : Coherent c) (hm : Moves E p c c') : Coherent c' := by
  rcases hm.state with hs | hs
  · exact h.congr hs (by rw [hm.overlay]; rfl)
  · exact Coherent.ended hs

theorem coherent_started (c : Ctx Rng SS) : Coherent c.started := by
  unfold Ctx.started
  split <;> constructor <;> simp

theorem Coherent.turn (h : Coherent c) (ht : Turn E quit c c') : Coherent c' := by
  cases ht with
  | output n =>
    obtain ⟨b, o, he⟩ := getOutput_eq c n
    rw [he]
    exact h.congr rfl rfl
  | input | frame | pull => exact h.congr rfl rfl
  | drain _ hd =>
    have hs : c.hs = .done := by
      rcases hd with ⟨hs | hs, -⟩ | ⟨hs, -⟩ <;> exact h.done (by simp [hs])
    constructor <;> simp [hs]
  | hello body =>
    rcases handlePeerHello_state E c body with he | ⟨he, hh⟩
    · exact Coherent.ended (Or.inl he)
    · constructor <;> simp [he, hh]
  | ssHeader body =>
    rcases handlePeerSsHeader_state E c body with he | ⟨he, hh⟩
    · exact Coherent.ended (Or.inl he)
    · constructor <;> simp [he, hh]
  | authDevice plain _ hst =>
    obtain hm | hm | ⟨d, user, device, he⟩ := handleAuthDevicePdu_frame (E := E) hst plain
    · exact h.moves hm
    · exact (h.congr rfl rfl : Coherent (c.log .authBadSig)).moves hm
    · obtain ⟨ev, r, -, ht⟩ := takeAuthDevice_eq E c d user device
      rw [he, ht]
      exact h.congr rfl rfl
  | authOk plain hs =>
    have he := handleAuthOkPdu_effect c plain
    generalize handleAuthOkPdu c plain = r at he
    cases he with
    | refused msg => exact Coherent.ended (Or.inl (setError_state _ _ _))
    | accepted =>
      rw [emitAuthenticated, emit_eq]
      constructor <;> simp [hs]
  | decide k accept claims =>
    have he := authDecideEx_effect E c accept claims
    generalize authDecideEx E c accept claims = r at he
    have hr : Coherent r.1 := by
      cases he with
      | refused => exact h
      | unsent => exact Coherent.ended (Or.inl (setError_state _ _ _))
      | accepted c' hm _ hmv =>
        have hs : c'.hs = .done := by
          rw [(hmv ⟨True, True⟩).overlay]
          exact h.done (Or.inl hm.state)
        rw [emitAuthenticated, emit_eq]
        constructor <;> simp [hs]
      | rejected => exact Coherent.ended (Or.inl (setError_state _ _ _))
    unfold record
    split
    · exact hr.congr rfl rfl
    · exact hr

theorem coherent_create {role : Role} {cfg : Option Config} {rng : Rng} {memOk : Bool}
    (h : create E role cfg rng memOk = some c) : Coherent c := by
  obtain ⟨pk, sk, rng', -, rfl⟩ := create_eq_some h
  exact coherent_started _

theorem Coherent.reset (h : Coherent c) : Coherent (reset E c) := by
  obtain ⟨rng, -, he⟩ | ⟨pk, sk, rng, -, he⟩ := reset_cases E c <;> rw [he]
  · exact h.congr rfl rfl
  · exact coherent_started _

theorem Advance.coherent (h : Advance E quit c c') (hc : Coherent c) : Coherent c' :=
  h.preserves hc (fun _ _ h => h.moves) (fun _ _ h => h.turn)

theorem ReachableUnder.coherent {guard : Ctx Rng SS → Call → Prop}
    (h : ReachableUnder E guard c) : Coherent c :=
  h.induction (fun _ _ _ _ _ => coherent_create) (fun _ h _ => h.reset)
    (fun _ _ _ h _ hs => hs.advance.coherent h)
    (fun _ _ h hs => (hs.advance False).coherent h)

section Cleared

variable {stale : Prop}

theorem Cleared.of_state (hr : c.state ≠ .ready) (hd : c.state ≠ .draining) :
    Cleared stale quit c := ⟨fun h => absurd h hr, fun _ h => absurd h hd⟩

theorem Cleared.congr (h : Cleared stale quit c) (hs : c'.state = c.state)
    (hc : c'.authComplete = c.authComplete) (hp : c'.ssPushReady = c.ssPushReady)
    (hl : c'.ssPullReady = c.ssPullReady) : Cleared stale quit c' := by
  constructor <;> unfold Ctx.streamsClosed <;> rw [hs, hc, hp, hl]
  · exact h.ready
  · exact h.draining

theorem Cleared.moves {p : Powers} (h : Cleared stale quit c) (hm : Moves E p c c') :
    Cleared stale quit c' := by
  have ho := hm.overlay
  rcases hm.state with hs | hs | hs
  · refine h.congr hs ?_ ?_ ?_ <;> rw [ho] <;> rfl
  · exact .of_state (by simp [hs]) (by simp [hs])
  · exact .of_state (by simp [hs]) (by simp [hs])

theorem Cleared.turn (h : Cleared stale quit c) (ht : Turn E quit c c') :
    Cleared stale quit c' := by
  cases ht with
  | output n =>
    obtain ⟨b, o, he⟩ := getOutput_eq c n
    rw [he]
    exact h.congr rfl rfl rfl rfl
  | input | frame | pull => exact h.congr rfl rfl rfl rfl
  | drain _ hd =>
    refine ⟨(by rintro ⟨⟩), fun hq _ => ?_⟩
    rcases hd with ⟨hs | hs, -⟩ | ⟨-, hquit⟩
    · exact h.ready hs
    · exact h.draining hq hs
    · exact absurd hquit hq
  | hello body =>
    rcases handlePeerHello_state E c body with he | ⟨he, -⟩ <;>
      exact .of_state (by simp [he]) (by simp [he])
  | ssHeader body =>
    rcases handlePeerSsHeader_state E c body with he | ⟨he, -⟩ <;>
      exact .of_state (by simp [he]) (by simp [he])
  | authDevice plain _ hst =>
    obtain hm | hm | ⟨d, user, device, he⟩ := handleAuthDevicePdu_frame (E := E) hst plain
    · exact h.moves hm
    · exact (h.congr rfl rfl rfl rfl : Cleared stale quit (c.log .authBadSig)).moves hm
    · obtain ⟨ev, r, -, ht⟩ := takeAuthDevice_eq E c d user device
      rw [he, ht]
      exact h.congr rfl rfl rfl rfl
  | authOk plain =>
    have he := handleAuthOkPdu_effect c plain
    generalize handleAuthOkPdu c plain = r at he
    cases he with
    | refused msg => exact .of_state (by simp) (by simp)
    | accepted =>
      rw [emitAuthenticated, emit_eq]
      exact ⟨fun _ => Or.inl rfl, fun _ => (by rintro ⟨⟩)⟩
  | decide k accept claims =>
    have he := authDecideEx_effect E c accept claims
    generalize authDecideEx E c accept claims = r at he
    have hr : Cleared stale quit r.1 := by
      cases he with
      | refused => exact h
      | accepted c' =>
        rw [emitAuthenticated, emit_eq]
        exact ⟨fun _ => Or.inl rfl, fun _ => (by rintro ⟨⟩)⟩
      | _ => exact .of_state (by simp) (by simp)
    unfold record
    split
    · exact hr.congr rfl rfl rfl rfl
    · exact hr

theorem cleared_started (c : Ctx Rng SS) : Cleared stale quit c.started := by
  unfold Ctx.started
  split <;> exact .of_state (by rintro ⟨⟩) (by rintro ⟨⟩)

theorem Cleared.reset (h : ∀ rng, (E.kxKeypair rng).1.isSome ∨ stale) :
    Cleared stale quit (reset E c) := by
  obtain ⟨rng, hk, he⟩ | ⟨pk, sk, rng, -, he⟩ := reset_cases E c <;> rw [he]
  · have hs : stale := by
      rcases h c.rng with hx | hx
      · rw [hk] at hx
        cases hx
      · exact hx
    exact ⟨fun _ => Or.inr ⟨hs, rfl, rfl⟩, fun _ _ => Or.inr ⟨hs, rfl, rfl⟩⟩
  · exact cleared_started _

theorem Advance.cleared (h : Advance E quit c c') (hc : Cleared stale quit c) :
    Cleared stale quit c' :=
  h.preserves hc (fun _ _ h => h.moves) (fun _ _ h => h.turn)

end Cleared

/-- A host that never disconnects during authentication. -/
def NoQuit (c : Ctx Rng SS) (k : Call) : Prop :=
  ∀ reason msg, k = .disconnect reason msg → c.state ≠ .auth

theorem ReachableUnder.cleared {guard : Ctx Rng SS → Call → Prop}
    (hg : ¬ quit → ∀ c k, guard c k → NoQuit c k) (h : ReachableUnder E guard c) :
    Cleared (¬ KeypairSucceeds E) quit c := by
  have hk : ∀ rng, (E.kxKeypair rng).1.isSome ∨ ¬ KeypairSucceeds E := by
    intro rng
    rw [or_iff_not_imp_right, not_not]
    exact fun h => h rng
  refine h.induction ?_ (fun _ _ _ => Cleared.reset hk) ?_
    (fun _ _ h hs => (hs.advance quit).cleared h)
  · intro role cfg rng memOk c hc
    obtain ⟨pk, sk, rng', -, rfl⟩ := create_eq_some hc
    exact cleared_started _
  · intro c c' k hc hgk hs
    refine (hs.advance.mono_quit ?_).cleared hc
    rintro ⟨⟨reason, msg, hd⟩, hst⟩
    by_contra hq
    exact hg hq c k hgk reason msg hd hst

end Sodchan
