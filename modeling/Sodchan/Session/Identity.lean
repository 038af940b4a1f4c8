import Sodchan.Session.Pinning
import Sodchan.Session.Progress

/-! # The identity of the client

A client with an identity key has sent its AUTH_DEVICE before it can hear that
it is authenticated: the PDU leaves with the last step of the key exchange, and
only then does the client take AUTH PDUs. A client without one never sends it.
-/

namespace Sodchan

variable {Rng SS : Type} {E : Env Rng SS} {c c' : Ctx Rng SS}

/-- The client has neither proved its identity nor heard that it is authenticated. -/
structure Unheard (c : Ctx Rng SS) : Prop where
  unsent : c.authSent = false
  incomplete : c.authComplete = false
  silent : .authenticated ∉ c.emitted

namespace Unheard

theorem congr (h : Unheard c) (hs : c'.authSent = c.authSent)
    (hc : c'.authComplete = c.authComplete)
    (he : .authenticated ∈ c'.emitted → .authenticated ∈ c.emitted) : Unheard c' :=
  ⟨hs.trans h.unsent, hc.trans h.incomplete, fun hm => h.silent (he hm)⟩

theorem same (h : Unheard c) (hs : c'.authSent = c.authSent)
    (hc : c'.authComplete = c.authComplete) (hh : c'.hist = c.hist) : Unheard c' := by
  refine h.congr hs hc ?_
  unfold Ctx.emitted
  rw [hh]
  exact id

theorem log (h : Unheard c) {o : Occ} (ho : o.emitted? = none) : Unheard (c.log o) := by
  refine h.congr rfl rfl ?_
  unfold Ctx.emitted Ctx.log
  rw [List.filterMap_append, List.filterMap_cons_none ho, List.filterMap_nil, List.append_nil]
  exact id

theorem emit (h : Unheard c) {ev : Event} (hev : ev ≠ .authenticated) : Unheard (emit c ev) := by
  refine h.congr ?_ ?_ ?_
  · rw [emit_eq]
  · rw [emit_eq]
  · rw [emit_emitted]
    intro hm
    exact (List.mem_append.mp hm).resolve_right fun hl => hev (List.mem_singleton.mp hl).symm

theorem setError (h : Unheard c) (code : Rc) (msg : String) : Unheard (setError c code msg) :=
  (h.same rfl rfl rfl : Unheard { c with
    error := if code = .ok then .protocol else code, state := .error, errorMsg := msg }).emit
      (by rintro ⟨⟩)

theorem withFrame (h : Unheard c) (body : Bytes) : Unheard (c.withFrame body) :=
  h.log (o := .appended (rawFrame body)) rfl |>.same rfl rfl rfl

theorem withPush (h : Unheard c) (st : SS) (rng : Rng) : Unheard (c.withPush st rng) :=
  h.same rfl rfl rfl

theorem withKeys (h : Unheard c) (kc ks : Key) : Unheard (c.withKeys kc ks) := h.same rfl rfl rfl

theorem withC2s (h : Unheard c) (kc : Key) : Unheard (c.withC2s kc) := h.same rfl rfl rfl

theorem compacted (h : Unheard c) : Unheard c.compacted := h.same rfl rfl rfl

theorem enter (h : Unheard c) (st : State) (hs : Hs) : Unheard (c.enter st hs) :=
  h.same rfl rfl rfl

theorem headerLost (h : Unheard c) (hl : HeaderLost c c') : Unheard c' := by
  cases hl with
  | noState rng => exact h.same rfl rfl rfl
  | noRoom st rng => exact (h.withPush st rng).compacted

theorem moves {p : Powers} (h : Unheard c) (hm : Moves E p c c') : Unheard c' := by
  obtain ⟨l, hl, ho⟩ := hm.hist
  have hov := hm.overlay
  refine h.congr ((congrArg Ctx.authSent hov).trans rfl)
    ((congrArg Ctx.authComplete hov).trans rfl) ?_
  unfold Ctx.emitted
  rw [hl, List.filterMap_append]
  intro hmem
  refine (List.mem_append.mp hmem).resolve_right fun hnew => ?_
  obtain ⟨o, hol, he⟩ := List.mem_filterMap.mp hnew
  have hses := (ho o hol).session
  cases o <;> cases he <;> cases hses

theorem takeHello (h : Unheard c) (m : Wire.Hello) : Unheard (clientTakeHello c m) := by
  rw [clientTakeHello_eq]
  exact h.same rfl rfl rfl

theorem verifiedServer (h : Unheard c) (m : Wire.Hello) : Unheard (c.verifiedServer m) :=
  ((h.takeHello m).log (o := .helloVerified m) rfl).emit (by rintro ⟨⟩)

theorem clientKx (h : Unheard c) (st : SS) : Unheard (c.clientKx st) :=
  ((h.same rfl rfl rfl : Unheard (c.withPull st)).enter .auth .done).emit (by rintro ⟨⟩)

theorem hello (h : Unheard c) (hr : c.role = .client) (body : Bytes) :
    Unheard (handlePeerHello E c body).1 := by
  unfold handlePeerHello
  split
  · exact h.setError _ _
  · rename_i m _
    rw [hr]
    have he := clientHandleHello_effect E c m
    generalize clientHandleHello E c m = r at he
    cases he with
    | refused msg => exact h.setError _ _
    | forged msg => exact (h.takeHello m).setError _ _
    | keyless kc msg => exact ((h.verifiedServer m).withC2s kc).setError _ _
    | stuck kc ks d msg _ hl =>
      exact (((h.verifiedServer m).withKeys kc ks).headerLost hl).setError _ _
    | accepted kc ks st header rng =>
      exact ((((h.verifiedServer m).withKeys kc ks).withPush st rng).withFrame header.val).enter _ _

end Unheard

/-- The AUTH_DEVICE of this session was appended to the output, before any AUTHENTICATED. -/
structure ProvenFirst (E : Env Rng SS) (c : Ctx Rng SS) : Prop where
  sent : c.authSent
  first : ∃ l pdu raw, l ++ [.sent pdu, .appended raw] <+: c.hist ∧
    .authenticated ∉ l.filterMap Occ.emitted? ∧ DeviceProof E c pdu

def Ctx.hasIdentity (c : Ctx Rng SS) : Prop := c.haveClientIdPk ∧ c.haveClientIdSk

/-- How far a client is with the proof of its identity. -/
inductive ClientAuth (E : Env Rng SS) (c : Ctx Rng SS) : Prop where
  | unheard : Unheard c → c.hs ≠ .done ∨ c.ended → ClientAuth E c
  | proven : ProvenFirst E c → c.hasIdentity → c.hs = .done → ClientAuth E c
  | keyless : c.authSent = false → ¬ c.hasIdentity → c.hs = .done → ClientAuth E c

/-- The configuration of a client, as its proof depends on it. -/
structure SameClient (c c' : Ctx Rng SS) : Prop where
  role : c'.role = c.role
  idPk : c'.clientIdPk = c.clientIdPk ∧ c'.haveClientIdPk = c.haveClientIdPk
  idSk : c'.clientIdSk = c.clientIdSk ∧ c'.haveClientIdSk = c.haveClientIdSk
  texts : c'.clientUsername = c.clientUsername ∧ c'.clientDeviceId = c.clientDeviceId
  tHello : c'.tHello = c.tHello ∧ c'.haveTHello = c.haveTHello
  authSent : c'.authSent = c.authSent
  hs : c'.hs = c.hs

theorem SameClient.proof {pdu : Bytes} (h : SameClient c c') (hp : DeviceProof E c pdu) :
    DeviceProof E c' pdu := by
  obtain ⟨user, dev, tAuth, sig, hu, hd, hb, hs, he⟩ := hp.signed
  refine ⟨h.role.trans hp.role, ?_, ?_, ?_, user, dev, tAuth, sig, ?_, ?_, ?_, ?_, ?_⟩
  · rw [h.idSk.2]
    exact hp.haveSk
  · rw [h.idPk.2]
    exact hp.havePk
  · rw [h.tHello.2]
    exact hp.haveT
  · rwa [h.texts.1]
  · rwa [h.texts.2]
  · rwa [h.tHello.1, h.idPk.1]
  · rwa [h.idSk.1]
  · rwa [h.idPk.1]

theorem SameClient.hasIdentity (h : SameClient c c') : c'.hasIdentity ↔ c.hasIdentity := by
  unfold Ctx.hasIdentity
  rw [h.idPk.2, h.idSk.2]

theorem ProvenFirst.congr (h : ProvenFirst E c) (hs : SameClient c c') (hh : c.hist <+: c'.hist) :
    ProvenFirst E c' := by
  obtain ⟨hsent, l, pdu, raw, hp, hl, hd⟩ := h
  exact ⟨hs.authSent ▸ hsent, l, pdu, raw, hp.trans hh, hl, hs.proof hd⟩

namespace ClientAuth

theorem congr (h : ClientAuth E c) (hs : SameClient c c') (hh : c.hist <+: c'.hist)
    (hu : Unheard c → (c.hs ≠ .done ∨ c.ended) → Unheard c') (he : c.ended → c'.ended) :
    ClientAuth E c' := by
  cases h with
  | unheard h hn => exact .unheard (hu h hn) (hn.imp (fun hd => hs.hs ▸ hd) he)
  | proven h hi hd => exact .proven (h.congr hs hh) (hs.hasIdentity.mpr hi) (hs.hs.trans hd)
  | keyless h hi hd =>
    exact .keyless (hs.authSent.trans h) (fun hn => hi (hs.hasIdentity.mp hn)) (hs.hs.trans hd)

theorem moves {p : Powers} (h : ClientAuth E c) (hm : Moves E p c c') : ClientAuth E c' := by
  refine h.congr ?_ hm.hist_mono (fun h _ => h.moves hm) ?_
  · rw [hm.overlay]
    exact ⟨rfl, ⟨rfl, rfl⟩, ⟨rfl, rfl⟩, ⟨rfl, rfl⟩, ⟨rfl, rfl⟩, rfl, rfl⟩
  · intro he
    rcases hm.state with hs | hs
    · unfold Ctx.ended
      rwa [hs]
    · exact hs

theorem early (h : ClientAuth E c) (hs : c.hs ≠ .done) : Unheard c := by
  cases h with
  | unheard h => exact h
  | proven _ _ hd => exact absurd hd hs
  | keyless _ _ hd => exact absurd hd hs

theorem hello (h : ClientAuth E c) (hr : c.role = .client) (hs : c.hs = .waitPeerHello)
    (body : Bytes) : ClientAuth E (handlePeerHello E c body).1 := by
  have hu := h.early (by rw [hs]; rintro ⟨⟩)
  refine .unheard (hu.hello hr body) ?_
  obtain he | ⟨-, hs'⟩ := handlePeerHello_state E c body
  · exact Or.inr (Or.inl he)
  · exact Or.inl (by rw [hs']; rintro ⟨⟩)

theorem ssHeader (h : ClientAuth E c) (hr : c.role = .client) (hs : c.hs = .waitPeerSs)
    (ht : c.haveTHello) (body : Bytes) : ClientAuth E (handlePeerSsHeader E c body).1 := by
  have hu := h.early (by rw [hs]; rintro ⟨⟩)
  have hfail : ∀ (d : Ctx Rng SS) code msg, Unheard d → ClientAuth E (setError d code msg) :=
    fun d code msg hd => .unheard (hd.setError code msg) (Or.inr (Or.inl (setError_state _ _ _)))
  unfold handlePeerSsHeader
  split
  · rename_i hl
    rw [hr]
    have he := clientHandleSsHeader_effect E c ⟨body, hl⟩
    generalize clientHandleSsHeader E c ⟨body, hl⟩ = r at he
    cases he with
    | refused msg => exact hfail _ _ _ hu
    | unsent st d msg _ hd =>
      refine hfail _ _ _ ?_
      rcases hd with rfl | rfl
      · exact hu.clientKx st
      · exact (hu.clientKx st).compacted
    | silent st _ hskip =>
      refine .keyless (hu.clientKx st).unsent ?_ ?_
      · rw [clientKx_eq]
        rintro ⟨hpk, hsk⟩
        rcases hskip with hn | hn | hn | hn | hn
        · exact hn hr
        · exact absurd (hn.symm.trans hu.unsent) (by rintro ⟨⟩)
        · exact hn hsk
        · exact hn hpk
        · exact hn ht
      · rw [clientKx_eq]
    | sent st pdu st' ct _ hp =>
      have hsame : SameClient (c.clientKx st) { (c.clientKx st).pushed pdu st' ct with
          authSent := (c.clientKx st).authSent } :=
        ⟨rfl, ⟨rfl, rfl⟩, ⟨rfl, rfl⟩, ⟨rfl, rfl⟩, ⟨rfl, rfl⟩, rfl, rfl⟩
      have hp' := hsame.proof hp
      refine .proven ⟨rfl, (c.clientKx st).hist, pdu, rawFrame ct, List.prefix_rfl,
        (hu.clientKx st).silent, ?_⟩ ⟨hp'.havePk, hp'.haveSk⟩ ?_
      · exact ⟨hp'.role, hp'.haveSk, hp'.havePk, hp'.haveT, hp'.signed⟩
      · rw [clientKx_eq]
        rfl
  · exact hfail _ _ _ hu

theorem authDevice (h : ClientAuth E c) (hr : c.role = .client) (plain : Bytes) :
    ClientAuth E (handleAuthDevicePdu E c plain).1 := by
  have he := handleAuthDevicePdu_effect E c plain
  generalize handleAuthDevicePdu E c plain = r at he
  cases he with
  | refused code msg =>
    exact h.moves (Moves.recordError trivial code msg : Moves E ⟨True, True⟩ c _)
  | forged msg msg' hs => exact absurd (hr.symm.trans hs) (by rintro ⟨⟩)
  | accepted _ _ _ _ hv => exact absurd (hr.symm.trans hv.role) (by rintro ⟨⟩)

theorem authOk (h : ClientAuth E c) (hs : c.hs = .done) (hst : c.state = .auth) (plain : Bytes) :
    ClientAuth E (handleAuthOkPdu c plain).1 := by
  have he := handleAuthOkPdu_effect c plain
  generalize handleAuthOkPdu c plain = r at he
  cases he with
  | refused msg => exact h.moves (Moves.recordError trivial _ msg : Moves E ⟨True, True⟩ c _)
  | accepted hc =>
    rw [emitAuthenticated, emit_eq]
    refine h.congr ⟨rfl, ⟨rfl, rfl⟩, ⟨rfl, rfl⟩, ⟨rfl, rfl⟩, ⟨rfl, rfl⟩, rfl, rfl⟩
      (List.prefix_append _ _) ?_ ?_
    · rintro - (hn | hn)
      · exact absurd hs hn
      · exact absurd hn (by simp [Ctx.ended, hst])
    · intro hn
      exact absurd hn (by simp [Ctx.ended, hst])

theorem decide (h : ClientAuth E c) (hr : c.role = .client) (k : Call) (accept : Bool)
    (claims : Arg) : ClientAuth E (record k (authDecideEx E c accept claims)).1 := by
  have hnot : ¬ MayDecide c := fun hm => absurd (hr.symm.trans hm.role) (by rintro ⟨⟩)
  have he := authDecideEx_effect E c accept claims
  generalize authDecideEx E c accept claims = r at he
  unfold record
  cases he with
  | refused rc hrc => rwa [if_neg hrc]
  | unsent _ _ hm => exact absurd hm hnot
  | accepted _ hm => exact absurd hm hnot
  | rejected _ _ _ hm => exact absurd hm hnot

theorem turn {quit : Prop} (h : ClientAuth E c) (hr : c.role = .client) (hl : Lifecycle c)
    (ht : Turn E quit c c') : ClientAuth E c' := by
  have hsame : ∀ {d : Ctx Rng SS}, SameClient c d → d.authComplete = c.authComplete →
      d.hist = c.hist → (c.ended → d.ended) → ClientAuth E d :=
    fun hs hc hh he => h.congr hs (hh ▸ List.prefix_rfl) (fun hu _ => hu.same hs.authSent hc hh) he
  have hlog : ∀ {o : Occ}, o.emitted? = none → ClientAuth E (c.log o) := fun ho =>
    h.congr ⟨rfl, ⟨rfl, rfl⟩, ⟨rfl, rfl⟩, ⟨rfl, rfl⟩, ⟨rfl, rfl⟩, rfl, rfl⟩ (List.prefix_append _ _)
      (fun hu _ => hu.log ho) id
  cases ht with
  | output n =>
    obtain ⟨b, o, he⟩ := getOutput_eq c n
    rw [he]
    exact hsame ⟨rfl, ⟨rfl, rfl⟩, ⟨rfl, rfl⟩, ⟨rfl, rfl⟩, ⟨rfl, rfl⟩, rfl, rfl⟩ rfl rfl id
  | input => exact hsame ⟨rfl, ⟨rfl, rfl⟩, ⟨rfl, rfl⟩, ⟨rfl, rfl⟩, ⟨rfl, rfl⟩, rfl, rfl⟩ rfl rfl id
  | frame raw => exact hlog rfl
  | pull =>
    exact h.congr ⟨rfl, ⟨rfl, rfl⟩, ⟨rfl, rfl⟩, ⟨rfl, rfl⟩, ⟨rfl, rfl⟩, rfl, rfl⟩
      (List.prefix_append _ _) (fun hu _ => (hu.log (o := .pulled _ _ _) rfl).same rfl rfl rfl) id
  | drain _ hd =>
    refine hsame ⟨rfl, ⟨rfl, rfl⟩, ⟨rfl, rfl⟩, ⟨rfl, rfl⟩, ⟨rfl, rfl⟩, rfl, rfl⟩ rfl rfl ?_
    rintro (he | he) <;> rcases hd with ⟨hs | hs, -⟩ | ⟨hs, -⟩ <;> rw [hs] at he <;> cases he
  | hello body _ _ hs => exact h.hello hr hs body
  | ssHeader body he hc hs =>
    obtain ⟨-, hh⟩ | ⟨hst, -⟩ | ⟨-, hh⟩ := hl.stage he hc
    · exact absurd (hh.symm.trans hs) (by rintro ⟨⟩)
    · exact h.ssHeader hr hs (hl.ssHeader hst).2.1 body
    · exact absurd (hh.symm.trans hs) (by rintro ⟨⟩)
  | authDevice plain => exact h.authDevice hr plain
  | authOk plain hs hst => exact h.authOk hs hst plain
  | decide k accept claims => exact h.decide hr k accept claims

theorem started (hh : c.hist = []) (hs : c.authSent = false) (hc : c.authComplete = false) :
    ClientAuth E c.started := by
  have hu : Unheard c := ⟨hs, hc, by simp [Ctx.emitted, hh]⟩
  unfold Ctx.started
  split
  · exact .unheard ((hu.withFrame _).same rfl rfl rfl) (Or.inl (by rintro ⟨⟩))
  · exact .unheard (hu.same rfl rfl rfl) (Or.inl (by rintro ⟨⟩))

end ClientAuth

theorem Advance.clientAuth {quit : Prop} (h : Advance E quit c c')
    (hc : Lifecycle c ∧ (c.role = .client → ClientAuth E c)) :
    Lifecycle c' ∧ (c'.role = .client → ClientAuth E c') := by
  refine h.preserves (P := fun d => Lifecycle d ∧ (d.role = .client → ClientAuth E d)) hc ?_ ?_
  · rintro a b ⟨hl, ha⟩ hm
    exact ⟨hl.moves hm, fun hr => (ha (hm.role.symm.trans hr)).moves hm⟩
  · rintro a b ⟨hl, ha⟩ ht
    refine ⟨(hl.turn ht).1, fun hr => ?_⟩
    have hr' := ht.role_hist.1.symm.trans hr
    exact (ha hr').turn hr' hl ht

theorem ReachableUnder.clientAuth (h : ReachableUnder E (Reseeds E) c) :
    Lifecycle c ∧ (c.role = .client → ClientAuth E c) := by
  refine h.induction (P := fun d => Lifecycle d ∧ (d.role = .client → ClientAuth E d)) ?_ ?_ ?_ ?_
  · intro role cfg rng memOk c hc
    obtain ⟨pk, sk, rng', -, rfl⟩ := create_eq_some hc
    exact ⟨.started rfl rfl, fun _ => .started rfl rfl rfl⟩
  · intro c hc hg
    obtain ⟨rng, hk, -⟩ | ⟨pk, sk, rng, -, he⟩ := reset_cases E c
    · have hsome := hg rfl
      rw [hk] at hsome
      cases hsome
    · rw [he]
      exact ⟨.started rfl rfl, fun _ => .started rfl rfl rfl⟩
  · exact fun _ _ _ hp _ hs => hs.advance.clientAuth hp
  · exact fun _ _ hp hs => (hs.advance False).clientAuth hp

/-- A client that is or may yet be told that it is authenticated has sent its signed AUTH_DEVICE
before, if and only if it has an identity key. -/
theorem device_proven_iff (h : ReachableUnder E (Reseeds E) c) (hr : c.role = .client)
    (ha : c.authComplete ∨ .authenticated ∈ c.emitted ∨ c.state = .auth) :
    ProvenFirst E c ↔ c.hasIdentity := by
  obtain ⟨hl, hp⟩ := h.clientAuth
  cases hp hr with
  | unheard hu hn =>
    rcases ha with hc | he | hst
    · exact absurd (hu.incomplete.symm.trans hc) (by rintro ⟨⟩)
    · exact absurd he hu.silent
    · rcases hn with hn | hn
      · exact absurd (hl.done (Or.inl hst)).1 hn
      · exact absurd hn (by simp [Ctx.ended, hst])
  | proven hproof hi => exact iff_of_true hproof hi
  | keyless hs hi =>
    exact iff_of_false (fun hproof => absurd (hs.symm.trans hproof.sent) (by rintro ⟨⟩)) hi

/-- The calls by which a client in this environment becomes ready. -/
def plainClientCalls : List Call :=
  plainClientAuth ++ [.feedInput (plainRecord [pduAuthOk, 0, 0])]

theorem device_proven_plain :
    ProvenFirst plainEnv (play plainEnv plainClientStart plainClientCalls) :=
  (device_proven_iff (reachableUnder_play create_plainClient fun _ _ _ _ => rfl) (by decide +kernel)
    (Or.inl (by decide +kernel))).mpr ⟨by decide +kernel, by decide +kernel⟩

def plainKeylessStart : Ctx Unit Unit :=
  (create plainEnv .client (some { serverIdPk := some (plainKey 5) }) () true).get
  (by decide +kernel)

/-- A client that has proved nothing is ready. -/
theorem device_unproven_plain :
    Reachable plainEnv (play plainEnv plainKeylessStart plainClientCalls) ∧
    (play plainEnv plainKeylessStart plainClientCalls).role = .client ∧
    (play plainEnv plainKeylessStart plainClientCalls).state = .ready ∧
    (play plainEnv plainKeylessStart plainClientCalls).authComplete ∧
    .authenticated ∈ (play plainEnv plainKeylessStart plainClientCalls).queued ∧
    (play plainEnv plainKeylessStart plainClientCalls).sent = [] ∧
    ¬ ProvenFirst plainEnv (play plainEnv plainKeylessStart plainClientCalls) := by
  have hsent : (play plainEnv plainKeylessStart plainClientCalls).authSent = false := by
    decide +kernel
  refine ⟨reachable_play (Option.some_get _).symm _, ?_, ?_, ?_, ?_, ?_, ?_⟩
  · decide +kernel
  · decide +kernel
  · decide +kernel
  · decide +kernel
  · decide +kernel
  · exact fun hproof => absurd (hsent.symm.trans hproof.sent) (by rintro ⟨⟩)

end Sodchan
