import Sodchan.Model.History
import Sodchan.Model.Plain
import Sodchan.Session.Lifecycle

/-! # The server's identity at a client

The handler of the server's HELLO stores the peer's keys and the transcript
before it verifies anything. Nothing of that reaches a trusted state: a client
is either fresh, or trusts a HELLO that it accepted, or has ended.
-/

namespace Sodchan

variable {Rng SS : Type} {E : Env Rng SS} {c c' : Ctx Rng SS}

/-- What a side brings into a session: its configured and its ephemeral keys. -/
structure Setup where
  role : Role
  acceptAnyServerPk : Bool
  haveServerIdPk : Bool
  serverIdPk : Key
  haveClientIdPk : Bool
  clientIdPk : Key
  ephPk : Key
  ephSk : Key

structure Identity where
  setup : Setup
  peerEphPk : Key
  peerIdPk : Key
  ssKeyC2s : Key
  ssKeyS2c : Key
  tHello : BytesN tHelloLen

def Ctx.setup (c : Ctx Rng SS) : Setup :=
  ⟨c.role, c.acceptAnyServerPk, c.haveServerIdPk, c.serverIdPk, c.haveClientIdPk, c.clientIdPk,
    c.ephPk, c.ephSk⟩

def Ctx.identity (c : Ctx Rng SS) : Identity :=
  ⟨c.setup, c.peerEphPk, c.peerIdPk, c.ssKeyC2s, c.ssKeyS2c, c.tHello⟩

theorem setup_of_identity (h : c'.identity = c.identity) : c'.setup = c.setup :=
  congrArg Identity.setup h

theorem Moves.identity {p : Powers} (h : Moves E p c c') : c'.identity = c.identity := by
  rw [h.overlay]
  rfl

def Occ.verified? : Occ → Option Wire.Hello
  | .helloVerified h => some h
  | _ => none

def Ctx.verified (c : Ctx Rng SS) : List Wire.Hello := c.hist.filterMap Occ.verified?

/-- The history up to the first verified HELLO. -/
def Ctx.unverified (c : Ctx Rng SS) : List Occ := c.hist.takeWhile fun o => o.verified?.isNone

theorem verified_append {l : List Occ} (hh : c'.hist = c.hist ++ l)
    (ho : ∀ o ∈ l, o.isSession = false) : c'.verified = c.verified := by
  have hl : l.filterMap Occ.verified? = [] := by
    rw [List.filterMap_eq_nil_iff]
    intro o hm
    have := ho o hm
    cases o <;> first | rfl | cases this
  unfold Ctx.verified
  rw [hh, List.filterMap_append, hl, List.append_nil]

theorem Moves.verified {p : Powers} (h : Moves E p c c') : c'.verified = c.verified := by
  obtain ⟨l, hl, ho⟩ := h.hist
  exact verified_append hl fun o hm => (ho o hm).1

theorem unverified_fresh (h : c.verified = []) : c.unverified = c.hist := by
  unfold Ctx.unverified
  rw [List.takeWhile_eq_self_iff]
  intro o ho
  simpa using List.filterMap_eq_nil_iff.mp h o ho

theorem unverified_of_mem {h : Wire.Hello} {l : List Occ} (hv : l.filterMap Occ.verified? = [])
    (hp : l ++ [.helloVerified h] <+: c.hist) : c.unverified = l := by
  obtain ⟨rest, hr⟩ := hp
  unfold Ctx.unverified
  rw [← hr, List.append_assoc, List.takeWhile_append_of_pos]
  · simp [Occ.verified?]
  · intro o ho
    simpa using List.filterMap_eq_nil_iff.mp hv o ho

/-- Once a HELLO is verified, the history before it is settled. -/
theorem unverified_mono (hv : c.verified ≠ []) (hp : c.hist <+: c'.hist) :
    c'.unverified = c.unverified := by
  obtain ⟨rest, hr⟩ := hp
  unfold Ctx.unverified
  rw [← hr, List.takeWhile_append, if_neg]
  intro hl
  refine hv (List.filterMap_eq_nil_iff.mpr fun o ho => ?_)
  have hall := List.takeWhile_eq_self_iff.mp ((List.takeWhile_prefix _).eq_of_length hl)
  simpa using hall o ho

theorem handlePeerSsHeader_identity (hr : c.role = .client) (body : Bytes) :
    (handlePeerSsHeader E c body).1.identity = c.identity ∧
      (handlePeerSsHeader E c body).1.verified = c.verified := by
  have hfail : ∀ (d : Ctx Rng SS) code msg, (setError d code msg).identity = d.identity ∧
      (setError d code msg).verified = d.verified := fun d code msg =>
    have hm : Moves E ⟨True, True⟩ d (setError d code msg) :=
      Moves.recordError trivial code msg
    ⟨hm.identity, hm.verified⟩
  unfold handlePeerSsHeader
  split
  · rename_i hl
    rw [hr]
    have hkx : ∀ st, (c.clientKx st).identity = c.identity ∧
        (c.clientKx st).verified = c.verified := fun st => by
      rw [clientKx_eq]
      refine ⟨rfl, ?_⟩
      unfold Ctx.verified
      rw [List.filterMap_append]
      rcases emitOcc_cases c .kxComplete with h | h <;> rw [h] <;> simp [Occ.verified?]
    have he := clientHandleSsHeader_effect E c ⟨body, hl⟩
    generalize clientHandleSsHeader E c ⟨body, hl⟩ = r at he
    cases he with
    | refused msg => exact hfail _ _ _
    | unsent st c' msg _ hc =>
      have hk : c'.identity = c.identity ∧ c'.verified = c.verified := by
        rcases hc with rfl | rfl
        · exact hkx st
        · exact hkx st
      exact ⟨(hfail _ _ _).1.trans hk.1, (hfail _ _ _).2.trans hk.2⟩
    | silent st => exact hkx st
    | sent st pdu st' ct =>
      refine ⟨(hkx st).1, (hkx st).2 ▸ ?_⟩
      exact verified_append (c := c.clientKx st) rfl (by simp [Occ.isSession])
  · exact hfail _ _ _

/-- A HELLO that was received and trusted under the identity of the client. -/
structure Heard (E : Env Rng SS) (c : Ctx Rng SS) (h : Wire.Hello) : Prop where
  trusted : HelloTrusted E c h
  received : ∃ body, .frame (rawFrame body) ∈ c.hist ∧ Wire.helloDecode body = .ok h

theorem Heard.congr {h : Wire.Hello} (hd : Heard E c h) (hi : c'.setup = c.setup)
    (hp : c.hist <+: c'.hist) : Heard E c' h := by
  simp only [Ctx.setup, Setup.mk.injEq] at hi
  obtain ⟨-, ha, hh, hs, -, -, he, -⟩ := hi
  obtain ⟨body, hm, hb⟩ := hd.received
  refine ⟨⟨?_, ?_⟩, body, hp.subset hm, hb⟩
  · rw [ha, hh, hs]
    exact hd.trusted.pinned
  · rw [he]
    exact hd.trusted.signed

/-- The keys and the transcript belong to the HELLO. -/
structure Bound (E : Env Rng SS) (i : Identity) (h : Wire.Hello) : Prop where
  ephPk : i.peerEphPk = h.ephPk
  idPk : i.peerIdPk = h.idPk
  tHello : i.tHello = Wire.buildTHello protoVersion suiteV1 i.setup.ephPk i.peerEphPk i.peerIdPk
  keys : ClientKeys E i.setup.ephPk i.setup.ephSk i.peerEphPk i.ssKeyC2s i.ssKeyS2c

/-- How far a client got with the identity of the server. -/
inductive ClientPhase (E : Env Rng SS) (c : Ctx Rng SS) : Prop where
  | fresh : c.verified = [] → c.streamsClosed →
      (c.state = .hello ∧ c.hs = .waitPeerHello ∨ c.state = .error ∨ c.state = .closed) →
      ClientPhase E c
  | trusting (h : Wire.Hello) : c.verified = [h] → Heard E c h → Bound E c.identity h →
      (c.hs = .waitPeerSs ∨ c.hs = .done) → ClientPhase E c
  | broken (h : Wire.Hello) : c.verified = [h] → Heard E c h →
      (c.state = .error ∨ c.state = .closed) → ClientPhase E c

/-- Before a HELLO is accepted, a client has queued its own HELLO only, and reported no progress. -/
structure Quiet (c : Ctx Rng SS) : Prop where
  output : c.unverified.filterMap Occ.appended? = [rawFrame (Wire.helloBody (clientHello c))]
  events : ∀ ev ∈ c.unverified.filterMap Occ.emitted?, ev.isSession = false

/-- The configuration is still in force. -/
structure Configured (cfg : Config) (c : Ctx Rng SS) : Prop where
  role : c.role = .client
  any : c.acceptAnyServerPk = cfg.acceptAnyServerPk
  pin : cfg.acceptAnyServerPk = false → c.haveServerIdPk → cfg.serverIdPk = some c.serverIdPk

structure ClientInv (E : Env Rng SS) (cfg : Config) (c : Ctx Rng SS) : Prop where
  configured : Configured cfg c
  quiet : Quiet c
  phase : ClientPhase E c

variable {cfg : Config}

theorem Configured.congr (h : Configured cfg c) (hi : c'.setup = c.setup) :
    Configured cfg c' := by
  simp only [Ctx.setup, Setup.mk.injEq] at hi
  obtain ⟨hr, ha, hh, hs, -⟩ := hi
  exact ⟨hr.trans h.role, ha.trans h.any, by rw [hh, hs]; exact h.pin⟩

theorem clientHello_congr (hi : c'.setup = c.setup) : clientHello c' = clientHello c := by
  simp only [Ctx.setup, Setup.mk.injEq] at hi
  obtain ⟨hr, -, -, -, hh, hp, he, -⟩ := hi
  unfold clientHello
  rw [hr, hh, hp, he]

theorem Quiet.of_verified (h : Quiet c) (hv : c.verified ≠ []) (hp : c.hist <+: c'.hist)
    (hi : c'.setup = c.setup) : Quiet c' := by
  constructor <;> rw [unverified_mono hv hp]
  · rw [clientHello_congr hi]
    exact h.output
  · exact h.events

theorem Quiet.moves_fresh {p : Powers} (h : Quiet c) (hv : c.verified = [])
    (hp : c.ssPushReady = false) (hm : Moves E p c c') : Quiet c' := by
  have hv' : c'.verified = [] := hm.verified.trans hv
  have ho := h.output
  have he := h.events
  rw [unverified_fresh hv] at ho he
  constructor <;> rw [unverified_fresh hv']
  · rw [clientHello_congr (setup_of_identity hm.identity)]
    exact (hm.output_rest hp).1.trans ho
  · intro ev hev
    obtain ⟨l, hl, hs⟩ := hm.hist
    rw [hl, List.filterMap_append, List.mem_append] at hev
    rcases hev with hev | hev
    · exact he ev hev
    · obtain ⟨o, hmem, hoe⟩ := List.mem_filterMap.mp hev
      have := (hs o hmem).1
      cases o <;> cases hoe <;> exact this

theorem ClientPhase.congr (h : ClientPhase E c) (hv : c'.verified = c.verified)
    (hi : c'.identity = c.identity) (hp : c.hist <+: c'.hist)
    (hs : c'.ssPushReady = c.ssPushReady ∧ c'.ssPullReady = c.ssPullReady)
    (hst : c'.state = c.state ∧ c'.hs = c.hs ∨
      (c'.state = .error ∨ c'.state = .closed) ∧ c'.hs = c.hs) :
    ClientPhase E c' := by
  have hhs : c'.hs = c.hs := hst.elim And.right And.right
  cases h with
  | fresh h1 h2 h3 =>
    refine .fresh (hv.trans h1) ⟨hs.1.trans h2.1, hs.2.trans h2.2⟩ ?_
    rcases hst with ⟨hst, -⟩ | ⟨hst, -⟩
    · rw [hst, hhs]
      exact h3
    · exact Or.inr hst
  | trusting h h1 h2 h3 h4 =>
    exact .trusting h (hv.trans h1) (h2.congr (setup_of_identity hi) hp) (hi ▸ h3) (by rwa [hhs])
  | broken h h1 h2 h3 =>
    refine .broken h (hv.trans h1) (h2.congr (setup_of_identity hi) hp) ?_
    rcases hst with ⟨hst, -⟩ | ⟨hst, -⟩
    · rwa [hst]
    · exact hst

theorem ClientPhase.moves {p : Powers} (h : ClientPhase E c) (hm : Moves E p c c') :
    ClientPhase E c' := by
  have hhs : c'.hs = c.hs := by
    rw [hm.overlay]
    rfl
  refine h.congr hm.verified hm.identity hm.hist_mono ?_ ?_
  · rw [hm.overlay]
    exact ⟨rfl, rfl⟩
  · exact hm.state.imp (fun hs => ⟨hs, hhs⟩) fun hs => ⟨hs, hhs⟩

theorem ClientInv.moves {p : Powers} (h : ClientInv E cfg c) (hm : Moves E p c c') :
    ClientInv E cfg c' := by
  refine ⟨h.configured.congr (setup_of_identity hm.identity), ?_, h.phase.moves hm⟩
  by_cases hv : c.verified = []
  · cases h.phase with
    | fresh _ h2 => exact h.quiet.moves_fresh hv h2.1 hm
    | trusting h hv' | broken h hv' => rw [hv] at hv'; cases hv'
  · exact h.quiet.of_verified hv hm.hist_mono (setup_of_identity hm.identity)

/-- A client that has just accepted a HELLO. -/
structure Accepting (E : Env Rng SS) (cfg : Config) (h : Wire.Hello) (c : Ctx Rng SS) : Prop where
  configured : Configured cfg c
  quiet : Quiet c
  verified : c.verified = [h]
  heard : Heard E c h

theorem Accepting.extend {h : Wire.Hello} (ha : Accepting E cfg h c) (hi : c'.setup = c.setup)
    {l : List Occ} (hh : c'.hist = c.hist ++ l) (ho : ∀ o ∈ l, o.isSession = false) :
    Accepting E cfg h c' := by
  have hp : c.hist <+: c'.hist := ⟨l, hh.symm⟩
  exact ⟨ha.configured.congr hi, ha.quiet.of_verified (by simp [ha.verified]) hp hi,
    (verified_append hh ho).trans ha.verified, ha.heard.congr hi hp⟩

theorem Accepting.same {h : Wire.Hello} (ha : Accepting E cfg h c) (hi : c'.setup = c.setup)
    (hh : c'.hist = c.hist) : Accepting E cfg h c' :=
  ha.extend (l := []) hi (by rw [hh, List.append_nil]) (by simp)

theorem Accepting.failed {h : Wire.Hello} (ha : Accepting E cfg h c) (code : Rc) (msg : String) :
    ClientInv E cfg (setError c code msg) := by
  have hm : Moves E ⟨True, True⟩ c (setError c code msg) := Moves.recordError trivial code msg
  obtain ⟨l, hl, ho⟩ := hm.hist
  have ha' := ha.extend (setup_of_identity hm.identity) hl fun o hmem => (ho o hmem).1
  exact ⟨ha'.configured, ha'.quiet,
    .broken h ha'.verified ha'.heard (Or.inl (setError_state _ _ _))⟩

theorem Accepting.framed {h : Wire.Hello} (ha : Accepting E cfg h c) (kc ks : Key) (st : SS)
    (rng : Rng) (body : Bytes) : Accepting E cfg h
      ((((c.withKeys kc ks).withPush st rng).withFrame body).enter .ssHeader .waitPeerSs) :=
  ha.extend (l := [.appended (rawFrame body)]) rfl rfl (by simp [Occ.isSession])

theorem headerLost_same (h : HeaderLost c c') : c'.setup = c.setup ∧ c'.hist = c.hist := by
  cases h <;> exact ⟨rfl, rfl⟩

theorem Configured.took (hc : Configured cfg c) (h : Wire.Hello) :
    Configured cfg (clientTakeHello c h) := by
  rw [clientTakeHello_eq]
  refine ⟨hc.role, hc.any, fun ha hh => ?_⟩
  have hany := hc.any.trans ha
  simp only [hany, Bool.false_or] at hh ⊢
  exact hc.pin ha hh

theorem clientTakeHello_hello (c : Ctx Rng SS) (h : Wire.Hello) :
    clientHello (clientTakeHello c h) = clientHello c := by
  rw [clientTakeHello_eq]
  rfl

theorem ClientInv.took (hi : ClientInv E cfg c) (hv : c.verified = [])
    (hs : c.streamsClosed) (hst : c.state = .hello ∧ c.hs = .waitPeerHello) (h : Wire.Hello) :
    ClientInv E cfg (clientTakeHello c h) := by
  have hq := hi.quiet
  refine ⟨hi.configured.took h, ⟨?_, ?_⟩, ?_⟩
  · rw [clientTakeHello_hello, clientTakeHello_eq]
    exact hq.output
  · rw [clientTakeHello_eq]
    exact hq.events
  · rw [clientTakeHello_eq]
    exact .fresh hv hs (Or.inl hst)

theorem ClientInv.verified (hi : ClientInv E cfg c) (hv : c.verified = []) {h : Wire.Hello}
    {body : Bytes} (hf : .frame (rawFrame body) ∈ c.hist) (hd : Wire.helloDecode body = .ok h)
    (ht : HelloTrusted E c h) : Accepting E cfg h (c.verifiedServer h) := by
  have hq := hi.quiet
  have hu := unverified_fresh hv
  obtain ⟨r, o, pk, ho, he⟩ := verifiedServer_eq c h
  have hov : o.verified? = none := by
    rcases ho with rfl | rfl <;> rfl
  have hu' : (c.verifiedServer h).unverified = c.hist :=
    unverified_of_mem hv ⟨[o], by rw [he]⟩
  have hconf := hi.configured.took h
  refine ⟨?_, ⟨?_, ?_⟩, ?_, ⟨⟨?_, ?_⟩, body, ?_, hd⟩⟩
  · rw [he]
    exact ⟨hconf.role, hconf.any, hconf.pin⟩
  · rw [hu', ← hu, hq.output, ← clientTakeHello_hello c h, he]
    rfl
  · rw [hu', ← hu]
    exact hq.events
  · rw [he]
    unfold Ctx.verified at hv ⊢
    simp only [List.filterMap_append, List.filterMap_cons, List.filterMap_nil, hv, hov]
    rfl
  · rw [he, clientTakeHello_eq]
    cases ha : c.acceptAnyServerPk with
    | true => exact Or.inl rfl
    | false =>
      have := ht.pinned
      simp_all
  · rw [he, clientTakeHello_eq]
    exact ht.signed
  · rw [he]
    simp [hf]

theorem ClientInv.hello (hi : ClientInv E cfg c) (he : c.state ≠ .error) (hc : c.state ≠ .closed)
    (hs : c.hs = .waitPeerHello) {body : Bytes} (hf : .frame (rawFrame body) ∈ c.hist) :
    ClientInv E cfg (handlePeerHello E c body).1 := by
  obtain ⟨hv, hcl, hst⟩ : c.verified = [] ∧ c.streamsClosed ∧ c.state = .hello := by
    cases hi.phase with
    | fresh h1 h2 h3 =>
      rcases h3 with ⟨h3, -⟩ | h3 | h3
      · exact ⟨h1, h2, h3⟩
      · exact absurd h3 he
      · exact absurd h3 hc
    | trusting _ _ _ _ h => rw [hs] at h; rcases h with h | h <;> cases h
    | broken _ _ _ h => rcases h with h | h <;> contradiction
  unfold handlePeerHello
  split
  · exact hi.moves (Moves.recordError trivial _ _ : Moves E ⟨True, True⟩ c _)
  · rename_i h hd
    rw [hi.configured.role]
    have hef := clientHandleHello_effect E c h
    generalize clientHandleHello E c h = r at hef
    cases hef with
    | refused msg => exact hi.moves (Moves.recordError trivial _ _ : Moves E ⟨True, True⟩ c _)
    | forged msg =>
      exact (hi.took hv hcl ⟨hst, hs⟩ h).moves
        (Moves.recordError trivial _ _ : Moves E ⟨True, True⟩ _ _)
    | keyless kc msg ht =>
      have ha : Accepting E cfg h ((c.verifiedServer h).withC2s kc) :=
        (hi.verified hv hf hd ht).same rfl rfl
      exact ha.failed _ _
    | stuck kc ks c' msg ht hl =>
      have ha : Accepting E cfg h ((c.verifiedServer h).withKeys kc ks) :=
        (hi.verified hv hf hd ht).same rfl rfl
      exact (ha.same (headerLost_same hl).1 (headerLost_same hl).2).failed _ _
    | accepted kc ks st header rng ht hk =>
      have ha := (hi.verified hv hf hd ht).framed kc ks st rng header.val
      obtain ⟨r, o, pk, -, heq⟩ := verifiedServer_eq c h
      refine ⟨ha.configured, ha.quiet, .trusting h ha.verified ha.heard ?_ (Or.inl rfl)⟩
      rw [heq, clientTakeHello_eq]
      exact ⟨rfl, rfl, rfl, hk⟩

theorem ClientPhase.trusting_of_live (h : ClientPhase E c) (hst : c.state = .ssHeader ∨
    c.state = .auth ∨ c.state = .ready ∨ c.state = .draining) :
    ∃ h, c.verified = [h] ∧ Heard E c h ∧ Bound E c.identity h ∧
      (c.hs = .waitPeerSs ∨ c.hs = .done) := by
  have hn : c.state ≠ .hello ∧ c.state ≠ .error ∧ c.state ≠ .closed := by
    rcases hst with h | h | h | h <;> simp [h]
  cases h with
  | fresh _ _ h => simp [hn] at h
  | trusting h h1 h2 h3 h4 => exact ⟨h, h1, h2, h3, h4⟩
  | broken _ _ _ h => simp [hn] at h

/-- A trusting client keeps its promises as long as it keeps its keys. -/
theorem ClientInv.live (h : ClientInv E cfg c) {w : Wire.Hello} (hv : c.verified = [w])
    (hd : Heard E c w) (hb : Bound E c.identity w) (hi : c'.identity = c.identity)
    (hp : c.hist <+: c'.hist) (hv' : c'.verified = c.verified)
    (hs : c'.hs = .waitPeerSs ∨ c'.hs = .done) : ClientInv E cfg c' := by
  have hset := setup_of_identity hi
  exact ⟨h.configured.congr hset, h.quiet.of_verified (by simp [hv]) hp hset,
    .trusting w (hv'.trans hv) (hd.congr hset hp) (hi ▸ hb) hs⟩

theorem ClientInv.output (h : ClientInv E cfg c) (n : ℕ) : ClientInv E cfg (getOutput c n).1 := by
  obtain ⟨b, o, he⟩ := getOutput_eq c n
  rw [he]
  exact ⟨h.configured.congr rfl, ⟨h.quiet.output, h.quiet.events⟩,
    h.phase.congr rfl rfl List.prefix_rfl ⟨rfl, rfl⟩ (Or.inl ⟨rfl, rfl⟩)⟩

theorem Occ.isInput_silent {o : Occ} (h : o.isInput) :
    o.isSession = false ∧ o.appended? = none ∧ o.emitted? = none := by
  cases o with
  | frame | pulled => exact ⟨rfl, rfl, rfl⟩
  | _ => cases h

theorem ClientInv.input (h : ClientInv E cfg c) {o : Occ} (ho : o.isInput) {c' : Ctx Rng SS}
    (hh : c'.hist = c.hist ++ [o]) (hi : c'.identity = c.identity)
    (hs : c'.ssPushReady = c.ssPushReady ∧ c'.ssPullReady = c.ssPullReady)
    (hst : c'.state = c.state ∧ c'.hs = c.hs) : ClientInv E cfg c' := by
  have hp : c.hist <+: c'.hist := ⟨[o], hh.symm⟩
  have hset := setup_of_identity hi
  obtain ⟨hses, hnone⟩ := Occ.isInput_silent ho
  have hv : c'.verified = c.verified := verified_append hh (by simpa using hses)
  refine ⟨h.configured.congr hset, ?_, h.phase.congr hv hi hp hs (Or.inl hst)⟩
  by_cases hn : c.verified = []
  · have hq := h.quiet
    have hq1 := hq.output
    have hq2 := hq.events
    rw [unverified_fresh hn] at hq1 hq2
    constructor <;> rw [unverified_fresh (hv.trans hn), hh, List.filterMap_append]
    · rw [clientHello_congr hset, hq1]
      simp [hnone.1]
    · simpa [hnone.2] using hq2
  · exact h.quiet.of_verified hn hp hset

theorem ClientInv.ssHeader (h : ClientInv E cfg c) (he : c.state ≠ .error) (hc : c.state ≠ .closed)
    (hs : c.hs = .waitPeerSs) (body : Bytes) : ClientInv E cfg (handlePeerSsHeader E c body).1 := by
  have hr := h.configured.role
  obtain ⟨w, hv, hd, hb⟩ : ∃ w, c.verified = [w] ∧ Heard E c w ∧ Bound E c.identity w := by
    cases h.phase with
    | fresh _ _ h3 => simp [hs, he, hc] at h3
    | trusting w h1 h2 h3 => exact ⟨w, h1, h2, h3⟩
    | broken _ _ _ h3 => simp [he, hc] at h3
  obtain ⟨hi, hv'⟩ := handlePeerSsHeader_identity (E := E) hr body
  obtain ⟨l, hl, -⟩ := (handlePeerSsHeader_only (E := E) (c := c) body).hist
  have hset := setup_of_identity hi
  have hp : c.hist <+: (handlePeerSsHeader E c body).1.hist := ⟨l, hl.symm⟩
  rcases handlePeerSsHeader_state E c body with hst | ⟨-, hst⟩
  · exact ⟨h.configured.congr hset, h.quiet.of_verified (by simp [hv]) hp hset,
      .broken w (hv'.trans hv) (hd.congr hset hp) (Or.inl hst)⟩
  · exact h.live hv hd hb hi hp hv' (Or.inr hst)

theorem ClientInv.authOk (h : ClientInv E cfg c) (hs : c.hs = .done) (hst : c.state = .auth)
    (plain : Bytes) : ClientInv E cfg (handleAuthOkPdu c plain).1 := by
  have he := handleAuthOkPdu_effect c plain
  generalize handleAuthOkPdu c plain = r at he
  cases he with
  | refused msg => exact h.moves (Moves.recordError trivial _ _ : Moves E ⟨True, True⟩ c _)
  | accepted =>
    obtain ⟨w, hv, hd, hb, -⟩ := h.phase.trusting_of_live (Or.inr (Or.inl hst))
    rw [emitAuthenticated, emit_eq]
    refine h.live hv hd hb rfl ⟨_, rfl⟩ ?_ (Or.inr hs)
    unfold Ctx.verified
    rw [List.filterMap_append]
    rcases emitOcc_cases { c with authComplete := true, state := .ready } .authenticated
      with h | h <;>
      rw [h] <;> simp [Occ.verified?]

theorem ClientInv.turn {quit : Prop} (h : ClientInv E cfg c) (ht : Turn E quit c c') :
    ClientInv E cfg c' := by
  have hr := h.configured.role
  cases ht with
  | output n => exact h.output n
  | input =>
    exact ⟨h.configured.congr rfl, ⟨h.quiet.output, h.quiet.events⟩,
      h.phase.congr rfl rfl List.prefix_rfl ⟨rfl, rfl⟩ (Or.inl ⟨rfl, rfl⟩)⟩
  | frame raw => exact h.input (o := .frame raw) rfl rfl rfl ⟨rfl, rfl⟩ ⟨rfl, rfl⟩
  | pull => exact h.input (o := .pulled _ _ _) rfl rfl rfl ⟨rfl, rfl⟩ ⟨rfl, rfl⟩
  | drain _ hd =>
    have hlive :
        c.state = .ssHeader ∨ c.state = .auth ∨ c.state = .ready ∨ c.state = .draining := by
      rcases hd with ⟨hs | hs, -⟩ | ⟨hs, -⟩ <;> simp [hs]
    obtain ⟨w, hv, hd, hb, hs⟩ := h.phase.trusting_of_live hlive
    exact h.live hv hd hb rfl List.prefix_rfl rfl hs
  | hello body he hc hs hf => exact h.hello he hc hs hf
  | ssHeader body he hc hs => exact h.ssHeader he hc hs body
  | authDevice plain =>
    have he := handleAuthDevicePdu_effect E c plain
    generalize handleAuthDevicePdu E c plain = r at he
    cases he with
    | refused code msg => exact h.moves (Moves.recordError trivial _ _ : Moves E ⟨True, True⟩ c _)
    | forged _ _ hs => rw [hr] at hs; cases hs
    | accepted _ _ _ _ hv _ => exact absurd (hr.symm.trans hv.role) (by rintro ⟨⟩)
  | authOk plain hs hst => exact h.authOk hs hst plain
  | decide k accept claims =>
    have he := authDecideEx_effect E c accept claims
    generalize authDecideEx E c accept claims = r at he
    have hno : ¬ MayDecide c := fun hm => by
      have := hm.role
      rw [hr] at this
      cases this
    cases he with
    | refused rc hrc =>
      unfold record
      rwa [if_neg hrc]
    | unsent _ _ hm | accepted _ hm | rejected _ _ _ hm => exact absurd hm hno

theorem clientInv_started (hc : Configured cfg c) (hh : c.hist = []) (hs : c.streamsClosed) :
    ClientInv E cfg c.started := by
  have hst : c.started = { c.withFrame (Wire.helloBody (clientHello c)) with
      state := .hello, hs := .waitPeerHello } := by
    unfold Ctx.started
    rw [hc.role]
  have hv : c.started.verified = [] := by
    simp [hst, Ctx.verified, Ctx.withFrame, hh, Occ.verified?]
  refine ⟨?_, ⟨?_, ?_⟩, ?_⟩
  · rw [hst]
    exact hc.congr rfl
  · rw [unverified_fresh hv, hst]
    simp only [Ctx.withFrame, hh]
    rfl
  · rw [unverified_fresh hv, hst]
    simp [Ctx.withFrame, hh, Occ.emitted?]
  · refine .fresh hv ?_ ?_ <;> rw [hst]
    · exact hs
    · exact Or.inl ⟨rfl, rfl⟩

theorem ClientInv.reset (hk : KeypairSucceeds E) (h : ClientInv E cfg c) :
    ClientInv E cfg (reset E c) := by
  obtain ⟨rng, hn, -⟩ | ⟨pk, sk, rng, -, he⟩ := reset_cases E c
  · have := hk c.rng
    change (E.kxKeypair c.rng).1.isSome at this
    rw [show E.kxKeypair c.rng = (none, rng) from hn] at this
    cases this
  · rw [he]
    have hc := h.configured
    exact clientInv_started ⟨hc.role, hc.any, hc.pin⟩ rfl ⟨rfl, rfl⟩

theorem clientInv_create {o : Option Config} {rng : Rng} {memOk : Bool}
    (h : create E .client o rng memOk = some c) : ClientInv E (o.getD {}) c := by
  obtain ⟨pk, sk, rng', -, rfl⟩ := create_eq_some h
  refine clientInv_started ⟨rfl, rfl, fun _ hp => ?_⟩ rfl ⟨rfl, rfl⟩
  obtain ⟨k, hk⟩ := Option.isSome_iff_exists.mp hp
  change (o.getD {}).serverIdPk = some (copyKey (o.getD {}).serverIdPk)
  rw [hk]
  rfl

/-- The identity of the server at a client: in every live state beyond HELLO the peer's key is the
configured one, unless any key will do, a received HELLO was signed under it over the transcript of
this session, and the stream keys come from the same exchange. Before a HELLO is accepted, the
client has queued nothing but its own HELLO and reported no progress. -/
theorem client_server_identity (hk : KeypairSucceeds E) {cfg : Option Config} {rng : Rng}
    {memOk : Bool} {c₀ : Ctx Rng SS} {l : List (Call × Ret)}
    (hc : create E .client cfg rng memOk = some c₀) (hrun : Run E (fun _ _ => True) c₀ l c) :
    (c.state = .ssHeader ∨ c.state = .auth ∨ c.state = .ready ∨ c.state = .draining →
      ((cfg.getD {}).acceptAnyServerPk = false → (cfg.getD {}).serverIdPk = some c.peerIdPk) ∧
      c.tHello = Wire.buildTHello 1 1 c.ephPk c.peerEphPk c.peerIdPk ∧
      (∃ body h, .frame (rawFrame body) ∈ c.hist ∧ Wire.helloDecode body = .ok h ∧
        E.signVerifyDetached h.idSig c.tHello.val c.peerIdPk) ∧
      ClientKeys E c.ephPk c.ephSk c.peerEphPk c.ssKeyC2s c.ssKeyS2c) ∧
    (∀ h ∈ c.verified, Heard E c h) ∧
    c.unverified.filterMap Occ.appended? = [rawFrame (Wire.helloBody (clientHello c))] ∧
    ∀ ev ∈ c.unverified.filterMap Occ.emitted?, ev.isSession = false := by
  have hinv : ClientInv E (cfg.getD {}) c := hrun.preserves (fun _ h _ => h.reset hk)
    (fun _ _ _ h _ hs => hs.advance.preserves h (fun _ _ h => h.moves) (fun _ _ h => h.turn))
    (fun _ _ h hs => (hs.advance False).preserves h (fun _ _ h => h.moves) (fun _ _ h => h.turn))
    (clientInv_create hc)
  refine ⟨fun hst => ?_, ?_, hinv.quiet.output, hinv.quiet.events⟩
  · obtain ⟨h, -, hd, hb, -⟩ := hinv.phase.trusting_of_live hst
    have hid : c.peerIdPk = h.idPk := hb.idPk
    have ht : c.tHello = Wire.buildTHello protoVersion suiteV1 c.ephPk c.peerEphPk c.peerIdPk :=
      hb.tHello
    obtain ⟨body, hf, hdec⟩ := hd.received
    refine ⟨fun ha => ?_, ht, ⟨body, h, hf, hdec, ?_⟩, hb.keys⟩
    · have hany := hinv.configured.any.trans ha
      rcases hd.trusted.pinned with hp | ⟨hp, hq⟩
      · rw [hany] at hp
        cases hp
      · rw [hinv.configured.pin ha hp, hid, hq]
    · rw [ht, hid, show c.peerEphPk = h.ephPk from hb.ephPk]
      exact hd.trusted.signed
  · intro h hm
    cases hinv.phase with
    | fresh hv => rw [hv] at hm; cases hm
    | trusting w hv hd | broken w hv hd =>
      rw [hv, List.mem_singleton] at hm
      exact hm ▸ hd

def plainClientAuth : List Call :=
  [.feedInput (rawFrame (Wire.helloBody ⟨1, 1, 0, 0, plainKey 1, plainKey 5, BytesN.zero 64⟩)),
    .feedInput (rawFrame (BytesN.zero 24).val)]

theorem client_server_identity_plain :
    (play plainEnv plainClientStart plainClientAuth).state = .auth ∧
    (plainClient.acceptAnyServerPk = false →
      plainClient.serverIdPk = some (play plainEnv plainClientStart plainClientAuth).peerIdPk) :=
  have hst : (play plainEnv plainClientStart plainClientAuth).state = .auth := by decide +kernel
  ⟨hst, ((client_server_identity (fun _ => rfl) create_plainClient
    (run_play (fun _ _ _ => trivial) _)).1 (Or.inr (Or.inl hst))).1⟩

end Sodchan
