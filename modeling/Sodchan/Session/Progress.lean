import Sodchan.Session.Uniform
import Sodchan.Model.Plain

/-! # Progress of a session

Every public state comes with one stage of the handshake, and no call leads
back to an earlier state, except for a reset that obtains a new key pair. The
branches that guard against any other combination are never taken.
-/

namespace Sodchan

open ByteString

variable {Rng SS : Type} {E : Env Rng SS} {c c' c'' : Ctx Rng SS} {quit : Prop}

def State.rank : State → ℕ
  | .idle => 0
  | .hello => 1
  | .ssHeader => 2
  | .auth => 3
  | .ready => 4
  | .draining => 5
  | .error => 6
  | .closed => 7

theorem rank_of_ended (h : c.ended) : 6 ≤ c.state.rank := by
  rcases h with h | h <;> rw [h] <;> decide

theorem rank_of_live (h : ¬ c.ended) : c.state.rank < 6 := by
  unfold Ctx.ended at h
  cases hs : c.state <;> simp_all [State.rank]

/-- What goes with each public state. -/
structure Lifecycle (c : Ctx Rng SS) : Prop where
  idle : c.state ≠ .idle
  hello : c.state = .hello →
    c.hs = .waitPeerHello ∧ c.ssPushReady = false ∧ c.ssPullReady = false
  ssHeader : c.state = .ssHeader → c.hs = .waitPeerSs ∧ c.haveTHello ∧ c.havePeerEph ∧
    c.ssPullReady = false ∧ (c.ssPushReady ↔ c.role = .client)
  done : c.state = .auth ∨ c.state = .ready ∨ c.state = .draining →
    c.hs = .done ∧ c.haveTHello ∧ c.ssPushReady ∧ c.ssPullReady
  ready : c.state = .ready → c.authComplete

namespace Lifecycle

theorem ended (h : c.ended) : Lifecycle c := by
  rcases h with h | h <;> constructor <;> simp [h]

theorem congr (h : Lifecycle c) (hs : c'.state = c.state) (hh : c'.hs = c.hs)
    (hr : c'.role = c.role) (ht : c'.haveTHello = c.haveTHello)
    (he : c'.havePeerEph = c.havePeerEph) (hp : c'.ssPushReady = c.ssPushReady)
    (hl : c'.ssPullReady = c.ssPullReady) (ha : c'.authComplete = c.authComplete) :
    Lifecycle c' := by
  constructor
  · rw [hs]
    exact h.idle
  · rw [hs, hh, hp, hl]
    exact h.hello
  · rw [hs, hh, ht, he, hp, hl, hr]
    exact h.ssHeader
  · rw [hs, hh, ht, hp, hl]
    exact h.done
  · rw [hs, ha]
    exact h.ready

theorem moves {p : Powers} (h : Lifecycle c) (hm : Moves E p c c') : Lifecycle c' := by
  have ho := hm.overlay
  rcases hm.state with hs | hs
  · refine h.congr hs ?_ ?_ ?_ ?_ ?_ ?_ ?_ <;> rw [ho] <;> rfl
  · exact ended hs

/-- The handshake tells the public state of a live session. -/
theorem stage (h : Lifecycle c) (he : c.state ≠ .error) (hc : c.state ≠ .closed) :
    (c.state = .hello ∧ c.hs = .waitPeerHello) ∨ (c.state = .ssHeader ∧ c.hs = .waitPeerSs) ∨
    (c.state = .auth ∨ c.state = .ready ∨ c.state = .draining) ∧ c.hs = .done := by
  have hi := h.idle
  have h1 := h.hello
  have h2 := h.ssHeader
  have h3 := h.done
  cases hs : c.state <;> simp_all

theorem started (hp : c.ssPushReady = false) (hl : c.ssPullReady = false) :
    Lifecycle c.started := by
  unfold Ctx.started
  split
  · exact ⟨(by rintro ⟨⟩), fun _ => ⟨rfl, hp, hl⟩, (by rintro ⟨⟩), by simp, (by rintro ⟨⟩)⟩
  · exact ⟨(by rintro ⟨⟩), fun _ => ⟨rfl, hp, hl⟩, (by rintro ⟨⟩), by simp, (by rintro ⟨⟩)⟩

theorem reset (hk : (E.kxKeypair c.rng).1.isSome) : Lifecycle (reset E c) := by
  obtain ⟨rng, he, -⟩ | ⟨pk, sk, rng, -, he⟩ := reset_cases E c
  · rw [he] at hk
    cases hk
  · rw [he]
    exact started rfl rfl

end Lifecycle

theorem handlePeerHello_lifecycle (hs : c.ssPushReady = false ∧ c.ssPullReady = false)
    (body : Bytes) : Lifecycle (handlePeerHello E c body).1 := by
  have hfail : ∀ (d : Ctx Rng SS) code msg, Lifecycle (setError d code msg) :=
    fun d code msg => .ended (Or.inl (setError_state _ _ _))
  unfold handlePeerHello
  split
  · exact hfail _ _ _
  · rename_i h _
    split
    · rename_i hr
      have he := clientHandleHello_effect E c h
      generalize clientHandleHello E c h = r at he
      cases he with
      | accepted kc ks st header rng =>
        obtain ⟨r, o, pk, -, hv⟩ := verifiedServer_eq c h
        rw [hv, clientTakeHello_eq]
        exact ⟨(by rintro ⟨⟩), (by rintro ⟨⟩),
          fun _ => ⟨rfl, rfl, rfl, hs.2,
            by simp [Ctx.enter, Ctx.withFrame, Ctx.withPush, Ctx.withKeys, hr]⟩,
          by simp [Ctx.enter], (by rintro ⟨⟩)⟩
      | _ => exact hfail _ _ _
    · rename_i hr
      have he := serverHandleHello_effect E hr h
      generalize serverHandleHello E c h = r at he
      cases he with
      | accepted sig kc ks =>
        obtain ⟨r, o, pk, -, hv⟩ := sawClient_eq c h
        rw [hv, serverTakeHello_eq]
        exact ⟨(by rintro ⟨⟩), (by rintro ⟨⟩),
          fun _ => ⟨rfl, rfl, rfl, hs.2, by simp [Ctx.enter, Ctx.withFrame, Ctx.helloQueued,
            serverTranscript, Ctx.withKeys, hr, hs.1]⟩,
          by simp [Ctx.enter], (by rintro ⟨⟩)⟩
      | _ => exact hfail _ _ _

theorem handlePeerSsHeader_lifecycle (ht : c.haveTHello)
    (hp : c.ssPushReady ↔ c.role = .client) (body : Bytes) :
    Lifecycle (handlePeerSsHeader E c body).1 := by
  have hfail : ∀ (d : Ctx Rng SS) code msg, Lifecycle (setError d code msg) :=
    fun d code msg => .ended (Or.inl (setError_state _ _ _))
  unfold handlePeerSsHeader
  split
  · rename_i hl
    split
    · rename_i hr
      have hkx : ∀ st, Lifecycle (c.clientKx st) := fun st => by
        rw [clientKx_eq]
        exact ⟨(by rintro ⟨⟩), (by rintro ⟨⟩), (by rintro ⟨⟩), fun _ => ⟨rfl, ht, hp.mpr hr, rfl⟩,
          (by rintro ⟨⟩)⟩
      have he := clientHandleSsHeader_effect E c ⟨body, hl⟩
      generalize clientHandleSsHeader E c ⟨body, hl⟩ = r at he
      cases he with
      | silent st => exact hkx st
      | sent st => exact (hkx st).congr rfl rfl rfl rfl rfl rfl rfl rfl
      | _ => exact hfail _ _ _
    · have he := serverHandleSsHeader_effect E c ⟨body, hl⟩
      generalize serverHandleSsHeader E c ⟨body, hl⟩ = r at he
      cases he with
      | accepted st =>
        rw [emitKxComplete, emit_eq]
        exact ⟨(by rintro ⟨⟩), (by rintro ⟨⟩), (by rintro ⟨⟩), fun _ => ⟨rfl, ht, rfl, rfl⟩,
          (by rintro ⟨⟩)⟩
      | _ => exact hfail _ _ _
  · exact hfail _ _ _

theorem Lifecycle.turn (h : Lifecycle c) (ht : Turn E quit c c') :
    Lifecycle c' ∧ c.state.rank ≤ c'.state.rank := by
  have hstep : ∀ {d : Ctx Rng SS} {s : State} (s' : State), c.state = s → d.state = s' →
      s.rank ≤ s'.rank → c.state.rank ≤ d.state.rank := by
    rintro d s s' rfl rfl hr
    exact hr
  cases ht with
  | output n =>
    obtain ⟨b, o, he⟩ := getOutput_eq c n
    rw [he]
    exact ⟨h.congr rfl rfl rfl rfl rfl rfl rfl rfl, le_rfl⟩
  | input | frame | pull => exact ⟨h.congr rfl rfl rfl rfl rfl rfl rfl rfl, le_rfl⟩
  | drain _ hd =>
    have hs : c.state = .auth ∨ c.state = .ready ∨ c.state = .draining := by
      rcases hd with ⟨hs | hs, -⟩ | ⟨hs, -⟩ <;> simp [hs]
    refine ⟨⟨(by rintro ⟨⟩), (by rintro ⟨⟩), (by rintro ⟨⟩), fun _ => h.done hs, (by rintro ⟨⟩)⟩,
      ?_⟩
    rcases hs with hs | hs | hs <;> exact hstep .draining hs rfl (by decide)
  | hello body he hc hw =>
    obtain ⟨hs, -⟩ | ⟨-, hh⟩ | ⟨-, hh⟩ := h.stage he hc
    · refine ⟨handlePeerHello_lifecycle (h.hello hs).2 body, ?_⟩
      obtain hst | ⟨hst, -⟩ := handlePeerHello_state E c body <;> exact hstep _ hs hst (by decide)
    · exact absurd (hh.symm.trans hw) (by rintro ⟨⟩)
    · exact absurd (hh.symm.trans hw) (by rintro ⟨⟩)
  | ssHeader body he hc hw =>
    obtain ⟨-, hh⟩ | ⟨hs, -⟩ | ⟨-, hh⟩ := h.stage he hc
    · exact absurd (hh.symm.trans hw) (by rintro ⟨⟩)
    · obtain ⟨-, ht, -, -, hp⟩ := h.ssHeader hs
      refine ⟨handlePeerSsHeader_lifecycle ht hp body, ?_⟩
      obtain hst | ⟨hst, -⟩ := handlePeerSsHeader_state E c body <;>
        exact hstep _ hs hst (by decide)
    · exact absurd (hh.symm.trans hw) (by rintro ⟨⟩)
  | authDevice plain _ hst =>
    have hmoves : ∀ {d d' : Ctx Rng SS}, d.state = c.state →
        Moves E ⟨False, False⟩ d d' → c.state.rank ≤ d'.state.rank := by
      intro d d' hd hm
      rcases hm.state with hs | hs
      · rw [hs, hd]
      · exact (rank_of_live (by simp [Ctx.ended, hst])).le.trans (rank_of_ended hs)
    obtain hm | hm | ⟨d, user, device, he⟩ := handleAuthDevicePdu_frame (E := E) hst plain
    · exact ⟨h.moves hm, hmoves rfl hm⟩
    · exact ⟨(h.congr rfl rfl rfl rfl rfl rfl rfl rfl : Lifecycle (c.log .authBadSig)).moves hm,
        hmoves (d := c.log .authBadSig) rfl hm⟩
    · obtain ⟨ev, r, -, ht⟩ := takeAuthDevice_eq E c d user device
      rw [he, ht]
      exact ⟨h.congr rfl rfl rfl rfl rfl rfl rfl rfl, le_rfl⟩
  | authOk plain _ hst =>
    have he := handleAuthOkPdu_effect c plain
    generalize handleAuthOkPdu c plain = r at he
    cases he with
    | refused msg =>
      exact ⟨.ended (Or.inl (setError_state _ _ _)), hstep _ hst (setError_state _ _ _) (by decide)⟩
    | accepted =>
      rw [emitAuthenticated, emit_eq]
      exact ⟨⟨(by rintro ⟨⟩), (by rintro ⟨⟩), (by rintro ⟨⟩), fun _ => h.done (Or.inl hst),
        fun _ => rfl⟩,
        hstep .ready hst rfl (by decide)⟩
  | decide k accept claims =>
    have hfail : ∀ (d : Ctx Rng SS) code msg, c.state = .auth → Lifecycle (setError d code msg) ∧
        c.state.rank ≤ (setError d code msg).state.rank := fun d code msg hs =>
      ⟨.ended (Or.inl (setError_state _ _ _)), hstep _ hs (setError_state _ _ _) (by decide)⟩
    have he := authDecideEx_effect E c accept claims
    generalize authDecideEx E c accept claims = r at he
    have hr : Lifecycle r.1 ∧ c.state.rank ≤ r.1.state.rank := by
      cases he with
      | refused => exact ⟨h, le_rfl⟩
      | unsent c' msg hm => exact hfail _ _ _ hm.state
      | accepted c' hm _ hmv =>
        have ho := (hmv ⟨True, True⟩).overlay
        have hd := h.done (Or.inl hm.state)
        rw [emitAuthenticated, emit_eq]
        refine ⟨⟨(by rintro ⟨⟩), (by rintro ⟨⟩), (by rintro ⟨⟩), fun _ => ?_, fun _ => rfl⟩,
          hstep .ready hm.state rfl (by decide)⟩
        rw [ho]
        exact hd
      | rejected c' msg msg' hm => exact hfail _ _ _ hm.state
    unfold record
    split
    · exact ⟨hr.1.congr rfl rfl rfl rfl rfl rfl rfl rfl, hr.2⟩
    · exact hr

theorem Advance.lifecycle (h : Advance E quit c c') (hc : Lifecycle c) : Lifecycle c' :=
  h.preserves hc (fun _ _ ha hm => ha.moves hm) (fun _ _ ha ht => (ha.turn ht).1)

/-- A live session moves forward, or not at all. -/
theorem Advance.rank (h : Advance E quit c c') (hc : Lifecycle c) (hl : ¬ c.ended) :
    c.state.rank ≤ c'.state.rank := by
  have hp : Lifecycle c' ∧ c.state.rank ≤ c'.state.rank := by
    refine h.preserves (P := fun d => Lifecycle d ∧ c.state.rank ≤ d.state.rank) ⟨hc, le_rfl⟩ ?_ ?_
    · rintro a b ⟨ha, hr⟩ hm
      refine ⟨ha.moves hm, ?_⟩
      rcases hm.state with hs | hs
      · rwa [hs]
      · exact (rank_of_live hl).le.trans (rank_of_ended hs)
    · rintro a b ⟨ha, hr⟩ ht
      obtain ⟨hb, hab⟩ := ha.turn ht
      exact ⟨hb, hr.trans hab⟩
  exact hp.2

/-- What a call other than a reset leads to. -/
structure Forward (c c' : Ctx Rng SS) : Prop where
  lifecycle : Lifecycle c'
  rank : c.state.rank ≤ c'.state.rank
  gone : c.ended → Silent c c' ∧ c'.ended

theorem call_forward (hc : Lifecycle c) {k : Call} (hk : k ≠ .reset) :
    Forward c (call E c k).1 := by
  by_cases hend : c.ended
  · by_cases hp : k.isPlain
    · obtain ⟨hs, hst⟩ := call_ended (E := E) hend hp
      have hover : (call E c k).1.ended := by
        unfold Ctx.ended
        rcases hst with hst | hst
        · rw [hst]
          exact hend
        · exact Or.inr hst
      refine ⟨.ended hover, ?_, fun _ => ⟨hs, hover⟩⟩
      rcases hst with hst | hst
      · rw [hst]
      · rw [hst]
        cases c.state <;> decide
    · cases k <;> first
        | exact absurd rfl hp
        | exact absurd rfl hk
        | skip
      rename_i data
      obtain h | ⟨h, -⟩ := feedInput_cases E c data
      · simp only [Sodchan.call, h]
        exact ⟨hc, le_rfl, fun _ => ⟨.refl c, hend⟩⟩
      · exact absurd hend h
  · have hadv : ∃ quit, Advance E quit c (call E c k).1 := by
      by_cases hp : k.isPlain
      · exact ⟨_, (Step.call k hp).advance⟩
      · cases k <;> first
          | exact absurd rfl hp
          | exact absurd rfl hk
          | exact ⟨False, (feedInput_steps c _).advance False⟩
    obtain ⟨quit, hadv⟩ := hadv
    exact ⟨hadv.lifecycle hc, hadv.rank hc hend, fun h => absurd h hend⟩

theorem Run.forward {l : List (Call × Ret)} (h : Run E (fun _ k => k ≠ .reset) c l c')
    (hc : Lifecycle c) : Forward c c' := by
  induction h with
  | nil => exact ⟨hc, le_rfl, fun h => ⟨.refl _, h⟩⟩
  | snoc k _ hk ih =>
    obtain ⟨hl, hr, ho⟩ := call_forward (E := E) ih.lifecycle hk
    refine ⟨hl, ih.rank.trans hr, fun hend => ?_⟩
    obtain ⟨hs, hb⟩ := ih.gone hend
    obtain ⟨hs', hb'⟩ := ho hb
    exact ⟨hs.trans hs', hb'⟩

/-- No internal error was raised in between. -/
def Clean (c c' : Ctx Rng SS) : Prop :=
  c'.errorMsg = c.errorMsg ∨ c'.errorMsg ∉ internalErrors

@[simp] theorem setError_errorMsg (c : Ctx Rng SS) (code : Rc) (msg : String) :
    (setError c code msg).errorMsg = msg := by
  unfold setError
  rw [emit_eq]

theorem ssSendPdu_errorMsg (c : Ctx Rng SS) (plain : Bytes) :
    (ssSendPdu E c plain).1.errorMsg = c.errorMsg := by
  obtain ⟨st, ct, -, -, h⟩ | ⟨b, o, rc, -, -, -, h⟩ := ssSendPdu_cases E c plain <;>
    rw [h]
  · rfl

theorem outAppendFrame_errorMsg (c : Ctx Rng SS) (body : Bytes) :
    (outAppendFrame c body).1.errorMsg = c.errorMsg := by
  unfold outAppendFrame
  split
  · rfl
  · rw [outAppend_eq]
    split <;> rfl

namespace Clean

theorem same (h : c'.errorMsg = c.errorMsg) : Clean c c' := Or.inl h

theorem trans (h : Clean c c') (h' : Clean c' c'') : Clean c c'' := by
  rcases h' with h' | h'
  · rcases h with h | h
    · exact Or.inl (h'.trans h)
    · exact Or.inr (h' ▸ h)
  · exact Or.inr h'

theorem error {code : Rc} {msg : String} (hm : msg ∉ internalErrors := by decide) :
    Clean c (setError c code msg) := Or.inr (by rwa [setError_errorMsg])

theorem upheld : Upheld E True (@Clean Rng SS) where
  trans := trans
  same h := same (congrArg Outline.errorMsg h)
  log _ _ _ := same rfl
  emit c ev := same (by rw [emit_eq])
  error _ _ _ hm := error (hm trivial)
  frame c body := same (outAppendFrame_errorMsg c body)
  send c pdu := same (ssSendPdu_errorMsg c pdu)
  pull _ _ _ _ _ _ _ := same rfl

theorem output (c : Ctx Rng SS) (n : ℕ) : Clean c (getOutput c n).1 := by
  obtain ⟨b, o, he⟩ := getOutput_eq c n
  rw [he]
  exact same rfl

end Clean

/-- In a coherent context no branch for an impossible state is taken. -/
theorem Lifecycle.possible (hc : Lifecycle c) (hl : ¬ c.ended) : Possible c := by
  unfold Ctx.ended at hl
  rw [not_or] at hl
  have hstage := hc.stage hl.1 hl.2
  refine ⟨fun hs => ?_, fun hd => ?_, fun hd => ?_, fun ha => (hc.done (Or.inl ha)).2.1⟩
  · obtain ⟨-, hh⟩ | ⟨-, hh⟩ | ⟨-, hh⟩ := hstage <;> exact absurd (hh.symm.trans hs) (by rintro ⟨⟩)
  · obtain ⟨-, hh⟩ | ⟨-, hh⟩ | ⟨hs, -⟩ := hstage
    · exact absurd (hh.symm.trans hd) (by rintro ⟨⟩)
    · exact absurd (hh.symm.trans hd) (by rintro ⟨⟩)
    · exact (hc.done hs).2.2.2
  · obtain ⟨-, hh⟩ | ⟨-, hh⟩ | ⟨hs, -⟩ := hstage
    · exact absurd (hh.symm.trans hd) (by rintro ⟨⟩)
    · exact absurd (hh.symm.trans hd) (by rintro ⟨⟩)
    · exact hs

theorem processOne_clean (hc : Lifecycle c) : Clean c (processOne E c).state :=
  Clean.upheld.processOne ⟨fun _ _ _ => .same rfl, fun _ _ => .same rfl⟩ fun _ => hc.possible

/-- A reset obtains a new key pair. -/
def Reseeds (E : Env Rng SS) (c : Ctx Rng SS) (k : Call) : Prop :=
  k = .reset → (E.kxKeypair c.rng).1.isSome

theorem reset_errorMsg (c : Ctx Rng SS) : (reset E c).errorMsg = "" := by
  obtain ⟨rng, -, he⟩ | ⟨pk, sk, rng, -, he⟩ := reset_cases E c <;> rw [he]
  · rfl
  · unfold Ctx.started
    split <;> rfl

theorem ReachableUnder.regular (h : ReachableUnder E (Reseeds E) c) :
    Lifecycle c ∧ c.errorMsg ∉ internalErrors := by
  have hclean : ∀ {b d : Ctx Rng SS}, b.errorMsg ∉ internalErrors → Clean b d →
      d.errorMsg ∉ internalErrors := by
    intro b d hb hd
    rcases hd with hd | hd
    · rwa [hd]
    · exact hd
  refine h.induction (P := fun d => Lifecycle d ∧ d.errorMsg ∉ internalErrors) ?_ ?_ ?_ ?_
  · intro role cfg rng memOk c hc
    obtain ⟨pk, sk, rng', -, rfl⟩ := create_eq_some hc
    refine ⟨.started rfl rfl, ?_⟩
    unfold Ctx.started
    split <;> exact (by decide : "" ∉ internalErrors)
  · intro c _ hg
    refine ⟨.reset (hg rfl), ?_⟩
    rw [reset_errorMsg]
    decide
  · rintro c _ k ⟨hl, hm⟩ - ⟨_, hk⟩
    exact ⟨(Step.call k hk).advance.lifecycle hl,
      hclean hm (Clean.upheld.call hk fun n _ => .output c n)⟩
  · intro c c' hc hs
    induction hs with
    | refl => exact hc
    | @tail a b _ hs ih =>
      rcases hs with hs | ⟨data, hs⟩
      · have hab : b = (processOne E a).state := by
          cases hs with
          | again h | stop h => rw [h]; rfl
        rw [hab]
        exact ⟨(processOne_advance E False a).lifecycle ih.1,
          hclean ih.2 (processOne_clean ih.1)⟩
      · cases hs with
        | intake => exact ⟨ih.1.congr rfl rfl rfl rfl rfl rfl rfl rfl, ih.2⟩

/-- As long as every reset obtains a key pair: the states and the handshake agree, no internal
error is raised, the state moves forward between resets, and a session that is over neither
appends to the output nor allocates a channel. -/
theorem lifecycle_coherent (h : ReachableUnder E (Reseeds E) c) :
    Lifecycle c ∧ c.errorMsg ∉ internalErrors ∧
      ∀ l c', Run E (fun _ k => k ≠ .reset) c l c' → c.state.rank ≤ c'.state.rank ∧
        (c.state = .error ∨ c.state = .closed →
          c'.appended = c.appended ∧ c'.allocs = c.allocs) := by
  obtain ⟨hl, hm⟩ := h.regular
  refine ⟨hl, hm, fun l c' hr => ?_⟩
  obtain ⟨-, hrank, hover⟩ := hr.forward hl
  exact ⟨hrank, fun hend => ⟨(hover hend).1.appended, (hover hend).1.allocs⟩⟩

theorem lifecycle_coherent_plain :
    Lifecycle (play plainEnv plainServerStart [.feedInput plainKx, .reset]) ∧
      Lifecycle plainServerReady := by
  have hg : ∀ ks : List Call, ∀ k ∈ ks, ∀ c : Ctx Unit Unit, Reseeds plainEnv c k :=
    fun _ _ _ _ _ => rfl
  exact ⟨(lifecycle_coherent (reachableUnder_play create_plainServer (hg _))).1,
    (lifecycle_coherent (reachableUnder_play create_plainServer (hg _))).1⟩

def fragileEnv : Env Bool Unit :=
  { plainEnv with
    kxKeypair := fun fresh => (if fresh then some (plainKey 1, plainKey 2) else none, false)
    ssInitPush := fun rng _ => (some ((), BytesN.zero 24), rng) }

def fragileServerStart : Ctx Bool Unit :=
  (create fragileEnv .server (some plainServer) true true).get (by decide)

/-- A reset that obtains no key pair leaves the session in AUTH, with closed streams. -/
theorem reset_leaves_auth :
    ¬ ∀ c : Ctx Bool Unit, Reachable fragileEnv c →
      Lifecycle c ∧ c.errorMsg ∉ internalErrors := by
  intro h
  have hc : create fragileEnv .server (some plainServer) true true = some fragileServerStart :=
    (Option.some_get _).symm
  have hm := (h _ (reachable_play hc [.feedInput plainKx, .reset,
    .feedInput (plainRecord [pduPing, 0, 0, 0, 0])])).2
  revert hm
  decide +kernel

end Sodchan
