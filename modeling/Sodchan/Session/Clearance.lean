import Sodchan.Model.Plain
import Sodchan.Session.Lifecycle

/-! # No channel activity before authentication

Channel PDUs are dispatched by the public state alone. As long as the host
does not disconnect during authentication, that state is reached only with a
completed authentication; a disconnect in AUTH leads to DRAINING without one.
-/

namespace Sodchan

variable {Rng SS : Type} {E : Env Rng SS} {c c' : Ctx Rng SS} {stale : Prop}

/-- A slot is in use, or a channel event was emitted in this session. -/
def Ctx.channelSeen (c : Ctx Rng SS) : Prop :=
  (∃ i, (c.channels i).state ≠ .unused) ∨ ∃ o ∈ c.hist, o.isChannel

theorem channelSeen_of (hs : ∀ i, c'.channels i = c.channels i ∨ (c'.channels i).state = .unused)
    {l : List Occ} (hl : c'.hist = c.hist ++ l) (ho : ∀ o ∈ l, o.isChannel = false)
    (h : c'.channelSeen) : c.channelSeen := by
  rcases h with ⟨i, hi⟩ | ⟨o, hm, hc⟩
  · rcases hs i with he | he
    · exact Or.inl ⟨i, he ▸ hi⟩
    · exact absurd he hi
  · rw [hl] at hm
    rcases List.mem_append.mp hm with hm | hm
    · exact Or.inr ⟨o, hm, hc⟩
    · rw [ho o hm] at hc
      cases hc

/-- Channels only after authentication, and the state that makes this inductive. -/
structure Clear (stale : Prop) (c : Ctx Rng SS) : Prop where
  cleared : Cleared stale False c
  seen : c.channelSeen → c.authComplete

theorem Moves.channelSeen {p : Powers} (hm : ¬ p.channels) (h : Moves E p c c') :
    c'.channelSeen → c.channelSeen := by
  obtain ⟨l, hl, ho⟩ := h.hist
  refine channelSeen_of (h.slot_rest hm) hl fun o hmem => ?_
  cases hc : o.isChannel with
  | false => rfl
  | true => exact absurd ((ho o hmem).channel hc) hm

theorem HandshakeOnly.channelSeen (h : HandshakeOnly c c') : c'.channelSeen → c.channelSeen := by
  obtain ⟨l, hl, ho⟩ := h.hist
  exact channelSeen_of h.slots hl fun o hm => (ho o hm).2

theorem Clear.moves (h : Clear stale c) (hm : Moves E ⟨c.muxActive, True⟩ c c') :
    Clear stale c' := by
  have hc : c'.authComplete = c.authComplete := by
    rw [hm.overlay]
    rfl
  refine ⟨h.cleared.moves hm, fun hs => ?_⟩
  rw [hc]
  by_contra hn
  have hmux : ¬ c.muxActive := by
    rintro ⟨hst, hopen⟩
    have hclosed : c.streamsClosed := by
      rcases hst with hst | hst
      · exact ((h.cleared.ready hst).resolve_left hn).2
      · exact ((h.cleared.draining not_false hst).resolve_left hn).2
    rcases hopen with hopen | hopen
    · exact absurd (hclosed.1.symm.trans hopen) (by rintro ⟨⟩)
    · exact absurd (hclosed.2.symm.trans hopen) (by rintro ⟨⟩)
  exact hn (h.seen (hm.channelSeen hmux hs))

theorem Clear.rest (h : Clear stale c) (hcl : Cleared stale False c')
    (hc : c'.authComplete = c.authComplete) (hs : c'.channelSeen → c.channelSeen) :
    Clear stale c' := ⟨hcl, fun hx => hc.trans (h.seen (hs hx))⟩

theorem Moves.authComplete {p : Powers} (h : Moves E p c c') :
    c'.authComplete = c.authComplete := by
  rw [h.overlay]
  rfl

theorem channelSeen_log {o : Occ} (ho : o.isChannel = false) (h : (c.log o).channelSeen) :
    c.channelSeen := by
  refine channelSeen_of ?_ ?_ ?_ h (l := [o])
  · exact fun _ => Or.inl rfl
  · rfl
  · simpa using ho

theorem channelSeen_takeDecision {accept : Bool} (h : (takeDecision c accept).channelSeen) :
    c.channelSeen := by
  refine channelSeen_of ?_ ?_ ?_ h (l := [.authDecided accept])
  · exact fun _ => Or.inl rfl
  · rfl
  · simp [Occ.isChannel]

theorem Clear.turn (h : Clear stale c) (ht : Turn E False c c') : Clear stale c' := by
  have hcl := h.cleared.turn ht
  cases ht with
  | output n =>
    obtain ⟨b, o, he⟩ := getOutput_eq c n
    rw [he] at hcl ⊢
    exact h.rest hcl rfl id
  | input | drain => exact h.rest hcl rfl id
  | frame raw => exact h.rest hcl rfl (channelSeen_log rfl)
  | pull => exact h.rest hcl rfl (channelSeen_log (o := .pulled _ _ _) rfl)
  | hello body =>
    have ho := handlePeerHello_only (E := E) (c := c) body
    exact h.rest hcl ho.complete ho.channelSeen
  | ssHeader body =>
    have ho := handlePeerSsHeader_only (E := E) (c := c) body
    exact h.rest hcl ho.complete ho.channelSeen
  | authDevice plain _ hst =>
    obtain hm | hm | ⟨d, user, device, he⟩ := handleAuthDevicePdu_frame (E := E) hst plain
    · exact h.rest hcl hm.authComplete (hm.channelSeen not_false)
    · exact h.rest hcl hm.authComplete fun hs => channelSeen_log rfl (hm.channelSeen not_false hs)
    · obtain ⟨ev, r, ⟨e, hech, hev⟩, ht⟩ := takeAuthDevice_eq E c d user device
      rw [he, ht] at hcl ⊢
      refine h.rest hcl rfl (channelSeen_of (fun _ => Or.inl rfl) rfl ?_)
      rcases hev with rfl | rfl <;> simpa [Occ.isChannel] using hech
  | authOk plain =>
    have he := handleAuthOkPdu_effect c plain
    generalize handleAuthOkPdu c plain = r at he hcl ⊢
    cases he with
    | refused msg =>
      have ho : HandshakeOnly c (setError c .protocol msg) := .failed _ msg
      exact h.rest hcl ho.complete ho.channelSeen
    | accepted =>
      refine ⟨hcl, fun _ => ?_⟩
      rw [emitAuthenticated, emit_eq]
  | decide k accept claims =>
    have he := authDecideEx_effect E c accept claims
    generalize authDecideEx E c accept claims = r at he hcl ⊢
    have hfail : ∀ {d : Ctx Rng SS}, Moves E ⟨False, False⟩ (takeDecision c accept) d →
        d.authComplete = c.authComplete ∧ (d.channelSeen → c.channelSeen) := fun hm =>
      ⟨hm.authComplete, fun hs => channelSeen_takeDecision (hm.channelSeen not_false hs)⟩
    have hr : r.1.channelSeen → r.1.authComplete := by
      cases he with
      | refused => exact h.seen
      | unsent c' msg _ hs hm =>
        have hf := hfail ((hs _).trans (Moves.setError .full msg hm))
        exact fun hs => hf.1.trans (h.seen (hf.2 hs))
      | accepted c' =>
        rw [emitAuthenticated, emit_eq]
        exact fun _ => rfl
      | rejected c' msg msg' _ _ hs hm =>
        have hf := hfail ((hs _).trans
          ((Moves.emit (.authFailed .policy msg) rfl rfl (by rintro ⟨⟩)).trans
          (Moves.setError .rejected msg' hm)))
        exact fun hs => hf.1.trans (h.seen (hf.2 hs))
    refine ⟨hcl, fun hs => ?_⟩
    unfold record at hs ⊢
    split at hs
    · rw [if_pos (by assumption)]
      exact hr (channelSeen_log rfl hs)
    · rw [if_neg (by assumption)]
      exact hr hs

theorem not_channelSeen_started (hc : ∀ i, (c.channels i).state = .unused) (hh : c.hist = []) :
    ¬ c.started.channelSeen := by
  unfold Ctx.started
  rintro (⟨i, hi⟩ | ⟨o, hm, ho⟩)
  · split at hi <;> exact hi (hc i)
  · split at hm
    · simp only [Ctx.withFrame, hh, List.nil_append, List.mem_singleton] at hm
      rw [hm] at ho
      cases ho
    · simp [hh] at hm

/-- While the host does not disconnect during authentication, a slot is in use or a channel event
was emitted only after authentication. -/
theorem channelSeen_authComplete (h : ReachableUnder E NoQuit c) (hs : c.channelSeen) :
    c.authComplete := by
  have hk : ∀ rng, (E.kxKeypair rng).1.isSome ∨ ¬ KeypairSucceeds E := by
    intro rng
    rw [or_iff_not_imp_right, not_not]
    exact fun h => h rng
  have hclear : Clear (¬ KeypairSucceeds E) c := by
    refine h.induction ?_ ?_ ?_ (fun _ _ h hs => (hs.advance False).preserves h
      (fun _ _ h => h.moves) (fun _ _ h => h.turn))
    · intro role cfg rng memOk c hc
      obtain ⟨pk, sk, rng', -, rfl⟩ := create_eq_some hc
      exact ⟨cleared_started _, fun hs => absurd hs (not_channelSeen_started (fun _ => rfl) rfl)⟩
    · intro c hc _
      refine ⟨Cleared.reset hk, fun hs => ?_⟩
      obtain ⟨rng, -, he⟩ | ⟨pk, sk, rng, -, he⟩ := reset_cases E c
      · rw [he] at hs
        rcases hs with ⟨i, hi⟩ | ⟨o, hm, -⟩
        · exact absurd rfl hi
        · cases hm
      · rw [he] at hs
        exact absurd hs (not_channelSeen_started (fun _ => rfl) rfl)
    · intro c c' k hc hg hs
      refine (hs.advance.mono_quit ?_).preserves hc (fun _ _ h => h.moves) (fun _ _ h => h.turn)
      rintro ⟨⟨reason, msg, hd⟩, hst⟩
      exact hg reason msg hd hst
  exact hclear.seen hs

/-- The calls of a server whose host disconnects during authentication, while the peer opens a
channel without ever proving an identity. -/
def quitCalls : List Call :=
  [.feedInput plainKx, .disconnect 0 none,
    .feedInput (plainRecord plainOpen)]

theorem channel_without_authentication :
    ¬ ∀ c : Ctx Unit Unit, Reachable plainEnv c → c.channelSeen → c.authComplete := by
  intro h
  have hc := h _ (reachable_play create_plainServer quitCalls)
    (Or.inl ⟨⟨0, by decide⟩, by decide +kernel⟩)
  revert hc
  decide +kernel

def admittedCalls : List Call :=
  [.feedInput plainKx, .feedInput (plainRecord (plainAuthDevice (BytesN.zero 64))),
    .authDecide true, .feedInput (plainRecord plainOpen)]

theorem channelSeen_authComplete_plain :
    (play plainEnv plainServerStart admittedCalls).channelSeen ∧
      (play plainEnv plainServerStart admittedCalls).authComplete := by
  have hs : (play plainEnv plainServerStart admittedCalls).channelSeen :=
    Or.inl ⟨⟨0, by decide⟩, by decide +kernel⟩
  have hg : ∀ k ∈ admittedCalls, ∀ c : Ctx Unit Unit, NoQuit c k := by
    simp [admittedCalls, NoQuit]
  exact ⟨hs, channelSeen_authComplete (reachableUnder_play create_plainServer hg) hs⟩

end Sodchan
