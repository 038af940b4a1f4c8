import Mathlib.Data.Nat.Notation
import Mathlib.Logic.Relation

/-! # Loops that stop

A loop body either asks for another round or stops. Running it with fuel is
the loop itself as soon as the fuel exceeds a measure that every further round
decreases, and invariants of the body are invariants of the loop.
-/

/-- What one round of a loop decides. -/
inductive Outcome (σ : Type*) where
  | again (s : σ)
  | stop (s : σ)

def Outcome.state {σ : Type*} : Outcome σ → σ
  | .again s | .stop s => s

def Outcome.map {σ τ : Type*} (f : σ → τ) : Outcome σ → Outcome τ
  | .again s => .again (f s)
  | .stop s => .stop (f s)

namespace Loop

variable {σ : Type*} {step : σ → Outcome σ} {μ : σ → ℕ}

/-- Run a loop body for at most the given number of rounds. -/
def run (step : σ → Outcome σ) : ℕ → σ → σ
  | 0, s => s
  | n + 1, s =>
    match step s with
    | .again s' => run step n s'
    | .stop s' => s'

/-- Every further round makes the measure smaller. -/
def Decreases (step : σ → Outcome σ) (μ : σ → ℕ) : Prop :=
  ∀ s s', step s = .again s' → μ s' < μ s

/-- The states at the head of the loop, from a given one. -/
def Heads (step : σ → Outcome σ) : σ → σ → Prop :=
  Relation.ReflTransGen fun s s' => step s = .again s'

theorem run_succ_again {n : ℕ} {s s' : σ} (h : step s = .again s') :
    run step (n + 1) s = run step n s' := by
  simp [run, h]

theorem run_succ_stop {n : ℕ} {s s' : σ} (h : step s = .stop s') :
    run step (n + 1) s = s' := by
  simp [run, h]

/-- More fuel than the measure changes nothing. -/
theorem run_fuel (hμ : Decreases step μ) {n m : ℕ} {s : σ} (hn : μ s < n) (hm : μ s < m) :
    run step n s = run step m s := by
  induction n generalizing m s with
  | zero => omega
  | succ n ih =>
    obtain ⟨m, rfl⟩ : ∃ k, m = k + 1 := ⟨m - 1, by omega⟩
    cases h : step s with
    | stop s' => rw [run_succ_stop h, run_succ_stop h]
    | again s' =>
      have := hμ s s' h
      rw [run_succ_again h, run_succ_again h]
      exact ih (by omega) (by omega)

/-- The loop equation: one round, then the loop again. -/
theorem run_unroll (hμ : Decreases step μ) (s : σ) :
    run step (μ s + 1) s =
      match step s with
      | .again s' => run step (μ s' + 1) s'
      | .stop s' => s' := by
  cases h : step s with
  | stop s' => exact run_succ_stop h
  | again s' =>
    have := hμ s s' h
    rw [run_succ_again h]
    exact run_fuel hμ (by omega) (by omega)

/-- With enough fuel the loop ends in a state the body stopped in. -/
theorem run_stops (hμ : Decreases step μ) (s : σ) :
    ∃ t, Heads step s t ∧ step t = .stop (run step (μ s + 1) s) := by
  induction hn : μ s using Nat.strongRecOn generalizing s with
  | _ n ih =>
    cases h : step s with
    | stop s' => exact ⟨s, .refl, by rw [h, run_succ_stop h]⟩
    | again s' =>
      have hlt := hμ s s' h
      obtain ⟨t, ht, hs⟩ := ih (μ s') (hn ▸ hlt) s' rfl
      refine ⟨t, .head h ht, hs.trans ?_⟩
      rw [← hn, run_unroll hμ s, h]

/-- Invariant rule: what every round preserves, whether it goes on or stops, the loop preserves. -/
theorem run_invariant {P : σ → Prop}
    (hagain : ∀ s s', P s → step s = .again s' → P s')
    (hstop : ∀ s s', P s → step s = .stop s' → P s')
    {n : ℕ} {s : σ} (hs : P s) : P (run step n s) := by
  induction n generalizing s with
  | zero => exact hs
  | succ n ih =>
    cases h : step s with
    | stop s' => rw [run_succ_stop h]; exact hstop s s' hs h
    | again s' => rw [run_succ_again h]; exact ih (hagain s s' hs h)

/-- A map that commutes with every round commutes with the loop. -/
theorem run_map {τ : Type*} {step' : τ → Outcome τ} {f : σ → τ}
    (h : ∀ s, step' (f s) = (step s).map f) (n : ℕ) (s : σ) :
    run step' n (f s) = f (run step n s) := by
  induction n generalizing s with
  | zero => rfl
  | succ n ih =>
    have hs := h s
    cases he : step s with
    | stop s' =>
      rw [he] at hs
      rw [run_succ_stop he, run_succ_stop hs]
    | again s' =>
      rw [he] at hs
      rw [run_succ_again he, run_succ_again hs, ih]

/-- Invariant rule under a condition that holds at every head of the loop. -/
theorem run_heads {P ok : σ → Prop} (hstep : ∀ s, P s → ok s → P (step s).state) {n : ℕ} {s : σ}
    (hs : P s) (hok : ∀ t, Heads step s t → ok t) : P (run step n s) := by
  induction n generalizing s with
  | zero => exact hs
  | succ n ih =>
    have hp := hstep s hs (hok s .refl)
    cases h : step s with
    | stop s' =>
      rw [run_succ_stop h]
      rwa [h] at hp
    | again s' =>
      rw [run_succ_again h]
      rw [h] at hp
      exact ih hp fun t ht => hok t (.head h ht)

/-- Whether the loop stops within the fuel, and the condition holds at each of its heads. -/
def headsMeetB (step : σ → Outcome σ) (ok : σ → Prop) [DecidablePred ok] : ℕ → σ → Bool
  | 0, _ => false
  | n + 1, s => decide (ok s) &&
    match step s with
    | .again s' => headsMeetB step ok n s'
    | .stop _ => true

theorem headsMeetB_sound {ok : σ → Prop} [DecidablePred ok] {n : ℕ} {s t : σ}
    (h : headsMeetB step ok n s = true) (ht : Heads step s t) : ok t := by
  induction n generalizing s with
  | zero => cases h
  | succ n ih =>
    rw [headsMeetB, Bool.and_eq_true, decide_eq_true_eq] at h
    obtain rfl | ⟨s', hs, ht⟩ := Relation.ReflTransGen.cases_head ht
    · exact h.1
    · rw [hs] at h
      exact ih h.2 ht

def full (step : σ → Outcome σ) (μ : σ → ℕ) (s : σ) : σ := run step (μ s + 1) s

/-- A body that treats the input at hand in the same way whatever follows it: a round that goes
on does so in front of more input, and one that stops waits for input or has ended for good. -/
structure Incremental {α : Type*} (step : σ → Outcome σ) (feed : σ → List α → σ)
    (ended : σ → Prop) : Prop where
  feed_nil : ∀ s, feed s [] = s
  feed_feed : ∀ s a b, feed (feed s a) b = feed s (a ++ b)
  again : ∀ s s' a, step s = .again s' → step (feed s a) = .again (feed s' a)
  stop : ∀ s s' a, step s = .stop s' →
    s' = s ∨ ended s' ∧ step (feed s a) = .stop (feed s' a)
  ended_feed : ∀ s a, ended s → ended (feed s a)
  ended_stop : ∀ s, ended s → step s = .stop s

theorem full_again (hμ : Decreases step μ) {s s' : σ} (h : step s = .again s') :
    full step μ s = full step μ s' := by
  unfold full
  rw [run_unroll hμ, h]

theorem full_stop {s s' : σ} (h : step s = .stop s') : full step μ s = s' :=
  run_succ_stop h

namespace Incremental

variable {α : Type*} {feed : σ → List α → σ} {ended : σ → Prop}

/-- Where the loop stops, it stays. -/
theorem full_settled (hi : Incremental step feed ended) (hμ : Decreases step μ) (s : σ) :
    step (full step μ s) = .stop (full step μ s) := by
  obtain ⟨t, -, ht⟩ := run_stops hμ s
  change step t = .stop (full step μ s) at ht
  rcases hi.stop t _ [] ht with h | ⟨h, -⟩
  · rw [h] at ht ⊢
    exact ht
  · exact hi.ended_stop _ h

/-- Input may be processed before more of it arrives. -/
theorem full_feed (hi : Incremental step feed ended) (hμ : Decreases step μ) (s : σ)
    (a : List α) : full step μ (feed s a) = full step μ (feed (full step μ s) a) := by
  induction hn : μ s using Nat.strongRecOn generalizing s with
  | _ n ih =>
    cases h : step s with
    | again s' =>
      rw [full_again hμ h, full_again hμ (hi.again s s' a h)]
      exact ih (μ s') (hn ▸ hμ s s' h) s' rfl
    | stop s' =>
      rw [full_stop h]
      rcases hi.stop s s' a h with rfl | ⟨he, hs⟩
      · rfl
      · rw [full_stop hs, full_stop (hi.ended_stop _ (hi.ended_feed _ a he))]

end Incremental

end Loop
