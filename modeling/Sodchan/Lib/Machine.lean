import Mathlib.Data.List.Basic

/-! # Machines with answers

A machine answers every request and moves on. Two machines are compared by
driving them through the same requests, and a machine that keeps what it is
given until it hands it out loses nothing.
-/

/-- A deterministic machine with states `S`, requests `A` and answers `B`. -/
abbrev Machine (S A B : Type*) := S → A → S × B

namespace Machine

variable {S T A B α : Type*} {m : Machine S A B} {n : Machine T A B}

def drive (m : Machine S A B) : S → List A → S × List B
  | s, [] => (s, [])
  | s, a :: l => ((drive m (m s a).1 l).1, (m s a).2 :: (drive m (m s a).1 l).2)

/-- Related states give the same answer and stay related. -/
def Simulates (m : Machine S A B) (n : Machine T A B) (R : S → T → Prop) : Prop :=
  ∀ s t a, R s t → R (m s a).1 (n t a).1 ∧ (m s a).2 = (n t a).2

theorem Simulates.drive {R : S → T → Prop} (h : Simulates m n R) {s : S} {t : T} (hR : R s t)
    (l : List A) : R (m.drive s l).1 (n.drive t l).1 ∧ (m.drive s l).2 = (n.drive t l).2 := by
  induction l generalizing s t with
  | nil => exact ⟨hR, rfl⟩
  | cons a l ih =>
    obtain ⟨hs, ha⟩ := h s t a hR
    obtain ⟨hl, hb⟩ := ih hs
    exact ⟨hl, congrArg₂ List.cons ha hb⟩

/-- What a request finds in the machine, and what it brings, is handed out or stays. -/
def Conserves (m : Machine S A B) (held : S → List α) (given taken : B → List α) : Prop :=
  ∀ s a, held s ++ given (m s a).2 = taken (m s a).2 ++ held (m s a).1

theorem Conserves.drive {held : S → List α} {given taken : B → List α}
    (h : Conserves m held given taken) (s : S) (l : List A) :
    held s ++ (m.drive s l).2.flatMap given =
      (m.drive s l).2.flatMap taken ++ held (m.drive s l).1 := by
  induction l generalizing s with
  | nil => exact List.append_nil _
  | cons a l ih =>
    calc held s ++ (m.drive s (a :: l)).2.flatMap given
        = held s ++ given (m s a).2 ++ (m.drive (m s a).1 l).2.flatMap given :=
          (List.append_assoc _ _ _).symm
      _ = taken (m s a).2 ++ (held (m s a).1 ++ (m.drive (m s a).1 l).2.flatMap given) := by
          rw [h s a, List.append_assoc]
      _ = (m.drive s (a :: l)).2.flatMap taken ++ held (m.drive s (a :: l)).1 := by
          rw [ih, ← List.append_assoc]
          rfl

end Machine
