import Sodchan.Lib.ByteString

/-! # Strings behind pointers

A pointer into an array is the part of the array from there to its end. A read
beyond the end has no value, so a function that has one stays inside the array.
-/

namespace Pointer

variable {p s t : Bytes} {x : UInt8}

/-- The byte under the pointer. -/
def deref : Bytes → Option UInt8
  | [] => none
  | b :: _ => some b

/-- The number of bytes before the first zero byte. -/
def strlen : Bytes → Option ℕ
  | [] => none
  | b :: p => if b = 0 then some 0 else (strlen p).map (· + 1)

/-- The pointer to the first occurrence of a byte before the first zero byte, if there is one. -/
def strchr (x : UInt8) : Bytes → Option (Option Bytes)
  | [] => none
  | b :: p => if b = x then some (some (b :: p)) else if b = 0 then some none else strchr x p

/-- Whether the first `n` bytes agree, all of which may be read. -/
def memEq (p q : Bytes) (n : ℕ) : Option Bool :=
  if n ≤ p.length ∧ n ≤ q.length then some (p.take n = q.take n) else none

theorem strlen_append (h : 0 ∉ s) (t : Bytes) : strlen (s ++ 0 :: t) = some s.length := by
  induction s with
  | nil => rfl
  | cons b s ih =>
    have hb : b ≠ 0 := fun he => h (he ▸ List.mem_cons_self)
    rw [List.cons_append, strlen, if_neg hb, ih fun hm => h (List.mem_cons_of_mem b hm)]
    rfl

theorem strchr_of_not_mem (hx : x ≠ 0) (hs : x ∉ s) (h0 : 0 ∉ s) (t : Bytes) :
    strchr x (s ++ 0 :: t) = some none := by
  induction s with
  | nil =>
    rw [List.nil_append, strchr, if_neg hx.symm, if_pos rfl]
  | cons b s ih =>
    have hb : b ≠ x := fun he => hs (he ▸ List.mem_cons_self)
    have hb0 : b ≠ 0 := fun he => h0 (he ▸ List.mem_cons_self)
    rw [List.cons_append, strchr, if_neg hb, if_neg hb0]
    exact ih (fun hm => hs (List.mem_cons_of_mem b hm)) fun hm => h0 (List.mem_cons_of_mem b hm)

theorem strchr_append (hs : x ∉ s) (h0 : 0 ∉ s) (t : Bytes) :
    strchr x (s ++ x :: t) = some (some (x :: t)) := by
  induction s with
  | nil => exact if_pos rfl
  | cons b s ih =>
    have hb : b ≠ x := fun he => hs (he ▸ List.mem_cons_self)
    have hb0 : b ≠ 0 := fun he => h0 (he ▸ List.mem_cons_self)
    rw [List.cons_append, strchr, if_neg hb, if_neg hb0]
    exact ih (fun hm => hs (List.mem_cons_of_mem b hm)) fun hm => h0 (List.mem_cons_of_mem b hm)

theorem memEq_append {u : Bytes} (h : s.length = u.length) (t v : Bytes) :
    memEq (s ++ t) (u ++ v) u.length = some (decide (s = u)) := by
  unfold memEq
  rw [if_pos (by simp only [List.length_append]; omega), List.take_left, ← h, List.take_left]

end Pointer
