import Mathlib.Data.List.Basic
import Mathlib.Data.Nat.ModEq

/-! # Bounded ring buffers

A ring keeps its elements in a fixed number of slots, read from a head index
and written behind the last stored element modulo the capacity. The contents
form a list: `push` appends to it while a slot is free and `pop` removes its
first element, so a ring is a bounded first-in first-out queue.
-/

/-- A ring buffer whose indices are in range by construction. -/
structure RingBuffer (α : Type*) where
  slots : List α
  head : ℕ
  count : ℕ
  head_lt : head < slots.length
  count_le : count ≤ slots.length

namespace RingBuffer

variable {α : Type*}

def cap (r : RingBuffer α) : ℕ := r.slots.length

theorem cap_pos (r : RingBuffer α) : 0 < r.cap := (Nat.zero_le _).trans_lt r.head_lt

def index (r : RingBuffer α) (i : ℕ) : Fin r.slots.length :=
  ⟨(r.head + i) % r.slots.length, Nat.mod_lt _ r.cap_pos⟩

def toList (r : RingBuffer α) : List α :=
  (List.range r.count).map fun i => r.slots.get (r.index i)

def empty (filler : α) (n : ℕ) (hn : 0 < n) : RingBuffer α where
  slots := List.replicate n filler
  head := 0
  count := 0
  head_lt := by simpa using hn
  count_le := Nat.zero_le _

def push (r : RingBuffer α) (a : α) : Option (RingBuffer α) :=
  if h : r.count < r.slots.length then
    some
      { slots := r.slots.set (r.index r.count) a
        head := r.head
        count := r.count + 1
        head_lt := by simpa using r.head_lt
        count_le := by simpa using Nat.succ_le_of_lt h }
  else none

def pop (r : RingBuffer α) : Option (α × RingBuffer α) :=
  if r.count = 0 then none
  else
    some (r.slots.get ⟨r.head, r.head_lt⟩,
      { slots := r.slots
        head := (r.head + 1) % r.slots.length
        count := r.count - 1
        head_lt := Nat.mod_lt _ r.cap_pos
        count_le := (Nat.sub_le _ _).trans r.count_le })

@[simp] theorem cap_empty (filler : α) (n : ℕ) (hn : 0 < n) : (empty filler n hn).cap = n := by
  simp [cap, empty]

@[simp] theorem length_toList (r : RingBuffer α) : r.toList.length = r.count := by
  simp [toList]

theorem length_toList_le (r : RingBuffer α) : r.toList.length ≤ r.cap := by
  simpa [cap] using r.count_le

theorem index_ne {r : RingBuffer α} {i j : ℕ} (hij : i < j) (hj : j < r.slots.length) :
    r.index i ≠ r.index j := by
  intro h
  have hm : r.head + i ≡ r.head + j [MOD r.slots.length] := congrArg Fin.val h
  have he := Nat.ModEq.add_left_cancel' r.head hm
  rw [Nat.ModEq, Nat.mod_eq_of_lt (hij.trans hj), Nat.mod_eq_of_lt hj] at he
  omega

theorem push_eq_none_iff {r : RingBuffer α} {a : α} : r.push a = none ↔ r.count = r.cap := by
  have := r.count_le
  simp only [push, cap]
  split <;> simp <;> omega

theorem push_isSome_iff {r : RingBuffer α} {a : α} : (r.push a).isSome ↔ r.count < r.cap := by
  simp only [push, cap]
  split <;> simp_all

theorem push_eq_some {r r' : RingBuffer α} {a : α} (h : r.push a = some r') :
    r'.toList = r.toList ++ [a] ∧ r'.cap = r.cap := by
  unfold push at h
  split at h
  · rename_i hlt
    obtain rfl := Option.some.inj h
    refine ⟨?_, by simp [cap]⟩
    simp only [toList, index, List.range_succ, List.map_append, List.map_cons, List.map_nil,
      List.get_eq_getElem, List.length_set, List.getElem_set_self]
    congr 1
    apply List.map_congr_left
    intro i hi
    rw [List.mem_range] at hi
    exact List.getElem_set_ne (fun he => index_ne hi hlt (Fin.ext he.symm)) _
  · cases h

theorem pop_eq_none_iff {r : RingBuffer α} : r.pop = none ↔ r.toList = [] := by
  simp [pop, toList]

theorem pop_eq_some {r r' : RingBuffer α} {a : α} (h : r.pop = some (a, r')) :
    r.toList = a :: r'.toList ∧ r'.cap = r.cap := by
  obtain ⟨slots, head, count, hlt, hle⟩ := r
  cases count with
  | zero => cases h
  | succ n =>
    obtain ⟨rfl, rfl⟩ := Prod.mk.inj (Option.some.inj h)
    have hshift : ∀ i, (head + (i + 1)) % slots.length =
        ((head + 1) % slots.length + i) % slots.length := by
      intro i
      rw [Nat.mod_add_mod, Nat.add_assoc, Nat.add_comm 1 i]
    have hfirst : (head + 0) % slots.length = head := Nat.mod_eq_of_lt hlt
    refine ⟨?_, rfl⟩
    unfold toList
    rw [List.range_succ_eq_map, List.map_cons, List.map_map]
    exact congrArg₂ List.cons (congrArg slots.get (Fin.ext hfirst))
      (List.map_congr_left fun i _ => congrArg slots.get (Fin.ext (hshift i)))

end RingBuffer
