import Mathlib.Data.List.Basic

/-! # Words on a stream

Words of a prefix-free set are sent one after another over a stream that may
cut them anywhere. What has been taken off the stream, word by word, is what
was sent first, and the rest is in transit.
-/

namespace Framing

variable {α : Type*} {P : List α → Prop}

/-- No word is the beginning of another, and none is empty. -/
structure PrefixFree (P : List α → Prop) : Prop where
  nonempty : ∀ w, P w → w ≠ []
  eq_of_prefix : ∀ v w, P v → P w → v <+: w → v = w

/-- Of the words that were sent, some have been taken; the others are in transit. -/
def Lane (sent taken : List (List α)) (transit : List α) : Prop :=
  ∃ rest, sent = taken ++ rest ∧ rest.flatten = transit

theorem PrefixFree.eq_of_append (hP : PrefixFree P) {v w s t : List α} (hv : P v) (hw : P w)
    (h : v ++ s = w ++ t) : v = w ∧ s = t := by
  have hvw : v = w := by
    rcases List.append_eq_append_iff.mp h with ⟨u, hu, -⟩ | ⟨u, hu, -⟩
    · exact hP.eq_of_prefix v w hv hw ⟨u, hu.symm⟩
    · exact (hP.eq_of_prefix w v hw hv ⟨u, hu.symm⟩).symm
  subst hvw
  exact ⟨rfl, List.append_cancel_left h⟩

theorem PrefixFree.head (hP : PrefixFree P) {l : List (List α)} {w t : List α}
    (hl : ∀ v ∈ l, P v) (hw : P w) (h : l.flatten = w ++ t) :
    ∃ m, l = w :: m ∧ m.flatten = t := by
  cases l with
  | nil => exact absurd (List.append_eq_nil_iff.mp h.symm).1 (hP.nonempty w hw)
  | cons v m =>
    obtain ⟨rfl, hm⟩ := hP.eq_of_append (hl v List.mem_cons_self) hw h
    exact ⟨m, rfl, hm⟩

/-- A stream that is cut short ends within one of its words. -/
theorem exists_cut {l : List (List α)} {p : List α} (hp : p <+: l.flatten) (hne : p ≠ l.flatten) :
    ∃ done w later rest, l = done ++ w :: later ∧ p = done.flatten ++ rest ∧ rest <+: w ∧
      rest ≠ w := by
  induction l generalizing p with
  | nil => exact absurd (List.prefix_nil.mp hp) hne
  | cons w l ih =>
    rw [List.flatten_cons] at hp hne
    rcases List.prefix_or_prefix_of_prefix hp (List.prefix_append w l.flatten) with hw | ⟨t, rfl⟩
    · by_cases he : p = w
      · subst he
        have hl : [] ≠ l.flatten := fun h => hne (by rw [← h, List.append_nil])
        obtain ⟨done, v, later, rest, rfl, hr, hv⟩ := ih List.nil_prefix hl
        refine ⟨p :: done, v, later, rest, rfl, ?_, hv⟩
        rw [List.flatten_cons, List.append_assoc, ← hr, List.append_nil]
      · exact ⟨[], w, l, p, rfl, rfl, hw, he⟩
    · have ht := (List.prefix_append_right_inj w).mp hp
      obtain ⟨done, v, later, rest, rfl, rfl, hv⟩ := ih ht fun h => hne (by rw [h])
      exact ⟨w :: done, v, later, rest, rfl, (List.append_assoc _ _ _).symm, hv⟩

namespace Lane

variable {sent taken : List (List α)} {transit : List α}

theorem start (sent : List (List α)) : Lane sent [] sent.flatten := ⟨sent, rfl, rfl⟩

theorem taken_prefix_sent (h : Lane sent taken transit) : taken <+: sent := by
  obtain ⟨rest, rfl, -⟩ := h
  exact List.prefix_append _ _

theorem send (h : Lane sent taken transit) (l : List (List α)) :
    Lane (sent ++ l) taken (transit ++ l.flatten) := by
  obtain ⟨rest, rfl, rfl⟩ := h
  exact ⟨rest ++ l, List.append_assoc _ _ _, List.flatten_append⟩

theorem take (hP : PrefixFree P) (hs : ∀ w ∈ sent, P w) {w t : List α}
    (h : Lane sent taken (w ++ t)) (hw : P w) : Lane sent (taken ++ [w]) t := by
  obtain ⟨rest, rfl, hr⟩ := h
  obtain ⟨m, rfl, rfl⟩ := hP.head (fun v hv => hs v (List.mem_append_right _ hv)) hw hr
  exact ⟨m, by rw [List.append_assoc, List.singleton_append], rfl⟩

theorem next (h : Lane sent taken transit) :
    sent = taken ∧ transit = [] ∨ ∃ w t, taken ++ [w] <+: sent ∧ transit = w ++ t := by
  obtain ⟨rest, rfl, rfl⟩ := h
  cases rest with
  | nil => exact Or.inl ⟨List.append_nil _, rfl⟩
  | cons w m =>
    refine Or.inr ⟨w, m.flatten, ?_, rfl⟩
    exact ⟨m, by rw [List.append_assoc, List.singleton_append]⟩

end Lane

end Framing
