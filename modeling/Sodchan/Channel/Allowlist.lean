import Sodchan.Lib.Pointer
import Sodchan.Channel.Configured

/-! # The scan of the allowlist

The scan walks a pointer over the list, from one comma to the next, and
compares segments with the name. Read by read it stays inside the two strings
and finds exactly the names that splitting the list at its commas gives.
-/

namespace Sodchan

open ByteString Pointer

variable {Rng SS : Type} {c : Ctx Rng SS}

/-- The length of the segment at `p`, up to the comma that was found or to the end of the list. -/
def segmentLength (p : Bytes) : Option Bytes → Option ℕ
  | some q => some (p.length - q.length)
  | none => strlen p

/-- The loop of `channel_name_allowed` from a pointer into the list, for at most the given number of
rounds: no value after a read outside, and no answer when the rounds are used up. -/
def scanSegments (name : Bytes) (nlen : ℕ) : ℕ → Bytes → Option (Option Bool)
  | 0, _ => some none
  | n + 1, p =>
    (deref p).bind fun b =>
      if b = 0 then some (some false)
      else
        (strchr comma p).bind fun sep =>
          (segmentLength p sep).bind fun seglen =>
            (if seglen = nlen then memEq p name nlen else some false).bind fun hit =>
              if hit then some (some true)
              else
                match sep with
                | none => some (some false)
                | some q => scanSegments name nlen n (q.drop 1)

/-- `channel_name_allowed` on the arrays that hold the list and the name. -/
def scanAllowed (n : ℕ) (list name : Bytes) : Option (Option Bool) :=
  (deref name).bind fun b =>
    if b = 0 then some (some false)
    else (strlen name).bind fun nlen => scanSegments name nlen n list

theorem segment_hit (seg name t v : Bytes) :
    (if seg.length = name.length then memEq (seg ++ t) (name ++ v) name.length else some false) =
      some (decide (seg = name)) := by
  split
  · rename_i h
    exact memEq_append h t v
  · rename_i h
    rw [decide_eq_false fun he => h (congrArg List.length he)]

theorem scanSegments_last {seg name : Bytes} (hne : seg ≠ []) (h0 : 0 ∉ seg) (hc : comma ∉ seg)
    (t v : Bytes) (n : ℕ) :
    scanSegments (name ++ v) name.length (n + 1) (seg ++ 0 :: t) =
      some (some (decide (seg = name))) := by
  obtain ⟨b, s, rfl⟩ := List.exists_cons_of_ne_nil hne
  have hb : b ≠ 0 := fun he => h0 (he ▸ List.mem_cons_self)
  have hd : deref (b :: s ++ 0 :: t) = some b := rfl
  rw [scanSegments, hd, strchr_of_not_mem (by decide) hc h0]
  simp only [Option.bind_some, if_neg hb, segmentLength, strlen_append h0, segment_hit]
  by_cases he : b :: s = name
  · simp [he]
  · simp [he]

theorem scanSegments_comma {seg name : Bytes} (h0 : 0 ∉ seg) (hc : comma ∉ seg) (t v : Bytes)
    (n : ℕ) :
    scanSegments (name ++ v) name.length (n + 1) (seg ++ comma :: t) =
      if seg = name then some (some true) else scanSegments (name ++ v) name.length n t := by
  have hd : ∃ b, deref (seg ++ comma :: t) = some b ∧ b ≠ 0 := by
    cases seg with
    | nil => exact ⟨comma, rfl, by decide⟩
    | cons b s => exact ⟨b, rfl, fun he => h0 (he ▸ List.mem_cons_self)⟩
  obtain ⟨b, hd, hb⟩ := hd
  have hlen : (seg ++ comma :: t).length - (comma :: t).length = seg.length := by
    rw [List.length_append, Nat.add_sub_cancel]
  rw [scanSegments, hd, strchr_append hc h0]
  simp only [Option.bind_some, if_neg hb, segmentLength, hlen, segment_hit]
  by_cases he : seg = name
  · simp [he]
  · simp [he]

/-- The loop finds the segments of the list. -/
theorem scanSegments_eq {name : Bytes} (hn : name ≠ []) (v t : Bytes) (n : ℕ) {p : Bytes}
    (h0 : 0 ∉ p) (h : p.length < n) :
    scanSegments (name ++ v) name.length n (p ++ 0 :: t) =
      some (some (decide (name ∈ p.splitOn comma))) := by
  induction n generalizing p with
  | zero => omega
  | succ n ih =>
    by_cases hc : comma ∈ p
    · obtain ⟨seg, rest, rfl, hseg⟩ := List.eq_append_cons_of_mem hc
      have h0s : 0 ∉ seg := fun hm => h0 (List.mem_append_left _ hm)
      have h0r : 0 ∉ rest := fun hm =>
        h0 (List.mem_append_right _ (List.mem_cons_of_mem comma hm))
      have hrest : rest.length < n := by
        simp only [List.length_append, List.length_cons] at h
        omega
      rw [List.append_assoc, List.cons_append, scanSegments_comma h0s hseg, ih h0r hrest,
        List.splitOn_append_cons_self_of_not_mem hseg]
      by_cases he : seg = name
      · simp [he]
      · simp [he, Ne.symm he]
    · rw [List.splitOn_eq_singleton hc]
      by_cases hp : p = []
      · -- the list ends here, behind a comma or because it is empty
        subst hp
        simp [scanSegments, deref, hn]
      · rw [scanSegments_last hp h0 hc]
        simp [eq_comm]

theorem scanAllowed_eq {list name : Bytes} (hl : 0 ∉ list) (hn : 0 ∉ name) (t v : Bytes) {n : ℕ}
    (h : list.length < n) :
    scanAllowed n (list ++ 0 :: t) (name ++ 0 :: v) =
      some (some (decide (name ≠ [] ∧ name ∈ list.splitOn comma))) := by
  cases name with
  | nil => simp [scanAllowed, deref]
  | cons b name =>
    have hb : b ≠ 0 := fun he => hn (he ▸ List.mem_cons_self)
    have hd : deref (b :: name ++ 0 :: v) = some b := rfl
    rw [scanAllowed, hd, strlen_append hn]
    simp only [Option.bind_some, if_neg hb]
    rw [scanSegments_eq (List.cons_ne_nil b name) (0 :: v) t n hl h]
    simp

/-- The scan over memory is the scan that the rest of the development uses. -/
theorem scanAllowed_channelNameAllowed {name : Bytes} (hl : 0 ∉ c.allowlist) (hn : 0 ∉ name)
    (t v : Bytes) :
    scanAllowed (c.allowlist.length + 1) (c.allowlist ++ 0 :: t) (name ++ 0 :: v) =
      some (some (channelNameAllowed c name)) := by
  rw [scanAllowed_eq hl hn t v (Nat.lt_succ_self _)]
  congr 2
  rw [Bool.eq_iff_iff, decide_eq_true_iff, channelNameAllowed_iff]
  rfl

theorem not_mem_of_mem_splitOn {x : UInt8} {seg l : Bytes} (h : seg ∈ l.splitOn x) : x ∉ seg := by
  induction hn : l.length using Nat.strong_induction_on generalizing l with
  | _ n ih =>
    by_cases hx : x ∈ l
    · obtain ⟨first, rest, rfl, hfirst⟩ := List.eq_append_cons_of_mem hx
      rw [List.splitOn_append_cons_self_of_not_mem hfirst, List.mem_cons] at h
      obtain rfl | h := h
      · exact hfirst
      · refine ih rest.length ?_ h rfl
        rw [← hn, List.length_append, List.length_cons]
        omega
    · rw [List.splitOn_eq_singleton hx, List.mem_singleton] at h
      rwa [h]

/-- The scan decides membership in the split list: on every list and name, with enough rounds to
reach the end of the list and whatever the memory holds behind the two terminators, also nothing.
A name with a comma is never found. -/
theorem allowlist_scan_exact (list name : CString) (t v : Bytes) (n : ℕ) :
    scanAllowed (list.val.length + 1 + n) (list.val ++ 0 :: t) (name.val ++ 0 :: v) =
      some (some (decide (name.val ≠ [] ∧ name.val ∈ list.val.splitOn comma))) ∧
    (comma ∈ name.val → name.val ∉ list.val.splitOn comma) :=
  ⟨scanAllowed_eq list.2 name.2 t v (by omega), fun hc hm => not_mem_of_mem_splitOn hm hc⟩

end Sodchan
