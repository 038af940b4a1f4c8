import Sodchan.Channel.Ledger

/-! # Channel ids

Ids are given out in order, so as long as fewer than `2 ^ 32` channels have
been allocated, no two channels in use share one, every slot in use is the one
that its id means, and the next id is new.
-/

namespace Sodchan

open ByteString

def Deed.allocates : Deed → Bool
  | .offered .. | .open_ .. | .lost _ => true
  | _ => false

/-- The ids of a table in which none was given out twice. -/
structure Numbered (s : Table) : Prop where
  next : s.next = UInt32.ofNat s.allocs
  below : ∀ i, (s.slot i).state ≠ .unused → (s.slot i).localId.toNat < s.allocs
  distinct : ∀ i j, (s.slot i).state ≠ .unused → (s.slot j).state ≠ .unused →
    (s.slot i).localId = (s.slot j).localId → i = j
  live : ∀ i, (s.slot i).state ≠ .closed

namespace Numbered

variable {t : Terms} {s : Table} {i j : Fin maxChannelSlots} {ch : Channel} {a : Deed}

theorem empty : Numbered .empty where
  next := rfl
  below _ h := absurd rfl h
  distinct _ _ h := absurd rfl h
  live _ := by rintro ⟨⟩

theorem named (h : Numbered s) (hu : (s.slot i).state ≠ .unused) : s.Named i :=
  Table.named_of_unique hu fun j hj he => h.distinct j i hj hu he

theorem next_toNat (h : Numbered s) (hb : s.allocs < 2 ^ 32) : s.next.toNat = s.allocs := by
  rw [h.next]
  simpa using Nat.mod_eq_of_lt hb

theorem next_new (h : Numbered s) (hb : s.allocs < 2 ^ 32) (hu : (s.slot i).state ≠ .unused) :
    (s.slot i).localId ≠ s.next := by
  intro he
  have := h.below i hu
  rw [he, h.next_toNat hb] at this
  omega

theorem put (h : Numbered s) (hch : ch.state ≠ .closed)
    (hid : ch.state = .unused ∨ (s.slot i).state ≠ .unused ∧ ch.localId = (s.slot i).localId) :
    Numbered (s.put i ch) := by
  have hslot : ∀ j, ((s.put i ch).slot j).state ≠ .unused → (s.slot j).state ≠ .unused ∧
      ((s.put i ch).slot j).localId = (s.slot j).localId := by
    intro j hj
    by_cases hji : j = i
    · subst hji
      rw [Table.put_slot] at hj ⊢
      exact hid.resolve_left hj
    · rw [Table.put_slot_of_ne hji] at hj ⊢
      exact ⟨hj, rfl⟩
  refine ⟨h.next, fun j hj => ?_, fun j k hj hk he => ?_, fun j => ?_⟩
  · rw [(hslot j hj).2]
    exact h.below j (hslot j hj).1
  · rw [(hslot j hj).2, (hslot k hk).2] at he
    exact h.distinct j k (hslot j hj).1 (hslot k hk).1 he
  · by_cases hji : j = i
    · rw [hji, Table.put_slot]
      exact hch
    · rw [Table.put_slot_of_ne hji]
      exact h.live j

theorem free (h : Numbered s) : Numbered (s.free i) := h.put (by rintro ⟨⟩) (Or.inl rfl)

theorem take (h : Numbered s) (hb : s.allocs < 2 ^ 32) (hch : ch.state ≠ .closed) :
    Numbered (s.take i ch) := by
  have hself : (s.take i ch).slot i = { ch with localId := s.next } := Table.take_slot
  have hother : ∀ j, j ≠ i → (s.take i ch).slot j = s.slot j := fun j => Table.take_slot_of_ne
  refine ⟨?_, fun j hj => ?_, fun j k hj hk he => ?_, fun j => ?_⟩
  · change s.next + 1 = UInt32.ofNat (s.allocs + 1)
    rw [h.next, UInt32.ofNat_add]
    rfl
  · change _ < s.allocs + 1
    by_cases hji : j = i
    · rw [hji, hself]
      exact (h.next_toNat hb).trans_lt (Nat.lt_succ_self _)
    · rw [hother j hji] at hj ⊢
      exact (h.below j hj).trans (Nat.lt_succ_self _)
  · by_cases hji : j = i
    · by_cases hki : k = i
      · rw [hji, hki]
      · rw [hother k hki] at hk he
        rw [hji, hself] at he
        exact absurd he.symm (h.next_new hb hk)
    · by_cases hki : k = i
      · rw [hother j hji] at hj he
        rw [hki, hself] at he
        exact absurd he (h.next_new hb hj)
      · rw [hother j hji] at hj he
        rw [hother k hki] at hk he
        exact h.distinct j k hj hk he
  · by_cases hji : j = i
    · rw [hji, hself]
      exact hch
    · rw [hother j hji]
      exact h.live j

/-- Every deed keeps the numbering, as long as an id is left for it. -/
theorem apply (h : Numbered s) (he : a.Enabled t s) (hb : a.allocates → s.allocs < 2 ^ 32) :
    Numbered (a.apply t s) := by
  cases a with
  | idle | refused => exact h
  | offered i peer window packet name => exact h.take (hb rfl) (by rintro ⟨⟩)
  | open_ i name => exact h.take (hb rfl) (by rintro ⟨⟩)
  | lost i => exact (h.take (hb rfl) (by decide)).free
  | failed i | closed i | reject i | close i => exact h.free
  | confirmed i => exact h.put (by rintro ⟨⟩) (Or.inr ⟨by rw [he.2]; rintro ⟨⟩, rfl⟩)
  | accept i => exact h.put (by rintro ⟨⟩) (Or.inr ⟨by rw [he.2]; rintro ⟨⟩, rfl⟩)
  | data i | credit i | send i | shut i | grant i =>
    exact h.put (h.live i) (Or.inr ⟨he.1.used, rfl⟩)
  | eof i => exact h.put (h.live i) (Or.inr ⟨he.used, rfl⟩)

theorem apply_allocs : (a.apply t s).allocs = s.allocs + if a.allocates then 1 else 0 := by
  cases a <;> rfl

end Numbered

end Sodchan
