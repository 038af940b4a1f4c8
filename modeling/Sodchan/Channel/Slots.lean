import Mathlib.Data.Fintype.Card
import Sodchan.Channel.Configured

/-! # Slots

What a slot of the channel table can look like, how many of them are in use,
and when there is room for one more. An allocation is undone on every path that
does not keep it, so no slot is lost.
-/

namespace Sodchan

open ByteString

variable {Rng SS : Type} {E : Env Rng SS} {c c' : Ctx Rng SS}

namespace Table

variable {s : Table} {t : Terms} {a : Deed} {i j : Fin maxChannelSlots} {ch : Channel}

def used (s : Table) : Finset (Fin maxChannelSlots) :=
  Finset.univ.filter fun i => (s.slot i).state ≠ .unused

@[simp] theorem mem_used : i ∈ s.used ↔ (s.slot i).state ≠ .unused := by simp [used]

theorem used_put (ch : Channel) (h : ch.state ≠ .unused) : (s.put i ch).used = insert i s.used := by
  ext j
  by_cases hj : j = i
  · simp [hj, h]
  · simp [hj, put_slot_of_ne hj]

theorem used_free : (s.free i).used = s.used.erase i := by
  ext j
  by_cases hj : j = i
  · simp [hj, free, Channel.zero]
  · simp [hj, free, put_slot_of_ne hj]

theorem used_change (ch : Channel) (hi : (s.slot i).state ≠ .unused) (h : ch.state ≠ .unused) :
    (s.put i ch).used = s.used := by
  rw [used_put ch h, Finset.insert_eq_of_mem (mem_used.mpr hi)]

theorem card_used_take (ch : Channel) (hi : (s.slot i).state = .unused) (h : ch.state ≠ .unused) :
    (s.take i ch).used.card = s.used.card + 1 := by
  have hu : (s.take i ch).used = insert i s.used := used_put _ h
  rw [hu, Finset.card_insert_of_notMem (by simp [hi])]

theorem card_used_free (hi : (s.slot i).state ≠ .unused) :
    (s.free i).used.card = s.used.card - 1 := by
  rw [used_free, Finset.card_erase_of_mem (mem_used.mpr hi)]

theorem card_used_apply (ha : a.Enabled t s) :
    (a.apply t s).used.card = a.tally s.used.card := by
  have hopen : ∀ {i : Fin maxChannelSlots}, (s.slot i).state = .open_ →
      (s.slot i).state ≠ .unused := by
    intro i hi
    rw [hi]
    rintro ⟨⟩
  cases a with
  | idle | refused => rfl
  | offered i peer window packet name =>
    exact card_used_take { Channel.zero with
      state := .pending, peerId := peer, havePeerId := true, sendWindow := window
      maxPacket := Deed.packetOf t packet, recvWindow := t.window, name := name } ha.1 (by simp)
  | open_ i name =>
    exact card_used_take { Channel.zero with
      state := .opening, recvWindow := t.window, maxPacket := t.packet, name := name } ha.1
      (by simp)
  | lost i =>
    have hfree : ((s.take i .zero).free i).used = s.used := by
      have hput : (s.take i .zero).free i = { s.free i with
          next := s.next + 1, allocs := s.allocs + 1 } := by
        simp [free, take, put]
      rw [hput]
      exact used_free.trans (Finset.erase_eq_of_notMem (by simp [show _ = _ from ha]))
    exact congrArg Finset.card hfree
  | confirmed i peer window packet =>
    exact congrArg Finset.card (used_change { s.slot i with
      peerId := peer, havePeerId := true, sendWindow := window
      maxPacket := Deed.packetOf t packet, state := .open_ } ha.1.used (by simp))
  | accept i =>
    exact congrArg Finset.card (used_change { s.slot i with
      state := .open_, recvWindow := t.window } ha.1.used (by simp))
  | data i | send i => exact congrArg Finset.card (used_change _ ha.1.used (hopen ha.2.1))
  | credit i | grant i => exact congrArg Finset.card (used_change _ ha.1.used (hopen ha.2))
  | shut i => exact congrArg Finset.card (used_change _ ha.1.used (hopen ha.2.1))
  | eof i => exact congrArg Finset.card (used_change _ ha.used ha.used)
  | failed i | reject i => exact card_used_free ha.1.used
  | closed i | close i => exact card_used_free ha.used

end Table

/-- A slot is free and zero, or in use under an admitted name, with a peer id once the peer has one
and closed for sending only while it is open. -/
structure Channel.WellFormed (allows : Bytes → Bool) (ch : Channel) : Prop where
  free : ch.state = .unused → ch = .zero
  live : ch.state ≠ .closed
  peer : ch.havePeerId ↔ ch.state = .pending ∨ ch.state = .open_
  eof : ch.localEof → ch.state = .open_
  name : ch.state ≠ .unused → allows ch.name

theorem Channel.WellFormed.zero (allows : Bytes → Bool) : Channel.zero.WellFormed allows where
  free _ := rfl
  live := by rintro ⟨⟩
  peer := by simp [Channel.zero]
  eof := by rintro ⟨⟩
  name h := absurd rfl h

/-- Every slot is well formed. -/
def Table.Orderly (t : Terms) (s : Table) : Prop := ∀ i, (s.slot i).WellFormed t.allows

namespace Table.Orderly

variable {s : Table} {t : Terms} {a : Deed} {i : Fin maxChannelSlots} {ch : Channel}

theorem empty (t : Terms) : Table.Orderly t .empty := fun _ => .zero _

theorem put (h : s.Orderly t) (hch : ch.WellFormed t.allows) : (s.put i ch).Orderly t := by
  intro j
  by_cases hj : j = i
  · subst hj
    rwa [Table.put_slot]
  · rw [Table.put_slot_of_ne hj]
    exact h j

theorem free (h : s.Orderly t) : (s.free i).Orderly t := h.put (.zero _)

theorem reopen (h : s.Orderly t) (hu : (s.slot i).state ≠ .unused) (hs : ch.state = .open_)
    (hp : ch.havePeerId) (hn : ch.name = (s.slot i).name) : (s.put i ch).Orderly t := by
  refine h.put ⟨fun h0 => ?_, ?_, ?_, fun _ => hs, fun _ => ?_⟩
  · rw [hs] at h0
    cases h0
  · rw [hs]
    rintro ⟨⟩
  · simp [hs, hp]
  · rw [hn]
    exact (h i).name hu

theorem apply (h : s.Orderly t) (ha : a.Enabled t s) : (a.apply t s).Orderly t := by
  have hopen : ∀ {i : Fin maxChannelSlots}, (s.slot i).state = .open_ →
      (s.slot i).havePeerId := fun ho => (h _).peer.mpr (Or.inr ho)
  cases a with
  | idle | refused => exact h
  | offered i peer window packet name =>
    refine h.put ⟨?_, ?_, ?_, ?_, fun _ => ha.2⟩
    · rintro ⟨⟩
    · rintro ⟨⟩
    · simp
    · rintro ⟨⟩
  | open_ i name =>
    refine h.put ⟨?_, ?_, ?_, ?_, fun _ => ha.2⟩
    · rintro ⟨⟩
    · rintro ⟨⟩
    · simp [Channel.zero]
    · rintro ⟨⟩
  | lost i =>
    intro j
    by_cases hj : j = i
    · subst hj
      have hz : ((Deed.lost j).apply t s).slot j = .zero := Table.put_slot
      rw [hz]
      exact .zero _
    · rw [show ((Deed.lost i).apply t s).slot j = s.slot j from
        (Table.put_slot_of_ne hj).trans (Table.put_slot_of_ne hj)]
      exact h j
  | confirmed i => exact h.reopen ha.1.used rfl rfl rfl
  | accept i => exact h.reopen ha.1.used rfl ((h i).peer.mpr (Or.inl ha.2)) rfl
  | data i | send i => exact h.reopen ha.1.used ha.2.1 (hopen ha.2.1) rfl
  | credit i | grant i => exact h.reopen ha.1.used ha.2 (hopen ha.2) rfl
  | shut i => exact h.reopen ha.1.used ha.2.1 (hopen ha.2.1) rfl
  | eof i =>
    obtain ⟨-, h2, h3, h4, h5⟩ := h i
    exact h.put ⟨fun hu => absurd hu ha.used, h2, h3, h4, h5⟩
  | failed i | closed i | reject i | close i => exact h.free

end Table.Orderly

/-- The count is right and within the limits, and every slot is well formed. -/
structure SlotsSound (c : Ctx Rng SS) : Prop where
  counted : c.activeChannels = c.table.used.card
  bounded : c.activeChannels ≤ c.maxChannels
  limit : c.maxChannels ≤ maxChannelSlots
  slots : c.table.Orderly c.terms

namespace SlotsSound

theorem start (ht : c.table = .empty) (hn : c.activeChannels = 0)
    (hm : c.maxChannels ≤ maxChannelSlots) : SlotsSound c := by
  refine ⟨?_, by omega, hm, ?_⟩
  · rw [ht, hn]
    rfl
  · rw [ht]
    exact .empty _

theorem step {l : Label} (h : SlotsSound c) (hs : Step E l c c') : SlotsSound c' := by
  obtain ⟨a, ha⟩ := hs.deed
  obtain ⟨hact, hlim⟩ := ha.active
  obtain ⟨aside, -, hen, htable, hset, -⟩ := ha.deals
  have hm : c'.maxChannels = c.maxChannels := congrArg Settings.maxChannels hset
  refine ⟨?_, ?_, hm.trans_le h.limit, ?_⟩
  · rw [hact, htable, Table.card_used_apply hen, h.counted]
  · rw [hact, hm]
    exact hlim.trans (max_le h.bounded le_rfl)
  · rw [htable, terms_congr hset]
    exact h.slots.apply hen

theorem active_reset (c : Ctx Rng SS) : (Sodchan.reset E c).activeChannels = 0 := by
  obtain ⟨rng, -, h⟩ | ⟨pk, sk, rng, -, h⟩ := reset_cases E c <;> rw [h]
  · rfl
  · unfold Ctx.started
    split <;> rfl

theorem reset (h : SlotsSound c) : SlotsSound (reset E c) := by
  obtain ⟨ht, hset, -⟩ := reset_table (E := E) c
  have hm : (Sodchan.reset E c).maxChannels = c.maxChannels := congrArg Settings.maxChannels hset
  exact .start ht (active_reset c) (hm.trans_le h.limit)

theorem create {role : Role} {cfg : Option Config} {rng : Rng} {memOk : Bool}
    (h : create E role cfg rng memOk = some c) : SlotsSound c := by
  obtain ⟨ht, -, hset⟩ := create_table h
  have hm : c.maxChannels ≤ maxChannelSlots :=
    (congrArg Settings.maxChannels hset).trans_le (min_le_right _ _)
  refine .start ht ?_ hm
  obtain ⟨pk, sk, rng', -, rfl⟩ := create_eq_some h
  unfold Ctx.started
  split <;> rfl

/-- A slot is free as long as the count is below the number of slots. -/
theorem alloc_eq_none (h : SlotsSound c) : chAlloc c = none ↔ c.activeChannels = c.maxChannels := by
  constructor
  · intro ha
    by_contra hne
    have hlt : c.activeChannels < c.maxChannels := lt_of_le_of_ne h.bounded hne
    have hfree : ∃ i, i ∉ c.table.used := by
      by_contra hn
      have huniv : c.table.used = Finset.univ :=
        Finset.eq_univ_iff_forall.mpr fun i => not_not.mp fun hi => hn ⟨i, hi⟩
      have hcard := h.counted
      rw [huniv, Finset.card_univ, Fintype.card_fin] at hcard
      have := h.limit
      omega
    obtain ⟨i, hi⟩ := hfree
    unfold chAlloc at ha
    rw [if_neg (by omega)] at ha
    split at ha
    · rename_i hnone
      have := List.find?_eq_none.mp hnone i (List.mem_finRange i)
      rw [Table.mem_used, not_not] at hi
      exact this (decide_eq_true hi)
    · cases ha
  · intro he
    unfold chAlloc
    rw [if_pos he.ge]

end SlotsSound

/-- In every reachable state the count of the channels is the number of slots in use, an allocation
fails only when the limit is reached, and every slot is well formed. -/
theorem channel_table_sound (h : Reachable E c) :
    c.activeChannels = (Finset.univ.filter fun i => (c.channels i).state ≠ .unused).card ∧
    c.activeChannels ≤ c.maxChannels ∧ c.maxChannels ≤ maxChannelSlots ∧
    (chAlloc c = none ↔ c.activeChannels = c.maxChannels) ∧
    ∀ i, ((c.channels i).state = .unused → c.channels i = .zero) ∧
      ((c.channels i).state ≠ .unused → (c.channels i).state = .opening ∨
        (c.channels i).state = .pending ∨ (c.channels i).state = .open_) ∧
      ((c.channels i).havePeerId ↔
        (c.channels i).state = .pending ∨ (c.channels i).state = .open_) ∧
      ((c.channels i).localEof → (c.channels i).state = .open_) ∧
      ((c.channels i).state ≠ .unused → Listed c.allowlist (c.channels i).name) := by
  obtain ⟨role, cfg, rng, memOk, c₀, l, hc, hr⟩ := h
  have hs : SlotsSound c := hr.preserves_steps (fun _ h => h.reset) (fun _ _ _ h hs => h.step hs)
    (.create hc)
  refine ⟨hs.counted, hs.bounded, hs.limit, hs.alloc_eq_none, fun i => ?_⟩
  obtain ⟨h1, h2, h3, h4, h5⟩ := hs.slots i
  refine ⟨h1, fun hu => ?_, h3, h4, fun hu => (channelNameAllowed_iff c _).mp (h5 hu)⟩
  change (c.channels i).state ≠ .closed at h2
  cases hst : (c.channels i).state with
  | unused => exact absurd hst hu
  | opening => exact Or.inl rfl
  | pending => exact Or.inr (Or.inl rfl)
  | open_ => exact Or.inr (Or.inr rfl)
  | closed => exact absurd hst h2

def plainServerPending : Ctx Unit Unit :=
  play plainEnv plainServerStart [.feedInput plainKx,
    .feedInput (plainRecord (plainAuthDevice (BytesN.zero 64))), .authDecide true,
    .feedInput (plainRecord plainOpen)]

theorem reachable_plainServerPending : Reachable plainEnv plainServerPending :=
  reachable_play create_plainServer _

theorem channel_table_sound_plain :
    plainServerPending.activeChannels ≤ plainServerPending.maxChannels ∧
    plainServerPending.maxChannels ≤ maxChannelSlots ∧
    (chAlloc plainServerPending = none ↔
      plainServerPending.activeChannels = plainServerPending.maxChannels) := by
  obtain ⟨-, h2, h3, h4, -⟩ := channel_table_sound reachable_plainServerPending
  exact ⟨h2, h3, h4⟩

end Sodchan
