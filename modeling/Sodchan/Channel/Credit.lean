import Sodchan.Channel.Requests

/-! # Added credit

Both windows are sums of 32 bits, and neither the WINDOW of the peer nor the
grant of the host is checked against the room that is left in them. Credit is
kept exactly by the amounts that fit.
-/

namespace Sodchan

open ByteString

variable {Rng SS : Type} {E : Env Rng SS} {c c' : Ctx Rng SS} {plain : Bytes} {tag : UInt8}
  {i : Fin maxChannelSlots} {id : UInt32}

theorem le_add_iff (a n : UInt32) : a ≤ a + n ↔ a.toNat + n.toNat < 2 ^ 32 := by
  have ha := a.toNat_lt
  have hn := n.toNat_lt
  rw [UInt32.le_iff_toNat_le, UInt32.toNat_add]
  constructor
  · intro h
    by_contra hge
    rw [Nat.mod_eq_sub_mod (by omega), Nat.mod_eq_of_lt (by omega)] at h
    omega
  · intro h
    rw [Nat.mod_eq_of_lt h]
    omega

/-- The slot that the id means is open, and the data is within the limits. -/
def Ctx.Admits (c : Ctx Rng SS) (id : UInt32) (data : Bytes) : Prop :=
  ∃ i, chByLocal c id = some i ∧ (c.channels i).state = .open_ ∧
    data.length ≤ (c.channels i).recvWindow.toNat ∧ data.length ≤ dataMax

theorem muxChannelData_true {data : Bytes} (h : Pdu.ofBytes plain = .channelData id data) :
    (muxChannelData c plain).2 = true ↔ c.Admits id data := by
  obtain ⟨-, hd⟩ := Pdu.channelData_inv h
  unfold muxChannelData Ctx.Admits
  rw [hd]
  dsimp only
  cases hi : chByLocal c id with
  | none => simp
  | some i =>
    dsimp only
    split_ifs with h1 h2 h3 h4 <;> simp_all

/-- DATA for the id is taken, and the session goes on. -/
def TakesData (E : Env Rng SS) (c : Ctx Rng SS) (id : UInt32) (data : Bytes) : Prop :=
  ∀ plain tag, Dispatched tag → Pdu.ofBytes plain = .channelData id data →
    (handlePlain E c plain tag).2 = true

theorem handlePlain_data_true (hst : c.muxes) (ht : Dispatched tag) {data : Bytes}
    (h : Pdu.ofBytes plain = .channelData id data) :
    (handlePlain E c plain tag).2 = true ↔ c.Admits id data := by
  have hh := (Pdu.channelData_inv h).1
  rw [handlePlain_mux hst ht (nonempty_of_headD hh (by decide)), ← muxChannelData_true h]
  unfold handleMuxPdu
  rw [hh]
  rfl

theorem TakesData.mono (hst : c.muxes) (hst' : c'.muxes) {data : Bytes}
    (ha : c.Admits id data → c'.Admits id data) (h : TakesData E c id data) :
    TakesData E c' id data := by
  intro plain tag ht hp
  rw [handlePlain_data_true hst' ht hp]
  exact ha ((handlePlain_data_true hst ht hp).mp (h plain tag ht hp))

theorem channelWindowAdjust_ok {n : UInt32} (h : channelWindowAdjust E c id n = (c', .ok)) :
    c.state = .ready ∧ c'.state = c.state ∧ ∃ i, chByLocal c id = some i ∧
      (c.channels i).state = .open_ ∧
      c'.channels = Function.update c.channels i
        { c.channels i with recvWindow := (c.channels i).recvWindow + n } := by
  unfold channelWindowAdjust at h
  split_ifs at h with _ hst
  · cases h
  · cases h
  · rw [not_not] at hst
    split at h
    · cases h
    · rename_i i hi
      dsimp only at h
      split_ifs at h with ho
      · cases h
      · rw [not_or, not_not] at ho
        split at h
        · cases h
        · rename_i pdu _
          rcases hsend : ssSendPdu E c pdu with ⟨d, rc⟩
          have hd := ssSendPdu_state E c pdu
          rw [hsend] at h hd
          cases rc <;> try cases h
          have hch : d.channels = c.channels := by
            obtain ⟨-, -, hc⟩ | ⟨hrc, -⟩ := ssSendPdu_atomic hsend
            · exact hc
            · exact absurd rfl hrc
          refine ⟨hst, hd, i, hi, ho.1, ?_⟩
          rw [← hch]
          rfl

theorem Ctx.Admits.raise {w : UInt32} {j : Fin maxChannelSlots} {data : Bytes}
    (hw : (c.channels j).recvWindow ≤ w)
    (hc : c'.channels = Function.update c.channels j { c.channels j with recvWindow := w })
    (h : c.Admits id data) : c'.Admits id data := by
  have hsame : ∀ k, (c'.channels k).state = (c.channels k).state ∧
      (c'.channels k).localId = (c.channels k).localId ∧
      (c.channels k).recvWindow ≤ (c'.channels k).recvWindow := by
    intro k
    rw [hc]
    by_cases hk : k = j
    · subst hk
      rw [Function.update_self]
      exact ⟨rfl, rfl, hw⟩
    · rw [Function.update_of_ne hk]
      exact ⟨rfl, rfl, UInt32.le_refl _⟩
  have hfind : chByLocal c' id = chByLocal c id := by
    unfold chByLocal
    simp only [(hsame _).1, (hsame _).2.1]
  obtain ⟨i, hi, ho, hr, hm⟩ := h
  refine ⟨i, hfind.trans hi, (hsame i).1.trans ho, hr.trans ?_, hm⟩
  exact UInt32.le_iff_toNat_le.mp (hsame i).2.2

theorem record_slots (k : Call) (r : Ctx Rng SS × Rc) :
    (record k r).1.state = r.1.state ∧ (record k r).1.channels = r.1.channels := by
  unfold record
  dsimp only
  split
  · exact ⟨rfl, rfl⟩
  · exact ⟨rfl, rfl⟩

/-- The host grants credit that fits into the window. -/
def GrantFits (c : Ctx Rng SS) (k : Call) : Prop :=
  ∃ id n, k = .channelWindowAdjust id n ∧
    ∀ i, chByLocal c id = some i → (c.channels i).recvWindow.toNat + n.toNat < 2 ^ 32

theorem Ctx.Admits.grant {k : Call} {data : Bytes} (hk : GrantFits c k) (h : c.Admits id data) :
    (call E c k).1.state = c.state ∧ (call E c k).1.Admits id data := by
  obtain ⟨j, n, rfl, hfit⟩ := hk
  have hcall : ∀ r : Ctx Rng SS × Rc, channelWindowAdjust E c j n = r →
      (call E c (.channelWindowAdjust j n)).1.state = r.1.state ∧
      (call E c (.channelWindowAdjust j n)).1.channels = r.1.channels := by
    rintro r rfl
    exact record_slots _ _
  rcases hr : channelWindowAdjust E c j n with ⟨d, rc⟩
  obtain ⟨hst, hch⟩ := hcall _ hr
  by_cases hrc : rc = .ok
  · subst hrc
    obtain ⟨-, hs, i, hi, -, hc⟩ := channelWindowAdjust_ok hr
    exact ⟨hst.trans hs, h.raise ((le_add_iff _ _).mpr (hfit i hi)) (hch.trans hc)⟩
  · have hd := channelWindowAdjust_atomic (E := E) c j n
    rw [hr] at hd
    cases hd with
    | nothing _ hu =>
      have hsc : d.state = c.state ∧ d.channels = c.channels := by
        rw [hu.rest]
        exact ⟨rfl, rfl⟩
      refine ⟨hst.trans hsc.1, ?_⟩
      obtain ⟨i, hi, ho, hr', hm⟩ := h
      have hcc := hch.trans hsc.2
      refine ⟨i, ?_, by rwa [hcc], by rwa [hcc], hm⟩
      unfold chByLocal
      rw [hcc]
      exact hi
    | done => exact absurd rfl hrc

theorem Ctx.Admits.grants {l : List (Call × Ret)} {data : Bytes} (hr : Run E GrantFits c l c')
    (h : c.Admits id data) : c'.state = c.state ∧ c'.Admits id data := by
  induction hr with
  | nil => exact ⟨rfl, h⟩
  | snoc k _ hk ih =>
    obtain ⟨hs, ha⟩ := ih
    obtain ⟨hs', ha'⟩ := ha.grant (E := E) hk
    exact ⟨hs'.trans hs, ha'⟩

/-- A WINDOW of the peer, a grant of the host and a run of grants keep the credit that was there
exactly as long as the amount fits into the window. -/
theorem added_credit_kept_iff (hi : chByLocal c id = some i) (ho : (c.channels i).state = .open_)
    (amount : UInt32) :
    (∀ plain tag, c.muxes → Dispatched tag → Pdu.ofBytes plain = .channelWindow id amount →
      ((c.channels i).sendWindow ≤ ((handlePlain E c plain tag).1.channels i).sendWindow ↔
        (c.channels i).sendWindow.toNat + amount.toNat < 2 ^ 32)) ∧
    (∀ c', channelWindowAdjust E c id amount = (c', .ok) →
      (((c.channels i).recvWindow ≤ (c'.channels i).recvWindow ∧
          ∀ id data, TakesData E c id data → TakesData E c' id data) ↔
        (c.channels i).recvWindow.toNat + amount.toNat < 2 ^ 32)) ∧
    ∀ l c', c.muxes → Run E GrantFits c l c' →
      ∀ id data, TakesData E c id data → TakesData E c' id data := by
  refine ⟨?_, ?_, ?_⟩
  · intro plain tag hst ht hp
    rw [handlePlain_window hst ht hp hi ho, ← le_add_iff, emit_eq]
    change _ ≤ (Function.update c.channels i _ i).sendWindow ↔ _
    rw [Function.update_self]
  · intro c' h
    obtain ⟨hready, hs, j, hj, -, hc⟩ := channelWindowAdjust_ok h
    obtain rfl : i = j := Option.some.inj (hi.symm.trans hj)
    have hself : (c'.channels i).recvWindow = (c.channels i).recvWindow + amount := by
      rw [hc, Function.update_self]
    rw [hself, le_add_iff, and_iff_left_iff_imp]
    intro hfit id' data
    have hst : c.muxes := Or.inl hready
    exact TakesData.mono hst (by rwa [Ctx.muxes, hs]) (.raise ((le_add_iff _ _).mpr hfit) hc)
  · intro l c' hst hr id' data hd plain tag ht hp
    have ha := (handlePlain_data_true hst ht hp).mp (hd plain tag ht hp)
    obtain ⟨hs, ha'⟩ := ha.grants hr
    exact (handlePlain_data_true (c := c') (by rwa [Ctx.muxes, hs]) ht hp).mpr ha'

/-- The second WINDOW takes away what the first one gave, and a grant turns DATA that the window
admitted into an error. -/
theorem added_credit_lost_plain :
    Reachable plainEnv plainServerOpen ∧
    ((play plainEnv plainServerOpen [.feedInput (plainRecord (plainWindow 0xFFFFFFFF)),
        .feedInput (plainRecord (plainWindow 1))]).channels slot0).sendWindow <
      ((play plainEnv plainServerOpen
        [.feedInput (plainRecord (plainWindow 0xFFFFFFFF))]).channels slot0).sendWindow ∧
    (channelWindowAdjust plainEnv plainServerOpen 0 0xFFFC0000).2 = .ok ∧
    (play plainEnv plainServerOpen [.feedInput (plainRecord plainByte)]).state = .ready ∧
    (play plainEnv plainServerOpen [.channelWindowAdjust 0 0xFFFC0000,
      .feedInput (plainRecord plainByte)]).state = .error :=
  ⟨reachable_plainServerOpen, by decide +kernel⟩

theorem added_credit_kept_iff_plain :
    (plainServerOpen.channels slot0).sendWindow ≤ ((handlePlain plainEnv plainServerOpen
        (plainWindow 1) tagMessage).1.channels slot0).sendWindow ↔
      (plainServerOpen.channels slot0).sendWindow.toNat + (1 : UInt32).toNat < 2 ^ 32 := by
  have hi : chByLocal plainServerOpen 0 = some slot0 := by decide +kernel
  have ho : (plainServerOpen.channels slot0).state = .open_ := by decide +kernel
  have hst : plainServerOpen.muxes := Or.inl (by decide +kernel)
  exact (added_credit_kept_iff hi ho 1).1 (plainWindow 1) tagMessage hst ⟨by decide, by decide⟩
    (by decide +kernel)

end Sodchan
