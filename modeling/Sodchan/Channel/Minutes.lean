import Sodchan.Channel.Concord
import Sodchan.Channel.Numbered

/-! # A diary of the table

Every deed of the table is noted, and the diary keeps up with the table: a slot
in use is at the stage of its channel, and its windows are what the notes of the
channel add up to.
-/

namespace Sodchan

open ByteString

variable {t : Terms} {s : Table} {i j : Fin maxChannelSlots} {ch : Channel} {a : Deed}
  {l : List Note} {n : Note} {x : UInt32}

def Note.title : Note → Option Bytes
  | opened _ _ _ name | offered _ _ _ _ name => some name
  | _ => none

/-- The windows of an open slot, as long as what was granted fits the counter. -/
structure Balanced (ch : Channel) (own quota : UInt32) (l : List Note) : Prop where
  recv : own.toNat + credits (toldOn ch.localId l) < 2 ^ 32 →
    ch.recvWindow.toNat + sizes (heardOn ch.localId l) = own.toNat + credits (toldOn ch.localId l)
  send : quota.toNat + credits (heardOn ch.localId l) < 2 ^ 32 →
    ch.sendWindow.toNat + sizes (toldOn ch.localId l) =
      quota.toNat + credits (heardOn ch.localId l)

structure Recorded (ch : Channel) (l : List Note) : Prop where
  opening : ch.state = .opening → stageOf ch.localId l = .opening ch.recvWindow
  pending : ch.state = .pending → stageOf ch.localId l = .pending ch.peerId ch.sendWindow
  open_ : ch.state = .open_ → ∃ own quota, stageOf ch.localId l = .open_ ch.peerId own quota ∧
    Balanced ch own quota l
  title : ∃ n ∈ l, n.born = some ch.localId ∧ ∃ name, n.title = some name ∧ cstr name = cstr ch.name
  shut : .eof ∈ toldOn ch.localId l → ch.localEof

/-- The diary keeps up with the table. -/
structure Minutes (s : Table) (l : List Note) : Prop where
  numbered : Numbered s
  sound : Sound l
  slot : ∀ i, (s.slot i).state ≠ .unused → Recorded (s.slot i) l
  found : ∀ x, (stageOf x l).live → ∃ i, (s.slot i).state ≠ .unused ∧ (s.slot i).localId = x
  fresh : ∀ x : UInt32, s.allocs ≤ x.toNat → stageOf x l = .unborn

def Deed.note (t : Terms) (s : Table) : Deed → Option Note
  | offered _ peer window packet name => some (.offered s.next peer window packet name)
  | confirmed i peer window packet => some (.confirmed (s.slot i).localId peer window packet)
  | failed i => some (.failed (s.slot i).localId)
  | data i payload => some (.heard (s.slot i).localId (.data payload))
  | credit i add => some (.heard (s.slot i).localId (.window add))
  | eof i => some (.heard (s.slot i).localId .eof)
  | closed i => some (.heard (s.slot i).localId .close)
  | open_ _ name => some (.opened s.next t.window t.packet (cstr name))
  | accept i => some (.accepted (s.slot i).localId (s.slot i).peerId t.window t.packet)
  | reject i => some (.rejected (s.slot i).localId (s.slot i).peerId)
  | send i payload => some (.told (s.slot i).localId (s.slot i).peerId (.data payload))
  | shut i => some (.told (s.slot i).localId (s.slot i).peerId .eof)
  | close i told => some (if told then .told (s.slot i).localId (s.slot i).peerId .close
      else .dropped (s.slot i).localId)
  | grant i add => some (.told (s.slot i).localId (s.slot i).peerId (.window add))
  | idle | refused _ | lost _ => none

namespace Recorded

theorem live (h : Recorded ch l) (hu : ch.state ≠ .unused) (hc : ch.state ≠ .closed) :
    (stageOf ch.localId l).live := by
  cases hs : ch.state with
  | unused => exact absurd hs hu
  | closed => exact absurd hs hc
  | opening =>
    rw [h.opening hs]
    exact ⟨by rintro ⟨⟩, by rintro ⟨⟩⟩
  | pending =>
    rw [h.pending hs]
    exact ⟨by rintro ⟨⟩, by rintro ⟨⟩⟩
  | open_ =>
    obtain ⟨own, quota, hst, -⟩ := h.open_ hs
    rw [hst]
    exact Stage.live_open _ _ _

theorem other (h : Recorded ch l) (hn : n.about ≠ some ch.localId) : Recorded ch (l ++ [n]) := by
  have hst : stageOf ch.localId (l ++ [n]) = stageOf ch.localId l := by
    rw [stageOf_snoc, if_neg hn]
  have htold : toldOn ch.localId (l ++ [n]) = toldOn ch.localId l := by
    rw [toldOn_snoc, (Note.tells_hears hn).1]
    exact List.append_nil _
  have hheard : heardOn ch.localId (l ++ [n]) = heardOn ch.localId l := by
    rw [heardOn_snoc, (Note.tells_hears hn).2]
    exact List.append_nil _
  refine ⟨fun hs => hst.trans (h.opening hs), fun hs => hst.trans (h.pending hs), fun hs => ?_, ?_,
    ?_⟩
  · obtain ⟨own, quota, ho, hb⟩ := h.open_ hs
    refine ⟨own, quota, hst.trans ho, ?_, ?_⟩
    · rw [htold, hheard]
      exact hb.recv
    · rw [htold, hheard]
      exact hb.send
  · obtain ⟨k, hk, hx, name, hname⟩ := h.title
    exact ⟨k, List.mem_append_left _ hk, hx, name, hname⟩
  · rw [htold]
    exact h.shut

end Recorded

namespace Minutes

theorem empty : Minutes .empty [] where
  numbered := .empty
  sound := .nil
  slot _ h := absurd rfl h
  found _ h := absurd rfl h.1
  fresh _ _ := rfl

theorem used (h : Minutes s l) (hs : (s.slot i).state ≠ .unused) :
    (stageOf (s.slot i).localId l).live :=
  (h.slot i hs).live hs (h.numbered.live i)

theorem aside (h : Minutes s l) (ho : ¬ Over l) (hf : n.Fits l) (hn : n.about = none) :
    Minutes s (l ++ [n]) := by
  have hst : ∀ x, stageOf x (l ++ [n]) = stageOf x l := by
    intro x
    rw [stageOf_snoc, if_neg (by rw [hn]; rintro ⟨⟩)]
  refine ⟨h.numbered, h.sound.snoc ho hf, fun i hi => (h.slot i hi).other ?_, fun x hx => ?_,
    fun x hx => ?_⟩
  · rw [hn]
    rintro ⟨⟩
  · rw [hst] at hx
    exact h.found x hx
  · rw [hst]
    exact h.fresh x hx

theorem change (h : Minutes s l) (ho : ¬ Over l) (hf : n.Fits l)
    (hu : (s.slot i).state ≠ .unused) (hn : n.about = some (s.slot i).localId)
    (hnum : Numbered (s.put i ch)) (hid : ch.localId = (s.slot i).localId)
    (hused : ch.state ≠ .unused) (hr : Recorded ch (l ++ [n])) :
    Minutes (s.put i ch) (l ++ [n]) := by
  have hother : ∀ j, j ≠ i → (s.slot j).state ≠ .unused → n.about ≠ some (s.slot j).localId := by
    intro j hji hj he
    rw [hn] at he
    exact hji (h.numbered.distinct j i hj hu (Option.some.inj he).symm)
  refine ⟨hnum, h.sound.snoc ho hf, fun j hj => ?_, fun x hx => ?_, fun x hx => ?_⟩
  · by_cases hji : j = i
    · rw [hji, Table.put_slot]
      exact hr
    · rw [Table.put_slot_of_ne hji] at hj ⊢
      exact (h.slot j hj).other (hother j hji hj)
  · by_cases hxi : x = (s.slot i).localId
    · refine ⟨i, ?_, ?_⟩
      · rwa [Table.put_slot]
      · rw [Table.put_slot, hid, hxi]
    · rw [stageOf_snoc, if_neg (by rw [hn]; exact fun he => hxi (Option.some.inj he).symm)] at hx
      obtain ⟨j, hj, rfl⟩ := h.found x hx
      have hji : j ≠ i := by
        rintro rfl
        exact hxi rfl
      refine ⟨j, ?_, ?_⟩ <;> rw [Table.put_slot_of_ne hji]
      exact hj
  · have hx : s.allocs ≤ x.toNat := hx
    rw [stageOf_snoc, if_neg]
    · exact h.fresh x hx
    · rw [hn]
      intro he
      have := h.numbered.below i hu
      rw [Option.some.inj he] at this
      omega

theorem give_up (h : Minutes s l) (ho : ¬ Over l) (hf : n.Fits l)
    (hu : (s.slot i).state ≠ .unused) (hn : n.about = some (s.slot i).localId) (he : n.ends) :
    Minutes (s.free i) (l ++ [n]) := by
  have hsound := h.sound.snoc ho hf
  have hgone := hsound.of_ends (List.mem_append_right _ (List.mem_singleton_self n)) hn he
  refine ⟨h.numbered.free, hsound, fun j hj => ?_, fun x hx => ?_, fun x hx => ?_⟩
  · by_cases hji : j = i
    · rw [hji, Table.free, Table.put_slot] at hj
      exact absurd rfl hj
    · rw [Table.free, Table.put_slot_of_ne hji] at hj ⊢
      refine (h.slot j hj).other fun he => ?_
      rw [hn] at he
      exact hji (h.numbered.distinct j i hj hu (Option.some.inj he).symm)
  · have hxi : x ≠ (s.slot i).localId := by
      rintro rfl
      exact hx.2 hgone
    rw [stageOf_snoc, if_neg (by rw [hn]; exact fun he => hxi (Option.some.inj he).symm)] at hx
    obtain ⟨j, hj, rfl⟩ := h.found x hx
    have hji : j ≠ i := by
      rintro rfl
      exact hxi rfl
    refine ⟨j, ?_, ?_⟩ <;> rw [Table.free, Table.put_slot_of_ne hji]
    exact hj
  · have hx : s.allocs ≤ x.toNat := hx
    rw [stageOf_snoc, if_neg]
    · exact h.fresh x hx
    · rw [hn]
      intro he
      have := h.numbered.below i hu
      rw [Option.some.inj he] at this
      omega

theorem take (h : Minutes s l) (ho : ¬ Over l) (hb : s.allocs < 2 ^ 32) (hn : n.born = some s.next)
    (hu : (s.slot i).state = .unused) (hused : ch.state ≠ .unused) (hc : ch.state ≠ .closed)
    (hr : Recorded { ch with localId := s.next } (l ++ [n])) (hf : n.Fits l) :
    Minutes (s.take i ch) (l ++ [n]) := by
  have hnext := h.numbered.next_toNat hb
  have habout := Sound.born_about hn
  have hself : (s.take i ch).slot i = { ch with localId := s.next } := Table.take_slot
  have hother : ∀ j, j ≠ i → (s.take i ch).slot j = s.slot j := fun j => Table.take_slot_of_ne
  refine ⟨h.numbered.take hb hc, h.sound.snoc ho hf, fun j hj => ?_, fun x hx => ?_, fun x hx => ?_⟩
  · by_cases hji : j = i
    · rw [hji, hself]
      exact hr
    · rw [hother j hji] at hj ⊢
      refine (h.slot j hj).other fun he => ?_
      rw [habout] at he
      exact h.numbered.next_new hb hj (Option.some.inj he).symm
  · by_cases hxi : x = s.next
    · refine ⟨i, ?_, ?_⟩ <;> rw [hself]
      · exact hused
      · exact hxi.symm
    · rw [stageOf_snoc,
        if_neg (by rw [habout]; exact fun he => hxi (Option.some.inj he).symm)] at hx
      obtain ⟨j, hj, rfl⟩ := h.found x hx
      have hji : j ≠ i := by
        rintro rfl
        exact hj hu
      refine ⟨j, ?_, ?_⟩ <;> rw [hother j hji]
      exact hj
  · have hx : s.allocs + 1 ≤ x.toNat := hx
    rw [stageOf_snoc, if_neg]
    · exact h.fresh x (by omega)
    · rw [habout]
      intro he
      rw [Option.some.inj he] at hnext
      omega

theorem title (h : Recorded ch l) : ∃ k ∈ l ++ [n], k.born = some ch.localId ∧
    ∃ name, k.title = some name ∧ cstr name = cstr ch.name := by
  obtain ⟨k, hk, hx, name, hname⟩ := h.title
  exact ⟨k, List.mem_append_left _ hk, hx, name, hname⟩

theorem speak (h : Minutes s l) (ho : ¬ Over l) (hf : n.Fits l) (hs : (s.slot i).state = .open_)
    (hn : n.about = some (s.slot i).localId) (hmove : ∀ st, n.move st = st)
    (hnum : Numbered (s.put i ch))
    (hch : ch.localId = (s.slot i).localId ∧ ch.peerId = (s.slot i).peerId ∧
      ch.name = (s.slot i).name ∧ ch.state = .open_)
    (hshut : n.tells (s.slot i).localId = some .eof ∨ (s.slot i).localEof → ch.localEof)
    (hbal : ∀ own quota, stageOf (s.slot i).localId l = .open_ (s.slot i).peerId own quota →
      Balanced (s.slot i) own quota l → Balanced ch own quota (l ++ [n])) :
    Minutes (s.put i ch) (l ++ [n]) := by
  have hu : (s.slot i).state ≠ .unused := by
    rw [hs]
    rintro ⟨⟩
  obtain ⟨hid, hpeer, hname, hopen⟩ := hch
  have hr := h.slot i hu
  obtain ⟨own, quota, hst, hb⟩ := hr.open_ hs
  refine h.change ho hf hu hn hnum hid (by rw [hopen]; rintro ⟨⟩) ⟨fun he => ?_, fun he => ?_,
    fun _ => ⟨own, quota, ?_, hbal own quota hst hb⟩, ?_, fun he => ?_⟩
  · rw [hopen] at he
    cases he
  · rw [hopen] at he
    cases he
  · rw [hid, hpeer, stageOf_snoc, if_pos hn, hmove, hst]
  · rw [hid, hname]
    exact title hr
  · rw [hid, toldOn_snoc, List.mem_append, Option.mem_toList] at he
    exact hshut (he.symm.imp_right hr.shut)

theorem may_tell (h : Minutes s l) (hs : (s.slot i).state = .open_) {m : Msg}
    (hmax : m.size ≤ dataMax) (hsend : m.size ≤ (s.slot i).sendWindow.toNat)
    (hshut : m.streams → (s.slot i).localEof = false) :
    (Note.told (s.slot i).localId (s.slot i).peerId m).Fits l := by
  have hr := h.slot i (by rw [hs]; rintro ⟨⟩)
  obtain ⟨own, quota, hst, hb⟩ := hr.open_ hs
  refine ⟨own, quota, hst, hmax, fun hlt => ?_, fun hm he => ?_⟩
  · have := hb.send hlt
    omega
  · have := hr.shut he
    rw [hshut hm] at this
    cases this

theorem sizes_told (x y : UInt32) (l : List Note) (m : Msg) :
    sizes (toldOn x (l ++ [.told x y m])) = sizes (toldOn x l) + m.size ∧
    credits (toldOn x (l ++ [.told x y m])) = credits (toldOn x l) + m.credit ∧
    heardOn x (l ++ [.told x y m]) = heardOn x l := by
  rw [toldOn_snoc, heardOn_snoc]
  simp [Note.tells, Note.hears, sizes, credits]

theorem sizes_heard (x : UInt32) (l : List Note) (m : Msg) :
    sizes (heardOn x (l ++ [.heard x m])) = sizes (heardOn x l) + m.size ∧
    credits (heardOn x (l ++ [.heard x m])) = credits (heardOn x l) + m.credit ∧
    toldOn x (l ++ [.heard x m]) = toldOn x l := by
  rw [toldOn_snoc, heardOn_snoc]
  simp [Note.tells, Note.hears, sizes, credits]

theorem balanced_told {own quota y : UInt32} {m : Msg} (hb : Balanced (s.slot i) own quota l)
    (hid : ch.localId = (s.slot i).localId)
    (hrecv : (s.slot i).recvWindow.toNat + m.credit < 2 ^ 32 →
      ch.recvWindow.toNat = (s.slot i).recvWindow.toNat + m.credit)
    (hsend : ch.sendWindow.toNat + m.size = (s.slot i).sendWindow.toNat) :
    Balanced ch own quota (l ++ [.told (s.slot i).localId y m]) := by
  obtain ⟨h1, h2, h3⟩ := sizes_told (s.slot i).localId y l m
  have hr := hb.recv
  have hs := hb.send
  refine ⟨?_, ?_⟩ <;> rw [hid, h3]
  · rw [h2]
    intro hlt
    have hr := hr (by omega)
    have := hrecv (by omega)
    omega
  · rw [h1]
    intro hlt
    have hs := hs hlt
    omega

theorem balanced_heard {own quota : UInt32} {m : Msg} (hb : Balanced (s.slot i) own quota l)
    (hid : ch.localId = (s.slot i).localId)
    (hrecv : ch.recvWindow.toNat + m.size = (s.slot i).recvWindow.toNat)
    (hsend : (s.slot i).sendWindow.toNat + m.credit < 2 ^ 32 →
      ch.sendWindow.toNat = (s.slot i).sendWindow.toNat + m.credit) :
    Balanced ch own quota (l ++ [.heard (s.slot i).localId m]) := by
  obtain ⟨h1, h2, h3⟩ := sizes_heard (s.slot i).localId l m
  have hr := hb.recv
  have hs := hb.send
  refine ⟨?_, ?_⟩ <;> rw [hid, h3]
  · rw [h1]
    intro hlt
    have hr := hr hlt
    omega
  · rw [h2]
    intro hlt
    have hs := hs (by omega)
    have := hsend (by omega)
    omega

theorem add_toNat {w v : UInt32} (h : w.toNat + v.toNat < 2 ^ 32) :
    (w + v).toNat = w.toNat + v.toNat := by
  rw [UInt32.toNat_add, Nat.mod_eq_of_lt h]

theorem untold (h : Sound l) (hs : (stageOf x l).rank < 2) (hn : n.tells x = none) :
    toldOn x (l ++ [n]) = [] := by
  rw [toldOn_snoc, (h.early hs).1, hn]
  rfl

theorem balanced_new {own quota x y p : UInt32} (h : Sound l) (hs : (stageOf x l).rank < 2)
    (hid : ch.localId = x) (hrecv : ch.recvWindow = own) (hsend : ch.sendWindow = quota)
    (hn : n = .confirmed x y quota p ∨ n = .accepted x y own p) :
    Balanced ch own quota (l ++ [n]) := by
  obtain ⟨-, h2, h3⟩ := h.early hs
  have htold : toldOn ch.localId (l ++ [n]) = [] := by
    rw [hid]
    exact untold h hs (by obtain rfl | rfl := hn <;> rfl)
  have hheard : heardOn ch.localId (l ++ [n]) = heardOn x l := by
    rw [heardOn_snoc, hid]
    obtain rfl | rfl := hn <;> exact List.append_nil _
  refine ⟨fun _ => ?_, fun _ => ?_⟩ <;> rw [htold, hheard]
  · rw [h2, hrecv]
    rfl
  · rw [h3, hsend]
    rfl

theorem opens (h : Minutes s l) (ho : ¬ Over l) (hf : n.Fits l) (hu : (s.slot i).state ≠ .unused)
    {x p : UInt32} (hx : (s.slot i).localId = x)
    (hn : n = .confirmed x ch.peerId ch.sendWindow p ∨ n = .accepted x ch.peerId ch.recvWindow p)
    (hnum : Numbered (s.put i ch)) (hid : ch.localId = x) (hname : ch.name = (s.slot i).name)
    (hs : ch.state = .open_) (hrank : (stageOf x l).rank < 2)
    (hmove : n.move (stageOf x l) = .open_ ch.peerId ch.recvWindow ch.sendWindow) :
    Minutes (s.put i ch) (l ++ [n]) := by
  have habout : n.about = some x := by
    obtain rfl | rfl := hn <;> rfl
  refine h.change ho hf hu (hx ▸ habout) hnum (hid.trans hx.symm) (by rw [hs]; rintro ⟨⟩)
    ⟨fun he => ?_, fun he => ?_, fun _ => ⟨ch.recvWindow, ch.sendWindow, ?_, ?_⟩, ?_, fun he => ?_⟩
  · rw [hs] at he
    cases he
  · rw [hs] at he
    cases he
  · rw [hid, stageOf_snoc, if_pos habout, hmove]
  · exact balanced_new h.sound hrank hid rfl rfl hn
  · rw [hid, hname, ← hx]
    exact title (h.slot i hu)
  · rw [hid, untold h.sound hrank (by obtain rfl | rfl := hn <;> rfl)] at he
    cases he

/-- Every deed is noted, and the diary keeps up with it. -/
theorem deed (h : Minutes s l) (ho : ¬ Over l) (ha : a.Enabled t s)
    (hb : a.allocates → s.allocs < 2 ^ 32) (hc : ∀ i, a = .close i true → (s.slot i).state = .open_)
    (hn : a.note t s = some n) : n.Fits l ∧ Minutes (a.apply t s) (l ++ [n]) := by
  have hnum := h.numbered.apply ha hb
  have hfresh : s.allocs < 2 ^ 32 → stageOf s.next l = .unborn :=
    fun hb => h.fresh _ (h.numbered.next_toNat hb).ge
  have hborn : ∀ {k : Note} {st : Stage}, k.born = some s.next → k.move (stageOf s.next l) = st →
      stageOf s.next (l ++ [k]) = st := by
    intro k st hk hm
    rw [stageOf_snoc, if_pos (Sound.born_about hk), hm]
  have hnone : ∀ {k : Note}, stageOf s.next l = .unborn → k.tells s.next = none →
      toldOn s.next (l ++ [k]) = [] := fun hs => untold h.sound (by rw [hs]; exact Nat.zero_lt_two)
  have hlive : ∀ {i}, s.Named i → (s.slot i).state ≠ .unused ∧
      (stageOf (s.slot i).localId l).live := fun hi => ⟨hi.used, h.used hi.used⟩
  cases a with
  | idle | refused | lost => cases hn
  | offered i peer window packet name =>
    obtain rfl := Option.some.inj hn
    have hf := hfresh (hb rfl)
    refine ⟨hf, h.take ho (hb rfl) rfl ha.1 (by rintro ⟨⟩) (by rintro ⟨⟩)
      ⟨by rintro ⟨⟩, fun _ => ?_, by rintro ⟨⟩, ?_, fun he => ?_⟩ hf⟩
    · exact hborn rfl rfl
    · exact ⟨_, List.mem_append_right _ (List.mem_singleton_self _), rfl, name, rfl, rfl⟩
    · rw [hnone hf rfl] at he
      cases he
  | open_ i name =>
    obtain rfl := Option.some.inj hn
    have hf := hfresh (hb rfl)
    refine ⟨hf, h.take ho (hb rfl) rfl ha.1 (by rintro ⟨⟩) (by rintro ⟨⟩)
      ⟨fun _ => ?_, by rintro ⟨⟩, by rintro ⟨⟩, ?_, fun he => ?_⟩ hf⟩
    · exact hborn rfl rfl
    · exact ⟨_, List.mem_append_right _ (List.mem_singleton_self _), rfl, _, rfl, cstr_cstr name⟩
    · rw [hnone hf rfl] at he
      cases he
  | confirmed i peer window packet =>
    obtain rfl := Option.some.inj hn
    obtain ⟨hi, hst⟩ := ha
    have hstage := (h.slot i hi.used).opening hst
    have hf : (Note.confirmed (s.slot i).localId peer window packet).Fits l := ⟨_, hstage⟩
    refine ⟨hf, h.opens ho hf hi.used rfl (Or.inl rfl) hnum rfl rfl rfl ?_ ?_⟩
    · rw [hstage]
      exact Nat.one_lt_two
    · rw [hstage]
      rfl
  | accept i =>
    obtain rfl := Option.some.inj hn
    obtain ⟨hi, hst⟩ := ha
    have hstage := (h.slot i hi.used).pending hst
    have hf : (Note.accepted (s.slot i).localId (s.slot i).peerId t.window t.packet).Fits l :=
      ⟨_, hstage⟩
    refine ⟨hf, h.opens ho hf hi.used rfl (Or.inr rfl) hnum rfl rfl rfl ?_ ?_⟩
    · rw [hstage]
      exact Nat.one_lt_two
    · rw [hstage]
      rfl
  | failed i =>
    obtain rfl := Option.some.inj hn
    obtain ⟨hi, hst⟩ := ha
    have hf : (Note.failed (s.slot i).localId).Fits l := ⟨_, (h.slot i hi.used).opening hst⟩
    exact ⟨hf, h.give_up ho hf hi.used rfl rfl⟩
  | reject i =>
    obtain rfl := Option.some.inj hn
    obtain ⟨hi, hst⟩ := ha
    have hf : (Note.rejected (s.slot i).localId (s.slot i).peerId).Fits l :=
      ⟨_, (h.slot i hi.used).pending hst⟩
    exact ⟨hf, h.give_up ho hf hi.used rfl rfl⟩
  | closed i =>
    obtain rfl := Option.some.inj hn
    obtain ⟨hu, hl⟩ := hlive ha
    exact ⟨hl, h.give_up ho hl hu rfl rfl⟩
  | close i told =>
    obtain rfl := Option.some.inj hn
    obtain ⟨hu, hl⟩ := hlive ha
    cases told with
    | true =>
      have hf := h.may_tell (m := .close) (hc i rfl) (Nat.zero_le _) (Nat.zero_le _) (by rintro ⟨⟩)
      exact ⟨hf, h.give_up ho hf hu rfl rfl⟩
    | false => exact ⟨hl, h.give_up ho hl hu rfl rfl⟩
  | data i payload =>
    obtain rfl := Option.some.inj hn
    obtain ⟨hi, hst, hw, hmax⟩ := ha
    obtain ⟨own, quota, hstage, -⟩ := (h.slot i hi.used).open_ hst
    have hf : (Note.heard (s.slot i).localId (.data payload)).Fits l := ⟨_, own, quota, hstage⟩
    exact ⟨hf, h.speak ho hf hst rfl (fun _ => rfl) hnum ⟨rfl, rfl, rfl, hst⟩
      (Or.rec (by simp [Note.tells]) id)
      fun own quota _ hb => balanced_heard hb rfl (toNat_sub_le hw) fun _ => rfl⟩
  | credit i add =>
    obtain rfl := Option.some.inj hn
    obtain ⟨hi, hst⟩ := ha
    obtain ⟨own, quota, hstage, -⟩ := (h.slot i hi.used).open_ hst
    have hf : (Note.heard (s.slot i).localId (.window add)).Fits l := ⟨_, own, quota, hstage⟩
    exact ⟨hf, h.speak ho hf hst rfl (fun _ => rfl) hnum ⟨rfl, rfl, rfl, hst⟩
      (Or.rec (by simp [Note.tells]) id) fun own quota _ hb => balanced_heard hb rfl rfl add_toNat⟩
  | eof i =>
    obtain rfl := Option.some.inj hn
    obtain ⟨hu, hl⟩ := hlive ha
    have hr := h.slot i hu
    have hstage : stageOf (s.slot i).localId (l ++ [.heard (s.slot i).localId .eof]) =
        stageOf (s.slot i).localId l := by
      simp [stageOf_snoc, Note.about, Note.move, Note.ends]
    have htitle := title (n := .heard (s.slot i).localId .eof) hr
    refine ⟨hl, h.change ho hl hu rfl hnum rfl hu ⟨fun hs => hstage.trans (hr.opening hs),
      fun hs => hstage.trans (hr.pending hs), fun hs => ?_, htitle, fun he => hr.shut ?_⟩⟩
    · obtain ⟨own, quota, hst, hb⟩ := hr.open_ hs
      exact ⟨own, quota, hstage.trans hst, balanced_heard hb rfl rfl fun _ => rfl⟩
    · rwa [(sizes_heard _ l .eof).2.2] at he
  | send i payload =>
    obtain rfl := Option.some.inj hn
    obtain ⟨hi, hst, hopen, -, hmax, hw⟩ := ha
    have hf := h.may_tell (m := .data payload) hst hmax hw fun _ => hopen
    exact ⟨hf, h.speak ho hf hst rfl (fun _ => rfl) hnum ⟨rfl, rfl, rfl, hst⟩
      (Or.rec (by simp [Note.tells]) id)
      fun own quota _ hb => balanced_told hb rfl (fun _ => rfl) (toNat_sub_le hw)⟩
  | shut i =>
    obtain rfl := Option.some.inj hn
    obtain ⟨hi, hst, hopen⟩ := ha
    have hf := h.may_tell (m := .eof) hst (Nat.zero_le _) (Nat.zero_le _) fun _ => hopen
    exact ⟨hf, h.speak ho hf hst rfl (fun _ => rfl) hnum ⟨rfl, rfl, rfl, hst⟩
      (fun _ => rfl) fun own quota _ hb => balanced_told hb rfl (fun _ => rfl) rfl⟩
  | grant i add =>
    obtain rfl := Option.some.inj hn
    obtain ⟨hi, hst⟩ := ha
    have hf := h.may_tell (m := .window add) hst (Nat.zero_le _) (Nat.zero_le _) (by rintro ⟨⟩)
    exact ⟨hf, h.speak ho hf hst rfl (fun _ => rfl) hnum ⟨rfl, rfl, rfl, hst⟩
      (Or.rec (by simp [Note.tells]) id) fun own quota _ hb => balanced_told hb rfl add_toNat rfl⟩

theorem quiet (h : Minutes s l) (ha : a.Enabled t s) (hb : a.allocates → s.allocs < 2 ^ 32)
    (hn : a.note t s = none) : Minutes (a.apply t s) l := by
  have hnum := h.numbered.apply ha hb
  cases a with
  | idle | refused => exact h
  | lost i =>
    have hslot : ∀ j, ((s.take i Channel.zero).free i).slot j =
        if j = i then Channel.zero else s.slot j := by
      intro j
      by_cases hji : j = i
      · rw [hji, if_pos rfl, Table.free, Table.put_slot]
      · rw [if_neg hji, Table.free, Table.put_slot_of_ne hji, Table.take_slot_of_ne hji]
    refine ⟨hnum, h.sound, fun j hj => ?_, fun x hx => ?_, fun x hx => ?_⟩
    · change (((s.take i Channel.zero).free i).slot j).state ≠ _ at hj
      change Recorded (((s.take i Channel.zero).free i).slot j) l
      rw [hslot] at hj ⊢
      split_ifs at hj ⊢
      · exact absurd rfl hj
      · exact h.slot j hj
    · obtain ⟨j, hj, he⟩ := h.found x hx
      have hji : j ≠ i := by
        rintro rfl
        exact hj ha
      refine ⟨j, ?_⟩
      change (((s.take i Channel.zero).free i).slot j).state ≠ _ ∧
        (((s.take i Channel.zero).free i).slot j).localId = x
      rw [hslot, if_neg hji]
      exact ⟨hj, he⟩
    · have hx : s.allocs + 1 ≤ x.toNat := hx
      exact h.fresh x (by omega)
  | _ => cases hn

/-- A channel that is live has a slot, in the state that goes with its stage. -/
theorem at_stage (h : Minutes s l) (hl : (stageOf x l).live) : ∃ i, s.find x = some i ∧
    (s.slot i).localId = x ∧ (s.slot i).state ≠ .unused ∧
    ((s.slot i).state = .opening ∧ stageOf x l = .opening (s.slot i).recvWindow ∨
      (s.slot i).state = .pending ∧
        stageOf x l = .pending (s.slot i).peerId (s.slot i).sendWindow ∨
      (s.slot i).state = .open_ ∧ ∃ own quota,
        stageOf x l = .open_ (s.slot i).peerId own quota ∧ Balanced (s.slot i) own quota l) := by
  obtain ⟨i, hu, rfl⟩ := h.found x hl
  have hr := h.slot i hu
  refine ⟨i, h.numbered.named hu, rfl, hu, ?_⟩
  cases hs : (s.slot i).state with
  | unused => exact absurd hs hu
  | closed => exact absurd hs (h.numbered.live i)
  | opening => exact Or.inl ⟨rfl, hr.opening hs⟩
  | pending => exact Or.inr (Or.inl ⟨rfl, hr.pending hs⟩)
  | open_ => exact Or.inr (Or.inr ⟨rfl, hr.open_ hs⟩)

theorem at_opening (h : Minutes s l) (hs : stageOf x l = .opening own) : ∃ i, s.find x = some i ∧
    (s.slot i).localId = x ∧ (s.slot i).state = .opening := by
  obtain ⟨i, hi, hx, -, ⟨ho, -⟩ | ⟨-, hs'⟩ | ⟨-, _, _, hs', -⟩⟩ :=
    h.at_stage (x := x) (by rw [hs]; exact ⟨by rintro ⟨⟩, by rintro ⟨⟩⟩)
  · exact ⟨i, hi, hx, ho⟩
  all_goals
    rw [hs] at hs'
    cases hs'

theorem at_pending (h : Minutes s l) (hs : stageOf x l = .pending y quota) :
    ∃ i, s.find x = some i ∧ (s.slot i).localId = x ∧ (s.slot i).state = .pending ∧
      (s.slot i).peerId = y := by
  obtain ⟨i, hi, hx, -, ⟨-, hs'⟩ | ⟨ho, hs'⟩ | ⟨-, _, _, hs', -⟩⟩ :=
    h.at_stage (x := x) (by rw [hs]; exact ⟨by rintro ⟨⟩, by rintro ⟨⟩⟩)
  · rw [hs] at hs'
    cases hs'
  · exact ⟨i, hi, hx, ho, (Stage.pending.inj (hs'.symm.trans hs)).1⟩
  · rw [hs] at hs'
    cases hs'

theorem at_open (h : Minutes s l) (hs : stageOf x l = .open_ y own quota) :
    ∃ i, s.find x = some i ∧ (s.slot i).localId = x ∧ (s.slot i).state = .open_ ∧
      (s.slot i).peerId = y ∧ Balanced (s.slot i) own quota l := by
  obtain ⟨i, hi, hx, -, ⟨-, hs'⟩ | ⟨-, hs'⟩ | ⟨ho, own', quota', hs', hb⟩⟩ :=
    h.at_stage (x := x) (by rw [hs]; exact Stage.live_open _ _ _)
  · rw [hs] at hs'
    cases hs'
  · rw [hs] at hs'
    cases hs'
  · obtain ⟨hy, rfl, rfl⟩ := Stage.open_.inj (hs'.symm.trans hs)
    exact ⟨i, hi, hx, ho, hy, hb⟩

end Minutes

end Sodchan
