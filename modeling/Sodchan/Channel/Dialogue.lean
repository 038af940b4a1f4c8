import Mathlib.Data.List.Nodup
import Sodchan.Channel.Diary

/-! # Two diaries

Two endpoints that take, in order, what the other has sent. Their channels pair
up: whatever one of them hears on a channel was told to it on one channel of the
other, and nothing else was.
-/

namespace Sodchan

open ByteString

variable {x y z w p q own quota : UInt32} {name : Bytes} {a b l : List Note} {n k : Note}
  {pdu : Pdu} {m : Msg}

theorem sentBy_snoc (l : List Note) (n : Note) :
    sentBy (l ++ [n]) = sentBy l ++ n.sends.toList := by
  unfold sentBy
  rw [List.filterMap_append]
  cases h : n.sends <;> simp [h]

theorem takenBy_snoc (l : List Note) (n : Note) :
    takenBy (l ++ [n]) = takenBy l ++ n.takes.toList := by
  unfold takenBy
  rw [List.filterMap_append]
  cases h : n.takes <;> simp [h]

theorem mem_sentBy : pdu ∈ sentBy l ↔ ∃ n ∈ l, n.sends = some pdu := List.mem_filterMap

theorem mem_takenBy : pdu ∈ takenBy l ↔ ∃ n ∈ l, n.takes = some pdu := List.mem_filterMap

theorem sends_open (h : n.sends = some (.channelOpen x w p name)) : n = .opened x w p name := by
  cases n with
  | told z peer m => cases m <;> cases h
  | _ => cases h <;> rfl

theorem sends_confirm (h : n.sends = some (.channelOpenConfirm x y w p)) :
    n = .accepted x y w p := by
  cases n with
  | told z peer m => cases m <;> cases h
  | _ => cases h <;> rfl

theorem sends_fail (h : n.sends = some (.channelOpenFail y)) :
    (∃ x, n = .rejected x y) ∨ ∃ w p name, n = .refused y w p name := by
  cases n with
  | rejected z peer =>
    cases h
    exact Or.inl ⟨z, rfl⟩
  | refused peer w p name =>
    cases h
    exact Or.inr ⟨w, p, name, rfl⟩
  | told z peer m => cases m <;> cases h
  | _ => cases h

theorem sends_msg (h : n.sends = some (m.pdu y)) : ∃ x, n = .told x y m := by
  cases n with
  | told z peer m' =>
    refine ⟨z, ?_⟩
    cases m <;> cases m' <;> cases h <;> rfl
  | _ => cases m <;> cases h

theorem takes_confirm (h : n.takes = some (.channelOpenConfirm y x w p)) :
    n = .confirmed x y w p ∨ n = .passed (.channelOpenConfirm y x w p) ∨
      n = .broke (.channelOpenConfirm y x w p) := by
  cases n with
  | heard z m => cases m <;> cases h
  | passed | broke => cases h; simp
  | _ => cases h <;> simp

theorem takes_open (h : n.takes = some (.channelOpen x w p name)) :
    (∃ y, n = .offered y x w p name) ∨ n = .refused x w p name ∨
      n = .passed (.channelOpen x w p name) ∨ n = .broke (.channelOpen x w p name) := by
  cases n with
  | heard z m => cases m <;> cases h
  | passed | broke => cases h; simp
  | _ => cases h <;> simp

theorem takes_fail (h : n.takes = some (.channelOpenFail x)) :
    n = .failed x ∨ n = .passed (.channelOpenFail x) ∨ n = .broke (.channelOpenFail x) := by
  cases n with
  | heard z m => cases m <;> cases h
  | passed | broke => cases h; simp
  | _ => cases h <;> simp

theorem takes_msg (h : n.takes = some (m.pdu x)) :
    n = .heard x m ∨ n = .passed (m.pdu x) ∨ n = .broke (m.pdu x) := by
  cases n with
  | heard z m' => cases m <;> cases m' <;> cases h <;> simp
  | passed | broke => cases h; simp
  | _ => cases m <;> cases h

def Pdu.asker : Pdu → Option UInt32
  | channelOpen x .. => some x
  | _ => none

/-- Every CHANNEL_OPEN has an id of its own. -/
theorem Sound.askers_nodup (h : Sound l) : ((sentBy l).filterMap Pdu.asker).Nodup := by
  induction h with
  | nil => exact List.nodup_nil
  | @snoc l n hs _ hf ih =>
    rw [sentBy_snoc, List.filterMap_append]
    cases n with
    | opened x w p name =>
      rw [show (Option.toList (Note.opened x w p name).sends).filterMap Pdu.asker = [x] from rfl,
        ← List.concat_eq_append]
      refine (List.nodup_concat _ _).mpr ⟨fun hm => ?_, ih⟩
      obtain ⟨pdu, hp, hx⟩ := List.mem_filterMap.mp hm
      obtain ⟨k, hk, hks⟩ := mem_sentBy.mp hp
      cases pdu <;> cases hx
      obtain rfl := sends_open hks
      exact hs.of_unborn hf _ hk rfl
    | told z peer m =>
      cases m <;> exact (List.append_nil _).symm ▸ ih
    | _ => exact (List.append_nil _).symm ▸ ih

theorem Sound.born_nodup (h : Sound l) : (l.filterMap Note.born).Nodup := by
  induction h with
  | nil => exact List.nodup_nil
  | @snoc l n hs _ hf ih =>
    rw [List.filterMap_append]
    cases hx : n.born with
    | none =>
      rw [List.filterMap_cons_none hx]
      exact (List.append_nil _).symm ▸ ih
    | some x =>
      rw [List.filterMap_cons_some hx, List.filterMap_nil, ← List.concat_eq_append]
      refine (List.nodup_concat _ _).mpr ⟨fun hm => ?_, ih⟩
      obtain ⟨k, hk, hkx⟩ := List.mem_filterMap.mp hm
      exact hs.of_unborn (Sound.fits_born hx hf) k hk (Sound.born_about hkx)

theorem eq_of_nodup_filterMap {α β : Type} {f : α → Option β} {l : List α}
    (h : (l.filterMap f).Nodup) {a b : α} {x : β} (ha : a ∈ l) (hb : b ∈ l) (hx : f a = some x)
    (hy : f b = some x) : a = b := by
  induction l with
  | nil => cases ha
  | cons c l ih =>
    have hnew : ∀ {d : α}, d ∈ l → f d = some x → f c ≠ some x := by
      intro d hd hdx hc
      rw [List.filterMap_cons_some hc] at h
      exact (List.nodup_cons.mp h).1 (List.mem_filterMap.mpr ⟨d, hd, hdx⟩)
    have hl : (l.filterMap f).Nodup := by
      cases hc : f c with
      | none => rwa [List.filterMap_cons_none hc] at h
      | some e =>
        rw [List.filterMap_cons_some hc] at h
        exact (List.nodup_cons.mp h).2
    obtain rfl | ha' := List.mem_cons.mp ha
    · obtain rfl | hb' := List.mem_cons.mp hb
      · rfl
      · exact absurd hx (hnew hb' hy)
    · obtain rfl | hb' := List.mem_cons.mp hb
      · exact absurd hy (hnew ha' hx)
      · exact ih hl ha' hb'

/-- A note may be made in `a`, where `b` is the diary of the peer. -/
structure Note.May (a b : List Note) (n : Note) : Prop where
  going : ¬ Over a
  fits : n.Fits a
  fifo : ∀ pdu, n.takes = some pdu → takenBy a ++ [pdu] <+: sentBy b

/-- Two diaries that have grown note by note, each note as the guard admits it. -/
inductive Talk (G : List Note → List Note → Note → Prop) : List Note → List Note → Prop where
  | nil : Talk G [] []
  | left {a b : List Note} {n : Note} : Talk G a b → n.May a b → G a b n → Talk G (a ++ [n]) b
  | right {a b : List Note} {n : Note} : Talk G a b → n.May b a → G b a n → Talk G a (b ++ [n])

variable {G : List Note → List Note → Note → Prop}

namespace Talk

theorem symm (h : Talk G a b) : Talk G b a := by
  induction h with
  | nil => exact .nil
  | left _ hm hg ih => exact ih.right hm hg
  | right _ hm hg ih => exact ih.left hm hg

theorem sound (h : Talk G a b) : Sound a := by
  induction h with
  | nil => exact .nil
  | left _ hm _ ih => exact ih.snoc hm.going hm.fits
  | right _ _ _ ih => exact ih

theorem fifo (h : Talk G a b) : takenBy a <+: sentBy b := by
  induction h with
  | nil => exact List.nil_prefix
  | @left a b n _ hm _ ih =>
    rw [takenBy_snoc]
    cases ht : n.takes with
    | none => simpa using ih
    | some pdu => exact hm.fifo pdu ht
  | right _ _ _ ih =>
    rw [sentBy_snoc]
    exact ih.trans (List.prefix_append _ _)

/-- What the dialogue was when a note was made. -/
theorem at_note (h : Talk G a b) (hn : n ∈ a) : ∃ a₁ b₁, a₁ ++ [n] <+: a ∧ b₁ <+: b ∧
    Talk G a₁ b₁ ∧ n.May a₁ b₁ ∧ G a₁ b₁ n := by
  induction h with
  | nil => cases hn
  | @left a b k h hm hg ih =>
    obtain hn | hn := List.mem_append.mp hn
    · obtain ⟨a₁, b₁, ha, hb, hrest⟩ := ih hn
      exact ⟨a₁, b₁, ha.trans (List.prefix_append _ _), hb, hrest⟩
    · obtain rfl := List.mem_singleton.mp hn
      exact ⟨a, b, List.prefix_rfl, List.prefix_rfl, h, hm, hg⟩
  | @right a b k h _ _ ih =>
    obtain ⟨a₁, b₁, ha, hb, hrest⟩ := ih hn
    exact ⟨a₁, b₁, ha, hb.trans (List.prefix_append _ _), hrest⟩

theorem sent (h : Talk G a b) (hn : n ∈ b) (ht : n.takes = some pdu) :
    ∃ k ∈ a, k.sends = some pdu :=
  mem_sentBy.mp (h.symm.fifo.subset (mem_takenBy.mpr ⟨n, hn, ht⟩))

theorem opened (h : Talk G a b) (hn : .offered y x w p name ∈ b) : .opened x w p name ∈ a := by
  obtain ⟨k, hk, hs⟩ := h.sent hn rfl
  exact sends_open hs ▸ hk

theorem accepted (h : Talk G a b) (hn : .confirmed y x w p ∈ b) : .accepted x y w p ∈ a := by
  obtain ⟨k, hk, hs⟩ := h.sent hn rfl
  exact sends_confirm hs ▸ hk

theorem told (h : Talk G a b) (hn : .heard y m ∈ b) : ∃ x, .told x y m ∈ a := by
  obtain ⟨k, hk, hs⟩ := h.sent hn rfl
  obtain ⟨x, rfl⟩ := sends_msg hs
  exact ⟨x, hk⟩

theorem not_accepted (h : Talk G a b) (hn : n ∈ b) (ht : n.takes = some (.channelOpenFail y)) :
    (∃ x, .rejected x y ∈ a) ∨ ∃ w p name, .refused y w p name ∈ a := by
  obtain ⟨k, hk, hs⟩ := h.sent hn ht
  obtain ⟨x, rfl⟩ | ⟨w, p, name, rfl⟩ := sends_fail hs
  · exact Or.inl ⟨x, hk⟩
  · exact Or.inr ⟨w, p, name, hk⟩

/-- A CONFIRM that was taken is noted, unless the session is over. -/
theorem confirmed (h : Talk G a b) (ho : ¬ Over b)
    (ht : .channelOpenConfirm x y w p ∈ takenBy b) : .confirmed y x w p ∈ b := by
  obtain ⟨n, hn, ht⟩ := mem_takenBy.mp ht
  obtain rfl | rfl | rfl := takes_confirm ht
  · exact hn
  · obtain ⟨l, -, -, hf⟩ := h.symm.sound.fits hn
    cases hf
  · exact absurd ⟨_, hn⟩ ho

/-- No CHANNEL_OPEN is taken twice. -/
theorem open_once (h : Talk G a b) (hn : n ∈ b) (hk : k ∈ b)
    (hnx : n.takes.bind Pdu.asker = some x) (hkx : k.takes.bind Pdu.asker = some x) : n = k := by
  have hnodup : (b.filterMap fun n => n.takes.bind Pdu.asker).Nodup := by
    have hp := h.symm.fifo.filterMap Pdu.asker
    rw [takenBy, List.filterMap_filterMap] at hp
    exact h.sound.askers_nodup.sublist hp.sublist
  exact eq_of_nodup_filterMap hnodup hn hk hnx hkx

end Talk

/-- The channel `x` of one endpoint and the channel `y` of the other came from one CHANNEL_OPEN. -/
def Met (a b : List Note) (x y : UInt32) : Prop :=
  (∃ w p name, .offered y x w p name ∈ b) ∨ ∃ w p name, .offered x y w p name ∈ a

theorem Met.symm (h : Met a b x y) : Met b a y x := Or.symm h

namespace Talk

theorem offer_unique (h : Talk G a b) {w' p' : UInt32} {name' : Bytes}
    (hy : .offered y x w p name ∈ b ∨ .offered x y w p name ∈ a)
    (hz : .offered z x w' p' name' ∈ b ∨ .offered x z w' p' name' ∈ a) : y = z ∧ name = name' := by
  obtain hy | hy := hy
  · obtain hz | hz := hz
    · have := h.open_once (x := x) hy hz rfl rfl
      cases this
      exact ⟨rfl, rfl⟩
    · have := h.sound.born_unique (x := x) (h.opened hy) hz rfl rfl
      cases this
  · obtain hz | hz := hz
    · have := h.sound.born_unique (x := x) (h.opened hz) hy rfl rfl
      cases this
    · have := h.sound.born_unique (x := x) hy hz rfl rfl
      cases this
      exact ⟨rfl, rfl⟩

theorem met_iff_offered :
    Met a b x y ↔ ∃ w p name, .offered y x w p name ∈ b ∨ .offered x y w p name ∈ a := by
  simp only [Met, exists_or]

/-- A channel meets at most one of the other endpoint. -/
theorem met_unique (h : Talk G a b) (hy : Met a b x y) (hz : Met a b x z) : y = z := by
  obtain ⟨w, p, name, hy⟩ := met_iff_offered.mp hy
  obtain ⟨w', p', name', hz⟩ := met_iff_offered.mp hz
  exact (h.offer_unique hy hz).1

theorem met_of_open (h : Talk G a b) (hs : stageOf x l = .open_ y own quota) (hl : l <+: a) :
    Met a b x y := by
  obtain ⟨l', rfl⟩ := hl
  obtain ⟨p, p', name, -, hc⟩ | ⟨p, p', name, ho, -⟩ := h.sound.of_append.of_open hs
  · have ha := h.symm.accepted (List.mem_append_left _ hc)
    obtain ⟨quota, p, name, ho, -⟩ := h.symm.sound.of_accepted ha
    exact Or.inl ⟨quota, p, name, ho⟩
  · exact Or.inr ⟨quota, p, name, List.mem_append_left _ ho⟩

theorem met_of_told (h : Talk G a b) (hn : .told x y m ∈ a) : Met a b x y := by
  obtain ⟨l, own, quota, hl, -, hs⟩ := h.sound.of_told hn
  exact h.met_of_open hs hl

/-- What is heard on a channel was told on the one that it has met. -/
theorem met_of_heard (h : Talk G a b) (hn : .heard y m ∈ b) :
    ∃ x, .told x y m ∈ a ∧ Met a b x y := by
  obtain ⟨x, hx⟩ := h.told hn
  exact ⟨x, hx, h.met_of_told hx⟩

theorem cut (h : takenBy b ++ [pdu] <+: sentBy a) :
    ∃ a₁ n, a₁ ++ [n] <+: a ∧ sentBy a₁ = takenBy b ∧ n.sends = some pdu := by
  obtain ⟨r, hr⟩ := h
  rw [List.append_assoc] at hr
  obtain ⟨l₁, l₂, rfl, h₁, h₂⟩ := List.filterMap_eq_append_iff.mp hr.symm
  obtain ⟨m₁, n, m₂, rfl, hnone, hn, -⟩ := List.filterMap_eq_cons_iff.mp h₂
  refine ⟨l₁ ++ m₁, n, ⟨m₂, by simp⟩, ?_, hn⟩
  rw [sentBy, List.filterMap_append, h₁, List.filterMap_eq_nil_iff.mpr hnone, List.append_nil]

/-- A message reaches its channel when that is open, or too late. -/
theorem ripe (h : Talk G a b) (ho : ¬ Over b) (hp : takenBy b ++ [m.pdu y] <+: sentBy a) :
    ∃ a₁ x, a₁ ++ [.told x y m] <+: a ∧ sentBy a₁ = takenBy b ∧
      ((∃ own quota, stageOf y b = .open_ x own quota) ∨ stageOf y b = .gone) := by
  obtain ⟨a₁, n, hl, hsent, hn⟩ := cut hp
  obtain ⟨x, rfl⟩ := sends_msg hn
  refine ⟨a₁, x, hl, hsent, ?_⟩
  obtain ⟨a₂, rfl⟩ := hl
  obtain ⟨hs, -, own, quota, hopen, -⟩ := h.sound.of_append.snoc_inv
  obtain ⟨p, p', name, -, hc⟩ | ⟨p, p', name, -, hc⟩ := hs.of_open hopen
  · have ha := h.symm.accepted (List.mem_append_left _ (List.mem_append_left _ hc))
    obtain ⟨quota', p, name, -, hst⟩ := h.symm.sound.of_accepted ha
    exact hst.imp_left fun hst => ⟨_, _, hst⟩
  · have ht : Pdu.channelOpenConfirm x y own p' ∈ takenBy b := by
      rw [← hsent]
      exact mem_sentBy.mpr ⟨_, hc, rfl⟩
    obtain ⟨own', p, name, -, hst⟩ := h.symm.sound.of_confirmed (h.confirmed ho ht)
    exact hst.imp_left fun hst => ⟨_, _, hst⟩

/-- A message without effect came too late. -/
theorem passed_gone (h : Talk G a b) (hn : .passed (m.pdu y) ∈ b) : stageOf y b = .gone := by
  obtain ⟨b₁, a₁, hb, -, ht, hm, -⟩ := h.symm.at_note hn
  have hstale : Stale b₁ (m.pdu y) := hm.fits
  obtain ⟨-, x, -, -, ⟨own, quota, hst⟩ | hst⟩ := ht.symm.ripe hm.going (hm.fifo _ rfl)
  · exfalso
    cases m with
    | data => cases hstale
    | window add => exact hstale x own quota hst
    | eof | close => exact hstale (hst ▸ Stage.live_open x own quota)
  · obtain ⟨b₂, rfl⟩ := (List.prefix_append b₁ [_]).trans hb
    have ha := h.symm.sound.ages y
    rw [hst] at ha
    exact ha.gone

theorem passed_fail (h : Talk G a b) (hn : .passed (.channelOpenFail y) ∈ b) :
    2 ≤ (stageOf y b).rank := by
  obtain ⟨b₁, a₁, hb, -, ht, hm, -⟩ := h.symm.at_note hn
  have hstale : ∀ own, stageOf y b₁ ≠ .opening own := hm.fits
  have hop : ∃ w p name, .opened y w p name ∈ b₁ := by
    have hmem := (hm.fifo _ rfl).subset (List.mem_append_right _ (List.mem_singleton_self _))
    obtain ⟨k, hk, hks⟩ := mem_sentBy.mp hmem
    obtain ⟨x, rfl⟩ | ⟨w, p, name, rfl⟩ := sends_fail hks
    · obtain ⟨⟨quota, p, name, hoff⟩, -⟩ := ht.symm.sound.of_rejected hk
      exact ⟨quota, p, name, ht.opened hoff⟩
    · obtain ⟨k, hk, hks⟩ := ht.sent hk rfl
      exact ⟨w, p, name, sends_open hks ▸ hk⟩
  obtain ⟨w, p, name, hop⟩ := hop
  have hrank : 2 ≤ (stageOf y b₁).rank := by
    cases hst : stageOf y b₁ with
    | unborn => exact absurd rfl (ht.sound.of_unborn hst _ hop)
    | opening own => exact absurd hst (hstale own)
    | pending x quota =>
      obtain ⟨p', name', hoff⟩ := ht.sound.of_pending hst
      have := ht.sound.born_unique (x := y) hop hoff rfl rfl
      cases this
    | open_ | gone => simp [Stage.rank]
  obtain ⟨b₂, rfl⟩ := (List.prefix_append b₁ [_]).trans hb
  exact hrank.trans (h.symm.sound.ages y).rank

theorem told_eq (h : Talk G a b) (hm : Met a b x y) (hl : l <+: a) :
    (sentBy l).filterMap (Pdu.msgTo y) = toldOn x l := by
  rw [sentBy, List.filterMap_filterMap, toldOn]
  refine List.filterMap_congr fun n hn => ?_
  cases n with
  | told z peer m =>
    have hz := h.met_of_told (hl.subset hn)
    change (m.pdu peer).msgTo y = if z = x then some m else none
    rw [Pdu.msgTo_pdu]
    by_cases hzx : z = x
    · subst hzx
      rw [if_pos rfl, if_pos (h.met_unique hz hm)]
    · rw [if_neg hzx, if_neg]
      rintro rfl
      exact hzx (h.symm.met_unique hz.symm hm.symm)
  | _ => rfl

theorem filterMap_sublist {α β : Type} {f g : α → Option β} {l : List α}
    (h : ∀ a ∈ l, ∀ x, f a = some x → g a = some x) : (l.filterMap f).Sublist (l.filterMap g) := by
  induction l with
  | nil => exact .slnil
  | cons a l ih =>
    have ih := ih fun b hb => h b (List.mem_cons_of_mem _ hb)
    cases hf : f a with
    | some x =>
      rw [List.filterMap_cons_some hf, List.filterMap_cons_some (h a List.mem_cons_self x hf)]
      exact ih.cons_cons x
    | none =>
      rw [List.filterMap_cons_none hf]
      cases hg : g a with
      | none => rwa [List.filterMap_cons_none hg]
      | some x =>
        rw [List.filterMap_cons_some hg]
        exact ih.cons x

theorem heard_taken (y : UInt32) (l : List Note) :
    (heardOn y l).Sublist ((takenBy l).filterMap (Pdu.msgTo y)) := by
  rw [takenBy, List.filterMap_filterMap]
  refine filterMap_sublist fun n hn m hm => ?_
  cases n with
  | heard z m' =>
    simp only [Note.hears, Option.ite_none_right_eq_some, Option.some.injEq] at hm
    obtain ⟨rfl, rfl⟩ := hm
    change (m'.pdu z).msgTo z = _
    rw [Pdu.msgTo_pdu, if_pos rfl]
  | _ => cases hm

/-- What is heard on a channel was told, in this order, on the one that it has met. -/
theorem heard_sublist (h : Talk G a b) (hm : Met a b x y) :
    (heardOn y b).Sublist (toldOn x a) := by
  rw [← h.told_eq hm List.prefix_rfl]
  exact (heard_taken y b).trans (h.symm.fifo.filterMap _).sublist

theorem heard_eq (h : Talk G a b) (hs : stageOf y b = .open_ x own quota)
    (hb : ∀ m : Msg, .broke (m.pdu y) ∉ b) : (takenBy b).filterMap (Pdu.msgTo y) = heardOn y b := by
  rw [takenBy, List.filterMap_filterMap, heardOn]
  refine List.filterMap_congr fun n hn => ?_
  cases n with
  | heard z m => exact Pdu.msgTo_pdu y z m
  | passed pdu =>
    change pdu.msgTo y = none
    by_contra hne
    obtain ⟨m, hm⟩ := Option.ne_none_iff_exists'.mp hne
    obtain rfl := Pdu.msgTo_eq_some.mp hm
    rw [h.passed_gone hn] at hs
    cases hs
  | broke pdu =>
    change pdu.msgTo y = none
    by_contra hne
    obtain ⟨m, hm⟩ := Option.ne_none_iff_exists'.mp hne
    obtain rfl := Pdu.msgTo_eq_some.mp hm
    exact hb m hn
  | _ => rfl

/-- The windows that two open channels have from each other. -/
theorem quota_eq (h : Talk G a b) (hl : l <+: a) (hx : stageOf x l = .open_ y w q)
    (hy : stageOf y b = .open_ z own quota) : z = x ∧ q = own := by
  obtain ⟨l', rfl⟩ := hl
  obtain ⟨p, p', name, -, hc⟩ | ⟨p, p', name, ho, hc⟩ := h.sound.of_append.of_open hx
  · have ha := h.symm.accepted (List.mem_append_left _ hc)
    obtain ⟨quota', p, name, -, hst | hst⟩ := h.symm.sound.of_accepted ha <;> rw [hy] at hst <;>
      cases hst
    exact ⟨rfl, rfl⟩
  · have hmet : Met (l ++ l') b x y := h.met_of_open hx (List.prefix_append _ _)
    obtain rfl := h.symm.met_unique (h.symm.met_of_open hy List.prefix_rfl) hmet.symm
    have hop := h.symm.opened (List.mem_append_left _ ho)
    obtain ⟨p, p', name', hop', -⟩ | ⟨p, p', name', hoff, -⟩ := h.symm.sound.of_open hy
    · have := h.symm.sound.born_unique (x := y) hop hop' rfl rfl
      cases this
      exact ⟨rfl, rfl⟩
    · have := h.symm.sound.born_unique (x := y) hop hoff rfl rfl
      cases this

/-- No message breaks the session on an open channel whose credit fits its counter. -/
theorem within (h : Talk G a b) (hs : stageOf y b = .open_ x own quota)
    (hb : own.toNat + credits (toldOn y b) < 2 ^ 32) : .broke (m.pdu y) ∉ b := by
  intro hn
  obtain ⟨b₁, a₁, ⟨b₂, rfl⟩, ⟨a₂, rfl⟩, ht, hm, -⟩ := h.symm.at_note hn
  obtain ⟨l, z, ⟨l', rfl⟩, hsent, hst⟩ := ht.symm.ripe hm.going (hm.fifo _ rfl)
  have hsound := h.symm.sound
  rw [List.append_assoc] at hs hb hsound
  have htold : credits (toldOn y b₁) ≤ credits (toldOn y (b₁ ++ ([Note.broke (m.pdu y)] ++ b₂))) :=
    credits_le ((List.prefix_append b₁ _).filterMap _).sublist
  have hages := hsound.ages y
  rw [hs] at hages
  have hs₁ : stageOf y b₁ = .open_ x own quota := by
    obtain ⟨own', quota', hst⟩ | hst := hst
    · obtain he | he := hages.stays hst
      · exact he.symm
      · cases he
    · rw [hst] at hages
      cases hages.gone
  obtain ⟨⟨payload, rfl⟩, hover⟩ := hm.fits.1 y m x own quota rfl hs₁
  obtain ⟨-, -, w, q, hx, hmax, hspent, -⟩ := ht.symm.sound.of_append.snoc_inv
  have hpre : l <+: l ++ [Note.told z y (.data payload)] ++ l' := by
    rw [List.append_assoc]
    exact List.prefix_append _ _
  obtain ⟨rfl, rfl⟩ := ht.symm.quota_eq hpre hx hs₁
  have hmet := ht.symm.met_of_open hx hpre
  have hheard : heardOn y b₁ = toldOn x l := by
    rw [← ht.symm.heard_eq hs₁ fun m hm' => hm.going ⟨_, hm'⟩, ← hsent, ht.symm.told_eq hmet hpre]
  have hcredit : credits (heardOn x l) ≤ credits (toldOn y b₁) := by
    refine credits_le (List.Sublist.trans ?_ (ht.heard_sublist hmet.symm))
    exact (hpre.filterMap _).sublist
  have hspent := hspent (by omega)
  have hover := hover (by omega)
  rw [hheard] at hover
  omega

def flying (a b : List Note) (y : UInt32) : List Msg :=
  ((sentBy a).drop (takenBy b).length).filterMap (Pdu.msgTo y)

theorem sent_eq (h : Talk G a b) : sentBy a = takenBy b ++ (sentBy a).drop (takenBy b).length := by
  obtain ⟨r, hr⟩ := h.symm.fifo
  rw [← hr, List.drop_left]

/-- What was told on a channel was heard, or is under way, or has ended the session. -/
theorem told_cases (h : Talk G a b) (hm : Met a b x y) (hs : stageOf y b = .open_ z own quota) :
    toldOn x a = heardOn y b ++ flying a b y ∨
    ∃ payload, .broke (.channelData y payload) ∈ b ∧
      toldOn x a = heardOn y b ++ (.data payload :: flying a b y) := by
  have htold : toldOn x a = (takenBy b).filterMap (Pdu.msgTo y) ++ flying a b y := by
    rw [← h.told_eq hm List.prefix_rfl]
    conv_lhs => rw [h.sent_eq]
    exact List.filterMap_append
  by_cases hb : ∃ m : Msg, .broke (m.pdu y) ∈ b
  · obtain ⟨m, hb⟩ := hb
    obtain ⟨b₁, a₁, ⟨b₂, rfl⟩, -, ht, hmay, -⟩ := h.symm.at_note hb
    obtain rfl := h.symm.sound.over_last
      ⟨_, List.mem_append_right _ (List.mem_singleton_self (Note.broke (m.pdu y)))⟩
    rw [List.append_nil] at *
    rw [stageOf_snoc, if_neg (by rintro ⟨⟩)] at hs
    obtain ⟨⟨payload, rfl⟩, -⟩ := hmay.fits.1 y m z own quota rfl hs
    refine Or.inr ⟨payload, hb, ?_⟩
    have hheard := ht.symm.heard_eq hs fun m hm' => hmay.going ⟨_, hm'⟩
    rw [htold, takenBy_snoc, List.filterMap_append, hheard]
    have hy : heardOn y (b₁ ++ [Note.broke ((Msg.data payload).pdu y)]) = heardOn y b₁ := by
      rw [heardOn, List.filterMap_append]
      exact List.append_nil _
    rw [hy, List.append_assoc]
    simp [Note.takes, Msg.pdu, Pdu.msgTo]
  · refine Or.inl ?_
    rw [htold, h.heard_eq hs fun m hm => hb ⟨m, hm⟩]

/-- What is under way to an open channel has room there, whatever has become of the one that it was
told on, as long as the credit fits its counter. -/
theorem room (h : Talk G a b) (hs : stageOf y b = .open_ x own quota)
    (hb : own.toNat + credits (toldOn y b) < 2 ^ 32) :
    sizes (heardOn y b) + sizes (flying a b y) ≤ own.toNat + credits (toldOn y b) := by
  have hmet := (h.symm.met_of_open hs List.prefix_rfl).symm
  have hcredit : credits (heardOn x a) ≤ credits (toldOn y b) :=
    credits_le (h.symm.heard_sublist hmet.symm)
  have hquota : ∀ k, k <+: a → ∀ y' w q, stageOf x k = .open_ y' w q → q = own := by
    intro k hk y' w q hst
    obtain rfl := h.met_unique (h.met_of_open hst hk) hmet
    exact (h.quota_eq hk hst hs).2
  have hsent := h.sound.within_quota hquota (by omega)
  obtain he | ⟨payload, hn, -⟩ := h.told_cases hmet hs
  · rw [he, sizes_append] at hsent
    omega
  · exact absurd hn (h.within (m := .data payload) hs hb)

/-- Between two open channels, what the one may still take is what the other may still send and
what is under way, as long as the credit fits its counter. -/
theorem conserved (h : Talk G a b) (hx : stageOf x a = .open_ y w q)
    (hy : stageOf y b = .open_ z own quota) (hb : own.toNat + credits (toldOn y b) < 2 ^ 32) :
    q = own ∧ sizes (toldOn x a) = sizes (heardOn y b) + sizes (flying a b y) ∧
      credits (toldOn y b) = credits (heardOn x a) + credits (flying b a x) := by
  obtain ⟨rfl, rfl⟩ := h.quota_eq List.prefix_rfl hx hy
  have hmet := h.met_of_open hx List.prefix_rfl
  refine ⟨rfl, ?_, ?_⟩
  · obtain he | ⟨payload, hn, -⟩ := h.told_cases hmet hy
    · rw [he, sizes_append]
    · exact absurd hn (h.within (m := .data payload) hy hb)
  · obtain he | ⟨payload, -, he⟩ := h.symm.told_cases hmet.symm hx
    · rw [he, credits_append]
    · rw [he, credits_append]
      simp [credits, Msg.credit]

end Talk

end Sodchan
