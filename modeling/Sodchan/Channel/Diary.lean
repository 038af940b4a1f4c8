import Mathlib.Algebra.GroupWithZero.Nat
import Mathlib.Algebra.Order.BigOperators.Group.List
import Mathlib.Algebra.Order.Group.Nat
import Mathlib.Data.List.Induction
import Sodchan.Model.Codec

/-! # Diaries

What an endpoint notes about its channels, each under the id that it has given
out for it. The notes of a channel follow its life: it is opened or offered,
confirmed or accepted, talked on, and gone in the end.
-/

namespace Sodchan

open ByteString

/-- What is said on an open channel. -/
inductive Msg where
  | data (payload : Bytes)
  | window (add : UInt32)
  | eof
  | close
  deriving DecidableEq

namespace Msg

def pdu (recipient : UInt32) : Msg → Pdu
  | data payload => .channelData recipient payload
  | window add => .channelWindow recipient add
  | eof => .channelEof recipient
  | close => .channelClose recipient

def size : Msg → ℕ
  | data payload => payload.length
  | _ => 0

/-- The message belongs to the stream of bytes, which EOF ends. -/
def streams : Msg → Bool
  | data _ | eof => true
  | _ => false

def credit : Msg → ℕ
  | window add => add.toNat
  | _ => 0

end Msg

def sizes (l : List Msg) : ℕ := (l.map Msg.size).sum

def credits (l : List Msg) : ℕ := (l.map Msg.credit).sum

@[simp] theorem sizes_append (l m : List Msg) : sizes (l ++ m) = sizes l + sizes m := by
  simp [sizes]

@[simp] theorem credits_append (l m : List Msg) : credits (l ++ m) = credits l + credits m := by
  simp [credits]

theorem credits_le {l m : List Msg} (h : l.Sublist m) : credits l ≤ credits m := by
  unfold credits
  exact (h.map Msg.credit).sum_le_sum (by simp)

/-- The message for a channel that a PDU carries. -/
def Pdu.msgTo (recipient : UInt32) : Pdu → Option Msg
  | channelData r payload => if r = recipient then some (.data payload) else none
  | channelWindow r add => if r = recipient then some (.window add) else none
  | channelEof r => if r = recipient then some .eof else none
  | channelClose r => if r = recipient then some .close else none
  | _ => none

theorem Pdu.msgTo_eq_some {y : UInt32} {p : Pdu} {m : Msg} : p.msgTo y = some m ↔ p = m.pdu y := by
  cases p <;> cases m <;> simp [Pdu.msgTo, Msg.pdu]

@[simp] theorem Pdu.msgTo_pdu (y z : UInt32) (m : Msg) :
    (m.pdu z).msgTo y = if z = y then some m else none := by
  cases m <;> rfl

/-- What an endpoint notes; the channel stands first, under its own id. -/
inductive Note where
  | opened (x window packet : UInt32) (name : Bytes)
  | offered (x peer window packet : UInt32) (name : Bytes)
  | accepted (x peer window packet : UInt32)
  | confirmed (x peer window packet : UInt32)
  | rejected (x peer : UInt32)
  | failed (x : UInt32)
  | told (x peer : UInt32) (m : Msg)
  | heard (x : UInt32) (m : Msg)
  /-- A channel that is given up without a word. -/
  | dropped (x : UInt32)
  /-- A CHANNEL_OPEN that is answered by OPEN_FAIL. -/
  | refused (peer window packet : UInt32) (name : Bytes)
  /-- A PDU without effect. -/
  | passed (p : Pdu)
  /-- A PDU that ends the session. -/
  | broke (p : Pdu)
  deriving DecidableEq

/-- The life of a channel, with the windows that were offered at its opening: the own one, which
the peer may fill, and the quota that the peer has given. -/
inductive Stage where
  | unborn
  | opening (own : UInt32)
  | pending (peer quota : UInt32)
  | open_ (peer own quota : UInt32)
  | gone
  deriving DecidableEq

namespace Stage

def live (s : Stage) : Prop := s ≠ .unborn ∧ s ≠ .gone

def rank : Stage → ℕ
  | unborn => 0
  | opening _ | pending .. => 1
  | open_ .. => 2
  | gone => 3

/-- A channel goes forward, and what it was opened with stays. -/
structure Ages (s s' : Stage) : Prop where
  rank : s.rank ≤ s'.rank
  stays : ∀ {peer own quota}, s = .open_ peer own quota → s' = s ∨ s' = .gone

theorem Ages.refl (s : Stage) : s.Ages s := ⟨le_rfl, fun _ => Or.inl rfl⟩

theorem Ages.gone {s : Stage} (h : Stage.gone.Ages s) : s = .gone := by
  have := h.rank
  cases s <;> simp [Stage.rank] at this ⊢

theorem Ages.unborn {s : Stage} (h : s.Ages .unborn) : s = .unborn := by
  have := h.rank
  cases s <;> simp [Stage.rank] at this ⊢

theorem Ages.trans {s s' s'' : Stage} (h : s.Ages s') (h' : s'.Ages s'') : s.Ages s'' := by
  refine ⟨h.rank.trans h'.rank, fun ho => ?_⟩
  obtain rfl | rfl := h.stays ho
  · exact h'.stays ho
  · exact Or.inr h'.gone

theorem live_open (peer own quota : UInt32) : (Stage.open_ peer own quota).live :=
  ⟨by rintro ⟨⟩, by rintro ⟨⟩⟩

end Stage

namespace Note

def about : Note → Option UInt32
  | opened x .. | offered x .. | accepted x .. | confirmed x .. | rejected x _ | failed x
  | told x .. | heard x _ | dropped x => some x
  | _ => none

def sends : Note → Option Pdu
  | opened x window packet name => some (.channelOpen x window packet name)
  | accepted x peer window packet => some (.channelOpenConfirm x peer window packet)
  | rejected _ peer | refused peer .. => some (.channelOpenFail peer)
  | told _ peer m => some (m.pdu peer)
  | _ => none

def takes : Note → Option Pdu
  | offered _ peer window packet name | refused peer window packet name =>
    some (.channelOpen peer window packet name)
  | confirmed x peer window packet => some (.channelOpenConfirm peer x window packet)
  | failed x => some (.channelOpenFail x)
  | heard x m => some (m.pdu x)
  | passed p | broke p => some p
  | _ => none

def ends : Note → Bool
  | rejected .. | failed _ | dropped _ | told _ _ .close | heard _ .close => true
  | _ => false

/-- What becomes of the channel that the note is about. -/
def move : Note → Stage → Stage
  | opened _ window .., _ => .opening window
  | offered _ peer window .., _ => .pending peer window
  | accepted _ _ window _, .pending peer quota => .open_ peer window quota
  | confirmed _ peer window _, .opening own => .open_ peer own window
  | n, s => if n.ends then .gone else s

def born : Note → Option UInt32
  | opened x .. | offered x .. => some x
  | _ => none

def tells (x : UInt32) : Note → Option Msg
  | told z _ m => if z = x then some m else none
  | _ => none

def hears (x : UInt32) : Note → Option Msg
  | heard z m => if z = x then some m else none
  | _ => none

end Note

def stageOf (x : UInt32) (l : List Note) : Stage :=
  l.foldl (fun s n => if n.about = some x then n.move s else s) .unborn

theorem stageOf_snoc (x : UInt32) (l : List Note) (n : Note) :
    stageOf x (l ++ [n]) = if n.about = some x then n.move (stageOf x l) else stageOf x l := by
  rw [stageOf, List.foldl_append]
  rfl

def toldOn (x : UInt32) (l : List Note) : List Msg := l.filterMap (Note.tells x)

def heardOn (x : UInt32) (l : List Note) : List Msg := l.filterMap (Note.hears x)

theorem toldOn_snoc (x : UInt32) (l : List Note) (n : Note) :
    toldOn x (l ++ [n]) = toldOn x l ++ (n.tells x).toList := by
  unfold toldOn
  rw [List.filterMap_append]
  cases h : n.tells x <;> simp [h]

theorem heardOn_snoc (x : UInt32) (l : List Note) (n : Note) :
    heardOn x (l ++ [n]) = heardOn x l ++ (n.hears x).toList := by
  unfold heardOn
  rw [List.filterMap_append]
  cases h : n.hears x <;> simp [h]

theorem Note.tells_hears {x : UInt32} {n : Note} (h : n.about ≠ some x) :
    n.tells x = none ∧ n.hears x = none := by
  cases n with
  | told z peer m => exact ⟨if_neg fun he => h (congrArg some he), rfl⟩
  | heard z m => exact ⟨rfl, if_neg fun he => h (congrArg some he)⟩
  | _ => exact ⟨rfl, rfl⟩

def sentBy (l : List Note) : List Pdu := l.filterMap Note.sends

def takenBy (l : List Note) : List Pdu := l.filterMap Note.takes

def Over (l : List Note) : Prop := ∃ p, Note.broke p ∈ l

/-- A PDU without effect concerns a channel that is not there, or not ready for it. Only a
CHANNEL_OPEN whose answer cannot be sent is lost in any case. -/
def Stale (l : List Note) : Pdu → Prop
  | .channelOpen .. => True
  | .channelOpenFail x => ∀ own, stageOf x l ≠ .opening own
  | .channelWindow x _ => ∀ peer own quota, stageOf x l ≠ .open_ peer own quota
  | .channelEof x | .channelClose x => ¬ (stageOf x l).live
  | _ => False

/-- When a note may be made. -/
def Note.Fits (l : List Note) : Note → Prop
  | opened x .. | offered x .. => stageOf x l = .unborn
  | accepted x peer .. | rejected x peer => ∃ quota, stageOf x l = .pending peer quota
  | confirmed x .. | failed x => ∃ own, stageOf x l = .opening own
  | told x peer m => ∃ own quota, stageOf x l = .open_ peer own quota ∧ m.size ≤ dataMax ∧
      -- Nothing is sent without credit, as long as the credit fits its counter.
      (quota.toNat + credits (heardOn x l) < 2 ^ 32 →
        sizes (toldOn x l) + m.size ≤ quota.toNat + credits (heardOn x l)) ∧
      (m.streams → .eof ∉ toldOn x l)
  | heard x (.data _) | heard x (.window _) => ∃ peer own quota, stageOf x l = .open_ peer own quota
  | heard x _ | dropped x => (stageOf x l).live
  | passed p => Stale l p
  | broke p => (∀ (x : UInt32) (m : Msg) (peer own quota : UInt32), p = m.pdu x →
      stageOf x l = .open_ peer own quota → (∃ payload, m = .data payload) ∧
        (own.toNat + credits (toldOn x l) < 2 ^ 32 →
          own.toNat + credits (toldOn x l) < sizes (heardOn x l) + m.size ∨ dataMax < m.size)) ∧
      ∀ y x w q own, p = .channelOpenConfirm y x w q → stageOf x l ≠ .opening own
  | refused .. => True

/-- A diary in which every note was fit to be made. -/
inductive Sound : List Note → Prop where
  | nil : Sound []
  | snoc {l : List Note} {n : Note} : Sound l → ¬ Over l → n.Fits l → Sound (l ++ [n])

/-- A note that leads a channel from one stage to the next. -/
def Note.Leads (s s' : Stage) : Note → Prop
  | opened _ window .. => s = .unborn ∧ s' = .opening window
  | offered _ peer window .. => s = .unborn ∧ s' = .pending peer window
  | accepted _ peer window _ => ∃ quota, s = .pending peer quota ∧ s' = .open_ peer window quota
  | confirmed _ peer window _ => ∃ own, s = .opening own ∧ s' = .open_ peer own window
  | rejected _ peer => (∃ quota, s = .pending peer quota) ∧ s' = .gone
  | failed _ => (∃ own, s = .opening own) ∧ s' = .gone
  | told _ peer .close => (∃ own quota, s = .open_ peer own quota) ∧ s' = .gone
  | told _ peer _ => (∃ own quota, s = .open_ peer own quota) ∧ s' = s
  | heard _ .close | dropped _ => s.live ∧ s' = .gone
  | heard _ _ => s.live ∧ s' = s
  | _ => False

theorem Note.Fits.leads {l : List Note} {n : Note} {x : UInt32} (h : n.Fits l)
    (hx : n.about = some x) : n.Leads (stageOf x l) (n.move (stageOf x l)) := by
  cases n with
  | accepted z peer w p =>
    obtain rfl := Option.some.inj hx
    obtain ⟨quota, hs⟩ := h
    exact ⟨quota, hs, by rw [hs]; rfl⟩
  | confirmed z peer w p =>
    obtain rfl := Option.some.inj hx
    obtain ⟨own, hs⟩ := h
    exact ⟨own, hs, by rw [hs]; rfl⟩
  | told z peer m =>
    obtain rfl := Option.some.inj hx
    obtain ⟨own, quota, hs, -⟩ := h
    cases m <;> exact ⟨⟨own, quota, hs⟩, rfl⟩
  | heard z m =>
    obtain rfl := Option.some.inj hx
    cases m with
    | data | window =>
      obtain ⟨peer, own, quota, hs⟩ := h
      exact ⟨hs ▸ Stage.live_open peer own quota, rfl⟩
    | eof | close => exact ⟨h, rfl⟩
  | refused | passed | broke => cases hx
  | _ =>
    obtain rfl := Option.some.inj hx
    exact ⟨h, rfl⟩

theorem Note.Leads.ages {s s' : Stage} {n : Note} (h : n.Leads s s') : s.Ages s' := by
  cases n with
  | opened | offered =>
    obtain ⟨rfl, rfl⟩ := h
    exact ⟨by simp [Stage.rank], by rintro _ _ _ ⟨⟩⟩
  | accepted | confirmed =>
    obtain ⟨_, rfl, rfl⟩ := h
    exact ⟨by simp [Stage.rank], by rintro _ _ _ ⟨⟩⟩
  | rejected | failed =>
    obtain ⟨⟨_, rfl⟩, rfl⟩ := h
    exact ⟨by simp [Stage.rank], by rintro _ _ _ ⟨⟩⟩
  | told z peer m =>
    cases m with
    | close =>
      obtain ⟨⟨_, _, rfl⟩, rfl⟩ := h
      exact ⟨by simp [Stage.rank], fun _ => Or.inr rfl⟩
    | _ =>
      obtain ⟨-, rfl⟩ := h
      exact .refl _
  | heard z m =>
    cases m with
    | close =>
      obtain ⟨-, rfl⟩ := h
      exact ⟨by cases s <;> simp [Stage.rank], fun _ => Or.inr rfl⟩
    | _ =>
      obtain ⟨-, rfl⟩ := h
      exact .refl _
  | dropped z =>
    obtain ⟨-, rfl⟩ := h
    exact ⟨by cases s <;> simp [Stage.rank], fun _ => Or.inr rfl⟩
  | refused | passed | broke => cases h

theorem Note.Leads.ne_unborn {s s' : Stage} {n : Note} (h : n.Leads s s') : s' ≠ .unborn := by
  rintro rfl
  cases n with
  | accepted | confirmed =>
    obtain ⟨_, -, he⟩ := h
    cases he
  | told z peer m =>
    cases m with
    | close => cases h.2
    | _ =>
      obtain ⟨⟨_, _, rfl⟩, he⟩ := h
      cases he
  | heard z m =>
    cases m with
    | close => cases h.2
    | _ => exact h.1.1 h.2.symm
  | refused | passed | broke => cases h
  | _ => cases h.2

variable {x y z w p q own quota : UInt32} {name : Bytes} {l m : List Note} {n : Note} {s : Stage}

namespace Sound

theorem snoc_inv (h : Sound (l ++ [n])) : Sound l ∧ ¬ Over l ∧ n.Fits l := by
  generalize hk : l ++ [n] = k at h
  cases h with
  | nil => simp at hk
  | snoc hs ho hf =>
    obtain ⟨rfl, he⟩ := List.append_inj' hk rfl
    obtain rfl := List.singleton_inj.mp he
    exact ⟨hs, ho, hf⟩

theorem of_append (h : Sound (l ++ m)) : Sound l := by
  induction m using List.reverseRecOn with
  | nil => rwa [List.append_nil] at h
  | append_singleton m n ih =>
    rw [← List.append_assoc] at h
    exact ih h.snoc_inv.1

/-- Nothing is noted after the end of the session. -/
theorem over_last (h : Sound (l ++ m)) (ho : Over l) : m = [] := by
  cases m with
  | nil => rfl
  | cons k m =>
    rw [← List.singleton_append, ← List.append_assoc] at h
    exact absurd ho h.of_append.snoc_inv.2.1

theorem leads (h : Sound (l ++ [n])) (hx : n.about = some x) :
    n.Leads (stageOf x l) (stageOf x (l ++ [n])) := by
  rw [stageOf_snoc, if_pos hx]
  exact h.snoc_inv.2.2.leads hx

/-- Every channel only goes forward. -/
theorem ages (h : Sound (l ++ m)) (x : UInt32) : (stageOf x l).Ages (stageOf x (l ++ m)) := by
  induction m using List.reverseRecOn with
  | nil =>
    rw [List.append_nil]
    exact .refl _
  | append_singleton m n ih =>
    rw [← List.append_assoc] at h ⊢
    refine (ih h.of_append).trans ?_
    by_cases hx : n.about = some x
    · exact (h.leads hx).ages
    · rw [stageOf_snoc, if_neg hx]
      exact .refl _

theorem around (h : Sound l) (hn : n ∈ l) (hx : n.about = some x) : ∃ l₁ s, l₁ <+: l ∧ Sound l₁ ∧
    n.Leads (stageOf x l₁) s ∧ s.Ages (stageOf x l) := by
  obtain ⟨l₁, l₂, rfl⟩ := List.append_of_mem hn
  rw [← List.singleton_append, ← List.append_assoc] at h ⊢
  refine ⟨l₁, stageOf x (l₁ ++ [n]), ?_, h.of_append.of_append, h.of_append.leads hx, h.ages x⟩
  rw [List.append_assoc]
  exact List.prefix_append _ _

theorem fits (h : Sound l) (hn : n ∈ l) : ∃ l₁, l₁ ++ [n] <+: l ∧ Sound l₁ ∧ n.Fits l₁ := by
  obtain ⟨l₁, l₂, rfl⟩ := List.append_of_mem hn
  rw [← List.singleton_append, ← List.append_assoc] at h
  obtain ⟨hs, -, hf⟩ := h.of_append.snoc_inv
  exact ⟨l₁, ⟨l₂, by rw [List.append_assoc, List.singleton_append]⟩, hs, hf⟩

theorem of_stage {P : Note → Prop} (h : Sound l) (hu : s ≠ .unborn)
    (hs : ∀ {s' n}, n.Leads s' s → s' = s ∨ P n) (hst : stageOf x l = s) :
    ∃ n ∈ l, n.about = some x ∧ P n := by
  induction h with
  | nil => exact absurd hst.symm hu
  | @snoc l n h ho hf ih =>
    have hold : stageOf x l = s → ∃ k ∈ l ++ [n], k.about = some x ∧ P k := by
      intro hst
      obtain ⟨k, hk, hP⟩ := ih hst
      exact ⟨k, List.mem_append_left _ hk, hP⟩
    by_cases hx : n.about = some x
    · have hl := (h.snoc ho hf).leads hx
      rw [hst] at hl
      obtain he | hP := hs hl
      · exact hold he
      · exact ⟨n, List.mem_append_right _ (List.mem_singleton_self n), hx, hP⟩
    · rw [stageOf_snoc, if_neg hx] at hst
      exact hold hst

theorem of_opening (h : Sound l) (hs : stageOf x l = .opening own) :
    ∃ p name, Note.opened x own p name ∈ l := by
  have hl : ∀ {s' : Stage} {n : Note}, n.Leads s' (.opening own) →
      s' = .opening own ∨ ∃ z p name, n = .opened z own p name := by
    intro s' n hl
    cases n with
    | told z peer m | heard z m => cases m <;> simp_all [Note.Leads]
    | _ => simp_all [Note.Leads]
  obtain ⟨n, hn, hx, z, p, name, rfl⟩ := h.of_stage (by rintro ⟨⟩) hl hs
  obtain rfl := Option.some.inj hx
  exact ⟨p, name, hn⟩

theorem of_pending (h : Sound l) (hs : stageOf x l = .pending y quota) :
    ∃ p name, Note.offered x y quota p name ∈ l := by
  have hl : ∀ {s' : Stage} {n : Note}, n.Leads s' (.pending y quota) →
      s' = .pending y quota ∨ ∃ z p name, n = .offered z y quota p name := by
    intro s' n hl
    cases n with
    | told z peer m | heard z m => cases m <;> simp_all [Note.Leads]
    | _ => simp_all [Note.Leads]
  obtain ⟨n, hn, hx, z, p, name, rfl⟩ := h.of_stage (by rintro ⟨⟩) hl hs
  obtain rfl := Option.some.inj hx
  exact ⟨p, name, hn⟩

theorem of_confirmed (h : Sound l) (hn : Note.confirmed x y quota p ∈ l) :
    ∃ own p name, Note.opened x own p name ∈ l ∧
      (stageOf x l = .open_ y own quota ∨ stageOf x l = .gone) := by
  obtain ⟨l₁, s, hp, h₁, ⟨own, hs, rfl⟩, ha⟩ := h.around hn rfl
  obtain ⟨p, name, hm⟩ := h₁.of_opening hs
  exact ⟨own, p, name, hp.subset hm, ha.stays rfl⟩

theorem of_accepted (h : Sound l) (hn : Note.accepted x y own p ∈ l) :
    ∃ quota p name, Note.offered x y quota p name ∈ l ∧
      (stageOf x l = .open_ y own quota ∨ stageOf x l = .gone) := by
  obtain ⟨l₁, s, hp, h₁, ⟨quota, hs, rfl⟩, ha⟩ := h.around hn rfl
  obtain ⟨p, name, hm⟩ := h₁.of_pending hs
  exact ⟨quota, p, name, hp.subset hm, ha.stays rfl⟩

/-- A channel is open by a CONFIRM that was taken, or by one that was sent. -/
theorem of_open (h : Sound l) (hs : stageOf x l = .open_ y own quota) :
    (∃ p p' name, Note.opened x own p name ∈ l ∧ Note.confirmed x y quota p' ∈ l) ∨
    ∃ p p' name, Note.offered x y quota p name ∈ l ∧ Note.accepted x y own p' ∈ l := by
  have hl : ∀ {s' : Stage} {n : Note}, n.Leads s' (.open_ y own quota) →
      s' = .open_ y own quota ∨ ∃ z p, n = .confirmed z y quota p ∨ n = .accepted z y own p := by
    intro s' n hl
    cases n with
    | told z peer m | heard z m => cases m <;> simp_all [Note.Leads]
    | _ => simp_all [Note.Leads]
  obtain ⟨n, hn, hx, z, p, rfl | rfl⟩ := h.of_stage (by rintro ⟨⟩) hl hs <;>
    obtain rfl := Option.some.inj hx
  · obtain ⟨own', p', name, hm, hst | hst⟩ := h.of_confirmed hn <;> rw [hst] at hs
    · cases hs
      exact Or.inl ⟨p', p, name, hm, hn⟩
    · cases hs
  · obtain ⟨quota', p', name, hm, hst | hst⟩ := h.of_accepted hn <;> rw [hst] at hs
    · cases hs
      exact Or.inr ⟨p', p, name, hm, hn⟩
    · cases hs

theorem of_rejected (h : Sound l) (hn : Note.rejected x y ∈ l) :
    (∃ quota p name, Note.offered x y quota p name ∈ l) ∧ stageOf x l = .gone := by
  obtain ⟨l₁, s, hp, h₁, ⟨⟨quota, hs⟩, rfl⟩, ha⟩ := h.around hn rfl
  obtain ⟨p, name, hm⟩ := h₁.of_pending hs
  exact ⟨⟨quota, p, name, hp.subset hm⟩, ha.gone⟩

theorem of_failed (h : Sound l) (hn : Note.failed x ∈ l) :
    (∃ own p name, Note.opened x own p name ∈ l) ∧ stageOf x l = .gone := by
  obtain ⟨l₁, s, hp, h₁, ⟨⟨own, hs⟩, rfl⟩, ha⟩ := h.around hn rfl
  obtain ⟨p, name, hm⟩ := h₁.of_opening hs
  exact ⟨⟨own, p, name, hp.subset hm⟩, ha.gone⟩

/-- What was told was told on an open channel. -/
theorem of_told {m : Msg} (h : Sound l) (hn : Note.told x y m ∈ l) :
    ∃ l₁ own quota, l₁ <+: l ∧ Sound l₁ ∧ stageOf x l₁ = .open_ y own quota := by
  obtain ⟨l₁, hp, h₁, own, quota, hs, -⟩ := h.fits hn
  exact ⟨l₁, own, quota, (List.prefix_append _ _).trans hp, h₁, hs⟩

theorem of_ends (h : Sound l) (hn : n ∈ l) (hx : n.about = some x) (he : n.ends) :
    stageOf x l = .gone := by
  obtain ⟨l₁, s, -, -, hl, ha⟩ := h.around hn hx
  obtain rfl : s = .gone := by
    cases n with
    | told z peer m | heard z m => cases m <;> simp_all [Note.Leads, Note.ends]
    | _ => simp_all [Note.Leads, Note.ends]
  exact ha.gone

theorem of_gone (h : Sound l) (hs : stageOf x l = .gone) :
    ∃ n ∈ l, n.about = some x ∧ n.ends := by
  refine h.of_stage (by rintro ⟨⟩) (fun {s' n} hl => ?_) hs
  cases n with
  | told z peer m | heard z m => cases m <;> simp_all [Note.Leads, Note.ends]
  | _ => simp_all [Note.Leads, Note.ends]

/-- A channel whose quota is known has sent no more than the quota and the credit that it has
heard of. -/
theorem within_quota (h : Sound l)
    (hq : ∀ k, k <+: l → ∀ y own q, stageOf x k = .open_ y own q → q = quota)
    (hlt : quota.toNat + credits (heardOn x l) < 2 ^ 32) :
    sizes (toldOn x l) ≤ quota.toNat + credits (heardOn x l) := by
  induction h with
  | nil => exact Nat.zero_le _
  | @snoc l n hs _ hf ih =>
    have hpre := List.prefix_append l [n]
    have ih := ih fun k hk => hq k (hk.trans hpre)
    rw [heardOn_snoc, credits_append] at hlt ⊢
    rw [toldOn_snoc, sizes_append]
    have ih := ih (by omega)
    cases ht : n.tells x with
    | none =>
      rw [Option.toList_none]
      change sizes (toldOn x l) + 0 ≤ _
      omega
    | some m =>
      cases n with
      | told z peer m' =>
        simp only [Note.tells, Option.ite_none_right_eq_some, Option.some.injEq] at ht
        obtain ⟨rfl, rfl⟩ := ht
        obtain ⟨own, q, hst, -, hspent, -⟩ := hf
        obtain rfl := hq l hpre _ _ _ hst
        have := hspent (by omega)
        simp only [Option.toList_some, sizes, List.map_cons, List.map_nil, List.sum_cons,
          List.sum_nil] at this ⊢
        omega
      | _ => cases ht

/-- Neither data nor another EOF is told after an EOF. -/
theorem eof_last (h : Sound l) :
    (toldOn x l).Pairwise fun m m' : Msg => m = .eof → m'.streams = false := by
  induction h with
  | nil => exact .nil
  | @snoc l n hs _ hf ih =>
    rw [toldOn_snoc]
    cases ht : n.tells x with
    | none => rwa [Option.toList_none, List.append_nil]
    | some m =>
      cases n with
      | told z peer m' =>
        simp only [Note.tells, Option.ite_none_right_eq_some, Option.some.injEq] at ht
        obtain ⟨rfl, rfl⟩ := ht
        obtain ⟨own, quota, -, -, -, hshut⟩ := hf
        refine List.pairwise_append.mpr ⟨ih, List.pairwise_singleton _ _, fun m hm k hk => ?_⟩
        rintro rfl
        rw [Option.toList_some, List.mem_singleton] at hk
        subst hk
        exact Bool.eq_false_iff.mpr fun hstr => hshut hstr hm
      | _ => cases ht

theorem of_unborn (h : Sound l) (hs : stageOf x l = .unborn) : ∀ n ∈ l, n.about ≠ some x := by
  intro n hn hx
  obtain ⟨l₁, s, -, -, hl, ha⟩ := h.around hn hx
  rw [hs] at ha
  exact hl.ne_unborn ha.unborn

theorem early (h : Sound l) (hs : (stageOf x l).rank < 2) :
    toldOn x l = [] ∧ sizes (heardOn x l) = 0 ∧ credits (heardOn x l) = 0 := by
  have hrank : ∀ {n}, n ∈ l → n.about = some x →
      ∃ l₁, Sound l₁ ∧ n.Fits l₁ ∧ (stageOf x l₁).rank < 2 := by
    intro n hn hx
    obtain ⟨l₁, ⟨l₂, rfl⟩, h₁, hf⟩ := h.fits hn
    rw [List.append_assoc] at h hs
    exact ⟨l₁, h₁, hf, (h.ages x).rank.trans_lt hs⟩
  have hopen : ∀ {k : List Note} {peer own quota}, stageOf x k = .open_ peer own quota →
      ¬ (stageOf x k).rank < 2 := by
    intro k peer own quota hk
    rw [hk]
    simp [Stage.rank]
  have hquiet : ∀ m ∈ heardOn x l, m.size = 0 ∧ m.credit = 0 := by
    intro m hm
    obtain ⟨n, hn, hnm⟩ := List.mem_filterMap.mp hm
    cases n with
    | heard z m' =>
      simp only [Note.hears, Option.ite_none_right_eq_some, Option.some.injEq] at hnm
      obtain ⟨rfl, rfl⟩ := hnm
      obtain ⟨l₁, -, hf, hr⟩ := hrank hn rfl
      cases m' with
      | data | window =>
        obtain ⟨peer, own, quota, hst⟩ := hf
        exact absurd hr (hopen hst)
      | eof | close => exact ⟨rfl, rfl⟩
    | _ => cases hnm
  refine ⟨List.filterMap_eq_nil_iff.mpr fun n hn => ?_, ?_, ?_⟩
  · by_contra hne
    cases n with
    | told z peer m =>
      simp only [Note.tells, ite_eq_right_iff, reduceCtorEq, imp_false, not_not] at hne
      subst hne
      obtain ⟨l₁, -, ⟨own, quota, hst, -⟩, hr⟩ := hrank hn rfl
      exact hopen hst hr
    | _ => exact hne rfl
  · exact List.sum_eq_zero fun k hk => by
      obtain ⟨m, hm, rfl⟩ := List.mem_map.mp hk
      exact (hquiet m hm).1
  · exact List.sum_eq_zero fun k hk => by
      obtain ⟨m, hm, rfl⟩ := List.mem_map.mp hk
      exact (hquiet m hm).2

theorem born_about {k : Note} (h : k.born = some x) : k.about = some x := by
  cases k <;> first | exact h | cases h

theorem fits_born {k : Note} (hk : k.born = some x) (hf : k.Fits l) : stageOf x l = .unborn := by
  cases k <;> cases hk <;> exact hf

/-- An id was given out by one note only. -/
theorem born_unique (h : Sound l) {k k' : Note} (hk : k ∈ l) (hk' : k' ∈ l) (hx : k.born = some x)
    (hx' : k'.born = some x) : k = k' := by
  induction h with
  | nil => cases hk
  | @snoc l n hs _ hf ih =>
    have hnew : ∀ {a : Note}, a ∈ l → a.born = some x → n.born ≠ some x :=
      fun ha hax hn => hs.of_unborn (fits_born hn hf) _ ha (born_about hax)
    simp only [List.mem_append, List.mem_singleton] at hk hk'
    obtain hk | rfl := hk
    · obtain hk' | rfl := hk'
      · exact ih hk hk'
      · exact absurd hx' (hnew hk hx)
    · obtain hk' | rfl := hk'
      · exact absurd hx (hnew hk' hx')
      · rfl

theorem apart (h : Sound l) {k : Note} (hn : n ∈ l) (hk : k ∈ l) (hne : n ≠ k)
    (hx : n.about = some x) (hx' : k.about = some x) :
    ∃ s s' t t', n.Leads s s' ∧ k.Leads t t' ∧ (s'.Ages t ∨ t'.Ages s) := by
  induction h with
  | nil => cases hn
  | @snoc l a hs ho hf ih =>
    have hlead : ∀ {b c : Note}, b ∈ l → b.about = some x → c.Fits l → c.about = some x →
        ∃ s s' t t', b.Leads s s' ∧ c.Leads t t' ∧ s'.Ages t := by
      intro b c hb hbx hc hcx
      obtain ⟨l₁, s', -, -, hl, ha⟩ := hs.around hb hbx
      exact ⟨_, s', _, _, hl, hc.leads hcx, ha⟩
    simp only [List.mem_append, List.mem_singleton] at hn hk
    obtain hn | rfl := hn
    · obtain hk | rfl := hk
      · exact ih hn hk
      · obtain ⟨s, s', t, t', h1, h2, h3⟩ := hlead hn hx hf hx'
        exact ⟨s, s', t, t', h1, h2, Or.inl h3⟩
    · obtain hk | rfl := hk
      · obtain ⟨t, t', s, s', h1, h2, h3⟩ := hlead hk hx' hf hx
        exact ⟨s, s', t, t', h2, h1, Or.inr h3⟩
      · exact absurd rfl hne

end Sound

end Sodchan
