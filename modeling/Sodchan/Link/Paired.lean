import Sodchan.Channel.Credit
import Sodchan.Link.Talking

/-! # Channels across the link

Every channel of an endpoint that the peer has taken part in belongs to one
channel of the peer. What the host of the one says the host of the other hears,
in order, and nothing else; and what the one may still send is what the other
will still take, less what is under way.
-/

namespace Sodchan

open ByteString

variable {Rng SS : Type} {E : Env Rng SS} {c : Ctx Rng SS} {N N' : Net Rng SS} {r : Role}
  {a b l : List Note} {d : Role → List Note} {G : List Note → List Note → Note → Prop}
  {x y z w : UInt32} {name : Bytes} {i j : Fin maxChannelSlots}

namespace Msg

def payload? : Msg → Option Bytes
  | data payload => some payload
  | _ => none

def add? : Msg → Option UInt32
  | window add => some add
  | _ => none

@[simp] theorem payload?_data (payload : Bytes) : (data payload).payload? = some payload := rfl

@[simp] theorem add?_window (add : UInt32) : (window add).add? = some add := rfl

end Msg

theorem sizes_eq (l : List Msg) : sizes l = ((l.filterMap Msg.payload?).map List.length).sum := by
  induction l with
  | nil => rfl
  | cons m l ih =>
    have ih : (l.map Msg.size).sum = _ := ih
    cases m with
    | data payload => simp [sizes, Msg.size, ih]
    | _ =>
      rw [List.filterMap_cons_none rfl, ← ih]
      exact Nat.zero_add _

theorem credits_eq (l : List Msg) : credits l = ((l.filterMap Msg.add?).map UInt32.toNat).sum := by
  induction l with
  | nil => rfl
  | cons m l ih =>
    have ih : (l.map Msg.credit).sum = _ := ih
    cases m with
    | window add => simp [credits, Msg.credit, ih]
    | _ =>
      rw [List.filterMap_cons_none rfl, ← ih]
      exact Nat.zero_add _

namespace Mark

def spentOn (x : UInt32) : Mark → Option ℕ
  | spent z n => if z = x then some n else none
  | _ => none

def grantedOn (x : UInt32) : Mark → Option UInt32
  | granted z add => if z = x then some add else none
  | _ => none

end Mark

theorem length_filterMap_congr {α β γ : Type} {f : α → Option β} {g : α → Option γ} {l : List α}
    (h : ∀ a ∈ l, (f a).isSome = (g a).isSome) :
    (l.filterMap f).length = (l.filterMap g).length := by
  rw [List.length_filterMap_eq_countP, List.length_filterMap_eq_countP]
  exact List.countP_congr fun a ha => by rw [h a ha]

theorem ofSent_mark (b : Bytes) : (Entry.ofSent b).bind Entry.mark = none := by
  unfold Entry.ofSent
  split
  · rfl
  · cases Pdu.ofChannel b <;> rfl

theorem calls_marked (c : Ctx Rng SS) (x : UInt32) :
    ((c.saidOn x).filterMap Msg.payload?).length =
      ((c.entries.filterMap Entry.mark).filterMap (Mark.spentOn x)).length ∧
    ((c.saidOn x).filterMap Msg.add?).length =
      ((c.entries.filterMap Entry.mark).filterMap (Mark.grantedOn x)).length := by
  unfold Ctx.saidOn Ctx.calls Ctx.entries
  simp only [List.filterMap_filterMap]
  constructor <;>
  · refine length_filterMap_congr fun o _ => ?_
    cases o with
    | sent b => simp only [Occ.did?, Occ.toEntry, ofSent_mark, Option.bind_none, Option.isSome_none]
    | queued ev | dropped ev => cases ev <;> rfl
    | pulled ct plain tag =>
      simp only [Occ.did?, Occ.toEntry]
      cases Pdu.ofChannel plain <;> rfl
    | did k =>
      cases k with
      | channelSend id data memOk =>
        by_cases h : id = x <;>
          simp [Occ.did?, Occ.toEntry, Call.msgOn, Msg.on, Entry.mark, Mark.spentOn, Mark.grantedOn,
            Msg.add?, h]
      | channelWindowAdjust id add =>
        by_cases h : id = x <;>
          simp [Occ.did?, Occ.toEntry, Call.msgOn, Msg.on, Entry.mark, Mark.spentOn, Mark.grantedOn,
            Msg.payload?, h]
      | channelEof id | channelClose id =>
        by_cases h : id = x <;>
          simp [Occ.did?, Occ.toEntry, Call.msgOn, Msg.on, Msg.payload?, Msg.add?, h]
      | _ => rfl
    | _ => rfl

theorem told_marked (l : List Note) (x : UInt32) :
    ((toldOn x l).filterMap Msg.payload?).length =
      ((l.filterMap Note.mark).filterMap (Mark.spentOn x)).length ∧
    ((toldOn x l).filterMap Msg.add?).length =
      ((l.filterMap Note.mark).filterMap (Mark.grantedOn x)).length := by
  unfold toldOn
  simp only [List.filterMap_filterMap]
  constructor <;>
  · refine length_filterMap_congr fun n _ => ?_
    cases n with
    | told z peer m =>
      cases m <;> by_cases h : z = x <;>
        simp [Note.tells, Note.mark, Mark.spentOn, Mark.grantedOn, Msg.payload?, Msg.add?, h]
    | _ => rfl

namespace Noted

/-- What was sent on a channel, and what was granted, is what the host has asked for. -/
theorem said_eq (h : Noted c l) (x : UInt32) :
    (toldOn x l).filterMap Msg.payload? = (c.saidOn x).filterMap Msg.payload? ∧
    (toldOn x l).filterMap Msg.add? = (c.saidOn x).filterMap Msg.add? := by
  obtain ⟨h1, h2⟩ := calls_marked c x
  obtain ⟨g1, g2⟩ := told_marked l x
  rw [h.marks] at h1 h2
  exact ⟨((h.said x).filterMap _).eq_of_length (g1.trans h1.symm),
    ((h.said x).filterMap _).eq_of_length (g2.trans h2.symm)⟩

theorem amounts (h : Noted c l) (x : UInt32) :
    sizes (toldOn x l) = sizes (c.saidOn x) ∧ credits (toldOn x l) = credits (c.saidOn x) := by
  obtain ⟨h1, h2⟩ := h.said_eq x
  rw [sizes_eq, sizes_eq, credits_eq, credits_eq, h1, h2]
  exact ⟨rfl, rfl⟩

theorem raised (h : Noted c l) (x : UInt32) : c.raisedOn x = heardOn x l :=
  (raisedOn_eq c x).trans (h.heard x)

end Noted

/-- The channel `x` of an endpoint and the channel `y` of its peer have come from one CHANNEL_OPEN,
which carried the name. -/
def Net.Joined (N : Net Rng SS) (r : Role) (x y : UInt32) (name : Bytes) : Prop :=
  (∃ w p, .channelOpen y x name w p ∈ (N.ends r.peer).emitted) ∨
    ∃ w p, .channelOpen x y name w p ∈ (N.ends r).emitted

def Net.inFlight (N : Net Rng SS) (r : Role) (y : UInt32) : List Msg :=
  ((N.ends r).sentPdus.drop (N.ends r.peer).tookPdus.length).filterMap (Pdu.msgTo y)

def Event.offered : Event → Option UInt32
  | .channelOpen x .. => some x
  | _ => .none

/-- The ids under which an endpoint has asked for a channel, or was asked for one. -/
def Ctx.births (c : Ctx Rng SS) : List UInt32 :=
  c.sentPdus.filterMap Pdu.asker ++ c.emitted.filterMap Event.offered

theorem Net.Joined.symm (h : N.Joined r x y name) : N.Joined r.peer y x name := by
  unfold Net.Joined at h ⊢
  rw [Role.peer_peer]
  exact h.symm

theorem mem_entries_event {ev : Event} (hc : ev.isChannel) :
    .event ev ∈ c.entries ↔ ev ∈ c.emitted := by
  unfold Ctx.entries Ctx.emitted
  rw [List.mem_filterMap, List.mem_filterMap]
  refine exists_congr fun o => and_congr_right fun _ => ?_
  cases o with
  | queued ev' | dropped ev' =>
    change (if ev'.isChannel then some (Entry.event ev') else none) = _ ↔ some ev' = some ev
    rw [Option.ite_none_right_eq_some]
    constructor
    · rintro ⟨-, h⟩
      cases h
      rfl
    · intro h
      cases h
      exact ⟨hc, rfl⟩
  | sent b =>
    refine iff_of_false (fun h => ?_) (by rintro ⟨⟩)
    change Entry.ofSent b = _ at h
    unfold Entry.ofSent at h
    split at h
    · cases h
    · obtain ⟨_, -, h⟩ := Option.map_eq_some_iff.mp h
      cases h
  | pulled ct plain tag =>
    refine iff_of_false (fun h => ?_) (by rintro ⟨⟩)
    obtain ⟨_, -, h⟩ := Option.map_eq_some_iff.mp h
    cases h
  | did k => exact iff_of_false (by cases k <;> rintro ⟨⟩) (by rintro ⟨⟩)
  | _ => exact iff_of_false (by rintro ⟨⟩) (by rintro ⟨⟩)

def Mark.asked : Mark → Option UInt32
  | offer x .. => some x
  | _ => none

theorem births_eq_marks (c : Ctx Rng SS) :
    c.emitted.filterMap Event.offered = (c.entries.filterMap Entry.mark).filterMap Mark.asked := by
  unfold Ctx.emitted Ctx.entries
  simp only [List.filterMap_filterMap]
  refine List.filterMap_congr fun o _ => ?_
  cases o with
  | queued ev | dropped ev => cases ev <;> rfl
  | sent b =>
    change none = ((Entry.ofSent b).bind Entry.mark).bind Mark.asked
    rw [ofSent_mark]
    rfl
  | pulled ct plain tag =>
    change none = (((Pdu.ofChannel plain).map Entry.took).bind Entry.mark).bind Mark.asked
    cases Pdu.ofChannel plain <;> rfl
  | did k => cases k <;> rfl
  | _ => rfl

theorem births_perm_born (l : List Note) :
    ((sentBy l).filterMap Pdu.asker ++ (l.filterMap Note.mark).filterMap Mark.asked).Perm
      (l.filterMap Note.born) := by
  unfold sentBy
  simp only [List.filterMap_filterMap]
  induction l with
  | nil => exact .refl _
  | cons n l ih =>
    cases n with
    | opened x => exact ih.cons x
    | offered x => exact List.perm_middle.trans (ih.cons x)
    | told x peer m => cases m <;> exact ih
    | _ => exact ih

namespace Noted

theorem mark_iff (h : Noted c l) {m : Mark} :
    (∃ n ∈ l, n.mark = some m) ↔ ∃ e ∈ c.entries, e.mark = some m := by
  rw [← List.mem_filterMap, ← List.mem_filterMap, h.marks]

theorem offer_iff (h : Noted c l) :
    (∃ p, .offered x y w p name ∈ l) ↔ ∃ p, .channelOpen x y name w p ∈ c.emitted := by
  have hmark : (∃ p, .offered x y w p name ∈ l) ↔ ∃ n ∈ l, n.mark = some (.offer x y w name) := by
    constructor
    · rintro ⟨p, hp⟩
      exact ⟨_, hp, rfl⟩
    · rintro ⟨n, hn, hm⟩
      cases n with
      | told z peer m => cases m <;> cases hm
      | offered =>
        cases hm
        exact ⟨_, hn⟩
      | _ => cases hm
  rw [hmark, h.mark_iff]
  constructor
  · rintro ⟨e, he, hm⟩
    cases e with
    | event ev =>
      cases ev with
      | channelOpen =>
        cases hm
        exact ⟨_, (mem_entries_event rfl).mp he⟩
      | _ => cases hm
    | _ => cases hm
  · rintro ⟨p, hp⟩
    exact ⟨_, (mem_entries_event rfl).mpr hp, rfl⟩

/-- A channel is reported open when its CONFIRM is sent, or taken. -/
theorem of_opened {p : UInt32} (h : Noted c l) (he : .channelOpened x y name w p ∈ c.emitted) :
    (∃ w p, .accepted x y w p ∈ l) ∨ ∃ w p, .confirmed x y w p ∈ l := by
  obtain ⟨n, hn, hm⟩ := h.mark_iff.mpr ⟨_, (mem_entries_event rfl).mpr he, rfl⟩
  cases n with
  | told z peer m => cases m <;> cases hm
  | accepted =>
    cases hm
    exact Or.inl ⟨_, _, hn⟩
  | confirmed =>
    cases hm
    exact Or.inr ⟨_, _, hn⟩
  | _ => cases hm

theorem of_failed (h : Noted c l) (he : .channelOpenFail x name ∈ c.emitted) : .failed x ∈ l := by
  obtain ⟨n, hn, hm⟩ := h.mark_iff.mpr ⟨_, (mem_entries_event rfl).mpr he, rfl⟩
  cases n with
  | told z peer m => cases m <;> cases hm
  | failed =>
    cases hm
    exact hn
  | _ => cases hm

theorem sentPdus (h : Noted c l) : c.sentPdus = sentBy l := (sentPdus_eq c).trans h.sent

theorem tookPdus (h : Noted c l) : c.tookPdus = takenBy l := (tookPdus_eq c).trans h.taken

theorem births_perm (h : Noted c l) : c.births.Perm (l.filterMap Note.born) := by
  unfold Ctx.births
  rw [h.sentPdus, births_eq_marks, h.marks]
  exact births_perm_born l

end Noted

namespace Talking

variable (h : Talking E G N d)

include h

theorem joined_iff : N.Joined r x y name ↔
    ∃ w p, .offered y x w p name ∈ d r.peer ∨ .offered x y w p name ∈ d r := by
  have hpeer : ∀ w, (∃ p, .offered y x w p name ∈ d r.peer) ↔
      ∃ p, .channelOpen y x name w p ∈ (N.ends r.peer).emitted :=
    fun _ => (h.noted r.peer).offer_iff
  have hown : ∀ w, (∃ p, .offered x y w p name ∈ d r) ↔
      ∃ p, .channelOpen x y name w p ∈ (N.ends r).emitted := fun _ => (h.noted r).offer_iff
  simp only [exists_or, hpeer, hown]
  rfl

/-- Channels that are joined have met. -/
theorem met_iff : Met (d r) (d r.peer) x y ↔ ∃ name, N.Joined r x y name := by
  rw [Talk.met_iff_offered]
  constructor
  · rintro ⟨w, p, name, ho⟩
    exact ⟨name, h.joined_iff.mpr ⟨w, p, ho⟩⟩
  · rintro ⟨name, hj⟩
    obtain ⟨w, p, ho⟩ := h.joined_iff.mp hj
    exact ⟨w, p, name, ho⟩

theorem joined_unique {name' : Bytes} (hy : N.Joined r x y name) (hz : N.Joined r x z name') :
    y = z ∧ name = name' := by
  obtain ⟨w, p, hy⟩ := h.joined_iff.mp hy
  obtain ⟨w', p', hz⟩ := h.joined_iff.mp hz
  exact (h.talk r).offer_unique hy hz

theorem open_stage (hi : ((N.ends r).channels i).state = .open_) : ∃ own quota,
    stageOf ((N.ends r).channels i).localId (d r) =
      .open_ ((N.ends r).channels i).peerId own quota ∧
    Balanced ((N.ends r).channels i) own quota (d r) :=
  ((h.noted r).minutes.slot i (hi ▸ by rintro ⟨⟩)).open_ hi

/-- An open slot is joined to a channel that has its name. -/
theorem open_joined (hi : ((N.ends r).channels i).state = .open_) : ∃ name,
    N.Joined r ((N.ends r).channels i).localId ((N.ends r).channels i).peerId name ∧
    cstr name = cstr ((N.ends r).channels i).name := by
  have ht := h.talk r
  obtain ⟨own, quota, hst, -⟩ := h.open_stage hi
  obtain ⟨n, hn, hb, name, hname, he⟩ := ((h.noted r).minutes.slot i (hi ▸ by rintro ⟨⟩)).title
  refine ⟨name, h.joined_iff.mpr ?_, he⟩
  obtain ⟨p, p', name', ho, hc⟩ | ⟨p, p', name', ho, -⟩ := ht.sound.of_open hst
  · obtain ⟨own', p₁, name₁, hoff, -⟩ := ht.symm.sound.of_accepted (ht.symm.accepted hc)
    obtain rfl := ht.sound.born_unique hn (ht.opened hoff) hb rfl
    cases hname
    exact ⟨_, _, Or.inl hoff⟩
  · obtain rfl := ht.sound.born_unique hn ho hb rfl
    cases hname
    exact ⟨_, _, Or.inr ho⟩

theorem births_nodup : (N.ends r).births.Nodup :=
  (h.noted r).births_perm.nodup_iff.mpr (h.talk r).sound.born_nodup

theorem mem_births {n : Note} (hn : n ∈ d r) (hx : n.born = some x) : x ∈ (N.ends r).births :=
  (h.noted r).births_perm.mem_iff.mpr (List.mem_filterMap.mpr ⟨n, hn, hx⟩)

theorem joined_born (hj : N.Joined r x y name) :
    x ∈ (N.ends r).births ∧ y ∈ (N.ends r.peer).births := by
  obtain ⟨w, p, ho | ho⟩ := h.joined_iff.mp hj
  · exact ⟨h.mem_births ((h.talk r).opened ho) rfl, h.mem_births ho rfl⟩
  · exact ⟨h.mem_births ho rfl, h.mem_births ((h.talk r).symm.opened ho) rfl⟩

/-- A slot of the peer that is in use under the id that an open slot has for its peer. -/
theorem partner (hi : ((N.ends r).channels i).state = .open_)
    (hj : ((N.ends r.peer).channels j).state ≠ .unused)
    (hij : ((N.ends r.peer).channels j).localId = ((N.ends r).channels i).peerId) :
    (((N.ends r.peer).channels j).state = .opening ∨
      ((N.ends r.peer).channels j).state = .open_ ∧
        ((N.ends r.peer).channels j).peerId = ((N.ends r).channels i).localId) ∧
    cstr ((N.ends r.peer).channels j).name = cstr ((N.ends r).channels i).name := by
  have ht := h.talk r
  have hm := (h.noted r.peer).minutes
  obtain ⟨own, quota, hst, -⟩ := h.open_stage hi
  rw [← hij] at hst
  obtain ⟨name, hjoin, hname⟩ := h.open_joined hi
  rw [← hij] at hjoin
  obtain ⟨k, hk, hb, name', hk', he⟩ := (hm.slot j hj).title
  -- the note that the slot was born with carries the name that both are joined under
  obtain rfl : name = name' := by
    obtain ⟨w, p, ho | ho⟩ := h.joined_iff.mp hjoin
    · obtain rfl := ht.symm.sound.born_unique hk ho hb rfl
      exact Option.some.inj hk'
    · obtain rfl := ht.symm.sound.born_unique hk (ht.symm.opened ho) hb rfl
      exact Option.some.inj hk'
  refine ⟨?_, he.symm.trans hname⟩
  cases hs : ((N.ends r.peer).channels j).state with
  | unused => exact absurd hs hj
  | closed => exact absurd hs (hm.numbered.live j)
  | opening => exact Or.inl rfl
  | open_ =>
    obtain ⟨own', quota', hst', -⟩ := h.open_stage hs
    exact Or.inr ⟨rfl, (ht.quota_eq List.prefix_rfl hst hst').1⟩
  | pending =>
    exfalso
    have hpend := (hm.slot j hj).pending hs
    obtain ⟨p, p', name, -, hc⟩ | ⟨p, p', name, ho, -⟩ := ht.sound.of_open hst
    · obtain ⟨_, _, _, -, hst' | hst'⟩ := ht.symm.sound.of_accepted (ht.symm.accepted hc) <;>
        exact absurd (hpend.symm.trans hst') (by rintro ⟨⟩)
    · obtain ⟨p', name', ho'⟩ := ht.symm.sound.of_pending hpend
      have := ht.symm.sound.born_unique (ht.symm.opened ho) ho' rfl rfl
      cases this

/-- A CONFIRM opens the channel that it was sent for. -/
theorem opened_joined {p : UInt32} (he : .channelOpened y x name w p ∈ (N.ends r.peer).emitted) :
    ∃ name', N.Joined r x y name' := by
  obtain ⟨w, p, ha⟩ | ⟨w, p, hc⟩ := (h.noted r.peer).of_opened he
  · obtain ⟨quota, p, name, ho, -⟩ := (h.talk r).symm.sound.of_accepted ha
    exact ⟨name, h.joined_iff.mpr ⟨_, _, Or.inl ho⟩⟩
  · obtain ⟨quota, p, name, ho, -⟩ := (h.talk r).sound.of_accepted ((h.talk r).accepted hc)
    exact ⟨name, h.joined_iff.mpr ⟨_, _, Or.inr ho⟩⟩

/-- An OPEN_FAIL gives up the channel whose CHANNEL_OPEN it answers. -/
theorem failed_answered (he : .channelOpenFail y name ∈ (N.ends r.peer).emitted) :
    (∃ w p name', .channelOpen y w p name' ∈ (N.ends r).tookPdus) ∧
      .channelOpenFail y ∈ (N.ends r).sentPdus ∧
      ∀ x name' w p, .channelOpened x y name' w p ∉ (N.ends r).emitted := by
  have ht := h.talk r
  have hf := (h.noted r.peer).of_failed he
  rw [(h.noted r).sentPdus, (h.noted r).tookPdus]
  have htook : ∃ n ∈ d r, (∃ w p name', n.takes = some (.channelOpen y w p name')) ∧
      ∀ x w p, .accepted x y w p ∉ d r := by
    obtain ⟨x, hr⟩ | ⟨w, p, name', hr⟩ := ht.not_accepted hf rfl
    · obtain ⟨⟨quota, p, name', ho⟩, -⟩ := ht.sound.of_rejected hr
      refine ⟨_, ho, ⟨_, _, _, rfl⟩, fun z w q ha => ?_⟩
      obtain ⟨quota', p', name'', ho', -⟩ := ht.sound.of_accepted ha
      cases ht.symm.open_once (x := y) ho ho' rfl rfl
      obtain ⟨s, s', t, t', ⟨quota₁, rfl, rfl⟩, ⟨⟨quota₂, rfl⟩, rfl⟩, hages | hages⟩ :=
        ht.sound.apart (x := x) ha hr (by rintro ⟨⟩) rfl rfl <;>
        exact absurd hages.rank (by simp [Stage.rank])
    · refine ⟨_, hr, ⟨_, _, _, rfl⟩, fun z w q ha => ?_⟩
      obtain ⟨quota', p', name'', ho', -⟩ := ht.sound.of_accepted ha
      cases ht.symm.open_once (x := y) hr ho' rfl rfl
  obtain ⟨n, hn, ⟨w, p, name', hk⟩, hnone⟩ := htook
  refine ⟨⟨w, p, name', mem_takenBy.mpr ⟨n, hn, hk⟩⟩, ht.symm.fifo.subset ?_, ?_⟩
  · exact mem_takenBy.mpr ⟨_, hf, rfl⟩
  · intro x name' w p ho
    obtain ⟨w, p, ha⟩ | ⟨w, p, hc⟩ := (h.noted r).of_opened ho
    · exact hnone x w p ha
    · obtain ⟨quota, p, name, hoff, -⟩ := ht.symm.sound.of_accepted (ht.symm.accepted hc)
      obtain ⟨⟨own, p, name, hop⟩, -⟩ := ht.symm.sound.of_failed hf
      cases ht.symm.sound.born_unique (x := y) hop hoff rfl rfl

theorem raised_said (hj : N.Joined r x y name) :
    ((N.ends r.peer).raisedOn y).Sublist ((N.ends r).saidOn x) := by
  rw [(h.noted r.peer).raised]
  exact ((h.talk r).heard_sublist (h.met_iff.mpr ⟨name, hj⟩)).trans ((h.noted r).said x)

theorem raised_joined {m : Msg} (hm : m ∈ (N.ends r.peer).raisedOn y) :
    ∃ x name, N.Joined r x y name := by
  rw [(h.noted r.peer).raised] at hm
  obtain ⟨n, hn, hh⟩ := List.mem_filterMap.mp hm
  cases n with
  | heard z m' =>
    simp only [Note.hears, Option.ite_none_right_eq_some, Option.some.injEq] at hh
    obtain ⟨rfl, rfl⟩ := hh
    obtain ⟨x, -, hmet⟩ := (h.talk r).met_of_heard hn
    exact ⟨x, h.met_iff.mp hmet⟩
  | _ => cases hh

theorem inFlight_eq : N.inFlight r y = Talk.flying (d r) (d r.peer) y := by
  unfold Net.inFlight Talk.flying
  rw [sentPdus_eq, tookPdus_eq, (h.noted r).sent, (h.noted r.peer).taken]

/-- The own window of an open channel is the one that every channel starts with. -/
theorem own_eq {own quota : UInt32} (hs : stageOf x (d r) = .open_ y own quota) :
    (N.ends r).initialWindow = own := by
  obtain ⟨p, p', name, ho, -⟩ | ⟨p, p', name, -, ha⟩ := (h.talk r).sound.of_open hs
  · exact ((h.noted r).offers _ ho).symm
  · exact ((h.noted r).offers _ ha).symm

theorem going (hl : ¬ (N.ends r).ended) : ¬ Over (d r) := fun ho => hl ((h.noted r).finished ho)

theorem told_cases (hj : ((N.ends r.peer).channels j).state = .open_)
    (hjoin : N.Joined r x ((N.ends r.peer).channels j).localId name) :
    toldOn x (d r) = (N.ends r.peer).raisedOn ((N.ends r.peer).channels j).localId ++
        N.inFlight r ((N.ends r.peer).channels j).localId ∨
    Over (d r.peer) ∧ ∃ m, toldOn x (d r) =
      (N.ends r.peer).raisedOn ((N.ends r.peer).channels j).localId ++
        (m :: N.inFlight r ((N.ends r.peer).channels j).localId) := by
  obtain ⟨own, quota, hst, -⟩ := h.open_stage hj
  rw [(h.noted r.peer).raised, h.inFlight_eq]
  obtain he | ⟨payload, hb, he⟩ := (h.talk r).told_cases (h.met_iff.mpr ⟨name, hjoin⟩) hst
  · exact Or.inl he
  · exact Or.inr ⟨⟨_, hb⟩, _, he⟩

theorem arrived (hE : Ideal E) (hl : ¬ (N.ends r.peer).ended) (hw : N.wire r = [])
    (hp : (N.ends r).pending = []) : N.inFlight r y = [] := by
  have hall := h.linked.complete hE (r := r.peer)
  rw [Role.peer_peer] at hall
  unfold Net.inFlight Ctx.sentPdus Ctx.tookPdus
  rw [hall hl hw hp, List.drop_length]
  rfl

end Talking

def plainPass (r : Role) : List Act := [.host r (.getOutput 4096), .deliver r.peer 4096]

/-- The client opens a channel and sends on it; what it has sent last is still to be fetched. -/
def plainTalk : List Act :=
  plainExchange ++ .host .server (.authDecide true) :: plainPass .server ++
    .host .client (.channelOpen (some (ascii "tun"))) :: plainPass .client ++
    .host .server (.channelAccept 0 true) :: plainPass .server ++
    .host .client (.channelSend 0 (.buf [1, 2, 3]) true) :: plainPass .client ++
    [.host .client (.channelSend 0 (.buf [4]) true)]

@[irreducible] def plainOpened : Net Unit Unit := plainTalk.foldl (Net.step plainEnv) plainNet

theorem run_plainOpened : Net.Run plainEnv (fun _ _ => True) plainNet plainOpened := by
  unfold plainOpened
  exact Net.run_acts (by decide) plainNet

theorem Role.mem_both (r : Role) : r ∈ [Role.client, .server] := by cases r <;> decide

theorem plainOpened_facts :
    (∀ r ∈ [Role.client, .server], (plainOpened.ends r).allocs < 2 ^ 32 ∧
      ((plainOpened.ends r).channels slot0).state = .open_) ∧
    .channelOpen ((plainOpened.ends .server).channels slot0).localId 0 (ascii "tun") 262144 65536 ∈
      (plainOpened.ends .server).emitted ∧
    ((plainOpened.ends .server).raisedOn
      ((plainOpened.ends .server).channels slot0).localId).filterMap
      Msg.payload? = [[1, 2, 3]] ∧ ¬ (plainOpened.ends .server).ended := by
  decide +kernel

theorem plainOpened_allocs (r : Role) : (plainOpened.ends r).allocs < 2 ^ 32 :=
  (plainOpened_facts.1 r r.mem_both).1

theorem plainOpened_open (r : Role) : ((plainOpened.ends r).channels slot0).state = .open_ :=
  (plainOpened_facts.1 r r.mem_both).2

/-- The channels of the endpoint and those of its peer belong together. -/
structure Net.Paired (N : Net Rng SS) (r : Role) : Prop where
  /-- No id is given to two channels. -/
  births : (N.ends r).births.Nodup
  born : ∀ {x y name}, N.Joined r x y name → x ∈ (N.ends r).births ∧ y ∈ (N.ends r.peer).births
  unique : ∀ {x y z name name'}, N.Joined r x y name → N.Joined r x z name' → y = z ∧ name = name'
  open_ : ∀ {i}, ((N.ends r).channels i).state = .open_ → ∃ name,
    N.Joined r ((N.ends r).channels i).localId ((N.ends r).channels i).peerId name ∧
    cstr name = cstr ((N.ends r).channels i).name
  partner : ∀ {i j}, ((N.ends r).channels i).state = .open_ →
    ((N.ends r.peer).channels j).state ≠ .unused →
    ((N.ends r.peer).channels j).localId = ((N.ends r).channels i).peerId →
    (((N.ends r.peer).channels j).state = .opening ∨
      ((N.ends r.peer).channels j).state = .open_ ∧
        ((N.ends r.peer).channels j).peerId = ((N.ends r).channels i).localId) ∧
    cstr ((N.ends r.peer).channels j).name = cstr ((N.ends r).channels i).name
  /-- What is raised was said, in this order. -/
  said : ∀ {x y name}, N.Joined r x y name →
    ((N.ends r.peer).raisedOn y).Sublist ((N.ends r).saidOn x)
  heard : ∀ {y m}, m ∈ (N.ends r.peer).raisedOn y → ∃ x name, N.Joined r x y name
  opened : ∀ {x y name w p}, .channelOpened y x name w p ∈ (N.ends r.peer).emitted →
    ∃ name', N.Joined r x y name'
  failed : ∀ {y name}, .channelOpenFail y name ∈ (N.ends r.peer).emitted →
    (∃ w p name', .channelOpen y w p name' ∈ (N.ends r).tookPdus) ∧
      .channelOpenFail y ∈ (N.ends r).sentPdus ∧
      ∀ x name' w p, .channelOpened x y name' w p ∉ (N.ends r).emitted

/-- Between two honest endpoints channels are paired one to one, and an open one with the channel
that its CHANNEL_OPEN or its CONFIRM names. What is raised for a channel was said, in this order, by
calls on the channel that it is joined to, and a CONFIRM or an OPEN_FAIL is an answer to the
CHANNEL_OPEN of the channel that it opens or gives up. -/
theorem channels_paired (hE : Ideal E) (h : N.Created E) (hrun : Net.Run E (fun _ _ => True) N N')
    (hb : ∀ r, (N'.ends r).allocs < 2 ^ 32) (r : Role) : N'.Paired r := by
  obtain ⟨d, ht⟩ := Talking.run hE .any h hrun hb
  exact ⟨ht.births_nodup, ht.joined_born, ht.joined_unique, ht.open_joined, ht.partner,
    ht.raised_said, ht.raised_joined, ht.opened_joined, ht.failed_answered⟩

/-- Both endpoints open a channel before either CHANNEL_OPEN has arrived, and talk on both; the
server closes its own, and the client gives its slot to another. -/
def plainCrossed : List Act :=
  plainExchange ++ .host .server (.authDecide true) :: plainPass .server ++
    [.host .client (.channelOpen (some (ascii "tun"))),
      .host .server (.channelOpen (some (ascii "exec")))] ++ plainPass .client ++
    plainPass .server ++ [.host .client (.channelAccept 1 true),
      .host .server (.channelAccept 1 true)] ++ plainPass .client ++ plainPass .server ++
    [.host .client (.channelSend 0 (.buf [1, 2]) true),
      .host .server (.channelSend 0 (.buf [3]) true), .host .server (.channelEof 0),
      .host .client (.channelWindowAdjust 1 7)] ++ plainPass .client ++ plainPass .server ++
    .host .server (.channelClose 0) :: plainPass .server ++
    .host .client (.channelOpen (some (ascii "tap"))) :: plainPass .client ++
    [.host .server (.channelAccept 2 true)]

@[irreducible] def plainMixed : Net Unit Unit := plainCrossed.foldl (Net.step plainEnv) plainNet

theorem plainMixed_facts :
    (∀ r ∈ [Role.client, .server], (plainMixed.ends r).allocs < 2 ^ 32) ∧
    (plainMixed.ends .client).births = [0, 2, 1] ∧ (plainMixed.ends .server).births = [0, 1, 2] ∧
    (plainMixed.ends .server).raisedOn 1 = [.data [1, 2]] ∧
    (plainMixed.ends .client).raisedOn 1 = [.data [3], .eof, .close] ∧
    (plainMixed.ends .server).raisedOn 0 = [.window 7] := by
  decide +kernel

theorem channels_paired_plain : plainMixed.Paired .client ∧ plainMixed.Paired .server ∧
    (plainMixed.ends .client).births = [0, 2, 1] ∧ (plainMixed.ends .server).births = [0, 1, 2] ∧
    (plainMixed.ends .server).raisedOn 1 = [.data [1, 2]] ∧
    (plainMixed.ends .client).raisedOn 1 = [.data [3], .eof, .close] ∧
    (plainMixed.ends .server).raisedOn 0 = [.window 7] := by
  obtain ⟨hallocs, hfacts⟩ := plainMixed_facts
  have hrun : Net.Run plainEnv (fun _ _ => True) plainNet plainMixed := by
    unfold plainMixed
    exact Net.run_acts (by decide) plainNet
  have hb := fun r : Role => hallocs r r.mem_both
  exact ⟨channels_paired ideal_plainEnv created_plainNet hrun hb .client,
    channels_paired ideal_plainEnv created_plainNet hrun hb .server, hfacts⟩

/-- The payloads that an open channel has raised are the first of those that were sent to it by
calls; the others are on their way, and none is once everything has arrived. -/
theorem stream_delivered (hE : Ideal E) (h : N.Created E)
    (hrun : Net.Run E (fun _ _ => True) N N') (hb : ∀ r, (N'.ends r).allocs < 2 ^ 32)
    (hj : ((N'.ends r.peer).channels j).state = .open_)
    (hjoin : N'.Joined r x ((N'.ends r.peer).channels j).localId name) :
    let heard := ((N'.ends r.peer).raisedOn ((N'.ends r.peer).channels j).localId).filterMap
      Msg.payload?
    let said := ((N'.ends r).saidOn x).filterMap Msg.payload?
    heard <+: said ∧
    (¬ (N'.ends r.peer).ended → said = heard ++
      (N'.inFlight r ((N'.ends r.peer).channels j).localId).filterMap Msg.payload?) ∧
    (¬ (N'.ends r.peer).ended → N'.wire r = [] → (N'.ends r).pending = [] → said = heard) := by
  obtain ⟨d, ht⟩ := Talking.run hE .any h hrun hb
  intro heard said
  have hsaid : (toldOn x (d r)).filterMap Msg.payload? = said := ((ht.noted r).said_eq x).1
  have hall : ¬ (N'.ends r.peer).ended → said = heard ++
      (N'.inFlight r ((N'.ends r.peer).channels j).localId).filterMap Msg.payload? := by
    intro hl
    obtain he | ⟨ho, -⟩ := ht.told_cases hj hjoin
    · rw [← hsaid, he, List.filterMap_append]
    · exact absurd ho (ht.going hl)
  refine ⟨?_, hall, fun hl hw hp => ?_⟩
  · obtain he | ⟨-, m, he⟩ := ht.told_cases hj hjoin <;> rw [← hsaid, he, List.filterMap_append] <;>
      exact List.prefix_append _ _
  · rw [hall hl, ht.arrived hE hl hw hp]
    exact List.append_nil _

/-- The second payload has not arrived. -/
theorem stream_delivered_plain :
    ((plainOpened.ends .server).raisedOn
      ((plainOpened.ends .server).channels slot0).localId).filterMap
        Msg.payload? = [[1, 2, 3]] ∧
      ((plainOpened.ends .client).saidOn 0).filterMap Msg.payload? = [[1, 2, 3]] ++
        (plainOpened.inFlight .client
          ((plainOpened.ends .server).channels slot0).localId).filterMap Msg.payload? := by
  have hjoin : plainOpened.Joined .client 0 ((plainOpened.ends .server).channels slot0).localId
      (ascii "tun") := Or.inl ⟨262144, 65536, plainOpened_facts.2.1⟩
  have h := stream_delivered (r := .client) ideal_plainEnv created_plainNet run_plainOpened
    plainOpened_allocs (plainOpened_open .server) hjoin
  obtain ⟨-, -, hraised, hlive⟩ := plainOpened_facts
  refine ⟨hraised, ?_⟩
  rw [← hraised]
  exact h.2.1 hlive

end Sodchan
