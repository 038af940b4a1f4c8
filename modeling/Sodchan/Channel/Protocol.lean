import Sodchan.Channel.Numbered

/-! # The protocol of channel events

The events of one channel follow an automaton: a channel is offered or asked
for, then open, then half closed or over. The code keeps to it as long as the
peer sends EOF once, for an open channel, and no data after it, as the event
queue has room and as no id is given out twice.
-/

namespace Sodchan

open ByteString

variable {Rng SS : Type} {E : Env Rng SS} {c c' c'' : Ctx Rng SS} {a : Deed}

/-- The stages of a channel as its host sees them. -/
inductive Phase where
  | fresh | asked | offered | accepted | live | halved | gone
  deriving DecidableEq

def Event.channelId? : Event → Option UInt32
  | .channelOpen id .. | .channelOpened id .. | .channelOpenFail id _ | .channelData id _ => some id
  | .channelWindow id .. | .channelEof id | .channelClose id => some id
  | _ => Option.none

/-- The channel in whose line an entry stands: events, the own CHANNEL_OPEN and the own
OPEN_CONFIRM. -/
def Entry.line : Entry → Option UInt32
  | .sent (.channelOpen sender ..) | .sent (.channelOpenConfirm sender ..) => some sender
  | .event ev => ev.channelId?
  | _ => none

namespace Phase

def step : Phase → Entry → Option Phase
  | fresh, .sent (.channelOpen ..) => some asked
  | fresh, .event (.channelOpen ..) => some offered
  | asked, .event (.channelOpened ..) => some live
  | asked, .event (.channelOpenFail ..) => some gone
  | offered, .sent (.channelOpenConfirm ..) => some accepted
  | accepted, .event (.channelOpened ..) => some live
  | live, .event (.channelData ..) => some live
  | live, .event (.channelWindow ..) => some live
  | live, .event (.channelEof _) => some halved
  | halved, .event (.channelWindow ..) => some halved
  | asked, .event (.channelClose _) => some gone
  | offered, .event (.channelClose _) => some gone
  | live, .event (.channelClose _) => some gone
  | halved, .event (.channelClose _) => some gone
  | _, _ => none

def run : Phase → List Entry → Option Phase
  | p, [] => some p
  | p, e :: l => (p.step e).bind fun q => q.run l

theorem run_append (p : Phase) (l l' : List Entry) :
    p.run (l ++ l') = (p.run l).bind fun q => q.run l' := by
  induction l generalizing p with
  | nil => rfl
  | cons e l ih =>
    simp only [List.cons_append, run, Option.bind_assoc]
    congr 1
    funext q
    exact ih q

end Phase

/-- What an occurrence says to the host, if it reaches the queue. -/
def Occ.stored? : Occ → Option Entry
  | .dropped _ => none
  | o => o.toEntry

/-- The line of a channel: the events queued for it, and how it was opened or accepted. -/
def Ctx.line (c : Ctx Rng SS) (id : UInt32) : List Entry :=
  (c.hist.filterMap Occ.stored?).filter fun e => e.line = some id

/-- The stage of a slot. -/
def Channel.phase (ch : Channel) : Option Phase :=
  match ch.state, ch.remoteEof with
  | .opening, false => some .asked
  | .pending, false => some .offered
  | .open_, false => some .live
  | .open_, true => some .halved
  | _, _ => none

/-- Every line that can be read from `l` has followed the automaton, to the stage of the slot in
use under its id. -/
def Told (s : Table) (l : List Entry) : Prop :=
  ∀ id, ∃ p, Phase.fresh.run (l.filter fun e => e.line = some id) = some p ∧
    (s.allocs ≤ id.toNat → p = .fresh) ∧
    ∀ i, (s.slot i).state ≠ .unused → (s.slot i).localId = id → (s.slot i).phase = some p

/-- What the peer must not do: EOF twice, for a channel that is not open, or before data. -/
def Deed.Polite (s : Table) : Deed → Prop
  | .eof i => (s.slot i).state = .open_ ∧ (s.slot i).remoteEof = false
  | .data i _ => (s.slot i).remoteEof = false
  | _ => True

namespace Told

variable {t : Terms} {s s' : Table} {l l' aside : List Entry} {i : Fin maxChannelSlots}

theorem empty : Told .empty [] := fun _ => ⟨.fresh, rfl, fun _ => rfl, fun _ h => absurd rfl h⟩

theorem filter_line (haside : ∀ e ∈ aside, e.line = none) (id : UInt32) :
    ((l ++ aside ++ l').filter fun e => e.line = some id) =
      (l.filter fun e => e.line = some id) ++ l'.filter fun e => e.line = some id := by
  have hf : (aside.filter fun e => e.line = some id) = [] :=
    List.filter_eq_nil_iff.mpr fun e he => by simp [haside e he]
  rw [List.filter_append, List.filter_append, hf, List.append_nil]

theorem silent (h : Told s l) (haside : ∀ e ∈ aside, e.line = none)
    (hl : ∀ e ∈ l', e.line = none) (ha : s'.allocs = s.allocs)
    (hs : ∀ j, (s'.slot j).state ≠ .unused → (s.slot j).state ≠ .unused ∧
      (s'.slot j).localId = (s.slot j).localId ∧ (s'.slot j).phase = (s.slot j).phase) :
    Told s' (l ++ aside ++ l') := by
  intro id
  obtain ⟨p, hp, hf, hi⟩ := h id
  have hnil : (l'.filter fun e => e.line = some id) = [] :=
    List.filter_eq_nil_iff.mpr fun e he => by simp [hl e he]
  refine ⟨p, by rw [filter_line haside, hnil, List.append_nil, hp], by rwa [ha], ?_⟩
  intro j hj he
  obtain ⟨h1, h2, h3⟩ := hs j hj
  rw [h3]
  exact hi j h1 (h2 ▸ he)

theorem named (h : Told s l) (hn : Numbered s) (hu : (s.slot i).state ≠ .unused)
    (haside : ∀ e ∈ aside, e.line = none)
    (hl : ∀ e ∈ l', e.line = none ∨ e.line = some (s.slot i).localId)
    (ha : s'.allocs = s.allocs) (hother : ∀ j, j ≠ i → s'.slot j = s.slot j)
    (hself : ∀ p, (s.slot i).phase = some p → ∃ q,
      p.run (l'.filter fun e => e.line = some (s.slot i).localId) = some q ∧
        ((s'.slot i).state ≠ .unused →
          (s'.slot i).localId = (s.slot i).localId ∧ (s'.slot i).phase = some q)) :
    Told s' (l ++ aside ++ l') := by
  intro id
  obtain ⟨p, hp, hf, hi⟩ := h id
  by_cases hid : id = (s.slot i).localId
  · subst hid
    obtain ⟨q, hq, hs⟩ := hself p (hi i hu rfl)
    refine ⟨q, ?_, fun hle => ?_, fun j hj he => ?_⟩
    · rw [filter_line haside, Phase.run_append, hp]
      exact hq
    · have := hn.below i hu
      omega
    · by_cases hji : j = i
      · subst hji
        exact (hs hj).2
      · rw [hother j hji] at hj he
        exact absurd (hn.distinct j i hj hu he) hji
  · have hnil : (l'.filter fun e => e.line = some id) = [] := by
      refine List.filter_eq_nil_iff.mpr fun e he => ?_
      rcases hl e he with h | h
      · simp [h]
      · simpa [h] using fun h => hid h.symm
    refine ⟨p, by rw [filter_line haside, hnil, List.append_nil, hp], by rwa [ha], ?_⟩
    intro j hj he
    by_cases hji : j = i
    · subst hji
      obtain ⟨p', -, -, hi'⟩ := h (s.slot j).localId
      obtain ⟨q, -, hs⟩ := hself p' (hi' j hu rfl)
      exact absurd (he.symm.trans (hs hj).1) hid
    · rw [hother j hji] at hj he ⊢
      exact hi j hj he

theorem taken (h : Told s l) (hn : Numbered s) (hb : s.allocs < 2 ^ 32)
    (haside : ∀ e ∈ aside, e.line = none)
    (hl : ∀ e ∈ l', e.line = none ∨ e.line = some s.next)
    (ha : s'.allocs = s.allocs + 1) (hother : ∀ j, j ≠ i → s'.slot j = s.slot j)
    (hself : ∃ q, Phase.fresh.run (l'.filter fun e => e.line = some s.next) = some q ∧
      ((s'.slot i).state ≠ .unused →
        (s'.slot i).localId = s.next ∧ (s'.slot i).phase = some q)) :
    Told s' (l ++ aside ++ l') := by
  intro id
  obtain ⟨p, hp, hf, hi⟩ := h id
  obtain ⟨q, hq, hs⟩ := hself
  by_cases hid : id = s.next
  · subst hid
    have hfresh := hf (hn.next_toNat hb).ge
    refine ⟨q, ?_, fun hle => ?_, fun j hj he => ?_⟩
    · rw [filter_line haside, Phase.run_append, hp, hfresh]
      exact hq
    · rw [ha, hn.next_toNat hb] at hle
      omega
    · by_cases hji : j = i
      · subst hji
        exact (hs hj).2
      · rw [hother j hji] at hj he
        exact absurd he (hn.next_new hb hj)
  · have hnil : (l'.filter fun e => e.line = some id) = [] := by
      refine List.filter_eq_nil_iff.mpr fun e he => ?_
      rcases hl e he with h | h
      · simp [h]
      · simpa [h] using fun h => hid h.symm
    refine ⟨p, by rw [filter_line haside, hnil, List.append_nil, hp], fun hle => hf (by omega), ?_⟩
    intro j hj he
    by_cases hji : j = i
    · subst hji
      exact absurd (he.symm.trans (hs hj).1) hid
    · rw [hother j hji] at hj he ⊢
      exact hi j hj he

end Told

theorem Asked.line {l : List Entry} (h : Asked c a l) : ∀ e ∈ l, e.line = none := by
  intro e he
  cases h with
  | nothing | host => cases he
  | proof | peer =>
    rw [List.mem_singleton.mp he]
    rfl

theorem Channel.phase_of_opening {ch : Channel} {p : Phase} (h : ch.state = .opening)
    (hp : ch.phase = some p) : p = .asked ∧ ch.remoteEof = false := by
  unfold Channel.phase at hp
  rw [h] at hp
  cases hr : ch.remoteEof <;> simp_all

theorem Channel.phase_of_pending {ch : Channel} {p : Phase} (h : ch.state = .pending)
    (hp : ch.phase = some p) : p = .offered ∧ ch.remoteEof = false := by
  unfold Channel.phase at hp
  rw [h] at hp
  cases hr : ch.remoteEof <;> simp_all

theorem Channel.phase_of_open {ch : Channel} {p : Phase} (h : ch.state = .open_)
    (hp : ch.phase = some p) : p = if ch.remoteEof then .halved else .live := by
  unfold Channel.phase at hp
  rw [h] at hp
  cases hr : ch.remoteEof <;> simp_all

theorem Channel.phase_closable {ch : Channel} {p : Phase} (hp : ch.phase = some p)
    (id : UInt32) : p.step (.event (.channelClose id)) = some .gone := by
  unfold Channel.phase at hp
  split at hp
  · obtain rfl := Option.some.inj hp
    rfl
  · obtain rfl := Option.some.inj hp
    rfl
  · obtain rfl := Option.some.inj hp
    rfl
  · obtain rfl := Option.some.inj hp
    rfl
  · cases hp

/-- A deed that is polite moves every line along the automaton. -/
theorem told_deed {l aside : List Entry} (h : Told c.table l) (hn : Numbered c.table)
    (hh : Asked c a aside) (he : a.Enabled c.terms c.table) (hp : a.Polite c.table)
    (hb : a.allocates → c.table.allocs < 2 ^ 32) :
    Told (a.apply c.terms c.table) (l ++ aside ++ a.entries c.terms c.table) := by
  have haside := hh.line
  cases a with
  | idle | refused =>
    exact h.silent haside (by simp [Deed.entries, Entry.line]) rfl fun j hj => ⟨hj, rfl, rfl⟩
  | offered i peer window packet name =>
    refine h.taken (i := i) hn (hb rfl) haside
      (by simp [Deed.entries, Entry.line, Event.channelId?])
      rfl (fun _ => Table.take_slot_of_ne) ⟨.offered, ?_, fun _ => ?_⟩
    · simp [Deed.entries, Entry.line, Event.channelId?, Phase.run, Phase.step]
    · rw [Deed.apply, Table.take_slot]
      exact ⟨rfl, rfl⟩
  | open_ i name =>
    refine h.taken (i := i) hn (hb rfl) haside (by simp [Deed.entries, Entry.line])
      rfl (fun _ => Table.take_slot_of_ne) ⟨.asked, ?_, fun _ => ?_⟩
    · simp [Deed.entries, Entry.line, Phase.run, Phase.step]
    · rw [Deed.apply, Table.take_slot]
      exact ⟨rfl, rfl⟩
  | lost i =>
    refine h.taken (i := i) hn (hb rfl) haside (by simp [Deed.entries]) rfl
      (fun j hj => (Table.put_slot_of_ne hj).trans (Table.take_slot_of_ne hj))
      ⟨.fresh, rfl, fun hu => absurd ?_ hu⟩
    simp [Deed.apply, Table.free, Channel.zero]
  | confirmed i peer window packet =>
    refine h.named hn he.1.used haside (by simp [Deed.entries, Entry.line, Event.channelId?]) rfl
      (fun _ => Table.put_slot_of_ne) fun p hp => ?_
    obtain ⟨rfl, hr⟩ := Channel.phase_of_opening he.2 hp
    refine ⟨.live, by simp [Deed.entries, Entry.line, Event.channelId?, Phase.run, Phase.step],
      fun _ => ?_⟩
    rw [Deed.apply, Table.put_slot]
    exact ⟨rfl, by simp [Channel.phase, hr]⟩
  | failed i =>
    refine h.named hn he.1.used haside (by simp [Deed.entries, Entry.line, Event.channelId?]) rfl
      (fun _ => Table.put_slot_of_ne) fun p hp => ?_
    obtain ⟨rfl, -⟩ := Channel.phase_of_opening he.2 hp
    exact ⟨.gone, by simp [Deed.entries, Entry.line, Event.channelId?, Phase.run, Phase.step],
      fun hu => absurd (by simp [Deed.apply, Table.free, Channel.zero]) hu⟩
  | data i payload =>
    refine h.named hn he.1.used haside (by simp [Deed.entries, Entry.line, Event.channelId?]) rfl
      (fun _ => Table.put_slot_of_ne) fun p hp' => ?_
    obtain rfl := Channel.phase_of_open he.2.1 hp'
    have hr : (c.table.slot i).remoteEof = false := hp
    refine ⟨.live, by simp [Deed.entries, Entry.line, Event.channelId?, Phase.run, Phase.step, hr],
      fun _ => ?_⟩
    rw [Deed.apply, Table.put_slot]
    exact ⟨rfl, by simp [Channel.phase, hr, he.2.1]⟩
  | credit i add =>
    refine h.named hn he.1.used haside (by simp [Deed.entries, Entry.line, Event.channelId?]) rfl
      (fun _ => Table.put_slot_of_ne) fun p hp' => ?_
    refine ⟨p, ?_, fun _ => ?_⟩
    · obtain rfl := Channel.phase_of_open he.2 hp'
      cases hr : (c.table.slot i).remoteEof <;>
        simp [Deed.entries, Entry.line, Event.channelId?, Phase.run, Phase.step]
    · rw [Deed.apply, Table.put_slot]
      exact ⟨rfl, hp'⟩
  | eof i =>
    refine h.named hn he.used haside (by simp [Deed.entries, Entry.line, Event.channelId?]) rfl
      (fun _ => Table.put_slot_of_ne) fun p hp' => ?_
    obtain ⟨ho, hr⟩ : (c.table.slot i).state = .open_ ∧ (c.table.slot i).remoteEof = false := hp
    obtain rfl := Channel.phase_of_open ho hp'
    refine ⟨.halved,
      by simp [Deed.entries, Entry.line, Event.channelId?, Phase.run, Phase.step, hr],
      fun _ => ?_⟩
    rw [Deed.apply, Table.put_slot]
    exact ⟨rfl, by simp [Channel.phase, ho]⟩
  | closed i =>
    refine h.named hn he.used haside (by simp [Deed.entries, Entry.line, Event.channelId?]) rfl
      (fun _ => Table.put_slot_of_ne) fun p hp' => ⟨.gone, ?_, fun hu => absurd ?_ hu⟩
    · simp [Deed.entries, Entry.line, Event.channelId?, Phase.run, Channel.phase_closable hp']
    · simp [Deed.apply, Table.free, Channel.zero]
  | accept i =>
    refine h.named hn he.1.used haside (by simp [Deed.entries, Entry.line, Event.channelId?]) rfl
      (fun _ => Table.put_slot_of_ne) fun p hp' => ?_
    obtain ⟨rfl, hr⟩ := Channel.phase_of_pending he.2 hp'
    refine ⟨.live, by simp [Deed.entries, Entry.line, Event.channelId?, Phase.run, Phase.step],
      fun _ => ?_⟩
    rw [Deed.apply, Table.put_slot]
    exact ⟨rfl, by simp [Channel.phase, hr]⟩
  | send i payload | shut i | grant i add =>
    refine h.silent haside (by simp [Deed.entries, Entry.line]) rfl fun j hj => ?_
    by_cases hji : j = i
    · subst hji
      rw [Deed.apply, Table.put_slot]
      exact ⟨he.1.used, rfl, rfl⟩
    · rw [Deed.apply, Table.put_slot_of_ne hji] at hj ⊢
      exact ⟨hj, rfl, rfl⟩
  | reject i | close i told =>
    refine h.silent haside ?_ rfl fun j hj => ?_
    · simp only [Deed.entries]
      try split
      all_goals simp [Entry.line]
    · by_cases hji : j = i
      · subst hji
        exact absurd (by simp [Deed.apply, Table.free, Channel.zero]) hj
      · have hs : ((c.table.free i).slot j) = c.table.slot j := Table.put_slot_of_ne hji
        rw [Deed.apply, hs] at hj ⊢
        exact ⟨hj, rfl, rfl⟩

/-! ### The event queue -/

def Ctx.roomy (c : Ctx Rng SS) : Prop := c.events.count < c.events.cap

instance (c : Ctx Rng SS) : Decidable c.roomy := inferInstanceAs (Decidable (_ < _))

/-- No channel event was emitted. -/
def Mute (c c' : Ctx Rng SS) : Prop :=
  ∃ l, c'.hist = c.hist ++ l ∧ ∀ o ∈ l, o.isChannel = false

/-- A channel event was lost only if the queue was full at first. -/
def Tells (c c' : Ctx Rng SS) : Prop :=
  ∃ l, c'.hist = c.hist ++ l ∧ ∀ ev, .dropped ev ∈ l → ev.isChannel → ¬ c.roomy

theorem Occ.isChannel_entry {o : Occ} (h : o.isChannel) : ∃ ev, o.toEntry = some (.event ev) := by
  cases o with
  | queued ev | dropped ev => exact ⟨ev, if_pos h⟩
  | _ => cases h

namespace Mute

theorem refl (c : Ctx Rng SS) : Mute c c := ⟨[], by simp, by simp⟩

theorem same (h : c'.hist = c.hist) : Mute c c' := ⟨[], by simp [h], by simp⟩

theorem trans (h : Mute c c') (h' : Mute c' c'') : Mute c c'' := by
  obtain ⟨l, hl, ho⟩ := h
  obtain ⟨l', hl', ho'⟩ := h'
  refine ⟨l ++ l', by rw [hl', hl, List.append_assoc], fun o hm => ?_⟩
  rcases List.mem_append.mp hm with hm | hm
  · exact ho o hm
  · exact ho' o hm

theorem of_entries {l : List Entry} (h : ∃ k, c'.hist = c.hist ++ k ∧ k.filterMap Occ.toEntry = l)
    (hl : ∀ ev, Entry.event ev ∉ l) : Mute c c' := by
  obtain ⟨k, hk, he⟩ := h
  refine ⟨k, hk, fun o ho => ?_⟩
  cases hc : o.isChannel with
  | false => rfl
  | true =>
    obtain ⟨ev, hev⟩ := Occ.isChannel_entry hc
    exact absurd (he ▸ List.mem_filterMap.mpr ⟨o, ho, hev⟩) (hl ev)

theorem rest (h : Rest [] c c') : Mute c c' := of_entries h.hist (by simp)

theorem setError (code : Rc) (msg : String) : Mute c (setError c code msg) :=
  rest (.failed code msg)

theorem send (plain : Bytes) : Mute c (ssSendPdu E c plain).1 := by
  obtain ⟨st, ct, -, -, h⟩ | ⟨b, o, rc, -, -, -, h⟩ := ssSendPdu_cases E c plain <;> rw [h]
  · exact ⟨[.sent plain, .appended (rawFrame ct)], rfl, by simp [Occ.isChannel]⟩
  · exact same rfl

theorem tells (h : Mute c c') : Tells c c' := by
  obtain ⟨l, hl, ho⟩ := h
  exact ⟨l, hl, fun ev hm hev => absurd (ho _ hm) (by simpa [Occ.isChannel] using hev)⟩

end Mute

namespace Tells

theorem emit (ev : Event) : Tells c (emit c ev) := by
  rw [emit_eq]
  refine ⟨[emitOcc c ev], rfl, fun ev' hm _ hr => ?_⟩
  unfold emitOcc at hm
  rw [if_pos (RingBuffer.push_isSome_iff.mpr hr)] at hm
  simp at hm

theorem before (he : c'.events = c.events) (h : Mute c c') (h' : Tells c' c'') : Tells c c'' := by
  obtain ⟨l, hl, ho⟩ := h
  obtain ⟨l', hl', ho'⟩ := h'
  refine ⟨l ++ l', by rw [hl', hl, List.append_assoc], fun ev hm hev => ?_⟩
  rcases List.mem_append.mp hm with hm | hm
  · exact absurd (ho _ hm) (by simpa [Occ.isChannel] using hev)
  · have := ho' ev hm hev
    rwa [Ctx.roomy, he] at this

theorem after (h : Tells c c') (h' : Mute c' c'') : Tells c c'' := by
  obtain ⟨l, hl, ho⟩ := h
  obtain ⟨l', hl', ho'⟩ := h'
  refine ⟨l ++ l', by rw [hl', hl, List.append_assoc], fun ev hm hev => ?_⟩
  rcases List.mem_append.mp hm with hm | hm
  · exact ho ev hm hev
  · exact absurd (ho' _ hm) (by simpa [Occ.isChannel] using hev)

theorem change (i : Fin maxChannelSlots) (ch : Channel) (ev : Event) :
    Tells c (Sodchan.emit (setCh c i ch) ev) :=
  .before (rfl : (setCh c i ch).events = c.events) (.same rfl) (.emit ev)

theorem unknown (r : UInt32) (code : Rc) (msg : String) :
    Tells c (setError (c.log (.noChannel r)) code msg) := by
  have hlog : Mute c (c.log (.noChannel r)) := .rest (Rest.log (.noChannel r))
  exact (hlog.trans (.setError code msg)).tells

theorem freed (ev : Event) (i : Fin maxChannelSlots) : Tells c (chFree (Sodchan.emit c ev) i) := by
  refine (emit ev).after ?_
  unfold chFree
  split
  · exact .refl _
  · exact .same rfl

end Tells

theorem sendReply_mute (reply : Except Rc Bytes) : Mute c (sendReply E c reply) := by
  unfold sendReply
  split <;> exact .send _

theorem handleMuxPdu_tells (plain : Bytes) : Tells c (handleMuxPdu E c plain).1 := by
  unfold handleMuxPdu
  dsimp only
  split_ifs
  · unfold muxChannelOpen
    split
    · exact (Mute.setError _ _).tells
    · dsimp only
      split
      · exact (sendReply_mute _).tells
      · split
        · exact (sendReply_mute _).tells
        · rename_i d i ha
          obtain ⟨-, -, rfl⟩ := chAlloc_eq_some ha
          exact .before (rfl : (c.allocated i).events = c.events) (.same rfl) (.change _ _ _)
  · unfold muxChannelOpenConfirm
    split
    · exact (Mute.setError _ _).tells
    · split
      · exact .unknown _ _ _
      · split
        · exact (Mute.setError _ _).tells
        · exact .change _ _ _
  · unfold muxChannelOpenFail
    split
    · exact (Mute.setError _ _).tells
    · split
      · exact (Mute.refl c).tells
      · split
        · exact .freed _ _
        · exact (Mute.refl c).tells
  · unfold muxChannelData
    split
    · exact (Mute.setError _ _).tells
    · split
      · exact .unknown _ _ _
      · dsimp only
        split_ifs
        · exact (Mute.setError _ _).tells
        · exact (Mute.setError _ _).tells
        · exact (Mute.setError _ _).tells
        · exact (Mute.setError _ _).tells
        · exact .change _ _ _
  · unfold muxChannelWindow
    split
    · exact (Mute.setError _ _).tells
    · split
      · exact (Mute.refl c).tells
      · dsimp only
        split
        · exact (Mute.refl c).tells
        · exact .change _ _ _
  · unfold muxChannelEof
    split
    · exact (Mute.setError _ _).tells
    · split
      · exact (Mute.refl c).tells
      · exact .change _ _ _
  · unfold muxChannelClose
    split
    · exact (Mute.setError _ _).tells
    · split
      · exact (Mute.refl c).tells
      · exact .freed _ _
  · exact (Mute.rest (muxPing_rest plain)).tells
  · exact (Mute.refl c).tells
  · exact (Mute.rest (muxDisconnect_rest plain)).tells
  · exact (Mute.setError _ _).tells

theorem handlePlain_tells (plain : Bytes) (tag : UInt8) :
    Tells c (handlePlain E c plain tag).1 := by
  unfold handlePlain
  split
  · have h : ∀ d : Ctx Rng SS, Rest [] d { d with state := .closed } := fun _ =>
      .same rfl rfl rfl rfl
    exact (Mute.rest ((Rest.event (.disconnected 0 []) rfl).then_ (h _))).tells
  · split
    · exact (Mute.refl c).tells
    · split
      · exact (Mute.refl c).tells
      · split
        · exact (Mute.setError _ _).tells
        · split
          · split_ifs
            · exact (Mute.rest (handleAuthDevicePdu_rest plain)).tells
            · exact (Mute.rest (handleAuthOkPdu_rest plain)).tells
            · exact (Mute.rest (handleAuthFailPdu_rest plain)).tells
            · exact (Mute.setError _ _).tells
          · split
            · exact handleMuxPdu_tells plain
            · exact (Mute.setError _ _).tells

theorem handleFrame_tells (body : Bytes) : Tells c (handleFrame E c body).1 := by
  unfold handleFrame
  split
  · exact (Mute.rest (handlePeerHello_rest body)).tells
  · obtain h | ⟨pdu, -, h⟩ := handlePeerSsHeader_rest (E := E) (c := c) body
    · exact (Mute.rest h).tells
    · exact (Mute.of_entries h.hist (by simp)).tells
  · obtain ⟨code, msg, h⟩ | ⟨st, plain, tag, -, -, -, h⟩ :=
      handleEncryptedPdu_cases E c body <;> rw [h]
    · exact (Mute.setError _ _).tells
    · exact .before (rfl : (c.afterPull st body plain tag).events = c.events)
        ⟨[.pulled body plain tag], rfl, by simp [Occ.isChannel]⟩ (handlePlain_tells plain tag)
  · exact (Mute.setError _ _).tells

theorem processOne_tells (E : Env Rng SS) (c : Ctx Rng SS) : Tells c (processOne E c).state := by
  obtain ⟨-, h⟩ | ⟨-, -, -, h⟩ | ⟨k, body, d, -, -, -, h⟩ := processOne_cases E c
  · rw [h]
    exact (Mute.refl c).tells
  · rw [h]
    exact (Mute.setError _ _).tells
  · have hf := handleFrame_tells (E := E) (c := c.log (.frame (rawFrame body))) body
    have hall : Tells c (handleFrame E (c.log (.frame (rawFrame body))) body).1 :=
      .before (rfl : (c.log (.frame (rawFrame body))).events = c.events)
        (.rest (Rest.log (.frame (rawFrame body)))) hf
    rcases h with ⟨hh, h⟩ | ⟨hh, h⟩ <;> rw [h] <;> rw [hh] at hall
    · exact hall.after (.same rfl)
    · exact hall

theorem channelAccept_tells (id : UInt32) (accept : Bool) :
    Tells c (channelAccept E c id accept).1 := by
  have hsend : ∀ {pdu : Bytes} {d : Ctx Rng SS} {rc : Rc}, ssSendPdu E c pdu = (d, rc) →
      d.events = c.events ∧ Mute c d := by
    intro pdu d rc h
    have hm := Mute.send (E := E) (c := c) pdu
    rw [h] at hm
    refine ⟨?_, hm⟩
    obtain ⟨st, ct, -, -, he⟩ | ⟨b, o, rc', -, -, -, he⟩ := ssSendPdu_cases E c pdu <;>
      rw [h] at he <;> rw [(Prod.mk.inj he).1]
    · rfl
  unfold channelAccept
  split
  · exact (Mute.refl c).tells
  · split
    · exact (Mute.refl c).tells
    · dsimp only
      split
      · exact (Mute.refl c).tells
      · split
        · exact (Mute.refl c).tells
        · split
          · split
            · exact (Mute.refl c).tells
            · split <;> rename_i he
              · exact .before (hsend he).1 (hsend he).2 (.change _ _ _)
              · exact (hsend he).2.tells
          · split
            · exact (Mute.refl c).tells
            · split <;> rename_i he
              · have hfree : ∀ (d : Ctx Rng SS) i, Mute d (chFree d i) := by
                  intro d i
                  unfold chFree
                  split
                  · exact .refl _
                  · exact .same rfl
                exact ((hsend he).2.trans (hfree _ _)).tells
              · exact (hsend he).2.tells

theorem call_tells {k : Call} (hk : k.isPlain) : Tells c (call E c k).1 := by
  by_cases ha : ∃ id accept, k = .channelAccept id accept
  · obtain ⟨id, accept, rfl⟩ := ha
    have hlog : ∀ d : Ctx Rng SS, Mute d (d.log (.did (.channelAccept id accept))) :=
      fun d => ⟨[_], rfl, by simp [Occ.isChannel]⟩
    simp only [Sodchan.call]
    unfold record
    split
    · exact (channelAccept_tells id accept).after (hlog _)
    · exact channelAccept_tells id accept
  · obtain ⟨a, hs, -, hd⟩ := call_obeys (E := E) hk c
    refine (Mute.of_entries hd.hist fun ev hev => ?_).tells
    cases a with
    | close i told =>
      simp only [Deed.entries] at hev
      split at hev <;> simp at hev
    | accept i => exact ha ⟨_, _, hs⟩
    | offered | confirmed | failed | data | credit | eof | closed => exact hs
    | _ => simp [Deed.entries] at hev

/-! ### Runs -/

/-- A PDU of a peer that keeps to the protocol, at a moment when its event can be queued. -/
structure Orderly (c : Ctx Rng SS) (p : Pdu) : Prop where
  room : p ≠ .other → c.roomy
  ids : ∀ peer window packet name, p = .channelOpen peer window packet name → c.allocs < 2 ^ 32
  eof : ∀ id i, p = .channelEof id → chByLocal c id = some i →
    (c.channels i).state = .open_ ∧ (c.channels i).remoteEof = false
  data : ∀ id payload i, p = .channelData id payload → chByLocal c id = some i →
    (c.channels i).remoteEof = false

def orderlyB (c : Ctx Rng SS) : Pdu → Bool
  | .other => true
  | .channelOpen .. => decide (c.roomy ∧ c.allocs < 2 ^ 32)
  | .channelEof id => decide (c.roomy ∧ ∀ i ∈ chByLocal c id,
      (c.channels i).state = .open_ ∧ (c.channels i).remoteEof = false)
  | .channelData id _ =>
    decide (c.roomy ∧ ∀ i ∈ chByLocal c id, (c.channels i).remoteEof = false)
  | _ => decide c.roomy

theorem orderlyB_iff (c : Ctx Rng SS) (p : Pdu) : orderlyB c p = true ↔ Orderly c p := by
  constructor
  · intro h
    constructor
    · intro hp
      cases p with
      | other => exact absurd rfl hp
      | channelOpen | channelEof | channelData => exact (of_decide_eq_true h).1
      | _ => exact of_decide_eq_true h
    · rintro peer window packet name rfl
      exact (of_decide_eq_true h).2
    · rintro id i rfl hi
      exact (of_decide_eq_true h).2 i hi
    · rintro id payload i rfl hi
      exact (of_decide_eq_true h).2 i hi
  · intro h
    cases p with
    | other => rfl
    | channelOpen => exact decide_eq_true ⟨h.room (by rintro ⟨⟩), h.ids _ _ _ _ rfl⟩
    | channelEof => exact decide_eq_true ⟨h.room (by rintro ⟨⟩), fun i => h.eof _ i rfl⟩
    | channelData => exact decide_eq_true ⟨h.room (by rintro ⟨⟩), fun i => h.data _ _ i rfl⟩
    | _ => exact decide_eq_true (h.room (by rintro ⟨⟩))

instance (c : Ctx Rng SS) (p : Pdu) : Decidable (Orderly c p) :=
  decidable_of_iff _ (orderlyB_iff c p)

/-- The next record, if the channel layer gets it, is orderly. -/
def OrderlyRound (E : Env Rng SS) (c : Ctx Rng SS) : Prop :=
  c.state = .ready ∨ c.state = .draining → ∀ plain, c.dispatches E plain →
    Orderly c (Pdu.ofBytes plain)

instance : DecidablePred (OrderlyRound E) := fun c =>
  inferInstanceAs (Decidable (_ → ∀ plain, c.dispatches E plain → Orderly c (Pdu.ofBytes plain)))

/-- An accept finds room for its event, and an open an id. -/
structure OrderlyCall (c : Ctx Rng SS) (k : Call) : Prop where
  accept : ∀ id, k = .channelAccept id true → c.roomy
  open_ : ∀ name, k = .channelOpen name → c.allocs < 2 ^ 32

def orderlyCallB (c : Ctx Rng SS) : Call → Bool
  | .channelAccept _ true => decide c.roomy
  | .channelOpen _ => decide (c.allocs < 2 ^ 32)
  | _ => true

theorem orderlyCallB_iff (c : Ctx Rng SS) (k : Call) :
    orderlyCallB c k = true ↔ OrderlyCall c k := by
  constructor
  · intro h
    constructor <;> rintro _ rfl <;> simpa [orderlyCallB] using h
  · rintro ⟨haccept, hopen⟩
    unfold orderlyCallB
    split <;> simp_all

instance (c : Ctx Rng SS) (k : Call) : Decidable (OrderlyCall c k) :=
  decidable_of_iff _ (orderlyCallB_iff c k)

/-- The lines agree with the table, and no channel event was lost. -/
structure Disciplined (c : Ctx Rng SS) : Prop where
  numbered : Numbered c.table
  told : Told c.table c.entries
  heard : ∀ ev, .dropped ev ∈ c.hist → ev.isChannel = false

namespace Disciplined

theorem fresh (ht : c.table = .empty) (he : c.entries = []) : Disciplined c := by
  refine ⟨ht ▸ .empty, ht ▸ he ▸ .empty, fun ev hm => ?_⟩
  cases hc : ev.isChannel with
  | false => rfl
  | true =>
    have hev : Entry.event ev ∈ c.entries :=
      List.mem_filterMap.mpr ⟨.dropped ev, hm, if_pos hc⟩
    rw [he] at hev
    cases hev

theorem congr (h : Disciplined c) (ht : c'.table = c.table) (hh : c'.hist = c.hist) :
    Disciplined c' := by
  refine ⟨ht ▸ h.numbered, ?_, hh ▸ h.heard⟩
  rw [ht, Ctx.entries, hh]
  exact h.told

/-- What a step preserves whose deed is polite, finds an id and has room for its event. -/
theorem step {l : Label} (h : Disciplined c) (ha : StepDeed l c c' a) (ht : Tells c c')
    (hp : a.Polite c.table) (hb : a.allocates → c.allocs < 2 ^ 32)
    (hr : ∀ ev, Entry.event ev ∈ a.entries c.terms c.table → c.roomy) : Disciplined c' := by
  obtain ⟨aside, hheard, hen, htable, -, hentries⟩ := ha.deals
  obtain ⟨k, hk, hlost⟩ := ht
  refine ⟨?_, ?_, fun ev hm => ?_⟩
  · rw [htable]
    exact h.numbered.apply hen hb
  · rw [htable, hentries]
    exact told_deed h.told h.numbered hheard hen hp hb
  · rw [hk] at hm
    rcases List.mem_append.mp hm with hm | hm
    · exact h.heard ev hm
    · cases hc : ev.isChannel with
      | false => rfl
      | true =>
        have hnews : k.filterMap Occ.toEntry = aside ++ a.entries c.terms c.table := by
          have he := hentries
          rw [Ctx.entries, hk, List.filterMap_append, List.append_assoc] at he
          exact List.append_cancel_left he
        have hev : Entry.event ev ∈ aside ++ a.entries c.terms c.table :=
          hnews ▸ List.mem_filterMap.mpr ⟨.dropped ev, hm, if_pos hc⟩
        rcases List.mem_append.mp hev with hev | hev
        · exact absurd (hheard.aside _ hev) not_false
        · exact absurd (hr ev hev) (hlost ev hm hc)

theorem call {k : Call} (h : Disciplined c) (hg : OrderlyCall c k) (hk : k.isPlain) :
    Disciplined (call E c k).1 := by
  obtain ⟨a, ha⟩ := call_obeys (E := E) hk c
  have hs := ha.1
  refine h.step (.call ha) (call_tells hk) ?_ (fun hb => ?_) (fun ev hev => ?_)
  · cases a with
    | eof | data => exact absurd hs not_false
    | _ => trivial
  · cases a with
    | open_ i name => exact hg.open_ _ hs
    | lost i =>
      obtain ⟨name, rfl⟩ := hs
      exact hg.open_ _ rfl
    | offered => exact absurd hs not_false
    | _ => cases hb
  · cases a with
    | accept i => exact hg.accept _ hs
    | offered | confirmed | failed | data | credit | eof | closed => exact absurd hs not_false
    | close i told =>
      simp only [Deed.entries] at hev
      split at hev <;> simp at hev
    | _ => simp [Deed.entries] at hev

theorem round (h : Disciplined c) (hg : OrderlyRound E c) :
    Disciplined (processOne E c).state := by
  obtain ⟨a, ha, hsrc⟩ := processOne_deed E c
  have hdeed : StepDeed .round c (processOne E c).state a := .round ha
  rcases hsrc with rfl | ⟨body, plain, hd, htakes⟩
  · exact h.step hdeed (processOne_tells E c) trivial (by rintro ⟨⟩) (by simp [Deed.entries])
  · obtain ⟨-, -, hen, -⟩ := hdeed.deals
    rcases hdeed.idle with rfl | hst
    · exact h.step hdeed (processOne_tells E c) trivial (by rintro ⟨⟩) (by simp [Deed.entries])
    · have ho := hg hst plain hd.dispatches
      refine h.step hdeed (processOne_tells E c) ?_ (fun hb => ?_) (fun ev hev => ho.room ?_)
      · cases a with
        | eof i => exact ho.eof _ i htakes hen
        | data i payload => exact ho.data _ _ i htakes hen.1
        | _ => trivial
      · cases a with
        | offered i peer window packet name => exact ho.ids _ _ _ _ htakes
        | open_ | lost => exact absurd htakes not_false
        | _ => cases hb
      · intro hother
        rw [hother] at htakes
        cases a <;> simp [Deed.Takes, Deed.entries] at htakes hev

theorem line (h : Disciplined c) (id : UInt32) :
    c.line id = c.entries.filter fun e => e.line = some id := by
  have hs : c.hist.filterMap Occ.stored? = c.entries := by
    refine List.filterMap_congr fun o ho => ?_
    cases o with
    | dropped ev => simp [Occ.stored?, Occ.toEntry, h.heard ev ho]
    | _ => rfl
  rw [Ctx.line, hs]

end Disciplined

/-- Only an accept opens a channel of the peer. -/
theorem pending_opened {l : Label} (hs : Step E l c c') {i : Fin maxChannelSlots}
    (hp : (c.channels i).state = .pending) (ho : (c'.channels i).state = .open_) :
    l = .call (.channelAccept (c.channels i).localId true) := by
  obtain ⟨a, ha⟩ := hs.deed
  obtain ⟨aside, hheard, hen, htable, -, -⟩ := ha.deals
  have hslot : ((a.apply c.terms c.table).slot i).state = .open_ := htable ▸ ho
  have hpend : (c.table.slot i).state = .pending := hp
  have hput : ∀ {k : Fin maxChannelSlots} {ch : Channel},
      ((c.table.put k ch).slot i).state = .open_ → i = k := by
    intro k ch h
    by_contra hik
    rw [Table.put_slot_of_ne hik, hpend] at h
    cases h
  cases a with
  | idle | refused =>
    rw [Deed.apply, hpend] at hslot
    cases hslot
  | accept k =>
    obtain rfl := hput hslot
    cases ha with
    | call h => exact congrArg Label.call h.1
    | round h =>
      cases h with
      | took plain a _ _ h => exact absurd h.1 not_false
  | offered k | open_ k =>
    obtain rfl := hput hslot
    rw [hen.1] at hpend
    cases hpend
  | lost k =>
    by_cases hik : i = k
    · subst hik
      rw [show (c.table.slot i).state = .unused from hen] at hpend
      cases hpend
    · rw [Deed.apply, Table.free, Table.put_slot_of_ne hik, Table.take_slot_of_ne hik,
        hpend] at hslot
      cases hslot
  | confirmed k | data k | credit k | send k | shut k | grant k =>
    obtain rfl := hput hslot
    have hstate := hen.2
    simp [hpend] at hstate
  | eof k =>
    obtain rfl := hput hslot
    rw [Deed.apply, Table.put_slot, hpend] at hslot
    cases hslot
  | failed k | closed k | reject k | close k told =>
    obtain rfl := hput hslot
    rw [Deed.apply, Table.free, Table.put_slot] at hslot
    cases hslot

/-- As long as the peer sends EOF only once, for an open channel and behind all data, and events
find room and channels an id, the events of every channel follow the automaton. -/
theorem events_follow_protocol
    (h : ReachableUnder E (fun c k => OrderlyCall c k ∧ RoundsMeet E (OrderlyRound E) c k) c) :
    (∀ id, (Phase.fresh.run (c.line id)).isSome) ∧
      ∀ l c' i, Step E l c c' → (c.channels i).state = .pending →
        (c'.channels i).state = .open_ →
        l = .call (.channelAccept (c.channels i).localId true) := by
  obtain ⟨role, cfg, rng, memOk, c₀, l, hc, hr⟩ := h
  have hd : Disciplined c :=
    hr.preserves_rounds (P := Disciplined)
      (fun d _ _ => .fresh (reset_table d).1 (reset_table (E := E) d).2.2)
      (fun d k hd hg hk => hd.call hg hk) (fun d data hd _ => hd.congr rfl rfl)
      (fun d hd hg => hd.round hg) (.fresh (create_table hc).1 (create_table hc).2.1)
  refine ⟨fun id => ?_, fun l c' i hs => pending_opened hs⟩
  obtain ⟨p, hp, -⟩ := hd.told id
  rw [hd.line, hp]
  rfl

/-- A channel of the peer from its OPEN to its CLOSE. -/
def plainCourse : List Call :=
  plainOneChannel ++ [.feedInput (plainRecord plainByte), .feedInput (plainRecord (plainWindow 1)),
    .feedInput (plainRecord [pduChannelEof, 0, 0, 0, 0]), .channelSend 0 (.buf [7]) true,
    .feedInput (plainRecord [pduChannelClose, 0, 0, 0, 0])]

theorem events_follow_protocol_plain :
    (play plainEnv plainServerStart plainCourse).line 0 =
      [.event (.channelOpen 0 0 (ascii "tun") 0 65536),
        .sent (.channelOpenConfirm 0 0 262144 65536),
        .event (.channelOpened 0 0 (ascii "tun") 262144 65536), .event (.channelData 0 [0]),
        .event (.channelWindow 0 1 1), .event (.channelEof 0), .event (.channelClose 0)] ∧
      (Phase.fresh.run ((play plainEnv plainServerStart plainCourse).line 0)).isSome := by
  refine ⟨by decide +kernel, (events_follow_protocol (.of_observedB create_plainServer ?_)).1 0⟩
  decide +kernel

/-- EOF for a channel that is not open yet. -/
theorem eof_before_opened :
    ¬ ∀ c : Ctx Unit Unit, Reachable plainEnv c → ∀ id, (Phase.fresh.run (c.line id)).isSome := by
  intro h
  have hc := h _ (reachable_play create_plainServer [.feedInput plainKx,
    .feedInput (plainRecord (plainAuthDevice (BytesN.zero 64))), .authDecide true,
    .feedInput (plainRecord plainOpen), .feedInput (plainRecord [pduChannelEof, 0, 0, 0, 0])]) 0
  revert hc
  decide +kernel

end Sodchan
