import Sodchan.Channel.Drain

/-! # Credit

A ledger keeps one account for each slot, from the history alone: what was
offered, granted and received in one direction, what was allowed, credited and
sent in the other. Both windows are words that may wrap, which only takes
credit away, so no account is ever overdrawn, whatever the peer sends.
-/

namespace Sodchan

open ByteString

variable {Rng SS : Type} {E : Env Rng SS} {c c' : Ctx Rng SS} {a : Deed}

/-- The account of a channel. -/
structure Balance where
  /-- The window advertised to the peer, the credit granted since, and the data accepted. -/
  offered : ℕ
  granted : ℕ
  received : ℕ
  /-- The window and the packet size the peer advertised, its credit, and the data sent. -/
  allowed : ℕ
  packet : ℕ
  credited : ℕ
  sent : ℕ
  /-- The longest payload of a single send. -/
  largest : ℕ

/-- The channel that an entry is about. -/
def Entry.about : Entry → Option UInt32
  | .sent (.channelOpenConfirm sender _ _ _) => some sender
  | .took (.channelOpenConfirm _ recipient _ _) => some recipient
  | .event (.channelData id _) | .event (.channelWindow id _ _) => some id
  | .spent id _ | .granted id _ => some id
  | _ => none

namespace Balance

def zero : Balance := ⟨0, 0, 0, 0, 0, 0, 0, 0⟩

/-- Book an entry about a channel in the given state. -/
def book (t : Terms) (st : ChState) (b : Balance) : Entry → Balance
  | .sent (.channelOpen _ window _ _) | .sent (.channelOpenConfirm _ _ window _) =>
    { b with offered := window.toNat }
  | .took (.channelOpen _ window packet _) =>
    { b with allowed := window.toNat, packet := (Deed.packetOf t packet).toNat }
  | .took (.channelOpenConfirm _ _ window packet) =>
    if st = .opening then
      { b with allowed := window.toNat, packet := (Deed.packetOf t packet).toNat }
    else b
  | .event (.channelData _ payload) => { b with received := b.received + payload.length }
  | .event (.channelWindow _ add _) => { b with credited := b.credited + add.toNat }
  | .spent _ n => { b with sent := b.sent + n, largest := max b.largest n }
  | .granted _ add => { b with granted := b.granted + add.toNat }
  | _ => b

/-- Neither direction is overdrawn, and no send is larger than it may be. -/
structure Sound (b : Balance) : Prop where
  received : b.received ≤ b.offered + b.granted
  sent : b.sent ≤ b.allowed + b.credited
  packet : b.largest ≤ b.packet
  data : b.largest ≤ dataMax

end Balance

def Ctx.news (c c' : Ctx Rng SS) : List Entry := c'.entries.drop c.entries.length

/-- The account of a slot when the table changes from `s` to `s'` and `l` is said: a slot that
comes into use starts with `l`, and a slot in use books what is said about its channel. -/
def Balance.next (t : Terms) (s s' : Table) (l : List Entry) (b : Balance)
    (i : Fin maxChannelSlots) : Balance :=
  if (s.slot i).state = .unused then
    if (s'.slot i).state = .unused then b else l.foldl (book t .unused) zero
  else (l.filter fun e => e.about.bind s.find = some i).foldl (book t (s.slot i).state) b

def accounts (c c' : Ctx Rng SS) (b : Fin maxChannelSlots → Balance) :
    Fin maxChannelSlots → Balance :=
  fun i => (b i).next c.terms c.table c'.table (c.news c') i

/-- The accounts of a session, kept from its creation step by step. -/
inductive Ledger (E : Env Rng SS) : Ctx Rng SS → (Fin maxChannelSlots → Balance) → Prop where
  | create {role : Role} {cfg : Option Config} {rng : Rng} {memOk : Bool} {c : Ctx Rng SS} :
      create E role cfg rng memOk = some c → Ledger E c fun _ => .zero
  | reset {c : Ctx Rng SS} {b : Fin maxChannelSlots → Balance} : Ledger E c b →
      Ledger E (reset E c) fun _ => .zero
  | step {l : Label} {c c' : Ctx Rng SS} {b : Fin maxChannelSlots → Balance} : Ledger E c b →
      Step E l c c' → Ledger E c' (accounts c c' b)

/-- How the account of a slot agrees with its windows. -/
structure Kept (ch : Channel) (b : Balance) : Prop where
  sound : b.Sound
  opening : ch.state = .opening → b.offered = ch.recvWindow.toNat ∧ b.received = 0 ∧
    b.sent = 0 ∧ b.largest = 0
  pending : ch.state = .pending → b.received = 0 ∧
    ch.sendWindow.toNat + b.sent ≤ b.allowed + b.credited ∧ b.packet = ch.maxPacket.toNat
  open_ : ch.state = .open_ → ch.recvWindow.toNat + b.received ≤ b.offered + b.granted ∧
    ch.sendWindow.toNat + b.sent ≤ b.allowed + b.credited ∧ b.packet = ch.maxPacket.toNat

theorem Kept.unused {b : Balance} {ch : Channel} (h : b.Sound) (hu : ch.state = .unused) :
    Kept ch b := by
  constructor <;> simp [hu, h]

theorem Balance.zero_sound : Balance.zero.Sound := ⟨Nat.le_refl 0, Nat.le_refl 0, Nat.le_refl 0,
  Nat.zero_le _⟩

section Steps

variable {t : Terms} {s s' : Table} {l : List Entry} {b : Balance} {i j : Fin maxChannelSlots}
  {ch : Channel}

theorem next_used (h : (s.slot i).state ≠ .unused) : b.next t s s' l i =
    (l.filter fun e => e.about.bind s.find = some i).foldl (Balance.book t (s.slot i).state) b :=
  if_neg h

theorem next_fresh (h : (s.slot i).state = .unused) (h' : (s'.slot i).state ≠ .unused) :
    b.next t s s' l i = l.foldl (Balance.book t .unused) .zero :=
  (if_pos h).trans (if_neg h')

theorem next_empty (h : (s.slot i).state = .unused) (h' : (s'.slot i).state = .unused) :
    b.next t s s' l i = b := (if_pos h).trans (if_pos h')

theorem next_same (h : (s.slot i).state = .unused → (s'.slot i).state = .unused)
    (hl : ∀ e ∈ l, e.about.bind s.find ≠ some i) : b.next t s s' l i = b := by
  by_cases hu : (s.slot i).state = .unused
  · exact next_empty hu (h hu)
  · have hf : (l.filter fun e => e.about.bind s.find = some i) = [] :=
      List.filter_eq_nil_iff.mpr fun e he => by simpa using hl e he
    rw [next_used hu, hf]
    rfl

theorem Kept.keep (h : Kept (s.slot i) b) (hs : s'.slot i = s.slot i)
    (hl : ∀ e ∈ l, e.about.bind s.find ≠ some i) : Kept (s'.slot i) (b.next t s s' l i) := by
  rw [next_same (fun hu => by rw [hs, hu]) hl, hs]
  exact h

theorem toNat_sub_le {w : UInt32} {n : ℕ} (h : n ≤ w.toNat) :
    (w - UInt32.ofNat n).toNat + n = w.toNat := by
  have hn : (UInt32.ofNat n).toNat = n := by
    have := w.toNat_lt
    simpa using Nat.mod_eq_of_lt (by omega : n < 2 ^ 32)
  rw [UInt32.toNat_sub_of_le _ _ (UInt32.le_iff_toNat_le.mpr (by omega)), hn]
  omega

theorem toNat_add_le (w v : UInt32) : (w + v).toNat ≤ w.toNat + v.toNat := by
  rw [UInt32.toNat_add]
  exact Nat.mod_le _ _

theorem Table.Named.find_ne (h : s.Named i) (hj : j ≠ i) :
    s.find (s.slot i).localId ≠ some j := by
  rw [show s.find (s.slot i).localId = some i from h]
  exact fun he => hj (Option.some.inj he).symm

theorem next_named (h : s.Named i) {aside : List Entry} (haside : ∀ e ∈ aside, e.about = none)
    (hl : ∀ e ∈ l, e.about = none ∨ e.about = some (s.slot i).localId) :
    b.next t s s' (aside ++ l) i =
      (l.filter fun e => e.about.isSome).foldl (Balance.book t (s.slot i).state) b := by
  have hf : (aside.filter fun e => e.about.bind s.find = some i) = [] :=
    List.filter_eq_nil_iff.mpr fun e he => by simp [haside e he]
  have hc : (l.filter fun e => e.about.bind s.find = some i) =
      l.filter fun e => e.about.isSome := by
    refine List.filter_congr fun e he => ?_
    rcases hl e he with hn | hs
    · simp [hn]
    · rw [hs, Option.bind_some, show s.find (s.slot i).localId = some i from h]
      simp
  rw [next_used h.used, List.filter_append, hf, hc, List.nil_append]

theorem kept_named {b : Fin maxChannelSlots → Balance} (h : ∀ j, Kept (s.slot j) (b j))
    (hn : s.Named i) {aside : List Entry} (haside : ∀ e ∈ aside, e.about = none)
    (hl : ∀ e ∈ l, e.about = none ∨ e.about = some (s.slot i).localId)
    (hother : ∀ j, j ≠ i → s'.slot j = s.slot j)
    (hself : Kept (s'.slot i)
      ((l.filter fun e => e.about.isSome).foldl (Balance.book t (s.slot i).state) (b i)))
    (j : Fin maxChannelSlots) : Kept (s'.slot j) ((b j).next t s s' (aside ++ l) j) := by
  by_cases hj : j = i
  · subst hj
    rwa [next_named hn haside hl]
  · refine (h j).keep (hother j hj) fun e he => ?_
    rcases List.mem_append.mp he with he | he
    · rw [haside e he]
      rintro ⟨⟩
    · rcases hl e he with h | h <;> rw [h]
      · rintro ⟨⟩
      · exact hn.find_ne hj

theorem kept_taken {b : Fin maxChannelSlots → Balance} (h : ∀ j, Kept (s.slot j) (b j))
    (hu : (s.slot i).state = .unused) (hl : ∀ e ∈ l, e.about = none)
    (hother : ∀ j, j ≠ i → s'.slot j = s.slot j)
    (hself : (s'.slot i).state ≠ .unused →
      Kept (s'.slot i) (l.foldl (Balance.book t .unused) .zero))
    (j : Fin maxChannelSlots) : Kept (s'.slot j) ((b j).next t s s' l j) := by
  by_cases hj : j = i
  · subst hj
    by_cases hu' : (s'.slot j).state = .unused
    · rw [next_empty hu hu']
      exact .unused (h j).sound hu'
    · rw [next_fresh hu hu']
      exact hself hu'
  · refine (h j).keep (hother j hj) fun e he => ?_
    rw [hl e he]
    rintro ⟨⟩

end Steps

theorem Asked.about {l : List Entry} (h : Asked c a l)
    (ha : ∀ i peer window packet, a ≠ .confirmed i peer window packet) (hi : a ≠ .idle) :
    ∀ e ∈ l, e.about = none := by
  intro e he
  cases h with
  | nothing | host => cases he
  | proof => exact absurd rfl hi
  | peer p hp =>
    rw [List.mem_singleton.mp he]
    cases p with
    | channelOpenConfirm sender recipient window packet =>
      cases a with
      | idle => exact absurd rfl hi
      | confirmed => exact absurd rfl (ha _ _ _ _)
      | _ => simp [Deed.Takes] at hp
    | _ => rfl

theorem Table.take_slot_of_ne {s : Table} {i j : Fin maxChannelSlots} {ch : Channel}
    (h : j ≠ i) : (s.take i ch).slot j = s.slot j := Table.put_slot_of_ne h

theorem Table.take_slot {s : Table} {i : Fin maxChannelSlots} {ch : Channel} :
    (s.take i ch).slot i = { ch with localId := s.next } := Table.put_slot

section Deeds

variable {aside : List Entry} {b : Fin maxChannelSlots → Balance}

theorem kept_idle (hh : Asked c .idle aside) (h : ∀ i, Kept (c.table.slot i) (b i))
    (j : Fin maxChannelSlots) :
    Kept (c.table.slot j) ((b j).next c.terms c.table c.table aside j) := by
  have hquiet : (∀ e ∈ aside, e.about = none) →
      Kept (c.table.slot j) ((b j).next c.terms c.table c.table aside j) :=
    fun hl => (h j).keep rfl fun e he => by rw [hl e he]; rintro ⟨⟩
  cases hh with
  | nothing | host | proof => exact hquiet (by simp [Entry.about])
  | peer p =>
    cases p with
    | channelOpenConfirm sender recipient window packet =>
      by_cases hr : c.table.find recipient = some j
      · have hu := (Table.find_some hr).1
        have hf : [Entry.took (.channelOpenConfirm sender recipient window packet)].filter
            (fun e => e.about.bind c.table.find = some j) =
              [.took (.channelOpenConfirm sender recipient window packet)] := by
          simp [Entry.about, hr]
        rw [next_used hu, hf]
        simp only [List.foldl_cons, List.foldl_nil, Balance.book]
        split
        · rename_i ho
          obtain ⟨h1, h2, h3, h4⟩ := (h j).opening ho
          refine ⟨⟨(h j).sound.received, ?_, ?_, (h j).sound.data⟩, fun _ => ⟨h1, h2, h3, h4⟩,
            ?_, ?_⟩
          · simp [h3]
          · simp [h4]
          · simp [ho]
          · simp [ho]
        · exact h j
      · exact (h j).keep rfl fun e he => by
          rw [List.mem_singleton.mp he]
          exact hr
    | _ => exact hquiet (by simp [Entry.about])

theorem kept_deed (hh : Asked c a aside) (he : a.Enabled c.terms c.table)
    (h : ∀ i, Kept (c.table.slot i) (b i)) (j : Fin maxChannelSlots) :
    Kept ((a.apply c.terms c.table).slot j)
      ((b j).next c.terms c.table (a.apply c.terms c.table)
        (aside ++ a.entries c.terms c.table) j) := by
  cases a with
  | idle =>
    simp only [Deed.entries, List.append_nil]
    exact kept_idle hh h j
  | refused peer =>
    have haside := hh.about (by simp) (by simp)
    refine (h j).keep rfl fun e hm => ?_
    rcases List.mem_append.mp hm with hm | hm
    · rw [haside e hm]
      rintro ⟨⟩
    · rw [List.mem_singleton.mp hm]
      rintro ⟨⟩
  | offered i peer window packet name =>
    have haside := hh.about (by simp) (by simp)
    cases hh with
    | host k hk => exact absurd hk not_false
    | peer p hp =>
      obtain rfl : p = .channelOpen peer window packet name := hp
      refine kept_taken h he.1 (by simp [Deed.entries, Entry.about])
        (fun _ => Table.take_slot_of_ne) (fun _ => ?_) j
      rw [Table.take_slot]
      exact ⟨⟨le_rfl, Nat.zero_le _, Nat.zero_le _, Nat.zero_le _⟩, (by rintro ⟨⟩),
        fun _ => ⟨rfl, le_rfl, rfl⟩, (by rintro ⟨⟩)⟩
  | open_ i name =>
    cases hh with
    | peer p hp => exact absurd hp not_false
    | host k hk =>
      refine kept_taken h he.1 (by simp [Deed.entries, Entry.about])
        (fun _ => Table.take_slot_of_ne) (fun _ => ?_) j
      rw [Table.take_slot]
      exact ⟨⟨Nat.zero_le _, le_rfl, le_rfl, Nat.zero_le _⟩, fun _ => ⟨rfl, rfl, rfl, rfl⟩,
        (by rintro ⟨⟩), (by rintro ⟨⟩)⟩
  | lost i =>
    refine kept_taken h he ?_ (fun j hj => ?_) (fun hu => ?_) j
    · simpa [Deed.entries] using hh.about (by simp) (by simp)
    · exact (Table.put_slot_of_ne hj).trans (Table.take_slot_of_ne hj)
    · exact absurd (by simp [Deed.apply, Table.free, Channel.zero]) hu
  | confirmed i peer window packet =>
    obtain ⟨hn, ho⟩ := he
    cases hh with
    | host k hk => exact absurd hk not_false
    | peer p hp =>
      obtain rfl : p = .channelOpenConfirm peer (c.table.slot i).localId window packet := hp
      refine kept_named h hn (by simp : ∀ e ∈ ([] : List Entry), e.about = none)
        (by simp [Deed.entries, Entry.about])
        (fun _ => Table.put_slot_of_ne) ?_ j
      obtain ⟨h1, h2, h3, h4⟩ := (h i).opening ho
      rw [Table.put_slot, ho]
      change Kept _ { b i with
        allowed := window.toNat, packet := (Deed.packetOf c.terms packet).toNat }
      refine ⟨⟨(h i).sound.received, ?_, ?_, (h i).sound.data⟩, (by rintro ⟨⟩), (by rintro ⟨⟩),
        fun _ => ⟨?_, ?_, rfl⟩⟩
      · simp [h3]
      · simp [h4]
      · simp [h1, h2]
      · simp [h3]
  | data i payload =>
    obtain ⟨hn, ho, hlen, hmax⟩ := he
    refine kept_named h hn (hh.about (by simp) (by simp)) (by simp [Deed.entries, Entry.about])
      (fun _ => Table.put_slot_of_ne) ?_ j
    obtain ⟨h1, h2, h3⟩ := (h i).open_ ho
    have hw := toNat_sub_le hlen
    rw [Table.put_slot]
    change Kept _ { b i with received := (b i).received + payload.length }
    refine ⟨⟨?_, (h i).sound.sent, (h i).sound.packet, (h i).sound.data⟩, ?_, ?_,
      fun _ => ⟨?_, h2, h3⟩⟩
    · dsimp only
      omega
    · simp [ho]
    · simp [ho]
    · dsimp only
      omega
  | credit i add =>
    obtain ⟨hn, ho⟩ := he
    refine kept_named h hn (hh.about (by simp) (by simp)) (by simp [Deed.entries, Entry.about])
      (fun _ => Table.put_slot_of_ne) ?_ j
    obtain ⟨h1, h2, h3⟩ := (h i).open_ ho
    have hw := toNat_add_le (c.table.slot i).sendWindow add
    have hs := (h i).sound.sent
    rw [Table.put_slot]
    change Kept _ { b i with credited := (b i).credited + add.toNat }
    refine ⟨⟨(h i).sound.received, ?_, (h i).sound.packet, (h i).sound.data⟩, ?_, ?_,
      fun _ => ⟨h1, ?_, h3⟩⟩
    · dsimp only
      omega
    · simp [ho]
    · simp [ho]
    · dsimp only
      omega
  | eof i =>
    refine kept_named h he (hh.about (by simp) (by simp)) (by simp [Deed.entries, Entry.about])
      (fun _ => Table.put_slot_of_ne) ?_ j
    rw [Table.put_slot]
    exact ⟨(h i).sound, (h i).opening, (h i).pending, (h i).open_⟩
  | accept i =>
    obtain ⟨hn, ho⟩ := he
    refine kept_named h hn (hh.about (by simp) (by simp)) (by simp [Deed.entries, Entry.about])
      (fun _ => Table.put_slot_of_ne) ?_ j
    obtain ⟨h1, h2, h3⟩ := (h i).pending ho
    rw [Table.put_slot]
    change Kept _ { b i with offered := c.terms.window.toNat }
    refine ⟨⟨?_, (h i).sound.sent, (h i).sound.packet, (h i).sound.data⟩, (by rintro ⟨⟩),
      (by rintro ⟨⟩), fun _ => ⟨?_, h2, h3⟩⟩
    · simp [h1]
    · simp [h1]
  | send i payload =>
    obtain ⟨hn, ho, -, hpacket, hmax, hlen⟩ := he
    refine kept_named h hn (hh.about (by simp) (by simp)) (by simp [Deed.entries, Entry.about])
      (fun _ => Table.put_slot_of_ne) ?_ j
    obtain ⟨h1, h2, h3⟩ := (h i).open_ ho
    have hw := toNat_sub_le hlen
    have hs := (h i).sound
    rw [Table.put_slot]
    change Kept _ { b i with
      sent := (b i).sent + payload.length, largest := max (b i).largest payload.length }
    refine ⟨⟨hs.received, ?_, ?_, ?_⟩, ?_, ?_, fun _ => ⟨h1, ?_, h3⟩⟩
    · dsimp only
      omega
    · exact max_le hs.packet (hpacket.trans h3.ge)
    · exact max_le hs.data hmax
    · simp [ho]
    · simp [ho]
    · dsimp only
      omega
  | shut i =>
    refine kept_named h he.1 (hh.about (by simp) (by simp)) (by simp [Deed.entries, Entry.about])
      (fun _ => Table.put_slot_of_ne) ?_ j
    rw [Table.put_slot]
    exact ⟨(h i).sound, (h i).opening, (h i).pending, (h i).open_⟩
  | grant i add =>
    obtain ⟨hn, ho⟩ := he
    refine kept_named h hn (hh.about (by simp) (by simp)) (by simp [Deed.entries, Entry.about])
      (fun _ => Table.put_slot_of_ne) ?_ j
    obtain ⟨h1, h2, h3⟩ := (h i).open_ ho
    have hw := toNat_add_le (c.table.slot i).recvWindow add
    have hs := (h i).sound.received
    rw [Table.put_slot]
    change Kept _ { b i with granted := (b i).granted + add.toNat }
    refine ⟨⟨?_, (h i).sound.sent, (h i).sound.packet, (h i).sound.data⟩, ?_, ?_,
      fun _ => ⟨?_, h2, h3⟩⟩
    · dsimp only
      omega
    · simp [ho]
    · simp [ho]
    · dsimp only
      omega
  | failed i | reject i =>
    refine kept_named h he.1 (hh.about (by simp) (by simp)) (by simp [Deed.entries, Entry.about])
      (fun _ => Table.put_slot_of_ne) ?_ j
    change Kept ((c.table.free i).slot i) _
    rw [Table.free, Table.put_slot]
    exact .unused (h i).sound rfl
  | closed i =>
    refine kept_named h he (hh.about (by simp) (by simp)) (by simp [Deed.entries, Entry.about])
      (fun _ => Table.put_slot_of_ne) ?_ j
    change Kept ((c.table.free i).slot i) _
    rw [Table.free, Table.put_slot]
    exact .unused (h i).sound rfl
  | close i told =>
    have hl : ∀ e ∈ (Deed.close i told).entries c.terms c.table, e.about = none := by
      cases told <;> simp [Deed.entries, Entry.about]
    have hf : ((Deed.close i told).entries c.terms c.table).filter (fun e => e.about.isSome) =
        [] := List.filter_eq_nil_iff.mpr fun e hm => by simp [hl e hm]
    refine kept_named h he (hh.about (by simp) (by simp)) (fun e hm => Or.inl (hl e hm))
      (fun _ => Table.put_slot_of_ne) ?_ j
    change Kept ((c.table.free i).slot i) _
    rw [hf, Table.free, Table.put_slot]
    exact .unused (h i).sound rfl

end Deeds

/-- Along every run no account is overdrawn. -/
theorem Ledger.kept {b : Fin maxChannelSlots → Balance} (h : Ledger E c b) :
    ∀ i, Kept (c.channels i) (b i) := by
  induction h with
  | create hc =>
    intro i
    exact .unused Balance.zero_sound
      (congrArg (fun s => (Table.slot s i).state) (create_table hc).1)
  | @reset c b _ _ =>
    intro i
    exact .unused Balance.zero_sound
      (congrArg (fun s => (Table.slot s i).state) (reset_table (E := E) c).1)
  | @step l c c' b _ hs ih =>
    obtain ⟨a, ha⟩ := hs.deed
    obtain ⟨aside, hh, he, ht, -, hn⟩ := ha.deals
    intro j
    have hk := kept_deed hh he ih j
    have hnews : c.news c' = aside ++ a.entries c.terms c.table := by
      rw [Ctx.news, hn, List.append_assoc, List.drop_left]
    rw [← ht, ← hnews] at hk
    exact hk

/-- A ledger can be kept along every run. -/
theorem exists_ledger (h : Reachable E c) : ∃ b, Ledger E c b := by
  refine h.induction (P := fun d => ∃ b, Ledger E d b) (fun _ _ _ _ _ hc => ⟨_, .create hc⟩)
    (fun _ ⟨b, hb⟩ _ => ⟨_, hb.reset⟩) (fun _ _ _ ⟨b, hb⟩ _ hs => ⟨_, hb.step hs⟩) ?_
  rintro c c' hc hs
  induction hs with
  | refl => exact hc
  | tail _ hs ih =>
    obtain ⟨b, hb⟩ := ih
    rcases hs with hs | ⟨data, hs⟩
    · exact ⟨_, hb.step hs⟩
    · exact ⟨_, hb.step hs⟩

/-- Whatever the peer sends and the host calls, for each channel from its allocation on: the data
accepted stays within what was offered and granted, the data sent within what was allowed and
credited, and each send within the packet size. -/
theorem credit_safe (h : Reachable E c) : (∃ b, Ledger E c b) ∧ ∀ b, Ledger E c b → ∀ i,
    (b i).received ≤ (b i).offered + (b i).granted ∧
    (b i).sent ≤ (b i).allowed + (b i).credited ∧
    (b i).largest ≤ (b i).packet ∧ (b i).largest ≤ dataMax := by
  refine ⟨exists_ledger h, fun b hb i => ?_⟩
  have hs := (hb.kept i).sound
  exact ⟨hs.received, hs.sent, hs.packet, hs.data⟩

/-- One byte of DATA each way, once the peer has added its credit, and a grant. -/
def plainTrade : List Call :=
  plainOneChannel ++ [.feedInput (plainRecord plainByte), .feedInput (plainRecord (plainWindow 1)),
    .channelSend 0 (.buf [7]) true, .channelWindowAdjust 0 5]

theorem credit_safe_plain :
    (∀ e ∈ [.event (.channelData 0 [0]), .event (.channelWindow 0 1 1), .spent 0 1, .granted 0 5],
      e ∈ (play plainEnv plainServerStart plainTrade).entries) ∧
    ∃ b, Ledger plainEnv (play plainEnv plainServerStart plainTrade) b ∧ ∀ i,
      (b i).received ≤ (b i).offered + (b i).granted ∧
      (b i).sent ≤ (b i).allowed + (b i).credited ∧
      (b i).largest ≤ (b i).packet ∧ (b i).largest ≤ dataMax := by
  obtain ⟨⟨b, hb⟩, h⟩ := credit_safe (reachable_play (E := plainEnv) create_plainServer plainTrade)
  exact ⟨by decide +kernel, b, hb, h b hb⟩

end Sodchan
