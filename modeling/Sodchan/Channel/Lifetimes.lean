import Sodchan.Channel.Credit
import Sodchan.Channel.Numbered
import Sodchan.Session.Auth
import Sodchan.Session.Pinning

/-! # Lifetimes of channel ids

An id is the number of ids given out before it, up to multiples of `2 ^ 32`. A
channel keeps its id to itself exactly as long as fewer than `2 ^ 32` ids have
been given out since it was opened.
-/

namespace Sodchan

open ByteString

variable {Rng SS : Type} {E : Env Rng SS} {c c' : Ctx Rng SS}

/-- For every slot, the number of ids that had been given out when it was last free. -/
abbrev Births := Fin maxChannelSlots → ℕ

namespace Table

def births (s : Table) (b : Births) : Births := fun i =>
  if (s.slot i).state = .unused then s.allocs else b i

/-- Fewer than `2 ^ 32` ids were given out since any channel in use was opened. -/
def Young (s : Table) (b : Births) : Prop :=
  ∀ i, (s.slot i).state ≠ .unused → s.allocs < b i + 2 ^ 32

variable {s : Table} {b : Births} {i : Fin maxChannelSlots}

theorem births_free (h : (s.slot i).state = .unused) : s.births b i = s.allocs := if_pos h

theorem births_used (h : (s.slot i).state ≠ .unused) : s.births b i = b i := if_neg h

end Table

/-- Every channel in use carries the id of its birth, and was opened at most `2 ^ 32` ids ago. -/
structure Dated (s : Table) (b : Births) : Prop where
  next : s.next = UInt32.ofNat s.allocs
  free : ∀ i, (s.slot i).state = .unused → b i = s.allocs
  id : ∀ i, (s.slot i).state ≠ .unused → (s.slot i).localId = UInt32.ofNat (b i)
  past : ∀ i, (s.slot i).state ≠ .unused → b i < s.allocs
  recent : ∀ i, (s.slot i).state ≠ .unused → s.allocs ≤ b i + 2 ^ 32
  distinct : ∀ i j, (s.slot i).state ≠ .unused → (s.slot j).state ≠ .unused → b i = b j → i = j

theorem ofNat_ne {m n : ℕ} (hlt : m < n) (hn : n < m + 2 ^ 32) :
    UInt32.ofNat m ≠ UInt32.ofNat n := by
  intro he
  have h : m % 2 ^ 32 = n % 2 ^ 32 := by simpa using congrArg UInt32.toNat he
  omega

theorem ofNat_around (n : ℕ) : UInt32.ofNat (n + 2 ^ 32) = UInt32.ofNat n :=
  UInt32.toNat_inj.mp (by simp)

namespace Dated

variable {t : Terms} {s s' : Table} {b : Births} {i j : Fin maxChannelSlots} {a : Deed}

theorem empty : Dated .empty fun _ => 0 where
  next := rfl
  free _ _ := rfl
  id _ h := absurd rfl h
  past _ h := absurd rfl h
  recent _ h := absurd rfl h
  distinct _ _ h := absurd rfl h

/-- No two channels in use share an id. -/
theorem unique (h : Dated s b) (hi : (s.slot i).state ≠ .unused) (hj : (s.slot j).state ≠ .unused)
    (he : (s.slot i).localId = (s.slot j).localId) : i = j := by
  rw [h.id i hi, h.id j hj] at he
  obtain hlt | heq | hgt := Nat.lt_trichotomy (b i) (b j)
  · exact absurd he (ofNat_ne hlt ((h.past j hj).trans_le (h.recent i hi)))
  · exact h.distinct i j hi hj heq
  · exact absurd he.symm (ofNat_ne hgt ((h.past i hi).trans_le (h.recent j hj)))

/-- The next id is that of no channel, exactly as long as all of them are young. -/
theorem next_new_iff (h : Dated s b) :
    (∀ i, (s.slot i).state ≠ .unused → (s.slot i).localId ≠ s.next) ↔ s.Young b := by
  constructor
  · intro hnew i hi
    refine lt_of_le_of_ne (h.recent i hi) fun he => hnew i hi ?_
    rw [h.id i hi, h.next, he, ofNat_around]
  · intro hy i hi
    rw [h.id i hi, h.next]
    exact ofNat_ne (h.past i hi) (hy i hi)

theorem keep (h : Dated s b) (hn : s'.next = s.next) (ha : s'.allocs = s.allocs)
    (hs : ∀ j, (s'.slot j).state ≠ .unused →
      (s.slot j).state ≠ .unused ∧ (s'.slot j).localId = (s.slot j).localId) :
    Dated s' (s'.births b) := by
  refine ⟨by rw [hn, ha, h.next], fun j => Table.births_free, ?_, ?_, ?_, ?_⟩
  · intro j hj
    rw [Table.births_used hj, (hs j hj).2, h.id j (hs j hj).1]
  · intro j hj
    rw [Table.births_used hj, ha]
    exact h.past j (hs j hj).1
  · intro j hj
    rw [Table.births_used hj, ha]
    exact h.recent j (hs j hj).1
  · intro j k hj hk
    rw [Table.births_used hj, Table.births_used hk]
    exact h.distinct j k (hs j hj).1 (hs k hk).1

theorem gain (h : Dated s b) (hy : s.Young b) (hi : (s.slot i).state = .unused)
    (hn : s'.next = s.next + 1) (ha : s'.allocs = s.allocs + 1)
    (hself : (s'.slot i).state ≠ .unused → (s'.slot i).localId = s.next)
    (hs : ∀ j, j ≠ i → s'.slot j = s.slot j) : Dated s' (s'.births b) := by
  have hb : b i = s.allocs := h.free i hi
  refine ⟨?_, fun j => Table.births_free, ?_, ?_, ?_, ?_⟩
  · rw [hn, ha, h.next, UInt32.ofNat_add]
    rfl
  · intro j hj
    rw [Table.births_used hj]
    by_cases hji : j = i
    · subst hji
      rw [hself hj, h.next, hb]
    · rw [hs j hji] at hj ⊢
      exact h.id j hj
  · intro j hj
    rw [Table.births_used hj, ha]
    by_cases hji : j = i
    · subst hji
      omega
    · rw [hs j hji] at hj
      have := h.past j hj
      omega
  · intro j hj
    rw [Table.births_used hj, ha]
    by_cases hji : j = i
    · subst hji
      omega
    · rw [hs j hji] at hj
      exact hy j hj
  · intro j k hj hk he
    rw [Table.births_used hj, Table.births_used hk] at he
    by_cases hji : j = i <;> by_cases hki : k = i
    · rw [hji, hki]
    · rw [hs k hki] at hk
      have := h.past k hk
      rw [hji] at he
      omega
    · rw [hs j hji] at hj
      have := h.past j hj
      rw [hki] at he
      omega
    · rw [hs j hji] at hj
      rw [hs k hki] at hk
      exact h.distinct j k hj hk he

theorem put (h : Dated s b) {ch : Channel} (hu : (s.slot i).state ≠ .unused)
    (hid : ch.state = .unused ∨ ch.localId = (s.slot i).localId) :
    Dated (s.put i ch) ((s.put i ch).births b) := by
  refine h.keep rfl rfl fun j hj => ?_
  by_cases hji : j = i
  · subst hji
    rw [Table.put_slot] at hj ⊢
    exact ⟨hu, hid.resolve_left hj⟩
  · rw [Table.put_slot_of_ne hji] at hj ⊢
    exact ⟨hj, rfl⟩

theorem take (h : Dated s b) {ch : Channel} (hy : s.Young b) (hi : (s.slot i).state = .unused) :
    Dated (s.take i ch) ((s.take i ch).births b) :=
  h.gain hy hi rfl rfl (fun _ => by rw [show (s.take i ch).slot i = _ from Table.take_slot])
    fun _ hj => Table.take_slot_of_ne hj

/-- Every deed keeps the dates, as long as no channel is too old for the id that it uses up. -/
theorem apply (h : Dated s b) (he : a.Enabled t s) (hy : a.allocates → s.Young b) :
    Dated (a.apply t s) ((a.apply t s).births b) := by
  cases a with
  | idle | refused => exact h.keep rfl rfl fun j hj => ⟨hj, rfl⟩
  | offered i peer window packet name => exact h.take (hy rfl) he.1
  | open_ i name => exact h.take (hy rfl) he.1
  | lost i =>
    refine h.gain (hy rfl) (show (s.slot i).state = .unused from he) rfl rfl ?_ fun j hj =>
      (Table.put_slot_of_ne hj).trans (Table.take_slot_of_ne hj)
    intro hu
    exact absurd (congrArg Channel.state (Table.put_slot (s := s.take i .zero) (i := i))) hu
  | failed i | reject i => exact h.put he.1.used (Or.inl rfl)
  | closed i | close i => exact h.put he.used (Or.inl rfl)
  | confirmed i | accept i | data i | credit i | send i | shut i | grant i =>
    exact h.put he.1.used (Or.inr rfl)
  | eof i => exact h.put he.used (Or.inr rfl)

end Dated

/-- A run with the births of the slots, in which every step that gives out an id finds the channels
in use young. -/
inductive Lived (E : Env Rng SS) : Ctx Rng SS → Births → Prop where
  | create {role : Role} {cfg : Option Config} {rng : Rng} {memOk : Bool} {c : Ctx Rng SS} :
      create E role cfg rng memOk = some c → Lived E c fun _ => 0
  | reset {c : Ctx Rng SS} {b : Births} : Lived E c b → Lived E (reset E c) fun _ => 0
  | step {l : Label} {c c' : Ctx Rng SS} {b : Births} : Lived E c b → Step E l c c' →
      (c.allocs < c'.allocs → c.table.Young b) → Lived E c' (c'.table.births b)

theorem Step.table {l : Label} (h : Step E l c c') :
    ∃ a : Deed, a.Enabled c.terms c.table ∧ c'.table = a.apply c.terms c.table ∧
      c'.allocs = c.allocs + if a.allocates then 1 else 0 := by
  obtain ⟨a, ha⟩ := h.deed
  obtain ⟨-, -, hen, htable, -⟩ := ha.deals
  exact ⟨a, hen, htable, (congrArg Table.allocs htable).trans Numbered.apply_allocs⟩

theorem Lived.dated {b : Births} (h : Lived E c b) : Dated c.table b := by
  induction h with
  | create hc =>
    rw [(create_table hc).1]
    exact .empty
  | @reset c =>
    rw [(reset_table c).1]
    exact .empty
  | step _ hs hy ih =>
    obtain ⟨a, hen, htable, hallocs⟩ := hs.table
    rw [htable]
    refine ih.apply hen fun ha => hy ?_
    rw [hallocs, if_pos ha]
    exact Nat.lt_succ_self _

/-- In a run without a reset that gives out fewer than `2 ^ 32` ids, all channels are young. -/
theorem Run.lived {role : Role} {cfg : Option Config} {rng : Rng} {memOk : Bool}
    {c₀ : Ctx Rng SS} {l : List (Call × Ret)} (hc : Sodchan.create E role cfg rng memOk = some c₀)
    (h : Run E NoReset c₀ l c) (hb : c.allocs < 2 ^ 32) : ∃ b, Lived E c b := by
  have hstep : ∀ {k : Label} {d d' : Ctx Rng SS},
      (d.allocs < 2 ^ 32 → ∃ b, Lived E d b) → Step E k d d' →
      d'.allocs < 2 ^ 32 → ∃ b, Lived E d' b := by
    intro k d d' hd hs hb
    obtain ⟨a, -, -, hallocs⟩ := hs.table
    obtain ⟨b, hl⟩ := hd (by omega)
    exact ⟨_, hl.step hs fun _ i _ => show d.allocs < b i + 2 ^ 32 by omega⟩
  refine h.preserves (P := fun d => d.allocs < 2 ^ 32 → ∃ b, Lived E d b) ?_ ?_ ?_
    (fun _ => ⟨_, .create hc⟩) hb
  · exact fun _ _ hg => absurd rfl hg
  · exact fun _ _ _ hp _ hs => hstep hp hs
  · intro d d' hp hs
    induction hs with
    | refl => exact hp
    | tail _ hs ih =>
      rcases hs with hs | ⟨data, hs⟩
      · exact hstep ih hs
      · exact hstep ih hs

/-- In every run in which no channel outlives `2 ^ 32` ids: no two channels in use share an id, an
id finds its channel, and a new id is that of no channel in use exactly if none of these has become
as old. -/
theorem channel_ids_identify {b : Births} (h : Lived E c b) :
    (∀ i j, (c.channels i).state ≠ .unused → (c.channels j).state ≠ .unused →
      (c.channels i).localId = (c.channels j).localId → i = j) ∧
    (∀ i, (c.channels i).state ≠ .unused → chByLocal c (c.channels i).localId = some i) ∧
    ∀ c' j, chAlloc c = some (c', j) →
      ((∀ i, (c.channels i).state ≠ .unused →
        (c.channels i).localId ≠ (c'.channels j).localId) ↔ c.table.Young b) := by
  have hd := h.dated
  refine ⟨fun i j hi hj he => hd.unique hi hj he, fun i hi => ?_, fun c' j ha => ?_⟩
  · exact Table.named_of_unique (s := c.table) hi fun j hj he => hd.unique hj hi he
  · obtain ⟨-, -, rfl⟩ := chAlloc_eq_some ha
    have hid : ((c.allocated j).channels j).localId = c.nextLocalChannelId := by
      simp [Ctx.allocated]
    rw [hid]
    exact hd.next_new_iff

theorem channel_ids_identify_plain :
    (plainServerPending.channels slot0).state ≠ .unused ∧
    chByLocal plainServerPending (plainServerPending.channels slot0).localId = some slot0 := by
  have hu : (plainServerPending.channels slot0).state ≠ .unused := by decide +kernel
  have hrun : Run plainEnv NoReset plainServerStart _ plainServerPending := run_play (by
    rintro k hk c rfl
    simp at hk) _
  obtain ⟨b, hb⟩ := hrun.lived create_plainServer (by decide +kernel)
  exact ⟨hu, (channel_ids_identify hb).2.1 slot0 hu⟩

def Ctx.skipped (c : Ctx Rng SS) (n : ℕ) : Ctx Rng SS :=
  { c with nextLocalChannelId := c.nextLocalChannelId + UInt32.ofNat n, allocs := c.allocs + n }

theorem skipped_succ (c : Ctx Rng SS) (n : ℕ) : (c.skipped 1).skipped n = c.skipped (n + 1) := by
  unfold Ctx.skipped
  simp only [UInt32.ofNat_add, UInt32.add_assoc, Nat.add_assoc, Nat.add_comm n 1]

/-- A record of so many bytes cannot be sent: it is too long, or the output buffer is too full. -/
def Ctx.Refuses (c : Ctx Rng SS) (n : ℕ) : Prop :=
  c.maxRecordSize < n ∨ c.outOff = 0 ∧ outBufSize < c.outBuf.length + (4 + (n + ssAbytes))

theorem channelOpen_lost {name : Bytes} {i : Fin maxChannelSlots} (hn : name ≠ [])
    (hst : c.state = .ready) (hlen : name.length ≤ channelNameMax)
    (hok : channelNameAllowed c name) (hact : c.activeChannels < c.maxChannels)
    (hfind : (List.finRange maxChannelSlots).find?
      (fun j => (c.channels j).state = .unused) = some i)
    (hz : c.channels i = .zero) (hp : c.ssPushReady) (hfull : c.Refuses (14 + name.length)) :
    (channelOpen E c (some name)).1 = c.skipped 1 ∧ (channelOpen E c (some name)).2.1 ≠ .ok := by
  have ha : chAlloc c = some (c.allocated i, i) := by
    unfold chAlloc
    rw [if_neg (by omega), hfind]
    rfl
  obtain ⟨pdu, he, hpdu⟩ : ∃ pdu, Wire.channelOpenEncode c.nextLocalChannelId c.initialWindow
      c.maxPacket name 128 = .ok pdu ∧ pdu.length = 14 + name.length := by
    unfold Wire.channelOpenEncode
    rw [if_neg (by omega), if_neg (by unfold channelNameMax at hlen; omega)]
    exact ⟨_, rfl, by simp +arith [Wire.putU32]⟩
  obtain ⟨rc, hrc, hsend⟩ : ∃ rc, rc ≠ .ok ∧ ∀ d : Ctx Rng SS, d.ssPushReady = c.ssPushReady →
      d.maxRecordSize = c.maxRecordSize → d.outOff = c.outOff → d.outBuf = c.outBuf →
      ssSendPdu E d pdu = (d, rc) := by
    by_cases hmax : c.maxRecordSize < pdu.length
    · refine ⟨.param, by decide, fun d hd hm _ _ => ?_⟩
      unfold ssSendPdu
      rw [if_neg (fun hn => hn.elim (fun h => h (hd.trans hp)) fun h => by omega),
        if_pos (by omega)]
    · obtain ⟨hoff, hroom⟩ := hfull.resolve_left (by omega)
      refine ⟨.full, by decide, fun d hd hm ho hb => ?_⟩
      unfold ssSendPdu outCompact
      rw [if_neg (fun hn => hn.elim (fun h => h (hd.trans hp)) fun h => by omega),
        if_neg (by omega), if_pos (ho.trans hoff)]
      dsimp only
      rw [hb, if_pos (by omega)]
  have hid : ((c.allocated i).channels i).localId = c.nextLocalChannelId := by
    simp [Ctx.allocated]
  unfold channelOpen
  dsimp only
  rw [if_neg hn, if_neg (not_not.mpr hst), if_neg (by omega), if_neg (not_not.mpr hok), ha]
  dsimp only
  generalize hr : Wire.channelOpenEncode _ _ _ _ _ = r
  obtain rfl : r = .ok pdu := by
    rw [← hr, hid]
    exact he
  dsimp only
  rw [hsend _ (by rfl) (by rfl) (by rfl) (by rfl)]
  cases rc with
  | ok => exact absurd rfl hrc
  | _ =>
    refine ⟨?_, by rintro ⟨⟩⟩
    unfold chFree setCh Ctx.allocated Ctx.skipped
    simp [← hz]

theorem play_lost {name : Bytes} {i : Fin maxChannelSlots} (hn : name ≠ [])
    (hlen : name.length ≤ channelNameMax) (n : ℕ) (hst : c.state = .ready)
    (hok : channelNameAllowed c name) (hact : c.activeChannels < c.maxChannels)
    (hfind : (List.finRange maxChannelSlots).find?
      (fun j => (c.channels j).state = .unused) = some i)
    (hz : c.channels i = .zero) (hp : c.ssPushReady) (hfull : c.Refuses (14 + name.length)) :
    play E c (List.replicate n (.channelOpen (some name))) = c.skipped n := by
  induction n generalizing c with
  | zero => simp [play, Ctx.skipped]
  | succ n ih =>
    obtain ⟨h1, h2⟩ := channelOpen_lost (E := E) hn hst hlen hok hact hfind hz hp hfull
    have hcall : (call E c (.channelOpen (some name))).1 = c.skipped 1 := by
      simp only [call, record, if_neg h2, h1]
    rw [List.replicate_succ]
    change play E (call E c (.channelOpen (some name))).1 _ = _
    rw [hcall, ih (c := c.skipped 1) hst hok hact hfind hz hp hfull, skipped_succ]

/-- A client without keys whose records hold an OPEN for three letters, but none for four. -/
def plainShortClient : Config where
  serverIdPk := some (plainKey 5)
  maxRecordSize := 17

def plainShortStart : Ctx Unit Unit :=
  (create plainEnv .client (some plainShortClient) () true).get (by decide +kernel)

def plainShortCalls : List Call := plainClientAuth ++
  [.feedInput (plainRecord [pduAuthOk, 0, 0]), .feedInput (plainRecord plainOpen)]

def plainShortPending : Ctx Unit Unit := play plainEnv plainShortStart plainShortCalls

def plainShortTwice : Ctx Unit Unit :=
  play plainEnv plainShortStart (plainShortCalls ++
    List.replicate (2 ^ 32 - 1) (.channelOpen (some (ascii "exec"))) ++
    [.feedInput (plainRecord plainOpen)])

theorem plainShortTwice_eq : plainShortTwice =
    play plainEnv (plainShortPending.skipped 4294967295) [.feedInput (plainRecord plainOpen)] := by
  obtain ⟨hst, hok, hact, hfind, hz, hp, hmax⟩ : plainShortPending.state = .ready ∧
      channelNameAllowed plainShortPending (ascii "exec") = true ∧
      plainShortPending.activeChannels < plainShortPending.maxChannels ∧
      (List.finRange maxChannelSlots).find?
        (fun j => (plainShortPending.channels j).state = .unused) = some slot1 ∧
      plainShortPending.channels slot1 = .zero ∧ plainShortPending.ssPushReady = true ∧
      plainShortPending.maxRecordSize < 14 + (ascii "exec").length := by decide +kernel
  have hlost := play_lost (E := plainEnv) (by decide) (by decide) 4294967295 hst hok hact hfind hz
    hp (Or.inl hmax)
  unfold plainShortTwice play
  rw [List.foldl_append, List.foldl_append]
  exact congrArg (fun d => play plainEnv d [.feedInput (plainRecord plainOpen)]) hlost

/-- Two channels under one id. -/
theorem channel_ids_collide_plain :
    ReachableUnder plainEnv NoReset plainShortTwice ∧
    (plainShortTwice.channels slot0).state = .pending ∧
    (plainShortTwice.channels slot1).state = .pending ∧
    (plainShortTwice.channels slot0).localId = (plainShortTwice.channels slot1).localId := by
  refine ⟨reachableUnder_play (Option.some_get _).symm ?_, ?_⟩
  · rintro k hk c rfl
    obtain hk | hk := List.mem_append.mp hk
    · obtain hk | hk := List.mem_append.mp hk
      · revert hk
        decide +kernel
      · cases List.eq_of_mem_replicate hk
    · cases List.mem_singleton.mp hk
  · rw [plainShortTwice_eq]
    decide +kernel

end Sodchan
