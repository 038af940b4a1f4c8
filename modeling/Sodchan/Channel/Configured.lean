import Sodchan.Channel.Conduct
import Sodchan.Model.Plain

/-! # Configured strings

The allowlist, the username and the device id of a configuration are copied
into one store of fixed size. A string that does not fit is dropped without a
trace, and what is missing afterwards stands for a default. Where the strings
fit, every run is bound to them.
-/

namespace Sodchan

open ByteString

variable {Rng SS : Type} {E : Env Rng SS} {c c' : Ctx Rng SS}

/-- A name is on a list of names separated by commas. -/
def Listed (list name : Bytes) : Prop := name ≠ [] ∧ name ∈ list.splitOn comma

theorem nameScan_iff {name : Bytes} (hn : name ≠ []) (n : ℕ) (p : Bytes) (h : p.length < n) :
    nameScan name n p = true ↔ name ∈ p.splitOn comma := by
  induction n generalizing p with
  | zero => omega
  | succ n ih =>
    unfold nameScan
    split
    · rename_i hp
      simp [hp, hn]
    · have hp : p.takeWhile (· ≠ comma) ++ p.dropWhile (· ≠ comma) = p :=
        List.takeWhile_append_dropWhile
      have hseg : comma ∉ p.takeWhile (· ≠ comma) := fun hm => by
        simpa using List.mem_takeWhile_imp hm
      have hrest : ∀ x ∈ (p.dropWhile (· ≠ comma)).head?, x = comma := by
        intro x hx
        have := List.head?_dropWhile_not (· ≠ comma) p
        rw [Option.mem_def.mp hx] at this
        simpa using this
      have hdrop : p.drop (p.takeWhile (· ≠ comma)).length = p.dropWhile (· ≠ comma) := by
        have hleft : (p.takeWhile (· ≠ comma) ++ p.dropWhile (· ≠ comma)).drop
            (p.takeWhile (· ≠ comma)).length = p.dropWhile (· ≠ comma) := List.drop_left
        rwa [hp] at hleft
      have hl := congrArg List.length hp
      rw [List.length_append] at hl
      dsimp only
      rw [hdrop]
      generalize p.takeWhile (· ≠ comma) = seg at *
      cases hd : p.dropWhile (· ≠ comma) with
      | nil =>
        rw [hd, List.append_nil] at hp
        rw [← hp, List.splitOn_eq_singleton hseg, List.mem_singleton]
        simp [eq_comm]
      | cons x rest =>
        obtain rfl : x = comma := hrest x (by rw [hd]; rfl)
        rw [hd] at hp hl
        rw [List.length_cons] at hl
        rw [← hp, List.splitOn_append_cons_self_of_not_mem hseg, List.mem_cons,
          ← ih rest (by omega)]
        split
        · rename_i he
          exact ⟨fun _ => Or.inl he.symm, fun _ => rfl⟩
        · rename_i he
          exact ⟨Or.inr, fun h => h.resolve_left fun hx => he hx.symm⟩

def Ctx.allowlist (c : Ctx Rng SS) : Bytes := c.allowedChannels.getD defaultAllowedChannels

theorem channelNameAllowed_iff (c : Ctx Rng SS) (name : Bytes) :
    channelNameAllowed c name = true ↔ Listed c.allowlist name := by
  unfold channelNameAllowed Listed
  split
  · rename_i h
    simp [h]
  · rename_i h
    dsimp only
    rw [nameScan_iff h _ _ (Nat.lt_succ_self _)]
    exact (and_iff_right h).symm

/-- Every slot in use has a name that is admitted. -/
def Table.Admitted (t : Terms) (s : Table) : Prop :=
  ∀ i, (s.slot i).state ≠ .unused → t.allows (s.slot i).name

theorem Table.Admitted.put {t : Terms} {s : Table} (h : s.Admitted t) (i : Fin maxChannelSlots)
    {ch : Channel} (hch : ch.state ≠ .unused → t.allows ch.name) : (s.put i ch).Admitted t := by
  intro j
  by_cases hj : j = i
  · subst hj
    rwa [Table.put_slot]
  · rw [Table.put_slot_of_ne hj]
    exact h j

theorem Table.Admitted.apply {t : Terms} {s : Table} {a : Deed} (h : s.Admitted t)
    (ha : a.Enabled t s) : (a.apply t s).Admitted t := by
  have hfree : ∀ i, (s.free i).Admitted t := fun i => h.put i fun hu => absurd rfl hu
  have hopen : ∀ i, (s.slot i).state = .open_ → t.allows (s.slot i).name :=
    fun i hi => h i (by rw [hi]; rintro ⟨⟩)
  cases a with
  | idle | refused => exact h
  | offered i peer window packet name => exact h.put i fun _ => ha.2
  | open_ i name => exact h.put i fun _ => ha.2
  | lost i => exact (h.put i fun hu => absurd rfl hu).put i fun hu => absurd rfl hu
  | confirmed i => exact h.put i fun _ => h i (by rw [ha.2]; rintro ⟨⟩)
  | data i | send i => exact h.put i fun _ => hopen i ha.2.1
  | credit i | grant i => exact h.put i fun _ => hopen i ha.2
  | shut i => exact h.put i fun _ => hopen i ha.2.1
  | eof i => exact h.put i fun _ => h i ha.used
  | accept i => exact h.put i fun _ => h i (by rw [ha.2]; rintro ⟨⟩)
  | failed i | closed i | reject i | close i => exact hfree i

/-- The name of a channel that the peer opens, or that is opened toward the peer. -/
def Entry.opens : Entry → Option Bytes
  | .event (.channelOpen _ _ name _ _) => some name
  | .sent (.channelOpen _ _ _ name) => some name
  | _ => none

/-- What a run of a context is bound to: the allowlist, the username and the device id. -/
structure Follows (list user device : Bytes) (c : Ctx Rng SS) : Prop where
  allowlist : c.allowlist = list
  username : (c.clientUsername.getD []).take userMax = user.take userMax
  deviceId : (c.clientDeviceId.getD []).take deviceIdMax = device.take deviceIdMax
  slots : c.table.Admitted c.terms
  opened : ∀ e ∈ c.entries, ∀ name, e.opens = some name → Listed list name
  proofs : ∀ e ∈ c.entries, ∀ pdu, e = .proof pdu → ∃ sig, Wire.authDeviceEncode c.clientIdPk sig
    (user.take userMax) (device.take deviceIdMax) 512 = .ok pdu

theorem Deed.opens_entries {a : Deed} {t : Terms} {s : Table} (ha : a.Enabled t s) {e : Entry}
    (he : e ∈ a.entries t s) {name : Bytes} (hn : e.opens = some name) :
    ∃ name', t.allows name' ∧ (name = name' ∨ name = cstr name') := by
  cases a with
  | offered i peer window packet name' =>
    rw [List.mem_singleton.mp he] at hn
    exact ⟨name', ha.2, Or.inl (Option.some.inj hn).symm⟩
  | open_ i name' =>
    rw [List.mem_singleton.mp he] at hn
    exact ⟨name', ha.2, Or.inr (Option.some.inj hn).symm⟩
  | accept i | send i | grant i =>
    rcases List.mem_pair.mp he with rfl | rfl <;> cases hn
  | idle | lost => cases he
  | close i told =>
    cases told
    · cases he
    · rw [List.mem_singleton.mp he] at hn
      cases hn
  | _ =>
    rw [List.mem_singleton.mp he] at hn
    cases hn

theorem Deed.proof_entries {a : Deed} {t : Terms} {s : Table} {pdu : Bytes} :
    Entry.proof pdu ∉ a.entries t s := by
  cases a with
  | close i told => cases told <;> simp [Deed.entries]
  | _ => simp [Deed.entries]

theorem mem_of_mem_splitOn {x a : UInt8} {seg l : Bytes} (hs : seg ∈ l.splitOn a) (hx : x ∈ seg) :
    x ∈ l := by
  induction l generalizing seg with
  | nil =>
    obtain rfl : seg = [] := by simpa using hs
    exact hx
  | cons y l ih =>
    rw [List.splitOn_cons_eq_if_modifyHead] at hs
    split at hs
    · rcases List.mem_cons.mp hs with rfl | hs
      · cases hx
      · exact List.mem_cons_of_mem y (ih hs hx)
    · cases hl : l.splitOn a with
      | nil => exact absurd hl (List.splitOn_ne_nil a l)
      | cons first rest =>
        rw [hl] at hs ih
        rcases List.mem_cons.mp hs with rfl | hs
        · rcases List.mem_cons.mp hx with rfl | hx
          · exact List.mem_cons_self
          · exact List.mem_cons_of_mem y (ih List.mem_cons_self hx)
        · exact List.mem_cons_of_mem y (ih (List.mem_cons_of_mem first hs) hx)

theorem Listed.zero_not_mem {list name : Bytes} (hl : 0 ∉ list) (h : Listed list name) :
    0 ∉ name := by
  intro h0
  exact hl (mem_of_mem_splitOn h.2 h0)

theorem Follows.step {l : Label} {list user device : Bytes} (hl : 0 ∉ list)
    (h : Follows list user device c) (hs : Step E l c c') : Follows list user device c' := by
  obtain ⟨a, ha⟩ := hs.deed
  obtain ⟨aside, hheard, hen, htable, hset, hentries⟩ := ha.deals
  have haside := hheard.aside
  have hlist : c'.allowlist = c.allowlist :=
    congrArg (fun s : Settings => s.allowedChannels.getD defaultAllowedChannels) hset
  have huser : c'.clientUsername = c.clientUsername := congrArg Settings.clientUsername hset
  have hdev : c'.clientDeviceId = c.clientDeviceId := congrArg Settings.clientDeviceId hset
  have hpk : c'.clientIdPk = c.clientIdPk := congrArg Settings.clientIdPk hset
  refine ⟨hlist.trans h.allowlist, by rw [huser, h.username], by rw [hdev, h.deviceId], ?_, ?_, ?_⟩
  · rw [htable, terms_congr hset]
    exact h.slots.apply hen
  · intro e he name hn
    rw [hentries] at he
    rcases List.mem_append.mp he with he | he
    · rcases List.mem_append.mp he with he | he
      · exact h.opened e he name hn
      · have := haside e he
        cases e <;> first | cases hn | cases this
    · obtain ⟨name', hal, hname⟩ := Deed.opens_entries hen he hn
      have hlisted : Listed list name' := by
        rw [← h.allowlist]
        exact (channelNameAllowed_iff c name').mp hal
      rcases hname with rfl | rfl
      · exact hlisted
      · rwa [cstr_of_zero_not_mem (hlisted.zero_not_mem hl)]
  · intro e he pdu hp
    rw [hentries] at he
    rw [hpk]
    rcases List.mem_append.mp he with he | he
    · rcases List.mem_append.mp he with he | he
      · exact h.proofs e he pdu hp
      · subst hp
        obtain ⟨sig, hsig⟩ : c.settings.Proves pdu := haside _ he
        refine ⟨sig, ?_⟩
        rw [← h.username, ← h.deviceId]
        exact hsig
    · subst hp
      exact absurd he Deed.proof_entries

theorem Follows.start {list user device : Bytes} (ht : c.table = .empty) (he : c.entries = [])
    (h1 : c.allowlist = list) (h2 : (c.clientUsername.getD []).take userMax = user.take userMax)
    (h3 : (c.clientDeviceId.getD []).take deviceIdMax = device.take deviceIdMax) :
    Follows list user device c := by
  refine ⟨h1, h2, h3, ?_, by simp [he], by simp [he]⟩
  rw [ht]
  exact fun i hi => absurd rfl hi

theorem Follows.reset {list user device : Bytes} (h : Follows list user device c) :
    Follows list user device (reset E c) := by
  obtain ⟨ht, hset, he⟩ := reset_table (E := E) c
  have hlist : (Sodchan.reset E c).allowlist = c.allowlist :=
    congrArg (fun s : Settings => s.allowedChannels.getD defaultAllowedChannels) hset
  have huser : (Sodchan.reset E c).clientUsername = c.clientUsername :=
    congrArg Settings.clientUsername hset
  have hdev : (Sodchan.reset E c).clientDeviceId = c.clientDeviceId :=
    congrArg Settings.clientDeviceId hset
  exact .start ht he (hlist.trans h.allowlist) (by rw [huser, h.username])
    (by rw [hdev, h.deviceId])

def textOf (s : Option CString) : Bytes := (s.map Subtype.val).getD []

/-- What a string takes of the store, with its NUL. -/
def storeSize (s : Option CString) : ℕ := (s.map fun t => t.val.length + 1).getD 0

theorem storeSize_some (s : CString) : storeSize (some s) = s.val.length + 1 := rfl

theorem cfgDup_fits {used : ℕ} {s : Option CString} (h : used + storeSize s ≤ cfgStoreSize) :
    cfgDup used s = (used + storeSize s, s.map Subtype.val) := by
  cases s with
  | none => rfl
  | some s =>
    rw [storeSize_some] at h
    unfold cfgDup
    dsimp only
    rw [if_neg (by omega)]
    rfl

theorem cfgDup_full {used : ℕ} {s : CString} (h : cfgStoreSize < used + storeSize (some s)) :
    cfgDup used (some s) = (used, none) := by
  rw [storeSize_some] at h
  unfold cfgDup
  dsimp only
  rw [if_pos h]

/-- The strings that matter for the role fit into the store, in their order. -/
structure StoreFits (role : Role) (cfg : Config) : Prop where
  allowlist : storeSize cfg.allowedChannels ≤ cfgStoreSize
  username : role = .client → textOf cfg.clientUsername = [] ∨
    storeSize cfg.allowedChannels + storeSize cfg.clientUsername ≤ cfgStoreSize
  deviceId : role = .client → textOf cfg.clientDeviceId = [] ∨
    storeSize cfg.allowedChannels + storeSize cfg.clientUsername +
      storeSize cfg.clientDeviceId ≤ cfgStoreSize

/-- The configured strings are honoured: the allowlist in use is the configured one, no channel has
or ever had another name, and a client proves its device under the configured username and device
id. -/
structure Honours (cfg : Config) (c : Ctx Rng SS) : Prop where
  allowlist : ∀ s, cfg.allowedChannels = some s → c.allowlist = s.val
  slots : ∀ s, cfg.allowedChannels = some s → ∀ i, (c.channels i).state ≠ .unused →
    Listed s.val (c.channels i).name
  opened : ∀ s, cfg.allowedChannels = some s → ∀ e ∈ c.entries, ∀ name, e.opens = some name →
    Listed s.val name
  username : c.role = .client →
    (c.clientUsername.getD []).take userMax = (textOf cfg.clientUsername).take userMax
  deviceId : c.role = .client →
    (c.clientDeviceId.getD []).take deviceIdMax = (textOf cfg.clientDeviceId).take deviceIdMax
  proofs : c.role = .client → ∀ e ∈ c.entries, ∀ pdu, e = .proof pdu →
    ∃ sig, Wire.authDeviceEncode c.clientIdPk sig ((textOf cfg.clientUsername).take userMax)
      ((textOf cfg.clientDeviceId).take deviceIdMax) 512 = .ok pdu

section Created

variable {role : Role} {cfg : Config} {rng : Rng} {memOk : Bool} {c₀ : Ctx Rng SS}

theorem create_strings (h : create E role (some cfg) rng memOk = some c₀) :
    c₀.role = role ∧ c₀.allowedChannels = (cfgDup 0 cfg.allowedChannels).2 ∧
    c₀.clientUsername = (cfgDup (cfgDup 0 cfg.allowedChannels).1 cfg.clientUsername).2 ∧
    c₀.clientDeviceId = (cfgDup (cfgDup (cfgDup 0 cfg.allowedChannels).1 cfg.clientUsername).1
      cfg.clientDeviceId).2 := by
  obtain ⟨-, -, hs⟩ := create_table h
  exact ⟨congrArg Settings.role hs, congrArg Settings.allowedChannels hs,
    congrArg Settings.clientUsername hs, congrArg Settings.clientDeviceId hs⟩

theorem zero_not_mem_default : 0 ∉ defaultAllowedChannels := by decide +kernel

theorem length_default_lt : defaultAllowedChannels.length < 1000 := by decide +kernel

theorem getD_cut (s : Option CString) : (s.map Subtype.val).getD [] = textOf s := rfl

theorem create_allowlist_text (h : create E role (some cfg) rng memOk = some c₀) :
    0 ∉ c₀.allowlist := by
  obtain ⟨-, ha, -, -⟩ := create_strings h
  rw [Ctx.allowlist, ha]
  cases hs : cfg.allowedChannels with
  | none =>
    have hnone : (cfgDup 0 none).2 = none := rfl
    rw [hnone, Option.getD_none]
    exact zero_not_mem_default
  | some s =>
    by_cases hfit : 0 + storeSize (some s) ≤ cfgStoreSize
    · rw [cfgDup_fits hfit]
      exact s.2
    · rw [cfgDup_full (Nat.lt_of_not_le hfit), Option.getD_none]
      exact zero_not_mem_default

/-- Every run is bound to the strings that the created context holds. -/
theorem Run.bound {guard : Ctx Rng SS → Call → Prop} {l : List (Call × Ret)}
    (h : create E role (some cfg) rng memOk = some c₀) (hr : Run E guard c₀ l c) :
    Follows c₀.allowlist (c₀.clientUsername.getD []) (c₀.clientDeviceId.getD []) c ∧
      c.role = role := by
  obtain ⟨ht, he, -⟩ := create_table h
  have h0 := create_allowlist_text h
  refine hr.preserves_steps (P := fun d => Follows c₀.allowlist (c₀.clientUsername.getD [])
    (c₀.clientDeviceId.getD []) d ∧ d.role = role) ?_ ?_ ⟨.start ht he rfl rfl rfl,
      (create_strings h).1⟩
  · exact fun d hd => ⟨hd.1.reset, (reset_role d).trans hd.2⟩
  · intro l d d' hd hs
    refine ⟨hd.1.step h0 hs, ?_⟩
    obtain ⟨a, ha⟩ := hs.deed
    obtain ⟨-, -, -, -, hset, -⟩ := ha.deals
    exact (congrArg Settings.role hset).trans hd.2

theorem StoreFits.strings (hf : StoreFits role cfg)
    (h : create E role (some cfg) rng memOk = some c₀) :
    (∀ s, cfg.allowedChannels = some s → c₀.allowlist = s.val) ∧
    (role = .client → (c₀.clientUsername.getD []) = textOf cfg.clientUsername ∧
      (c₀.clientDeviceId.getD []) = textOf cfg.clientDeviceId) := by
  obtain ⟨-, ha, hu, hd⟩ := create_strings h
  have hroom : 0 + storeSize cfg.allowedChannels ≤ cfgStoreSize := by
    have := hf.allowlist
    omega
  have hlist := cfgDup_fits hroom
  rw [hlist] at ha hu hd
  refine ⟨fun s hs => ?_, fun hr => ?_⟩
  · rw [Ctx.allowlist, ha, hs]
    rfl
  · rw [hu, hd]
    have huser := hf.username hr
    have hdev := hf.deviceId hr
    -- A string that does not fit is empty, and so is every later one.
    by_cases hfu : 0 + storeSize cfg.allowedChannels + storeSize cfg.clientUsername ≤ cfgStoreSize
    · rw [cfgDup_fits hfu]
      refine ⟨getD_cut _, ?_⟩
      by_cases hfd : 0 + storeSize cfg.allowedChannels + storeSize cfg.clientUsername +
          storeSize cfg.clientDeviceId ≤ cfgStoreSize
      · rw [cfgDup_fits hfd]
        exact getD_cut _
      · have hempty := hdev.resolve_right (by omega)
        cases hs : cfg.clientDeviceId with
        | none => rfl
        | some s =>
          rw [hs] at hfd hempty
          rw [cfgDup_full (Nat.lt_of_not_le hfd), hempty]
          rfl
    · have hempty := huser.resolve_right (by omega)
      have hempty' := hdev.resolve_right (by omega)
      have hdup : cfgDup (0 + storeSize cfg.allowedChannels) cfg.clientUsername =
          (0 + storeSize cfg.allowedChannels, none) := by
        cases hs : cfg.clientUsername with
        | none => rfl
        | some s =>
          rw [hs] at hfu
          exact cfgDup_full (Nat.lt_of_not_le hfu)
      rw [hdup, hempty, hempty']
      refine ⟨rfl, ?_⟩
      cases hs : cfg.clientDeviceId with
      | none => rfl
      | some s =>
        have hs0 : s.val = [] := by
          rw [hs] at hempty'
          exact hempty'
        unfold cfgDup
        dsimp only
        split
        · rfl
        · exact hs0

/-- A created context that holds the configured strings shows that they fitted. -/
theorem StoreFits.of_strings (h : create E role (some cfg) rng memOk = some c₀)
    (hc : Honours cfg c₀) : StoreFits role cfg := by
  obtain ⟨hrole, ha, hu, hd⟩ := create_strings h
  have hlist : storeSize cfg.allowedChannels ≤ cfgStoreSize := by
    by_contra hn
    cases hs : cfg.allowedChannels with
    | none =>
      rw [hs] at hn
      exact hn (Nat.zero_le _)
    | some s =>
      have he := hc.allowlist s hs
      rw [hs] at hn ha
      rw [Ctx.allowlist, ha, cfgDup_full (by omega), Option.getD_none] at he
      have hl : defaultAllowedChannels.length = s.val.length := congrArg List.length he
      have hd := length_default_lt
      rw [storeSize_some, cfgStoreSize] at hn
      omega
  have hroom : 0 + storeSize cfg.allowedChannels ≤ cfgStoreSize := by omega
  have hdup := cfgDup_fits hroom
  rw [hdup] at hu hd
  have huser : role = .client → textOf cfg.clientUsername = [] ∨
      storeSize cfg.allowedChannels + storeSize cfg.clientUsername ≤ cfgStoreSize := by
    intro hr
    by_contra hn
    rw [not_or] at hn
    have he := hc.username (hrole.trans hr)
    cases hs : cfg.clientUsername with
    | none =>
      rw [hs] at hn
      exact hn.1 rfl
    | some s =>
      rw [hs] at hn hu he
      rw [hu, cfgDup_full (by omega), Option.getD_none, List.take_nil] at he
      exact hn.1 ((List.take_eq_nil_iff.mp he.symm).resolve_left (by decide))
  refine ⟨hlist, huser, fun hr => ?_⟩
  by_contra hn
  rw [not_or] at hn
  have he := hc.deviceId (hrole.trans hr)
  cases hs : cfg.clientDeviceId with
  | none =>
    rw [hs] at hn
    exact hn.1 rfl
  | some s =>
    rw [hs] at hn hd he
    have hpos : 1 < storeSize (some s) := by
      rw [storeSize_some]
      have : s.val ≠ [] := hn.1
      have := List.length_pos_iff.mpr this
      omega
    -- The device id comes last: whatever is stored before it, it did not fit.
    have hnone : (cfgDup (cfgDup (0 + storeSize cfg.allowedChannels) cfg.clientUsername).1
        (some s)).2 = none := by
      by_cases hfu : 0 + storeSize cfg.allowedChannels + storeSize cfg.clientUsername ≤ cfgStoreSize
      · rw [cfgDup_fits hfu, cfgDup_full (by omega)]
      · have hempty := (huser hr).resolve_right (by omega)
        cases hs' : cfg.clientUsername with
        | none =>
          rw [hs'] at hfu
          exact absurd (by simpa [storeSize] using hlist) hfu
        | some u =>
          rw [hs'] at hfu hempty
          have hu0 : storeSize (some u) = 1 := by
            have : u.val = [] := hempty
            rw [storeSize_some, this]
            rfl
          rw [cfgDup_full (Nat.lt_of_not_le hfu), cfgDup_full (by omega)]
    rw [hd, hnone, Option.getD_none, List.take_nil] at he
    exact hn.1 ((List.take_eq_nil_iff.mp he.symm).resolve_left (by decide))

/-- Along every run of a created context the configured strings are honoured, if and only if those
that matter for its role fit into the store. -/
theorem configured_strings_honoured (h : create E role (some cfg) rng memOk = some c₀) :
    (∀ (l : List (Call × Ret)) (c : Ctx Rng SS), Run E (fun _ _ => True) c₀ l c → Honours cfg c) ↔
      StoreFits role cfg := by
  constructor
  · exact fun hall => .of_strings h (hall [] c₀ (.nil c₀))
  · intro hf l c hr
    obtain ⟨hb, hrole⟩ := hr.bound h
    obtain ⟨hlist, hclient⟩ := hf.strings h
    refine ⟨fun s hs => hb.allowlist.trans (hlist s hs), ?_, ?_, ?_, ?_, ?_⟩
    · intro s hs i hi
      rw [← hlist s hs, ← hb.allowlist]
      exact (channelNameAllowed_iff c _).mp (hb.slots i hi)
    · intro s hs e he name hn
      rw [← hlist s hs]
      exact hb.opened e he name hn
    · intro hr
      rw [hb.username, (hclient (hrole.symm.trans hr)).1]
    · intro hr
      rw [hb.deviceId, (hclient (hrole.symm.trans hr)).2]
    · intro hr e he pdu hp
      obtain ⟨h1, h2⟩ := hclient (hrole.symm.trans hr)
      rw [← h1, ← h2]
      exact hb.proofs e he pdu hp

end Created

/-- A client that is limited to the channel tun. -/
def plainTunClient : Config :=
  { plainClient with
    allowedChannels := some ⟨ascii "tun", by decide⟩
    clientUsername := some ⟨ascii "edge", by decide⟩ }

theorem configured_strings_honoured_plain :
    ∃ c₀ : Ctx Unit Unit, create plainEnv .client (some plainTunClient) () true = some c₀ ∧
      ((∀ l c, Run plainEnv (fun _ _ => True) c₀ l c → Honours plainTunClient c) ↔
        StoreFits .client plainTunClient) := by
  have h : (create plainEnv .client (some plainTunClient) () true).isSome := by decide +kernel
  obtain ⟨c₀, hc⟩ := Option.isSome_iff_exists.mp h
  exact ⟨c₀, hc, configured_strings_honoured hc⟩

/-- An allowlist of one name that is too long for the store. -/
def longAllowlist : CString :=
  ⟨List.replicate 2048 97, fun h => absurd (List.eq_of_mem_replicate h) (by decide)⟩

theorem length_longAllowlist : longAllowlist.val.length = 2048 := List.length_replicate

theorem long_allowlist_dropped :
    ¬ ∀ (cfg : Config) (c₀ : Ctx Unit Unit), cfg.allowedChannels.isSome →
      create plainEnv .server (some cfg) () true = some c₀ → Honours cfg c₀ := by
  intro hall
  let cfg : Config := { plainServer with allowedChannels := some longAllowlist }
  have hcreate : (create plainEnv .server (some cfg) () true).isSome := rfl
  obtain ⟨c₀, hc⟩ := Option.isSome_iff_exists.mp hcreate
  have h := (hall cfg c₀ rfl hc).allowlist longAllowlist rfl
  have hfull : cfgStoreSize < 0 + storeSize (some longAllowlist) := by
    rw [storeSize_some, length_longAllowlist, cfgStoreSize]
    omega
  have hl := congrArg List.length h
  obtain ⟨-, ha, -, -⟩ := create_strings hc
  rw [Ctx.allowlist, ha, cfgDup_full hfull, length_longAllowlist] at hl
  have hd := length_default_lt
  rw [Option.getD_none] at hl
  omega

end Sodchan
