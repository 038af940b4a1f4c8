import Sodchan.Channel.Table
import Sodchan.Session.Effects

/-! # The code keeps the table

Every handler of a channel PDU and every channel call does one deed of the
table, and every other function of the engine leaves the table alone.
-/

namespace Sodchan

open ByteString

variable {Rng SS : Type} {E : Env Rng SS} {c c' c'' : Ctx Rng SS} {a : Deed}

/-- What is fixed when a context is created and never changes again. -/
structure Settings where
  role : Role
  eventQueueSize : ℕ
  maxRecordSize : ℕ
  maxChannelData : ℕ
  maxChannels : ℕ
  initialWindow : UInt32
  maxPacket : UInt32
  acceptAnyServerPk : Bool
  labMode : Bool
  clientIdPk : Key
  clientIdSk : SecKey
  serverIdSk : SecKey
  haveClientIdPk : Bool
  haveClientIdSk : Bool
  haveServerIdSk : Bool
  cfgStoreUsed : ℕ
  allowedChannels : Option Bytes
  clientUsername : Option Bytes
  clientDeviceId : Option Bytes

namespace Ctx

def settings (c : Ctx Rng SS) : Settings where
  role := c.role
  eventQueueSize := c.eventQueueSize
  maxRecordSize := c.maxRecordSize
  maxChannelData := c.maxChannelData
  maxChannels := c.maxChannels
  initialWindow := c.initialWindow
  maxPacket := c.maxPacket
  acceptAnyServerPk := c.acceptAnyServerPk
  labMode := c.labMode
  clientIdPk := c.clientIdPk
  clientIdSk := c.clientIdSk
  serverIdSk := c.serverIdSk
  haveClientIdPk := c.haveClientIdPk
  haveClientIdSk := c.haveClientIdSk
  haveServerIdSk := c.haveServerIdSk
  cfgStoreUsed := c.cfgStoreUsed
  allowedChannels := c.allowedChannels
  clientUsername := c.clientUsername
  clientDeviceId := c.clientDeviceId

def table (c : Ctx Rng SS) : Table := ⟨c.channels, c.nextLocalChannelId, c.allocs⟩

def terms (c : Ctx Rng SS) : Terms := ⟨c.initialWindow, c.maxPacket, channelNameAllowed c⟩

def entries (c : Ctx Rng SS) : List Entry := c.hist.filterMap Occ.toEntry

end Ctx

theorem terms_congr (h : c'.settings = c.settings) : c'.terms = c.terms := by
  have hw : c'.initialWindow = c.initialWindow := congrArg Settings.initialWindow h
  have hp : c'.maxPacket = c.maxPacket := congrArg Settings.maxPacket h
  have ha : c'.allowedChannels = c.allowedChannels := congrArg Settings.allowedChannels h
  have hn : channelNameAllowed c' = channelNameAllowed c := by
    funext name
    simp only [channelNameAllowed, ha]
  rw [Ctx.terms, hw, hp, hn]
  rfl

/-- No deed: the table, the settings and what the history says about channels stay, but for the
entries listed. -/
structure Rest (l : List Entry) (c c' : Ctx Rng SS) : Prop where
  table : c'.table = c.table
  active : c'.activeChannels = c.activeChannels
  settings : c'.settings = c.settings
  hist : ∃ h, c'.hist = c.hist ++ h ∧ h.filterMap Occ.toEntry = l

structure Deals (c c' : Ctx Rng SS) (a : Deed) : Prop where
  enabled : a.Enabled c.terms c.table
  table : c'.table = a.apply c.terms c.table
  active : c'.activeChannels = a.tally c.activeChannels
  limit : a.tally c.activeChannels ≤ max c.activeChannels c.maxChannels
  settings : c'.settings = c.settings
  hist : ∃ h, c'.hist = c.hist ++ h ∧ h.filterMap Occ.toEntry = a.entries c.terms c.table

namespace Rest

variable {l l' : List Entry}

theorem refl (c : Ctx Rng SS) : Rest [] c c := ⟨rfl, rfl, rfl, [], by simp, rfl⟩

theorem trans (h : Rest l c c') (h' : Rest l' c' c'') : Rest (l ++ l') c c'' := by
  obtain ⟨k, hk, hl⟩ := h.hist
  obtain ⟨k', hk', hl'⟩ := h'.hist
  refine ⟨h'.table.trans h.table, h'.active.trans h.active, h'.settings.trans h.settings,
    k ++ k', ?_, ?_⟩
  · rw [hk', hk, List.append_assoc]
  · rw [List.filterMap_append, hl, hl']

theorem then_ (h : Rest [] c c') (h' : Rest [] c' c'') : Rest [] c c'' := h.trans h'

theorem same (ht : c'.table = c.table) (hn : c'.activeChannels = c.activeChannels)
    (hs : c'.settings = c.settings) (hh : c'.hist = c.hist) : Rest [] c c' :=
  ⟨ht, hn, hs, [], by rw [hh, List.append_nil], rfl⟩

theorem logged (ht : c'.table = c.table) (hn : c'.activeChannels = c.activeChannels)
    (hs : c'.settings = c.settings) {o : Occ} (hh : c'.hist = c.hist ++ [o]) :
    Rest o.toEntry.toList c c' := by
  refine ⟨ht, hn, hs, [o], hh, ?_⟩
  cases h : o.toEntry <;> simp [h]

theorem log (o : Occ) : Rest o.toEntry.toList c (c.log o) := by
  refine logged ?_ ?_ ?_ ?_ <;> rfl

theorem emitted (ev : Event) : Rest (if ev.isChannel then [.event ev] else []) c (emit c ev) := by
  have h : Rest (emitOcc c ev).toEntry.toList c (emit c ev) := by
    rw [emit_eq]
    refine logged ?_ ?_ ?_ ?_ <;> rfl
  have he : (emitOcc c ev).toEntry.toList = if ev.isChannel then [.event ev] else [] := by
    rcases emitOcc_cases c ev with h | h <;> rw [h] <;> unfold Occ.toEntry <;> dsimp only <;>
      split <;> rfl
  rwa [he] at h

theorem event (ev : Event) (h : ev.isChannel = false) : Rest [] c (emit c ev) := by
  have := emitted (c := c) ev
  rwa [h] at this

theorem failed (code : Rc) (msg : String) : Rest [] c (setError c code msg) := by
  have hfail : Rest [] c
      { c with
        error := if code = .ok then .protocol else code, state := .error, errorMsg := msg } :=
    same rfl rfl rfl rfl
  exact hfail.then_ (event (.error _ msg) rfl)

theorem pushed {plain : Bytes} {st : SS} {ct : Bytes} :
    Rest (Entry.ofSent plain).toList c (c.pushed plain st ct) := by
  refine ⟨rfl, rfl, rfl, [.sent plain, .appended (rawFrame ct)], rfl, ?_⟩
  cases h : Entry.ofSent plain <;> simp [Occ.toEntry, h]

theorem send (E : Env Rng SS) (c : Ctx Rng SS) (plain : Bytes) :
    (Rest (Entry.ofSent plain).toList c (ssSendPdu E c plain).1 ∧
      (ssSendPdu E c plain).2 = .ok) ∨
    (Rest [] c (ssSendPdu E c plain).1 ∧ (ssSendPdu E c plain).2 ≠ .ok) := by
  obtain ⟨st, ct, -, -, h⟩ | ⟨b, o, rc, -, -, hrc, h⟩ := ssSendPdu_cases E c plain <;> rw [h]
  · exact Or.inl ⟨pushed, rfl⟩
  · exact Or.inr ⟨same rfl rfl rfl rfl, hrc⟩

theorem send_other (E : Env Rng SS) (c : Ctx Rng SS) {plain : Bytes}
    (h : Entry.ofSent plain = none) : Rest [] c (ssSendPdu E c plain).1 := by
  obtain ⟨hs, -⟩ | ⟨hs, -⟩ := send E c plain
  · rwa [h] at hs
  · exact hs

theorem deals (h : Rest [] c c') : Deals c c' .idle :=
  ⟨trivial, h.table, h.active, le_max_left _ _, h.settings, h.hist⟩

end Rest

namespace Deals

theorem rest (h : Deals c c' a) (hr : Rest [] c' c'') : Deals c c'' a := by
  obtain ⟨k, hk, hl⟩ := h.hist
  obtain ⟨k', hk', hl'⟩ := hr.hist
  refine ⟨h.enabled, hr.table.trans h.table, hr.active.trans h.active, h.limit,
    hr.settings.trans h.settings, k ++ k', ?_, ?_⟩
  · rw [hk', hk, List.append_assoc]
  · rw [List.filterMap_append, hl, hl', List.append_nil]

/-- The entries of the deed, then its change of the table. -/
theorem of_rest {l : List Entry} (h : Rest l c c') (ha : a.Enabled c.terms c.table)
    (he : a.entries c.terms c.table = l) (ht : c''.table = a.apply c.terms c.table)
    (hn : c''.activeChannels = a.tally c'.activeChannels)
    (hl : a.tally c.activeChannels ≤ max c.activeChannels c.maxChannels)
    (hs : c''.settings = c'.settings) (hh : c''.hist = c'.hist) : Deals c c'' a :=
  ⟨ha, ht, by rw [hn, h.active], hl, hs.trans h.settings, by rw [hh, he]; exact h.hist⟩

end Deals

theorem headD_of_ofBytes {b : Bytes} (h : Pdu.ofBytes b ≠ .other) : (b.headD 0).toNat ≤ 7 := by
  by_contra hn
  have hne : ∀ x : UInt8, x.toNat ≤ 7 → b.headD 0 ≠ x := by
    rintro x hx rfl
    exact hn hx
  apply h
  unfold Pdu.ofBytes
  dsimp only
  rw [if_neg (hne pduChannelOpen (by decide)), if_neg (hne pduChannelOpenConfirm (by decide)),
    if_neg (hne pduChannelOpenFail (by decide)), if_neg (hne pduChannelWindow (by decide)),
    if_neg (hne pduChannelData (by decide)), if_neg (hne pduChannelEof (by decide)),
    if_neg (hne pduChannelClose (by decide))]

theorem ofSent_eq {b : Bytes} {p : Pdu} (h : Pdu.ofBytes b = p) (hp : p ≠ .other) :
    Entry.ofSent b = some (.sent p) := by
  have hhead := headD_of_ofBytes (b := b) (by rwa [h])
  have hne : b.headD 0 ≠ pduAuthDevice := by
    intro he
    rw [he] at hhead
    exact absurd hhead (by decide)
  rw [Entry.ofSent, if_neg hne, Pdu.ofChannel, h]
  cases p <;> first | rfl | exact absurd rfl hp

theorem ofSent_none {b : Bytes} (h : 7 < (b.headD 0).toNat) (hd : b.headD 0 ≠ pduAuthDevice) :
    Entry.ofSent b = none := by
  have hp : Pdu.ofBytes b = .other := by
    by_contra hn
    have := headD_of_ofBytes hn
    omega
  rw [Entry.ofSent, if_neg hd, Pdu.ofChannel, hp]
  rfl

theorem chByLocal_eq (c : Ctx Rng SS) (id : UInt32) : chByLocal c id = c.table.find id := rfl

theorem emit_table (c : Ctx Rng SS) (ev : Event) : (emit c ev).table = c.table := by
  rw [emit_eq]
  rfl

theorem setCh_table (c : Ctx Rng SS) (i : Fin maxChannelSlots) (ch : Channel) :
    (setCh c i ch).table = c.table.put i ch := rfl

theorem chFree_table {i : Fin maxChannelSlots} (h : (c.channels i).state ≠ .unused) :
    (chFree c i).table = c.table.free i ∧ (chFree c i).activeChannels = c.activeChannels - 1 ∧
      (chFree c i).settings = c.settings ∧ (chFree c i).hist = c.hist := by
  unfold chFree
  rw [if_neg h]
  exact ⟨rfl, rfl, rfl, rfl⟩

theorem deals_emit {i : Fin maxChannelSlots} {ch : Channel} {ev : Event} (hev : ev.isChannel)
    (ha : a.Enabled c.terms c.table) (ht : c.table.put i ch = a.apply c.terms c.table)
    (hn : a.tally c.activeChannels = c.activeChannels)
    (he : a.entries c.terms c.table = [.event ev]) : Deals c (emit (setCh c i ch) ev) a := by
  have h := Rest.emitted (c := c) ev
  rw [if_pos hev] at h
  refine .of_rest h ha he ?_ ?_ (hn.trans_le (le_max_left _ _)) ?_ ?_
  · rw [emit_table, setCh_table, ht]
  · rw [h.active, hn, emit_eq]
    rfl
  · rw [emit_eq, emit_eq]
    rfl
  · rw [emit_eq, emit_eq]
    rfl

theorem deals_free {i : Fin maxChannelSlots} {ev : Event} (hev : ev.isChannel)
    (hu : (c.channels i).state ≠ .unused) (ha : a.Enabled c.terms c.table)
    (ht : c.table.free i = a.apply c.terms c.table) (hn : a.tally = fun n => n - 1)
    (he : a.entries c.terms c.table = [.event ev]) : Deals c (chFree (emit c ev) i) a := by
  have h := Rest.emitted (c := c) ev
  rw [if_pos hev] at h
  obtain ⟨h1, h2, h3, h4⟩ := chFree_table (c := emit c ev) (i := i) (by rw [emit_eq]; exact hu)
  have hl : a.tally c.activeChannels ≤ max c.activeChannels c.maxChannels := by
    rw [hn]
    exact (Nat.sub_le _ _).trans (le_max_left _ _)
  exact .of_rest h ha he (by rw [h1, emit_table, ht]) (by rw [h2, hn]) hl h3 h4

/-- A PDU without effect: no channel that it names is in use, or in the state that it asks for. -/
def Pdu.Moot (s : Table) : Pdu → Prop
  | channelOpenConfirm .. | channelData .. => False
  | channelOpenFail r => ∀ i, s.find r = some i → (s.slot i).state ≠ .opening
  | channelWindow r _ => ∀ i, s.find r = some i → (s.slot i).state ≠ .open_
  | channelEof r | channelClose r => s.find r = none
  | channelOpen .. | other => True

/-- A PDU that ends the session. -/
def Pdu.Fatal (s : Table) : Pdu → Prop
  | channelOpenConfirm _ r .. => ∀ i, s.find r = some i → (s.slot i).state ≠ .opening
  | channelData r payload => ∀ i, s.find r = some i → (s.slot i).state = .open_ →
      (s.slot i).recvWindow.toNat < payload.length ∨ dataMax < payload.length
  | other => True
  | _ => False

/-- Why a PDU brings about no deed. -/
def Excused (s : Table) (p : Pdu) (c' : Ctx Rng SS) : Prop := p.Moot s ∨ c'.ended ∧ p.Fatal s

/-- The PDU is answered by a deed, and by none only for a reason. -/
def Heeds (c c' : Ctx Rng SS) (p : Pdu) : Prop :=
  ∃ a : Deed, a.Takes c.table p ∧ Deals c c' a ∧ (a = .idle → Excused c.table p c')

theorem Rest.idle {p : Pdu} (h : Rest [] c c') (he : Excused c.table p c') : Heeds c c' p :=
  ⟨.idle, trivial, h.deals, fun _ => he⟩

theorem Rest.fatal {p : Pdu} {code : Rc} {msg : String} (h : Rest [] c (setError c' code msg))
    (hp : p.Fatal c.table) : Heeds c (setError c' code msg) p :=
  h.idle (Or.inr ⟨Or.inl (setError_state c' code msg), hp⟩)

theorem Pdu.fatal_other {p : Pdu} (h : p = .other) (s : Table) : p.Fatal s := by
  rw [h]
  trivial

theorem rest_noChannel (r : UInt32) (code : Rc) (msg : String) :
    Rest [] c (setError (c.log (.noChannel r)) code msg) :=
  (Rest.log (.noChannel r)).trans (.failed code msg)

section Inbound

variable {plain : Bytes}

theorem sendReply_deals {peer : UInt32} {reply : Except Rc Bytes}
    (hr : ∀ b, reply = .ok b → Pdu.ofBytes b = .channelOpenFail peer) :
    ∃ a : Deed, (a = .idle ∨ a = .refused peer) ∧ Deals c (sendReply E c reply) a := by
  unfold sendReply
  cases reply with
  | error rc => exact ⟨.idle, Or.inl rfl, (Rest.send_other E c rfl).deals⟩
  | ok b =>
    have hb : Entry.ofSent b = some (.sent (.channelOpenFail peer)) :=
      ofSent_eq (hr b rfl) (by rintro ⟨⟩)
    obtain ⟨h, -⟩ | ⟨h, -⟩ := Rest.send E c b
    · rw [hb] at h
      exact ⟨.refused peer, Or.inr rfl,
        .of_rest h trivial rfl h.table rfl (le_max_left _ _) rfl rfl⟩
    · exact ⟨.idle, Or.inl rfl, h.deals⟩

theorem muxChannelOpen_heeds (h : plain.headD 0 = pduChannelOpen) :
    Heeds c (muxChannelOpen E c plain).1 (Pdu.ofBytes plain) := by
  unfold muxChannelOpen
  split
  · rename_i hd
    refine (Rest.failed _ _).fatal (Pdu.fatal_other ?_ _)
    unfold Pdu.ofBytes
    rw [h]
    simp [hd]
  · rename_i p hd
    have hp : Pdu.ofBytes plain =
        .channelOpen p.senderChannel p.initWindow p.maxPacket (cstr p.name) := by
      unfold Pdu.ofBytes
      rw [h]
      simp [hd]
    have hreply : ∀ reply : Except Rc Bytes,
        (∀ b, reply = .ok b → Pdu.ofBytes b = .channelOpenFail p.senderChannel) →
        Heeds c (sendReply E c reply) (Pdu.ofBytes plain) := by
      intro reply hr
      obtain ⟨a, rfl | rfl, ha⟩ := sendReply_deals (E := E) (c := c) hr
      · exact ⟨.idle, trivial, ha, fun _ => Or.inl (hp ▸ trivial)⟩
      · exact ⟨.refused p.senderChannel, ⟨_, _, _, hp⟩, ha, by rintro ⟨⟩⟩
    dsimp only
    split
    · dsimp only
      exact hreply _ fun b hb => Pdu.ofBytes_channelOpenFail hb
    · rename_i hname
      rw [not_not] at hname
      split
      · dsimp only
        exact hreply _ fun b hb => Pdu.ofBytes_channelOpenFail hb
      · rename_i c' i ha
        obtain ⟨hu, hroom, rfl⟩ := chAlloc_eq_some ha
        refine ⟨.offered i p.senderChannel p.initWindow p.maxPacket (cstr p.name), hp, ?_,
          by rintro ⟨⟩⟩
        have hself : (c.allocated i).channels i =
            { Channel.zero with localId := c.nextLocalChannelId } := Function.update_self _ _ _
        have h := Rest.emitted (c := c) (.channelOpen c.nextLocalChannelId p.senderChannel
          (cstr p.name) p.initWindow (if p.maxPacket ≠ 0 then p.maxPacket else c.maxPacket))
        refine .of_rest h ⟨hu, hname⟩ rfl ?_ ?_
          (Nat.succ_le_of_lt (hroom.trans_le (le_max_right _ _)))
          ?_ ?_
        · rw [emit_table]
          simp only [hself]
          simp [Ctx.table, setCh, Ctx.allocated, Deed.apply, Table.take, Table.put, Channel.zero,
            Ctx.terms, Deed.packetOf]
        · rw [emit_eq, emit_eq]
          rfl
        · rw [emit_eq, emit_eq]
          rfl
        · simp only [hself]
          rw [emit_eq, emit_eq]
          rfl

theorem muxChannelOpenConfirm_heeds (h : plain.headD 0 = pduChannelOpenConfirm) :
    Heeds c (muxChannelOpenConfirm c plain).1 (Pdu.ofBytes plain) := by
  unfold muxChannelOpenConfirm
  split
  · rename_i hd
    refine (Rest.failed _ _).fatal (Pdu.fatal_other ?_ _)
    unfold Pdu.ofBytes
    rw [h]
    simp [hd, pduChannelOpenConfirm, pduChannelOpen]
  · rename_i p hd
    have hp : Pdu.ofBytes plain = .channelOpenConfirm p.senderChannel p.recipientChannel
        p.initWindow p.maxPacket := by
      unfold Pdu.ofBytes
      rw [h]
      simp [hd, pduChannelOpenConfirm, pduChannelOpen]
    rw [hp]
    split
    · rename_i hi
      rw [chByLocal_eq] at hi
      refine (rest_noChannel _ _ _).fatal fun i hf => ?_
      rw [hi] at hf
      cases hf
    · rename_i i hi
      rw [chByLocal_eq] at hi
      split
      · rename_i hst
        refine (Rest.failed _ _).fatal fun j hf => ?_
        rw [hi] at hf
        cases hf
        exact hst
      · rename_i hst
        rw [not_not] at hst
        refine ⟨.confirmed i p.senderChannel p.initWindow p.maxPacket, ?_, ?_, by rintro ⟨⟩⟩
        · rw [← (Table.find_some hi).2]
          rfl
        · exact deals_emit rfl ⟨Table.named_of_find hi, hst⟩ rfl rfl rfl

theorem muxChannelOpenFail_heeds (h : plain.headD 0 = pduChannelOpenFail) :
    Heeds c (muxChannelOpenFail c plain).1 (Pdu.ofBytes plain) := by
  unfold muxChannelOpenFail
  split
  · rename_i hd
    refine (Rest.failed _ _).fatal (Pdu.fatal_other ?_ _)
    unfold Pdu.ofBytes
    rw [h]
    simp [hd, pduChannelOpenConfirm, pduChannelOpen, pduChannelOpenFail]
  · rename_i r rest hd
    have hp : Pdu.ofBytes plain = .channelOpenFail r := by
      unfold Pdu.ofBytes
      rw [h]
      simp [hd, pduChannelOpenConfirm, pduChannelOpen, pduChannelOpenFail]
    rw [hp]
    split
    · rename_i hi
      rw [chByLocal_eq] at hi
      refine (Rest.refl c).idle (Or.inl fun i hf => ?_)
      rw [hi] at hf
      cases hf
    · rename_i i hi
      rw [chByLocal_eq] at hi
      split
      · rename_i hst
        refine ⟨.failed i, ?_, ?_, by rintro ⟨⟩⟩
        · rw [← (Table.find_some hi).2]
          rfl
        · exact deals_free rfl (Table.find_some hi).1 ⟨Table.named_of_find hi, hst⟩ rfl rfl rfl
      · rename_i hst
        refine (Rest.refl c).idle (Or.inl fun j hf => ?_)
        rw [hi] at hf
        cases hf
        exact hst

theorem muxChannelData_heeds (h : plain.headD 0 = pduChannelData) :
    Heeds c (muxChannelData c plain).1 (Pdu.ofBytes plain) := by
  unfold muxChannelData
  split
  · rename_i hd
    refine (Rest.failed _ _).fatal (Pdu.fatal_other ?_ _)
    unfold Pdu.ofBytes
    rw [h]
    simp [hd, pduChannelOpenConfirm, pduChannelOpen, pduChannelOpenFail, pduChannelWindow,
      pduChannelData]
  · rename_i r data hd
    have hp : Pdu.ofBytes plain = .channelData r data := by
      unfold Pdu.ofBytes
      rw [h]
      simp [hd, pduChannelOpenConfirm, pduChannelOpen, pduChannelOpenFail,
        pduChannelWindow, pduChannelData]
    rw [hp]
    split
    · rename_i hi
      rw [chByLocal_eq] at hi
      refine (rest_noChannel _ _ _).fatal fun i hf => ?_
      rw [hi] at hf
      cases hf
    · rename_i i hi
      rw [chByLocal_eq] at hi
      have hfatal : (c.table.slot i).state = .open_ →
          (c.table.slot i).recvWindow.toNat < data.length ∨ dataMax < data.length →
          (Pdu.channelData r data).Fatal c.table := by
        intro _ hover j hf _
        rw [hi] at hf
        cases hf
        exact hover
      have hclosed : (c.table.slot i).state ≠ .open_ → (Pdu.channelData r data).Fatal c.table := by
        intro hst j hf hopen
        rw [hi] at hf
        cases hf
        exact absurd hopen hst
      dsimp only
      split
      · rename_i hst
        exact (Rest.failed _ _).fatal (hclosed hst.1)
      · split
        · rename_i hst
          exact (Rest.failed _ _).fatal (hclosed hst)
        · rename_i hst
          rw [not_not] at hst
          split
          · rename_i hw
            exact (Rest.failed _ _).fatal (hfatal hst (Or.inl hw))
          · rename_i hw
            split
            · rename_i hmax
              exact (Rest.failed _ _).fatal (hfatal hst (Or.inr hmax))
            · rename_i hmax
              refine ⟨.data i data, ?_, ?_, by rintro ⟨⟩⟩
              · rw [← (Table.find_some hi).2]
                rfl
              · exact deals_emit rfl ⟨Table.named_of_find hi, hst, Nat.not_lt.mp hw,
                  Nat.not_lt.mp hmax⟩ rfl rfl rfl

theorem muxChannelWindow_heeds (h : plain.headD 0 = pduChannelWindow) :
    Heeds c (muxChannelWindow c plain).1 (Pdu.ofBytes plain) := by
  unfold muxChannelWindow
  split
  · rename_i hd
    refine (Rest.failed _ _).fatal (Pdu.fatal_other ?_ _)
    unfold Pdu.ofBytes
    rw [h]
    simp [hd, pduChannelOpenConfirm, pduChannelOpen, pduChannelOpenFail, pduChannelWindow]
  · rename_i r add hd
    have hp : Pdu.ofBytes plain = .channelWindow r add := by
      unfold Pdu.ofBytes
      rw [h]
      simp [hd, pduChannelOpenConfirm, pduChannelOpen, pduChannelOpenFail,
        pduChannelWindow]
    rw [hp]
    split
    · rename_i hi
      rw [chByLocal_eq] at hi
      refine (Rest.refl c).idle (Or.inl fun i hf => ?_)
      rw [hi] at hf
      cases hf
    · rename_i i hi
      rw [chByLocal_eq] at hi
      dsimp only
      split
      · rename_i hst
        refine (Rest.refl c).idle (Or.inl fun j hf => ?_)
        rw [hi] at hf
        cases hf
        exact hst
      · rename_i hst
        rw [not_not] at hst
        refine ⟨.credit i add, ?_, ?_, by rintro ⟨⟩⟩
        · rw [← (Table.find_some hi).2]
          rfl
        · exact deals_emit rfl ⟨Table.named_of_find hi, hst⟩ rfl rfl rfl

theorem muxChannelEof_heeds (h : plain.headD 0 = pduChannelEof) :
    Heeds c (muxChannelEof c plain).1 (Pdu.ofBytes plain) := by
  unfold muxChannelEof
  split
  · rename_i hd
    refine (Rest.failed _ _).fatal (Pdu.fatal_other ?_ _)
    unfold Pdu.ofBytes
    rw [h]
    simp [hd, pduChannelOpenConfirm, pduChannelOpen, pduChannelOpenFail, pduChannelWindow,
      pduChannelData, pduChannelEof]
  · rename_i r hd
    have hp : Pdu.ofBytes plain = .channelEof r := by
      unfold Pdu.ofBytes
      rw [h]
      simp [hd, pduChannelOpenConfirm, pduChannelOpen, pduChannelOpenFail,
        pduChannelWindow, pduChannelData, pduChannelEof]
    rw [hp]
    split
    · rename_i hi
      rw [chByLocal_eq] at hi
      exact (Rest.refl c).idle (Or.inl hi)
    · rename_i i hi
      rw [chByLocal_eq] at hi
      refine ⟨.eof i, ?_, ?_, by rintro ⟨⟩⟩
      · rw [← (Table.find_some hi).2]
        rfl
      · exact deals_emit rfl (Table.named_of_find hi) rfl rfl rfl

theorem muxChannelClose_heeds (h : plain.headD 0 = pduChannelClose) :
    Heeds c (muxChannelClose c plain).1 (Pdu.ofBytes plain) := by
  unfold muxChannelClose
  split
  · rename_i hd
    refine (Rest.failed _ _).fatal (Pdu.fatal_other ?_ _)
    unfold Pdu.ofBytes
    rw [h]
    simp [hd, pduChannelOpenConfirm, pduChannelOpen, pduChannelOpenFail, pduChannelWindow,
      pduChannelData, pduChannelEof, pduChannelClose]
  · rename_i r hd
    have hp : Pdu.ofBytes plain = .channelClose r := by
      unfold Pdu.ofBytes
      rw [h]
      simp [hd, pduChannelOpenConfirm, pduChannelOpen, pduChannelOpenFail,
        pduChannelWindow, pduChannelData, pduChannelEof, pduChannelClose]
    rw [hp]
    split
    · rename_i hi
      rw [chByLocal_eq] at hi
      exact (Rest.refl c).idle (Or.inl hi)
    · rename_i i hi
      rw [chByLocal_eq] at hi
      refine ⟨.closed i, ?_, ?_, by rintro ⟨⟩⟩
      · rw [← (Table.find_some hi).2]
        rfl
      · exact deals_free rfl (Table.find_some hi).1 (Table.named_of_find hi) rfl rfl rfl

end Inbound

end Sodchan
