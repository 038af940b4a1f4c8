import Sodchan.Channel.Bounds
import Sodchan.Link.Flow

/-! # The record layer of an endpoint

An endpoint says its HELLO, its header and then one frame for each record it
pushes; it hears a HELLO, a header and then one frame for each record it pulls.
Both hold along every run against a peer that keeps to the same order.
-/

namespace Sodchan

open ByteString

variable {Rng SS : Type} {E : Env Rng SS} {c c' : Ctx Rng SS}

/-- Secretstream as a coder of plaintexts with their tags. -/
def ssCoder (E : Env Rng SS) : Coder SS SS (Bytes × UInt8) Bytes where
  encode st a := E.ssPush st a.1 a.2
  decode st b := E.ssPull st b

def SessionKeys (E : Env Rng SS) : Role → Key → Key → Key → Key → Key → Prop
  | .client => ClientKeys E
  | .server => ServerKeys E

namespace Seat

def pushKey (s : Seat SS) : Key :=
  match s.settings.role with
  | .client => s.ssKeyC2s
  | .server => s.ssKeyS2c

def pullKey (s : Seat SS) : Key :=
  match s.settings.role with
  | .client => s.ssKeyS2c
  | .server => s.ssKeyC2s

/-- The HELLO of an endpoint. -/
inductive Greets (E : Env Rng SS) (s : Seat SS) : Wire.Hello → Prop where
  | client : s.settings.role = .client → Greets E s ⟨protoVersion, suiteV1, s.settings.role.code, 0,
      s.ephPk, if s.settings.haveClientIdPk then s.settings.clientIdPk else BytesN.zero 32,
      BytesN.zero 64⟩
  | server (sig : Sig) : s.settings.role = .server →
      E.signDetached (Wire.buildTHello protoVersion suiteV1 s.peerEphPk s.ephPk s.serverIdPk).val
        s.settings.serverIdSk = some sig →
      Greets E s ⟨protoVersion, suiteV1, s.settings.role.code, 0, s.ephPk, s.serverIdPk, sig⟩

theorem Greets.decode {s : Seat SS} {h : Wire.Hello} (hg : s.Greets E h) :
    Wire.helloDecode (Wire.helloBody h) = .ok h ∧ h.ephPk = s.ephPk := by
  cases hg with
  | client hr => exact ⟨Wire.helloDecode_body rfl rfl (Or.inr (by rw [hr])), rfl⟩
  | server sig hr => exact ⟨Wire.helloDecode_body rfl rfl (Or.inl (by rw [hr])), rfl⟩

structure Keyed (E : Env Rng SS) (s : Seat SS) (t : Trace) : Prop where
  hello : ∃ b h, [rawFrame b] <+: t.frames ∧ Wire.helloDecode b = .ok h ∧ h.ephPk = s.peerEphPk
  keys : SessionKeys E s.settings.role s.ephPk s.ephSk s.peerEphPk s.ssKeyC2s s.ssKeyS2c

def frameMaxBody (E : Env Rng SS) (s : Seat SS) : ℕ :=
  let m := (s.settings.maxRecordSize + ssAbytes) % (E.sizeMax + 1)
  let m := if 0xFFFFFFFF < m then 0xFFFFFFFF else m
  if inBufSize < (m + 4) % (E.sizeMax + 1) then inBufSize - 4 else m

structure Pushed (E : Env Rng SS) (s : Seat SS) (x : (Bytes × UInt8) × Bytes) : Prop where
  tag : x.1.2 = tagMessage
  nonempty : x.1.1 ≠ []
  buffer : x.1.1.length ≤ plainBufSize
  record : x.1.1.length ≤ s.settings.maxRecordSize
  body : x.2.length ≤ s.frameMaxBody E
  length : x.2.length = x.1.1.length + ssAbytes

/-- What an endpoint has said. -/
inductive Spoken (E : Env Rng SS) (s : Seat SS) (t : Trace) (gone : Prop) : Prop where
  | nothing : s.settings.role = .server → t.appended = [] → t.sent = [] →
      gone ∨ s.hs = .waitPeerHello ∧ s.ssPushReady = false → Spoken E s t gone
  | greeted (h : Wire.Hello) : t.appended = [rawFrame (Wire.helloBody h)] → t.sent = [] →
      gone ∨ s.Greets E h ∧ s.ssPushReady = false ∧
        (s.settings.role = .client ∧ s.hs = .waitPeerHello ∨
          s.settings.role = .server ∧ s.hs = .waitPeerSs) → Spoken E s t gone
  | opened (h : Wire.Hello) (header : SsHeader) (st : SS) (rng rng' : Rng)
      (l : List ((Bytes × UInt8) × Bytes)) : s.Greets E h → s.Keyed E t →
      E.ssInitPush rng s.pushKey = (some (st, header), rng') →
      (ssCoder E).Encodes st l s.ssPush → (∀ x ∈ l, s.Pushed E x) →
      t.appended =
        rawFrame (Wire.helloBody h) :: rawFrame header.val :: l.map (fun x => rawFrame x.2) →
      t.sent = l.map (fun x => x.1.1) →
      gone ∨ s.settings.role = .client ∧ s.hs = .waitPeerSs ∨ s.hs = .done → Spoken E s t gone

/-- What an endpoint has heard. -/
inductive Listened (E : Env Rng SS) (s : Seat SS) (t : Trace) (gone : Prop) : Prop where
  | gone : gone → t.records = [] → Listened E s t gone
  | nothing : s.hs = .waitPeerHello → t.frames = [] → t.records = [] → Listened E s t gone
  | greeted (b : Bytes) : s.hs = .waitPeerSs → t.frames = [rawFrame b] → s.Keyed E t →
      t.records = [] → Listened E s t gone
  | opened (b : Bytes) (header : SsHeader) (st : SS) : s.hs = .done → s.Keyed E t →
      E.ssInitPull header s.pullKey = some st → s.ssPullReady →
      (ssCoder E).Decodes st (t.records.map fun r => (r.2, r.1)) s.ssPull →
      t.frames = rawFrame b :: rawFrame header.val :: t.records.map (fun r => rawFrame r.1) →
      Listened E s t gone

end Seat

/-- The record layer of an endpoint is in order. -/
structure InOrder (E : Env Rng SS) (c : Ctx Rng SS) : Prop where
  spoken : c.seat.Spoken E c.trace c.ended
  listened : c.seat.Listened E c.trace c.ended
  calm : c.alarms = []

open Seat

theorem Seat.Spoken.mono {s : Seat SS} {t : Trace} {p q : Prop} (h : s.Spoken E t p) (hq : p → q) :
    s.Spoken E t q := by
  cases h with
  | nothing hr ha hs ho => exact .nothing hr ha hs (ho.imp_left hq)
  | greeted h ha hs ho => exact .greeted h ha hs (ho.imp_left hq)
  | opened h header st rng rng' l hg hk hi he hf ha hs ho =>
    exact .opened h header st rng rng' l hg hk hi he hf ha hs (ho.imp_left hq)

theorem Seat.Listened.mono {s : Seat SS} {t : Trace} {p q : Prop} (h : s.Listened E t p)
    (hq : p → q) : s.Listened E t q := by
  cases h with
  | gone ho hr => exact .gone (hq ho) hr
  | nothing hs hf hr => exact .nothing hs hf hr
  | greeted b hs hf hk hr => exact .greeted b hs hf hk hr
  | opened b header st hs hk hi hp hd hf => exact .opened b header st hs hk hi hp hd hf

namespace InOrder

theorem still (h : InOrder E c) (hs : Still c c') : InOrder E c' := by
  obtain ⟨hsp, hli, hc⟩ := h
  refine ⟨?_, ?_, ?_⟩
  · rw [hs.seat, hs.trace]
    exact hsp.mono hs.ended
  · rw [hs.seat, hs.trace]
    exact hli.mono hs.ended
  · exact (congrArg Trace.alarms hs.trace).trans hc

theorem trace_pushed (c : Ctx Rng SS) (plain : Bytes) (st : SS) (ct : Bytes) :
    (c.pushed plain st ct).trace = { c.trace with
      appended := c.appended ++ [rawFrame ct], sent := c.sent ++ [plain] } := by
  simp [Ctx.trace, Ctx.alarms, Ctx.emitted, Ctx.appended, Ctx.sent, Ctx.frames, Ctx.records,
    Ctx.pushed, Occ.appended?, Occ.sent?, Occ.frame?, Occ.pulled?, Occ.emitted?]
  rfl

theorem push (hE : StreamLengths E) (h : InOrder E c) (hp : Pushes E c c') : InOrder E c' := by
  obtain ⟨hl, hb, hroom, hpush⟩ := hp
  rename_i plain st ct
  obtain ⟨hsp, hli, hc⟩ := h
  refine ⟨?_, ?_, ?_⟩
  · have hready : c.seat.ssPushReady := hroom.ready
    cases hsp with
    | nothing _ _ _ ho =>
      obtain ho | ⟨-, ho⟩ := ho
      · exact absurd ho hl
      · exact absurd (hready.symm.trans ho) (by rintro ⟨⟩)
    | greeted _ _ _ ho =>
      obtain ho | ⟨-, ho, -⟩ := ho
      · exact absurd ho hl
      · exact absurd (hready.symm.trans ho) (by rintro ⟨⟩)
    | opened m header st₀ rng rng' l hg hk hi he hf ha hs ho =>
      have hlen := hE.push _ _ _ _ _ hpush
      have hfit : c.seat.Pushed E ((plain, tagMessage), ct) :=
        ⟨rfl, hroom.nonempty, hb, hroom.record, hlen ▸ hroom.limit, hlen⟩
      rw [trace_pushed]
      refine .opened m header st₀ rng rng' (l ++ [((plain, tagMessage), ct)]) ?_ ?_ hi
        (he.snoc hpush) ?_ ?_ ?_ ho
      · cases hg with
        | client hr => exact .client hr
        | server sig hr hsig => exact .server sig hr hsig
      · exact ⟨hk.hello, hk.keys⟩
      · intro x hx
        rcases List.mem_append.mp hx with hx | hx
        · obtain ⟨h1, h2, h3, h4, h5, h6⟩ := hf x hx
          exact ⟨h1, h2, h3, h4, h5, h6⟩
        · rw [List.mem_singleton.mp hx]
          exact ⟨hfit.1, hfit.2, hfit.3, hfit.4, hfit.5, hfit.6⟩
      · rw [List.map_append]
        exact congrArg (· ++ [rawFrame ct]) ha
      · rw [List.map_append]
        exact congrArg (· ++ [plain]) hs
  · rw [trace_pushed]
    cases hli with
    | gone ho hr => exact .gone ho hr
    | nothing hs hf hr => exact .nothing hs hf hr
    | greeted b hs hf hk hr => exact .greeted b hs hf ⟨hk.hello, hk.keys⟩ hr
    | opened b header st hs hk hi hp hd hf =>
      exact .opened b header st hs ⟨hk.hello, hk.keys⟩ hi hp hd hf
  · exact (congrArg Trace.alarms (trace_pushed c plain st ct)).trans hc

theorem flow (hE : StreamLengths E) (h : InOrder E c) (hf : Flow E c c') : InOrder E c' :=
  hf.preserves h (fun _ _ ha hs => ha.still hs) fun _ _ ha hp => ha.push hE hp

end InOrder

theorem trace_frame (c : Ctx Rng SS) (raw : Bytes) :
    (c.log (.frame raw)).trace = { c.trace with frames := c.frames ++ [raw] } := by
  simp [Ctx.trace, Ctx.alarms, Ctx.emitted, Ctx.appended, Ctx.sent, Ctx.frames, Ctx.records,
    Ctx.log, Occ.appended?, Occ.sent?, Occ.frame?, Occ.pulled?, Occ.emitted?]

theorem trace_afterPull (c : Ctx Rng SS) (st : SS) (ct plain : Bytes) (tag : UInt8) :
    (c.afterPull st ct plain tag).trace =
      { c.trace with records := c.records ++ [(ct, plain, tag)] } := by
  simp [Ctx.trace, Ctx.alarms, Ctx.emitted, Ctx.appended, Ctx.sent, Ctx.frames, Ctx.records,
    Ctx.afterPull, Occ.appended?, Occ.sent?, Occ.frame?, Occ.pulled?, Occ.emitted?]

theorem handleEncryptedPdu_pull {ct plain : Bytes} {st : SS} {tag : UInt8} (hr : c.ssPullReady)
    (hf : PlainFits c ct) (hp : E.ssPull c.ssPull ct = some (st, plain, tag)) :
    handleEncryptedPdu E c ct = handlePlain E (c.afterPull st ct plain tag) plain tag := by
  unfold handleEncryptedPdu
  rw [if_neg (not_not.mpr hr), if_neg (Nat.not_lt.mpr hf.tagged),
    if_neg (not_or.mpr ⟨Nat.not_lt.mpr hf.buffer, Nat.not_lt.mpr hf.record⟩), hp]
  rfl

theorem Seat.Keyed.more {s : Seat SS} {t : Trace} (h : s.Keyed E t) (u : Trace)
    (hf : t.frames <+: u.frames) : s.Keyed E u := by
  obtain ⟨⟨b, m, hb, hd⟩, hk⟩ := h
  exact ⟨⟨b, m, hb.trans hf, hd⟩, hk⟩

theorem Seat.Greets.congr {s s' : Seat SS} {m : Wire.Hello} (h : s.Greets E m)
    (hs : s'.settings = s.settings) (he : s'.ephPk = s.ephPk) (hp : s'.peerEphPk = s.peerEphPk)
    (hi : s'.serverIdPk = s.serverIdPk) : s'.Greets E m := by
  cases h with
  | client hr =>
    rw [← hs, ← he]
    exact .client (hs ▸ hr)
  | server sig hr hsig =>
    rw [← hs, ← he, ← hi]
    exact .server sig (hs ▸ hr) (by rwa [hp, he, hi, hs])

/-- What was said does not depend on the stream that is heard, nor on the key exchange of a client
being complete. -/
theorem Seat.Spoken.listen {s : Seat SS} {t : Trace} {gone gone' : Prop} (h : s.Spoken E t gone)
    (hover : gone → gone') {hs : Hs} (hhs : hs = s.hs ∨ gone' ∨
      s.settings.role = .client ∧ s.hs = .waitPeerSs ∧ hs = .done) (st : SS)
    (ready : Bool) (frames : List Bytes) (records : List (Bytes × Bytes × UInt8)) :
    Spoken E { s with hs := hs, ssPull := st, ssPullReady := ready }
      { t with frames := t.frames ++ frames, records := records } gone' := by
  cases h with
  | nothing hr ha hsent ho =>
    refine .nothing hr ha hsent ?_
    obtain ho | ⟨hw, hp⟩ := ho
    · exact Or.inl (hover ho)
    · obtain rfl | ho | ⟨-, hw', -⟩ := hhs
      · exact Or.inr ⟨hw, hp⟩
      · exact Or.inl ho
      · exact absurd (hw.symm.trans hw') (by rintro ⟨⟩)
  | greeted m ha hsent ho =>
    refine .greeted m ha hsent ?_
    obtain ho | ⟨hg, hp, hw⟩ := ho
    · exact Or.inl (hover ho)
    · obtain rfl | ho | ⟨hr, hw', -⟩ := hhs
      · exact Or.inr ⟨hg.congr rfl rfl rfl rfl, hp, hw⟩
      · exact Or.inl ho
      · obtain ⟨-, hw⟩ | ⟨hr', -⟩ := hw
        · exact absurd (hw.symm.trans hw') (by rintro ⟨⟩)
        · exact absurd (hr.symm.trans hr') (by rintro ⟨⟩)
  | opened m header st₀ rng rng' l hg hk hi he hf ha hsent ho =>
    obtain ⟨hh, hkeys⟩ := hk.more { t with
      frames := t.frames ++ frames, records := records } (List.prefix_append _ _)
    refine .opened m header st₀ rng rng' l (hg.congr rfl rfl rfl rfl) ⟨hh, hkeys⟩ hi he
      (fun x hx => ?_) ha hsent ?_
    · obtain ⟨h1, h2, h3, h4, h5, h6⟩ := hf x hx
      exact ⟨h1, h2, h3, h4, h5, h6⟩
    · obtain rfl | ho' | ⟨-, -, rfl⟩ := hhs
      · exact ho.imp_left hover
      · exact Or.inl ho'
      · exact Or.inr (Or.inr rfl)

namespace InOrder

/-- The record layer stays in order when a record is taken. -/
theorem record (hE : StreamLengths E) (h : InOrder E c) (hl : ¬ c.ended) (hs : c.hs = .done)
    {ct plain : Bytes} {st : SS} {tag : UInt8} (hf : PlainFits c ct)
    (hp : E.ssPull c.ssPull ct = some (st, plain, tag)) :
    InOrder E (handleEncryptedPdu E (c.log (.frame (rawFrame ct))) ct).1 := by
  obtain ⟨hsp, hli, hc⟩ := h
  cases hli with
  | gone ho => exact absurd ho hl
  | nothing hw => exact absurd (hs.symm.trans hw) (by rintro ⟨⟩)
  | greeted b hw => exact absurd (hs.symm.trans hw) (by rintro ⟨⟩)
  | opened b header st₀ _ hk hi hr hd hfr =>
    have ht : ((c.log (.frame (rawFrame ct))).afterPull st ct plain tag).trace = { c.trace with
        frames := c.frames ++ [rawFrame ct], records := c.records ++ [(ct, plain, tag)] } := by
      rw [trace_afterPull, trace_frame, Ctx.records, Ctx.log, List.filterMap_append]
      simp [Occ.pulled?, Ctx.records]
    have hin : InOrder E ((c.log (.frame (rawFrame ct))).afterPull st ct plain tag) := by
      refine ⟨?_, ?_, ?_⟩
      · rw [ht]
        exact hsp.listen id (Or.inl rfl) st c.ssPullReady [rawFrame ct]
          (c.records ++ [(ct, plain, tag)])
      · rw [ht]
        obtain ⟨hh, hkeys⟩ := hk.more { c.trace with
          frames := c.frames ++ [rawFrame ct], records := c.records ++ [(ct, plain, tag)] }
          (List.prefix_append _ _)
        refine .opened b header st₀ hs ⟨hh, hkeys⟩ hi hr ?_ ?_
        · rw [List.map_append]
          exact hd.snoc hp
        · rw [List.map_append]
          exact congrArg (· ++ [rawFrame ct]) hfr
      · exact (congrArg Trace.alarms ht).trans hc
    rw [handleEncryptedPdu_pull (c := c.log (.frame (rawFrame ct))) hr ⟨hf.1, hf.2, hf.3⟩ hp]
    exact hin.flow hE (handlePlain_flow
      (c := (c.log (.frame (rawFrame ct))).afterPull st ct plain tag) hl plain tag)

theorem failed {code : Rc} {msg : String} (hsp : c.seat.Spoken E c.trace True)
    (hr : c.records = []) (hc : c.alarms = []) (hm : msg ∉ recordErrors) :
    InOrder E (setError c code msg) := by
  have hs : Still c (setError c code msg) := .error hm
  have he : (setError c code msg).ended := Or.inl (setError_state c code msg)
  refine ⟨?_, .gone he ?_, (congrArg Trace.alarms hs.trace).trans hc⟩
  · rw [hs.seat, hs.trace]
    exact hsp.mono fun _ => he
  · exact (congrArg Trace.records hs.trace).trans hr

end InOrder

/-! ### The header of the peer -/

theorem HeaderLost.still (h : HeaderLost c c') : c'.trace = c.trace ∧
    ∃ st ready, c'.seat = { c.seat with ssPush := st, ssPushReady := ready } := by
  cases h with
  | noState rng => exact ⟨rfl, c.ssPush, c.ssPushReady, rfl⟩
  | noRoom st rng => exact ⟨rfl, st, true, rfl⟩

theorem trace_withFrame (c : Ctx Rng SS) (body : Bytes) :
    (c.withFrame body).trace =
      { c.trace with appended := c.trace.appended ++ [rawFrame body] } := by
  simp [Ctx.trace, Ctx.alarms, Ctx.emitted, Ctx.appended, Ctx.sent, Ctx.frames, Ctx.records,
    Ctx.withFrame, Occ.appended?, Occ.sent?, Occ.frame?, Occ.pulled?, Occ.emitted?]

section Updates

variable (c : Ctx Rng SS)

@[simp] theorem seat_log (o : Occ) : (c.log o).seat = c.seat := rfl

@[simp] theorem seat_compacted : c.compacted.seat = c.seat := rfl

@[simp] theorem trace_compacted : c.compacted.trace = c.trace := rfl

@[simp] theorem seat_withFrame (body : Bytes) : (c.withFrame body).seat = c.seat := rfl

@[simp] theorem seat_enter (s : State) (h : Hs) :
    (c.enter s h).seat = { c.seat with hs := h } := rfl

@[simp] theorem trace_enter (s : State) (h : Hs) : (c.enter s h).trace = c.trace := rfl

@[simp] theorem seat_withPull (st : SS) :
    (c.withPull st).seat = { c.seat with ssPull := st, ssPullReady := true } := rfl

@[simp] theorem trace_withPull (st : SS) : (c.withPull st).trace = c.trace := rfl

@[simp] theorem seat_withPush (st : SS) (rng : Rng) :
    (c.withPush st rng).seat = { c.seat with ssPush := st, ssPushReady := true } := rfl

@[simp] theorem trace_withPush (st : SS) (rng : Rng) : (c.withPush st rng).trace = c.trace := rfl

@[simp] theorem seat_withKeys (kc ks : Key) :
    (c.withKeys kc ks).seat = { c.seat with ssKeyC2s := kc, ssKeyS2c := ks } := rfl

@[simp] theorem trace_withKeys (kc ks : Key) : (c.withKeys kc ks).trace = c.trace := rfl

@[simp] theorem trace_withC2s (kc : Key) : (c.withC2s kc).trace = c.trace := rfl

end Updates

theorem clientKx_still (c : Ctx Rng SS) (st : SS) :
    (c.clientKx st).seat = { c.seat with hs := .done, ssPull := st, ssPullReady := true } ∧
      (c.clientKx st).trace = c.trace := by
  have h : Still ((c.withPull st).enter .auth .done) (c.clientKx st) := .emit rfl
  exact ⟨h.seat, h.trace⟩

theorem serverKx_still (c : Ctx Rng SS) (st st' : SS) (own : SsHeader) (rng : Rng) :
    (emitKxComplete
      ((((c.withPull st).withPush st' rng).withFrame own.val).enter .auth .done)).seat =
      { c.seat with
        hs := .done, ssPull := st, ssPullReady := true, ssPush := st', ssPushReady := true } ∧
    (emitKxComplete
      ((((c.withPull st).withPush st' rng).withFrame own.val).enter .auth .done)).trace =
      { c.trace with appended := c.trace.appended ++ [rawFrame own.val] } := by
  generalize hd : (((c.withPull st).withPush st' rng).withFrame own.val).enter .auth .done = d
  have h : Still d (emitKxComplete d) := .emit rfl
  rw [h.seat, h.trace, ← hd]
  constructor
  · simp only [seat_enter, seat_withFrame, seat_withPush, seat_withPull]
  · rw [trace_enter, trace_withFrame]
    simp only [trace_withPush, trace_withPull]

namespace InOrder

theorem clientHeader (hE : StreamLengths E) (h : InOrder E c) (hl : ¬ c.ended)
    (hs : c.hs = .waitPeerSs) (hr : c.role = .client) (header : SsHeader) :
    InOrder E (clientHandleSsHeader E (c.log (.frame (rawFrame header.val))) header).1 := by
  have heff := clientHandleSsHeader_effect E (c.log (.frame (rawFrame header.val))) header
  generalize clientHandleSsHeader E (c.log (.frame (rawFrame header.val))) header = r at heff ⊢
  obtain ⟨hsp, hli, hc⟩ := h
  cases hli with
  | gone ho => exact absurd ho hl
  | nothing hw => exact absurd (hs.symm.trans hw) (by rintro ⟨⟩)
  | opened b _ _ hw => exact absurd (hs.symm.trans hw) (by rintro ⟨⟩)
  | greeted b _ hfr hk hrec =>
    have hrec' : c.records = [] := hrec
    have hkx : ∀ st, E.ssInitPull header c.ssKeyS2c = some st →
        InOrder E ((c.log (.frame (rawFrame header.val))).clientKx st) := by
      intro st hi
      obtain ⟨hseat, htr⟩ := clientKx_still (c.log (.frame (rawFrame header.val))) st
      rw [trace_frame] at htr
      refine ⟨?_, ?_, (congrArg Trace.alarms htr).trans hc⟩
      · rw [hseat, htr]
        exact hsp.listen (fun ho => absurd ho hl) (Or.inr (Or.inr ⟨hr, hs, rfl⟩)) st true
          [rawFrame header.val] c.records
      · rw [hseat, htr]
        obtain ⟨hh, hkeys⟩ := hk.more { c.trace with
          frames := c.frames ++ [rawFrame header.val] } (List.prefix_append _ _)
        refine .opened b header st rfl ⟨hh, hkeys⟩ ?_ rfl ?_ ?_
        · rw [Seat.pullKey]
          change E.ssInitPull header (match c.role with
            | .client => c.ssKeyS2c
            | .server => c.ssKeyC2s) = some st
          rwa [hr]
        · change Coder.Decodes _ _ (c.records.map _) _
          rw [hrec']
          exact .nil
        · change c.frames ++ [rawFrame header.val] =
            rawFrame b :: rawFrame header.val :: c.records.map _
          rw [hrec', show c.frames = [rawFrame b] from hfr]
          rfl
    cases heff with
    | refused msg hm =>
      refine failed ?_ ?_ ?_ hm
      · rw [trace_frame]
        exact hsp.listen (fun _ => trivial) (Or.inl rfl) c.ssPull c.ssPullReady
          [rawFrame header.val] c.records
      · exact (congrArg Trace.records (trace_frame c _)).trans hrec
      · exact (congrArg Trace.alarms (trace_frame c _)).trans hc
    | unsent st c' msg hi hc' hm =>
      have hc'' : InOrder E c' := by
        rcases hc' with rfl | rfl
        · exact hkx st hi
        · exact (hkx st hi).still .compacted
      exact hc''.still (.error hm)
    | silent st hi => exact hkx st hi
    | sent st pdu st' ct hi hp hroom hpush =>
      obtain ⟨-, -, -, -, user, dev, tAuth, sig, -, -, -, -, henc⟩ := hp
      have hlive : ¬ ((c.log (.frame (rawFrame header.val))).clientKx st).ended := by
        rw [clientKx_eq]
        rintro (h | h) <;> cases h
      have hpush' : Pushes E ((c.log (.frame (rawFrame header.val))).clientKx st) _ :=
        .push hlive ((Wire.authDeviceEncode_length henc).trans (by decide)) hroom
          (by rwa [clientKx_eq])
      exact ((hkx st hi).push hE hpush').still (.same rfl rfl id)

theorem greeting (h : InOrder E c) (hl : ¬ c.ended) (hs : c.hs = .waitPeerSs)
    (hr : c.role = .server) : ∃ m, c.seat.Greets E m ∧
      c.appended = [rawFrame (Wire.helloBody m)] ∧ c.sent = [] := by
  cases h.spoken with
  | nothing _ _ _ ho =>
    obtain ho | ⟨hw, -⟩ := ho
    · exact absurd ho hl
    · exact absurd (hs.symm.trans hw) (by rintro ⟨⟩)
  | greeted m ha hsent ho =>
    obtain ho | ⟨hg, -⟩ := ho
    · exact absurd ho hl
    · exact ⟨m, hg, ha, hsent⟩
  | opened m header st rng rng' l _ _ _ _ _ _ _ ho =>
    obtain ho | ⟨hr', -⟩ | hw := ho
    · exact absurd ho hl
    · exact absurd (hr.symm.trans hr') (by rintro ⟨⟩)
    · exact absurd (hs.symm.trans hw) (by rintro ⟨⟩)

theorem serverHeader (h : InOrder E c) (hl : ¬ c.ended)
    (hs : c.hs = .waitPeerSs) (hr : c.role = .server) (header : SsHeader) :
    InOrder E (serverHandleSsHeader E (c.log (.frame (rawFrame header.val))) header).1 := by
  have heff := serverHandleSsHeader_effect E (c.log (.frame (rawFrame header.val))) header
  generalize serverHandleSsHeader E (c.log (.frame (rawFrame header.val))) header = r at heff ⊢
  obtain ⟨m, hg, ha, hsent⟩ := h.greeting hl hs hr
  obtain ⟨hsp, hli, hc⟩ := h
  cases hli with
  | gone ho => exact absurd ho hl
  | nothing hw => exact absurd (hs.symm.trans hw) (by rintro ⟨⟩)
  | opened b _ _ hw => exact absurd (hs.symm.trans hw) (by rintro ⟨⟩)
  | greeted b _ hfr hk hrec =>
    have htr := trace_frame c (rawFrame header.val)
    have hrec' : c.records = [] := hrec
    cases heff with
    | refused msg hm =>
      refine failed ?_ ?_ ?_ hm
      · rw [htr]
        exact hsp.listen (fun _ => trivial) (Or.inl rfl) c.ssPull c.ssPullReady
          [rawFrame header.val] c.records
      · exact (congrArg Trace.records htr).trans hrec
      · exact (congrArg Trace.alarms htr).trans hc
    | stuck st c' msg hlost hm =>
      obtain ⟨ht, st', ready, hseat⟩ := hlost.still
      have ht' : c'.trace = { c.trace with frames := c.frames ++ [rawFrame header.val] } :=
        ht.trans htr
      refine failed ?_ ((congrArg Trace.records ht').trans hrec)
        ((congrArg Trace.alarms ht').trans hc) hm
      rw [ht']
      exact .greeted m ha hsent (Or.inl trivial)
    | accepted st st' own rng hi hp =>
      obtain ⟨hseat, ht⟩ :=
        serverKx_still (c.log (.frame (rawFrame header.val))) st st' own rng
      rw [htr] at ht
      dsimp only at ht
      obtain ⟨hh, hkeys⟩ := hk.more { c.trace with
        frames := c.frames ++ [rawFrame header.val]
        appended := c.appended ++ [rawFrame own.val] } (List.prefix_append _ _)
      refine ⟨?_, ?_, (congrArg Trace.alarms ht).trans hc⟩
      · rw [hseat, ht]
        refine .opened m own st' c.rng rng [] (hg.congr rfl rfl rfl rfl) ⟨hh, hkeys⟩ ?_ .nil
          (by simp) ?_ hsent (Or.inr (Or.inr rfl))
        · change E.ssInitPush c.rng (match c.role with
            | .client => c.ssKeyC2s
            | .server => c.ssKeyS2c) = _
          rw [hr]
          exact hp
        · exact congrArg (· ++ [rawFrame own.val]) ha
      · rw [hseat, ht]
        refine .opened b header st rfl ⟨hh, hkeys⟩ ?_ rfl ?_ ?_
        · change E.ssInitPull header (match c.role with
            | .client => c.ssKeyS2c
            | .server => c.ssKeyC2s) = _
          rw [hr]
          exact hi
        · change Coder.Decodes _ _ (c.records.map _) _
          rw [hrec']
          exact .nil
        · change c.frames ++ [rawFrame header.val] =
            rawFrame b :: rawFrame header.val :: c.records.map _
          rw [hrec', show c.frames = [rawFrame b] from hfr]
          rfl

/-- The record layer stays in order when the header of the peer is taken. -/
theorem header (hE : StreamLengths E) (h : InOrder E c) (hl : ¬ c.ended)
    (hs : c.hs = .waitPeerSs) {body : Bytes} (hb : body.length = 24) :
    InOrder E (handlePeerSsHeader E (c.log (.frame (rawFrame body))) body).1 := by
  unfold handlePeerSsHeader
  rw [dif_pos hb]
  cases hr : c.role with
  | client =>
    rw [show (c.log (.frame (rawFrame body))).role = .client from hr]
    exact h.clientHeader hE hl hs hr ⟨body, hb⟩
  | server =>
    rw [show (c.log (.frame (rawFrame body))).role = .server from hr]
    exact h.serverHeader hl hs hr ⟨body, hb⟩

end InOrder

/-! ### The HELLO of the peer -/

def Seat.tookServer (s : Seat SS) (h : Wire.Hello) : Seat SS :=
  { s with
    serverIdPk := if s.settings.acceptAnyServerPk then h.idPk else s.serverIdPk
    haveServerIdPk := s.settings.acceptAnyServerPk || s.haveServerIdPk
    peerEphPk := h.ephPk
    tHello := Wire.buildTHello protoVersion suiteV1 s.ephPk h.ephPk h.idPk
    haveTHello := true }

theorem clientTakeHello_still (c : Ctx Rng SS) (h : Wire.Hello) :
    (clientTakeHello c h).seat = c.seat.tookServer h ∧
      (clientTakeHello c h).trace = c.trace := by
  rw [clientTakeHello_eq]
  exact ⟨rfl, rfl⟩

theorem verifiedServer_still (c : Ctx Rng SS) (h : Wire.Hello) :
    Still (clientTakeHello c h) (c.verifiedServer h) :=
  (Still.log rfl).trans (.emit rfl)

theorem sawClient_still (c : Ctx Rng SS) (h : Wire.Hello) :
    (c.sawClient h).seat = { c.seat with peerEphPk := h.ephPk } ∧
      (c.sawClient h).trace = c.trace := by
  have hs : Still (serverTakeHello c h) (c.sawClient h) := .emit rfl
  rw [hs.seat, hs.trace, serverTakeHello_eq]
  exact ⟨rfl, rfl⟩

@[simp] theorem seat_serverTranscript (c : Ctx Rng SS) :
    (serverTranscript c).seat = { c.seat with
      tHello := Wire.buildTHello protoVersion suiteV1 c.peerEphPk c.ephPk c.serverIdPk
      haveTHello := true } := rfl

@[simp] theorem trace_serverTranscript (c : Ctx Rng SS) :
    (serverTranscript c).trace = c.trace := rfl

namespace InOrder

theorem waiting (h : InOrder E c) (hl : ¬ c.ended) (hs : c.hs = .waitPeerHello) :
    c.frames = [] ∧ c.records = [] ∧ c.sent = [] ∧
      (c.role = .server ∧ c.appended = [] ∧ c.ssPushReady = false ∨
      c.role = .client ∧ ∃ m, c.seat.Greets E m ∧ c.appended = [rawFrame (Wire.helloBody m)]) := by
  have hli : c.frames = [] ∧ c.records = [] := by
    cases h.listened with
    | gone ho => exact absurd ho hl
    | nothing _ hf hr => exact ⟨hf, hr⟩
    | greeted b hw => exact absurd (hs.symm.trans hw) (by rintro ⟨⟩)
    | opened b header st hw => exact absurd (hs.symm.trans hw) (by rintro ⟨⟩)
  refine ⟨hli.1, hli.2, ?_⟩
  cases h.spoken with
  | nothing hr ha hsent ho =>
    obtain ho | ⟨-, hp⟩ := ho
    · exact absurd ho hl
    · exact ⟨hsent, Or.inl ⟨hr, ha, hp⟩⟩
  | greeted m ha hsent ho =>
    obtain ho | ⟨hg, -, ⟨hr, -⟩ | ⟨-, hw⟩⟩ := ho
    · exact absurd ho hl
    · exact ⟨hsent, Or.inr ⟨hr, m, hg, ha⟩⟩
    · exact absurd (hs.symm.trans hw) (by rintro ⟨⟩)
  | opened m header st rng rng' l _ _ _ _ _ _ _ ho =>
    obtain ho | ⟨-, hw⟩ | hw := ho
    · exact absurd ho hl
    · exact absurd (hs.symm.trans hw) (by rintro ⟨⟩)
    · exact absurd (hs.symm.trans hw) (by rintro ⟨⟩)

theorem clientHello (h : InOrder E c) (hl : ¬ c.ended) (hs : c.hs = .waitPeerHello)
    (hr : c.role = .client) {body : Bytes} {m : Wire.Hello} (hd : Wire.helloDecode body = .ok m) :
    InOrder E (clientHandleHello E (c.log (.frame (rawFrame body))) m).1 := by
  have heff := clientHandleHello_effect E (c.log (.frame (rawFrame body))) m
  generalize clientHandleHello E (c.log (.frame (rawFrame body))) m = r at heff ⊢
  obtain ⟨hfr, hrec, hsent, hserver | ⟨-, own, hg, ha⟩⟩ := h.waiting hl hs
  · exact absurd (hr.symm.trans hserver.1) (by rintro ⟨⟩)
  have htr := trace_frame c (rawFrame body)
  -- whatever goes wrong, the client has said its HELLO and no more
  have hfail : ∀ {d : Ctx Rng SS} {code : Rc} {msg : String}, msg ∉ recordErrors →
      d.trace = (c.log (.frame (rawFrame body))).trace → InOrder E (setError d code msg) := by
    intro d code msg hm ht
    rw [htr] at ht
    refine failed ?_ ((congrArg Trace.records ht).trans hrec)
      ((congrArg Trace.alarms ht).trans h.calm) hm
    rw [ht]
    exact .greeted own ha hsent (Or.inl trivial)
  obtain ⟨hseat, ht⟩ := clientTakeHello_still (c.log (.frame (rawFrame body))) m
  have hv := verifiedServer_still (c.log (.frame (rawFrame body))) m
  cases heff with
  | refused msg hm => exact hfail hm rfl
  | forged msg hm => exact hfail hm ht
  | keyless kc msg _ hm =>
    refine hfail hm ?_
    rw [trace_withC2s, hv.trace, ht]
  | stuck kc ks c' msg _ hlost hm =>
    refine hfail hm ?_
    rw [hlost.still.1, trace_withKeys, hv.trace, ht]
  | accepted kc ks st header rng _ hk hp =>
    generalize hd' : ((((c.log (.frame (rawFrame body))).verifiedServer m).withKeys kc ks).withPush
      st rng).withFrame header.val = d
    have hts : d.trace = { c.trace with
        frames := c.frames ++ [rawFrame body],
        appended := c.appended ++ [rawFrame header.val] } := by
      rw [← hd', trace_withFrame]
      have ht' : (((((c.log (.frame (rawFrame body))).verifiedServer m).withKeys kc ks).withPush
          st rng)).trace = { c.trace with frames := c.frames ++ [rawFrame body] } := by
        rw [trace_withPush, trace_withKeys, hv.trace, ht, htr]
      rw [ht']
      rfl
    have hds : d.seat = { c.seat.tookServer m with
        ssKeyC2s := kc, ssKeyS2c := ks, ssPush := st, ssPushReady := true } := by
      rw [← hd', seat_withFrame, seat_withPush, seat_withKeys, hv.seat, hseat, seat_log]
    have hkeyed : Keyed E { d.seat with hs := .waitPeerSs } d.trace := by
      rw [hds, hts]
      refine ⟨⟨body, m, ?_, hd, rfl⟩, ?_⟩
      · change _ <+: c.frames ++ _
        rw [hfr]
        exact List.prefix_rfl
      · change SessionKeys E c.role _ _ _ _ _
        rw [hr]
        exact hk
    refine ⟨?_, ?_, (congrArg Trace.alarms hts).trans h.calm⟩
    · rw [seat_enter, trace_enter]
      refine .opened own header st c.rng rng [] ?_ hkeyed ?_ ?_ (by simp) ?_ ?_ ?_
      · rw [hds]
        cases hg with
        | client => exact .client hr
        | server sig hr' => exact absurd (hr.symm.trans hr') (by rintro ⟨⟩)
      · rw [hds]
        change E.ssInitPush c.rng (match c.role with
          | .client => kc
          | .server => ks) = _
        rw [hr]
        exact hp
      · rw [hds]
        exact .nil
      · rw [hts]
        exact congrArg (· ++ [rawFrame header.val]) ha
      · rw [hts]
        exact hsent
      · rw [hds]
        exact Or.inr (Or.inl ⟨hr, rfl⟩)
    · rw [seat_enter, trace_enter]
      refine .greeted body rfl ?_ hkeyed ?_
      · rw [hts]
        change c.frames ++ _ = _
        rw [hfr]
        rfl
      · rw [hts]
        exact hrec

theorem helloQueued_still (c : Ctx Rng SS) (h : Wire.Hello) (sig : Sig) :
    ∃ own, ((c.sawClient h).helloQueued sig).seat = { c.seat with
        peerEphPk := h.ephPk
        tHello := Wire.buildTHello protoVersion suiteV1 h.ephPk c.ephPk c.serverIdPk
        haveTHello := true } ∧
      ((c.sawClient h).helloQueued sig).trace = { c.trace with
        appended := c.appended ++ [rawFrame (Wire.helloBody own)] } ∧
      own = ⟨protoVersion, suiteV1, c.role.code, 0, c.ephPk, c.serverIdPk, sig⟩ := by
  obtain ⟨hseat, ht⟩ := sawClient_still c h
  have hseat' : (serverTranscript (c.sawClient h)).seat = { c.seat with
      peerEphPk := h.ephPk
      tHello := Wire.buildTHello protoVersion suiteV1 h.ephPk c.ephPk c.serverIdPk
      haveTHello := true } := by
    have h1 : (c.sawClient h).peerEphPk = h.ephPk := congrArg Seat.peerEphPk hseat
    have h2 : (c.sawClient h).ephPk = c.ephPk := congrArg Seat.ephPk hseat
    have h3 : (c.sawClient h).serverIdPk = c.serverIdPk := congrArg Seat.serverIdPk hseat
    rw [seat_serverTranscript, h1, h2, h3, hseat]
  refine ⟨serverHello (serverTranscript (c.sawClient h)) sig, ?_, ?_, ?_⟩
  · rw [Ctx.helloQueued, seat_withFrame, hseat']
  · have ht' : (serverTranscript (c.sawClient h)).trace = c.trace := ht
    rw [Ctx.helloQueued, trace_withFrame, ht']
    rfl
  · have h1 : (c.sawClient h).role = c.role := congrArg (fun s => s.settings.role) hseat
    have h2 : (c.sawClient h).ephPk = c.ephPk := congrArg Seat.ephPk hseat
    have h3 : (c.sawClient h).serverIdPk = c.serverIdPk := congrArg Seat.serverIdPk hseat
    rw [← h1, ← h2, ← h3]
    rfl

theorem serverHello (h : InOrder E c) (hl : ¬ c.ended) (hs : c.hs = .waitPeerHello)
    (hr : c.role = .server) {body : Bytes} {m : Wire.Hello} (hd : Wire.helloDecode body = .ok m) :
    InOrder E (serverHandleHello E (c.log (.frame (rawFrame body))) m).1 := by
  have heff := serverHandleHello_effect E (c := c.log (.frame (rawFrame body))) hr m
  generalize serverHandleHello E (c.log (.frame (rawFrame body))) m = r at heff ⊢
  obtain ⟨hfr, hrec, hsent, ⟨-, ha, hp⟩ | hclient⟩ := h.waiting hl hs
  swap
  · exact absurd (hr.symm.trans hclient.1) (by rintro ⟨⟩)
  have htr := trace_frame c (rawFrame body)
  obtain ⟨hseat, ht⟩ := sawClient_still (c.log (.frame (rawFrame body))) m
  -- before its HELLO is queued the server has said nothing
  have hfail : ∀ {d : Ctx Rng SS} {code : Rc} {msg : String}, msg ∉ recordErrors →
      d.seat.settings.role = .server → d.trace = (c.log (.frame (rawFrame body))).trace →
      InOrder E (setError d code msg) := by
    intro d code msg hm hrole ht
    rw [htr] at ht
    refine failed ?_ ((congrArg Trace.records ht).trans hrec)
      ((congrArg Trace.alarms ht).trans h.calm) hm
    rw [ht]
    exact .nothing hrole ha hsent (Or.inl trivial)
  cases heff with
  | refused msg hm => exact hfail (d := c.log (.frame (rawFrame body))) hm hr rfl
  | unsigned msg hm =>
    refine hfail hm ?_ ?_
    · rw [seat_serverTranscript, hseat]
      exact hr
    · rw [trace_serverTranscript, ht]
  | noRoom msg hm =>
    refine hfail hm ?_ ?_
    · rw [seat_compacted, seat_serverTranscript, hseat]
      exact hr
    · rw [trace_compacted, trace_serverTranscript, ht]
  | keyless sig kc msg hm =>
    obtain ⟨own, -, hts, -⟩ := helloQueued_still (c.log (.frame (rawFrame body))) m sig
    generalize ((c.log (.frame (rawFrame body))).sawClient m).helloQueued sig = d at hts ⊢
    rw [htr] at hts
    dsimp only at hts
    refine failed ?_ ?_ ?_ hm
    · rw [trace_withC2s, hts]
      exact .greeted own (by
        change (c.log (.frame (rawFrame body))).trace.appended ++ _ = _
        rw [htr]
        exact congrArg (· ++ [rawFrame (Wire.helloBody own)]) ha) hsent (Or.inl trivial)
    · exact (congrArg Trace.records hts).trans hrec
    · exact (congrArg Trace.alarms hts).trans h.calm
  | accepted sig kc ks hsig hk =>
    obtain ⟨own, hds, hts, hown⟩ := helloQueued_still (c.log (.frame (rawFrame body))) m sig
    have hsig' : E.signDetached (Wire.buildTHello protoVersion suiteV1 m.ephPk c.ephPk
        c.serverIdPk).val c.serverIdSk = some sig := by
      have h1 : (serverTranscript ((c.log (.frame (rawFrame body))).sawClient m)).tHello =
          Wire.buildTHello protoVersion suiteV1 m.ephPk c.ephPk c.serverIdPk := by
        change Wire.buildTHello _ _ _ _ _ = _
        rw [show ((c.log (.frame (rawFrame body))).sawClient m).peerEphPk = m.ephPk from
            congrArg Seat.peerEphPk hseat,
          show ((c.log (.frame (rawFrame body))).sawClient m).ephPk = c.ephPk from
            congrArg Seat.ephPk hseat,
          show ((c.log (.frame (rawFrame body))).sawClient m).serverIdPk = c.serverIdPk from
            congrArg Seat.serverIdPk hseat]
      rwa [h1] at hsig
    generalize ((c.log (.frame (rawFrame body))).sawClient m).helloQueued sig = d at hds hts ⊢
    rw [htr] at hts
    dsimp only at hts
    rw [seat_log] at hds
    have happ : d.appended = [rawFrame (Wire.helloBody own)] := by
      refine (congrArg Trace.appended hts).trans ?_
      change (c.log (.frame (rawFrame body))).trace.appended ++ _ = _
      rw [htr]
      exact congrArg (· ++ [rawFrame (Wire.helloBody own)]) ha
    refine ⟨?_, ?_, (congrArg Trace.alarms hts).trans h.calm⟩
    · rw [seat_enter, trace_enter, seat_withKeys, trace_withKeys]
      refine .greeted own happ ((congrArg Trace.sent hts).trans hsent) (Or.inr ⟨?_, ?_, ?_⟩)
      · rw [hds, hown]
        exact .server sig hr hsig'
      · rw [hds]
        exact hp
      · rw [hds]
        exact Or.inr ⟨hr, rfl⟩
    · rw [seat_enter, trace_enter, seat_withKeys, trace_withKeys]
      refine .greeted body rfl ?_ ?_ ((congrArg Trace.records hts).trans hrec)
      · refine (congrArg Trace.frames hts).trans ?_
        rw [hfr]
        rfl
      · rw [hds, hts]
        refine ⟨⟨body, m, ?_, hd, rfl⟩, ?_⟩
        · change _ <+: c.frames ++ _
          rw [hfr]
          exact List.prefix_rfl
        · change SessionKeys E c.role _ _ _ _ _
          rw [hr]
          exact hk

theorem hello (h : InOrder E c) (hl : ¬ c.ended) (hs : c.hs = .waitPeerHello) (body : Bytes) :
    InOrder E (handlePeerHello E (c.log (.frame (rawFrame body))) body).1 := by
  unfold handlePeerHello
  cases hd : Wire.helloDecode body with
  | error rc =>
    obtain ⟨-, hrec, -⟩ := h.waiting hl hs
    have htr := trace_frame c (rawFrame body)
    refine failed ?_ ((congrArg Trace.records htr).trans hrec)
      ((congrArg Trace.alarms htr).trans h.calm) (by decide)
    rw [htr]
    exact h.spoken.listen (fun _ => trivial) (Or.inl rfl) c.ssPull c.ssPullReady [rawFrame body]
      c.records
  | ok m =>
    dsimp only
    cases hr : c.role with
    | client =>
      rw [show (c.log (.frame (rawFrame body))).role = .client from hr]
      exact h.clientHello hl hs hr hd
    | server =>
      rw [show (c.log (.frame (rawFrame body))).role = .server from hr]
      exact h.serverHello hl hs hr hd

end InOrder

theorem InOrder.started (hh : c.hist = []) (hp : c.ssPushReady = false) : InOrder E c.started := by
  have ht : c.trace = ⟨[], [], [], [], []⟩ := by
    simp [Ctx.trace, Ctx.appended, Ctx.sent, Ctx.frames, Ctx.records, Ctx.alarms, Ctx.emitted, hh]
  unfold Ctx.started
  split
  · rename_i hr
    change InOrder E ((c.withFrame (Wire.helloBody (Sodchan.clientHello c))).enter .hello
      .waitPeerHello)
    have htr := trace_withFrame c (Wire.helloBody (Sodchan.clientHello c))
    rw [ht] at htr
    refine ⟨?_, ?_, congrArg Trace.alarms htr⟩
    · rw [trace_enter, htr]
      exact .greeted (Sodchan.clientHello c) rfl rfl
        (Or.inr ⟨.client hr, hp, Or.inl ⟨hr, rfl⟩⟩)
    · rw [trace_enter, htr]
      exact .nothing rfl rfl rfl
  · rename_i hr
    change InOrder E (c.enter .hello .waitPeerHello)
    refine ⟨?_, ?_, congrArg Trace.alarms ht⟩
    · rw [trace_enter, ht]
      exact .nothing hr rfl rfl (Or.inr ⟨rfl, hp⟩)
    · rw [trace_enter, ht]
      exact .nothing rfl rfl rfl

end Sodchan
