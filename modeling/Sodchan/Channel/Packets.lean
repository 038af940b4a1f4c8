import Sodchan.Channel.Admission
import Sodchan.Channel.Protocol

/-! # The size of DATA

Four limits meet a DATA of the peer: the frame, the record, the window and the
event. The packet size that the peer was told is none of them. A DATA within
what was told can thus be refused, and one beyond it can be taken.
-/

namespace Sodchan

open ByteString

variable {Rng SS : Type} {E : Env Rng SS} {c c' : Ctx Rng SS} {body plain data : Bytes}
  {tag : UInt8}
  {i : Fin maxChannelSlots} {id : UInt32} {a : Deed}

theorem length_of_channelData (h : Pdu.ofBytes plain = .channelData id data) :
    plain.length = 9 + data.length := by
  have hd := (Pdu.channelData_inv h).2
  unfold Wire.channelDataDecode at hd
  simp only [Wire.bind_eq_ok, Wire.check_eq_ok, Wire.pure_eq_ok, ne_eq, not_not,
    Prod.mk.injEq] at hd
  obtain ⟨-, x, -, -, r, -, n, -, hl, t, ht, rfl, rfl⟩ := hd
  unfold Wire.rdBytes at ht
  split_ifs at ht with hb
  have hlen := congrArg List.length (Except.ok.inj ht)
  rw [List.length_take, List.length_drop] at hlen
  omega

theorem Ctx.Delivers.length_le (hE : StreamLengths E) (h : c.Delivers E body plain) :
    plain.length ≤ c.maxRecordSize ∧ plain.length + ssAbytes ≤ ssFrameMaxBody E c := by
  obtain ⟨⟨k, hk⟩, hdone, -, hfits, st, tag, hpull, -⟩ := h
  have hlen := hE.pull _ _ _ _ _ hfits.tagged hpull
  have hrec := hfits.record
  unfold parseInput at hk
  rw [if_pos hdone] at hk
  have hadm := (Wire.frameParseMax_ok_iff.mp hk).1.2.1
  exact ⟨by omega, by omega⟩

theorem handleEncryptedPdu_large (hr : c.ssPullReady) (ht : ssAbytes ≤ body.length)
    (hl : c.maxRecordSize < body.length - ssAbytes) :
    handleEncryptedPdu E c body = (setError c .protocol "ss plaintext too large", false) := by
  unfold handleEncryptedPdu
  rw [if_neg (not_not.mpr hr), if_neg (Nat.not_lt.mpr ht), if_pos (Or.inr hl)]

theorem Ctx.Delivers.round (h : c.Delivers E body plain) (he : ¬ c.ended) :
    ∃ st tag, Dispatched tag ∧ ∀ d b,
      handlePlain E ((c.log (.frame (rawFrame body))).afterPull st body plain tag) plain tag =
        (d, b) →
      processOne E c =
        if b then .again { d with inBuf := d.inBuf.drop (4 + body.length) } else .stop d := by
  obtain ⟨⟨k, hk⟩, hdone, hready, hfits, st, tag, hpull, ht⟩ := h
  obtain rfl := (parseInput_ok hk).2.2
  refine ⟨st, tag, ht, fun d b hd => ?_⟩
  have hframe : handleFrame E (c.log (.frame (rawFrame body))) body = (d, b) := by
    unfold handleFrame
    rw [show (c.log (.frame (rawFrame body))).hs = .done from hdone]
    dsimp only
    rw [handleEncryptedPdu_pull (c := c.log (.frame (rawFrame body))) hready
      ⟨hfits.tagged, hfits.buffer, hfits.record⟩ hpull]
    exact hd
  obtain ⟨hend | hfull, -⟩ | ⟨-, -, herr, -⟩ | ⟨k', body', d', -, -, hk', hround⟩ :=
    processOne_cases E c
  · exact absurd hend he
  · rw [hk] at hfull
    cases hfull
  · rw [hk] at herr
    cases herr
  · obtain ⟨rfl, rfl⟩ := Prod.mk.inj (Except.ok.inj (hk.symm.trans hk'))
    rw [hframe] at hround
    obtain ⟨hd', hround⟩ | ⟨hd', hround⟩ := hround <;> obtain ⟨rfl, rfl⟩ := Prod.mk.inj hd' <;>
      exact hround

/-- The largest DATA that is taken on a channel. -/
def dataLimit (E : Env Rng SS) (c : Ctx Rng SS) (ch : Channel) : ℕ :=
  min (min dataMax ch.recvWindow.toNat)
    (min (c.maxRecordSize - 9) (ssFrameMaxBody E c - (9 + ssAbytes)))

/-- On no open channel is more taken than the peer was told. -/
def Guarded (E : Env Rng SS) (c : Ctx Rng SS) : Prop :=
  ∀ i, (c.channels i).state = .open_ → dataLimit E c (c.channels i) ≤ c.maxPacket.toNat

instance : DecidablePred (Guarded E) := fun c =>
  inferInstanceAs (Decidable (∀ i, (c.channels i).state = .open_ →
    dataLimit E c (c.channels i) ≤ c.maxPacket.toNat))

theorem le_dataLimit (hE : StreamLengths E) (h : c.Delivers E body plain)
    (hp : Pdu.ofBytes plain = .channelData id data) {ch : Channel}
    (hw : data.length ≤ ch.recvWindow.toNat) (hm : data.length ≤ dataMax) :
    data.length ≤ dataLimit E c ch := by
  obtain ⟨hrec, hframe⟩ := h.length_le hE
  have hlen := length_of_channelData hp
  refine le_min (le_min hm hw) (le_min ?_ ?_) <;> omega

theorem Deed.entries_data {t : Terms} {s : Table}
    (h : Entry.event (.channelData id data) ∈ a.entries t s) : ∃ i, a = .data i data := by
  cases a with
  | data i payload =>
    simp only [Deed.entries, List.mem_singleton, Entry.event.injEq, Event.channelData.injEq] at h
    exact ⟨i, by rw [h.2]⟩
  | close i told => cases told <;> simp [Deed.entries] at h
  | _ => simp [Deed.entries] at h

theorem Deed.entries_terms {t : Terms} {s : Table} {p : Pdu} (h : Entry.sent p ∈ a.entries t s) :
    (∀ x w m name, p = .channelOpen x w m name → m = t.packet) ∧
    ∀ x r w m, p = .channelOpenConfirm x r w m → m = t.packet := by
  constructor <;> rintro x y z w rfl <;> cases a with
  | close i told => cases told <;> simp [Deed.entries] at h
  | _ => simp_all [Deed.entries]

/-- No DATA event is longer than the packet size, which is what the peer was told. -/
structure PacketsFit (c : Ctx Rng SS) : Prop where
  data : ∀ id data, Entry.event (.channelData id data) ∈ c.entries →
    data.length ≤ c.maxPacket.toNat
  opened : ∀ s w m name, Entry.sent (.channelOpen s w m name) ∈ c.entries → m = c.maxPacket
  confirmed : ∀ s r w m, Entry.sent (.channelOpenConfirm s r w m) ∈ c.entries → m = c.maxPacket

namespace PacketsFit

theorem empty (h : c.entries = []) : PacketsFit c := by
  constructor <;> intros <;> simp_all

theorem step {l : Label} (h : PacketsFit c) (hd : StepDeed l c c' a)
    (hdata : ∀ i data, a = .data i data → data.length ≤ c.maxPacket.toNat) : PacketsFit c' := by
  obtain ⟨aside, hask, -, -, hset, hent⟩ := hd.deals
  have hpk : c'.maxPacket = c.maxPacket := congrArg Settings.maxPacket hset
  have hev : ∀ ev, Entry.event ev ∈ aside → False := fun ev hm => hask.aside _ hm
  have hsent : ∀ p, Entry.sent p ∈ aside → False := fun p hm => hask.aside _ hm
  refine ⟨?_, ?_, ?_⟩
  · intro id data hm
    rw [hent, List.mem_append, List.mem_append] at hm
    rw [hpk]
    obtain (hm | hm) | hm := hm
    · exact h.data id data hm
    · exact (hev _ hm).elim
    · obtain ⟨i, rfl⟩ := Deed.entries_data hm
      exact hdata i data rfl
  · intro s w m name hm
    rw [hent, List.mem_append, List.mem_append] at hm
    rw [hpk]
    obtain (hm | hm) | hm := hm
    · exact h.opened s w m name hm
    · exact (hsent _ hm).elim
    · exact (Deed.entries_terms hm).1 s w m name rfl
  · intro s r w m hm
    rw [hent, List.mem_append, List.mem_append] at hm
    rw [hpk]
    obtain (hm | hm) | hm := hm
    · exact h.confirmed s r w m hm
    · exact (hsent _ hm).elim
    · exact (Deed.entries_terms hm).2 s r w m rfl

theorem round (hE : StreamLengths E) (h : PacketsFit c) (hg : Guarded E c) :
    PacketsFit (processOne E c).state := by
  obtain ⟨a, ha, hsrc⟩ := processOne_deed E c
  have hdeed : StepDeed .round c (processOne E c).state a := .round ha
  refine h.step hdeed ?_
  rintro i data rfl
  obtain ⟨-, -, hen, -⟩ := hdeed.deals
  obtain hidle | ⟨body, plain, hdel, hp⟩ := hsrc
  · cases hidle
  · exact (le_dataLimit hE hdel hp hen.2.2.1 hen.2.2.2).trans (hg i hen.2.1)

theorem call {k : Call} (h : PacketsFit c) (hs : Step E (.call k) c c') : PacketsFit c' := by
  obtain ⟨a, ha⟩ := hs.deed
  refine h.step ha ?_
  rintro i data rfl
  cases ha with
  | call ho => exact ho.1.elim

end PacketsFit

theorem muxChannelData_refused (h : Pdu.ofBytes plain = .channelData id data)
    (hn : ¬ c.Admits id data) :
    ∃ d msg, muxChannelData c plain = (setError d .protocol msg, false) := by
  have hf : (muxChannelData c plain).2 ≠ true := fun ht => hn ((muxChannelData_true h).mp ht)
  unfold muxChannelData at hf ⊢
  rw [(Pdu.channelData_inv h).2] at hf ⊢
  dsimp only at hf ⊢
  cases hi : chByLocal c id with
  | none => exact ⟨_, _, rfl⟩
  | some i =>
    rw [hi] at hf
    dsimp only at hf ⊢
    split_ifs at hf ⊢
    · exact ⟨_, _, rfl⟩
    · exact ⟨_, _, rfl⟩
    · exact ⟨_, _, rfl⟩
    · exact ⟨_, _, rfl⟩
    · exact absurd rfl hf

/-- Where no open channel takes more than the peer was told, DATA that is longer ends the session
with a protocol error. -/
theorem long_data_refused (hE : StreamLengths E) (hst : c.muxes) (hg : Guarded E c)
    (h : c.Delivers E body plain) (hp : Pdu.ofBytes plain = .channelData id data)
    (hlong : c.maxPacket.toNat < data.length) :
    ∃ d msg, processOne E c = .stop (setError d .protocol msg) := by
  have he : ¬ c.ended := by
    rintro (he | he) <;> rcases hst with hst | hst <;> rw [hst] at he <;> cases he
  obtain ⟨st, tag, ht, hround⟩ := h.round he
  generalize hd : (c.log (.frame (rawFrame body))).afterPull st body plain tag = d at hround
  have hch : d.channels = c.channels := by
    rw [← hd]
    rfl
  have hstd : d.muxes := by
    rw [← hd]
    exact hst
  have hn : ¬ d.Admits id data := by
    rintro ⟨i, -, ho, hw, hm⟩
    rw [hch] at ho hw
    have hle := (le_dataLimit hE h hp hw hm).trans (hg i ho)
    omega
  obtain ⟨d', msg, hr⟩ := muxChannelData_refused hp hn
  have hh := (Pdu.channelData_inv hp).1
  have hplain : handlePlain E d plain tag = (setError d' .protocol msg, false) := by
    rw [handlePlain_mux hstd ht (nonempty_of_headD hh (by decide)), ← hr]
    unfold handleMuxPdu
    rw [hh]
    rfl
  exact ⟨d', msg, hround _ _ hplain⟩

/-- In a run all of whose rounds begin guarded, no DATA event is longer than the packet size, which
is the one told in every OPEN and CONFIRM, and longer DATA is a protocol error. -/
theorem max_packet_enforced (hE : StreamLengths E)
    (h : ReachableUnder E (RoundsMeet E (Guarded E)) c) :
    (∀ id data, .channelData id data ∈ c.emitted → data.length ≤ c.maxPacket.toNat) ∧
    (∀ s w m name, Entry.sent (.channelOpen s w m name) ∈ c.entries → m = c.maxPacket) ∧
    (∀ s r w m, Entry.sent (.channelOpenConfirm s r w m) ∈ c.entries → m = c.maxPacket) ∧
    ∀ body plain id data, c.muxes → Guarded E c → c.Delivers E body plain →
      Pdu.ofBytes plain = .channelData id data → c.maxPacket.toNat < data.length →
      ∃ d msg, processOne E c = .stop (setError d .protocol msg) := by
  obtain ⟨role, cfg, rng, memOk, c₀, l, hc, hr⟩ := h
  have hr' : Run E (fun d k => True ∧ RoundsMeet E (Guarded E) d k) c₀ l c := by
    simpa only [true_and] using hr
  have hfit : PacketsFit c := by
    refine hr'.preserves_rounds (fun d _ _ => .empty (reset_table d).2.2)
      (fun d k hd _ hk => hd.call (.call k hk)) ?_ (fun d hd hg => hd.round hE hg)
      (.empty (create_table hc).2.1)
    intro d data hd _
    exact ⟨hd.data, hd.opened, hd.confirmed⟩
  refine ⟨?_, hfit.opened, hfit.confirmed, ?_⟩
  · intro id data hm
    obtain ⟨o, ho, hev⟩ := List.mem_filterMap.mp hm
    refine hfit.data id data (List.mem_filterMap.mpr ⟨o, ho, ?_⟩)
    cases o with
    | queued ev | dropped ev =>
      obtain rfl := Option.some.inj hev
      rfl
    | _ => cases hev
  · intro body plain id data hst hg hdel hp hlong
    exact long_data_refused hE hst hg hdel hp hlong

/-- A server that tells its peers to send single bytes. -/
def plainByteServer : Config where
  serverIdPk := some (plainKey 5)
  serverIdSk := some (BytesN.zero 64)
  maxPacket := 1

def plainByteStart : Ctx Unit Unit :=
  (create plainEnv .server (some plainByteServer) () true).get (by decide)

def plainByteOver : Ctx Unit Unit :=
  play plainEnv plainByteStart (plainOneChannel ++ [.feedInput (plainRecord plainTwoBytes)])

theorem max_packet_exceeded_plain :
    Reachable plainEnv plainByteOver ∧
    Entry.sent (.channelOpenConfirm 0 0 262144 1) ∈ plainByteOver.entries ∧
    .channelData 0 [0, 0] ∈ plainByteOver.queued ∧ plainByteOver.state = .ready :=
  ⟨reachable_play (Option.some_get _).symm _, by decide +kernel⟩

/-- A client without a key whose records are as small as the packets it tells its peers to send. -/
def plainEvenClient : Config where
  serverIdPk := some (plainKey 5)
  maxRecordSize := 17
  maxPacket := 8

def plainEvenStart : Ctx Unit Unit :=
  (create plainEnv .client (some plainEvenClient) () true).get (by decide +kernel)

def plainEvenCalls : List Call :=
  plainClientAuth ++ [.feedInput (plainRecord [pduAuthOk, 0, 0]), .channelOpen (some (ascii "tun")),
    .feedInput (plainRecord ([pduChannelOpenConfirm] ++ be32 0 ++ be32 0 ++ be32 64 ++ be32 8)),
    .feedInput (plainRecord ([pduChannelData] ++ be32 0 ++ be32 8 ++ List.replicate 8 0))]

theorem max_packet_enforced_plain :
    Entry.sent (.channelOpen 0 262144 8 (ascii "tun")) ∈
      (play plainEnv plainEvenStart plainEvenCalls).entries ∧
    Event.channelData 0 (List.replicate 8 0) ∈
      (play plainEnv plainEvenStart plainEvenCalls).emitted ∧
    ∀ id data, .channelData id data ∈ (play plainEnv plainEvenStart plainEvenCalls).emitted →
      data.length ≤ (play plainEnv plainEvenStart plainEvenCalls).maxPacket.toNat := by
  have hr : ReachableUnder plainEnv (fun c k => True ∧ RoundsMeet plainEnv (Guarded plainEnv) c k)
      (play plainEnv plainEvenStart plainEvenCalls) :=
    .of_observedB (Option.some_get _).symm (by decide +kernel)
  simp only [true_and] at hr
  have hfacts : Entry.sent (.channelOpen 0 262144 8 (ascii "tun")) ∈
        (play plainEnv plainEvenStart plainEvenCalls).entries ∧
      Event.channelData 0 (List.replicate 8 0) ∈
        (play plainEnv plainEvenStart plainEvenCalls).emitted := by
    decide +kernel
  exact ⟨hfacts.1, hfacts.2, (max_packet_enforced plainEnv_streamLengths hr).1⟩

theorem emit_queued (c : Ctx Rng SS) (ev : Event) :
    (emit c ev).queued = c.queued ++ [ev] ↔ c.roomy := by
  have hq : (emit c ev).queued = c.queued ++ (emitOcc c ev).queued?.toList := by
    rw [emit_eq]
    unfold Ctx.queued
    rw [List.filterMap_append]
    cases h : (emitOcc c ev).queued? <;> simp [h]
  rw [hq, List.append_cancel_left_eq, Ctx.roomy, ← RingBuffer.push_isSome_iff (a := ev)]
  unfold emitOcc
  split
  · rename_i h
    exact iff_of_true rfl h
  · rename_i h
    exact iff_of_false (by simp [Occ.queued?]) h

/-- A whole frame that carries DATA for an open channel, within its credit and the size of an
event. -/
structure Offers (E : Env Rng SS) (c : Ctx Rng SS) (i : Fin maxChannelSlots) (id : UInt32)
    (data body rest : Bytes) : Prop where
  live : c.muxes ∧ c.hs = .done ∧ c.ssPullReady
  input : c.inBuf = rawFrame body ++ rest
  record : ∃ st plain tag, E.ssPull c.ssPull body = some (st, plain, tag) ∧
    body.length = plain.length + ssAbytes ∧ Dispatched tag ∧
    Pdu.ofBytes plain = .channelData id data
  slot : chByLocal c id = some i
  opened : (c.channels i).state = .open_
  credit : data.length ≤ (c.channels i).recvWindow.toNat
  size : data.length ≤ dataMax

namespace Offers

variable {rest : Bytes}

theorem length_body (h : Offers E c i id data body rest) :
    body.length = 9 + data.length + ssAbytes := by
  obtain ⟨st, plain, tag, -, hlen, -, hp⟩ := h.record
  rw [hlen, length_of_channelData hp]

theorem not_ended (h : Offers E c i id data body rest) : ¬ c.ended := by
  rintro (he | he) <;> rcases h.live.1 with hst | hst <;> rw [hst] at he <;> cases he

theorem parse (h : Offers E c i id data body rest) :
    parseInput E c = if 9 + data.length + ssAbytes ≤ ssFrameMaxBody E c
      then .ok (4 + body.length, body) else .error .protocol := by
  have hlen := h.length_body
  have hsize := h.size
  have hlt : body.length < 2 ^ 32 := by
    simp only [dataMax, ssAbytes] at *
    omega
  unfold parseInput
  rw [if_pos h.live.2.1, h.input]
  split
  · rename_i hle
    refine Wire.frameParseMax_ok_iff.mpr ⟨⟨?_, hlen.trans_le hle, hlt⟩, rfl, rest, rfl⟩
    rintro rfl
    simp [ssAbytes] at hlen
  · rename_i hgt
    obtain ⟨x, y, z, w, he, hn⟩ := Wire.rawFrame_append body rest hlt
    rw [he, Wire.frameParseMax_cons, hn, hlen, if_pos (Or.inr (Nat.lt_of_not_le hgt))]

theorem delivers (h : Offers E c i id data body rest) (hrec : 9 + data.length ≤ c.maxRecordSize)
    (hframe : 9 + data.length + ssAbytes ≤ ssFrameMaxBody E c) :
    ∃ plain, c.Delivers E body plain ∧ Pdu.ofBytes plain = .channelData id data := by
  have hlen := h.length_body
  have hsize := h.size
  have hparse := h.parse
  rw [if_pos hframe] at hparse
  obtain ⟨st, plain, tag, hpull, -, ht, hp⟩ := h.record
  refine ⟨plain, ⟨⟨_, hparse⟩, h.live.2.1, h.live.2.2, ⟨?_, ?_, ?_⟩, st, tag, hpull, ht⟩, hp⟩
  · omega
  · simp only [plainBufSize]
    omega
  · omega

theorem taken (h : Offers E c i id data body rest) (hrec : 9 + data.length ≤ c.maxRecordSize)
    (hframe : 9 + data.length + ssAbytes ≤ ssFrameMaxBody E c) :
    ∃ c', processOne E c = .again c' ∧ c'.inBuf = rest ∧ c'.state = c.state ∧
      (c'.queued = c.queued ++ [.channelData id data] ↔ c.roomy) := by
  obtain ⟨plain, hdel, hp⟩ := h.delivers hrec hframe
  obtain ⟨st, tag, ht, hround⟩ := hdel.round h.not_ended
  have hq : ((c.log (.frame (rawFrame body))).afterPull st body plain tag).queued = c.queued := by
    simp [Ctx.queued, Ctx.afterPull, Ctx.log, Occ.queued?]
  have hin : ((c.log (.frame (rawFrame body))).afterPull st body plain tag).inBuf =
      rawFrame body ++ rest := h.input
  have hch : ((c.log (.frame (rawFrame body))).afterPull st body plain tag).channels =
      c.channels := rfl
  have hst : ((c.log (.frame (rawFrame body))).afterPull st body plain tag).state = c.state := rfl
  have hev : ((c.log (.frame (rawFrame body))).afterPull st body plain tag).events = c.events := rfl
  generalize (c.log (.frame (rawFrame body))).afterPull st body plain tag = d at *
  have hslot : chByLocal d id = some i := by
    unfold chByLocal
    rw [hch]
    exact h.slot
  have hmux : d.muxes := by
    rw [Ctx.muxes, hst]
    exact h.live.1
  have hplain := handlePlain_data (E := E) hmux ht hp hslot (by rw [hch]; exact h.opened)
  rw [hch, if_neg (Nat.not_lt.mpr h.credit), if_neg (Nat.not_lt.mpr h.size)] at hplain
  have hcount : c.roomy ↔ (setCh d i ((c.channels i).received data)).roomy := by
    rw [Ctx.roomy, Ctx.roomy, ← hev]
    rfl
  refine ⟨_, hround _ _ hplain, ?_, ?_, ?_⟩
  · rw [emit_eq]
    change d.inBuf.drop (4 + body.length) = rest
    rw [hin, ← length_rawFrame, List.drop_left]
  · exact (emit_state _ _).trans hst
  · rw [hcount, ← emit_queued _ (.channelData id data), ← hq]
    rfl

theorem refused (h : Offers E c i id data body rest)
    (hn : ¬ (9 + data.length ≤ c.maxRecordSize ∧
      9 + data.length + ssAbytes ≤ ssFrameMaxBody E c)) :
    ∃ d msg, processOne E c = .stop (setError d .protocol msg) := by
  have hlen := h.length_body
  have hparse := h.parse
  obtain ⟨hend | hfull, -⟩ | ⟨-, -, -, hround⟩ | ⟨k, body', d, -, -, hk, hround⟩ :=
    processOne_cases E c
  · exact absurd hend h.not_ended
  · rw [hparse] at hfull
    split at hfull <;> cases hfull
  · exact ⟨_, _, hround⟩
  · rw [hk] at hparse
    split at hparse
    · rename_i hframe
      obtain ⟨rfl, rfl⟩ := Prod.mk.inj (Except.ok.inj hparse)
      have hrec : ¬ 9 + data.length ≤ c.maxRecordSize := fun hr => hn ⟨hr, hframe⟩
      have hhandle : handleFrame E (c.log (.frame (rawFrame body'))) body' =
          (setError (c.log (.frame (rawFrame body'))) .protocol "ss plaintext too large",
            false) := by
        unfold handleFrame
        rw [show (c.log (.frame (rawFrame body'))).hs = .done from h.live.2.1]
        refine handleEncryptedPdu_large (c := c.log (.frame (rawFrame body'))) h.live.2.2 ?_ ?_
        · omega
        · change c.maxRecordSize < _
          omega
      rw [hhandle] at hround
      obtain ⟨hd, -⟩ | ⟨hd, hround⟩ := hround
      · cases (Prod.mk.inj hd).2
      · obtain ⟨rfl, -⟩ := Prod.mk.inj hd
        exact ⟨_, _, hround⟩
    · cases hparse

end Offers

/-- DATA on an open channel, within the credit and the size of an event, is taken and queued
exactly when its record and its frame are within the limits of the receiver, and the queue has
room; the first two decide whether the session goes on. -/
theorem data_taken_iff {rest : Bytes} (h : Offers E c i id data body rest) :
    ((∃ c', processOne E c = .again c' ∧ c'.inBuf = rest ∧ c'.state = c.state ∧
        c'.queued = c.queued ++ [.channelData id data]) ↔
      9 + data.length ≤ c.maxRecordSize ∧ 9 + data.length + ssAbytes ≤ ssFrameMaxBody E c ∧
        c.roomy) ∧
    ((processOne E c).state.state ≠ .error ↔
      9 + data.length ≤ c.maxRecordSize ∧ 9 + data.length + ssAbytes ≤ ssFrameMaxBody E c) := by
  by_cases hl : 9 + data.length ≤ c.maxRecordSize ∧ 9 + data.length + ssAbytes ≤ ssFrameMaxBody E c
  · obtain ⟨c', hround, hin, hst, hq⟩ := h.taken hl.1 hl.2
    have hst' : (processOne E c).state.state ≠ .error := by
      rw [hround]
      exact fun he => h.not_ended (Or.inl (hst.symm.trans he))
    refine ⟨?_, iff_of_true hst' hl⟩
    constructor
    · rintro ⟨d, hd, -, -, hqd⟩
      obtain rfl : c' = d := by
        rw [hround] at hd
        exact Outcome.again.inj hd
      exact ⟨hl.1, hl.2, hq.mp hqd⟩
    · rintro ⟨-, -, hr⟩
      exact ⟨c', hround, hin, hst, hq.mpr hr⟩
  · obtain ⟨d, msg, hround⟩ := h.refused hl
    rw [hround]
    refine ⟨iff_of_false ?_ ?_, iff_of_false ?_ hl⟩
    · rintro ⟨d, hd, -⟩
      cases hd
    · rintro ⟨h1, h2, -⟩
      exact hl ⟨h1, h2⟩
    · rw [not_not]
      exact setError_state _ _ _

def plainNarrowServer : Config where
  serverIdPk := some (plainKey 5)
  serverIdSk := some (BytesN.zero 64)
  maxRecordSize := 120

def plainNarrowStart : Ctx Unit Unit :=
  (create plainEnv .server (some plainNarrowServer) () true).get (by decide)

def plainNarrowOver : Ctx Unit Unit :=
  play plainEnv plainNarrowStart (plainOneChannel ++ [.feedInput (plainRecord
    ([pduChannelData] ++ be32 0 ++ be32 112 ++ List.replicate 112 0))])

/-- The peer was told 65536 bytes and a credit of 262144, and 112 bytes end the session. -/
theorem data_refused_plain :
    Reachable plainEnv plainNarrowOver ∧
    Entry.sent (.channelOpenConfirm 0 0 262144 65536) ∈ plainNarrowOver.entries ∧
    (plainNarrowOver.channels slot0).state = .open_ ∧
    (plainNarrowOver.channels slot0).recvWindow = 262144 ∧ 112 ≤ dataMax ∧
    plainNarrowOver.state = .error :=
  ⟨reachable_play (Option.some_get _).symm _, by decide +kernel⟩

theorem data_taken_iff_plain :
    (processOne plainEnv (plainServerOpen.taking (plainRecord plainByte))).state.state ≠ .error ↔
      9 + [0].length ≤ (plainServerOpen.taking (plainRecord plainByte)).maxRecordSize ∧
        9 + [0].length + ssAbytes ≤
          ssFrameMaxBody plainEnv (plainServerOpen.taking (plainRecord plainByte)) := by
  have hpdu : Pdu.ofBytes plainByte = .channelData 0 [0] := by decide +kernel
  have hrecord : ∃ st plain tag, plainEnv.ssPull () (plainByte ++ plainTail tagMessage) =
      some (st, plain, tag) ∧ (plainByte ++ plainTail tagMessage).length = plain.length + ssAbytes ∧
      Dispatched tag ∧ Pdu.ofBytes plain = .channelData 0 [0] :=
    ⟨(), plainByte, tagMessage, by decide +kernel, by decide +kernel, by decide, hpdu⟩
  obtain ⟨hstate, hhs, hready, hinput, hslot, hopen, hcredit⟩ :
      (plainServerOpen.taking (plainRecord plainByte)).state = .ready ∧
      (plainServerOpen.taking (plainRecord plainByte)).hs = .done ∧
      (plainServerOpen.taking (plainRecord plainByte)).ssPullReady ∧
      (plainServerOpen.taking (plainRecord plainByte)).inBuf =
        rawFrame (plainByte ++ plainTail tagMessage) ++ [] ∧
      chByLocal (plainServerOpen.taking (plainRecord plainByte)) 0 = some slot0 ∧
      ((plainServerOpen.taking (plainRecord plainByte)).channels slot0).state = .open_ ∧
      [0].length ≤
        ((plainServerOpen.taking (plainRecord plainByte)).channels slot0).recvWindow.toNat := by
    decide +kernel
  have hoff : Offers plainEnv (plainServerOpen.taking (plainRecord plainByte)) slot0 0 [0]
      (plainByte ++ plainTail tagMessage) [] :=
    ⟨⟨Or.inl hstate, hhs, hready⟩, hinput, hrecord, hslot, hopen, hcredit, by decide⟩
  exact (data_taken_iff hoff).2

end Sodchan
