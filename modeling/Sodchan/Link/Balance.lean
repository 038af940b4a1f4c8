import Sodchan.Channel.Lifetimes
import Sodchan.Link.Closing

/-! # Balanced windows

The window of the receiver is the window of the sender, the bytes on their way
to it and the credit on its way back. A DATA PDU that was sent is therefore
never refused as over window. Once the ids have come around two channels share
one, and credit goes astray.
-/

namespace Sodchan

open ByteString

variable {Rng SS : Type} {E : Env Rng SS} {c d : Ctx Rng SS} {N N' : Net Rng SS} {r : Role}
  {i : Fin maxChannelSlots} {x y : UInt32} {p : Bytes}

/-- The windows of the channels between an endpoint and its peer, as long as the credit that the
peer ever gave on a channel fits the counter. -/
structure Net.Balanced (N : Net Rng SS) (r : Role) : Prop where
  conserved : ∀ {i j}, ((N.ends r).channels i).state = .open_ →
    ((N.ends r.peer).channels j).state = .open_ →
    ((N.ends r.peer).channels j).localId = ((N.ends r).channels i).peerId →
    (N.ends r.peer).initialWindow.toNat +
      credits ((N.ends r.peer).saidOn ((N.ends r.peer).channels j).localId) < 2 ^ 32 →
    ((N.ends r.peer).channels j).recvWindow.toNat = ((N.ends r).channels i).sendWindow.toNat +
      sizes (N.inFlight r ((N.ends r.peer).channels j).localId) +
      credits (N.inFlight r.peer ((N.ends r).channels i).localId)
  /-- Whatever has become of the sender, what is on its way fits. -/
  fits : ∀ {j}, ((N.ends r.peer).channels j).state = .open_ →
    (N.ends r.peer).initialWindow.toNat +
      credits ((N.ends r.peer).saidOn ((N.ends r.peer).channels j).localId) < 2 ^ 32 →
    sizes (N.inFlight r ((N.ends r.peer).channels j).localId) ≤
      ((N.ends r.peer).channels j).recvWindow.toNat
  /-- Nothing that has arrived was refused. -/
  raised : ∀ {j}, ((N.ends r.peer).channels j).state = .open_ →
    (N.ends r.peer).initialWindow.toNat +
      credits ((N.ends r.peer).saidOn ((N.ends r.peer).channels j).localId) < 2 ^ 32 →
    (N.ends r.peer).tookPdus.filterMap (Pdu.msgTo ((N.ends r.peer).channels j).localId) =
      (N.ends r.peer).raisedOn ((N.ends r.peer).channels j).localId

namespace Talking

variable {d : Role → List Note} {G : List Note → List Note → Note → Prop}

theorem conserved (ht : Talking E G N d) {i j : Fin maxChannelSlots}
    (hi : ((N.ends r).channels i).state = .open_)
    (hj : ((N.ends r.peer).channels j).state = .open_)
    (hij : ((N.ends r.peer).channels j).localId = ((N.ends r).channels i).peerId)
    (hfit : (N.ends r.peer).initialWindow.toNat +
      credits ((N.ends r.peer).saidOn ((N.ends r.peer).channels j).localId) < 2 ^ 32) :
    ((N.ends r.peer).channels j).recvWindow.toNat = ((N.ends r).channels i).sendWindow.toNat +
      sizes (N.inFlight r ((N.ends r.peer).channels j).localId) +
      credits (N.inFlight r.peer ((N.ends r).channels i).localId) := by
  obtain ⟨w, q, hx, hbx⟩ := ht.open_stage hi
  obtain ⟨own, quota, hy, hby⟩ := ht.open_stage hj
  rw [← hij] at hx
  rw [ht.own_eq hy, ← ((ht.noted r.peer).amounts _).2] at hfit
  obtain ⟨rfl, hsent, hcredit⟩ := (ht.talk r).conserved hx hy hfit
  have hrecv := hby.recv hfit
  have hsend := hbx.send (by omega)
  have hback := ht.inFlight_eq (r := r.peer) (y := ((N.ends r).channels i).localId)
  rw [Role.peer_peer] at hback
  rw [ht.inFlight_eq, hback]
  omega

theorem fits (ht : Talking E G N d) {j : Fin maxChannelSlots}
    (hj : ((N.ends r.peer).channels j).state = .open_)
    (hfit : (N.ends r.peer).initialWindow.toNat +
      credits ((N.ends r.peer).saidOn ((N.ends r.peer).channels j).localId) < 2 ^ 32) :
    sizes (N.inFlight r ((N.ends r.peer).channels j).localId) ≤
        ((N.ends r.peer).channels j).recvWindow.toNat ∧
      (N.ends r.peer).tookPdus.filterMap (Pdu.msgTo ((N.ends r.peer).channels j).localId) =
        (N.ends r.peer).raisedOn ((N.ends r.peer).channels j).localId := by
  obtain ⟨own, quota, hy, hby⟩ := ht.open_stage hj
  rw [ht.own_eq hy, ← ((ht.noted r.peer).amounts _).2] at hfit
  have hroom := (ht.talk r).room hy hfit
  have hrecv := hby.recv hfit
  rw [ht.inFlight_eq, tookPdus_eq, (ht.noted r.peer).taken, (ht.noted r.peer).raised]
  exact ⟨by omega, (ht.talk r).heard_eq hy fun m => (ht.talk r).within hy hfit⟩

end Talking

/-- Between two honest endpoints credit is conserved: what an open channel will still take is what
its open partner may still send, the bytes on their way and the credit on its way back. -/
theorem windows_balanced (hE : Ideal E) (h : N.Created E)
    (hrun : Net.Run E (fun _ _ => True) N N') (hb : ∀ r, (N'.ends r).allocs < 2 ^ 32) (r : Role) :
    N'.Balanced r := by
  obtain ⟨d, ht⟩ := Talking.run hE .any h hrun hb
  exact ⟨fun hi hj => ht.conserved hi hj, fun hj hf => (ht.fits hj hf).1,
    fun hj hf => (ht.fits hj hf).2⟩

/-- One byte is on its way. -/
theorem windows_balanced_plain : plainOpened.Balanced .client ∧ plainOpened.Balanced .server ∧
    ((plainOpened.ends .server).channels slot0).recvWindow = 262141 ∧
    ((plainOpened.ends .client).channels slot0).sendWindow = 262140 ∧
    sizes (plainOpened.inFlight .client 0) = 1 := by
  have hfacts : ((plainOpened.ends .server).channels slot0).recvWindow = 262141 ∧
      ((plainOpened.ends .client).channels slot0).sendWindow = 262140 ∧
      sizes (plainOpened.inFlight .client 0) = 1 := by decide +kernel
  exact ⟨windows_balanced ideal_plainEnv created_plainNet run_plainOpened plainOpened_allocs _,
    windows_balanced ideal_plainEnv created_plainNet run_plainOpened plainOpened_allocs _, hfacts⟩

/-- Calls of a host concern its own endpoint. -/
theorem Net.foldl_host (ks : List Call) (N : Net Rng SS) :
    (((ks.map (.host r)).foldl (Net.step E) N).ends =
      Function.update N.ends r (play E (N.ends r) ks)) ∧
    ((ks.map (.host r)).foldl (Net.step E) N).wire r.peer = N.wire r.peer := by
  induction ks generalizing N with
  | nil => exact ⟨(Function.update_eq_self _ _).symm, rfl⟩
  | cons k ks ih =>
    obtain ⟨hends, hwire⟩ := ih (N.step E (.host r k))
    have hstep : (N.step E (.host r k)).ends = Function.update N.ends r (call E (N.ends r) k).1 :=
      rfl
    refine ⟨?_, hwire.trans (Function.update_of_ne (by cases r <;> decide) _ _)⟩
    rw [List.map_cons, List.foldl_cons, hends, hstep, Function.update_idem,
      Function.update_self]
    rfl

theorem Net.step_deliver (N : Net Rng SS) (n : ℕ) : (N.step E (.deliver r n)).ends =
    Function.update N.ends r (feedInput E (N.ends r) ((N.wire r.peer).take n)).1 := rfl

section Filled

variable {c d : Ctx Unit Unit} {n k : ℕ}

/-- So many payloads of a length can be sent on the channel, one after the other. -/
structure Pours (c : Ctx Unit Unit) (i : Fin maxChannelSlots) (n k : ℕ) : Prop where
  state : c.state = .ready
  found : chByLocal c (c.channels i).localId = some i
  open_ : (c.channels i).state = .open_
  peer : (c.channels i).havePeerId = true
  going : (c.channels i).localEof = false
  quota : n ≤ (c.channels i).maxPacket.toNat
  data : n ≤ dataMax
  window : k * n ≤ (c.channels i).sendWindow.toNat
  ready : c.ssPushReady = true
  record : 9 + n ≤ c.maxRecordSize
  body : 9 + n + ssAbytes ≤ ssFrameMaxBody plainEnv c
  start : c.outOff = 0
  room : c.outBuf.length + k * (4 + (9 + n + ssAbytes)) ≤ outBufSize

/-- What sending on a channel changes. -/
structure Poured (c d : Ctx Unit Unit) (i : Fin maxChannelSlots) (n : ℕ) : Prop where
  rest : d = { c with
    channels := Function.update c.channels i (d.channels i), outBuf := d.outBuf
    outOff := d.outOff, hist := d.hist }
  slot : d.channels i = { c.channels i with sendWindow := (d.channels i).sendWindow }
  length : d.outBuf.length = c.outBuf.length + n
  took : d.tookPdus = c.tookPdus
  sent : ∀ y, y ≠ (c.channels i).peerId →
    d.sentPdus.filterMap (Pdu.msgTo y) = c.sentPdus.filterMap (Pdu.msgTo y)

theorem Poured.refl (c : Ctx Unit Unit) : Poured c c i 0 :=
  ⟨by rw [Function.update_eq_self], rfl, rfl, rfl, fun _ _ => rfl⟩

theorem Poured.trans {e : Ctx Unit Unit} {m : ℕ} (h : Poured c d i m) (h' : Poured d e i n) :
    Poured c e i (m + n) := by
  have hrest := h'.rest
  rw [h.rest] at hrest
  refine ⟨?_, ?_, ?_, h'.took.trans h.took, fun y hy => ?_⟩
  · rw [hrest]
    simp
  · rw [h'.slot, h.slot]
  · rw [h'.length, h.length, Nat.add_assoc]
  · rw [h'.sent y (by rwa [h.slot]), h.sent y hy]

/-- A payload of the length goes out. -/
theorem Pours.goes (h : Pours c i n (k + 1)) (hp : p.length = n) : ∃ pdu,
    Wire.channelDataEncode (c.channels i).peerId p (9 + p.length) = .ok pdu ∧
    pdu.length = 9 + n ∧
    channelSend plainEnv c (c.channels i).localId (.buf p) true =
      (setCh (c.pushed pdu () (pdu ++ plainTail tagMessage)) i { c.channels i with
        sendWindow := (c.channels i).sendWindow - UInt32.ofNat p.length }, .ok) := by
  have hroom := h.room
  have hwin := h.window
  rw [Nat.add_mul, Nat.one_mul] at hroom hwin
  have hdata := h.data
  have hquota := h.quota
  have hmax : dataMax = 64 * 1024 := rfl
  obtain ⟨pdu, henc, hlen⟩ : ∃ pdu,
      Wire.channelDataEncode (c.channels i).peerId p (9 + p.length) = .ok pdu ∧
        pdu.length = 9 + n := by
    unfold Wire.channelDataEncode
    rw [if_neg (by omega), if_neg (by omega)]
    exact ⟨_, rfl, by simp +arith [Wire.putU32, hp]⟩
  have hs : SendRoom plainEnv c pdu := by
    refine ⟨h.ready, fun hn => ?_, by rw [hlen]; exact h.record, ?_, by rw [hlen]; exact h.body⟩
    · rw [hn, List.length_nil] at hlen
      omega
    · rw [Ctx.pending, h.start, List.drop_zero, hlen]
      omega
  have hsend : ssSendPdu plainEnv c pdu = (c.pushed pdu () (pdu ++ plainTail tagMessage), .ok) := by
    obtain ⟨st, ct, -, hpush, he⟩ | ⟨-, -, -, hno, -⟩ := ssSendPdu_cases plainEnv c pdu
    · obtain ⟨-, rfl⟩ := Prod.mk.inj (Option.some.inj hpush)
      exact he
    · cases hno hs
  refine ⟨pdu, henc, hlen, ?_⟩
  unfold channelSend
  rw [if_neg (by rintro ⟨⟩), if_neg (not_not.mpr h.state), h.found]
  dsimp only
  rw [if_neg (by simp [h.open_, h.peer]), if_neg (by simp [h.going]),
    if_neg (by simp only [Arg.len, not_or]; omega),
    if_neg (by simp only [Arg.len]; omega), if_neg (by decide)]
  simp only [Arg.data, Arg.len, henc, hsend]

theorem Pours.send (h : Pours c i n (k + 1)) (hp : p.length = n) :
    let d := (call plainEnv c (.channelSend (c.channels i).localId (.buf p) true)).1
    Pours d i n k ∧ Poured c d i (4 + (9 + n + ssAbytes)) := by
  have hroom := h.room
  have hwin := h.window
  rw [Nat.add_mul, Nat.one_mul] at hroom hwin
  have hpend : c.pending = c.outBuf := by rw [Ctx.pending, h.start, List.drop_zero]
  obtain ⟨pdu, henc, hlen, hcall⟩ := h.goes hp
  intro d
  have hd : d = (setCh (c.pushed pdu () (pdu ++ plainTail tagMessage)) i { c.channels i with
      sendWindow := (c.channels i).sendWindow - UInt32.ofNat p.length }).log
        (.did (.channelSend (c.channels i).localId (.buf p) true)) := by
    change (Sodchan.record _ (channelSend plainEnv c _ _ _)).1 = _
    rw [hcall]
    rfl
  have hbuf : d.outBuf = c.outBuf ++ rawFrame (pdu ++ plainTail tagMessage) := by
    rw [hd, ← hpend]
    rfl
  have hlength : d.outBuf.length = c.outBuf.length + (4 + (9 + n + ssAbytes)) := by
    rw [hbuf, List.length_append, length_rawFrame, List.length_append, hlen]
    rfl
  have hslot : d.channels i = { c.channels i with
      sendWindow := (c.channels i).sendWindow - UInt32.ofNat n } := by
    rw [hd, ← hp]
    exact Function.update_self _ _ _
  have hwindow : (d.channels i).sendWindow.toNat = (c.channels i).sendWindow.toNat - n := by
    have hsub := toNat_sub_le (w := (c.channels i).sendWindow) (n := n) (by omega)
    rw [hslot]
    exact Nat.eq_sub_of_add_eq hsub
  have hother : ∀ j, j ≠ i → d.channels j = c.channels j := by
    intro j hj
    rw [hd]
    exact Function.update_of_ne hj _ _
  have hfound : ∀ x, chByLocal d x = chByLocal c x := by
    intro x
    refine congrArg (fun f => (List.finRange maxChannelSlots).find? f) (funext fun j => ?_)
    by_cases hj : j = i
    · rw [hj, hslot]
    · rw [hother j hj]
  have hhist : d.hist = c.hist ++ [.sent pdu, .appended (rawFrame (pdu ++ plainTail tagMessage)),
      .did (.channelSend (c.channels i).localId (.buf p) true)] := by
    rw [hd]
    exact List.append_assoc _ _ _
  refine ⟨⟨?_, ?_, ?_, ?_, ?_, ?_, h.data, ?_, ?_, ?_, ?_, ?_, ?_⟩, ?_, ?_, hlength, ?_,
    fun y hy => ?_⟩
  · rw [hd]; exact h.state
  · rw [hfound, hslot]; exact h.found
  · rw [hslot]; exact h.open_
  · rw [hslot]; exact h.peer
  · rw [hslot]; exact h.going
  · rw [hslot]; exact h.quota
  · rw [hwindow]; omega
  · rw [hd]; exact h.ready
  · rw [hd]; exact h.record
  · rw [hd]; exact h.body
  · rw [hd]; rfl
  · rw [hlength]; omega
  · conv_lhs => rw [hd]
    rw [hslot, hd, ← hp]
    rfl
  · rw [hslot]
  · unfold Ctx.tookPdus Ctx.received Ctx.records
    rw [hhist, List.filterMap_append]
    simp [Occ.pulled?]
  · unfold Ctx.sentPdus Ctx.sent
    have hof : Pdu.ofChannel pdu = some (.channelData (c.channels i).peerId p) := by
      rw [Pdu.ofChannel, Pdu.ofBytes_channelData henc]
    rw [hhist, List.filterMap_append, List.filterMap_append, List.filterMap_append]
    simp [Occ.sent?, hof, Pdu.msgTo, hy.symm]

/-- The output buffer is filled on a channel. -/
theorem Pours.run (hp : p.length = n) (h : Pours c i n k) :
    let d := play plainEnv c (List.replicate k (.channelSend (c.channels i).localId (.buf p) true))
    Pours d i n 0 ∧ Poured c d i (k * (4 + (9 + n + ssAbytes))) := by
  induction k generalizing c with
  | zero => exact ⟨h, by rw [Nat.zero_mul]; exact .refl c⟩
  | succ k ih =>
    obtain ⟨hnext, hpoured⟩ := h.send hp
    obtain ⟨hlast, hrest⟩ := ih hnext
    have hid := congrArg Channel.localId hpoured.slot
    dsimp only at hid
    rw [hid] at hlast hrest
    refine ⟨hlast, ?_⟩
    rw [Nat.add_mul, Nat.one_mul, Nat.add_comm (k * _)]
    exact hpoured.trans hrest

theorem Poured.states (h : Poured c d i n) (j : Fin maxChannelSlots) :
    (d.channels j).state = (c.channels j).state := by
  by_cases hj : j = i
  · rw [hj, h.slot]
  · rw [h.rest]
    exact congrArg Channel.state (Function.update_of_ne hj _ _)

theorem Poured.skipped (h : Poured c d i n) (m : ℕ) : d.skipped m = { c with
    channels := Function.update c.channels i (d.channels i)
    nextLocalChannelId := c.nextLocalChannelId + UInt32.ofNat m, outBuf := d.outBuf
    outOff := d.outOff, hist := d.hist, allocs := c.allocs + m } := by
  unfold Ctx.skipped
  conv_lhs => rw [h.rest]

/-- Once the output buffer is full, opens only use up ids. -/
theorem Pours.flood {name : Bytes} {j : Fin maxChannelSlots} (hp : p.length = n)
    (h : Pours c i n k) (hij : j ≠ i) (hn : name ≠ []) (hlen : name.length ≤ channelNameMax)
    (hok : channelNameAllowed c name) (hact : c.activeChannels < c.maxChannels)
    (hfind : (List.finRange maxChannelSlots).find?
      (fun j => (c.channels j).state = .unused) = some j) (hz : c.channels j = .zero)
    (hfull : outBufSize < c.outBuf.length + k * (4 + (9 + n + ssAbytes)) +
      (4 + (14 + name.length + ssAbytes))) (m : ℕ) :
    ∃ d, Poured c d i (k * (4 + (9 + n + ssAbytes))) ∧
      play plainEnv c (List.replicate k (.channelSend (c.channels i).localId (.buf p) true) ++
        List.replicate m (.channelOpen (some name))) = d.skipped m := by
  obtain ⟨hd, hpoured⟩ := h.run hp
  refine ⟨_, hpoured, ?_⟩
  have hplay : ∀ l l', play plainEnv c (l ++ l') = play plainEnv (play plainEnv c l) l' :=
    fun l l' => List.foldl_append
  rw [hplay]
  generalize play plainEnv c _ = d at hd hpoured
  have hrest := hpoured.rest
  refine play_lost (i := j) hn hlen m hd.state ?_ ?_ ?_ ?_ hd.ready (Or.inr ⟨hd.start, ?_⟩)
  · rw [hrest]
    exact hok
  · rw [hrest]
    exact hact
  · rw [← hfind]
    simp only [hpoured.states]
  · rw [hrest]
    exact (Function.update_of_ne hij _ _).trans hz
  · rw [hpoured.length]
    exact hfull

end Filled

/-- The client opens three channels, of which the server refuses the first. The server then opens
one itself and grants credit on the second, and the client has yet to take both PDUs. -/
def plainStray : List Act :=
  plainExchange ++ .host .server (.authDecide true) :: plainPass .server ++
    [.host .client (.channelOpen (some (ascii "exec"))),
      .host .client (.channelOpen (some (ascii "tun"))),
      .host .client (.channelOpen (some (ascii "tap")))] ++ plainPass .client ++
    [.host .server (.channelAccept 0 false), .host .server (.channelAccept 1 true),
      .host .server (.channelAccept 2 true)] ++ plainPass .server ++
    [.host .server (.channelOpen (some (ascii "exec"))),
      .host .server (.channelWindowAdjust 1 7), .host .server (.getOutput 4096)]

@[irreducible] def plainGranted : Net Unit Unit := plainStray.foldl (Net.step plainEnv) plainNet

/-- The CHANNEL_OPEN of the server, and its credit for the second channel. -/
def plainStrayPdus : Bytes × Bytes :=
  ([pduChannelOpen] ++ be32 3 ++ be32 262144 ++ be32 65536 ++ [4] ++ ascii "exec",
    [pduChannelWindow] ++ be32 1 ++ be32 7)

theorem plainGranted_facts :
    ((plainGranted.ends .client).channels slot1).state = .open_ ∧
    ((plainGranted.ends .client).channels slot1).localId = 1 ∧
    ((plainGranted.ends .client).channels slot1).peerId = 1 ∧
    ((plainGranted.ends .client).channels slot1).sendWindow = 262144 ∧
    ((plainGranted.ends .server).channels slot1).state = .open_ ∧
    ((plainGranted.ends .server).channels slot1).localId = 1 ∧
    ((plainGranted.ends .server).channels slot1).recvWindow = 262151 ∧
    (plainGranted.ends .server).initialWindow = 262144 ∧
    (plainGranted.ends .server).saidOn 1 = [.window 7] ∧
    (plainGranted.ends .client).sentPdus.filterMap (Pdu.msgTo 1) = [] ∧
    (plainGranted.ends .server).sentPdus.length =
      (plainGranted.ends .client).tookPdus.length + 2 ∧
    (plainGranted.wire .server).take 4096 =
      plainRecord plainStrayPdus.1 ++ plainRecord plainStrayPdus.2 := by
  decide +kernel

/-- Two payloads fit the output buffer, and nothing else does. -/
theorem plainGranted_pours : Pours (plainGranted.ends .client) slot2 65487 2 ∧
    ((plainGranted.ends .client).channels slot2).localId = 2 ∧
    ((plainGranted.ends .client).channels slot2).peerId = 2 ∧
    (plainGranted.ends .client).outBuf = [] ∧
    channelNameAllowed (plainGranted.ends .client) (ascii "exec") = true ∧
    (plainGranted.ends .client).activeChannels < (plainGranted.ends .client).maxChannels ∧
    (List.finRange maxChannelSlots).find? (fun j =>
      ((plainGranted.ends .client).channels j).state = .unused) = some slot0 ∧
    (plainGranted.ends .client).channels slot0 = .zero ∧
    (plainGranted.ends .client).nextLocalChannelId + UInt32.ofNat 4294967294 = 1 := by
  have hfacts : (plainGranted.ends .client).state = .ready ∧
      chByLocal (plainGranted.ends .client) ((plainGranted.ends .client).channels slot2).localId =
        some slot2 ∧
      ((plainGranted.ends .client).channels slot2).state = .open_ ∧
      ((plainGranted.ends .client).channels slot2).havePeerId = true ∧
      ((plainGranted.ends .client).channels slot2).localEof = false ∧
      65487 ≤ ((plainGranted.ends .client).channels slot2).maxPacket.toNat ∧ 65487 ≤ dataMax ∧
      2 * 65487 ≤ ((plainGranted.ends .client).channels slot2).sendWindow.toNat ∧
      (plainGranted.ends .client).ssPushReady = true ∧
      9 + 65487 ≤ (plainGranted.ends .client).maxRecordSize ∧
      9 + 65487 + ssAbytes ≤ ssFrameMaxBody plainEnv (plainGranted.ends .client) ∧
      (plainGranted.ends .client).outOff = 0 ∧
      (plainGranted.ends .client).outBuf.length + 2 * (4 + (9 + 65487 + ssAbytes)) ≤
        outBufSize ∧
      ((plainGranted.ends .client).channels slot2).localId = 2 ∧
      ((plainGranted.ends .client).channels slot2).peerId = 2 ∧
      (plainGranted.ends .client).outBuf = [] ∧
      channelNameAllowed (plainGranted.ends .client) (ascii "exec") = true ∧
      (plainGranted.ends .client).activeChannels < (plainGranted.ends .client).maxChannels ∧
      (List.finRange maxChannelSlots).find? (fun j =>
        ((plainGranted.ends .client).channels j).state = .unused) = some slot0 ∧
      (plainGranted.ends .client).channels slot0 = .zero ∧
      (plainGranted.ends .client).nextLocalChannelId + UInt32.ofNat 4294967294 = 1 := by
    decide +kernel
  obtain ⟨h1, h2, h3, h4, h5, h6, h7, h8, h9, h10, h11, h12, h13, hfacts⟩ := hfacts
  exact ⟨⟨h1, h2, h3, h4, h5, h6, h7, h8, h9, h10, h11, h12, h13⟩, hfacts⟩

def plainGrantedClient : Ctx Unit Unit :=
  (plainStray.foldl (Net.step plainEnv) plainNet).ends .client

theorem plainGranted_client : plainGranted.ends .client = plainGrantedClient := by
  unfold plainGranted plainGrantedClient
  rfl

/-- The client after its sends and the opens that came to nothing. -/
def plainFlooded (ch : Channel) (out : Bytes) (off : ℕ) (hist : List Occ) (allocs : ℕ) :
    Ctx Unit Unit :=
  { plainGrantedClient with
    channels := Function.update plainGrantedClient.channels slot2 ch
    nextLocalChannelId := 1, outBuf := out, outOff := off, hist := hist, allocs := allocs }

set_option maxRecDepth 10000 in
/-- The new channel has the id that the credit is for. -/
theorem plainFlooded_takes {ch : Channel} {out : Bytes} {off : ℕ} {hist : List Occ} {allocs : ℕ}
    {c : Ctx Unit Unit} (hc : c = plainFlooded ch out off hist allocs) :
    let d := (feedInput plainEnv c
      (plainRecord plainStrayPdus.1 ++ plainRecord plainStrayPdus.2)).1
    d.channels slot1 = c.channels slot1 ∧
    ∃ f f' ct ct' ev, d.hist = hist ++ [.frame f] ++ [.pulled ct plainStrayPdus.1 tagMessage] ++
      [.queued ev] ++ [.frame f'] ++ [.pulled ct' plainStrayPdus.2 tagMessage] := by
  subst hc
  exact ⟨rfl, _, _, _, _, _, rfl⟩

/-- Both PDUs were taken, and nothing was sent. -/
theorem plainStray_took {hist : List Occ} (hc : c.hist = hist)
    (hd : ∃ f f' ct ct' ev, d.hist = hist ++ [.frame f] ++
      [.pulled ct plainStrayPdus.1 tagMessage] ++ [.queued ev] ++ [.frame f'] ++
      [.pulled ct' plainStrayPdus.2 tagMessage]) :
    d.sentPdus = c.sentPdus ∧ d.tookPdus.length = c.tookPdus.length + 2 := by
  obtain ⟨f, f', ct, ct', ev, hd⟩ := hd
  have hpdus : (Pdu.ofChannel plainStrayPdus.1).isSome ∧
      (Pdu.ofChannel plainStrayPdus.2).isSome := by decide +kernel
  obtain ⟨p, hp⟩ := Option.isSome_iff_exists.mp hpdus.1
  obtain ⟨q, hq⟩ := Option.isSome_iff_exists.mp hpdus.2
  constructor
  · simp [Ctx.sentPdus, Ctx.sent, hc, hd, Occ.sent?]
  · simp [Ctx.tookPdus, Ctx.received, Ctx.records, hc, hd, Occ.pulled?, List.filterMap_cons, hp, hq]

/-- The client fills its output buffer, and opens channels in vain until the ids have come
around. -/
@[irreducible] def plainFlood : List Call :=
  List.replicate 2 (.channelSend 2 (.buf (List.replicate 65487 0)) true) ++
    List.replicate 4294967294 (.channelOpen (some (ascii "exec")))

@[irreducible] def plainWrapped : Net Unit Unit :=
  ((plainFlood.map (.host .client)).foldl (Net.step plainEnv) plainGranted).step plainEnv
    (.deliver .client 4096)

theorem plainWrapped_floods : ∃ d : Ctx Unit Unit,
    (∃ ch out off allocs, play plainEnv (plainGranted.ends .client) plainFlood =
      plainFlooded ch out off d.hist allocs) ∧
    d.tookPdus = (plainGranted.ends .client).tookPdus ∧
    d.sentPdus.filterMap (Pdu.msgTo 1) =
      (plainGranted.ends .client).sentPdus.filterMap (Pdu.msgTo 1) := by
  obtain ⟨hpours, hid, hpeer, hout, hok, hact, hfind, hzero, hnext⟩ := plainGranted_pours
  obtain ⟨d, hd, hplay⟩ := hpours.flood (p := List.replicate 65487 0) (m := 4294967294)
    List.length_replicate (by decide) (by decide) (by decide) hok hact hfind hzero
    (by rw [hout]; decide)
  rw [hid, hd.skipped, hnext] at hplay
  refine ⟨d, ⟨d.channels slot2, d.outBuf, d.outOff,
      (plainGranted.ends .client).allocs + 4294967294, ?_⟩, hd.took,
    hd.sent 1 (by rw [hpeer]; decide)⟩
  unfold plainFlood plainFlooded
  rw [← plainGranted_client]
  exact hplay
theorem run_plainWrapped : Net.Run plainEnv (fun _ _ => True) plainNet plainWrapped := by
  have hhonest : ∀ a ∈ plainStray ++ (plainFlood.map (.host .client) ++ [.deliver .client 4096]),
      a.honest := by
    intro a ha
    obtain ha | ha := List.mem_append.mp ha
    · exact (show ∀ a ∈ plainStray, a.honest by decide) a ha
    · obtain ha | ha := List.mem_append.mp ha
      · obtain ⟨k, hk, rfl⟩ := List.mem_map.mp ha
        unfold plainFlood at hk
        obtain hk | hk := List.mem_append.mp hk <;> rw [List.eq_of_mem_replicate hk] <;> rfl
      · rw [List.mem_singleton.mp ha]
        rfl
  have hrun := Net.run_acts (E := plainEnv) hhonest plainNet
  rw [List.foldl_append, List.foldl_append, List.foldl_cons, List.foldl_nil] at hrun
  unfold plainWrapped plainGranted
  exact hrun
/-- The endpoints in the end. -/
theorem plainWrapped_ends : ∃ d : Ctx Unit Unit,
    plainWrapped.ends .server = plainGranted.ends .server ∧
    (plainWrapped.ends .client).channels slot1 = (plainGranted.ends .client).channels slot1 ∧
    (plainWrapped.ends .client).sentPdus = d.sentPdus ∧
    (plainWrapped.ends .client).tookPdus.length = d.tookPdus.length + 2 ∧
    d.tookPdus = (plainGranted.ends .client).tookPdus ∧
    d.sentPdus.filterMap (Pdu.msgTo 1) =
      (plainGranted.ends .client).sentPdus.filterMap (Pdu.msgTo 1) := by
  obtain ⟨d, ⟨ch, out, off, allocs, hplay⟩, htook, hsent⟩ := plainWrapped_floods
  obtain ⟨hends, hkept⟩ := Net.foldl_host (E := plainEnv) (r := .client) plainFlood plainGranted
  rw [hplay] at hends
  obtain ⟨-, -, -, -, -, -, -, -, -, -, -, hwire⟩ := plainGranted_facts
  generalize hc : plainFlooded ch out off d.hist allocs = c at hends
  obtain ⟨hslot, hhist⟩ := plainFlooded_takes hc.symm
  obtain ⟨hs, ht⟩ := plainStray_took (c := d) rfl hhist
  have hall : plainWrapped.ends = Function.update (Function.update plainGranted.ends .client c)
      .client (feedInput plainEnv c
        (plainRecord plainStrayPdus.1 ++ plainRecord plainStrayPdus.2)).1 := by
    unfold plainWrapped
    rw [Net.step_deliver, hends, Function.update_self, hkept]
    rw [show Role.client.peer = .server from rfl, hwire]
  have hclient : plainWrapped.ends .client = (feedInput plainEnv c
      (plainRecord plainStrayPdus.1 ++ plainRecord plainStrayPdus.2)).1 := by
    rw [hall, Function.update_self]
  rw [← hclient] at hslot hs ht
  refine ⟨d, ?_, hslot.trans ?_, hs, ht, htook, hsent⟩
  · rw [hall, Function.update_of_ne (by decide), Function.update_of_ne (by decide)]
  · have hne : slot1 ≠ slot2 := by decide
    rw [← hc, plainFlooded]
    dsimp only
    rw [Function.update_of_ne hne, plainGranted_client]

/-- The credit went to the new channel. -/
theorem windows_unbalanced_plain : Net.Run plainEnv (fun _ _ => True) plainNet plainWrapped ∧
    ((plainWrapped.ends .client).channels slot1).state = .open_ ∧
    ((plainWrapped.ends .server).channels slot1).state = .open_ ∧
    ((plainWrapped.ends .server).channels slot1).localId =
      ((plainWrapped.ends .client).channels slot1).peerId ∧
    (plainWrapped.ends .server).initialWindow.toNat +
      credits ((plainWrapped.ends .server).saidOn
        ((plainWrapped.ends .server).channels slot1).localId) < 2 ^ 32 ∧
    ((plainWrapped.ends .server).channels slot1).recvWindow = 262151 ∧
    ((plainWrapped.ends .client).channels slot1).sendWindow = 262144 ∧
    plainWrapped.inFlight .client ((plainWrapped.ends .server).channels slot1).localId = [] ∧
    plainWrapped.inFlight .server ((plainWrapped.ends .client).channels slot1).localId = [] ∧
    ¬ plainWrapped.Balanced .client := by
  obtain ⟨hopen, hid, hpeer, hsend, hopen', hid', hrecv, hinit, hsaid, hnone, hlen, -⟩ :=
    plainGranted_facts
  obtain ⟨d, hserver, hslot, hs, ht, htook, hsent⟩ := plainWrapped_ends
  have hto : plainWrapped.inFlight .client 1 = [] := by
    refine List.filterMap_eq_nil_iff.mpr fun p hp => ?_
    rw [hs] at hp
    rw [hnone] at hsent
    exact List.filterMap_eq_nil_iff.mp hsent p (List.mem_of_mem_drop hp)
  have hback : plainWrapped.inFlight .server 1 = [] := by
    have hle : (plainWrapped.ends .server).sentPdus.length ≤
        (plainWrapped.ends .client).tookPdus.length := by
      rw [hserver, hlen, ht, htook]
    exact congrArg (List.filterMap _) (List.drop_eq_nil_of_le hle)
  have hrefuted : ¬ plainWrapped.Balanced .client := by
    intro hb
    have hc := hb.conserved (i := slot1) (j := slot1)
    simp only [Role.peer, hserver, hslot, hopen, hopen', hid, hid', hpeer, hrecv, hsend, hto,
      hback, hinit, hsaid] at hc
    revert hc
    decide
  simp only [hserver, hslot, hopen, hopen', hid, hid', hpeer, hrecv, hsend, hto, hback, hinit,
    hsaid]
  exact ⟨run_plainWrapped, trivial, trivial, trivial, by decide, trivial, trivial, trivial, trivial,
    hrefuted⟩
end Sodchan
