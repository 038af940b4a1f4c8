import Sodchan.Model.Codec

/-! # The format as a whole

A message is what one of the encoders takes. Every decoder gives back the
message that was encoded, accepts nothing but encodings, and no byte string is
a PDU of two kinds.
-/

namespace Sodchan

open ByteString

namespace Wire

theorem bind_eq_ok {α β : Type} {x : Except Rc α} {f : α → Except Rc β} {r : β} :
    (x >>= f) = .ok r ↔ ∃ a, x = .ok a ∧ f a = .ok r := by
  cases x <;> simp [bind, Except.bind]

theorem check_eq_ok {γ β : Type} {p : Prop} [Decidable p] {rc : Rc} {f : γ → Except Rc β}
    {x : Except Rc β} {r : β} :
    (if p then throw rc >>= f else x) = .ok r ↔ ¬ p ∧ x = .ok r := by
  by_cases h : p <;> simp [h, throw, throwThe, MonadExceptOf.throw, bind, Except.bind]

theorem pure_eq_ok {β : Type} {x r : β} : (pure x : Except Rc β) = .ok r ↔ x = r := by
  simp [pure, Except.pure]

theorem map_eq_ok {α β : Type} {x : Except Rc α} {f : α → β} {r : β} :
    x.map f = .ok r ↔ ∃ a, x = .ok a ∧ f a = r := by
  cases x <;> simp [Except.map]

variable {p : Bytes} {i n : ℕ}

theorem rd_drop {x : UInt8} (h : rd p i = .ok x) : p.drop i = x :: p.drop (i + 1) := by
  unfold rd at h
  split at h
  · rename_i b hb
    obtain rfl := Except.ok.inj h
    obtain ⟨hi, rfl⟩ := List.getElem?_eq_some_iff.mp hb
    exact List.drop_eq_getElem_cons hi
  · cases h

theorem getU16_drop {v : UInt16} (h : getU16 p i = .ok v) :
    p.drop i = putU16 v ++ p.drop (i + 2) := by
  simp only [getU16, bind_eq_ok, pure_eq_ok] at h
  obtain ⟨a, ha, b, hb, rfl⟩ := h
  rw [rd_drop ha, rd_drop hb, putU16, be16_ofBe16]
  rfl

theorem getU32_drop {v : UInt32} (h : getU32 p i = .ok v) :
    p.drop i = putU32 v ++ p.drop (i + 4) := by
  simp only [getU32, bind_eq_ok, pure_eq_ok] at h
  obtain ⟨a, ha, b, hb, c, hc, d, hd, rfl⟩ := h
  rw [rd_drop ha, rd_drop hb, rd_drop hc, rd_drop hd, putU32, be32_ofBe32]
  rfl

theorem rdBytes_drop {t : Bytes} (h : rdBytes p i n = .ok t) :
    p.drop i = t ++ p.drop (i + n) ∧ t.length = n := by
  unfold rdBytes at h
  split at h
  · rename_i hin
    obtain rfl := Except.ok.inj h
    refine ⟨?_, by rw [List.length_take, List.length_drop]; omega⟩
    rw [← List.drop_drop, List.take_append_drop]
  · cases h

theorem rdArray_drop {a : BytesN n} (h : rdArray p i n = .ok a) :
    p.drop i = a.val ++ p.drop (i + n) := by
  unfold rdArray at h
  split at h
  · obtain rfl := Except.ok.inj h
    change p.drop i = (p.drop i).take n ++ p.drop (i + n)
    rw [← List.drop_drop, List.take_append_drop]
  · cases h

theorem rdBytes_tail {t : Bytes} (h : rdBytes p i n = .ok t) (hl : p.length = i + n) :
    p.drop i = t ∧ t.length = n := by
  obtain ⟨hd, ht⟩ := rdBytes_drop h
  refine ⟨hd.trans ?_, ht⟩
  rw [← hl, List.drop_length, List.append_nil]

theorem ofNat_toNat_length {t : Bytes} {x : UInt8} (h : t.length = x.toNat) :
    UInt8.ofNat t.length = x := by
  rw [h, UInt8.ofNat_toNat]

end Wire

inductive Kind where
  | hello | channelOpen | channelOpenConfirm | channelOpenFail | channelWindow | channelData
  | channelEof | channelClose | ping | pong | disconnect | authDevice | authOk | authFail
  deriving DecidableEq

inductive Message where
  | hello (h : Wire.Hello)
  | channelOpen (sender initWindow maxPacket : UInt32) (name : Bytes)
  | channelOpenConfirm (sender recipient initWindow maxPacket : UInt32)
  | channelOpenFail (recipient reason : UInt32) (msg : Bytes)
  | channelWindow (recipient bytesToAdd : UInt32)
  | channelData (recipient : UInt32) (data : Bytes)
  | channelEof (recipient : UInt32)
  | channelClose (recipient : UInt32)
  | ping (word : UInt32)
  | pong (word : UInt32)
  | disconnect (reason : UInt32) (msg : Bytes)
  | authDevice (clientIdPk : Key) (clientSig : Sig) (username deviceId : Bytes)
  | authOk (claims : Bytes)
  /-- The encoder of AUTH_FAIL takes nothing; its decoder returns reason and length. -/
  | authFail (reason msgLen : UInt8)
  deriving DecidableEq

namespace Message

def kind : Message → Kind
  | hello _ => .hello
  | channelOpen .. => .channelOpen
  | channelOpenConfirm .. => .channelOpenConfirm
  | channelOpenFail .. => .channelOpenFail
  | channelWindow .. => .channelWindow
  | channelData .. => .channelData
  | channelEof _ => .channelEof
  | channelClose _ => .channelClose
  | ping _ => .ping
  | pong _ => .pong
  | disconnect .. => .disconnect
  | authDevice .. => .authDevice
  | authOk _ => .authOk
  | authFail .. => .authFail

def encode (cap : ℕ) : Message → Except Rc Bytes
  | hello h => Wire.helloEncode h cap
  | channelOpen s w m name => Wire.channelOpenEncode s w m name cap
  | channelOpenConfirm s r w m => Wire.channelOpenConfirmEncode s r w m cap
  | channelOpenFail r reason msg => Wire.channelOpenFailEncode r reason msg cap
  | channelWindow r add => Wire.channelWindowEncode r add cap
  | channelData r data => Wire.channelDataEncode r data cap
  | channelEof r => Wire.channelEofEncode r cap
  | channelClose r => Wire.channelCloseEncode r cap
  | ping w => Wire.pingEncode w cap
  | pong w => Wire.pongEncode w cap
  | disconnect reason msg => Wire.disconnectEncode reason msg cap
  | authDevice pk sig user device => Wire.authDeviceEncode pk sig user device cap
  | authOk claims => Wire.authOkEncode claims cap
  | authFail .. => Wire.authFailEncode cap

/-- The HELLOs that a decoder may accept: version 1, suite 1, role 0 or 1. -/
def Admitted : Message → Prop
  | hello h => h.protoVersion = 1 ∧ h.suiteId = 1 ∧ (h.role = 0 ∨ h.role = 1)
  | _ => True

/-- The lengths of the texts that a decoder copies into buffers of the caller. -/
def textLengths : Message → ℕ × ℕ
  | channelOpen _ _ _ name => (name.length, 0)
  | channelOpenFail _ _ msg => (msg.length, 0)
  | disconnect _ msg => (msg.length, 0)
  | authDevice _ _ user device => (user.length, device.length)
  | _ => (0, 0)

end Message

/-- The text buffers of a decoder are larger than the texts. -/
def Kind.Roomy (lengths : ℕ × ℕ) (cap cap' : ℕ) : Kind → Prop
  | .channelOpen | .channelOpenFail | .disconnect => lengths.1 < cap
  | .authDevice => lengths.1 < cap ∧ lengths.2 < cap'
  | _ => True

/-- The decoder of a kind, with text buffers of the given sizes: the fields that it leaves in the
caller's variables, and the text lengths that it reports. -/
def decode (k : Kind) (cap cap' : ℕ) (b : Bytes) : Except Rc (Message × ℕ × ℕ) :=
  match k with
  | .hello => (Wire.helloDecode b).map fun h => (.hello h, 0, 0)
  | .channelOpen => (Wire.channelOpenDecode b cap).map fun p =>
      (.channelOpen p.senderChannel p.initWindow p.maxPacket p.name, p.nameLen, 0)
  | .channelOpenConfirm => (Wire.channelOpenConfirmDecode b).map fun p =>
      (.channelOpenConfirm p.senderChannel p.recipientChannel p.initWindow p.maxPacket, 0, 0)
  | .channelOpenFail => (Wire.channelOpenFailDecode b cap).map fun p =>
      (.channelOpenFail p.1 p.2.1 p.2.2.1, p.2.2.2, 0)
  | .channelWindow => (Wire.channelWindowDecode b).map fun p => (.channelWindow p.1 p.2, 0, 0)
  | .channelData => (Wire.channelDataDecode b).map fun p => (.channelData p.1 p.2, 0, 0)
  | .channelEof => (Wire.channelEofDecode b).map fun r => (.channelEof r, 0, 0)
  | .channelClose => (Wire.channelCloseDecode b).map fun r => (.channelClose r, 0, 0)
  | .ping => (Wire.pingDecode b).map fun w => (.ping w, 0, 0)
  | .pong => (Wire.pongDecode b).map fun w => (.pong w, 0, 0)
  | .disconnect => (Wire.disconnectDecode b cap).map fun p => (.disconnect p.1 p.2.1, p.2.2, 0)
  | .authDevice => (Wire.authDeviceDecode b cap cap').map fun d =>
      (.authDevice d.clientIdPk d.clientSig d.username d.deviceId, d.usernameLen, d.deviceIdLen)
  | .authOk => (Wire.authOkDecode b).map fun claims => (.authOk claims, 0, 0)
  | .authFail => (Wire.authFailDecode b).map fun p => (.authFail p.1 p.2, 0, 0)

/-! ### What is decoded of an encoding -/

namespace Wire

variable {cap tcap tcap' : ℕ} {b : Bytes}

theorem disconnectDecode_encode {reason : UInt32} {msg : Bytes}
    (h : disconnectEncode reason msg cap = .ok b) :
    disconnectDecode b tcap = .ok (reason, copyText msg tcap, msg.length) := by
  unfold disconnectEncode at h
  split_ifs at h
  have hlen : (UInt8.ofNat msg.length).toNat = msg.length := by
    simp
    omega
  generalize UInt8.ofNat msg.length = n at h hlen
  have hb := Except.ok.inj h
  have h0 : rd b 0 = .ok pduDisconnect := by rw [← hb]; rfl
  have h1 : getU32 b 1 = .ok reason := by rw [← hb]; exact congrArg Except.ok (ofBe32_be32 reason)
  have h5 : rd b 5 = .ok n := by rw [← hb]; rfl
  have hl : b.length = 6 + msg.length := by simp +arith [← hb, putU32]
  have hr : rdBytes b 6 msg.length = .ok msg := by
    rw [← hb]
    simp +arith [rdBytes, putU32, be32]
  have hshort : ¬ 6 + msg.length < 6 := by omega
  simp only [disconnectDecode, h0, h1, h5, hlen, hl, hr, hshort, bind, Except.bind, ne_eq,
    not_true_eq_false, if_false, pure, Except.pure]

theorem authOkDecode_encode {claims : Bytes} (h : authOkEncode claims cap = .ok b) :
    authOkDecode b = .ok claims := by
  unfold authOkEncode at h
  split_ifs at h with hmax
  have hlen : (UInt16.ofNat claims.length).toNat = claims.length := by
    simp [claimsMax] at *
    omega
  generalize UInt16.ofNat claims.length = n at h hlen
  have hb := Except.ok.inj h
  have h0 : rd b 0 = .ok pduAuthOk := by rw [← hb]; rfl
  have h1 : getU16 b 1 = .ok n := by rw [← hb]; exact congrArg Except.ok (ofBe16_be16 n)
  have hl : b.length = 3 + claims.length := by simp +arith [← hb, putU16]
  have hr : rdBytes b 3 claims.length = .ok claims := by
    rw [← hb]
    simp +arith [rdBytes, putU16, be16]
  have hshort : ¬ 3 + claims.length < 3 := by omega
  simp only [authOkDecode, h0, h1, hlen, hl, hr, hmax, hshort, bind, Except.bind, ne_eq,
    not_true_eq_false, if_false, or_self]

theorem rdBytes_append (p t q : Bytes) {n m : ℕ} (hn : p.length = n) (hm : t.length = m) :
    rdBytes (p ++ (t ++ q)) n m = .ok t := by
  subst hn hm
  simp [rdBytes]

theorem rd_append (p : Bytes) (x : UInt8) (q : Bytes) {n : ℕ} (hn : p.length = n) :
    rd (p ++ ([x] ++ q)) n = .ok x := by
  subst hn
  simp [rd]

theorem authDeviceDecode_encode {pk : Key} {sig : Sig} {user device : Bytes}
    (h : authDeviceEncode pk sig user device cap = .ok b) :
    authDeviceDecode b tcap tcap' = .ok
      ⟨pk, sig, copyText user tcap, user.length, copyText device tcap', device.length⟩ := by
  unfold authDeviceEncode at h
  split_ifs at h with hmax
  rw [not_or] at hmax
  have hu : (UInt8.ofNat user.length).toNat = user.length := by
    simp [userMax] at *
    omega
  have hd : (UInt8.ofNat device.length).toNat = device.length := by
    simp [deviceIdMax] at *
    omega
  generalize UInt8.ofNat user.length = n at h hu
  generalize UInt8.ofNat device.length = m at h hd
  have hb := (Except.ok.inj h).symm
  have hpk := pk.2
  have hsig := sig.2
  have h0 : rd b 0 = .ok pduAuthDevice := by
    rw [hb]
    rfl
  have h1 : rdArray b 1 32 = .ok pk := by
    rw [hb]
    simp only [List.append_assoc]
    exact rdArray_append _ _ _ rfl
  have h33 : rdArray b 33 64 = .ok sig := by
    rw [hb]
    simp only [List.append_assoc]
    rw [← List.append_assoc]
    exact rdArray_append _ _ _ (by simp [hpk])
  have h97 : rd b 97 = .ok n := by
    rw [hb]
    simp only [List.append_assoc]
    rw [← List.append_assoc, ← List.append_assoc]
    exact rd_append _ _ _ (by simp [hpk, hsig])
  have h98 : rdBytes b 98 user.length = .ok user := by
    rw [hb]
    simp only [List.append_assoc]
    rw [← List.append_assoc, ← List.append_assoc, ← List.append_assoc]
    exact rdBytes_append _ _ _ (by simp [hpk, hsig]) rfl
  have hm : rd b (98 + user.length) = .ok m := by
    rw [hb, List.append_assoc]
    exact rd_append _ _ _ (by simp +arith [hpk, hsig])
  have h99 : rdBytes b (99 + user.length) device.length = .ok device := by
    rw [hb]
    simpa using rdBytes_append
      ([pduAuthDevice] ++ pk.val ++ sig.val ++ [n] ++ user ++ [m]) device [] (by simp +arith) rfl
  have hl : b.length = 99 + user.length + device.length := by
    rw [hb]
    simp +arith [hpk, hsig]
  have hs1 : ¬ 99 + user.length + device.length < 1 + 32 + 64 + 1 + 1 := by omega
  have hs2 : ¬ 99 + user.length + device.length < 98 + user.length + 1 := by omega
  simp only [authDeviceDecode, h0, h1, h33, h97, h98, hm, h99, hu, hd, hl, hs1, hs2, hmax,
    bind, Except.bind, ne_eq, not_true_eq_false, if_false, or_self, lt_self_iff_false, pure,
    Except.pure]

end Wire

/-- A decoder returns the message that was encoded. -/
theorem decode_encode {x : Message} {cap tcap tcap' : ℕ} {b : Bytes} (hk : x.kind ≠ .authFail)
    (ha : x.Admitted) (ht : x.kind.Roomy x.textLengths tcap tcap') (h : x.encode cap = .ok b) :
    decode x.kind tcap tcap' b = .ok (x, x.textLengths) := by
  cases x with
  | hello h' =>
    obtain ⟨hv, hs, hr⟩ := ha
    have hb : b = Wire.helloBody h' := by
      simp only [Message.encode, Wire.helloEncode] at h
      split_ifs at h
      exact (Except.ok.inj h).symm
    simp only [Message.kind, decode, hb, Wire.helloDecode_body hv hs hr]
    rfl
  | channelOpen s w m name =>
    simp only [Message.kind, decode, Wire.channelOpenDecode_encode h, Wire.copyText_of_lt ht]
    rfl
  | channelOpenConfirm s r w m =>
    simp only [Message.kind, decode, Wire.channelOpenConfirmDecode_encode h]
    rfl
  | channelOpenFail r reason msg =>
    simp only [Message.kind, decode, Wire.channelOpenFailDecode_encode h, Wire.copyText_of_lt ht]
    rfl
  | channelWindow r add =>
    simp only [Message.kind, decode, Wire.channelWindowDecode_encode h]
    rfl
  | channelData r data =>
    simp only [Message.kind, decode, Wire.channelDataDecode_encode h]
    rfl
  | channelEof r =>
    simp only [Message.kind, decode, Wire.channelEofDecode, Wire.wordDecode_encode h]
    rfl
  | channelClose r =>
    simp only [Message.kind, decode, Wire.channelCloseDecode, Wire.wordDecode_encode h]
    rfl
  | ping w =>
    simp only [Message.kind, decode, Wire.pingDecode, Wire.wordDecode_encode h]
    rfl
  | pong w =>
    simp only [Message.kind, decode, Wire.pongDecode, Wire.wordDecode_encode h]
    rfl
  | disconnect reason msg =>
    simp only [Message.kind, decode, Wire.disconnectDecode_encode h, Wire.copyText_of_lt ht]
    rfl
  | authDevice pk sig user device =>
    simp only [Message.kind, decode, Wire.authDeviceDecode_encode h, Wire.copyText_of_lt ht.1,
      Wire.copyText_of_lt ht.2]
    rfl
  | authOk claims =>
    simp only [Message.kind, decode, Wire.authOkDecode_encode h]
    rfl
  | authFail => exact absurd rfl hk

namespace Wire

variable {cap tcap tcap' : ℕ} {b : Bytes}

/-! ### What is accepted is an encoding -/

theorem helloEncode_decode {h : Hello} (hd : helloDecode b = .ok h) (hc : b.length ≤ cap) :
    helloEncode h cap = .ok b := by
  unfold helloDecode at hd
  simp only [bind_eq_ok, check_eq_ok, pure_eq_ok, ne_eq, not_not, not_or] at hd
  obtain ⟨hl, m, hm, rfl, v, hv, s, hs, r, hr, f, hf, e, he, i, hi, sig, hsig, -, -, rfl⟩ := hd
  have hend : b.drop 140 = [] := List.drop_eq_nil_of_le hl.le
  unfold helloEncode
  rw [if_neg (by omega)]
  congr 1
  simp only [List.append_assoc]
  change _ = b.drop 0
  rw [getU16_drop hm, getU16_drop hv, getU16_drop hs, getU16_drop hr, getU32_drop hf,
    rdArray_drop he, rdArray_drop hi, rdArray_drop hsig, hend, List.append_nil]

theorem channelOpenEncode_decode {p : ChannelOpen} (h : channelOpenDecode b tcap = .ok p)
    (ht : p.nameLen < tcap) (hc : b.length ≤ cap) :
    channelOpenEncode p.senderChannel p.initWindow p.maxPacket p.name cap = .ok b := by
  unfold channelOpenDecode at h
  simp only [bind_eq_ok, check_eq_ok, pure_eq_ok, ne_eq, not_not, not_or] at h
  obtain ⟨-, x, hx, rfl, s, hs, w, hw, m, hm, n, hn, ⟨hmax, hl⟩, name, hname, rfl⟩ := h
  obtain ⟨hend, hlen⟩ := rdBytes_tail hname hl
  change n.toNat < tcap at ht
  simp only [copyText_of_lt (hlen.trans_lt ht)]
  unfold channelOpenEncode
  rw [if_neg (by omega), if_neg (by omega), ofNat_toNat_length hlen]
  congr 1
  simp only [List.append_assoc]
  change _ = b.drop 0
  rw [rd_drop hx, getU32_drop hs, getU32_drop hw, getU32_drop hm, rd_drop hn, hend]
  rfl

theorem channelOpenConfirmEncode_decode {p : ChannelOpenConfirm}
    (h : channelOpenConfirmDecode b = .ok p) (hc : b.length ≤ cap) :
    channelOpenConfirmEncode p.senderChannel p.recipientChannel p.initWindow p.maxPacket cap =
      .ok b := by
  unfold channelOpenConfirmDecode at h
  simp only [bind_eq_ok, check_eq_ok, pure_eq_ok, ne_eq, not_not] at h
  obtain ⟨hl, x, hx, rfl, s, hs, r, hr, w, hw, m, hm, rfl⟩ := h
  have hend : b.drop 17 = [] := List.drop_eq_nil_of_le hl.le
  unfold channelOpenConfirmEncode
  rw [if_neg (by omega)]
  congr 1
  simp only [List.append_assoc]
  change _ = b.drop 0
  rw [rd_drop hx, getU32_drop hs, getU32_drop hr, getU32_drop hw, getU32_drop hm, hend,
    List.append_nil]
  rfl

theorem channelOpenFailEncode_decode {r reason : UInt32} {msg : Bytes} {n : ℕ}
    (h : channelOpenFailDecode b tcap = .ok (r, reason, msg, n)) (ht : n < tcap)
    (hc : b.length ≤ cap) : channelOpenFailEncode r reason msg cap = .ok b := by
  unfold channelOpenFailDecode at h
  simp only [bind_eq_ok, check_eq_ok, pure_eq_ok, ne_eq, not_not, Prod.mk.injEq] at h
  obtain ⟨-, x, hx, rfl, r', hr, reason', hreason, n', hn, hl, t, htext, rfl, rfl, rfl, rfl⟩ := h
  obtain ⟨hend, hlen⟩ := rdBytes_tail htext hl
  have hmax := n'.toNat_lt
  rw [copyText_of_lt (hlen.trans_lt ht)]
  unfold channelOpenFailEncode
  rw [if_neg (by omega), if_neg (by omega), ofNat_toNat_length hlen]
  congr 1
  simp only [List.append_assoc]
  change _ = b.drop 0
  rw [rd_drop hx, getU32_drop hr, getU32_drop hreason, rd_drop hn, hend]
  rfl

theorem channelWindowEncode_decode {r add : UInt32} (h : channelWindowDecode b = .ok (r, add))
    (hc : b.length ≤ cap) : channelWindowEncode r add cap = .ok b := by
  unfold channelWindowDecode at h
  simp only [bind_eq_ok, check_eq_ok, pure_eq_ok, ne_eq, not_not, Prod.mk.injEq] at h
  obtain ⟨hl, x, hx, rfl, r', hr, add', hadd, rfl, rfl⟩ := h
  have hend : b.drop 9 = [] := List.drop_eq_nil_of_le hl.le
  unfold channelWindowEncode
  rw [if_neg (by omega)]
  congr 1
  simp only [List.append_assoc]
  change _ = b.drop 0
  rw [rd_drop hx, getU32_drop hr, getU32_drop hadd, hend, List.append_nil]
  rfl

theorem channelDataEncode_decode {r : UInt32} {data : Bytes}
    (h : channelDataDecode b = .ok (r, data)) (hb : b.length ≤ dataMax + 64)
    (hc : b.length ≤ cap) : channelDataEncode r data cap = .ok b := by
  unfold channelDataDecode at h
  simp only [bind_eq_ok, check_eq_ok, pure_eq_ok, ne_eq, not_not, Prod.mk.injEq] at h
  obtain ⟨-, x, hx, rfl, r', hr, n, hn, hl, t, ht, rfl, rfl⟩ := h
  obtain ⟨hend, hlen⟩ := rdBytes_tail ht hl
  have hword : UInt32.ofNat t.length = n := by rw [hlen, UInt32.ofNat_toNat]
  simp only [dataMax] at hb
  unfold channelDataEncode
  rw [if_neg (by omega), if_neg (by omega), hword]
  congr 1
  simp only [List.append_assoc]
  change _ = b.drop 0
  rw [rd_drop hx, getU32_drop hr, getU32_drop hn, hend]
  rfl

theorem wordEncode_decode {type : UInt8} {w : UInt32} (h : wordDecode type b = .ok w)
    (hc : b.length ≤ cap) : wordEncode type w cap = .ok b := by
  unfold wordDecode at h
  simp only [bind_eq_ok, check_eq_ok, ne_eq, not_not] at h
  obtain ⟨hl, x, hx, rfl, hw⟩ := h
  have hend : b.drop 5 = [] := List.drop_eq_nil_of_le hl.le
  unfold wordEncode
  rw [if_neg (by omega)]
  congr 1
  change _ = b.drop 0
  rw [rd_drop hx, getU32_drop hw, hend, List.append_nil]
  rfl

theorem disconnectEncode_decode {reason : UInt32} {msg : Bytes} {n : ℕ}
    (h : disconnectDecode b tcap = .ok (reason, msg, n)) (ht : n < tcap) (hc : b.length ≤ cap) :
    disconnectEncode reason msg cap = .ok b := by
  unfold disconnectDecode at h
  simp only [bind_eq_ok, check_eq_ok, pure_eq_ok, ne_eq, not_not, Prod.mk.injEq] at h
  obtain ⟨-, x, hx, rfl, reason', hreason, n', hn, hl, t, htext, rfl, rfl, rfl⟩ := h
  obtain ⟨hend, hlen⟩ := rdBytes_tail htext hl
  have hmax := n'.toNat_lt
  rw [copyText_of_lt (hlen.trans_lt ht)]
  unfold disconnectEncode
  rw [if_neg (by omega), if_neg (by omega), ofNat_toNat_length hlen]
  congr 1
  simp only [List.append_assoc]
  change _ = b.drop 0
  rw [rd_drop hx, getU32_drop hreason, rd_drop hn, hend]
  rfl

/-- The lengths in a decoded AUTH_DEVICE are those of its texts, when these fit their buffers. -/
theorem authDeviceDecode_lengths {d : AuthDevice} (h : authDeviceDecode b tcap tcap' = .ok d) :
    d.usernameLen ≤ userMax ∧ d.deviceIdLen ≤ deviceIdMax ∧
      b.length = 99 + d.usernameLen + d.deviceIdLen ∧
      (d.usernameLen < tcap → d.username.length = d.usernameLen) ∧
      (d.deviceIdLen < tcap' → d.deviceId.length = d.deviceIdLen) := by
  unfold authDeviceDecode at h
  simp only [bind_eq_ok, check_eq_ok, pure_eq_ok, ne_eq, not_not, not_or] at h
  obtain ⟨-, -, -, -, pk, -, sig, -, n, -, ⟨hnmax, -⟩, user, huser, m, -, ⟨hmmax, -⟩, hl,
    device, hdevice, rfl⟩ := h
  have hulen := (rdBytes_drop huser).2
  have hdlen := (rdBytes_tail hdevice hl.symm).2
  refine ⟨Nat.le_of_not_lt hnmax, Nat.le_of_not_lt hmmax, hl.symm, ?_, ?_⟩
  · intro ht
    change (copyText user tcap).length = n.toNat
    rw [copyText_of_lt (hulen.trans_lt ht), hulen]
  · intro ht
    change (copyText device tcap').length = m.toNat
    rw [copyText_of_lt (hdlen.trans_lt ht), hdlen]

theorem authDeviceEncode_decode {d : AuthDevice} (h : authDeviceDecode b tcap tcap' = .ok d)
    (ht : d.usernameLen < tcap) (ht' : d.deviceIdLen < tcap') (hc : b.length ≤ cap) :
    authDeviceEncode d.clientIdPk d.clientSig d.username d.deviceId cap = .ok b := by
  unfold authDeviceDecode at h
  simp only [bind_eq_ok, check_eq_ok, pure_eq_ok, ne_eq, not_not, not_or] at h
  obtain ⟨-, x, hx, rfl, pk, hpk, sig, hsig, n, hn, ⟨hnmax, -⟩, user, huser, m, hm, ⟨hmmax, -⟩, hl,
    device, hdevice, rfl⟩ := h
  obtain ⟨hrest, hulen⟩ := rdBytes_drop huser
  obtain ⟨hend, hdlen⟩ := rdBytes_tail hdevice hl.symm
  change n.toNat < tcap at ht
  change m.toNat < tcap' at ht'
  simp only [copyText_of_lt (hulen.trans_lt ht), copyText_of_lt (hdlen.trans_lt ht')]
  unfold authDeviceEncode
  rw [if_neg (by omega), if_neg (by omega), ofNat_toNat_length hulen, ofNat_toNat_length hdlen]
  have hskip : 98 + n.toNat + 1 = 99 + n.toNat := by omega
  congr 1
  simp only [List.append_assoc]
  change _ = b.drop 0
  rw [rd_drop hx, rdArray_drop hpk, rdArray_drop hsig, rd_drop hn, hrest, rd_drop hm, hskip, hend]
  rfl

theorem authOkEncode_decode {claims : Bytes} (h : authOkDecode b = .ok claims)
    (hc : b.length ≤ cap) : authOkEncode claims cap = .ok b := by
  unfold authOkDecode at h
  simp only [bind_eq_ok, check_eq_ok, ne_eq, not_not, not_or] at h
  obtain ⟨-, x, hx, rfl, n, hn, ⟨hmax, hl⟩, ht⟩ := h
  obtain ⟨hend, hlen⟩ := rdBytes_tail ht hl
  have hword : UInt16.ofNat claims.length = n := by rw [hlen, UInt16.ofNat_toNat]
  unfold authOkEncode
  rw [if_neg (by omega), if_neg (by omega), hword]
  congr 1
  simp only [List.append_assoc]
  change _ = b.drop 0
  rw [rd_drop hx, getU16_drop hn, hend]
  rfl

end Wire

/-- A decoder accepts nothing but encodings. -/
theorem encode_decode {k : Kind} {cap tcap tcap' : ℕ} {b : Bytes} {x : Message} {n : ℕ × ℕ}
    (h : decode k tcap tcap' b = .ok (x, n)) (hk : k ≠ .authFail) (ht : k.Roomy n tcap tcap')
    (hb : b.length ≤ dataMax + 64) (hc : b.length ≤ cap) : x.encode cap = .ok b := by
  cases k with
  | hello =>
    obtain ⟨y, hy, he⟩ := Wire.map_eq_ok.mp h
    cases he
    exact Wire.helloEncode_decode hy hc
  | channelOpen =>
    obtain ⟨y, hy, he⟩ := Wire.map_eq_ok.mp h
    cases he
    exact Wire.channelOpenEncode_decode hy ht hc
  | channelOpenConfirm =>
    obtain ⟨y, hy, he⟩ := Wire.map_eq_ok.mp h
    cases he
    exact Wire.channelOpenConfirmEncode_decode hy hc
  | channelOpenFail =>
    obtain ⟨y, hy, he⟩ := Wire.map_eq_ok.mp h
    cases he
    exact Wire.channelOpenFailEncode_decode hy ht hc
  | channelWindow =>
    obtain ⟨y, hy, he⟩ := Wire.map_eq_ok.mp h
    cases he
    exact Wire.channelWindowEncode_decode hy hc
  | channelData =>
    obtain ⟨y, hy, he⟩ := Wire.map_eq_ok.mp h
    cases he
    exact Wire.channelDataEncode_decode hy hb hc
  | channelEof | channelClose | ping | pong =>
    obtain ⟨y, hy, he⟩ := Wire.map_eq_ok.mp h
    cases he
    exact Wire.wordEncode_decode hy hc
  | disconnect =>
    obtain ⟨y, hy, he⟩ := Wire.map_eq_ok.mp h
    cases he
    exact Wire.disconnectEncode_decode hy ht hc
  | authDevice =>
    obtain ⟨y, hy, he⟩ := Wire.map_eq_ok.mp h
    cases he
    exact Wire.authDeviceEncode_decode hy ht.1 ht.2 hc
  | authOk =>
    obtain ⟨y, hy, he⟩ := Wire.map_eq_ok.mp h
    cases he
    exact Wire.authOkEncode_decode hy hc
  | authFail => exact absurd rfl hk

/-- The first byte of a PDU. A HELLO body has none. -/
def Kind.pduType : Kind → Option UInt8
  | .hello => none
  | .channelOpen => some pduChannelOpen
  | .channelOpenConfirm => some pduChannelOpenConfirm
  | .channelOpenFail => some pduChannelOpenFail
  | .channelWindow => some pduChannelWindow
  | .channelData => some pduChannelData
  | .channelEof => some pduChannelEof
  | .channelClose => some pduChannelClose
  | .ping => some pduPing
  | .pong => some pduPong
  | .disconnect => some pduDisconnect
  | .authDevice => some pduAuthDevice
  | .authOk => some pduAuthOk
  | .authFail => some pduAuthFail

theorem Kind.pduType_injective {k k' : Kind} (h : k.pduType = k'.pduType) : k = k' := by
  cases k <;> cases k' <;> first | rfl | exact absurd h (by decide)

theorem decode_type {k : Kind} {tcap tcap' : ℕ} {b : Bytes} {r : Message × ℕ × ℕ}
    (h : decode k tcap tcap' b = .ok r) (hk : k ≠ .hello) : b.head? = k.pduType := by
  have key {x : UInt8} (hx : Wire.rd b 0 = .ok x) : b.head? = some x := by
    have hd : b = x :: b.drop 1 := Wire.rd_drop hx
    rw [hd]
    rfl
  cases k
  case hello => exact absurd rfl hk
  all_goals
    obtain ⟨y, hy, -⟩ := Wire.map_eq_ok.mp h
    simp only [Wire.channelOpenDecode, Wire.channelOpenConfirmDecode, Wire.channelOpenFailDecode,
      Wire.channelWindowDecode, Wire.channelDataDecode, Wire.channelEofDecode,
      Wire.channelCloseDecode, Wire.pingDecode, Wire.pongDecode, Wire.wordDecode,
      Wire.disconnectDecode, Wire.authDeviceDecode, Wire.authOkDecode, Wire.authFailDecode,
      Wire.bind_eq_ok, Wire.check_eq_ok, ne_eq, not_not] at hy
    obtain ⟨-, x, hx, rfl, -⟩ := hy
    exact key hx

theorem encode_type {x : Message} {cap : ℕ} {b : Bytes} (h : x.encode cap = .ok b)
    (hk : x.kind ≠ .hello) : b.head? = x.kind.pduType := by
  cases x
  case hello => exact absurd rfl hk
  all_goals
    simp only [Message.encode, Wire.channelOpenEncode, Wire.channelOpenConfirmEncode,
      Wire.channelOpenFailEncode, Wire.channelWindowEncode, Wire.channelDataEncode,
      Wire.channelEofEncode, Wire.channelCloseEncode, Wire.pingEncode, Wire.pongEncode,
      Wire.wordEncode, Wire.disconnectEncode, Wire.authDeviceEncode, Wire.authOkEncode,
      Wire.authFailEncode] at h
    split_ifs at h
    rw [← Except.ok.inj h]
    rfl

theorem decode_kind {k k' : Kind} {cap cap' tcap tcap' : ℕ} {b : Bytes} {r r' : Message × ℕ × ℕ}
    (h : decode k cap cap' b = .ok r) (h' : decode k' tcap tcap' b = .ok r') (hk : k ≠ .hello)
    (hk' : k' ≠ .hello) : k = k' :=
  Kind.pduType_injective ((decode_type h hk).symm.trans (decode_type h' hk'))

/-- The codec is exact: what is encoded is decoded, what is accepted is an encoding, and the PDU
decoders accept disjoint sets of byte strings. -/
theorem codec_exact :
    (∀ (x : Message) (cap tcap tcap' : ℕ) (b : Bytes), x.kind ≠ .authFail → x.Admitted →
      x.kind.Roomy x.textLengths tcap tcap' → x.encode cap = .ok b →
      decode x.kind tcap tcap' b = .ok (x, x.textLengths)) ∧
    (∀ (k : Kind) (cap tcap tcap' : ℕ) (b : Bytes) (x : Message) (n : ℕ × ℕ), k ≠ .authFail →
      b.length ≤ dataMax + 64 → decode k tcap tcap' b = .ok (x, n) → k.Roomy n tcap tcap' →
      b.length ≤ cap → x.encode cap = .ok b) ∧
    (∀ (k k' : Kind) (cap cap' tcap tcap' : ℕ) (b : Bytes) (r r' : Message × ℕ × ℕ),
      k ≠ .hello → k' ≠ .hello → decode k cap cap' b = .ok r → decode k' tcap tcap' b = .ok r' →
      k = k') :=
  ⟨fun _ _ _ _ _ hk ha ht h => decode_encode hk ha ht h,
    fun _ _ _ _ _ _ _ hk hb h ht hc => encode_decode h hk ht hb hc,
    fun _ _ _ _ _ _ _ _ _ hk hk' h h' => decode_kind h h' hk hk'⟩

theorem codec_exact_ping :
    decode .ping 0 0 [8, 0, 0, 0, 7] = .ok (.ping 7, 0, 0) ∧
      (Message.ping 7).encode 5 = .ok [8, 0, 0, 0, 7] ∧
      ∀ k ≠ Kind.hello, ∀ r, decode k 64 64 [8, 0, 0, 0, 7] = .ok r → k = .ping := by
  have h : decode .ping 0 0 [8, 0, 0, 0, 7] = .ok (.ping 7, 0, 0) :=
    codec_exact.1 (.ping 7) 8 0 0 _ (by decide) trivial trivial rfl
  exact ⟨h, codec_exact.2.1 .ping 5 0 0 _ _ _ (by decide) (by decide) h trivial (by decide),
    fun k hk r hr => codec_exact.2.2 k .ping 64 64 0 0 _ _ _ hk (by decide) hr h⟩

end Sodchan
