import Sodchan.Model.Frames

/-! # Encoding and decoding

Every encoder stays within the capacity it is given, and a decoder returns the
fields that were encoded. `Pdu` is the meaning of a plaintext for the channel
layer: the PDU it decodes to, if it names a channel.
-/

namespace Sodchan

open ByteString

namespace Wire

theorem wordEncode_length {type : UInt8} {w : UInt32} {cap : ℕ} {b : Bytes}
    (h : wordEncode type w cap = .ok b) : b.length ≤ cap := by
  unfold wordEncode at h
  split at h
  · cases h
  · obtain rfl := Except.ok.inj h
    simp [putU32]
    omega

theorem channelOpenEncode_length {s w m : UInt32} {name : Bytes} {cap : ℕ} {b : Bytes}
    (h : channelOpenEncode s w m name cap = .ok b) : b.length ≤ cap := by
  unfold channelOpenEncode at h
  split_ifs at h
  obtain rfl := Except.ok.inj h
  simp [putU32]
  omega

theorem channelOpenConfirmEncode_length {s r w m : UInt32} {cap : ℕ} {b : Bytes}
    (h : channelOpenConfirmEncode s r w m cap = .ok b) : b.length ≤ cap := by
  unfold channelOpenConfirmEncode at h
  split_ifs at h
  obtain rfl := Except.ok.inj h
  simp [putU32]
  omega

theorem channelOpenFailEncode_length {r reason : UInt32} {msg : Bytes} {cap : ℕ} {b : Bytes}
    (h : channelOpenFailEncode r reason msg cap = .ok b) : b.length ≤ cap := by
  unfold channelOpenFailEncode at h
  split_ifs at h
  obtain rfl := Except.ok.inj h
  simp [putU32]
  omega

theorem channelDataEncode_length {r : UInt32} {data : Bytes} {cap : ℕ} {b : Bytes}
    (h : channelDataEncode r data cap = .ok b) : b.length ≤ cap := by
  unfold channelDataEncode at h
  split_ifs at h
  obtain rfl := Except.ok.inj h
  simp [putU32]
  omega

theorem channelWindowEncode_length {r add : UInt32} {cap : ℕ} {b : Bytes}
    (h : channelWindowEncode r add cap = .ok b) : b.length ≤ cap := by
  unfold channelWindowEncode at h
  split_ifs at h
  obtain rfl := Except.ok.inj h
  simp [putU32]
  omega

theorem disconnectEncode_length {reason : UInt32} {msg : Bytes} {cap : ℕ} {b : Bytes}
    (h : disconnectEncode reason msg cap = .ok b) : b.length ≤ cap := by
  unfold disconnectEncode at h
  split_ifs at h
  obtain rfl := Except.ok.inj h
  simp [putU32]
  omega

theorem authDeviceEncode_length {pk : Key} {sig : Sig} {user dev : Bytes} {cap : ℕ} {b : Bytes}
    (h : authDeviceEncode pk sig user dev cap = .ok b) : b.length ≤ cap := by
  unfold authDeviceEncode at h
  split_ifs at h
  obtain rfl := Except.ok.inj h
  simp
  omega

theorem authOkEncode_length {claims : Bytes} {cap : ℕ} {b : Bytes}
    (h : authOkEncode claims cap = .ok b) : b.length ≤ cap := by
  unfold authOkEncode at h
  split_ifs at h
  obtain rfl := Except.ok.inj h
  simp [putU16]
  omega

theorem authFailEncode_length {cap : ℕ} {b : Bytes} (h : authFailEncode cap = .ok b) :
    b.length ≤ cap := by
  unfold authFailEncode at h
  split_ifs at h
  obtain rfl := Except.ok.inj h
  simp
  omega

theorem copyText_of_lt {src : Bytes} {cap : ℕ} (h : src.length < cap) : copyText src cap = src := by
  unfold copyText
  rw [if_neg (by omega), List.take_length]

theorem wordDecode_encode {type : UInt8} {w : UInt32} {cap : ℕ} {b : Bytes}
    (h : wordEncode type w cap = .ok b) : wordDecode type b = .ok w := by
  unfold wordEncode at h
  split_ifs at h
  obtain rfl := Except.ok.inj h
  have h0 : rd ([type] ++ putU32 w) 0 = .ok type := rfl
  have h1 : getU32 ([type] ++ putU32 w) 1 = .ok w := congrArg Except.ok (ofBe32_be32 w)
  have hl : ([type] ++ putU32 w).length = 5 := rfl
  simp only [wordDecode, h0, h1, hl, bind, Except.bind, ne_eq, not_true_eq_false, if_false]

theorem channelOpenDecode_encode {s w m : UInt32} {name : Bytes} {cap : ℕ} {b : Bytes}
    (h : channelOpenEncode s w m name cap = .ok b) (nameCap : ℕ) :
    channelOpenDecode b nameCap = .ok ⟨s, w, m, copyText name nameCap, name.length⟩ := by
  unfold channelOpenEncode at h
  split_ifs at h with hmax
  have hlen : (UInt8.ofNat name.length).toNat = name.length := by
    simp [channelNameMax] at *
    omega
  generalize UInt8.ofNat name.length = n at h hlen
  have hb := Except.ok.inj h
  have h0 : rd b 0 = .ok pduChannelOpen := by rw [← hb]; rfl
  have h1 : getU32 b 1 = .ok s := by rw [← hb]; exact congrArg Except.ok (ofBe32_be32 s)
  have h5 : getU32 b 5 = .ok w := by rw [← hb]; exact congrArg Except.ok (ofBe32_be32 w)
  have h9 : getU32 b 9 = .ok m := by rw [← hb]; exact congrArg Except.ok (ofBe32_be32 m)
  have h13 : rd b 13 = .ok n := by rw [← hb]; rfl
  have hl : b.length = 14 + name.length := by simp +arith [← hb, putU32]
  have hr : rdBytes b 14 name.length = .ok name := by
    rw [← hb]
    simp +arith [rdBytes, putU32, be32]
  have hshort : ¬ 14 + name.length < 14 := by omega
  simp only [channelOpenDecode, h0, h1, h5, h9, h13, hlen, hl, hr, hmax, hshort, bind,
    Except.bind, ne_eq, not_true_eq_false, if_false, pure, Except.pure, or_self]

theorem channelOpenConfirmDecode_encode {s r w m : UInt32} {cap : ℕ} {b : Bytes}
    (h : channelOpenConfirmEncode s r w m cap = .ok b) :
    channelOpenConfirmDecode b = .ok ⟨s, r, w, m⟩ := by
  unfold channelOpenConfirmEncode at h
  split_ifs at h
  have hb := Except.ok.inj h
  have h0 : rd b 0 = .ok pduChannelOpenConfirm := by rw [← hb]; rfl
  have h1 : getU32 b 1 = .ok s := by rw [← hb]; exact congrArg Except.ok (ofBe32_be32 s)
  have h5 : getU32 b 5 = .ok r := by rw [← hb]; exact congrArg Except.ok (ofBe32_be32 r)
  have h9 : getU32 b 9 = .ok w := by rw [← hb]; exact congrArg Except.ok (ofBe32_be32 w)
  have h13 : getU32 b 13 = .ok m := by rw [← hb]; exact congrArg Except.ok (ofBe32_be32 m)
  have hl : b.length = 17 := by rw [← hb]; rfl
  simp only [channelOpenConfirmDecode, h0, h1, h5, h9, h13, hl, bind, Except.bind, ne_eq,
    not_true_eq_false, if_false, pure, Except.pure]

theorem channelOpenFailDecode_encode {r reason : UInt32} {msg : Bytes} {cap : ℕ} {b : Bytes}
    (h : channelOpenFailEncode r reason msg cap = .ok b) (msgCap : ℕ) :
    channelOpenFailDecode b msgCap = .ok (r, reason, copyText msg msgCap, msg.length) := by
  unfold channelOpenFailEncode at h
  split_ifs at h
  have hlen : (UInt8.ofNat msg.length).toNat = msg.length := by
    simp
    omega
  generalize UInt8.ofNat msg.length = n at h hlen
  have hb := Except.ok.inj h
  have h0 : rd b 0 = .ok pduChannelOpenFail := by rw [← hb]; rfl
  have h1 : getU32 b 1 = .ok r := by rw [← hb]; exact congrArg Except.ok (ofBe32_be32 r)
  have h5 : getU32 b 5 = .ok reason := by rw [← hb]; exact congrArg Except.ok (ofBe32_be32 reason)
  have h9 : rd b 9 = .ok n := by rw [← hb]; rfl
  have hl : b.length = 10 + msg.length := by simp +arith [← hb, putU32]
  have hr : rdBytes b 10 msg.length = .ok msg := by
    rw [← hb]
    simp +arith [rdBytes, putU32, be32]
  have hshort : ¬ 10 + msg.length < 10 := by omega
  simp only [channelOpenFailDecode, h0, h1, h5, h9, hlen, hl, hr, hshort, bind, Except.bind, ne_eq,
    not_true_eq_false, if_false, pure, Except.pure]

theorem channelDataDecode_encode {r : UInt32} {data : Bytes} {cap : ℕ} {b : Bytes}
    (h : channelDataEncode r data cap = .ok b) : channelDataDecode b = .ok (r, data) := by
  unfold channelDataEncode at h
  split_ifs at h
  have hlen : (UInt32.ofNat data.length).toNat = data.length := by
    simp
    omega
  generalize UInt32.ofNat data.length = n at h hlen
  have hb := Except.ok.inj h
  have h0 : rd b 0 = .ok pduChannelData := by rw [← hb]; rfl
  have h1 : getU32 b 1 = .ok r := by rw [← hb]; exact congrArg Except.ok (ofBe32_be32 r)
  have h5 : getU32 b 5 = .ok n := by rw [← hb]; exact congrArg Except.ok (ofBe32_be32 n)
  have hl : b.length = 9 + data.length := by simp +arith [← hb, putU32]
  have hr : rdBytes b 9 data.length = .ok data := by
    rw [← hb]
    simp +arith [rdBytes, putU32, be32]
  have hshort : ¬ 9 + data.length < 9 := by omega
  simp only [channelDataDecode, h0, h1, h5, hlen, hl, hr, hshort, bind, Except.bind, ne_eq,
    not_true_eq_false, if_false, pure, Except.pure]

theorem channelWindowDecode_encode {r add : UInt32} {cap : ℕ} {b : Bytes}
    (h : channelWindowEncode r add cap = .ok b) : channelWindowDecode b = .ok (r, add) := by
  unfold channelWindowEncode at h
  split_ifs at h
  have hb := Except.ok.inj h
  have h0 : rd b 0 = .ok pduChannelWindow := by rw [← hb]; rfl
  have h1 : getU32 b 1 = .ok r := by rw [← hb]; exact congrArg Except.ok (ofBe32_be32 r)
  have h5 : getU32 b 5 = .ok add := by rw [← hb]; exact congrArg Except.ok (ofBe32_be32 add)
  have hl : b.length = 9 := by rw [← hb]; rfl
  simp only [channelWindowDecode, h0, h1, h5, hl, bind, Except.bind, ne_eq, not_true_eq_false,
    if_false, pure, Except.pure]

/-- The 140 bytes of a HELLO. -/
def helloBody (h : Hello) : Bytes :=
  putU16 magic ++ putU16 h.protoVersion ++ putU16 h.suiteId ++ putU16 h.role ++ putU32 h.flags ++
    h.ephPk.val ++ h.idPk.val ++ h.idSig.val

theorem rdArray_append {n m : ℕ} (p q : Bytes) (a : BytesN n) (hm : p.length = m) :
    rdArray (p ++ (a.val ++ q)) m n = .ok a := by
  subst hm
  unfold rdArray
  rw [dif_pos (by simp)]
  congr 1
  apply Subtype.ext
  simp [a.2]

theorem helloDecode_body {h : Hello} (hv : h.protoVersion = Sodchan.protoVersion)
    (hs : h.suiteId = suiteV1) (hr : h.role = Role.server.code ∨ h.role = Role.client.code) :
    helloDecode (helloBody h) = .ok h := by
  obtain ⟨version, suite, role, flags, ephPk, idPk, idSig⟩ := h
  obtain rfl : version = Sodchan.protoVersion := hv
  obtain rfl : suite = suiteV1 := hs
  have hlen : (helloBody ⟨Sodchan.protoVersion, suiteV1, role, flags, ephPk, idPk, idSig⟩).length =
      helloBodyLen := by
    simp [helloBody, putU16, putU32, helloBodyLen]
  set pre := putU16 magic ++ putU16 Sodchan.protoVersion ++ putU16 suiteV1 ++ putU16 role ++
    putU32 flags with hpre
  have h1 : rdArray (pre ++ (ephPk.val ++ (idPk.val ++ idSig.val))) 12 32 = .ok ephPk :=
    rdArray_append _ _ _ rfl
  have h2 : rdArray (pre ++ (ephPk.val ++ (idPk.val ++ idSig.val))) 44 32 = .ok idPk := by
    rw [← List.append_assoc]
    exact rdArray_append _ _ _ (by simp [hpre, putU16, putU32])
  have h3 : rdArray (pre ++ (ephPk.val ++ (idPk.val ++ idSig.val))) 76 64 = .ok idSig := by
    rw [← List.append_assoc, ← List.append_assoc, ← List.append_nil idSig.val]
    exact rdArray_append _ _ _ (by simp [hpre, putU16, putU32])
  have hb : helloBody ⟨Sodchan.protoVersion, suiteV1, role, flags, ephPk, idPk, idSig⟩ =
      pre ++ (ephPk.val ++ (idPk.val ++ idSig.val)) := by
    simp [helloBody, hpre, List.append_assoc]
  have g0 : getU16 (pre ++ (ephPk.val ++ (idPk.val ++ idSig.val))) 0 = .ok magic := rfl
  have g2 : getU16 (pre ++ (ephPk.val ++ (idPk.val ++ idSig.val))) 2 =
    .ok Sodchan.protoVersion := rfl
  have g4 : getU16 (pre ++ (ephPk.val ++ (idPk.val ++ idSig.val))) 4 = .ok suiteV1 := rfl
  have g6 : getU16 (pre ++ (ephPk.val ++ (idPk.val ++ idSig.val))) 6 = .ok role :=
    congrArg Except.ok (ofBe16_be16 role)
  have g8 : getU32 (pre ++ (ephPk.val ++ (idPk.val ++ idSig.val))) 8 = .ok flags :=
    congrArg Except.ok (ofBe32_be32 flags)
  unfold helloDecode
  rw [hlen, hb]
  have hr' : ¬ (role ≠ Role.server.code ∧ role ≠ Role.client.code) := by
    rintro ⟨ha, hb⟩
    exact hr.elim ha hb
  simp only [bind, Except.bind, pure, Except.pure, g0, g2, g4, g6, g8, h1, h2, h3, ne_eq,
    not_true_eq_false, if_false, or_self, hr']

end Wire

/-- A plaintext as the channel layer reads it. -/
inductive Pdu where
  | channelOpen (sender initWindow maxPacket : UInt32) (name : Bytes)
  | channelOpenConfirm (sender recipient initWindow maxPacket : UInt32)
  | channelOpenFail (recipient : UInt32)
  | channelWindow (recipient bytesToAdd : UInt32)
  | channelData (recipient : UInt32) (data : Bytes)
  | channelEof (recipient : UInt32)
  | channelClose (recipient : UInt32)
  /-- A PDU of another kind, or none at all. -/
  | other
  deriving DecidableEq

namespace Pdu

def ofBytes (b : Bytes) : Pdu :=
  let ptype := b.headD 0
  if ptype = pduChannelOpen then
    match Wire.channelOpenDecode b (channelNameMax + 1) with
    | .ok p => .channelOpen p.senderChannel p.initWindow p.maxPacket (cstr p.name)
    | .error _ => .other
  else if ptype = pduChannelOpenConfirm then
    match Wire.channelOpenConfirmDecode b with
    | .ok p => .channelOpenConfirm p.senderChannel p.recipientChannel p.initWindow p.maxPacket
    | .error _ => .other
  else if ptype = pduChannelOpenFail then
    match Wire.channelOpenFailDecode b 128 with
    | .ok (recipient, _) => .channelOpenFail recipient
    | .error _ => .other
  else if ptype = pduChannelWindow then
    match Wire.channelWindowDecode b with
    | .ok (recipient, add) => .channelWindow recipient add
    | .error _ => .other
  else if ptype = pduChannelData then
    match Wire.channelDataDecode b with
    | .ok (recipient, data) => .channelData recipient data
    | .error _ => .other
  else if ptype = pduChannelEof then
    match Wire.channelEofDecode b with
    | .ok recipient => .channelEof recipient
    | .error _ => .other
  else if ptype = pduChannelClose then
    match Wire.channelCloseDecode b with
    | .ok recipient => .channelClose recipient
    | .error _ => .other
  else .other

/-- A name is read up to its first zero byte. -/
theorem ofBytes_channelOpen_cstr {s w m : UInt32} {name : Bytes} {cap : ℕ} {b : Bytes}
    (h : Wire.channelOpenEncode s w m name cap = .ok b) :
    ofBytes b = .channelOpen s w m (cstr name) := by
  have hd := Wire.channelOpenDecode_encode h (channelNameMax + 1)
  unfold Wire.channelOpenEncode at h
  split_ifs at h with hmax
  rw [Wire.copyText_of_lt (by omega)] at hd
  have hh : b.headD 0 = pduChannelOpen := by
    rw [← Except.ok.inj h]
    rfl
  unfold ofBytes
  rw [hh]
  simp [hd]

theorem ofBytes_channelOpenConfirm {s r w m : UInt32} {cap : ℕ} {b : Bytes}
    (h : Wire.channelOpenConfirmEncode s r w m cap = .ok b) :
    ofBytes b = .channelOpenConfirm s r w m := by
  have hd := Wire.channelOpenConfirmDecode_encode h
  unfold Wire.channelOpenConfirmEncode at h
  split_ifs at h
  have hh : b.headD 0 = pduChannelOpenConfirm := by
    rw [← Except.ok.inj h]
    rfl
  unfold ofBytes
  rw [hh]
  simp [hd, pduChannelOpenConfirm, pduChannelOpen]

theorem ofBytes_channelOpenFail {r reason : UInt32} {msg : Bytes} {cap : ℕ} {b : Bytes}
    (h : Wire.channelOpenFailEncode r reason msg cap = .ok b) :
    ofBytes b = .channelOpenFail r := by
  have hd := Wire.channelOpenFailDecode_encode h 128
  unfold Wire.channelOpenFailEncode at h
  split_ifs at h
  have hh : b.headD 0 = pduChannelOpenFail := by
    rw [← Except.ok.inj h]
    rfl
  unfold ofBytes
  rw [hh]
  simp [hd, pduChannelOpenConfirm, pduChannelOpen, pduChannelOpenFail]

theorem ofBytes_channelWindow {r add : UInt32} {cap : ℕ} {b : Bytes}
    (h : Wire.channelWindowEncode r add cap = .ok b) : ofBytes b = .channelWindow r add := by
  have hd := Wire.channelWindowDecode_encode h
  unfold Wire.channelWindowEncode at h
  split_ifs at h
  have hh : b.headD 0 = pduChannelWindow := by
    rw [← Except.ok.inj h]
    rfl
  unfold ofBytes
  rw [hh]
  simp [hd, pduChannelOpenConfirm, pduChannelOpen, pduChannelOpenFail,
    pduChannelWindow]

theorem ofBytes_channelData {r : UInt32} {data : Bytes} {cap : ℕ} {b : Bytes}
    (h : Wire.channelDataEncode r data cap = .ok b) : ofBytes b = .channelData r data := by
  have hd := Wire.channelDataDecode_encode h
  unfold Wire.channelDataEncode at h
  split_ifs at h
  have hh : b.headD 0 = pduChannelData := by
    rw [← Except.ok.inj h]
    rfl
  unfold ofBytes
  rw [hh]
  simp [hd, pduChannelOpenConfirm, pduChannelOpen, pduChannelOpenFail,
    pduChannelWindow, pduChannelData]

theorem ofBytes_channelEof {r : UInt32} {cap : ℕ} {b : Bytes}
    (h : Wire.channelEofEncode r cap = .ok b) : ofBytes b = .channelEof r := by
  have hd : Wire.channelEofDecode b = .ok r := Wire.wordDecode_encode h
  unfold Wire.channelEofEncode Wire.wordEncode at h
  split_ifs at h
  have hh : b.headD 0 = pduChannelEof := by
    rw [← Except.ok.inj h]
    rfl
  unfold ofBytes
  rw [hh]
  simp [hd, pduChannelOpenConfirm, pduChannelOpen, pduChannelOpenFail,
    pduChannelWindow, pduChannelData, pduChannelEof]

theorem ofBytes_channelClose {r : UInt32} {cap : ℕ} {b : Bytes}
    (h : Wire.channelCloseEncode r cap = .ok b) : ofBytes b = .channelClose r := by
  have hd : Wire.channelCloseDecode b = .ok r := Wire.wordDecode_encode h
  unfold Wire.channelCloseEncode Wire.wordEncode at h
  split_ifs at h
  have hh : b.headD 0 = pduChannelClose := by
    rw [← Except.ok.inj h]
    rfl
  unfold ofBytes
  rw [hh]
  simp [hd, pduChannelOpenConfirm, pduChannelOpen, pduChannelOpenFail,
    pduChannelWindow, pduChannelData, pduChannelEof, pduChannelClose]

end Pdu

end Sodchan
