import Sodchan.Model.Basic

/-! # Wire format

Encoders and decoders of frames, the HELLO body, the signed transcripts and
the PDUs. An encoder returns the bytes it writes and takes the capacity of its
output buffer; a decoder gets the bytes it may read.
-/

namespace Sodchan.Wire

open ByteString

def putU16 (v : UInt16) : Bytes := be16 v
def putU32 (v : UInt32) : Bytes := be32 v

def rd (p : Bytes) (i : ℕ) : Except Rc UInt8 :=
  match p[i]? with
  | some b => .ok b
  | none => .error .fault

def rdBytes (p : Bytes) (i n : ℕ) : Except Rc Bytes :=
  if i + n ≤ p.length then .ok ((p.drop i).take n) else .error .fault

def rdArray (p : Bytes) (i n : ℕ) : Except Rc (BytesN n) :=
  if h : i + n ≤ p.length then .ok ⟨(p.drop i).take n, by simp; omega⟩ else .error .fault

def getU16 (p : Bytes) (i : ℕ) : Except Rc UInt16 := do
  return ofBe16 (← rd p i) (← rd p (i + 1))

def getU32 (p : Bytes) (i : ℕ) : Except Rc UInt32 := do
  return ofBe32 (← rd p i) (← rd p (i + 1)) (← rd p (i + 2)) (← rd p (i + 3))

/-- The text a decoder leaves in a buffer of `cap` chars: cut to leave room for the NUL. -/
def copyText (src : Bytes) (cap : ℕ) : Bytes :=
  src.take (if cap ≤ src.length then cap - 1 else src.length)

def frameEncodeMax (body : Bytes) (maxBody cap : ℕ) : Except Rc Bytes :=
  if body.length = 0 then .error .param
  else if maxBody < body.length then .error .protocol
  else if cap < 4 + body.length then .error .full
  else .ok (putU32 (UInt32.ofNat body.length) ++ body)

def frameEncode (body : Bytes) (cap : ℕ) : Except Rc Bytes :=
  frameEncodeMax body maxClearFrame cap

/-- Parse one frame; the result is the number of bytes consumed and the body. The sum `4 + l` is
exact unless `size_t` has 32 bits and `max_record_size` is from 2^32 - 21 to 2^32 - 18. -/
def frameParseMax (data : Bytes) (maxBody : ℕ) : Except Rc (ℕ × Bytes) := do
  if data.length < 4 then throw .full
  let l ← getU32 data 0
  if l.toNat = 0 ∨ maxBody < l.toNat then throw .protocol
  if data.length < 4 + l.toNat then throw .full
  let body ← rdBytes data 4 l.toNat
  return (4 + l.toNat, body)

def frameParse (data : Bytes) : Except Rc (ℕ × Bytes) :=
  frameParseMax data maxClearFrame

structure Hello where
  protoVersion : UInt16
  suiteId : UInt16
  role : UInt16
  flags : UInt32
  ephPk : Key
  idPk : Key
  idSig : Sig
  deriving DecidableEq

def helloEncode (h : Hello) (cap : ℕ) : Except Rc Bytes :=
  if cap < helloBodyLen then .error .full
  else
    .ok (putU16 magic ++ putU16 h.protoVersion ++ putU16 h.suiteId ++ putU16 h.role ++
      putU32 h.flags ++ h.ephPk.val ++ h.idPk.val ++ h.idSig.val)

def helloDecode (body : Bytes) : Except Rc Hello := do
  if body.length ≠ helloBodyLen then throw .protocol
  let m ← getU16 body 0
  if m ≠ magic then throw .protocol
  let version ← getU16 body 2
  let suite ← getU16 body 4
  let role ← getU16 body 6
  let flags ← getU32 body 8
  let ephPk ← rdArray body 12 32
  let idPk ← rdArray body 44 32
  let idSig ← rdArray body 76 64
  if version ≠ Sodchan.protoVersion ∨ suite ≠ suiteV1 then throw .protocol
  if role ≠ Role.server.code ∧ role ≠ Role.client.code then throw .protocol
  return ⟨version, suite, role, flags, ephPk, idPk, idSig⟩

def buildTHello (version suite : UInt16) (clientEphPk serverEphPk serverIdPk : Key) :
    BytesN tHelloLen :=
  ⟨domServerHello ++ putU16 version ++ putU16 suite ++ clientEphPk.val ++ serverEphPk.val ++
    serverIdPk.val, by simp [putU16, length_domServerHello, tHelloLen]⟩

def buildTAuth (tHello : BytesN tHelloLen) (clientIdPk : Key) (username deviceId : Bytes)
    (cap : ℕ) : Except Rc Bytes :=
  if userMax < username.length ∨ deviceIdMax < deviceId.length then .error .param
  else if cap < 22 + tHelloLen + 32 + 1 + username.length + 1 + deviceId.length then .error .full
  else
    .ok (domClientAuth ++ tHello.val ++ clientIdPk.val ++ [UInt8.ofNat username.length] ++
      username ++ [UInt8.ofNat deviceId.length] ++ deviceId)

def authDeviceEncode (clientIdPk : Key) (clientSig : Sig) (username deviceId : Bytes)
    (cap : ℕ) : Except Rc Bytes :=
  if userMax < username.length ∨ deviceIdMax < deviceId.length then .error .param
  else if cap < 1 + 32 + 64 + 1 + username.length + 1 + deviceId.length then .error .full
  else
    .ok ([pduAuthDevice] ++ clientIdPk.val ++ clientSig.val ++ [UInt8.ofNat username.length] ++
      username ++ [UInt8.ofNat deviceId.length] ++ deviceId)

structure AuthDevice where
  clientIdPk : Key
  clientSig : Sig
  /-- The username buffer, and the length on the wire. -/
  username : Bytes
  usernameLen : ℕ
  deviceId : Bytes
  deviceIdLen : ℕ

def authDeviceDecode (pdu : Bytes) (usernameCap deviceIdCap : ℕ) : Except Rc AuthDevice := do
  if pdu.length < 1 + 32 + 64 + 1 + 1 then throw .protocol
  if (← rd pdu 0) ≠ pduAuthDevice then throw .protocol
  let clientIdPk ← rdArray pdu 1 32
  let clientSig ← rdArray pdu 33 64
  let ulen := (← rd pdu 97).toNat
  if userMax < ulen ∨ pdu.length < 98 + ulen + 1 then throw .protocol
  let username ← rdBytes pdu 98 ulen
  let dlen := (← rd pdu (98 + ulen)).toNat
  if deviceIdMax < dlen ∨ pdu.length < 99 + ulen + dlen then throw .protocol
  if 99 + ulen + dlen ≠ pdu.length then throw .protocol
  let deviceId ← rdBytes pdu (99 + ulen) dlen
  return ⟨clientIdPk, clientSig, copyText username usernameCap, ulen,
    copyText deviceId deviceIdCap, dlen⟩

def authOkEncode (claims : Bytes) (cap : ℕ) : Except Rc Bytes :=
  if claimsMax < claims.length then .error .param
  else if cap < 1 + 2 + claims.length then .error .full
  else .ok ([pduAuthOk] ++ putU16 (UInt16.ofNat claims.length) ++ claims)

def authOkDecode (pdu : Bytes) : Except Rc Bytes := do
  if pdu.length < 3 then throw .protocol
  if (← rd pdu 0) ≠ pduAuthOk then throw .protocol
  let c := (← getU16 pdu 1).toNat
  if claimsMax < c ∨ pdu.length ≠ 3 + c then throw .protocol
  rdBytes pdu 3 c

def authFailEncode (cap : ℕ) : Except Rc Bytes :=
  if cap < 3 then .error .full else .ok [pduAuthFail, authFailUnspec, 0]

/-- Reason and message length. -/
def authFailDecode (pdu : Bytes) : Except Rc (UInt8 × UInt8) := do
  if pdu.length < 3 then throw .protocol
  if (← rd pdu 0) ≠ pduAuthFail then throw .protocol
  let reason ← rd pdu 1
  let msgLen ← rd pdu 2
  if pdu.length ≠ 3 + msgLen.toNat then throw .protocol
  return (reason, msgLen)

def channelOpenEncode (sender initWindow maxPacket : UInt32) (name : Bytes) (cap : ℕ) :
    Except Rc Bytes :=
  if channelNameMax < name.length then .error .param
  else if cap < 1 + 4 + 4 + 4 + 1 + name.length then .error .full
  else
    .ok ([pduChannelOpen] ++ putU32 sender ++ putU32 initWindow ++ putU32 maxPacket ++
      [UInt8.ofNat name.length] ++ name)

structure ChannelOpen where
  senderChannel : UInt32
  initWindow : UInt32
  maxPacket : UInt32
  name : Bytes
  nameLen : ℕ

def channelOpenDecode (pdu : Bytes) (nameCap : ℕ) : Except Rc ChannelOpen := do
  if pdu.length < 14 then throw .protocol
  if (← rd pdu 0) ≠ pduChannelOpen then throw .protocol
  let sender ← getU32 pdu 1
  let initWindow ← getU32 pdu 5
  let maxPacket ← getU32 pdu 9
  let nlen := (← rd pdu 13).toNat
  if channelNameMax < nlen ∨ pdu.length ≠ 14 + nlen then throw .protocol
  let name ← rdBytes pdu 14 nlen
  return ⟨sender, initWindow, maxPacket, copyText name nameCap, nlen⟩

def channelOpenConfirmEncode (sender recipient initWindow maxPacket : UInt32) (cap : ℕ) :
    Except Rc Bytes :=
  if cap < 17 then .error .full
  else
    .ok ([pduChannelOpenConfirm] ++ putU32 sender ++ putU32 recipient ++ putU32 initWindow ++
      putU32 maxPacket)

structure ChannelOpenConfirm where
  senderChannel : UInt32
  recipientChannel : UInt32
  initWindow : UInt32
  maxPacket : UInt32

def channelOpenConfirmDecode (pdu : Bytes) : Except Rc ChannelOpenConfirm := do
  if pdu.length ≠ 17 then throw .protocol
  if (← rd pdu 0) ≠ pduChannelOpenConfirm then throw .protocol
  let sender ← getU32 pdu 1
  let recipient ← getU32 pdu 5
  let initWindow ← getU32 pdu 9
  let maxPacket ← getU32 pdu 13
  return ⟨sender, recipient, initWindow, maxPacket⟩

/-- A PDU `type | word | word | u8 length | text`, as CHANNEL_OPEN_FAIL is laid out. -/
def channelOpenFailEncode (recipient reason : UInt32) (msg : Bytes) (cap : ℕ) :
    Except Rc Bytes :=
  if 255 < msg.length then .error .param
  else if cap < 1 + 4 + 4 + 1 + msg.length then .error .full
  else
    .ok ([pduChannelOpenFail] ++ putU32 recipient ++ putU32 reason ++
      [UInt8.ofNat msg.length] ++ msg)

/-- Recipient, reason, text buffer and text length. -/
def channelOpenFailDecode (pdu : Bytes) (msgCap : ℕ) :
    Except Rc (UInt32 × UInt32 × Bytes × ℕ) := do
  if pdu.length < 10 then throw .protocol
  if (← rd pdu 0) ≠ pduChannelOpenFail then throw .protocol
  let recipient ← getU32 pdu 1
  let reason ← getU32 pdu 5
  let mlen := (← rd pdu 9).toNat
  if pdu.length ≠ 10 + mlen then throw .protocol
  let msg ← rdBytes pdu 10 mlen
  return (recipient, reason, copyText msg msgCap, mlen)

def channelDataEncode (recipient : UInt32) (data : Bytes) (cap : ℕ) : Except Rc Bytes :=
  if 0xFFFFFFFF - 9 < data.length then .error .param
  else if cap < 1 + 4 + 4 + data.length then .error .full
  else .ok ([pduChannelData] ++ putU32 recipient ++ putU32 (UInt32.ofNat data.length) ++ data)

def channelDataDecode (pdu : Bytes) : Except Rc (UInt32 × Bytes) := do
  if pdu.length < 9 then throw .protocol
  if (← rd pdu 0) ≠ pduChannelData then throw .protocol
  let recipient ← getU32 pdu 1
  let dlen := (← getU32 pdu 5).toNat
  if pdu.length ≠ 9 + dlen then throw .protocol
  let data ← rdBytes pdu 9 dlen
  return (recipient, data)

/-- The PDUs that are a type byte and one word. -/
def wordEncode (type : UInt8) (w : UInt32) (cap : ℕ) : Except Rc Bytes :=
  if cap < 5 then .error .full else .ok ([type] ++ putU32 w)

def wordDecode (type : UInt8) (pdu : Bytes) : Except Rc UInt32 := do
  if pdu.length ≠ 5 then throw .protocol
  if (← rd pdu 0) ≠ type then throw .protocol
  getU32 pdu 1

def channelWindowEncode (recipient bytesToAdd : UInt32) (cap : ℕ) : Except Rc Bytes :=
  if cap < 9 then .error .full
  else .ok ([pduChannelWindow] ++ putU32 recipient ++ putU32 bytesToAdd)

def channelWindowDecode (pdu : Bytes) : Except Rc (UInt32 × UInt32) := do
  if pdu.length ≠ 9 then throw .protocol
  if (← rd pdu 0) ≠ pduChannelWindow then throw .protocol
  let recipient ← getU32 pdu 1
  let bytesToAdd ← getU32 pdu 5
  return (recipient, bytesToAdd)

def channelEofEncode := wordEncode pduChannelEof
def channelEofDecode := wordDecode pduChannelEof
def channelCloseEncode := wordEncode pduChannelClose
def channelCloseDecode := wordDecode pduChannelClose
def pingEncode := wordEncode pduPing
def pingDecode := wordDecode pduPing
def pongEncode := wordEncode pduPong
def pongDecode := wordDecode pduPong

def disconnectEncode (reason : UInt32) (msg : Bytes) (cap : ℕ) : Except Rc Bytes :=
  if 255 < msg.length then .error .param
  else if cap < 1 + 4 + 1 + msg.length then .error .full
  else .ok ([pduDisconnect] ++ putU32 reason ++ [UInt8.ofNat msg.length] ++ msg)

/-- Reason, text buffer and text length. -/
def disconnectDecode (pdu : Bytes) (msgCap : ℕ) : Except Rc (UInt32 × Bytes × ℕ) := do
  if pdu.length < 6 then throw .protocol
  if (← rd pdu 0) ≠ pduDisconnect then throw .protocol
  let reason ← getU32 pdu 1
  let mlen := (← rd pdu 5).toNat
  if pdu.length ≠ 6 + mlen then throw .protocol
  let msg ← rdBytes pdu 6 mlen
  return (reason, copyText msg msgCap, mlen)

def pduType (pdu : Bytes) : Except Rc UInt8 :=
  if pdu.length = 0 then .error .param else rd pdu 0

theorem pduType_eq {pdu : Bytes} (h : pdu ≠ []) : pduType pdu = .ok (pdu.headD 0) := by
  cases pdu with
  | nil => exact absurd rfl h
  | cons b l => rfl

end Sodchan.Wire
