import Sodchan.Model.Context

/-! # Multiplexed channels

`handle_mux_pdu`, with one function for each PDU type, and the channel calls
of the public interface.
-/

namespace Sodchan

open ByteString

variable {Rng SS : Type}

/-- Encode a reply and send it, discarding both results. -/
def sendReply (E : Env Rng SS) (c : Ctx Rng SS) (reply : Except Rc Bytes) : Ctx Rng SS :=
  match reply with
  | .error _ => (ssSendPdu E c []).1
  | .ok pdu => (ssSendPdu E c pdu).1

def muxChannelOpen (E : Env Rng SS) (c : Ctx Rng SS) (plain : Bytes) : Ctx Rng SS × Bool :=
  match Wire.channelOpenDecode plain (channelNameMax + 1) with
  | .error _ => (setError c .protocol "OPEN decode", false)
  | .ok p =>
    let name := cstr p.name
    if ¬ channelNameAllowed c name then
      (sendReply E c (Wire.channelOpenFailEncode p.senderChannel reasonAdminProhibited
        (ascii "not allowed") 64), true)
    else
      match chAlloc c with
      | none =>
        (sendReply E c (Wire.channelOpenFailEncode p.senderChannel reasonResourceShortage [] 64),
          true)
      | some (c, i) =>
        let ch : Channel := { c.channels i with
          state := .pending
          peerId := p.senderChannel
          havePeerId := true
          sendWindow := p.initWindow
          maxPacket := if p.maxPacket ≠ 0 then p.maxPacket else c.maxPacket
          recvWindow := c.initialWindow
          name := name }
        (emit (setCh c i ch)
          (.channelOpen ch.localId p.senderChannel name p.initWindow ch.maxPacket), true)

def muxChannelOpenConfirm (c : Ctx Rng SS) (plain : Bytes) : Ctx Rng SS × Bool :=
  match Wire.channelOpenConfirmDecode plain with
  | .error _ => (setError c .protocol "CONFIRM decode", false)
  | .ok p =>
    match chByLocal c p.recipientChannel with
    | none => (setError (c.log (.noChannel p.recipientChannel)) .protocol "CONFIRM unknown", false)
    | some i =>
      if (c.channels i).state ≠ .opening then (setError c .protocol "CONFIRM unknown", false)
      else
        let ch : Channel := { c.channels i with
          peerId := p.senderChannel
          havePeerId := true
          sendWindow := p.initWindow
          maxPacket := if p.maxPacket ≠ 0 then p.maxPacket else c.maxPacket
          state := .open_ }
        (emit (setCh c i ch)
          (.channelOpened ch.localId p.senderChannel ch.name p.initWindow ch.maxPacket), true)

def muxChannelOpenFail (c : Ctx Rng SS) (plain : Bytes) : Ctx Rng SS × Bool :=
  match Wire.channelOpenFailDecode plain 128 with
  | .error _ => (setError c .protocol "OPEN_FAIL decode", false)
  | .ok (recipient, _) =>
    match chByLocal c recipient with
    | none => (c, true)
    | some i =>
      if (c.channels i).state = .opening then
        let c := emit c (.channelOpenFail (c.channels i).localId (c.channels i).name)
        (chFree c i, true)
      else (c, true)

def muxChannelData (c : Ctx Rng SS) (plain : Bytes) : Ctx Rng SS × Bool :=
  match Wire.channelDataDecode plain with
  | .error _ => (setError c .protocol "DATA decode", false)
  | .ok (recipient, data) =>
    match chByLocal c recipient with
    | none => (setError (c.log (.noChannel recipient)) .protocol "DATA bad ch", false)
    | some i =>
      let ch := c.channels i
      if ch.state ≠ .open_ ∧ ch.state ≠ .pending then
        (setError c .protocol "DATA bad ch", false)
      else if ch.state ≠ .open_ then (setError c .protocol "DATA not open", false)
      else if ch.recvWindow.toNat < data.length then
        (setError c .protocol "DATA over window", false)
      else if dataMax < data.length then (setError c .protocol "DATA over max", false)
      else
        let ch := { ch with recvWindow := ch.recvWindow - UInt32.ofNat data.length }
        (emit (setCh c i ch) (.channelData ch.localId data), true)

def muxChannelWindow (c : Ctx Rng SS) (plain : Bytes) : Ctx Rng SS × Bool :=
  match Wire.channelWindowDecode plain with
  | .error _ => (setError c .protocol "WINDOW decode", false)
  | .ok (recipient, add) =>
    match chByLocal c recipient with
    | none => (c, true)
    | some i =>
      let ch := c.channels i
      if ch.state ≠ .open_ then (c, true)
      else
        let ch := { ch with sendWindow := ch.sendWindow + add }
        (emit (setCh c i ch) (.channelWindow ch.localId add ch.sendWindow), true)

def muxChannelEof (c : Ctx Rng SS) (plain : Bytes) : Ctx Rng SS × Bool :=
  match Wire.channelEofDecode plain with
  | .error _ => (setError c .protocol "EOF decode", false)
  | .ok recipient =>
    match chByLocal c recipient with
    | none => (c, true)
    | some i =>
      let ch := { c.channels i with remoteEof := true }
      (emit (setCh c i ch) (.channelEof ch.localId), true)

def muxChannelClose (c : Ctx Rng SS) (plain : Bytes) : Ctx Rng SS × Bool :=
  match Wire.channelCloseDecode plain with
  | .error _ => (setError c .protocol "CLOSE decode", false)
  | .ok recipient =>
    match chByLocal c recipient with
    | none => (c, true)
    | some i => (chFree (emit c (.channelClose (c.channels i).localId)) i, true)

def muxPing (E : Env Rng SS) (c : Ctx Rng SS) (plain : Bytes) : Ctx Rng SS × Bool :=
  match Wire.pingDecode plain with
  | .error _ => (setError c .protocol "PING decode", false)
  | .ok word =>
    let c := emit c .ping
    match Wire.pongEncode word 8 with
    | .error _ => (c, true)
    | .ok pong => ((ssSendPdu E c pong).1, true)

def muxDisconnect (c : Ctx Rng SS) (plain : Bytes) : Ctx Rng SS × Bool :=
  match Wire.disconnectDecode plain 128 with
  | .error _ => (setError c .protocol "DISCONNECT decode", false)
  | .ok (reason, msg, mlen) =>
    let c := emit c (.disconnected reason (if mlen ≠ 0 then cstr msg else []))
    ({ c with state := .closed }, true)

def handleMuxPdu (E : Env Rng SS) (c : Ctx Rng SS) (plain : Bytes) : Ctx Rng SS × Bool :=
  let ptype := plain.headD 0
  if ptype = pduChannelOpen then muxChannelOpen E c plain
  else if ptype = pduChannelOpenConfirm then muxChannelOpenConfirm c plain
  else if ptype = pduChannelOpenFail then muxChannelOpenFail c plain
  else if ptype = pduChannelData then muxChannelData c plain
  else if ptype = pduChannelWindow then muxChannelWindow c plain
  else if ptype = pduChannelEof then muxChannelEof c plain
  else if ptype = pduChannelClose then muxChannelClose c plain
  else if ptype = pduPing then muxPing E c plain
  else if ptype = pduPong then (c, true)
  else if ptype = pduDisconnect then muxDisconnect c plain
  else (setError c .protocol "unknown mux pdu", false)

/-- Returns the code and, when it is OK, the local id written to `local_id_out`. -/
def channelOpen (E : Env Rng SS) (c : Ctx Rng SS) (name : Option Bytes) :
    Ctx Rng SS × Rc × Option UInt32 :=
  match name with
  | none => (c, .param, none)
  | some name =>
    if name = [] then (c, .param, none)
    else if c.state ≠ .ready then (c, .state, none)
    else if channelNameMax < name.length then (c, .param, none)
    else if ¬ channelNameAllowed c name then (c, .rejected, none)
    else
      match chAlloc c with
      | none => (c, .full, none)
      | some (c, i) =>
        let ch : Channel := { c.channels i with
          state := .opening
          recvWindow := c.initialWindow
          maxPacket := c.maxPacket
          name := name }
        let c := setCh c i ch
        match Wire.channelOpenEncode ch.localId c.initialWindow c.maxPacket name 128 with
        | .error _ => (chFree c i, .protocol, none)
        | .ok pdu =>
          match ssSendPdu E c pdu with
          | (c, .ok) => (c, .ok, some ch.localId)
          | (c, _) => (chFree c i, .full, none)

def channelAccept (E : Env Rng SS) (c : Ctx Rng SS) (localId : UInt32) (accept : Bool) :
    Ctx Rng SS × Rc :=
  if c.state ≠ .ready then (c, .state)
  else
    match chByLocal c localId with
    | none => (c, .state)
    | some i =>
      let ch := c.channels i
      if ch.state ≠ .pending then (c, .state)
      else if ¬ ch.havePeerId then (c, .state)
      else if accept then
        match Wire.channelOpenConfirmEncode ch.localId ch.peerId c.initialWindow c.maxPacket 64
          with
        | .error _ => (c, .protocol)
        | .ok pdu =>
          match ssSendPdu E c pdu with
          | (c, .ok) =>
            let ch := { ch with state := .open_, recvWindow := c.initialWindow }
            (emit (setCh c i ch)
              (.channelOpened ch.localId ch.peerId ch.name c.initialWindow c.maxPacket), .ok)
          | (c, _) => (c, .full)
      else
        match Wire.channelOpenFailEncode ch.peerId reasonAdminProhibited [] 64 with
        | .error _ => (c, .protocol)
        | .ok pdu =>
          match ssSendPdu E c pdu with
          | (c, .ok) => (chFree c i, .ok)
          | (c, _) => (c, .full)

def channelSend (E : Env Rng SS) (c : Ctx Rng SS) (localId : UInt32) (data : Arg)
    (memOk : Bool) : Ctx Rng SS × Rc :=
  if data.missing then (c, .param)
  else if c.state ≠ .ready then (c, .state)
  else
    match chByLocal c localId with
    | none => (c, .notfound)
    | some i =>
      let ch := c.channels i
      if ch.state ≠ .open_ ∨ ¬ ch.havePeerId then (c, .notfound)
      else if ch.localEof then (c, .state)
      else if ch.maxPacket.toNat < data.len ∨ dataMax < data.len then (c, .param)
      else if ch.sendWindow.toNat < data.len then (c, .window)
      else if ¬ memOk then (c, .nomem)
      else
        match Wire.channelDataEncode ch.peerId data.data (9 + data.len) with
        | .error rc => (c, rc)
        | .ok pdu =>
          match ssSendPdu E c pdu with
          | (c, .ok) =>
            (setCh c i { ch with sendWindow := ch.sendWindow - UInt32.ofNat data.len }, .ok)
          | (c, rc) => (c, rc)

/-- `sodchan_channel_window_avail`. -/
def channelWindowAvail (c : Ctx Rng SS) (localId : UInt32) : UInt32 :=
  match (List.finRange maxChannelSlots).find? fun i =>
    (c.channels i).state = .open_ ∧ (c.channels i).localId = localId with
  | none => 0
  | some i => (c.channels i).sendWindow

def channelEof (E : Env Rng SS) (c : Ctx Rng SS) (localId : UInt32) : Ctx Rng SS × Rc :=
  if c.state ≠ .ready then (c, .state)
  else
    match chByLocal c localId with
    | none => (c, .notfound)
    | some i =>
      let ch := c.channels i
      if ch.state ≠ .open_ ∨ ¬ ch.havePeerId then (c, .notfound)
      else if ch.localEof then (c, .ok)
      else
        match Wire.channelEofEncode ch.peerId 8 with
        | .error _ => (c, .protocol)
        | .ok pdu =>
          match ssSendPdu E c pdu with
          | (c, .ok) => (setCh c i { ch with localEof := true }, .ok)
          | (c, _) => (c, .full)

/-- The CLOSE record, sent for an OPEN channel only; both results are discarded. -/
def sendClose (E : Env Rng SS) (c : Ctx Rng SS) (ch : Channel) : Ctx Rng SS :=
  if ch.havePeerId ∧ ch.state = .open_ then
    match Wire.channelCloseEncode ch.peerId 8 with
    | .error _ => c
    | .ok pdu => (ssSendPdu E c pdu).1
  else c

def channelClose (E : Env Rng SS) (c : Ctx Rng SS) (localId : UInt32) : Ctx Rng SS × Rc :=
  if c.state ≠ .ready ∧ c.state ≠ .draining then (c, .state)
  else
    match chByLocal c localId with
    | none => (c, .notfound)
    | some i =>
      let ch := c.channels i
      if ch.state = .unused then (c, .notfound)
      else (chFree (sendClose E c ch) i, .ok)

def channelWindowAdjust (E : Env Rng SS) (c : Ctx Rng SS) (localId credit : UInt32) :
    Ctx Rng SS × Rc :=
  if credit = 0 then (c, .param)
  else if c.state ≠ .ready then (c, .state)
  else
    match chByLocal c localId with
    | none => (c, .notfound)
    | some i =>
      let ch := c.channels i
      if ch.state ≠ .open_ ∨ ¬ ch.havePeerId then (c, .notfound)
      else
        match Wire.channelWindowEncode ch.peerId credit 16 with
        | .error _ => (c, .protocol)
        | .ok pdu =>
          match ssSendPdu E c pdu with
          | (c, .ok) => (setCh c i { ch with recvWindow := ch.recvWindow + credit }, .ok)
          | (c, _) => (c, .full)

end Sodchan
