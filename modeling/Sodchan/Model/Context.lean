import Mathlib.Logic.Function.Basic
import Mathlib.Data.Fintype.Basic
import Mathlib.Data.List.FinRange
import Sodchan.Lib.RingBuffer
import Sodchan.Model.Wire

/-! # The session context

The context of one endpoint with its configuration, its buffers, its channel
table and its event queue. The functions of libsodium that the code calls and
the width of `size_t` are parameters, collected in `Env`; libsodium's random
generator is part of the context.

`hist` and `allocs` are history variables: the functions below append to them
and never read them.
-/

namespace Sodchan

open ByteString

/-- What the code takes from outside: the largest `size_t` and libsodium. -/
structure Env (Rng SS : Type) where
  sizeMax : ℕ
  sodiumInit : Bool
  kxKeypair : Rng → Option (Key × Key) × Rng
  /-- Own public key, own secret key, peer public key to `(rx, tx)`. -/
  kxClientSessionKeys : Key → Key → Key → Option (Key × Key)
  kxServerSessionKeys : Key → Key → Key → Option (Key × Key)
  /-- BLAKE2b with a 32-byte digest, of everything that is fed to it. -/
  generichash : Bytes → Option Key
  signDetached : Bytes → SecKey → Option Sig
  signVerifyDetached : Sig → Bytes → Key → Bool
  sha256 : Key → Option Key
  /-- Base64 without padding. -/
  bin2base64 : Key → Bytes
  /-- The all-zero stream state of a fresh context. -/
  ssZero : SS
  ssInitPush : Rng → Key → Option (SS × SsHeader) × Rng
  ssPush : SS → Bytes → UInt8 → Option (SS × Bytes)
  ssInitPull : SsHeader → Key → Option SS
  ssPull : SS → Bytes → Option (SS × Bytes × UInt8)

inductive Event where
  | none
  | helloReceived (peerIdPk : Key)
  | kxComplete
  | authDevice (peerIdPk : Key) (username deviceId fingerprintSha256 : Bytes) (sigOk : Bool)
  | authenticated
  | authFailed (code : AuthReason) (message : String)
  | channelOpen (channelId peerChannelId : UInt32) (name : Bytes) (initWindow maxPacket : UInt32)
  | channelOpened (channelId peerChannelId : UInt32) (name : Bytes)
      (initWindow maxPacket : UInt32)
  | channelOpenFail (channelId : UInt32) (name : Bytes)
  | channelData (channelId : UInt32) (data : Bytes)
  | channelWindow (channelId bytesAdded windowAvail : UInt32)
  | channelEof (channelId : UInt32)
  | channelClose (channelId : UInt32)
  | ping
  | disconnected (code : UInt32) (message : Bytes)
  | error (code : Rc) (message : String)
  deriving DecidableEq

/-- A pointer argument with its length: NULL, or a buffer of that many bytes. -/
inductive Arg where
  | null (len : ℕ)
  | buf (b : Bytes)
  deriving DecidableEq

def Arg.len : Arg → ℕ
  | .null n => n
  | .buf b => b.length

def Arg.data : Arg → Bytes
  | .null _ => []
  | .buf b => b

/-- A NULL pointer with a positive length. -/
def Arg.missing : Arg → Bool
  | .null n => n ≠ 0
  | .buf _ => false

/-- The public calls that may change a context. -/
inductive Call where
  | feedInput (data : Bytes)
  | getOutput (maxLen : ℕ)
  | nextEvent
  | authDecide (accept : Bool)
  | authDecideEx (accept : Bool) (claims : Arg)
  | channelOpen (name : Option Bytes)
  | channelAccept (localId : UInt32) (accept : Bool)
  /-- `memOk`: whether `malloc` succeeds. -/
  | channelSend (localId : UInt32) (data : Arg) (memOk : Bool)
  | channelEof (localId : UInt32)
  | channelClose (localId : UInt32)
  | channelWindowAdjust (localId credit : UInt32)
  | disconnect (reason : UInt32) (msg : Option Bytes)
  | reset
  deriving DecidableEq

/-- What the history of a session records. -/
inductive Occ where
  /-- Bytes appended to the output buffer. -/
  | appended (p : Bytes)
  /-- A plaintext PDU accepted by `ssSendPdu`. -/
  | sent (pdu : Bytes)
  /-- A complete input frame handed to its handler. -/
  | frame (raw : Bytes)
  /-- A record that passed decryption: ciphertext, plaintext, tag. -/
  | pulled (ct plain : Bytes) (tag : UInt8)
  | queued (ev : Event)
  /-- An event lost because the queue was full. -/
  | dropped (ev : Event)
  /-- An event handed to the host. -/
  | returned (ev : Event)
  /-- A server HELLO whose signature verified. -/
  | helloVerified (h : Wire.Hello)
  /-- An AUTH_DEVICE accepted: key, signature, username and device id as signed. -/
  | authDevice (pk : Key) (sig : Sig) (username deviceId : Bytes)
  | authBadSig
  /-- A decision that passed the guards of `authDecideEx`. -/
  | authDecided (accept : Bool)
  /-- A public call that returned OK. -/
  | did (k : Call)
  /-- The recipient of a PDU that ends the session because no channel has that id. -/
  | noChannel (localId : UInt32)
  deriving DecidableEq

structure Channel where
  state : ChState
  localId : UInt32
  peerId : UInt32
  havePeerId : Bool
  name : Bytes
  /-- Bytes we may still send to the peer. -/
  sendWindow : UInt32
  /-- Remaining credit of the peer toward us. -/
  recvWindow : UInt32
  maxPacket : UInt32
  localEof : Bool
  remoteEof : Bool
  deriving DecidableEq

def Channel.zero : Channel :=
  ⟨.unused, 0, 0, false, [], 0, 0, 0, false, false⟩

structure Config where
  eventQueueSize : ℕ := 0
  maxRecordSize : ℕ := 0
  maxChannelData : ℕ := 0
  maxChannels : ℕ := 0
  initialWindow : UInt32 := 0
  maxPacket : UInt32 := 0
  clientIdPk : Option Key := none
  clientIdSk : Option SecKey := none
  serverIdPk : Option Key := none
  serverIdSk : Option SecKey := none
  acceptAnyServerPk : Bool := false
  allowedChannels : Option CString := none
  clientUsername : Option CString := none
  clientDeviceId : Option CString := none
  labMode : Bool := false

structure Ctx (Rng SS : Type) where
  role : Role
  state : State
  hs : Hs
  error : Rc
  errorMsg : String
  eventQueueSize : ℕ
  maxRecordSize : ℕ
  maxChannelData : ℕ
  maxChannels : ℕ
  initialWindow : UInt32
  maxPacket : UInt32
  acceptAnyServerPk : Bool
  labMode : Bool
  clientIdPk : Key
  clientIdSk : SecKey
  serverIdPk : Key
  serverIdSk : SecKey
  haveClientIdPk : Bool
  haveClientIdSk : Bool
  haveServerIdPk : Bool
  haveServerIdSk : Bool
  ephPk : Key
  ephSk : Key
  peerEphPk : Key
  peerIdPk : Key
  havePeerEph : Bool
  havePeerId : Bool
  ssKeyC2s : Key
  ssKeyS2c : Key
  ssPush : SS
  ssPull : SS
  ssPushReady : Bool
  ssPullReady : Bool
  tHello : BytesN tHelloLen
  haveTHello : Bool
  authSent : Bool
  authAwaitingDecide : Bool
  authDecided : Bool
  authComplete : Bool
  channels : Fin maxChannelSlots → Channel
  nextLocalChannelId : UInt32
  activeChannels : ℕ
  cfgStoreUsed : ℕ
  allowedChannels : Option Bytes
  clientUsername : Option Bytes
  clientDeviceId : Option Bytes
  /-- `out_buf[0..out_len)`. -/
  outBuf : Bytes
  outOff : ℕ
  /-- `in_buf[0..in_len)`. -/
  inBuf : Bytes
  events : RingBuffer Event
  rng : Rng
  hist : List Occ
  allocs : ℕ

variable {Rng SS : Type}

/-- Append to the history. -/
def Ctx.log (c : Ctx Rng SS) (o : Occ) : Ctx Rng SS := { c with hist := c.hist ++ [o] }

/-- `sodchan_i_queue_event`. -/
def queueEvent (c : Ctx Rng SS) (ev : Event) : Ctx Rng SS × Rc :=
  match c.events.push ev with
  | none => (c.log (.dropped ev), .full)
  | some r => ({ c with events := r, hist := c.hist ++ [.queued ev] }, .ok)

/-- Queue an event and discard the result, as every call site does. -/
def emit (c : Ctx Rng SS) (ev : Event) : Ctx Rng SS := (queueEvent c ev).1

/-- `sodchan_i_set_error`. -/
def setError (c : Ctx Rng SS) (code : Rc) (msg : String) : Ctx Rng SS :=
  let code := if code = .ok then .protocol else code
  emit { c with error := code, state := .error, errorMsg := msg } (.error code msg)

/-- The bytes still to be fetched by the host: `out_buf[out_off..out_len)`. -/
def Ctx.pending (c : Ctx Rng SS) : Bytes := c.outBuf.drop c.outOff

def outCompact (c : Ctx Rng SS) : Ctx Rng SS :=
  if c.outOff = 0 then c
  else if c.outBuf.length ≤ c.outOff then { c with outBuf := [], outOff := 0 }
  else { c with outBuf := c.outBuf.drop c.outOff, outOff := 0 }

def outAppend (c : Ctx Rng SS) (p : Bytes) : Ctx Rng SS × Rc :=
  let c := outCompact c
  if outBufSize - c.outBuf.length < p.length then (c, .full)
  else ({ c with outBuf := c.outBuf ++ p, hist := c.hist ++ [.appended p] }, .ok)

def outAppendFrame (c : Ctx Rng SS) (body : Bytes) : Ctx Rng SS × Rc :=
  match Wire.frameEncode body (4 + maxClearFrame) with
  | .error rc => (c, rc)
  | .ok frame => outAppend c frame

/-- The largest ciphertext body on the wire, computed in `size_t`. -/
def ssFrameMaxBody (E : Env Rng SS) (c : Ctx Rng SS) : ℕ :=
  let m := (c.maxRecordSize + ssAbytes) % (E.sizeMax + 1)
  let m := if 0xFFFFFFFF < m then 0xFFFFFFFF else m
  if inBufSize < (m + 4) % (E.sizeMax + 1) then inBufSize - 4 else m

def ssSendPdu (E : Env Rng SS) (c : Ctx Rng SS) (plain : Bytes) : Ctx Rng SS × Rc :=
  if ¬ c.ssPushReady ∨ plain.length = 0 then (c, .state)
  else if c.maxRecordSize < plain.length then (c, .param)
  else
    let c := outCompact c
    let ctMax := plain.length + ssAbytes
    if outBufSize - c.outBuf.length < 4 + ctMax then (c, .full)
    else if ssFrameMaxBody E c < ctMax then (c, .protocol)
    else
      match E.ssPush c.ssPush plain tagMessage with
      | none => (c, .crypto)
      | some (st, ct) =>
        let frame := Wire.putU32 (UInt32.ofNat ct.length) ++ ct
        ({ c with
            ssPush := st
            outBuf := c.outBuf ++ frame
            hist := c.hist ++ [.sent plain, .appended frame] }, .ok)

def chByLocal (c : Ctx Rng SS) (localId : UInt32) : Option (Fin maxChannelSlots) :=
  (List.finRange maxChannelSlots).find? fun i =>
    (c.channels i).state ≠ .unused ∧ (c.channels i).localId = localId

def setCh (c : Ctx Rng SS) (i : Fin maxChannelSlots) (ch : Channel) : Ctx Rng SS :=
  { c with channels := Function.update c.channels i ch }

def chAlloc (c : Ctx Rng SS) : Option (Ctx Rng SS × Fin maxChannelSlots) :=
  if c.maxChannels ≤ c.activeChannels then none
  else
    match (List.finRange maxChannelSlots).find? fun i => (c.channels i).state = .unused with
    | none => none
    | some i =>
      some ({ setCh c i { Channel.zero with localId := c.nextLocalChannelId } with
        nextLocalChannelId := c.nextLocalChannelId + 1
        activeChannels := c.activeChannels + 1
        allocs := c.allocs + 1 }, i)

def chFree (c : Ctx Rng SS) (i : Fin maxChannelSlots) : Ctx Rng SS :=
  if (c.channels i).state = .unused then c
  else { setCh c i Channel.zero with activeChannels := c.activeChannels - 1 }

def comma : UInt8 := 44

/-- One pass of the segment loop from position `p` of the list. -/
def nameScan (name : Bytes) : ℕ → Bytes → Bool
  | 0, _ => false
  | n + 1, p =>
    if p = [] then false
    else
      let seg := p.takeWhile (· ≠ comma)
      if seg = name then true
      else
        match p.drop seg.length with
        | [] => false
        | _ :: rest => nameScan name n rest

/-- The C strings `name` and the effective allowlist are given without their NUL. -/
def channelNameAllowed (c : Ctx Rng SS) (name : Bytes) : Bool :=
  if name = [] then false
  else
    let list := c.allowedChannels.getD defaultAllowedChannels
    nameScan name (list.length + 1) list

end Sodchan
