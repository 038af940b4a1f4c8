import Sodchan.Lib.Loop
import Sodchan.Model.Mux
import Sodchan.Model.Session

/-! # The engine

Input processing, creation and reset, the remaining public calls, and the
runs of one endpoint under an arbitrary peer and an arbitrary host.
-/

namespace Sodchan

open ByteString

variable {Rng SS : Type}

/-- `handle_encrypted_pdu` once the record is decrypted. -/
def handlePlain (E : Env Rng SS) (c : Ctx Rng SS) (plain : Bytes) (tag : UInt8) :
    Ctx Rng SS × Bool :=
  if tag = tagFinal then
    ({ emit c (.disconnected 0 []) with state := .closed }, true)
  else if tag = tagRekey then (c, true)
  else if plain.length = 0 then (c, true)
  else
    match Wire.pduType plain with
    | .error _ => (setError c .protocol "empty pdu", false)
    | .ok ptype =>
      if c.state = .auth then
        if ptype = pduAuthDevice then handleAuthDevicePdu E c plain
        else if ptype = pduAuthOk then handleAuthOkPdu c plain
        else if ptype = pduAuthFail then handleAuthFailPdu c plain
        else (setError c .protocol "unexpected pdu in AUTH", false)
      else if c.state = .ready ∨ c.state = .draining then handleMuxPdu E c plain
      else (setError c .state "pdu in wrong state", false)

def handleEncryptedPdu (E : Env Rng SS) (c : Ctx Rng SS) (ct : Bytes) : Ctx Rng SS × Bool :=
  if ¬ c.ssPullReady then (setError c .state "ss pull not ready", false)
  else if ct.length < ssAbytes then (setError c .protocol "ss ciphertext size", false)
  else if plainBufSize < ct.length - ssAbytes ∨ c.maxRecordSize < ct.length - ssAbytes then
    (setError c .protocol "ss plaintext too large", false)
  else
    match E.ssPull c.ssPull ct with
    | none => (setError c .crypto "ss decrypt failed", false)
    | some (st, plain, tag) =>
      handlePlain E { c with ssPull := st, hist := c.hist ++ [.pulled ct plain tag] } plain tag

/-- The handler of one complete frame. -/
def handleFrame (E : Env Rng SS) (c : Ctx Rng SS) (body : Bytes) : Ctx Rng SS × Bool :=
  match c.hs with
  | .waitPeerHello => handlePeerHello E c body
  | .waitPeerSs => handlePeerSsHeader E c body
  | .done => handleEncryptedPdu E c body
  | .start => (setError c .state "bad hs state", false)

/-- The frame at the front of the input buffer, under the limit of the current phase. -/
def parseInput (E : Env Rng SS) (c : Ctx Rng SS) : Except Rc (ℕ × Bytes) :=
  if c.hs = .done then Wire.frameParseMax c.inBuf (ssFrameMaxBody E c)
  else Wire.frameParse c.inBuf

/-- One round of the loop of `process_input`. -/
def processOne (E : Env Rng SS) (c : Ctx Rng SS) : Outcome (Ctx Rng SS) :=
  if c.state = .error ∨ c.state = .closed then .stop c
  else if c.inBuf.length < 4 then .stop c
  else
    match parseInput E c with
    | .error .full => .stop c
    | .error _ => .stop (setError c .protocol "frame parse error")
    | .ok (consumed, body) =>
      match handleFrame E (c.log (.frame (c.inBuf.take consumed))) body with
      | (c, true) => .again { c with inBuf := c.inBuf.drop consumed }
      | (c, false) => .stop c

/-- `process_input`. Every round but the last consumes input, so the fuel suffices. -/
def processInput (E : Env Rng SS) (c : Ctx Rng SS) : Ctx Rng SS :=
  Loop.run (processOne E) (c.inBuf.length + 1) c

def cfgDefault (v d : ℕ) : ℕ := if v ≠ 0 then v else d

def cfgDefaultU32 (v d : UInt32) : UInt32 := if v ≠ 0 then v else d

/-- `cfg_dup`: how much of the string store is used, and the copy. -/
def cfgDup (used : ℕ) (s : Option CString) : ℕ × Option Bytes :=
  match s with
  | none => (used, none)
  | some s => if cfgStoreSize < used + (s.val.length + 1) then (used, none)
    else (used + (s.val.length + 1), some s.val)

/-- `copy_key` of a configured key, zero when it is missing. -/
def copyKey {n : ℕ} (src : Option (BytesN n)) : BytesN n := src.getD (BytesN.zero n)

/-- The zeroed context of `sodchan_create` after `apply_config_defaults`, with its event queue. -/
def applyConfigDefaults (E : Env Rng SS) (role : Role) (cfg : Config) (rng : Rng)
    (events : RingBuffer Event) : Ctx Rng SS :=
  let allowed := cfgDup 0 cfg.allowedChannels
  let username := cfgDup allowed.1 cfg.clientUsername
  let deviceId := cfgDup username.1 cfg.clientDeviceId
  { role := role
    state := .idle
    hs := .start
    error := .ok
    errorMsg := ""
    eventQueueSize := cfgDefault cfg.eventQueueSize defaultEventQueue
    maxRecordSize := cfgDefault cfg.maxRecordSize defaultMaxRecord
    maxChannelData := cfgDefault cfg.maxChannelData defaultMaxChannel
    maxChannels := min (cfgDefault cfg.maxChannels defaultMaxChannels) maxChannelSlots
    initialWindow := cfgDefaultU32 cfg.initialWindow defaultInitWindow
    maxPacket := cfgDefaultU32 cfg.maxPacket defaultMaxPacket
    acceptAnyServerPk := cfg.acceptAnyServerPk
    labMode := cfg.labMode
    clientIdPk := copyKey cfg.clientIdPk
    clientIdSk := copyKey cfg.clientIdSk
    serverIdPk := copyKey cfg.serverIdPk
    serverIdSk := copyKey cfg.serverIdSk
    haveClientIdPk := cfg.clientIdPk.isSome
    haveClientIdSk := cfg.clientIdSk.isSome
    haveServerIdPk := cfg.serverIdPk.isSome
    haveServerIdSk := cfg.serverIdSk.isSome
    ephPk := BytesN.zero 32
    ephSk := BytesN.zero 32
    peerEphPk := BytesN.zero 32
    peerIdPk := BytesN.zero 32
    havePeerEph := false
    havePeerId := false
    ssKeyC2s := BytesN.zero 32
    ssKeyS2c := BytesN.zero 32
    ssPush := E.ssZero
    ssPull := E.ssZero
    ssPushReady := false
    ssPullReady := false
    tHello := BytesN.zero tHelloLen
    haveTHello := false
    authSent := false
    authAwaitingDecide := false
    authDecided := false
    authComplete := false
    channels := fun _ => Channel.zero
    nextLocalChannelId := 0
    activeChannels := 0
    cfgStoreUsed := deviceId.1
    allowedChannels := allowed.2
    clientUsername := username.2
    clientDeviceId := deviceId.2
    outBuf := []
    outOff := 0
    inBuf := []
    events := events
    rng := rng
    hist := []
    allocs := 0 }

/-- The rest of `handshake_start`, with the key pair at hand: a client speaks first. -/
def handshakeHello (E : Env Rng SS) (c : Ctx Rng SS) : Ctx Rng SS × Rc :=
  match c.role with
  | .client =>
    match queueLocalHello E c with
    | (c, .ok) => ({ c with state := .hello, hs := .waitPeerHello }, .ok)
    | (c, _) => (c, .full)
  | .server => ({ c with state := .hello, hs := .waitPeerHello }, .ok)

def handshakeStart (E : Env Rng SS) (c : Ctx Rng SS) : Ctx Rng SS × Rc :=
  match E.kxKeypair c.rng with
  | (none, rng) => ({ c with rng := rng }, .crypto)
  | (some (pk, sk), rng) => handshakeHello E { c with rng := rng, ephPk := pk, ephSk := sk }

theorem cfgDefault_pos {v d : ℕ} (hd : 0 < d) : 0 < cfgDefault v d := by
  unfold cfgDefault
  split <;> omega

def newEvents (cfg : Config) : RingBuffer Event :=
  RingBuffer.empty .none (cfgDefault cfg.eventQueueSize defaultEventQueue)
    (cfgDefault_pos (by decide))

/-- `sodchan_create`; `memOk` tells whether both allocations succeed. -/
def create (E : Env Rng SS) (role : Role) (cfg : Option Config) (rng : Rng) (memOk : Bool) :
    Option (Ctx Rng SS) :=
  let cfg := cfg.getD {}
  if cfg.labMode then none
  else if role = .server ∧ (cfg.serverIdPk.isNone ∨ cfg.serverIdSk.isNone) then none
  else if role = .client ∧ ¬ cfg.acceptAnyServerPk ∧ cfg.serverIdPk.isNone then none
  else if ¬ E.sodiumInit then none
  else if ¬ memOk then none
  else
    match handshakeStart E (applyConfigDefaults E role cfg rng (newEvents cfg)) with
    | (c, .ok) => some c
    | (_, _) => none

/-- What `sodchan_reset` clears; the public state and the handshake state stay. -/
def wipe (c : Ctx Rng SS) : Ctx Rng SS :=
  { c with
    ephSk := BytesN.zero 32
    ssKeyC2s := BytesN.zero 32
    ssKeyS2c := BytesN.zero 32
    havePeerEph := false
    havePeerId := false
    haveTHello := false
    ssPushReady := false
    ssPullReady := false
    authSent := false
    authAwaitingDecide := false
    authDecided := false
    authComplete := false
    channels := fun _ => Channel.zero
    nextLocalChannelId := 0
    activeChannels := 0
    error := .ok
    errorMsg := ""
    events := RingBuffer.empty .none c.events.cap c.events.cap_pos
    outBuf := []
    outOff := 0
    inBuf := []
    hist := []
    allocs := 0 }

def reset (E : Env Rng SS) (c : Ctx Rng SS) : Ctx Rng SS := (handshakeStart E (wipe c)).1

/-- Returns the number of bytes taken. -/
def feedInput (E : Env Rng SS) (c : Ctx Rng SS) (data : Bytes) : Ctx Rng SS × ℕ :=
  if data.length = 0 then (c, 0)
  else if c.state = .error ∨ c.state = .closed then (c, 0)
  else
    let take := min data.length (inBufSize - c.inBuf.length)
    if take = 0 then (c, 0)
    else (processInput E { c with inBuf := c.inBuf ++ data.take take }, take)

/-- Returns the bytes written to the caller's buffer. -/
def getOutput (c : Ctx Rng SS) (maxLen : ℕ) : Ctx Rng SS × Bytes :=
  if maxLen = 0 then (c, [])
  else if c.outBuf.length ≤ c.outOff then (c, [])
  else
    let n := min (c.outBuf.length - c.outOff) maxLen
    let out := (c.outBuf.drop c.outOff).take n
    if c.outBuf.length ≤ c.outOff + n then ({ c with outBuf := [], outOff := 0 }, out)
    else ({ c with outOff := c.outOff + n }, out)

def nextEvent (c : Ctx Rng SS) : Ctx Rng SS × Option Event :=
  match c.events.pop with
  | none => (c, none)
  | some (ev, r) => ({ c with events := r, hist := c.hist ++ [.returned ev] }, some ev)

/-- The context once a decision has passed the guards. -/
def takeDecision (c : Ctx Rng SS) (accept : Bool) : Ctx Rng SS :=
  let c := c.log (.authDecided accept)
  { c with authAwaitingDecide := false, authDecided := true }

def authDecideEx (E : Env Rng SS) (c : Ctx Rng SS) (accept : Bool) (claims : Arg) :
    Ctx Rng SS × Rc :=
  if c.role ≠ .server then (c, .state)
  else if ¬ c.authAwaitingDecide ∨ c.authDecided then (c, .state)
  else if c.state ≠ .auth then (c, .state)
  else if claims.missing then (c, .param)
  else if claimsMax < claims.len then (c, .param)
  else if accept then
    match serverSendAuthOk E (takeDecision c accept) claims.data with
    | (c, .ok) => (emitAuthenticated { c with authComplete := true, state := .ready }, .ok)
    | (c, _) => (setError c .full "AUTH_OK send", .full)
  else
    match serverSendAuthFail E (takeDecision c accept) with
    | (c, .ok) =>
      (setError (emitAuthFailed c .policy "auth_decide reject") .rejected
        "authentication rejected", .ok)
    | (c, _) => (setError c .full "AUTH_FAIL send", .full)

def authDecide (E : Env Rng SS) (c : Ctx Rng SS) (accept : Bool) : Ctx Rng SS × Rc :=
  authDecideEx E c accept (.null 0)

/-- The DISCONNECT record, as far as it can be encoded and sent. -/
def sendDisconnect (E : Env Rng SS) (c : Ctx Rng SS) (reason : UInt32) (text : Bytes) :
    Ctx Rng SS :=
  match Wire.disconnectEncode reason text 128 with
  | .error _ => c
  | .ok pdu => (ssSendPdu E c pdu).1

def disconnect (E : Env Rng SS) (c : Ctx Rng SS) (reason : UInt32) (msg : Option Bytes) :
    Ctx Rng SS × Rc :=
  if c.state = .closed then (c, .ok)
  else
    let text := (msg.getD []).take 64
    if c.ssPushReady ∧ (c.state = .ready ∨ c.state = .auth ∨ c.state = .draining) then
      ({ sendDisconnect E c reason text with state := .draining }, .ok)
    else ({ c with state := .closed }, .ok)

/-- What a public call returns to the host. -/
inductive Ret where
  | rc (rc : Rc)
  | opened (rc : Rc) (localId : Option UInt32)
  | size (n : ℕ)
  | bytes (b : Bytes)
  | event (ev : Option Event)
  | unit
  deriving DecidableEq

/-- Record a call that returned OK. -/
def record (k : Call) (r : Ctx Rng SS × Rc) : Ctx Rng SS × Ret :=
  (if r.2 = .ok then r.1.log (.did k) else r.1, .rc r.2)

/-- Carry out one public call. -/
def call (E : Env Rng SS) (c : Ctx Rng SS) (k : Call) : Ctx Rng SS × Ret :=
  match k with
  | .feedInput data => let r := feedInput E c data; (r.1, .size r.2)
  | .getOutput maxLen => let r := getOutput c maxLen; (r.1, .bytes r.2)
  | .nextEvent => let r := nextEvent c; (r.1, .event r.2)
  | .authDecide accept => record k (authDecide E c accept)
  | .authDecideEx accept claims => record k (authDecideEx E c accept claims)
  | .channelOpen name =>
    let r := channelOpen E c name
    ((record k (r.1, r.2.1)).1, .opened r.2.1 r.2.2)
  | .channelAccept localId accept => record k (channelAccept E c localId accept)
  | .channelSend localId data memOk => record k (channelSend E c localId data memOk)
  | .channelEof localId => record k (channelEof E c localId)
  | .channelClose localId => record k (channelClose E c localId)
  | .channelWindowAdjust localId credit => record k (channelWindowAdjust E c localId credit)
  | .disconnect reason msg => record k (disconnect E c reason msg)
  | .reset => (reset E c, .unit)

/-- A run of public calls, each with its result, of which each is made in a context that the
guard admits it in. -/
inductive Run (E : Env Rng SS) (guard : Ctx Rng SS → Call → Prop) :
    Ctx Rng SS → List (Call × Ret) → Ctx Rng SS → Prop where
  | nil (c : Ctx Rng SS) : Run E guard c [] c
  | snoc {c c' : Ctx Rng SS} {l : List (Call × Ret)} (k : Call) : Run E guard c l c' →
      guard c' k → Run E guard c (l ++ [(k, (call E c' k).2)]) (call E c' k).1

/-- The contexts reachable from some creation by admitted calls, under any peer. -/
def ReachableUnder (E : Env Rng SS) (guard : Ctx Rng SS → Call → Prop) (c : Ctx Rng SS) : Prop :=
  ∃ role cfg rng memOk c₀ l, create E role cfg rng memOk = some c₀ ∧ Run E guard c₀ l c

/-- The contexts reachable from some creation, under any peer and any host. -/
def Reachable (E : Env Rng SS) : Ctx Rng SS → Prop := ReachableUnder E fun _ _ => True

end Sodchan
