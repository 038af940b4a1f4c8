import Sodchan.Model.Context

/-! # Handshake and authentication

Key derivation, the HELLO exchange, the secretstream headers and the AUTH
PDUs. A handler returns the new context and whether it succeeded, that is,
whether the code returns 0 rather than -1.
-/

namespace Sodchan

open ByteString

variable {Rng SS : Type}

/-- `sodchan_crypto_ss_key_derive`. -/
def ssKeyDerive (E : Env Rng SS) (kxKey : Key) (dom : Bytes) : Except Rc Key :=
  if E.sodiumInit then
    match E.generichash (kxKey.val ++ dom) with
    | none => .error .crypto
    | some k => .ok k
  else .error .crypto

/-- `sodchan_pubkey_fingerprint_sha256` into a zeroed buffer of `outLen` chars. -/
def pubkeyFingerprintSha256 (E : Env Rng SS) (pk : Key) (outLen : ℕ) : Bytes :=
  if E.sodiumInit then
    match E.sha256 pk with
    | none => []
    | some digest =>
      let b64 := E.bin2base64 digest
      if outLen < 7 + b64.length + 1 then [] else ascii "SHA256:" ++ b64
  else []

def deriveSsKeysClient (E : Env Rng SS) (c : Ctx Rng SS) : Ctx Rng SS × Rc :=
  match E.kxClientSessionKeys c.ephPk c.ephSk c.peerEphPk with
  | none => (c, .crypto)
  | some (rx, tx) =>
    match ssKeyDerive E tx domSsC2s with
    | .error _ => (c, .crypto)
    | .ok kc =>
      match ssKeyDerive E rx domSsS2c with
      | .error _ => ({ c with ssKeyC2s := kc }, .crypto)
      | .ok ks => ({ c with ssKeyC2s := kc, ssKeyS2c := ks }, .ok)

def deriveSsKeysServer (E : Env Rng SS) (c : Ctx Rng SS) : Ctx Rng SS × Rc :=
  match E.kxServerSessionKeys c.ephPk c.ephSk c.peerEphPk with
  | none => (c, .crypto)
  | some (rx, tx) =>
    match ssKeyDerive E rx domSsC2s with
    | .error _ => (c, .crypto)
    | .ok kc =>
      match ssKeyDerive E tx domSsS2c with
      | .error _ => ({ c with ssKeyC2s := kc }, .crypto)
      | .ok ks => ({ c with ssKeyC2s := kc, ssKeyS2c := ks }, .ok)

def clientHello (c : Ctx Rng SS) : Wire.Hello where
  protoVersion := protoVersion
  suiteId := suiteV1
  role := c.role.code
  flags := 0
  ephPk := c.ephPk
  idPk := if c.haveClientIdPk then c.clientIdPk else BytesN.zero 32
  idSig := BytesN.zero 64

def serverHello (c : Ctx Rng SS) (sig : Sig) : Wire.Hello where
  protoVersion := protoVersion
  suiteId := suiteV1
  role := c.role.code
  flags := 0
  ephPk := c.ephPk
  idPk := c.serverIdPk
  idSig := sig

def serverTranscript (c : Ctx Rng SS) : Ctx Rng SS :=
  let t := Wire.buildTHello protoVersion suiteV1 c.peerEphPk c.ephPk c.serverIdPk
  { c with tHello := t, haveTHello := true }

def queueLocalHello (E : Env Rng SS) (c : Ctx Rng SS) : Ctx Rng SS × Rc :=
  match c.role with
  | .server =>
    if ¬ c.havePeerEph then (c, .state)
    else
      let c := serverTranscript c
      match E.signDetached c.tHello.val c.serverIdSk with
      | none => (c, .crypto)
      | some sig =>
        match Wire.helloEncode (serverHello c sig) helloBodyLen with
        | .error rc => (c, rc)
        | .ok body => outAppendFrame c body
  | .client =>
    match Wire.helloEncode (clientHello c) helloBodyLen with
    | .error rc => (c, rc)
    | .ok body => outAppendFrame c body

/-- `client_send_ss_header_c2s` and `server_send_ss_header_s2c`, which differ in the key. -/
def sendSsHeader (E : Env Rng SS) (c : Ctx Rng SS) (key : Key) : Ctx Rng SS × Rc :=
  match E.ssInitPush c.rng key with
  | (none, rng) => ({ c with rng := rng }, .crypto)
  | (some (st, header), rng) =>
    outAppendFrame { c with rng := rng, ssPush := st, ssPushReady := true } header.val

def clientSendSsHeaderC2s (E : Env Rng SS) (c : Ctx Rng SS) : Ctx Rng SS × Rc :=
  sendSsHeader E c c.ssKeyC2s

def serverSendSsHeaderS2c (E : Env Rng SS) (c : Ctx Rng SS) : Ctx Rng SS × Rc :=
  sendSsHeader E c c.ssKeyS2c

def emitHelloReceived (c : Ctx Rng SS) : Ctx Rng SS :=
  emit c (.helloReceived (if c.havePeerId then c.peerIdPk else BytesN.zero 32))

def emitKxComplete (c : Ctx Rng SS) : Ctx Rng SS := emit c .kxComplete

def emitAuthenticated (c : Ctx Rng SS) : Ctx Rng SS := emit c .authenticated

def emitAuthFailed (c : Ctx Rng SS) (reason : AuthReason) (msg : String) : Ctx Rng SS :=
  emit c (.authFailed reason msg)

def clientSendAuthDevice (E : Env Rng SS) (c : Ctx Rng SS) : Ctx Rng SS × Rc :=
  if c.role ≠ .client ∨ c.authSent then (c, .ok)
  else if ¬ c.haveClientIdSk ∨ ¬ c.haveClientIdPk ∨ ¬ c.haveTHello then (c, .ok)
  else
    let user := (c.clientUsername.getD []).take userMax
    let dev := (c.clientDeviceId.getD []).take deviceIdMax
    match Wire.buildTAuth c.tHello c.clientIdPk user dev 512 with
    | .error _ => (c, .protocol)
    | .ok tAuth =>
      match E.signDetached tAuth c.clientIdSk with
      | none => (c, .crypto)
      | some sig =>
        match Wire.authDeviceEncode c.clientIdPk sig user dev 512 with
        | .error _ => (c, .protocol)
        | .ok pdu =>
          match ssSendPdu E c pdu with
          | (c, .ok) => ({ c with authSent := true }, .ok)
          | (c, _) => (c, .full)

def serverSendAuthFail (E : Env Rng SS) (c : Ctx Rng SS) : Ctx Rng SS × Rc :=
  match Wire.authFailEncode 8 with
  | .error _ => (c, .protocol)
  | .ok pdu => ssSendPdu E c pdu

def serverSendAuthOk (E : Env Rng SS) (c : Ctx Rng SS) (claims : Bytes) : Ctx Rng SS × Rc :=
  match Wire.authOkEncode claims (3 + claimsMax) with
  | .error _ => (c, .param)
  | .ok pdu => ssSendPdu E c pdu

def takeAuthDevice (E : Env Rng SS) (c : Ctx Rng SS) (d : Wire.AuthDevice)
    (user device : Bytes) : Ctx Rng SS :=
  let c := { c with peerIdPk := d.clientIdPk, havePeerId := true }
  let c := emit c (.authDevice d.clientIdPk (cstr d.username) (cstr d.deviceId)
    (pubkeyFingerprintSha256 E d.clientIdPk fpSha256Max) true)
  let c := c.log (.authDevice d.clientIdPk d.clientSig user device)
  { c with authAwaitingDecide := true }

def handleAuthDevicePdu (E : Env Rng SS) (c : Ctx Rng SS) (plain : Bytes) : Ctx Rng SS × Bool :=
  if c.role ≠ .server then (setError c .protocol "AUTH_DEVICE to client", false)
  else if c.authAwaitingDecide ∨ c.authComplete ∨ c.authDecided then
    (setError c .protocol "duplicate AUTH_DEVICE", false)
  else if ¬ c.haveTHello then (setError c .state "missing t_hello", false)
  else
    match Wire.authDeviceDecode plain (userMax + 1) (deviceIdMax + 1) with
    | .error _ => (setError c .protocol "AUTH_DEVICE decode", false)
    | .ok d =>
      let user := d.username.take d.usernameLen
      let device := d.deviceId.take d.deviceIdLen
      match Wire.buildTAuth c.tHello d.clientIdPk user device 512 with
      | .error _ => (setError c .protocol "t_auth build", false)
      | .ok tAuth =>
        if ¬ E.signVerifyDetached d.clientSig tAuth d.clientIdPk then
          let c := (serverSendAuthFail E (c.log .authBadSig)).1
          let c := emitAuthFailed c .badSig "bad device sig"
          (setError c .crypto "AUTH_DEVICE bad signature", false)
        else (takeAuthDevice E c d user device, true)

def handleAuthOkPdu (c : Ctx Rng SS) (plain : Bytes) : Ctx Rng SS × Bool :=
  if c.role ≠ .client then (setError c .protocol "AUTH_OK to server", false)
  else
    match Wire.authOkDecode plain with
    | .error _ => (setError c .protocol "AUTH_OK decode", false)
    | .ok _ => (emitAuthenticated { c with authComplete := true, state := .ready }, true)

def handleAuthFailPdu (c : Ctx Rng SS) (plain : Bytes) : Ctx Rng SS × Bool :=
  match Wire.authFailDecode plain with
  | .error _ => (setError c .protocol "AUTH_FAIL decode", false)
  | .ok _ =>
    (setError (emitAuthFailed c .unspec "AUTH_FAIL received") .rejected
      "authentication failed", false)

/-- The fields that the client takes from a HELLO, before it checks the signature. -/
def clientTakeHello (c : Ctx Rng SS) (h : Wire.Hello) : Ctx Rng SS :=
  let c :=
    if ¬ c.acceptAnyServerPk then c
    else { c with serverIdPk := h.idPk, haveServerIdPk := true }
  let c := { c with
    peerEphPk := h.ephPk, peerIdPk := h.idPk, havePeerEph := true, havePeerId := true }
  let t := Wire.buildTHello protoVersion suiteV1 c.ephPk c.peerEphPk c.peerIdPk
  { c with tHello := t, haveTHello := true }

/-- Key derivation and the own header, after the signature was verified. -/
def clientFinishHello (E : Env Rng SS) (c : Ctx Rng SS) : Ctx Rng SS × Bool :=
  match deriveSsKeysClient E c with
  | (c, .ok) =>
    match clientSendSsHeaderC2s E c with
    | (c, .ok) => ({ c with state := .ssHeader, hs := .waitPeerSs }, true)
    | (c, _) => (setError c .full "ss header c2s enqueue", false)
  | (c, _) => (setError c .crypto "kx client failed", false)

/-- The client branch of `handle_peer_hello`, after the body was decoded. -/
def clientHandleHello (E : Env Rng SS) (c : Ctx Rng SS) (h : Wire.Hello) : Ctx Rng SS × Bool :=
  if h.role ≠ Role.server.code then (setError c .protocol "expected server HELLO", false)
  else if ¬ c.acceptAnyServerPk ∧ (¬ c.haveServerIdPk ∨ h.idPk ≠ c.serverIdPk) then
    (setError c .protocol "server pin mismatch", false)
  else
    let c := clientTakeHello c h
    if ¬ E.signVerifyDetached h.idSig c.tHello.val c.peerIdPk then
      (setError c .crypto "server HELLO signature invalid", false)
    else clientFinishHello E (emitHelloReceived (c.log (.helloVerified h)))

def serverTakeHello (c : Ctx Rng SS) (h : Wire.Hello) : Ctx Rng SS :=
  let c := { c with peerEphPk := h.ephPk, havePeerEph := true }
  if h.idPk = BytesN.zero 32 then c else { c with peerIdPk := h.idPk, havePeerId := true }

/-- The server branch of `handle_peer_hello`, after the body was decoded. -/
def serverHandleHello (E : Env Rng SS) (c : Ctx Rng SS) (h : Wire.Hello) : Ctx Rng SS × Bool :=
  if h.role ≠ Role.client.code then (setError c .protocol "expected client HELLO", false)
  else
    match queueLocalHello E (emitHelloReceived (serverTakeHello c h)) with
    | (c, .ok) =>
      match deriveSsKeysServer E c with
      | (c, .ok) => ({ c with state := .ssHeader, hs := .waitPeerSs }, true)
      | (c, _) => (setError c .crypto "kx server failed", false)
    | (c, _) => (setError c .crypto "server HELLO send", false)

def handlePeerHello (E : Env Rng SS) (c : Ctx Rng SS) (body : Bytes) : Ctx Rng SS × Bool :=
  match Wire.helloDecode body with
  | .error _ => (setError c .protocol "hello decode failed", false)
  | .ok h =>
    match c.role with
    | .client => clientHandleHello E c h
    | .server => serverHandleHello E c h

/-- The key exchange of a client is complete: it proves its device identity. -/
def clientTakeSsHeader (E : Env Rng SS) (c : Ctx Rng SS) (st : SS) : Ctx Rng SS × Bool :=
  let c := { c with ssPull := st, ssPullReady := true, hs := .done, state := .auth }
  let c := emitKxComplete c
  match clientSendAuthDevice E c with
  | (c, .ok) => (c, true)
  | (c, _) => (setError c .crypto "AUTH_DEVICE send", false)

/-- The client branch of `handle_peer_ss_header`. -/
def clientHandleSsHeader (E : Env Rng SS) (c : Ctx Rng SS) (header : SsHeader) :
    Ctx Rng SS × Bool :=
  match E.ssInitPull header c.ssKeyS2c with
  | none => (setError c .crypto "ss pull s2c failed", false)
  | some st => clientTakeSsHeader E c st

/-- The key exchange of a server is complete once its own header is queued. -/
def serverTakeSsHeader (E : Env Rng SS) (c : Ctx Rng SS) (st : SS) : Ctx Rng SS × Bool :=
  let c := { c with ssPull := st, ssPullReady := true }
  match serverSendSsHeaderS2c E c with
  | (c, .ok) => (emitKxComplete { c with hs := .done, state := .auth }, true)
  | (c, _) => (setError c .full "ss header s2c enqueue", false)

/-- The server branch of `handle_peer_ss_header`. -/
def serverHandleSsHeader (E : Env Rng SS) (c : Ctx Rng SS) (header : SsHeader) :
    Ctx Rng SS × Bool :=
  match E.ssInitPull header c.ssKeyC2s with
  | none => (setError c .crypto "ss pull c2s failed", false)
  | some st => serverTakeSsHeader E c st

def handlePeerSsHeader (E : Env Rng SS) (c : Ctx Rng SS) (body : Bytes) : Ctx Rng SS × Bool :=
  if h : body.length = 24 then
    match c.role with
    | .client => clientHandleSsHeader E c ⟨body, h⟩
    | .server => serverHandleSsHeader E c ⟨body, h⟩
  else (setError c .protocol "bad ss header length", false)

end Sodchan
