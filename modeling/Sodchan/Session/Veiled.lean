import Mathlib.Tactic.Simps.Basic
import Sodchan.Model.Steps

/-! # What is never read

No handler sees the bytes that are buffered behind its frame, and what an
earlier session has left in the context is not read before it is written anew.
To put other data in their place commutes with every handler and every call.
-/

namespace Sodchan

variable {Rng SS : Type} {E : Env Rng SS} {c : Ctx Rng SS}

/-- What takes the place of the data that are not read. -/
structure Veil (SS : Type) where
  inBuf : Bytes → Bytes := id
  peerEphPk : Key → Key := id
  peerIdPk : Key → Key := id
  tHello : BytesN tHelloLen → BytesN tHelloLen := id
  ssPush : SS → SS := id
  ssPull : SS → SS := id
  serverIdPk : Key → Key := id
  haveServerIdPk : Bool → Bool := id

variable {v : Veil SS}

namespace Ctx

/-- The server key is not read any more: a client that accepts any server waits for its HELLO. -/
def pinUnread (c : Ctx Rng SS) : Bool :=
  !c.havePeerId && (c.acceptAnyServerPk && decide (c.role = .client))

/-- The context with other data in place of those that are not read. A key, a transcript or a
stream is read only when its flag is set. -/
@[simps]
def veiled (c : Ctx Rng SS) (v : Veil SS) : Ctx Rng SS :=
  { c with
    inBuf := v.inBuf c.inBuf
    peerEphPk := cond c.havePeerEph c.peerEphPk (v.peerEphPk c.peerEphPk)
    peerIdPk := cond c.havePeerId c.peerIdPk (v.peerIdPk c.peerIdPk)
    tHello := cond c.haveTHello c.tHello (v.tHello c.tHello)
    ssPush := cond c.ssPushReady c.ssPush (v.ssPush c.ssPush)
    ssPull := cond c.ssPullReady c.ssPull (v.ssPull c.ssPull)
    serverIdPk := cond c.pinUnread (v.serverIdPk c.serverIdPk) c.serverIdPk
    haveServerIdPk := cond c.pinUnread (v.haveServerIdPk c.haveServerIdPk) c.haveServerIdPk }

end Ctx

theorem pinUnread_server (h : c.role = .server) : c.pinUnread = false := by
  simp [Ctx.pinUnread, h]

theorem pinUnread_pinned (h : c.acceptAnyServerPk = false) : c.pinUnread = false := by
  simp [Ctx.pinUnread, h]

def veiledResult {α : Type} (v : Veil SS) (r : Ctx Rng SS × α) : Ctx Rng SS × α :=
  (r.1.veiled v, r.2)

theorem log_veiled (o : Occ) : (c.veiled v).log o = (c.log o).veiled v := rfl

theorem emit_veiled (ev : Event) : emit (c.veiled v) ev = (emit c ev).veiled v := by
  unfold emit queueEvent
  simp only [Ctx.veiled_events]
  cases c.events.push ev <;> rfl

theorem setError_veiled (code : Rc) (msg : String) :
    setError (c.veiled v) code msg = (setError c code msg).veiled v :=
  emit_veiled (c := { c with
    error := if code = .ok then .protocol else code, state := .error, errorMsg := msg }) _

theorem outCompact_veiled : outCompact (c.veiled v) = (outCompact c).veiled v := by
  unfold outCompact
  simp only [Ctx.veiled_outOff, Ctx.veiled_outBuf]
  split
  · rfl
  · split <;> rfl

theorem outAppend_veiled (p : Bytes) :
    outAppend (c.veiled v) p = veiledResult v (outAppend c p) := by
  unfold outAppend
  simp only [outCompact_veiled, Ctx.veiled_outBuf]
  split <;> rfl

theorem outAppendFrame_veiled (body : Bytes) :
    outAppendFrame (c.veiled v) body = veiledResult v (outAppendFrame c body) := by
  unfold outAppendFrame
  split
  · rfl
  · exact outAppend_veiled _

theorem ssFrameMaxBody_veiled : ssFrameMaxBody E (c.veiled v) = ssFrameMaxBody E c := rfl

theorem ssSendPdu_veiled (plain : Bytes) :
    ssSendPdu E (c.veiled v) plain = veiledResult v (ssSendPdu E c plain) := by
  cases hr : c.ssPushReady with
  | false => simp [ssSendPdu, hr, veiledResult]
  | true =>
    have hd : (outCompact c).ssPushReady = true := by
      rw [outCompact_eq]
      exact hr
    unfold ssSendPdu
    simp only [outCompact_veiled, Ctx.veiled_outBuf, Ctx.veiled_ssPushReady,
      Ctx.veiled_maxRecordSize, Ctx.veiled_ssPush, ssFrameMaxBody_veiled, hd, cond_true]
    split
    · rfl
    · split
      · rfl
      · split
        · rfl
        · split
          · rfl
          · split
            · rfl
            · simp only [veiledResult, Ctx.veiled, Ctx.pinUnread, hd, cond_true]

theorem setCh_veiled (i : Fin maxChannelSlots) (ch : Channel) :
    setCh (c.veiled v) i ch = (setCh c i ch).veiled v := rfl

theorem chByLocal_veiled (id : UInt32) : chByLocal (c.veiled v) id = chByLocal c id := rfl

theorem chAlloc_veiled :
    chAlloc (c.veiled v) = (chAlloc c).map fun r => (r.1.veiled v, r.2) := by
  unfold chAlloc
  simp only [Ctx.veiled_maxChannels, Ctx.veiled_activeChannels, Ctx.veiled_channels]
  split
  · rfl
  · split <;> rfl

theorem chFree_veiled (i : Fin maxChannelSlots) :
    chFree (c.veiled v) i = (chFree c i).veiled v := by
  unfold chFree
  simp only [Ctx.veiled_channels]
  split <;> rfl

theorem channelNameAllowed_veiled (name : Bytes) :
    channelNameAllowed (c.veiled v) name = channelNameAllowed c name := rfl

theorem sendReply_veiled (reply : Except Rc Bytes) :
    sendReply E (c.veiled v) reply = (sendReply E c reply).veiled v := by
  unfold sendReply
  split <;> rw [ssSendPdu_veiled] <;> rfl

theorem muxChannelOpen_veiled (plain : Bytes) :
    muxChannelOpen E (c.veiled v) plain = veiledResult v (muxChannelOpen E c plain) := by
  unfold muxChannelOpen
  split
  · rw [setError_veiled]
    rfl
  · simp only [channelNameAllowed_veiled, chAlloc_veiled, sendReply_veiled]
    split
    · rfl
    · cases chAlloc c with
      | none => rfl
      | some r => simp only [Option.map_some, setCh_veiled, emit_veiled]; rfl

theorem muxChannelOpenConfirm_veiled (plain : Bytes) :
    muxChannelOpenConfirm (c.veiled v) plain = veiledResult v (muxChannelOpenConfirm c plain) := by
  unfold muxChannelOpenConfirm
  simp only [chByLocal_veiled, log_veiled, setError_veiled, Ctx.veiled_channels, setCh_veiled,
    emit_veiled, Ctx.veiled_maxPacket]
  split
  · rfl
  · split
    · rfl
    · split <;> rfl

theorem muxChannelOpenFail_veiled (plain : Bytes) :
    muxChannelOpenFail (c.veiled v) plain = veiledResult v (muxChannelOpenFail c plain) := by
  unfold muxChannelOpenFail
  simp only [chByLocal_veiled, setError_veiled, Ctx.veiled_channels, emit_veiled, chFree_veiled]
  split
  · rfl
  · split
    · rfl
    · split <;> rfl

theorem muxChannelData_veiled (plain : Bytes) :
    muxChannelData (c.veiled v) plain = veiledResult v (muxChannelData c plain) := by
  unfold muxChannelData
  simp only [chByLocal_veiled, log_veiled, setError_veiled, Ctx.veiled_channels, setCh_veiled,
    emit_veiled]
  split
  · rfl
  · split
    · rfl
    · split_ifs <;> rfl

theorem muxChannelWindow_veiled (plain : Bytes) :
    muxChannelWindow (c.veiled v) plain = veiledResult v (muxChannelWindow c plain) := by
  unfold muxChannelWindow
  simp only [chByLocal_veiled, setError_veiled, Ctx.veiled_channels, setCh_veiled, emit_veiled]
  split
  · rfl
  · split
    · rfl
    · split <;> rfl

theorem muxChannelEof_veiled (plain : Bytes) :
    muxChannelEof (c.veiled v) plain = veiledResult v (muxChannelEof c plain) := by
  unfold muxChannelEof
  simp only [chByLocal_veiled, setError_veiled, Ctx.veiled_channels, setCh_veiled, emit_veiled]
  split
  · rfl
  · split <;> rfl

theorem muxChannelClose_veiled (plain : Bytes) :
    muxChannelClose (c.veiled v) plain = veiledResult v (muxChannelClose c plain) := by
  unfold muxChannelClose
  simp only [chByLocal_veiled, setError_veiled, Ctx.veiled_channels, emit_veiled, chFree_veiled]
  split
  · rfl
  · split <;> rfl

theorem muxPing_veiled (plain : Bytes) :
    muxPing E (c.veiled v) plain = veiledResult v (muxPing E c plain) := by
  unfold muxPing
  simp only [setError_veiled, emit_veiled, ssSendPdu_veiled]
  split
  · rfl
  · split <;> rfl

theorem muxDisconnect_veiled (plain : Bytes) :
    muxDisconnect (c.veiled v) plain = veiledResult v (muxDisconnect c plain) := by
  unfold muxDisconnect
  simp only [setError_veiled, emit_veiled]
  split <;> rfl

theorem handleMuxPdu_veiled (plain : Bytes) :
    handleMuxPdu E (c.veiled v) plain = veiledResult v (handleMuxPdu E c plain) := by
  unfold handleMuxPdu
  simp only [muxChannelOpen_veiled, muxChannelOpenConfirm_veiled, muxChannelOpenFail_veiled,
    muxChannelData_veiled, muxChannelWindow_veiled, muxChannelEof_veiled, muxChannelClose_veiled,
    muxPing_veiled, muxDisconnect_veiled, setError_veiled, apply_ite (veiledResult v)]
  rfl

theorem clientSendAuthDevice_veiled :
    clientSendAuthDevice E (c.veiled v) = veiledResult v (clientSendAuthDevice E c) := by
  unfold clientSendAuthDevice
  simp only [Ctx.veiled_role, Ctx.veiled_authSent, Ctx.veiled_haveClientIdSk,
    Ctx.veiled_haveClientIdPk, Ctx.veiled_haveTHello, Ctx.veiled_clientUsername,
    Ctx.veiled_clientDeviceId, Ctx.veiled_tHello, Ctx.veiled_clientIdPk, Ctx.veiled_clientIdSk,
    ssSendPdu_veiled]
  split
  · rfl
  · split
    · rfl
    · rename_i hn
      have ht : c.haveTHello = true := by simp_all
      rw [ht, cond_true]
      split
      · rfl
      · split
        · rfl
        · split
          · rfl
          · rename_i pdu _
            rcases ssSendPdu E c pdu with ⟨c', rc⟩
            cases rc <;> rfl

theorem serverSendAuthFail_veiled :
    serverSendAuthFail E (c.veiled v) = veiledResult v (serverSendAuthFail E c) := by
  unfold serverSendAuthFail
  split
  · rfl
  · exact ssSendPdu_veiled _

theorem takeAuthDevice_veiled (hr : c.role = .server) (d : Wire.AuthDevice)
    (user device : Bytes) :
    takeAuthDevice E (c.veiled v) d user device = (takeAuthDevice E c d user device).veiled v := by
  have ht : ({ c.veiled v with peerIdPk := d.clientIdPk, havePeerId := true } : Ctx Rng SS) =
      ({ c with peerIdPk := d.clientIdPk, havePeerId := true } : Ctx Rng SS).veiled v := by
    simp only [Ctx.veiled, Ctx.pinUnread, hr, reduceCtorEq, decide_false, Bool.and_false,
      cond_false, cond_true]
  have h : ∀ ev, emit { c.veiled v with peerIdPk := d.clientIdPk, havePeerId := true } ev =
      (emit { c with peerIdPk := d.clientIdPk, havePeerId := true } ev).veiled v := by
    intro ev
    rw [ht]
    exact emit_veiled ev
  unfold takeAuthDevice
  simp only [h]
  rfl

theorem handleAuthDevicePdu_veiled (plain : Bytes) :
    handleAuthDevicePdu E (c.veiled v) plain = veiledResult v (handleAuthDevicePdu E c plain) := by
  unfold handleAuthDevicePdu emitAuthFailed
  simp only [Ctx.veiled_role, Ctx.veiled_authAwaitingDecide, Ctx.veiled_authComplete,
    Ctx.veiled_authDecided, Ctx.veiled_haveTHello, Ctx.veiled_tHello, setError_veiled, log_veiled,
    serverSendAuthFail_veiled]
  split
  · rfl
  · rename_i hr
    rw [not_not] at hr
    split
    · rfl
    · split
      · rfl
      · rename_i ht
        rw [not_not] at ht
        rw [ht, cond_true]
        split
        · rfl
        · split
          · rfl
          · simp only [takeAuthDevice_veiled hr]
            split
            · simp only [veiledResult, emit_veiled, setError_veiled]
            · rfl

theorem handleAuthOkPdu_veiled (plain : Bytes) :
    handleAuthOkPdu (c.veiled v) plain = veiledResult v (handleAuthOkPdu c plain) := by
  unfold handleAuthOkPdu emitAuthenticated
  simp only [Ctx.veiled_role, setError_veiled]
  split
  · rfl
  · split
    · rfl
    · exact congrArg (·, true)
        (emit_veiled (c := { c with authComplete := true, state := .ready }) _)

theorem handleAuthFailPdu_veiled (plain : Bytes) :
    handleAuthFailPdu (c.veiled v) plain = veiledResult v (handleAuthFailPdu c plain) := by
  unfold handleAuthFailPdu emitAuthFailed
  simp only [setError_veiled, emit_veiled]
  split <;> rfl

/-! ### The handshake -/

theorem sendSsHeader_veiled (key : Key) :
    sendSsHeader E (c.veiled v) key = veiledResult v (sendSsHeader E c key) := by
  unfold sendSsHeader
  simp only [Ctx.veiled_rng]
  split
  · rfl
  · exact outAppendFrame_veiled (c := { c with rng := _, ssPush := _, ssPushReady := true }) _

theorem deriveSsKeysClient_veiled (hp : c.havePeerEph = true) :
    deriveSsKeysClient E (c.veiled v) = veiledResult v (deriveSsKeysClient E c) := by
  unfold deriveSsKeysClient
  simp only [Ctx.veiled_ephPk, Ctx.veiled_ephSk, Ctx.veiled_peerEphPk, hp, cond_true]
  split
  · rfl
  · split
    · rfl
    · split <;> simp only [veiledResult, Ctx.veiled, Ctx.pinUnread, hp, cond_true]

theorem deriveSsKeysServer_veiled (hp : c.havePeerEph = true) :
    deriveSsKeysServer E (c.veiled v) = veiledResult v (deriveSsKeysServer E c) := by
  unfold deriveSsKeysServer
  simp only [Ctx.veiled_ephPk, Ctx.veiled_ephSk, Ctx.veiled_peerEphPk, hp, cond_true]
  split
  · rfl
  · split
    · rfl
    · split <;> simp only [veiledResult, Ctx.veiled, Ctx.pinUnread, hp, cond_true]

theorem serverTranscript_veiled (hr : c.role = .server) (hp : c.havePeerEph = true) :
    serverTranscript (c.veiled v) = (serverTranscript c).veiled v := by
  simp only [serverTranscript, Ctx.veiled, Ctx.pinUnread, hr, hp, reduceCtorEq, decide_false,
    Bool.and_false, cond_false, cond_true]

theorem queueLocalHello_veiled :
    queueLocalHello E (c.veiled v) = veiledResult v (queueLocalHello E c) := by
  have hh : ∀ d : Ctx Rng SS, clientHello (d.veiled v) = clientHello d := fun _ => rfl
  unfold queueLocalHello
  simp only [Ctx.veiled_role, Ctx.veiled_havePeerEph, hh, outAppendFrame_veiled]
  split
  · rename_i hr
    have hv : ∀ sig, serverHello ((serverTranscript c).veiled v) sig =
        serverHello (serverTranscript c) sig := by
      intro sig
      have hr' : (serverTranscript c).role = .server := hr
      simp only [serverHello, Ctx.veiled_serverIdPk, pinUnread_server hr', cond_false]
      rfl
    split
    · rfl
    · rename_i hp
      rw [not_not] at hp
      simp only [serverTranscript_veiled hr hp, hv, outAppendFrame_veiled]
      have ht : ((serverTranscript c).veiled v).tHello = (serverTranscript c).tHello := rfl
      rw [ht, Ctx.veiled_serverIdSk]
      split
      · rfl
      · split <;> rfl
  · split <;> rfl

theorem clientTakeHello_veiled (h : Wire.Hello) :
    clientTakeHello (c.veiled v) h = (clientTakeHello c h).veiled v := by
  unfold clientTakeHello
  cases ha : c.acceptAnyServerPk with
  | false =>
    simp only [Ctx.veiled_acceptAnyServerPk, ha]
    simp only [Ctx.veiled, pinUnread_pinned ha]
    rfl
  | true =>
    simp only [Ctx.veiled_acceptAnyServerPk, ha]
    rfl

theorem emitHelloReceived_veiled :
    emitHelloReceived (c.veiled v) = (emitHelloReceived c).veiled v := by
  unfold emitHelloReceived
  cases hp : c.havePeerId with
  | false => simp [hp, emit_veiled]
  | true => simp [hp, emit_veiled]

theorem clientFinishHello_veiled (hp : c.havePeerEph = true) :
    clientFinishHello E (c.veiled v) = veiledResult v (clientFinishHello E c) := by
  unfold clientFinishHello clientSendSsHeaderC2s
  rw [deriveSsKeysClient_veiled hp]
  rcases deriveSsKeysClient E c with ⟨d, rc⟩
  cases rc <;> simp only [veiledResult, setError_veiled, sendSsHeader_veiled, Ctx.veiled_ssKeyC2s]
  rcases sendSsHeader E d d.ssKeyC2s with ⟨d', rc⟩
  cases rc <;> simp only [setError_veiled]
  rfl

theorem clientHandleHello_veiled (h : Wire.Hello) :
    clientHandleHello E (c.veiled v) h = veiledResult v (clientHandleHello E c h) := by
  have hpin : (¬ c.acceptAnyServerPk ∧ (¬ (c.veiled v).haveServerIdPk ∨
      h.idPk ≠ (c.veiled v).serverIdPk)) ↔
      (¬ c.acceptAnyServerPk ∧ (¬ c.haveServerIdPk ∨ h.idPk ≠ c.serverIdPk)) := by
    cases ha : c.acceptAnyServerPk with
    | true => simp
    | false => simp [pinUnread_pinned ha]
  have ht : ((clientTakeHello c h).veiled v).tHello = (clientTakeHello c h).tHello := rfl
  have hi : ((clientTakeHello c h).veiled v).peerIdPk = (clientTakeHello c h).peerIdPk := rfl
  have hp :
      (emitHelloReceived ((clientTakeHello c h).log (.helloVerified h))).havePeerEph = true := by
    rw [emitHelloReceived, emit_eq]
    rfl
  unfold clientHandleHello
  simp only [Ctx.veiled_acceptAnyServerPk, hpin, setError_veiled, clientTakeHello_veiled, ht, hi,
    log_veiled, emitHelloReceived_veiled, clientFinishHello_veiled hp]
  split
  · rfl
  · split
    · rfl
    · split <;> rfl

theorem serverTakeHello_veiled (hr : c.role = .server) (h : Wire.Hello) :
    serverTakeHello (c.veiled v) h = (serverTakeHello c h).veiled v := by
  unfold serverTakeHello
  split
  · rfl
  · simp only [Ctx.veiled, Ctx.pinUnread, hr, reduceCtorEq, decide_false, Bool.and_false,
      cond_false, cond_true]

theorem queueLocalHello_havePeerEph {d : Ctx Rng SS} {rc : Rc} (hp : c.havePeerEph = true)
    (hq : queueLocalHello E c = (d, rc)) : d.havePeerEph = true := by
  have hout : ∀ (b : Ctx Rng SS) body, (outAppendFrame b body).1.havePeerEph = b.havePeerEph := by
    intro b body
    unfold outAppendFrame
    split
    · rfl
    · rw [outAppend_eq]
      split <;> rfl
  have hd : (queueLocalHello E c).1.havePeerEph = c.havePeerEph := by
    unfold queueLocalHello
    split
    · split
      · rfl
      · dsimp only
        split
        · rfl
        · split
          · rfl
          · exact hout _ _
    · split
      · rfl
      · exact hout _ _
  rw [hq] at hd
  exact hd.trans hp

theorem serverHandleHello_veiled (hr : c.role = .server) (h : Wire.Hello) :
    serverHandleHello E (c.veiled v) h = veiledResult v (serverHandleHello E c h) := by
  have hp : (emitHelloReceived (serverTakeHello c h)).havePeerEph = true := by
    rw [emitHelloReceived, emit_eq]
    unfold serverTakeHello
    split <;> rfl
  unfold serverHandleHello
  simp only [setError_veiled, serverTakeHello_veiled hr, emitHelloReceived_veiled,
    queueLocalHello_veiled]
  split
  · rfl
  · rcases hq : queueLocalHello E (emitHelloReceived (serverTakeHello c h)) with ⟨d, rc⟩
    have hd := queueLocalHello_havePeerEph hp hq
    cases rc <;> simp only [veiledResult, setError_veiled, deriveSsKeysServer_veiled hd]
    rcases deriveSsKeysServer E d with ⟨d', rc⟩
    cases rc <;> simp only [setError_veiled]
    rfl

theorem handlePeerHello_veiled (body : Bytes) :
    handlePeerHello E (c.veiled v) body = veiledResult v (handlePeerHello E c body) := by
  unfold handlePeerHello
  simp only [Ctx.veiled_role, setError_veiled, clientHandleHello_veiled]
  split
  · rfl
  · split
    · rfl
    · rename_i hr
      exact serverHandleHello_veiled hr _

theorem clientTakeSsHeader_veiled (st : SS) :
    clientTakeSsHeader E (c.veiled v) st = veiledResult v (clientTakeSsHeader E c st) := by
  unfold clientTakeSsHeader
  generalize hd : ({ c with
    ssPull := st, ssPullReady := true, hs := .done, state := .auth } : Ctx Rng SS) = d
  have he : ({ c.veiled v with
      ssPull := st, ssPullReady := true, hs := .done, state := .auth } : Ctx Rng SS) =
      d.veiled v := by
    rw [← hd]
    rfl
  have hk : emitKxComplete (d.veiled v) = (emitKxComplete d).veiled v := emit_veiled _
  dsimp only at he ⊢
  rw [he, hk, clientSendAuthDevice_veiled]
  rcases clientSendAuthDevice E (emitKxComplete d) with ⟨d', rc⟩
  cases rc <;> simp only [veiledResult, setError_veiled]

theorem clientHandleSsHeader_veiled (header : SsHeader) :
    clientHandleSsHeader E (c.veiled v) header =
      veiledResult v (clientHandleSsHeader E c header) := by
  unfold clientHandleSsHeader
  simp only [Ctx.veiled_ssKeyS2c, setError_veiled, clientTakeSsHeader_veiled]
  split <;> rfl

theorem serverTakeSsHeader_veiled (st : SS) :
    serverTakeSsHeader E (c.veiled v) st = veiledResult v (serverTakeSsHeader E c st) := by
  unfold serverTakeSsHeader serverSendSsHeaderS2c
  generalize hd : ({ c with ssPull := st, ssPullReady := true } : Ctx Rng SS) = d
  have he : ({ c.veiled v with ssPull := st, ssPullReady := true } : Ctx Rng SS) =
      d.veiled v := by
    rw [← hd]
    rfl
  have hk : c.ssKeyS2c = d.ssKeyS2c := by
    rw [← hd]
  dsimp only at he ⊢
  rw [he, Ctx.veiled_ssKeyS2c, hk, sendSsHeader_veiled]
  dsimp only [veiledResult]
  rcases sendSsHeader E d d.ssKeyS2c with ⟨d', rc⟩
  cases rc
  case ok =>
    exact congrArg (·, true)
      (emit_veiled (c := { d' with hs := .done, state := .auth }) .kxComplete)
  all_goals simp only [setError_veiled]

theorem serverHandleSsHeader_veiled (header : SsHeader) :
    serverHandleSsHeader E (c.veiled v) header =
      veiledResult v (serverHandleSsHeader E c header) := by
  unfold serverHandleSsHeader
  simp only [Ctx.veiled_ssKeyC2s, setError_veiled, serverTakeSsHeader_veiled]
  split <;> rfl

theorem handlePeerSsHeader_veiled (body : Bytes) :
    handlePeerSsHeader E (c.veiled v) body = veiledResult v (handlePeerSsHeader E c body) := by
  unfold handlePeerSsHeader
  simp only [Ctx.veiled_role, setError_veiled, clientHandleSsHeader_veiled,
    serverHandleSsHeader_veiled]
  split
  · split <;> rfl
  · rfl

theorem handlePlain_veiled (plain : Bytes) (tag : UInt8) :
    handlePlain E (c.veiled v) plain tag = veiledResult v (handlePlain E c plain tag) := by
  unfold handlePlain
  simp only [Ctx.veiled_state, emit_veiled, setError_veiled, handleAuthDevicePdu_veiled,
    handleAuthOkPdu_veiled, handleAuthFailPdu_veiled, handleMuxPdu_veiled]
  split
  · rfl
  · split
    · rfl
    · split
      · rfl
      · split
        · rfl
        · split_ifs <;> rfl

theorem handleEncryptedPdu_veiled (ct : Bytes) :
    handleEncryptedPdu E (c.veiled v) ct = veiledResult v (handleEncryptedPdu E c ct) := by
  unfold handleEncryptedPdu
  simp only [Ctx.veiled_ssPullReady, Ctx.veiled_maxRecordSize, Ctx.veiled_ssPull, setError_veiled]
  split
  · rfl
  · rename_i hr
    rw [not_not] at hr
    rw [hr, cond_true]
    split
    · rfl
    · split
      · rfl
      · split
        · rfl
        · rename_i st plain tag _
          rw [← handlePlain_veiled]
          simp only [Ctx.veiled, Ctx.pinUnread, hr, cond_true]

/-- A frame is handled in the same way whatever is buffered behind it. -/
theorem handleFrame_veiled (body : Bytes) :
    handleFrame E (c.veiled v) body = veiledResult v (handleFrame E c body) := by
  unfold handleFrame
  simp only [Ctx.veiled_hs, setError_veiled, handlePeerHello_veiled, handlePeerSsHeader_veiled,
    handleEncryptedPdu_veiled]
  split <;> rfl

/-! ### Calls -/

theorem nextEvent_veiled : nextEvent (c.veiled v) = veiledResult v (nextEvent c) := by
  unfold nextEvent
  simp only [Ctx.veiled_events]
  split <;> rfl

theorem getOutput_veiled (n : ℕ) : getOutput (c.veiled v) n = veiledResult v (getOutput c n) := by
  unfold getOutput
  simp only [Ctx.veiled_outBuf, Ctx.veiled_outOff]
  split
  · rfl
  · split
    · rfl
    · split <;> rfl

theorem serverSendAuthOk_veiled (claims : Bytes) :
    serverSendAuthOk E (c.veiled v) claims = veiledResult v (serverSendAuthOk E c claims) := by
  unfold serverSendAuthOk
  split
  · rfl
  · exact ssSendPdu_veiled _

theorem takeDecision_veiled (accept : Bool) :
    takeDecision (c.veiled v) accept = (takeDecision c accept).veiled v := rfl

theorem authDecideEx_veiled (accept : Bool) (claims : Arg) :
    authDecideEx E (c.veiled v) accept claims =
      veiledResult v (authDecideEx E c accept claims) := by
  unfold authDecideEx emitAuthenticated emitAuthFailed
  simp only [Ctx.veiled_role, Ctx.veiled_authAwaitingDecide, Ctx.veiled_authDecided,
    Ctx.veiled_state, takeDecision_veiled, serverSendAuthOk_veiled, serverSendAuthFail_veiled]
  split_ifs
  · rfl
  · rfl
  · rfl
  · rfl
  · rfl
  · rcases serverSendAuthOk E (takeDecision c accept) claims.data with ⟨d, rc⟩
    cases rc
    case ok =>
      exact congrArg (·, Rc.ok)
        (emit_veiled (c := { d with authComplete := true, state := .ready }) .authenticated)
    all_goals simp only [veiledResult, setError_veiled]
  · rcases serverSendAuthFail E (takeDecision c accept) with ⟨d, rc⟩
    cases rc <;> simp only [veiledResult, setError_veiled, emit_veiled]

theorem channelOpen_veiled (name : Option Bytes) :
    channelOpen E (c.veiled v) name = veiledResult v (channelOpen E c name) := by
  unfold channelOpen
  simp only [Ctx.veiled_state, channelNameAllowed_veiled, chAlloc_veiled]
  split
  · rfl
  · split
    · rfl
    · split
      · rfl
      · split
        · rfl
        · split
          · rfl
          · cases chAlloc c with
            | none => rfl
            | some r =>
              simp only [Option.map_some, setCh_veiled, Ctx.veiled_channels,
                Ctx.veiled_initialWindow, Ctx.veiled_maxPacket, chFree_veiled, ssSendPdu_veiled]
              split
              · rfl
              · rename_i pdu _
                generalize ssSendPdu E (setCh r.1 r.2 _) pdu = q
                obtain ⟨d, rc⟩ := q
                cases rc <;> simp only [veiledResult, chFree_veiled]

theorem channelAccept_veiled (id : UInt32) (accept : Bool) :
    channelAccept E (c.veiled v) id accept = veiledResult v (channelAccept E c id accept) := by
  unfold channelAccept
  simp only [Ctx.veiled_state, chByLocal_veiled, Ctx.veiled_channels, Ctx.veiled_initialWindow,
    Ctx.veiled_maxPacket, ssSendPdu_veiled]
  split
  · rfl
  · split
    · rfl
    · split
      · rfl
      · split
        · rfl
        · split
          · split
            · rfl
            · rename_i pdu _
              rcases ssSendPdu E c pdu with ⟨d, rc⟩
              cases rc <;> simp only [veiledResult, setCh_veiled, emit_veiled,
                Ctx.veiled_initialWindow, Ctx.veiled_maxPacket]
          · split
            · rfl
            · rename_i pdu _
              rcases ssSendPdu E c pdu with ⟨d, rc⟩
              cases rc <;> simp only [veiledResult, chFree_veiled]

theorem channelSend_veiled (id : UInt32) (data : Arg) (memOk : Bool) :
    channelSend E (c.veiled v) id data memOk = veiledResult v (channelSend E c id data memOk) := by
  unfold channelSend
  simp only [Ctx.veiled_state, chByLocal_veiled, Ctx.veiled_channels, ssSendPdu_veiled]
  split
  · rfl
  · split
    · rfl
    · split
      · rfl
      · split
        · rfl
        · split
          · rfl
          · split
            · rfl
            · split
              · rfl
              · split
                · rfl
                · split
                  · rfl
                  · rename_i pdu _
                    rcases ssSendPdu E c pdu with ⟨d, rc⟩
                    cases rc <;> simp only [veiledResult, setCh_veiled]

theorem channelEof_veiled (id : UInt32) :
    channelEof E (c.veiled v) id = veiledResult v (channelEof E c id) := by
  unfold channelEof
  simp only [Ctx.veiled_state, chByLocal_veiled, Ctx.veiled_channels, ssSendPdu_veiled]
  split
  · rfl
  · split
    · rfl
    · split_ifs
      · rfl
      · rfl
      · split
        · rfl
        · rename_i pdu _
          rcases ssSendPdu E c pdu with ⟨d, rc⟩
          cases rc <;> simp only [veiledResult, setCh_veiled]

theorem sendClose_veiled (ch : Channel) :
    sendClose E (c.veiled v) ch = (sendClose E c ch).veiled v := by
  unfold sendClose
  simp only [ssSendPdu_veiled]
  split
  · split <;> rfl
  · rfl

theorem channelClose_veiled (id : UInt32) :
    channelClose E (c.veiled v) id = veiledResult v (channelClose E c id) := by
  unfold channelClose
  simp only [Ctx.veiled_state, chByLocal_veiled, Ctx.veiled_channels, sendClose_veiled,
    chFree_veiled]
  split
  · rfl
  · split
    · rfl
    · split_ifs <;> rfl

theorem channelWindowAdjust_veiled (id credit : UInt32) :
    channelWindowAdjust E (c.veiled v) id credit =
      veiledResult v (channelWindowAdjust E c id credit) := by
  unfold channelWindowAdjust
  simp only [Ctx.veiled_state, chByLocal_veiled, Ctx.veiled_channels, ssSendPdu_veiled]
  split
  · rfl
  · split
    · rfl
    · split
      · rfl
      · split_ifs
        · rfl
        · split
          · rfl
          · rename_i pdu _
            rcases ssSendPdu E c pdu with ⟨d, rc⟩
            cases rc <;> simp only [veiledResult, setCh_veiled]

theorem disconnect_veiled (reason : UInt32) (msg : Option Bytes) :
    disconnect E (c.veiled v) reason msg = veiledResult v (disconnect E c reason msg) := by
  have hs : ∀ text, sendDisconnect E (c.veiled v) reason text =
      (sendDisconnect E c reason text).veiled v := by
    intro text
    unfold sendDisconnect
    simp only [ssSendPdu_veiled]
    split <;> rfl
  unfold disconnect
  simp only [Ctx.veiled_state, Ctx.veiled_ssPushReady, hs]
  split_ifs <;> rfl

theorem record_veiled (k : Call) (r : Ctx Rng SS × Rc) :
    record k (veiledResult v r) = veiledResult v (record k r) := by
  unfold record veiledResult
  dsimp only
  split <;> rfl

theorem call_veiled {k : Call} (hk : k.isPlain) :
    call E (c.veiled v) k = veiledResult v (call E c k) := by
  cases k with
  | feedInput | reset => cases hk
  | getOutput n =>
    simp only [call, getOutput_veiled]
    rfl
  | nextEvent =>
    simp only [call, nextEvent_veiled]
    rfl
  | authDecide accept =>
    simp only [call, authDecide, authDecideEx_veiled, record_veiled]
  | authDecideEx accept claims => simp only [call, authDecideEx_veiled, record_veiled]
  | channelOpen name =>
    have h := record_veiled (v := v) (.channelOpen name)
      ((channelOpen E c name).1, (channelOpen E c name).2.1)
    simp only [call, channelOpen_veiled, veiledResult] at h ⊢
    rw [h]
  | channelAccept id accept => simp only [call, channelAccept_veiled, record_veiled]
  | channelSend id data memOk => simp only [call, channelSend_veiled, record_veiled]
  | channelEof id => simp only [call, channelEof_veiled, record_veiled]
  | channelClose id => simp only [call, channelClose_veiled, record_veiled]
  | channelWindowAdjust id credit => simp only [call, channelWindowAdjust_veiled, record_veiled]
  | disconnect reason msg => simp only [call, disconnect_veiled, record_veiled]

section Input

variable (hv : v.inBuf = id)
include hv

theorem veiled_inBuf_eq (c : Ctx Rng SS) : (c.veiled v).inBuf = c.inBuf := by
  rw [Ctx.veiled_inBuf, hv]
  rfl

theorem parseInput_veiled (c : Ctx Rng SS) : parseInput E (c.veiled v) = parseInput E c := by
  unfold parseInput
  rw [veiled_inBuf_eq hv, Ctx.veiled_hs, ssFrameMaxBody_veiled]

theorem veiled_withInput (c : Ctx Rng SS) (b : Bytes) :
    ({ c.veiled v with inBuf := b } : Ctx Rng SS) =
      ({ c with inBuf := b } : Ctx Rng SS).veiled v := by
  simp only [Ctx.veiled, Ctx.pinUnread, hv, id_eq]

theorem processOne_veiled (c : Ctx Rng SS) :
    processOne E (c.veiled v) = (processOne E c).map (Ctx.veiled · v) := by
  unfold processOne
  simp only [Ctx.veiled_state, veiled_inBuf_eq hv, parseInput_veiled hv, setError_veiled,
    log_veiled, handleFrame_veiled]
  split
  · rfl
  · split
    · rfl
    · split
      · rfl
      · rfl
      · rename_i k body _
        rcases handleFrame E (c.log (.frame (c.inBuf.take k))) body with ⟨d, _ | _⟩
        · rfl
        · simp only [veiledResult, Outcome.map, veiled_inBuf_eq hv]
          exact congrArg Outcome.again (veiled_withInput hv d _)

theorem processInput_veiled (c : Ctx Rng SS) :
    processInput E (c.veiled v) = (processInput E c).veiled v := by
  unfold processInput
  rw [veiled_inBuf_eq hv]
  exact Loop.run_map (processOne_veiled hv) _ c

theorem feedInput_veiled (c : Ctx Rng SS) (data : Bytes) :
    feedInput E (c.veiled v) data = veiledResult v (feedInput E c data) := by
  unfold feedInput
  simp only [Ctx.veiled_state, veiled_inBuf_eq hv]
  split
  · rfl
  · split
    · rfl
    · split
      · rfl
      · rw [veiledResult, ← processInput_veiled hv]
        exact congrArg (fun d => (processInput E d, _)) (veiled_withInput hv c _)

end Input

theorem handshakeHello_veiled :
    handshakeHello E (c.veiled v) = veiledResult v (handshakeHello E c) := by
  unfold handshakeHello
  simp only [Ctx.veiled_role, queueLocalHello_veiled]
  split
  · rcases queueLocalHello E c with ⟨d, rc⟩
    cases rc <;> rfl
  · rfl

theorem handshakeStart_veiled :
    handshakeStart E (c.veiled v) = veiledResult v (handshakeStart E c) := by
  have he : ∀ (pk sk : Key) (rng : Rng),
      ({ c.veiled v with rng := rng, ephPk := pk, ephSk := sk } : Ctx Rng SS) =
        ({ c with rng := rng, ephPk := pk, ephSk := sk } : Ctx Rng SS).veiled v :=
    fun _ _ _ => rfl
  unfold handshakeStart
  simp only [Ctx.veiled_rng, he, handshakeHello_veiled]
  split <;> rfl

end Sodchan
