import Sodchan.Model.Steps

/-! # Effects of the session turns

One inversion lemma for every handler of the handshake and of authentication:
the contexts it can return, with what it has checked on the way.
-/

namespace Sodchan

open ByteString

variable {Rng SS : Type} {E : Env Rng SS} {c : Ctx Rng SS}

def Ctx.compacted (c : Ctx Rng SS) : Ctx Rng SS := { c with outBuf := c.pending, outOff := 0 }

def Ctx.withFrame (c : Ctx Rng SS) (body : Bytes) : Ctx Rng SS :=
  { c with
    outBuf := c.pending ++ rawFrame body
    outOff := 0
    hist := c.hist ++ [.appended (rawFrame body)] }

theorem outAppendFrame_cases (c : Ctx Rng SS) {body : Bytes} (h0 : body ≠ [])
    (hmax : body.length ≤ maxClearFrame) :
    outAppendFrame c body = (c.withFrame body, .ok) ∨
      outAppendFrame c body = (c.compacted, .full) := by
  rw [outAppendFrame_eq c h0 hmax, outAppend_eq]
  split
  · exact Or.inr rfl
  · exact Or.inl rfl

theorem length_helloBody (h : Wire.Hello) : (Wire.helloBody h).length = helloBodyLen := by
  simp [Wire.helloBody, Wire.putU16, Wire.putU32, helloBodyLen]

theorem helloEncode_eq (h : Wire.Hello) :
    Wire.helloEncode h helloBodyLen = .ok (Wire.helloBody h) := by
  simp [Wire.helloEncode, Wire.helloBody]

theorem helloBody_ne_nil (h : Wire.Hello) : Wire.helloBody h ≠ [] := by
  intro hn
  have := length_helloBody h
  rw [hn] at this
  cases this

theorem outAppendFrame_hello (c : Ctx Rng SS) (h : Wire.Hello) :
    outAppendFrame c (Wire.helloBody h) = (c.withFrame (Wire.helloBody h), .ok) ∨
      outAppendFrame c (Wire.helloBody h) = (c.compacted, .full) :=
  outAppendFrame_cases c (helloBody_ne_nil h) (by rw [length_helloBody]; decide)

def Ctx.withPush (c : Ctx Rng SS) (st : SS) (rng : Rng) : Ctx Rng SS :=
  { c with rng := rng, ssPush := st, ssPushReady := true }

def Ctx.enter (c : Ctx Rng SS) (s : State) (h : Hs) : Ctx Rng SS := { c with state := s, hs := h }

/-- What a failed attempt to send the header leaves behind. -/
inductive HeaderLost (c : Ctx Rng SS) : Ctx Rng SS → Prop where
  | noState (rng : Rng) : HeaderLost c { c with rng := rng }
  | noRoom (st : SS) (rng : Rng) : HeaderLost c (c.withPush st rng).compacted

theorem sendSsHeader_cases (E : Env Rng SS) (c : Ctx Rng SS) (key : Key) :
    (∃ st header rng, E.ssInitPush c.rng key = (some (st, header), rng) ∧
      sendSsHeader E c key = ((c.withPush st rng).withFrame header.val, .ok)) ∨
    ∃ c' rc, HeaderLost c c' ∧ rc ≠ .ok ∧ sendSsHeader E c key = (c', rc) := by
  unfold sendSsHeader
  rcases E.ssInitPush c.rng key with ⟨_ | ⟨st, header⟩, rng⟩
  · exact Or.inr ⟨_, _, .noState rng, by decide, rfl⟩
  · have h0 : header.val ≠ [] := fun h => by
      have := header.2
      rw [h] at this
      cases this
    have hmax : header.val.length ≤ maxClearFrame := by rw [header.2]; decide
    rcases outAppendFrame_cases (c.withPush st rng) h0 hmax with h | h
    · exact Or.inl ⟨st, header, rng, rfl, h⟩
    · exact Or.inr ⟨_, _, .noRoom st rng, by decide, h⟩

/-- The stream keys of a client for its ephemeral key pair and the peer's key. -/
def ClientKeys (E : Env Rng SS) (ephPk ephSk peerEphPk kc ks : Key) : Prop :=
  ∃ rx tx, E.kxClientSessionKeys ephPk ephSk peerEphPk = some (rx, tx) ∧
    ssKeyDerive E tx domSsC2s = .ok kc ∧ ssKeyDerive E rx domSsS2c = .ok ks

def ServerKeys (E : Env Rng SS) (ephPk ephSk peerEphPk kc ks : Key) : Prop :=
  ∃ rx tx, E.kxServerSessionKeys ephPk ephSk peerEphPk = some (rx, tx) ∧
    ssKeyDerive E rx domSsC2s = .ok kc ∧ ssKeyDerive E tx domSsS2c = .ok ks

def Ctx.withKeys (c : Ctx Rng SS) (kc ks : Key) : Ctx Rng SS :=
  { c with ssKeyC2s := kc, ssKeyS2c := ks }

def Ctx.withC2s (c : Ctx Rng SS) (kc : Key) : Ctx Rng SS := { c with ssKeyC2s := kc }

theorem deriveSsKeysClient_cases (E : Env Rng SS) (c : Ctx Rng SS) :
    (∃ kc ks, ClientKeys E c.ephPk c.ephSk c.peerEphPk kc ks ∧
      deriveSsKeysClient E c = (c.withKeys kc ks, .ok)) ∨
    ∃ kc rc, rc ≠ .ok ∧ deriveSsKeysClient E c = (c.withC2s kc, rc) := by
  unfold deriveSsKeysClient
  cases hk : E.kxClientSessionKeys c.ephPk c.ephSk c.peerEphPk with
  | none => exact Or.inr ⟨c.ssKeyC2s, _, by decide, rfl⟩
  | some r =>
    obtain ⟨rx, tx⟩ := r
    dsimp only
    cases hc : ssKeyDerive E tx domSsC2s with
    | error => exact Or.inr ⟨c.ssKeyC2s, _, by decide, rfl⟩
    | ok kc =>
      dsimp only
      cases hs : ssKeyDerive E rx domSsS2c with
      | error => exact Or.inr ⟨kc, _, by decide, rfl⟩
      | ok ks => exact Or.inl ⟨kc, ks, ⟨rx, tx, hk, hc, hs⟩, rfl⟩

theorem deriveSsKeysServer_cases (E : Env Rng SS) (c : Ctx Rng SS) :
    (∃ kc ks, ServerKeys E c.ephPk c.ephSk c.peerEphPk kc ks ∧
      deriveSsKeysServer E c = (c.withKeys kc ks, .ok)) ∨
    ∃ kc rc, rc ≠ .ok ∧ deriveSsKeysServer E c = (c.withC2s kc, rc) := by
  unfold deriveSsKeysServer
  cases hk : E.kxServerSessionKeys c.ephPk c.ephSk c.peerEphPk with
  | none => exact Or.inr ⟨c.ssKeyC2s, _, by decide, rfl⟩
  | some r =>
    obtain ⟨rx, tx⟩ := r
    dsimp only
    cases hc : ssKeyDerive E rx domSsC2s with
    | error => exact Or.inr ⟨c.ssKeyC2s, _, by decide, rfl⟩
    | ok kc =>
      dsimp only
      cases hs : ssKeyDerive E tx domSsS2c with
      | error => exact Or.inr ⟨kc, _, by decide, rfl⟩
      | ok ks => exact Or.inl ⟨kc, ks, ⟨rx, tx, hk, hc, hs⟩, rfl⟩

theorem clientTakeHello_eq (c : Ctx Rng SS) (h : Wire.Hello) :
    clientTakeHello c h = { c with
      serverIdPk := if c.acceptAnyServerPk then h.idPk else c.serverIdPk
      haveServerIdPk := c.acceptAnyServerPk || c.haveServerIdPk
      peerEphPk := h.ephPk
      peerIdPk := h.idPk
      havePeerEph := true
      havePeerId := true
      tHello := Wire.buildTHello protoVersion suiteV1 c.ephPk h.ephPk h.idPk
      haveTHello := true } := by
  cases ha : c.acceptAnyServerPk <;> simp [clientTakeHello, ha]

def Ctx.verifiedServer (c : Ctx Rng SS) (h : Wire.Hello) : Ctx Rng SS :=
  emitHelloReceived ((clientTakeHello c h).log (.helloVerified h))

theorem verifiedServer_eq (c : Ctx Rng SS) (h : Wire.Hello) :
    ∃ r o pk, (o = .queued (.helloReceived pk) ∨ o = .dropped (.helloReceived pk)) ∧
      c.verifiedServer h = { clientTakeHello c h with
        events := r, hist := c.hist ++ [.helloVerified h] ++ [o] } := by
  rw [Ctx.verifiedServer, emitHelloReceived, emit_eq, clientTakeHello_eq]
  exact ⟨_, _, _, emitOcc_cases _ _, rfl⟩

/-- A server HELLO that a client accepts: under the pinned key, unless any key will do, and with a
signature over the transcript with the client's ephemeral key. -/
structure HelloTrusted (E : Env Rng SS) (c : Ctx Rng SS) (h : Wire.Hello) : Prop where
  pinned : c.acceptAnyServerPk ∨ c.haveServerIdPk ∧ h.idPk = c.serverIdPk
  signed : E.signVerifyDetached h.idSig
    (Wire.buildTHello protoVersion suiteV1 c.ephPk h.ephPk h.idPk).val h.idPk

inductive ClientHello (E : Env Rng SS) (c : Ctx Rng SS) (h : Wire.Hello) :
    Ctx Rng SS × Bool → Prop where
  | refused (msg : String) (hm : msg ∉ recordErrors := by decide) :
      ClientHello E c h (setError c .protocol msg, false)
  | forged (msg : String) (hm : msg ∉ recordErrors := by decide) :
      ClientHello E c h (setError (clientTakeHello c h) .crypto msg, false)
  | keyless (kc : Key) (msg : String) (ht : HelloTrusted E c h)
      (hm : msg ∉ recordErrors := by decide) :
      ClientHello E c h (setError ((c.verifiedServer h).withC2s kc) .crypto msg, false)
  | stuck (kc ks : Key) (c' : Ctx Rng SS) (msg : String) (ht : HelloTrusted E c h)
      (hl : HeaderLost ((c.verifiedServer h).withKeys kc ks) c')
      (hm : msg ∉ recordErrors := by decide) : ClientHello E c h (setError c' .full msg, false)
  | accepted (kc ks : Key) (st : SS) (header : SsHeader) (rng : Rng) :
      HelloTrusted E c h →
      ClientKeys E c.ephPk c.ephSk h.ephPk kc ks →
      E.ssInitPush c.rng kc = (some (st, header), rng) →
      ClientHello E c h
        (((((c.verifiedServer h).withKeys kc ks).withPush st rng).withFrame header.val).enter
          .ssHeader .waitPeerSs, true)

theorem clientFinishHello_cases (E : Env Rng SS) (c : Ctx Rng SS) :
    (∃ kc msg, msg ∉ recordErrors ∧
      clientFinishHello E c = (setError (c.withC2s kc) .crypto msg, false)) ∨
    ∃ kc ks, ClientKeys E c.ephPk c.ephSk c.peerEphPk kc ks ∧
      ((∃ c' msg, HeaderLost (c.withKeys kc ks) c' ∧ msg ∉ recordErrors ∧
        clientFinishHello E c = (setError c' .full msg, false)) ∨
      ∃ st header rng, E.ssInitPush c.rng kc = (some (st, header), rng) ∧
        clientFinishHello E c = ((((c.withKeys kc ks).withPush st rng).withFrame header.val).enter
          .ssHeader .waitPeerSs, true)) := by
  unfold clientFinishHello
  obtain ⟨kc, ks, hk, he⟩ | ⟨kc, rc, hrc, he⟩ := deriveSsKeysClient_cases E c
  · rw [he]
    refine Or.inr ⟨kc, ks, hk, ?_⟩
    dsimp only
    unfold clientSendSsHeaderC2s
    obtain ⟨st, header, rng, hi, hs⟩ | ⟨c', rc, hl, hrc, hs⟩ :=
      sendSsHeader_cases E (c.withKeys kc ks) (c.withKeys kc ks).ssKeyC2s
    · rw [hs]
      exact Or.inr ⟨st, header, rng, hi, rfl⟩
    · rw [hs]
      exact Or.inl ⟨c', "ss header c2s enqueue", hl, by decide,
        by cases rc <;> first | exact absurd rfl hrc | rfl⟩
  · rw [he]
    exact Or.inl ⟨kc, "kx client failed", by decide,
      by cases rc <;> first | exact absurd rfl hrc | rfl⟩

theorem clientHandleHello_effect (E : Env Rng SS) (c : Ctx Rng SS) (h : Wire.Hello) :
    ClientHello E c h (clientHandleHello E c h) := by
  unfold clientHandleHello
  split
  · exact .refused _
  · split
    · exact .refused _
    · rename_i hpin
      have hpin' : c.acceptAnyServerPk ∨ c.haveServerIdPk ∧ h.idPk = c.serverIdPk := by
        by_contra hn
        exact hpin (by grind)
      dsimp only
      split
      · exact .forged _
      · rename_i hsig
        rw [not_not, clientTakeHello_eq] at hsig
        change ClientHello E c h (clientFinishHello E (c.verifiedServer h))
        have hf : c.verifiedServer h =
            emitHelloReceived ((clientTakeHello c h).log (.helloVerified h)) := rfl
        obtain ⟨kc, msg, hm, he⟩ |
          ⟨kc, ks, hk, ⟨c', msg, hl, hm, he⟩ | ⟨st, header, rng, hi, he⟩⟩ :=
          clientFinishHello_cases E (c.verifiedServer h) <;> rw [he]
        · exact .keyless kc msg ⟨hpin', hsig⟩ hm
        · exact .stuck kc ks c' msg ⟨hpin', hsig⟩ hl hm
        · refine .accepted kc ks st header rng ⟨hpin', hsig⟩ ?_ ?_
          · rwa [hf, emitHelloReceived, emit_eq, clientTakeHello_eq] at hk
          · rwa [hf, emitHelloReceived, emit_eq, clientTakeHello_eq] at hi

def Ctx.sawClient (c : Ctx Rng SS) (h : Wire.Hello) : Ctx Rng SS :=
  emitHelloReceived (serverTakeHello c h)

def Ctx.helloQueued (c : Ctx Rng SS) (sig : Sig) : Ctx Rng SS :=
  (serverTranscript c).withFrame (Wire.helloBody (serverHello (serverTranscript c) sig))

inductive ServerHello (E : Env Rng SS) (c : Ctx Rng SS) (h : Wire.Hello) :
    Ctx Rng SS × Bool → Prop where
  | refused (msg : String) (hm : msg ∉ recordErrors := by decide) :
      ServerHello E c h (setError c .protocol msg, false)
  | unsigned (msg : String) (hm : msg ∉ recordErrors := by decide) :
      ServerHello E c h (setError (serverTranscript (c.sawClient h)) .crypto msg, false)
  | noRoom (msg : String) (hm : msg ∉ recordErrors := by decide) :
      ServerHello E c h (setError (serverTranscript (c.sawClient h)).compacted .crypto msg, false)
  | keyless (sig : Sig) (kc : Key) (msg : String) (hm : msg ∉ recordErrors := by decide) :
      ServerHello E c h (setError (((c.sawClient h).helloQueued sig).withC2s kc) .crypto msg, false)
  | accepted (sig : Sig) (kc ks : Key) :
      E.signDetached (serverTranscript (c.sawClient h)).tHello.val c.serverIdSk = some sig →
      ServerKeys E c.ephPk c.ephSk h.ephPk kc ks →
      ServerHello E c h ((((c.sawClient h).helloQueued sig).withKeys kc ks).enter
        .ssHeader .waitPeerSs, true)

theorem serverTakeHello_eq (c : Ctx Rng SS) (h : Wire.Hello) :
    serverTakeHello c h = { c with
      peerEphPk := h.ephPk
      havePeerEph := true
      peerIdPk := if h.idPk = BytesN.zero 32 then c.peerIdPk else h.idPk
      havePeerId := if h.idPk = BytesN.zero 32 then c.havePeerId else true } := by
  unfold serverTakeHello
  by_cases hz : h.idPk = BytesN.zero 32 <;> simp [hz]

theorem sawClient_eq (c : Ctx Rng SS) (h : Wire.Hello) :
    ∃ r o pk, (o = .queued (.helloReceived pk) ∨ o = .dropped (.helloReceived pk)) ∧
      c.sawClient h = { serverTakeHello c h with events := r, hist := c.hist ++ [o] } := by
  rw [Ctx.sawClient, emitHelloReceived, emit_eq, serverTakeHello_eq]
  exact ⟨_, _, _, emitOcc_cases _ _, rfl⟩

theorem queueLocalHello_server (E : Env Rng SS) {c : Ctx Rng SS} (hr : c.role = .server)
    (hp : c.havePeerEph) :
    (∃ sig, E.signDetached (serverTranscript c).tHello.val c.serverIdSk = some sig ∧
      queueLocalHello E c = (c.helloQueued sig, .ok)) ∨
    (∃ rc, rc ≠ .ok ∧ queueLocalHello E c = (serverTranscript c, rc)) ∨
    ∃ rc, rc ≠ .ok ∧ queueLocalHello E c = ((serverTranscript c).compacted, rc) := by
  unfold queueLocalHello
  rw [hr]
  dsimp only
  rw [if_neg (by simp [hp])]
  cases hs : E.signDetached (serverTranscript c).tHello.val (serverTranscript c).serverIdSk with
  | none => exact Or.inr (Or.inl ⟨_, by decide, rfl⟩)
  | some sig =>
    simp only [helloEncode_eq]
    rcases outAppendFrame_hello (serverTranscript c) (serverHello (serverTranscript c) sig) with
      ho | ho <;> rw [ho]
    · exact Or.inl ⟨sig, hs, rfl⟩
    · exact Or.inr (Or.inr ⟨_, by decide, rfl⟩)

theorem serverHandleHello_effect (E : Env Rng SS) {c : Ctx Rng SS} (hr : c.role = .server)
    (h : Wire.Hello) : ServerHello E c h (serverHandleHello E c h) := by
  unfold serverHandleHello
  split
  · exact .refused _
  · have hr' : (c.sawClient h).role = .server := by
      rw [Ctx.sawClient, emitHelloReceived, emit_eq, serverTakeHello_eq]
      exact hr
    have hp : (c.sawClient h).havePeerEph := by
      rw [Ctx.sawClient, emitHelloReceived, emit_eq, serverTakeHello_eq]
    generalize hq : queueLocalHello E _ = r
    obtain ⟨sig, hs, he⟩ | ⟨rc, hrc, he⟩ | ⟨rc, hrc, he⟩ := queueLocalHello_server E hr' hp <;>
      obtain rfl := hq.symm.trans he
    · dsimp only
      obtain ⟨kc, ks, hk, hd⟩ | ⟨kc, rc, hrc, hd⟩ :=
        deriveSsKeysServer_cases E ((c.sawClient h).helloQueued sig) <;> rw [hd]
      · refine .accepted sig kc ks ?_ ?_
        · rw [Ctx.sawClient, emitHelloReceived, emit_eq, serverTakeHello_eq] at hs ⊢
          exact hs
        · rw [Ctx.sawClient, emitHelloReceived, emit_eq, serverTakeHello_eq] at hk
          exact hk
      · cases rc <;> first | exact absurd rfl hrc | exact .keyless sig kc _
    · cases rc <;> first | exact absurd rfl hrc | exact .unsigned _
    · cases rc <;> first | exact absurd rfl hrc | exact .noRoom _

def Ctx.withPull (c : Ctx Rng SS) (st : SS) : Ctx Rng SS :=
  { c with ssPull := st, ssPullReady := true }

def Ctx.clientKx (c : Ctx Rng SS) (st : SS) : Ctx Rng SS :=
  emitKxComplete ((c.withPull st).enter .auth .done)

/-- What a client signs and sends to prove its device identity. -/
structure DeviceProof (E : Env Rng SS) (c : Ctx Rng SS) (pdu : Bytes) : Prop where
  role : c.role = .client
  haveSk : c.haveClientIdSk
  havePk : c.haveClientIdPk
  haveT : c.haveTHello
  signed : ∃ user dev tAuth sig, user = (c.clientUsername.getD []).take userMax ∧
    dev = (c.clientDeviceId.getD []).take deviceIdMax ∧
    Wire.buildTAuth c.tHello c.clientIdPk user dev 512 = .ok tAuth ∧
    E.signDetached tAuth c.clientIdSk = some sig ∧
    Wire.authDeviceEncode c.clientIdPk sig user dev 512 = .ok pdu

inductive SendAuthDevice (E : Env Rng SS) (c : Ctx Rng SS) : Ctx Rng SS × Rc → Prop where
  | skipped : c.role ≠ .client ∨ c.authSent ∨ ¬ c.haveClientIdSk ∨ ¬ c.haveClientIdPk ∨
      ¬ c.haveTHello → SendAuthDevice E c (c, .ok)
  | failed (c' : Ctx Rng SS) (rc : Rc) : rc ≠ .ok → (c' = c ∨ c' = c.compacted) →
      SendAuthDevice E c (c', rc)
  | sent (pdu : Bytes) (st : SS) (ct : Bytes) : DeviceProof E c pdu → SendRoom E c pdu →
      E.ssPush c.ssPush pdu tagMessage = some (st, ct) →
      SendAuthDevice E c ({ c.pushed pdu st ct with authSent := true }, .ok)

theorem clientSendAuthDevice_effect (E : Env Rng SS) (c : Ctx Rng SS) :
    SendAuthDevice E c (clientSendAuthDevice E c) := by
  unfold clientSendAuthDevice
  split
  · rename_i hrole
    exact .skipped (hrole.imp_right Or.inl)
  · rename_i hrole
    split
    · rename_i hhave
      exact .skipped (Or.inr (Or.inr hhave))
    · rename_i hhave
      push Not at hrole hhave
      dsimp only
      split
      · exact .failed _ _ (by decide) (Or.inl rfl)
      · rename_i tAuth hb
        split
        · exact .failed _ _ (by decide) (Or.inl rfl)
        · rename_i sig hs
          split
          · exact .failed _ _ (by decide) (Or.inl rfl)
          · rename_i pdu he
            have hproof : DeviceProof E c pdu := ⟨hrole.1, hhave.1, hhave.2.1, hhave.2.2,
              _, _, tAuth, sig, rfl, rfl, hb, hs, he⟩
            obtain ⟨st, ct, hroom, hpush, h⟩ | ⟨b, o, rc, -, ho, hrc, h⟩ :=
              ssSendPdu_cases E c pdu
            · rw [h]
              exact .sent pdu st ct hproof hroom hpush
            · have hc : { c with outBuf := b, outOff := o } = c ∨
                  { c with outBuf := b, outOff := o } = c.compacted := by
                rcases ho with ⟨rfl, rfl⟩ | ⟨rfl, rfl⟩
                · exact Or.inl rfl
                · exact Or.inr rfl
              rw [h]
              cases rc <;> first | exact absurd rfl hrc | exact .failed _ _ (by decide) hc

inductive ClientHeader (E : Env Rng SS) (c : Ctx Rng SS) (header : SsHeader) :
    Ctx Rng SS × Bool → Prop where
  | refused (msg : String) (hm : msg ∉ recordErrors := by decide) :
      ClientHeader E c header (setError c .crypto msg, false)
  | unsent (st : SS) (c' : Ctx Rng SS) (msg : String)
      (hi : E.ssInitPull header c.ssKeyS2c = some st)
      (hc : c' = c.clientKx st ∨ c' = (c.clientKx st).compacted)
      (hm : msg ∉ recordErrors := by decide) :
      ClientHeader E c header (setError c' .crypto msg, false)
  | silent (st : SS) : E.ssInitPull header c.ssKeyS2c = some st →
      c.role ≠ .client ∨ c.authSent ∨ ¬ c.haveClientIdSk ∨ ¬ c.haveClientIdPk ∨
        ¬ c.haveTHello → ClientHeader E c header (c.clientKx st, true)
  | sent (st : SS) (pdu : Bytes) (st' : SS) (ct : Bytes) :
      E.ssInitPull header c.ssKeyS2c = some st → DeviceProof E (c.clientKx st) pdu →
      SendRoom E (c.clientKx st) pdu → E.ssPush c.ssPush pdu tagMessage = some (st', ct) →
      ClientHeader E c header ({ (c.clientKx st).pushed pdu st' ct with authSent := true }, true)

theorem clientKx_eq (c : Ctx Rng SS) (st : SS) :
    c.clientKx st = { c with
      ssPull := st, ssPullReady := true, hs := .done, state := .auth
      events := emitRing c .kxComplete, hist := c.hist ++ [emitOcc c .kxComplete] } := by
  rw [Ctx.clientKx, emitKxComplete, emit_eq]
  rfl

theorem clientHandleSsHeader_effect (E : Env Rng SS) (c : Ctx Rng SS) (header : SsHeader) :
    ClientHeader E c header (clientHandleSsHeader E c header) := by
  unfold clientHandleSsHeader
  split
  · exact .refused _
  · rename_i st hi
    have h := clientSendAuthDevice_effect E (c.clientKx st)
    unfold clientTakeSsHeader
    extract_lets c₁ c₂
    generalize hs : clientSendAuthDevice E c₂ = r
    replace hs : clientSendAuthDevice E (c.clientKx st) = r := hs
    rw [hs] at h
    cases h with
    | skipped hskip =>
      refine .silent st hi ?_
      rwa [clientKx_eq] at hskip
    | failed c' rc hrc hm =>
      cases rc <;> first | exact absurd rfl hrc | exact .unsent st c' _ hi hm
    | sent pdu st' ct hp hr hpush =>
      refine .sent st pdu st' ct hi hp hr ?_
      rwa [clientKx_eq] at hpush

inductive ServerHeader (E : Env Rng SS) (c : Ctx Rng SS) (header : SsHeader) :
    Ctx Rng SS × Bool → Prop where
  | refused (msg : String) (hm : msg ∉ recordErrors := by decide) :
      ServerHeader E c header (setError c .crypto msg, false)
  | stuck (st : SS) (c' : Ctx Rng SS) (msg : String) (hl : HeaderLost (c.withPull st) c')
      (hm : msg ∉ recordErrors := by decide) :
      ServerHeader E c header (setError c' .full msg, false)
  | accepted (st st' : SS) (own : SsHeader) (rng : Rng) :
      E.ssInitPull header c.ssKeyC2s = some st →
      E.ssInitPush c.rng c.ssKeyS2c = (some (st', own), rng) →
      ServerHeader E c header
        (emitKxComplete ((((c.withPull st).withPush st' rng).withFrame own.val).enter
          .auth .done), true)

theorem serverHandleSsHeader_effect (E : Env Rng SS) (c : Ctx Rng SS) (header : SsHeader) :
    ServerHeader E c header (serverHandleSsHeader E c header) := by
  unfold serverHandleSsHeader
  split
  · exact .refused _
  · rename_i st hi
    unfold serverTakeSsHeader
    extract_lets c₁
    generalize hr : serverSendSsHeaderS2c E c₁ = r
    obtain ⟨st', own, rng, hp, hs⟩ | ⟨c', rc, hl, hrc, hs⟩ :=
      sendSsHeader_cases E (c.withPull st) c.ssKeyS2c <;> obtain rfl := hr.symm.trans hs
    · exact .accepted st st' own rng hi hp
    · cases rc <;> first | exact absurd rfl hrc | exact .stuck st c' _ hl

/-! ### AUTH -/

/-- A verified AUTH_DEVICE at a server that waits for one. -/
structure DeviceVerified (E : Env Rng SS) (c : Ctx Rng SS) (d : Wire.AuthDevice)
    (user device : Bytes) : Prop where
  role : c.role = .server
  waiting : c.authAwaitingDecide = false ∧ c.authComplete = false ∧ c.authDecided = false
  haveT : c.haveTHello
  verified : ∃ tAuth, Wire.buildTAuth c.tHello d.clientIdPk user device 512 = .ok tAuth ∧
    E.signVerifyDetached d.clientSig tAuth d.clientIdPk

inductive HandleAuthDevice (E : Env Rng SS) (c : Ctx Rng SS) (plain : Bytes) :
    Ctx Rng SS × Bool → Prop where
  | refused (code : Rc) (msg : String) (hm : msg ∉ recordErrors := by decide) :
      HandleAuthDevice E c plain (setError c code msg, false)
  | forged (msg msg' : String) (hr : c.role = .server)
      (hf : c.authAwaitingDecide = false ∧ c.authComplete = false ∧ c.authDecided = false)
      (hm : msg' ∉ recordErrors := by decide) :
      HandleAuthDevice E c plain (setError (emitAuthFailed
        (serverSendAuthFail E (c.log .authBadSig)).1 .badSig msg) .crypto msg', false)
  | accepted (d : Wire.AuthDevice) (user device : Bytes) :
      Wire.authDeviceDecode plain (userMax + 1) (deviceIdMax + 1) = .ok d →
      DeviceVerified E c d user device →
      user = d.username.take d.usernameLen ∧ device = d.deviceId.take d.deviceIdLen →
      HandleAuthDevice E c plain (takeAuthDevice E c d user device, true)

theorem handleAuthDevicePdu_effect (E : Env Rng SS) (c : Ctx Rng SS) (plain : Bytes) :
    HandleAuthDevice E c plain (handleAuthDevicePdu E c plain) := by
  unfold handleAuthDevicePdu
  split
  · exact .refused _ _
  · rename_i hrole
    rw [not_not] at hrole
    split
    · exact .refused _ _
    · rename_i hdup
      have hw : c.authAwaitingDecide = false ∧ c.authComplete = false ∧ c.authDecided = false := by
        simpa using hdup
      split
      · exact .refused _ _
      · rename_i ht
        rw [not_not] at ht
        split
        · exact .refused _ _
        · rename_i d hd
          dsimp only
          split
          · exact .refused _ _
          · rename_i tAuth hb
            split
            · exact .forged _ _ hrole hw
            · rename_i hv
              rw [not_not] at hv
              exact .accepted d _ _ hd ⟨hrole, hw, ht, tAuth, hb, hv⟩ ⟨rfl, rfl⟩

inductive HandleAuthOk (c : Ctx Rng SS) : Ctx Rng SS × Bool → Prop where
  | refused (msg : String) (hm : msg ∉ recordErrors := by decide) :
      HandleAuthOk c (setError c .protocol msg, false)
  | accepted : c.role = .client →
      HandleAuthOk c (emitAuthenticated { c with authComplete := true, state := .ready }, true)

theorem handleAuthOkPdu_effect (c : Ctx Rng SS) (plain : Bytes) :
    HandleAuthOk c (handleAuthOkPdu c plain) := by
  unfold handleAuthOkPdu
  split
  · exact .refused _
  · rename_i hrole
    split
    · exact .refused _
    · refine .accepted ?_
      cases hr : c.role with
      | client => rfl
      | server => exact absurd (by rw [hr]; rintro ⟨⟩) hrole

/-- The guards of `authDecideEx`. -/
structure MayDecide (c : Ctx Rng SS) : Prop where
  role : c.role = .server
  awaiting : c.authAwaitingDecide
  undecided : c.authDecided = false
  state : c.state = .auth

inductive Decide (E : Env Rng SS) (c : Ctx Rng SS) (accept : Bool) : Ctx Rng SS × Rc → Prop where
  | refused (rc : Rc) : rc ≠ .ok → Decide E c accept (c, rc)
  | unsent (c' : Ctx Rng SS) (msg : String) (hmay : MayDecide c)
      (hs : ∀ p, Moves E p (takeDecision c accept) c') (hm : msg ∉ recordErrors := by decide) :
      Decide E c accept (setError c' .full msg, .full)
  | accepted (c' : Ctx Rng SS) : MayDecide c → accept = true →
      (∀ p, Moves E p (takeDecision c accept) c') → c'.state = .auth →
      Decide E c accept (emitAuthenticated { c' with authComplete := true, state := .ready }, .ok)
  | rejected (c' : Ctx Rng SS) (msg msg' : String) (hmay : MayDecide c) (ha : accept = false)
      (hs : ∀ p, Moves E p (takeDecision c accept) c') (hm : msg' ∉ recordErrors := by decide) :
      Decide E c accept (setError (emitAuthFailed c' .policy msg) .rejected msg', .ok)

theorem serverSendAuthFail_moves {p : Powers} (he : c.state ≠ .error) (hc : c.state ≠ .closed) :
    Moves E p c (serverSendAuthFail E c).1 := by
  unfold serverSendAuthFail
  split
  · exact .refl
  · rename_i h
    exact Moves.send he hc ((Wire.authFailEncode_length h).trans (by decide))

theorem serverSendAuthOk_moves {p : Powers} (he : c.state ≠ .error) (hc : c.state ≠ .closed)
    (claims : Bytes) : Moves E p c (serverSendAuthOk E c claims).1 := by
  unfold serverSendAuthOk
  split
  · exact .refl
  · rename_i h
    exact Moves.send he hc ((Wire.authOkEncode_length h).trans (by decide))

theorem serverSendAuthOk_state (E : Env Rng SS) (c : Ctx Rng SS) (claims : Bytes) :
    (serverSendAuthOk E c claims).1.state = c.state := by
  unfold serverSendAuthOk
  split
  · rfl
  · exact ssSendPdu_state E c _

theorem authDecideEx_effect (E : Env Rng SS) (c : Ctx Rng SS) (accept : Bool) (claims : Arg) :
    Decide E c accept (authDecideEx E c accept claims) := by
  unfold authDecideEx
  split
  · exact .refused _ (by decide)
  · rename_i hrole
    split
    · exact .refused _ (by decide)
    · rename_i haw
      split
      · exact .refused _ (by decide)
      · rename_i hst
        rw [not_not] at hrole hst
        have hmay : MayDecide c := ⟨hrole, by grind, by grind, hst⟩
        have he : (takeDecision c accept).state ≠ .error := by simp [takeDecision, Ctx.log, hst]
        have hc : (takeDecision c accept).state ≠ .closed := by simp [takeDecision, Ctx.log, hst]
        split
        · exact .refused _ (by decide)
        · split
          · exact .refused _ (by decide)
          · split
            · rename_i hacc
              have hm : ∀ p, Moves E p (takeDecision c accept)
                  (serverSendAuthOk E (takeDecision c accept) claims.data).1 :=
                fun p => serverSendAuthOk_moves he hc _
              have hst' := (serverSendAuthOk_state E (takeDecision c accept) claims.data).trans hst
              split <;> rename_i hp <;> rw [hp] at hm hst'
              · exact .accepted _ hmay hacc hm hst'
              · exact .unsent _ _ hmay hm
            · rename_i hacc
              have hm : ∀ p, Moves E p (takeDecision c accept)
                  (serverSendAuthFail E (takeDecision c accept)).1 :=
                fun p => serverSendAuthFail_moves he hc
              split <;> rename_i hp <;> rw [hp] at hm
              · exact .rejected _ _ _ hmay (by simpa using hacc) hm
              · exact .unsent _ _ hmay hm

def Ctx.withEph (c : Ctx Rng SS) (pk sk : Key) (rng : Rng) : Ctx Rng SS :=
  { c with rng := rng, ephPk := pk, ephSk := sk }

/-- The context at the start of a session: a client has queued its HELLO. -/
def Ctx.started (c : Ctx Rng SS) : Ctx Rng SS :=
  match c.role with
  | .client =>
    { c.withFrame (Wire.helloBody (clientHello c)) with state := .hello, hs := .waitPeerHello }
  | .server => { c with state := .hello, hs := .waitPeerHello }

theorem outAppendFrame_room (c : Ctx Rng SS) {body : Bytes} (h0 : body ≠ [])
    (hmax : body.length ≤ maxClearFrame) (hr : 4 + body.length ≤ outBufSize - c.pending.length) :
    outAppendFrame c body = (c.withFrame body, .ok) := by
  rw [outAppendFrame_eq c h0 hmax, outAppend_eq, if_neg (by rw [length_rawFrame]; omega)]
  rfl

theorem handshakeHello_eq (E : Env Rng SS) {c : Ctx Rng SS} (hp : c.pending = []) :
    handshakeHello E c = (c.started, .ok) := by
  unfold handshakeHello Ctx.started
  cases hr : c.role with
  | server => rfl
  | client =>
    have hq : queueLocalHello E c = (c.withFrame (Wire.helloBody (clientHello c)), .ok) := by
      unfold queueLocalHello
      rw [hr]
      simp only [helloEncode_eq]
      refine outAppendFrame_room _ (helloBody_ne_nil _) (by rw [length_helloBody]; decide) ?_
      rw [hp, length_helloBody]
      decide
    rw [hq]

theorem handshakeStart_cases (E : Env Rng SS) {c : Ctx Rng SS} (hp : c.pending = []) :
    (∃ rng, E.kxKeypair c.rng = (none, rng) ∧
      handshakeStart E c = ({ c with rng := rng }, .crypto)) ∨
    ∃ pk sk rng, E.kxKeypair c.rng = (some (pk, sk), rng) ∧
      handshakeStart E c = ((c.withEph pk sk rng).started, .ok) := by
  unfold handshakeStart
  rcases hk : E.kxKeypair c.rng with ⟨_ | ⟨pk, sk⟩, rng⟩
  · exact Or.inl ⟨rng, rfl, rfl⟩
  · exact Or.inr ⟨pk, sk, rng, rfl, handshakeHello_eq E (c := c.withEph pk sk rng) hp⟩

/-- A reset starts a new session, or keeps the old state when no key pair can be made. -/
theorem reset_cases (E : Env Rng SS) (c : Ctx Rng SS) :
    (∃ rng, E.kxKeypair c.rng = (none, rng) ∧ reset E c = { wipe c with rng := rng }) ∨
    ∃ pk sk rng, E.kxKeypair c.rng = (some (pk, sk), rng) ∧
      reset E c = ((wipe c).withEph pk sk rng).started := by
  unfold reset
  obtain ⟨rng, hk, h⟩ | ⟨pk, sk, rng, hk, h⟩ := handshakeStart_cases E (c := wipe c) rfl <;> rw [h]
  · exact Or.inl ⟨rng, hk, rfl⟩
  · exact Or.inr ⟨pk, sk, rng, hk, rfl⟩

theorem create_eq_some {role : Role} {cfg : Option Config} {rng : Rng} {memOk : Bool}
    (h : create E role cfg rng memOk = some c) :
    ∃ pk sk rng', E.kxKeypair rng = (some (pk, sk), rng') ∧
      c = ((applyConfigDefaults E role (cfg.getD {}) rng (newEvents (cfg.getD {}))).withEph
        pk sk rng').started := by
  unfold create at h
  dsimp only at h
  obtain ⟨rng', hk, hs⟩ | ⟨pk, sk, rng', hk, hs⟩ := handshakeStart_cases E
    (c := applyConfigDefaults E role (cfg.getD {}) rng (newEvents (cfg.getD {}))) rfl
  · rw [hs] at h
    split_ifs at h
  · rw [hs] at h
    refine ⟨pk, sk, rng', hk, ?_⟩
    split_ifs at h
    exact (Option.some.inj h).symm

end Sodchan
