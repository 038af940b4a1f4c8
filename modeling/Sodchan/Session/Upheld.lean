import Sodchan.Channel.Deals
import Sodchan.Session.Silence

/-! # What the engine is built from

Every handler and every call is a chain of a few primitives and of updates that
touch neither the buffers, nor the error text, nor the history. A relation that
holds of these holds of every step. Whether the branches for impossible states
are among the steps is left open.
-/

namespace Sodchan

open ByteString

variable {Rng SS : Type} {E : Env Rng SS} {c c' c'' : Ctx Rng SS}

/-- The messages of the branches that guard against an impossible state. -/
def internalErrors : List String :=
  ["ss pull not ready", "missing t_hello", "pdu in wrong state", "bad hs state"]

/-- What hardly any step touches by itself: the buffers, the error text, the history, the settings,
the key pair and the server key, unless the context is that of a client that accepts any. -/
structure Outline where
  outBuf : Bytes
  outOff : ℕ
  inBuf : Bytes
  errorMsg : String
  hist : List Occ
  settings : Settings
  ephPk : Key
  ephSk : Key
  cap : ℕ
  pin : Option (Key × Bool)

def Ctx.outline (c : Ctx Rng SS) : Outline where
  outBuf := c.outBuf
  outOff := c.outOff
  inBuf := c.inBuf
  errorMsg := c.errorMsg
  hist := c.hist
  settings := c.settings
  ephPk := c.ephPk
  ephSk := c.ephSk
  cap := c.events.cap
  pin := if c.acceptAnyServerPk ∧ c.role = .client then none
    else some (c.serverIdPk, c.haveServerIdPk)

/-- None of the branches for impossible states is taken. -/
structure Possible (c : Ctx Rng SS) : Prop where
  start : c.hs ≠ .start
  pull : c.hs = .done → c.ssPullReady
  state : c.hs = .done → c.state = .auth ∨ c.state = .ready ∨ c.state = .draining
  tHello : c.state = .auth → c.haveTHello

/-- What the record layer itself leaves in the history. -/
def Occ.isFlow : Occ → Bool
  | .appended _ | .sent _ | .frame _ | .pulled .. => true
  | _ => false

/-- A relation that all primitives but the fetching of output respect; `possible` tells whether the
branches for impossible states are ruled out. -/
structure Upheld (E : Env Rng SS) (possible : Prop) (R : Ctx Rng SS → Ctx Rng SS → Prop) :
    Prop where
  trans : ∀ {c c' c''}, R c c' → R c' c'' → R c c''
  same : ∀ {c c'}, c'.outline = c.outline → R c c'
  log : ∀ c o, o.isFlow = false → R c (c.log o)
  emit : ∀ c ev, R c (emit c ev)
  error : ∀ c code msg, (possible → msg ∉ internalErrors) → R c (setError c code msg)
  frame : ∀ c body, R c (outAppendFrame c body).1
  send : ∀ c pdu, R c (ssSendPdu E c pdu).1
  pull : ∀ c st ct plain tag, PlainFits c ct → E.ssPull c.ssPull ct = some (st, plain, tag) →
    R c (c.afterPull st ct plain tag)

namespace Upheld

variable {possible : Prop} {R : Ctx Rng SS → Ctx Rng SS → Prop}

theorem refl (h : Upheld E possible R) (c : Ctx Rng SS) : R c c := h.same rfl

theorem fail (h : Upheld E possible R) {d : Ctx Rng SS} (hd : R c d) (code : Rc) (msg : String)
    (hm : msg ∉ internalErrors) : R c (setError d code msg) :=
  h.trans hd (h.error d code msg fun _ => hm)

theorem free (h : Upheld E possible R) (c : Ctx Rng SS) (i : Fin maxChannelSlots) :
    R c (chFree c i) := by
  unfold chFree
  split
  · exact h.refl c
  · exact h.same rfl

theorem respected (h : Upheld E possible R) : Respected E True R where
  refl := h.refl
  trans := h.trans
  emit := h.emit
  error c code msg hm := by
    refine h.error c code msg fun _ => ?_
    revert msg
    decide
  noChannel c r := h.log c _ rfl
  slot _ _ _ := h.same rfl
  free := h.free
  close _ := h.same rfl
  send _ := h.send
  alloc _ c d i ha := by
    obtain ⟨-, -, rfl⟩ := chAlloc_eq_some ha
    exact h.same rfl

theorem deriveSsKeysClient (h : Upheld E possible R) (c : Ctx Rng SS) :
    R c (deriveSsKeysClient E c).1 := by
  obtain ⟨kc, ks, -, he⟩ | ⟨kc, rc, -, he⟩ := deriveSsKeysClient_cases E c <;> rw [he] <;>
    exact h.same rfl

theorem deriveSsKeysServer (h : Upheld E possible R) (c : Ctx Rng SS) :
    R c (deriveSsKeysServer E c).1 := by
  obtain ⟨kc, ks, -, he⟩ | ⟨kc, rc, -, he⟩ := deriveSsKeysServer_cases E c <;> rw [he] <;>
    exact h.same rfl

theorem sendSsHeader (h : Upheld E possible R) (c : Ctx Rng SS) (key : Key) :
    R c (sendSsHeader E c key).1 := by
  unfold Sodchan.sendSsHeader
  split
  · exact h.same rfl
  · rename_i st header rng _
    have ht : R c { c with rng := rng, ssPush := st, ssPushReady := true } :=
      h.same rfl
    exact h.trans ht (h.frame _ _)

theorem queueLocalHello (h : Upheld E possible R) (c : Ctx Rng SS) :
    R c (queueLocalHello E c).1 := by
  unfold Sodchan.queueLocalHello
  split
  · split
    · exact h.refl c
    · have ht : R c (serverTranscript c) := h.same rfl
      dsimp only
      split
      · exact ht
      · split
        · exact ht
        · exact h.trans ht (h.frame _ _)
  · split
    · exact h.refl c
    · exact h.frame c _

theorem clientFinishHello (h : Upheld E possible R) (c : Ctx Rng SS) :
    R c (clientFinishHello E c).1 := by
  have hkeys := h.deriveSsKeysClient c
  unfold Sodchan.clientFinishHello
  split <;> rename_i hd <;> rw [hd] at hkeys
  · rename_i d
    have hsend : R d (clientSendSsHeaderC2s E d).1 := h.sendSsHeader d d.ssKeyC2s
    split <;> rename_i he <;> rw [he] at hsend
    · exact h.trans hkeys (h.trans hsend (h.same rfl))
    · exact h.fail (h.trans hkeys hsend) _ _ (by decide)
  · exact h.fail hkeys _ _ (by decide)

theorem clientHandleHello (h : Upheld E possible R) (hr : c.role = .client) (hello : Wire.Hello) :
    R c (clientHandleHello E c hello).1 := by
  have htake : R c (clientTakeHello c hello) := by
    refine h.same ?_
    rw [clientTakeHello_eq]
    cases ha : c.acceptAnyServerPk with
    | true => simp [Ctx.outline, Ctx.settings, ha, hr]
    | false => simp [Ctx.outline, Ctx.settings, ha]
  unfold Sodchan.clientHandleHello
  split
  · exact h.fail (h.refl c) _ _ (by decide)
  · split
    · exact h.fail (h.refl c) _ _ (by decide)
    · dsimp only
      split
      · exact h.fail htake _ _ (by decide)
      · exact h.trans htake (h.trans (h.log _ (.helloVerified hello) rfl)
          (h.trans (h.emit _ _) (h.clientFinishHello _)))

theorem serverHandleHello (h : Upheld E possible R) (c : Ctx Rng SS) (hello : Wire.Hello) :
    R c (serverHandleHello E c hello).1 := by
  have hseen : R c (emitHelloReceived (serverTakeHello c hello)) := by
    have ht : R c (serverTakeHello c hello) := by
      rw [serverTakeHello_eq]
      exact h.same rfl
    exact h.trans ht (h.emit _ _)
  have hqueue := h.queueLocalHello (emitHelloReceived (serverTakeHello c hello))
  unfold Sodchan.serverHandleHello
  split
  · exact h.fail (h.refl c) _ _ (by decide)
  · split <;> rename_i hd <;> rw [hd] at hqueue
    · rename_i d
      have hkeys := h.deriveSsKeysServer d
      split <;> rename_i he <;> rw [he] at hkeys
      · exact h.trans hseen (h.trans hqueue (h.trans hkeys (h.same rfl)))
      · exact h.fail (h.trans hseen (h.trans hqueue hkeys)) _ _ (by decide)
    · exact h.fail (h.trans hseen hqueue) _ _ (by decide)

theorem handlePeerHello (h : Upheld E possible R) (c : Ctx Rng SS) (body : Bytes) :
    R c (handlePeerHello E c body).1 := by
  unfold Sodchan.handlePeerHello
  split
  · exact h.fail (h.refl c) _ _ (by decide)
  · split
    · rename_i hr
      exact h.clientHandleHello hr _
    · exact h.serverHandleHello c _

theorem clientSendAuthDevice (h : Upheld E possible R) (c : Ctx Rng SS) :
    R c (clientSendAuthDevice E c).1 := by
  unfold Sodchan.clientSendAuthDevice
  split
  · exact h.refl c
  · split
    · exact h.refl c
    · dsimp only
      split
      · exact h.refl c
      · split
        · exact h.refl c
        · split
          · exact h.refl c
          · rename_i pdu _
            have hsend := h.send c pdu
            split <;> rename_i he <;> rw [he] at hsend
            · exact h.trans hsend (h.same rfl)
            · exact hsend

theorem handlePeerSsHeader (h : Upheld E possible R) (c : Ctx Rng SS) (body : Bytes) :
    R c (handlePeerSsHeader E c body).1 := by
  unfold Sodchan.handlePeerSsHeader
  split
  · split
    · unfold clientHandleSsHeader
      split
      · exact h.fail (h.refl c) _ _ (by decide)
      · rename_i st _
        have henter : R c ((c.withPull st).enter .auth .done) := h.same rfl
        have hkx : R c (c.clientKx st) := h.trans henter (h.emit _ _)
        have hsend := h.clientSendAuthDevice (c.clientKx st)
        unfold clientTakeSsHeader
        dsimp only
        split <;> rename_i he <;>
          change Sodchan.clientSendAuthDevice E (c.clientKx st) = _ at he <;> rw [he] at hsend
        · exact h.trans hkx hsend
        · exact h.fail (h.trans hkx hsend) _ _ (by decide)
    · unfold serverHandleSsHeader
      split
      · exact h.fail (h.refl c) _ _ (by decide)
      · rename_i st _
        have hpull : R c (c.withPull st) := h.same rfl
        have hsend : R (c.withPull st) (serverSendSsHeaderS2c E (c.withPull st)).1 :=
          h.sendSsHeader _ _
        unfold serverTakeSsHeader
        dsimp only
        split <;> rename_i he <;>
          change serverSendSsHeaderS2c E (c.withPull st) = _ at he <;> rw [he] at hsend
        · rename_i d
          have hdone : R d { d with hs := .done, state := .auth } := h.same rfl
          exact h.trans hpull (h.trans hsend (h.trans hdone (h.emit _ _)))
        · exact h.fail (h.trans hpull hsend) _ _ (by decide)
  · exact h.fail (h.refl c) _ _ (by decide)

theorem takeAuthDevice (h : Upheld E possible R) (c : Ctx Rng SS) (d : Wire.AuthDevice)
    (user device : Bytes) : R c (takeAuthDevice E c d user device) := by
  have hpeer : R c { c with peerIdPk := d.clientIdPk, havePeerId := true } :=
    h.same rfl
  unfold Sodchan.takeAuthDevice
  exact h.trans hpeer (h.trans (h.emit _ _) (h.trans (h.log _ (.authDevice _ _ _ _) rfl)
    (h.same rfl)))

theorem serverSendAuthFail (h : Upheld E possible R) (c : Ctx Rng SS) :
    R c (serverSendAuthFail E c).1 := by
  unfold Sodchan.serverSendAuthFail
  split
  · exact h.refl c
  · exact h.send c _

theorem serverSendAuthOk (h : Upheld E possible R) (c : Ctx Rng SS) (claims : Bytes) :
    R c (serverSendAuthOk E c claims).1 := by
  unfold Sodchan.serverSendAuthOk
  split
  · exact h.refl c
  · exact h.send c _

theorem handleAuthDevicePdu (h : Upheld E possible R) (ht : possible → c.haveTHello)
    (plain : Bytes) : R c (handleAuthDevicePdu E c plain).1 := by
  unfold Sodchan.handleAuthDevicePdu
  split
  · exact h.fail (h.refl c) _ _ (by decide)
  · split
    · exact h.fail (h.refl c) _ _ (by decide)
    · split
      · rename_i hn
        exact h.error c _ _ fun hp => absurd (ht hp) hn
      · split
        · exact h.fail (h.refl c) _ _ (by decide)
        · dsimp only
          split
          · exact h.fail (h.refl c) _ _ (by decide)
          · split
            · have hbad : R c (c.log .authBadSig) := h.log c _ rfl
              exact h.fail (h.trans hbad (h.trans (h.serverSendAuthFail _) (h.emit _ _))) _ _
                (by decide)
            · exact h.takeAuthDevice c _ _ _

theorem handleAuthOkPdu (h : Upheld E possible R) (c : Ctx Rng SS) (plain : Bytes) :
    R c (handleAuthOkPdu c plain).1 := by
  unfold Sodchan.handleAuthOkPdu
  split
  · exact h.fail (h.refl c) _ _ (by decide)
  · split
    · exact h.fail (h.refl c) _ _ (by decide)
    · have hready : R c { c with authComplete := true, state := .ready } :=
        h.same rfl
      exact h.trans hready (h.emit _ _)

theorem handleAuthFailPdu (h : Upheld E possible R) (c : Ctx Rng SS) (plain : Bytes) :
    R c (handleAuthFailPdu c plain).1 := by
  unfold Sodchan.handleAuthFailPdu
  split
  · exact h.fail (h.refl c) _ _ (by decide)
  · exact h.fail (h.emit c _) _ _ (by decide)

theorem handlePlain (h : Upheld E possible R)
    (hs : possible → c.state = .auth ∨ c.state = .ready ∨ c.state = .draining)
    (ht : possible → c.state = .auth → c.haveTHello) (plain : Bytes) (tag : UInt8) :
    R c (handlePlain E c plain tag).1 := by
  unfold Sodchan.handlePlain
  split
  · exact h.trans (h.emit c _) (h.same rfl)
  · split
    · exact h.refl c
    · split
      · exact h.refl c
      · split
        · exact h.fail (h.refl c) _ _ (by decide)
        · split
          · rename_i ha
            split
            · exact h.handleAuthDevicePdu (fun hp => ht hp ha) plain
            · split
              · exact h.handleAuthOkPdu c plain
              · split
                · exact h.handleAuthFailPdu c plain
                · exact h.fail (h.refl c) _ _ (by decide)
          · split
            · exact h.respected.handleMuxPdu (Or.inl trivial)
            · rename_i ha hm
              exact h.error c _ _ fun hp =>
                absurd (hs hp) (by simp only [ha, false_or, hm]; trivial)

theorem handleEncryptedPdu (h : Upheld E possible R) (hd : c.hs = .done)
    (hp : possible → Possible c) (ct : Bytes) : R c (handleEncryptedPdu E c ct).1 := by
  unfold Sodchan.handleEncryptedPdu
  split
  · rename_i hr
    exact h.error c _ _ fun hq => absurd ((hp hq).pull hd) hr
  · split
    · exact h.fail (h.refl c) _ _ (by decide)
    · split
      · exact h.fail (h.refl c) _ _ (by decide)
      · split
        · exact h.fail (h.refl c) _ _ (by decide)
        · rename_i st plain tag hpull
          have hfits : PlainFits c ct := ⟨by omega, by omega, by omega⟩
          exact h.trans (h.pull c st ct plain tag hfits hpull)
            (h.handlePlain (c := c.afterPull st ct plain tag) (fun hq => (hp hq).state hd)
              (fun hq => (hp hq).tHello) plain tag)

theorem handleFrame (h : Upheld E possible R) (hp : possible → Possible c) (body : Bytes) :
    R c (handleFrame E c body).1 := by
  unfold Sodchan.handleFrame
  split
  · exact h.handlePeerHello c body
  · exact h.handlePeerSsHeader c body
  · rename_i hd
    exact h.handleEncryptedPdu hd hp body
  · rename_i hd
    exact h.error c _ _ fun hq => absurd hd (hp hq).start

end Upheld

end Sodchan
