import Sodchan.Session.Effects
import Sodchan.Model.History

/-! # The events that a frame is due

Every emit site of the session raises its event and goes on, whether or not
the queue had room. How many events a frame raises can be told beforehand, from
the frame and the state alone, and every change of the session is among them.
-/

namespace Sodchan

open ByteString

variable {Rng SS : Type} {E : Env Rng SS} {c c' c'' : Ctx Rng SS} {evs evs' : List Event}

/-! ### The queue -/

def Occ.returned? : Occ → Option Event
  | .returned ev => some ev
  | _ => none

/-- The event of an occurrence, whether it was stored, lost or fetched. -/
def Occ.event? : Occ → Option Event
  | .queued ev | .dropped ev | .returned ev => some ev
  | _ => none

namespace Ctx

/-- The events that the host has fetched so far. -/
def returned (c : Ctx Rng SS) : List Event := c.hist.filterMap Occ.returned?

/-- How many events the queue has room for. -/
def vacant (c : Ctx Rng SS) : ℕ := c.events.cap - c.events.count

end Ctx

theorem filterMap_eventless {f : Occ → Option Event} {l : List Occ}
    (hf : ∀ o, o.event? = none → f o = none) (hl : ∀ o ∈ l, o.event? = none) :
    l.filterMap f = [] :=
  List.filterMap_eq_nil_iff.mpr fun o ho => hf o (hl o ho)

theorem Occ.emitted?_eq_none {o : Occ} (h : o.event? = none) : o.emitted? = none := by
  cases o <;> first | rfl | cases h

theorem Occ.queued?_eq_none {o : Occ} (h : o.event? = none) : o.queued? = none := by
  cases o <;> first | rfl | cases h

theorem Occ.returned?_eq_none {o : Occ} (h : o.event? = none) : o.returned? = none := by
  cases o <;> first | rfl | cases h

/-- The events that are raised, of which the queue takes as many as it has room for. -/
structure Raises (evs : List Event) (c c' : Ctx Rng SS) : Prop where
  emitted : c'.emitted = c.emitted ++ evs
  queued : c'.queued = c.queued ++ evs.take c.vacant
  toList : c'.events.toList = c.events.toList ++ evs.take c.vacant
  cap : c'.events.cap = c.events.cap
  returned : c'.returned = c.returned

namespace Raises

theorem logged {l : List Occ} (he : c'.events = c.events) (hh : c'.hist = c.hist ++ l)
    (hl : ∀ o ∈ l, o.event? = none) : Raises [] c c' := by
  refine ⟨?_, ?_, by rw [he, List.take_nil, List.append_nil], by rw [he], ?_⟩
  · rw [Ctx.emitted, hh, List.filterMap_append,
      filterMap_eventless (fun _ => Occ.emitted?_eq_none) hl]
    rfl
  · rw [Ctx.queued, hh, List.filterMap_append,
      filterMap_eventless (fun _ => Occ.queued?_eq_none) hl, List.take_nil]
    rfl
  · rw [Ctx.returned, hh, List.filterMap_append,
      filterMap_eventless (fun _ => Occ.returned?_eq_none) hl, List.append_nil]
    rfl

theorem same (he : c'.events = c.events) (hh : c'.hist = c.hist) : Raises [] c c' :=
  logged (l := []) he (by rw [hh, List.append_nil]) (by simp)

theorem refl (c : Ctx Rng SS) : Raises [] c c := same rfl rfl

theorem vacant (h : Raises evs c c') : c'.vacant = c.vacant - evs.length := by
  have hl := congrArg List.length h.toList
  rw [List.length_append, List.length_take, RingBuffer.length_toList,
    RingBuffer.length_toList] at hl
  have hle := c.events.length_toList_le
  rw [RingBuffer.length_toList] at hle
  unfold Ctx.vacant at hl ⊢
  rw [h.cap]
  omega

theorem trans (h : Raises evs c c') (h' : Raises evs' c' c'') : Raises (evs ++ evs') c c'' := by
  refine ⟨?_, ?_, ?_, h'.cap.trans h.cap, h'.returned.trans h.returned⟩
  · rw [h'.emitted, h.emitted, List.append_assoc]
  · rw [h'.queued, h.queued, h.vacant, List.append_assoc, List.take_append]
  · rw [h'.toList, h.toList, h.vacant, List.append_assoc, List.take_append]

theorem emit (c : Ctx Rng SS) (ev : Event) : Raises [ev] c (emit c ev) := by
  have hv : c.vacant = 0 ↔ ¬ c.events.count < c.events.cap := by
    unfold Ctx.vacant
    omega
  rw [emit_eq]
  cases hp : c.events.push ev with
  | none =>
    have h0 : c.vacant = 0 := by
      rw [hv, ← RingBuffer.push_isSome_iff (a := ev), hp]
      rintro ⟨⟩
    refine ⟨?_, ?_, ?_, ?_, ?_⟩ <;>
      simp [Ctx.emitted, Ctx.queued, Ctx.returned, emitRing, emitOcc, hp, h0, Occ.emitted?,
        Occ.queued?, Occ.returned?]
  | some r =>
    obtain ⟨hl, hc⟩ := RingBuffer.push_eq_some hp
    have h1 : [ev].take c.vacant = [ev] := by
      refine List.take_of_length_le (Nat.one_le_iff_ne_zero.mpr fun h => hv.mp h ?_)
      rw [← RingBuffer.push_isSome_iff (a := ev), hp]
      rfl
    refine ⟨?_, ?_, ?_, ?_, ?_⟩ <;>
      simp [Ctx.emitted, Ctx.queued, Ctx.returned, emitRing, emitOcc, hp, hl, hc, h1, Occ.emitted?,
        Occ.queued?, Occ.returned?]

theorem before (h : Raises [] c c') (h' : Raises evs c' c'') : Raises evs c c'' := h.trans h'

theorem after (h : Raises evs c c') (h' : Raises [] c' c'') : Raises evs c c'' := by
  have := h.trans h'
  rwa [List.append_nil] at this

theorem send (plain : Bytes) : Raises [] c (ssSendPdu E c plain).1 := by
  obtain ⟨st, ct, -, -, h⟩ | ⟨b, o, rc, -, -, -, h⟩ := ssSendPdu_cases E c plain <;> rw [h]
  · exact logged (l := [.sent plain, .appended (rawFrame ct)]) rfl rfl (by simp [Occ.event?])
  · exact same rfl rfl

theorem change (i : Fin maxChannelSlots) (ch : Channel) (ev : Event) :
    Raises [ev] c (Sodchan.emit (setCh c i ch) ev) :=
  (same rfl rfl : Raises [] c (setCh c i ch)).before (emit _ ev)

theorem free (c : Ctx Rng SS) (i : Fin maxChannelSlots) : Raises [] c (chFree c i) := by
  unfold chFree
  split
  · exact refl c
  · exact same rfl rfl

theorem setError (code : Rc) (msg : String) :
    Raises [.error (if code = .ok then .protocol else code) msg] c (setError c code msg) :=
  (same rfl rfl : Raises [] c { c with
    error := if code = .ok then .protocol else code, state := .error, errorMsg := msg }).before
    (emit _ _)

end Raises

/-! ### The events that a frame is due -/

namespace Ctx

/-- The server HELLO is for a client, under a key that it trusts, and signed. -/
def trusts (E : Env Rng SS) (c : Ctx Rng SS) (h : Wire.Hello) : Prop :=
  h.role = Role.server.code ∧
    (c.acceptAnyServerPk ∨ c.haveServerIdPk ∧ h.idPk = c.serverIdPk) ∧
    E.signVerifyDetached h.idSig
      (Wire.buildTHello protoVersion suiteV1 c.ephPk h.ephPk h.idPk).val h.idPk

instance (h : Wire.Hello) : Decidable (c.trusts E h) :=
  inferInstanceAs (Decidable (_ ∧ (_ ∨ _ ∧ _) ∧ _))

/-- The output buffer has room for the frame of a body of that length. -/
def fits (c : Ctx Rng SS) (n : ℕ) : Prop := 4 + n ≤ outBufSize - c.pending.length

instance (n : ℕ) : Decidable (c.fits n) := inferInstanceAs (Decidable (_ ≤ _))

/-- The PDU can be sent. -/
def canSend (E : Env Rng SS) (c : Ctx Rng SS) (pdu : Bytes) : Prop :=
  c.ssPushReady ∧ pdu ≠ [] ∧ pdu.length ≤ c.maxRecordSize ∧ c.fits (pdu.length + ssAbytes) ∧
    pdu.length + ssAbytes ≤ ssFrameMaxBody E c ∧ (E.ssPush c.ssPush pdu tagMessage).isSome

instance (pdu : Bytes) : Decidable (c.canSend E pdu) :=
  inferInstanceAs (Decidable (_ ∧ _ ∧ _ ∧ _ ∧ _ ∧ _))

/-- The stream keys for the two keys of the key exchange. -/
def streamKeys (E : Env Rng SS) : Option (Key × Key) → Option (Key × Key)
  | none => none
  | some (c2s, s2c) =>
    match ssKeyDerive E c2s domSsC2s, ssKeyDerive E s2c domSsS2c with
    | .ok kc, .ok ks => some (kc, ks)
    | _, _ => none

/-- A client can derive the stream keys and queue its header. -/
def answersServer (E : Env Rng SS) (c : Ctx Rng SS) (h : Wire.Hello) : Prop :=
  ∃ k ∈ streamKeys E ((E.kxClientSessionKeys c.ephPk c.ephSk h.ephPk).map Prod.swap),
    (E.ssInitPush c.rng k.1).1.isSome ∧ c.fits 24

instance (h : Wire.Hello) : Decidable (c.answersServer E h) :=
  inferInstanceAs (Decidable (∃ k ∈ streamKeys E _, _))

/-- A server can queue its HELLO and derive the stream keys. -/
def answersClient (E : Env Rng SS) (c : Ctx Rng SS) (h : Wire.Hello) : Prop :=
  (E.signDetached (Wire.buildTHello protoVersion suiteV1 h.ephPk c.ephPk c.serverIdPk).val
    c.serverIdSk).isSome ∧ c.fits helloBodyLen ∧
    (streamKeys E (E.kxServerSessionKeys c.ephPk c.ephSk h.ephPk)).isSome

instance (h : Wire.Hello) : Decidable (c.answersClient E h) :=
  inferInstanceAs (Decidable (_ ∧ _ ∧ _))

/-- A HELLO is announced unless it is refused; whatever fails after that is an error as well. -/
def dueHello (E : Env Rng SS) (c : Ctx Rng SS) (h : Wire.Hello) : ℕ :=
  match c.role with
  | .client => if c.trusts E h ∧ ¬ c.answersServer E h then 2 else 1
  | .server => if h.role = Role.client.code ∧ ¬ c.answersClient E h then 2 else 1

/-- The AUTH_DEVICE of a client, if it can be built. -/
def devicePdu (E : Env Rng SS) (c : Ctx Rng SS) : Option Bytes :=
  let user := (c.clientUsername.getD []).take userMax
  let dev := (c.clientDeviceId.getD []).take deviceIdMax
  match Wire.buildTAuth c.tHello c.clientIdPk user dev 512 with
  | .error _ => none
  | .ok tAuth =>
    match E.signDetached tAuth c.clientIdSk with
    | none => none
    | some sig => (Wire.authDeviceEncode c.clientIdPk sig user dev 512).toOption

/-- A client has to send an AUTH_DEVICE and cannot. -/
def proofStuck (E : Env Rng SS) (c : Ctx Rng SS) : Prop :=
  ¬ c.authSent ∧ c.haveClientIdSk ∧ c.haveClientIdPk ∧ c.haveTHello ∧
    ¬ ∃ pdu ∈ c.devicePdu E, c.canSend E pdu

instance : Decidable (c.proofStuck E) := inferInstanceAs (Decidable (_ ∧ _ ∧ _ ∧ _ ∧ ¬ _))

/-- A client announces the key exchange before it sends its AUTH_DEVICE. -/
def dueHeader (E : Env Rng SS) (c : Ctx Rng SS) (body : Bytes) : ℕ :=
  if h : body.length = 24 then
    if c.role = .client ∧ (E.ssInitPull ⟨body, h⟩ c.ssKeyS2c).isSome ∧ c.proofStuck E then 2 else 1
  else 1

/-- An AUTH_DEVICE with a bad signature. -/
def misSigned (E : Env Rng SS) (c : Ctx Rng SS) (plain : Bytes) : Bool :=
  match Wire.authDeviceDecode plain (userMax + 1) (deviceIdMax + 1) with
  | .error _ => false
  | .ok d =>
    match Wire.buildTAuth c.tHello d.clientIdPk (d.username.take d.usernameLen)
        (d.deviceId.take d.deviceIdLen) 512 with
    | .error _ => false
    | .ok tAuth => ¬ E.signVerifyDetached d.clientSig tAuth d.clientIdPk

/-- A bad signature, at a server that waits for one, and an AUTH_FAIL are announced, and are errors
as well. -/
def dueAuth (E : Env Rng SS) (c : Ctx Rng SS) (plain : Bytes) : ℕ :=
  if plain.headD 0 = pduAuthDevice then
    if c.role = .server ∧ ¬ (c.authAwaitingDecide ∨ c.authComplete ∨ c.authDecided) ∧
      c.haveTHello ∧ c.misSigned E plain then 2 else 1
  else if plain.headD 0 = pduAuthFail ∧ (Wire.authFailDecode plain).isOk then 2
  else 1

/-- A PONG, an OPEN that is refused, and what concerns a channel that is not there are not
announced. -/
def dueMux (c : Ctx Rng SS) (plain : Bytes) : ℕ :=
  match Pdu.ofBytes plain with
  | .channelOpen _ _ _ name =>
    if channelNameAllowed c name ∧ c.activeChannels < c.maxChannels ∧
      ∃ i, (c.channels i).state = .unused then 1 else 0
  | .channelOpenFail id =>
    if ∃ i ∈ chByLocal c id, (c.channels i).state = .opening then 1 else 0
  | .channelWindow id _ => if ∃ i ∈ chByLocal c id, (c.channels i).state = .open_ then 1 else 0
  | .channelEof id | .channelClose id => if (chByLocal c id).isSome then 1 else 0
  | .other => if plain.headD 0 = pduPong then 0 else 1
  | _ => 1

def duePlain (E : Env Rng SS) (c : Ctx Rng SS) (plain : Bytes) (tag : UInt8) : ℕ :=
  if tag = tagFinal then 1
  else if tag = tagRekey ∨ plain = [] then 0
  else if c.state = .auth then c.dueAuth E plain
  else if c.state = .ready ∨ c.state = .draining then c.dueMux plain
  else 1

def dueRecord (E : Env Rng SS) (c : Ctx Rng SS) (body : Bytes) : ℕ :=
  match E.ssPull c.ssPull body with
  | none => 1
  | some (_, plain, tag) =>
    if c.ssPullReady ∧ ssAbytes ≤ body.length ∧ body.length - ssAbytes ≤ plainBufSize ∧
      body.length - ssAbytes ≤ c.maxRecordSize then c.duePlain E plain tag else 1

def dueFrame (E : Env Rng SS) (c : Ctx Rng SS) (body : Bytes) : ℕ :=
  match c.hs with
  | .waitPeerHello =>
    match Wire.helloDecode body with
    | .error _ => 1
    | .ok h => c.dueHello E h
  | .waitPeerSs => c.dueHeader E body
  | .done => c.dueRecord E body
  | .start => 1

/-- How many events the next frame is due. -/
def due (E : Env Rng SS) (c : Ctx Rng SS) : ℕ :=
  if c.ended then 0
  else
    match parseInput E c with
    | .error .full => 0
    | .error _ => 1
    | .ok (_, body) => c.dueFrame E body

end Ctx

/-- The queue has room for all events that the next frame is due. -/
def HasRoom (E : Env Rng SS) (c : Ctx Rng SS) : Prop := c.events.count + c.due E ≤ c.events.cap

instance : DecidablePred (HasRoom E) := fun _ => inferInstanceAs (Decidable (_ ≤ _))

/-! ### What is announced -/

/-- The farewell of a record: a final tag, or a DISCONNECT with its reason and its text. -/
def Farewell (plain : Bytes) (tag : UInt8) (reason : UInt32) (text : Bytes) : Prop :=
  tag = tagFinal ∧ reason = 0 ∧ text = [] ∨
    ∃ msg mlen, Wire.disconnectDecode plain 128 = .ok (reason, msg, mlen) ∧
      text = if mlen ≠ 0 then cstr msg else []

/-- Every change of the session is among the events, with what the record says. -/
structure News (E : Env Rng SS) (said : Bytes → UInt8 → Prop) (c c' : Ctx Rng SS)
    (evs : List Event) : Prop where
  awaiting : c.authAwaitingDecide = false → c'.authAwaitingDecide →
    ∃ plain tag d, said plain tag ∧
      Wire.authDeviceDecode plain (userMax + 1) (deviceIdMax + 1) = .ok d ∧
      .authDevice d.clientIdPk (cstr d.username) (cstr d.deviceId)
        (pubkeyFingerprintSha256 E d.clientIdPk fpSha256Max) true ∈ evs
  ready : c.state ≠ .ready → c'.state = .ready → .authenticated ∈ evs
  closed : c.state ≠ .closed → c'.state = .closed → ∃ plain tag reason text,
    said plain tag ∧ Farewell plain tag reason text ∧ .disconnected reason text ∈ evs
  failed : c.state ≠ .error → c'.state = .error → .error c'.error c'.errorMsg ∈ evs

/-- A step raises that many events, all changes of the session among them. -/
def Raised (E : Env Rng SS) (said : Bytes → UInt8 → Prop) (n : ℕ) (c c' : Ctx Rng SS) : Prop :=
  ∃ evs, evs.length = n ∧ Raises evs c c' ∧ News E said c c' evs

namespace Raised

variable {said : Bytes → UInt8 → Prop}

theorem steady (h : Raises evs c c') (ha : c'.authAwaitingDecide = c.authAwaitingDecide)
    (hs : c'.state = c.state ∨ c'.state = .ssHeader ∨ c'.state = .auth) :
    Raised E said evs.length c c' := by
  refine ⟨evs, rfl, h, ?_, ?_, ?_, ?_⟩
  · intro h0 h1
    rw [ha, h0] at h1
    cases h1
  all_goals
    intro h0 h1
    rw [h1] at hs
    rcases hs with hs | hs | hs
    · exact absurd hs.symm h0
    · cases hs
    · cases hs

theorem failed (h : Raises evs c c') (ha : c'.authAwaitingDecide = c.authAwaitingDecide)
    (code : Rc) (msg : String) : Raised E said (evs.length + 1) c (setError c' code msg) := by
  have hst : (setError c' code msg).state = .error := setError_state _ _ _
  refine ⟨_, ?_, h.trans (.setError code msg), ?_, ?_, ?_, fun _ _ => ?_⟩
  · rw [List.length_append]
    rfl
  · intro h0 h1
    rw [setError, emit_eq] at h1
    rw [← ha] at h0
    rw [h0] at h1
    cases h1
  · intro _ h1
    rw [hst] at h1
    cases h1
  · intro _ h1
    rw [hst] at h1
    cases h1
  · rw [setError, emit_eq]
    exact List.mem_append_right _ (List.mem_singleton_self _)

theorem refused (code : Rc) (msg : String) : Raised E said 1 c (setError c code msg) :=
  failed (.refl c) rfl code msg

theorem idle (h : Raises [] c c') (ha : c'.authAwaitingDecide = c.authAwaitingDecide)
    (hs : c'.state = c.state) : Raised E said 0 c c' := steady h ha (Or.inl hs)

end Raised

/-! ### The handshake -/

variable {said : Bytes → UInt8 → Prop}

theorem outAppendFrame_fits (c : Ctx Rng SS) {body : Bytes} (h0 : body ≠ [])
    (hmax : body.length ≤ maxClearFrame) : outAppendFrame c body =
      if c.fits body.length then (c.withFrame body, .ok) else (c.compacted, .full) := by
  rw [outAppendFrame_eq c h0 hmax, outAppend_eq, length_rawFrame]
  by_cases hf : c.fits body.length
  · rw [if_pos hf, if_neg (by unfold Ctx.fits at hf; omega)]
    rfl
  · rw [if_neg hf, if_pos (by unfold Ctx.fits at hf; omega)]
    rfl

/-- Both derivations of the stream keys, for the keys of either direction. -/
def Ctx.keyed (E : Env Rng SS) (c : Ctx Rng SS) : Option (Key × Key) → Ctx Rng SS × Rc
  | none => (c, .crypto)
  | some (c2s, s2c) =>
    match ssKeyDerive E c2s domSsC2s with
    | .error _ => (c, .crypto)
    | .ok kc =>
      match ssKeyDerive E s2c domSsS2c with
      | .error _ => (c.withC2s kc, .crypto)
      | .ok ks => (c.withKeys kc ks, .ok)

theorem deriveSsKeysClient_keyed (E : Env Rng SS) (c : Ctx Rng SS) : deriveSsKeysClient E c =
    c.keyed E ((E.kxClientSessionKeys c.ephPk c.ephSk c.peerEphPk).map Prod.swap) := by
  unfold deriveSsKeysClient
  cases E.kxClientSessionKeys c.ephPk c.ephSk c.peerEphPk <;> rfl

theorem deriveSsKeysServer_keyed (E : Env Rng SS) (c : Ctx Rng SS) : deriveSsKeysServer E c =
    c.keyed E (E.kxServerSessionKeys c.ephPk c.ephSk c.peerEphPk) := by
  unfold deriveSsKeysServer
  cases E.kxServerSessionKeys c.ephPk c.ephSk c.peerEphPk <;> rfl

theorem keyed_cases (E : Env Rng SS) (c : Ctx Rng SS) (k : Option (Key × Key)) :
    (∃ kc ks, Ctx.streamKeys E k = some (kc, ks) ∧ c.keyed E k = (c.withKeys kc ks, .ok)) ∨
    (Ctx.streamKeys E k = none ∧ ∃ kc, c.keyed E k = (c.withC2s kc, .crypto)) := by
  unfold Ctx.keyed Ctx.streamKeys
  rcases k with _ | ⟨c2s, s2c⟩
  · exact Or.inr ⟨rfl, c.ssKeyC2s, rfl⟩
  · dsimp only
    cases ssKeyDerive E c2s domSsC2s with
    | error => exact Or.inr ⟨rfl, c.ssKeyC2s, rfl⟩
    | ok kc =>
      dsimp only
      cases ssKeyDerive E s2c domSsS2c with
      | error => exact Or.inr ⟨rfl, kc, rfl⟩
      | ok ks => exact Or.inl ⟨kc, ks, rfl, rfl⟩

theorem sendSsHeader_fits (E : Env Rng SS) (c : Ctx Rng SS) (key : Key) :
    (((E.ssInitPush c.rng key).1.isSome ∧ c.fits 24) ∧
      ∃ st rng, ∃ header : SsHeader,
        sendSsHeader E c key = ((c.withPush st rng).withFrame header.val, .ok)) ∨
    (¬ ((E.ssInitPush c.rng key).1.isSome ∧ c.fits 24) ∧
      ∃ d rc, HeaderLost c d ∧ rc ≠ .ok ∧ sendSsHeader E c key = (d, rc)) := by
  unfold sendSsHeader
  rcases E.ssInitPush c.rng key with ⟨_ | ⟨st, header⟩, rng⟩
  · refine Or.inr ⟨fun h => ?_, _, _, HeaderLost.noState rng, by decide, rfl⟩
    cases h.1
  · have h0 : header.val ≠ [] := fun h => by
      have := header.2
      rw [h] at this
      cases this
    have ho := outAppendFrame_fits (c.withPush st rng) h0 (by rw [header.2]; decide)
    rw [header.2] at ho
    by_cases hf : (c.withPush st rng).fits 24
    · rw [if_pos hf] at ho
      exact Or.inl ⟨⟨rfl, hf⟩, st, rng, header, ho⟩
    · rw [if_neg hf] at ho
      exact Or.inr ⟨fun h => hf h.2, _, _, .noRoom st rng, by decide, ho⟩

namespace Raises

theorem frame (body : Bytes) : Raises [] c (c.withFrame body) :=
  logged (l := [.appended (rawFrame body)]) rfl rfl (by simp [Occ.event?])

theorem headerLost (h : HeaderLost c c') : Raises [] c c' := by
  cases h with
  | noState rng => exact same rfl rfl
  | noRoom st rng => exact same rfl rfl

end Raises

theorem trusts_iff {h : Wire.Hello} : c.trusts E h ↔
    ¬ h.role ≠ Role.server.code ∧
    ¬ (¬ c.acceptAnyServerPk ∧ (¬ c.haveServerIdPk ∨ h.idPk ≠ c.serverIdPk)) ∧
    E.signVerifyDetached h.idSig (clientTakeHello c h).tHello.val
      (clientTakeHello c h).peerIdPk := by
  rw [clientTakeHello_eq]
  unfold Ctx.trusts
  cases c.acceptAnyServerPk <;> cases c.haveServerIdPk <;> simp

theorem dueHello_client (hr : c.role = .client) (h : Wire.Hello) :
    c.dueHello E h = if c.trusts E h ∧ ¬ c.answersServer E h then 2 else 1 := by
  rw [Ctx.dueHello, hr]

theorem dueHello_server (hr : c.role = .server) (h : Wire.Hello) :
    c.dueHello E h = if h.role = Role.client.code ∧ ¬ c.answersClient E h then 2 else 1 := by
  rw [Ctx.dueHello, hr]

theorem Raised.due {n m : ℕ} (h : Raised E said n c c') (hn : m = n) : Raised E said m c c' :=
  hn ▸ h

/-- What the announcement of a HELLO leaves for the reply. -/
structure Announced (h : Wire.Hello) (c d : Ctx Rng SS) : Prop where
  raises : ∃ ev, Raises [ev] c d
  awaiting : d.authAwaitingDecide = c.authAwaitingDecide
  ephPk : d.ephPk = c.ephPk
  ephSk : d.ephSk = c.ephSk
  peerEphPk : d.peerEphPk = h.ephPk
  rng : d.rng = c.rng
  pending : d.pending = c.pending

theorem verifiedServer_announced (c : Ctx Rng SS) (h : Wire.Hello) :
    Announced h c (c.verifiedServer h) := by
  have htake : Raises [] c (clientTakeHello c h) := by
    rw [clientTakeHello_eq]
    exact .same rfl rfl
  have hlog : Raises [] c ((clientTakeHello c h).log (.helloVerified h)) :=
    htake.before (.logged (l := [.helloVerified h]) rfl rfl (by simp [Occ.event?]))
  refine ⟨⟨_, hlog.before (.emit _ _)⟩, ?_, ?_, ?_, ?_, ?_, ?_⟩
  all_goals
    obtain ⟨r, o, pk, -, he⟩ := verifiedServer_eq c h
    simp only [he, clientTakeHello_eq, Ctx.pending]

/-- What a client does after it has announced a HELLO. -/
theorem clientFinishHello_raised {h : Wire.Hello} {d : Ctx Rng SS} (ht : c.trusts E h)
    (hr : c.role = .client) (hd : Announced h c d) :
    Raised E said (c.dueHello E h) c (clientFinishHello E d).1 := by
  obtain ⟨ev, hev⟩ := hd.raises
  have hstuck : ¬ c.answersServer E h → c.dueHello E h = 2 := fun hn => by
    rw [dueHello_client hr, if_pos ⟨ht, hn⟩]
  have hfree : c.answersServer E h → c.dueHello E h = 1 := fun ha => by
    rw [dueHello_client hr, if_neg fun hn => hn.2 ha]
  unfold clientFinishHello clientSendSsHeaderC2s
  rw [deriveSsKeysClient_keyed, hd.ephPk, hd.ephSk, hd.peerEphPk]
  obtain ⟨kc, ks, hk, he⟩ | ⟨hk, kc, he⟩ := keyed_cases E d
    ((E.kxClientSessionKeys c.ephPk c.ephSk h.ephPk).map Prod.swap) <;> rw [he]
  · have hkeys : Raises [ev] c (d.withKeys kc ks) := hev.after (.same rfl rfl)
    have hrng : (d.withKeys kc ks).rng = c.rng := hd.rng
    have hfits : (d.withKeys kc ks).fits 24 ↔ c.fits 24 := by
      unfold Ctx.fits
      rw [show (d.withKeys kc ks).pending = c.pending from hd.pending]
    dsimp only
    obtain ⟨hok, st, rng, header, hs⟩ | ⟨hnot, d', rc, hl, hrc, hs⟩ :=
      sendSsHeader_fits E (d.withKeys kc ks) (d.withKeys kc ks).ssKeyC2s <;> rw [hs]
    · rw [hrng, hfits] at hok
      have hpush : Raises [ev] c ((d.withKeys kc ks).withPush st rng) := hkeys.after (.same rfl rfl)
      have hdone : Raises [ev] c ((((d.withKeys kc ks).withPush st rng).withFrame header.val).enter
          .ssHeader .waitPeerSs) := (hpush.after (.frame header.val)).after (.same rfl rfl)
      exact (Raised.steady hdone hd.awaiting (Or.inr (Or.inl rfl))).due (hfree ⟨_, hk, hok⟩)
    · rw [hrng, hfits] at hnot
      have hd' : d'.authAwaitingDecide = c.authAwaitingDecide := by
        cases hl <;> exact hd.awaiting
      have hn : ¬ c.answersServer E h := by
        rintro ⟨k, hk', ha⟩
        obtain rfl : (kc, ks) = k := Option.some.inj (hk.symm.trans hk')
        exact hnot ha
      cases rc <;> first
        | exact absurd rfl hrc
        | exact (Raised.failed (hkeys.after (.headerLost hl)) hd' _ _).due (hstuck hn)
  · have hkc : Raises [ev] c (d.withC2s kc) := hev.after (.same rfl rfl)
    refine (Raised.failed hkc hd.awaiting _ _).due (hstuck ?_)
    rintro ⟨k, hk', -⟩
    rw [hk] at hk'
    cases hk'

theorem clientHandleHello_raised (hr : c.role = .client) (h : Wire.Hello) :
    Raised E said (c.dueHello E h) c (clientHandleHello E c h).1 := by
  have hrefused : ¬ c.trusts E h → c.dueHello E h = 1 := fun hn => by
    rw [dueHello_client hr, if_neg fun ht => hn ht.1]
  have htake : (clientTakeHello c h).authAwaitingDecide = c.authAwaitingDecide ∧
      Raises [] c (clientTakeHello c h) := by
    rw [clientTakeHello_eq]
    exact ⟨rfl, .same rfl rfl⟩
  unfold clientHandleHello
  split
  · rename_i hrole
    exact (Raised.refused _ _).due (hrefused fun ht => (trusts_iff.mp ht).1 hrole)
  · rename_i hrole
    split
    · rename_i hpin
      exact (Raised.refused _ _).due (hrefused fun ht => (trusts_iff.mp ht).2.1 hpin)
    · rename_i hpin
      dsimp only
      split
      · rename_i hsig
        exact (Raised.failed htake.2 htake.1 _ _).due
          (hrefused fun ht => hsig (trusts_iff.mp ht).2.2)
      · rename_i hsig
        exact clientFinishHello_raised (trusts_iff.mpr ⟨hrole, hpin, not_not.mp hsig⟩) hr
          (verifiedServer_announced c h)

theorem queueLocalHello_fits (E : Env Rng SS) {d : Ctx Rng SS} (hr : d.role = .server)
    (hp : d.havePeerEph) :
    (((E.signDetached (serverTranscript d).tHello.val d.serverIdSk).isSome ∧ d.fits helloBodyLen) ∧
      ∃ sig, queueLocalHello E d = (d.helloQueued sig, .ok)) ∨
    (¬ ((E.signDetached (serverTranscript d).tHello.val d.serverIdSk).isSome ∧
        d.fits helloBodyLen) ∧
      ∃ d' rc, (d' = serverTranscript d ∨ d' = (serverTranscript d).compacted) ∧ rc ≠ .ok ∧
        queueLocalHello E d = (d', rc)) := by
  unfold queueLocalHello
  rw [hr]
  dsimp only
  rw [if_neg (by simp [hp])]
  cases hs : E.signDetached (serverTranscript d).tHello.val (serverTranscript d).serverIdSk with
  | none =>
    refine Or.inr ⟨fun h => ?_, _, _, Or.inl rfl, by decide, rfl⟩
    have := h.1
    rw [show E.signDetached (serverTranscript d).tHello.val d.serverIdSk = none from hs] at this
    cases this
  | some sig =>
    simp only [helloEncode_eq]
    have ho := outAppendFrame_fits (serverTranscript d)
      (helloBody_ne_nil (serverHello (serverTranscript d) sig)) (by rw [length_helloBody]; decide)
    rw [length_helloBody] at ho
    by_cases hf : (serverTranscript d).fits helloBodyLen
    · rw [if_pos hf] at ho
      refine Or.inl ⟨⟨?_, hf⟩, sig, ho⟩
      rw [show E.signDetached (serverTranscript d).tHello.val d.serverIdSk = some sig from hs]
      rfl
    · rw [if_neg hf] at ho
      exact Or.inr ⟨fun h => hf h.2, _, _, Or.inr rfl, by decide, ho⟩

theorem sawClient_announced (c : Ctx Rng SS) (h : Wire.Hello) : Announced h c (c.sawClient h) := by
  have htake : Raises [] c (serverTakeHello c h) := by
    rw [serverTakeHello_eq]
    exact .same rfl rfl
  refine ⟨⟨_, htake.before (.emit _ _)⟩, ?_, ?_, ?_, ?_, ?_, ?_⟩
  all_goals
    obtain ⟨r, o, pk, -, he⟩ := sawClient_eq c h
    simp only [he, serverTakeHello_eq, Ctx.pending]

theorem serverHandleHello_raised (hr : c.role = .server) (h : Wire.Hello) :
    Raised E said (c.dueHello E h) c (serverHandleHello E c h).1 := by
  have hfree : c.answersClient E h ∨ h.role ≠ Role.client.code → c.dueHello E h = 1 := fun ha => by
    rw [dueHello_server hr, if_neg fun hn => ha.elim hn.2 fun hrole => hrole hn.1]
  unfold serverHandleHello
  split
  · rename_i hrole
    exact (Raised.refused _ _).due (hfree (Or.inr hrole))
  · rename_i hrole
    have hstuck : ¬ c.answersClient E h → c.dueHello E h = 2 := fun hn => by
      rw [dueHello_server hr, if_pos ⟨not_not.mp hrole, hn⟩]
    generalize hd : emitHelloReceived (serverTakeHello c h) = d
    have ha : Announced h c d := hd ▸ sawClient_announced c h
    obtain ⟨ev, hev⟩ := ha.raises
    obtain ⟨hdr, hdp, hdk, hds⟩ : d.role = .server ∧ d.havePeerEph ∧
        d.serverIdPk = c.serverIdPk ∧ d.serverIdSk = c.serverIdSk := by
      obtain ⟨r, o, pk, -, he⟩ := sawClient_eq c h
      rw [Ctx.sawClient, hd] at he
      simp only [he, serverTakeHello_eq, hr, and_self]
    have hsign : ((E.signDetached (serverTranscript d).tHello.val d.serverIdSk).isSome ∧
        d.fits helloBodyLen) ↔ ((E.signDetached (Wire.buildTHello protoVersion suiteV1 h.ephPk
          c.ephPk c.serverIdPk).val c.serverIdSk).isSome ∧ c.fits helloBodyLen) := by
      unfold Ctx.fits serverTranscript
      rw [ha.pending, ha.peerEphPk, ha.ephPk, hdk, hds]
    have htrans : Raises [ev] c (serverTranscript d) := hev.after (.same rfl rfl)
    obtain ⟨hok, sig, hq⟩ | ⟨hnot, d', rc, hd', hrc, hq⟩ := queueLocalHello_fits E hdr hdp <;>
      rw [hq]
    · have hqueued : Raises [ev] c (d.helloQueued sig) := htrans.after (.frame _)
      dsimp only
      rw [deriveSsKeysServer_keyed, show (d.helloQueued sig).ephPk = c.ephPk from ha.ephPk,
        show (d.helloQueued sig).ephSk = c.ephSk from ha.ephSk,
        show (d.helloQueued sig).peerEphPk = h.ephPk from ha.peerEphPk]
      obtain ⟨kc, ks, hk, he⟩ | ⟨hk, kc, he⟩ := keyed_cases E (d.helloQueued sig)
        (E.kxServerSessionKeys c.ephPk c.ephSk h.ephPk) <;> rw [he]
      · have hdone : Raises [ev] c (((d.helloQueued sig).withKeys kc ks).enter
            .ssHeader .waitPeerSs) := hqueued.after (.same rfl rfl)
        refine (Raised.steady hdone ha.awaiting (Or.inr (Or.inl rfl))).due (hfree (Or.inl ?_))
        rw [hsign] at hok
        exact ⟨hok.1, hok.2, by rw [hk]; rfl⟩
      · have hkc : Raises [ev] c ((d.helloQueued sig).withC2s kc) := hqueued.after (.same rfl rfl)
        refine (Raised.failed hkc ha.awaiting _ _).due (hstuck fun hn => ?_)
        have := hn.2.2
        rw [hk] at this
        cases this
    · have hraises : Raises [ev] c d' := by
        rcases hd' with rfl | rfl
        · exact htrans
        · exact htrans.after (.same rfl rfl)
      have haw : d'.authAwaitingDecide = c.authAwaitingDecide := by
        rcases hd' with rfl | rfl <;> exact ha.awaiting
      have hn : ¬ c.answersClient E h := fun hn => hnot (hsign.mpr ⟨hn.1, hn.2.1⟩)
      cases rc <;> first
        | exact absurd rfl hrc
        | exact (Raised.failed hraises haw _ _).due (hstuck hn)

/-- A step that raises nothing and leaves the session as it is. -/
structure Uneventful (c c' : Ctx Rng SS) : Prop where
  raises : Raises [] c c'
  awaiting : c'.authAwaitingDecide = c.authAwaitingDecide
  state : c'.state = c.state

namespace Uneventful

theorem refl (c : Ctx Rng SS) : Uneventful c c := ⟨.refl c, rfl, rfl⟩

theorem trans (h : Uneventful c c') (h' : Uneventful c' c'') : Uneventful c c'' :=
  ⟨h.raises.before h'.raises, h'.awaiting.trans h.awaiting, h'.state.trans h.state⟩

theorem raised (h : Uneventful c c') : Raised E said 0 c c' := .idle h.raises h.awaiting h.state

theorem failed (h : Uneventful c c') (code : Rc) (msg : String) :
    Raised E said 1 c (setError c' code msg) := .failed h.raises h.awaiting code msg

theorem send (plain : Bytes) : Uneventful c (ssSendPdu E c plain).1 := by
  refine ⟨.send plain, ?_, ssSendPdu_state E c plain⟩
  obtain ⟨st, ct, -, -, h⟩ | ⟨b, o, rc, -, -, -, h⟩ := ssSendPdu_cases E c plain
  · rw [h]
    rfl
  · rw [h]

end Uneventful

namespace Raised

variable {n : ℕ}

theorem behind (h : Raised E said n c' c'') (hi : Uneventful c c') : Raised E said n c c'' := by
  obtain ⟨evs, hn, hr, h1, h2, h3, h4⟩ := h
  rw [hi.awaiting] at h1
  rw [hi.state] at h2 h3 h4
  exact ⟨evs, hn, hi.raises.before hr, h1, h2, h3, h4⟩

theorem ahead (h : Raised E said n c c') (hi : Uneventful c' c'') (he : c''.error = c'.error)
    (hm : c''.errorMsg = c'.errorMsg) : Raised E said n c c'' := by
  obtain ⟨evs, hn, hr, h1, h2, h3, h4⟩ := h
  rw [← hi.awaiting] at h1
  rw [← hi.state] at h2 h3 h4
  rw [← he, ← hm] at h4
  exact ⟨evs, hn, hr.after hi.raises, h1, h2, h3, h4⟩

end Raised

theorem ssSendPdu_canSend (E : Env Rng SS) (c : Ctx Rng SS) (pdu : Bytes) :
    (ssSendPdu E c pdu).2 = .ok ↔ c.canSend E pdu := by
  obtain ⟨st, ct, hr, hp, h⟩ | ⟨b, o, rc, hn, -, hrc, h⟩ := ssSendPdu_cases E c pdu <;> rw [h]
  · refine iff_of_true rfl ⟨hr.ready, hr.nonempty, hr.record, hr.space, hr.limit, ?_⟩
    rw [hp]
    rfl
  · refine iff_of_false hrc fun ⟨h1, h2, h3, h4, h5, h6⟩ => ?_
    rw [hn ⟨h1, h2, h3, h4, h5⟩] at h6
    cases h6

theorem clientSendAuthDevice_stuck (E : Env Rng SS) {d : Ctx Rng SS} (hr : d.role = .client) :
    Uneventful d (clientSendAuthDevice E d).1 ∧
      ((clientSendAuthDevice E d).2 = .ok ↔ ¬ d.proofStuck E) := by
  unfold clientSendAuthDevice
  split
  · rename_i h
    have hsent := h.resolve_left (not_not.mpr hr)
    exact ⟨.refl d, iff_of_true rfl fun hs => hs.1 hsent⟩
  · rename_i hsent
    split
    · rename_i hhave
      refine ⟨.refl d, iff_of_true rfl fun ⟨_, h1, h2, h3, _⟩ => ?_⟩
      rcases hhave with h | h | h
      · exact h h1
      · exact h h2
      · exact h h3
    · rename_i hhave
      rw [not_or] at hsent
      push Not at hhave
      have hstuck : ¬ d.proofStuck E ↔ ∃ pdu ∈ d.devicePdu E, d.canSend E pdu :=
        ⟨fun h => by_contra fun hn => h ⟨hsent.2, hhave.1, hhave.2.1, hhave.2.2, hn⟩,
          fun h hs => hs.2.2.2.2 h⟩
      have hnone : d.devicePdu E = none → ¬ ¬ d.proofStuck E := fun h hn => by
        obtain ⟨pdu, hp, -⟩ := hstuck.mp hn
        rw [h] at hp
        cases hp
      dsimp only
      split
      · rename_i hb
        refine ⟨.refl d, iff_of_false (by rintro ⟨⟩) (hnone ?_)⟩
        simp only [Ctx.devicePdu, hb]
      · rename_i tAuth hb
        split
        · rename_i hs
          refine ⟨.refl d, iff_of_false (by rintro ⟨⟩) (hnone ?_)⟩
          simp only [Ctx.devicePdu, hb, hs]
        · rename_i sig hs
          split
          · rename_i he
            refine ⟨.refl d, iff_of_false (by rintro ⟨⟩) (hnone ?_)⟩
            simp only [Ctx.devicePdu, hb, hs, he]
            rfl
          · rename_i pdu he
            have hpdu : d.devicePdu E = some pdu := by
              simp only [Ctx.devicePdu, hb, hs, he]
              rfl
            have hsend := Uneventful.send (E := E) (c := d) pdu
            have hcan := ssSendPdu_canSend E d pdu
            have hiff : ¬ d.proofStuck E ↔ d.canSend E pdu := by
              rw [hstuck, hpdu]
              simp
            rw [hiff, ← hcan]
            generalize ssSendPdu E d pdu = r at hsend ⊢
            obtain ⟨d', rc⟩ := r
            cases rc with
            | ok =>
              have hsame : Raises [] d { d' with authSent := true } :=
                hsend.raises.after (.same rfl rfl)
              exact ⟨⟨hsame, hsend.awaiting, hsend.state⟩, by simp⟩
            | _ => exact ⟨hsend, by simp⟩

theorem clientTakeSsHeader_eq {st : SS} {rc : Rc}
    (h : clientSendAuthDevice E (c.clientKx st) = (c', rc)) : clientTakeSsHeader E c st =
      if rc = .ok then (c', true) else (setError c' .crypto "AUTH_DEVICE send", false) := by
  have h' : clientSendAuthDevice E (emitKxComplete { c with
      ssPull := st, ssPullReady := true, hs := .done, state := .auth }) = (c', rc) := h
  unfold clientTakeSsHeader
  dsimp only
  rw [h']
  cases rc <;> rfl

theorem clientHandleSsHeader_raised (hr : c.role = .client) {body : Bytes} (hl : body.length = 24) :
    Raised E said (c.dueHeader E body) c (clientHandleSsHeader E c ⟨body, hl⟩).1 := by
  have hone : ¬ ((E.ssInitPull ⟨body, hl⟩ c.ssKeyS2c).isSome ∧ c.proofStuck E) →
      c.dueHeader E body = 1 := fun hn => by
    rw [Ctx.dueHeader, dif_pos hl, if_neg fun h => hn h.2]
  unfold clientHandleSsHeader
  split
  · rename_i hi
    refine (Raised.refused _ _).due (hone fun h => ?_)
    have := h.1
    rw [hi] at this
    cases this
  · rename_i st hi
    have hkx : Raises [.kxComplete] c (c.clientKx st) := by
      unfold Ctx.clientKx emitKxComplete
      exact (Raises.same rfl rfl : Raises [] c ((c.withPull st).enter .auth .done)).before
        (.emit _ _)
    have hkxs : (c.clientKx st).authAwaitingDecide = c.authAwaitingDecide ∧
        (c.clientKx st).state = .auth := by
      rw [clientKx_eq]
      exact ⟨rfl, rfl⟩
    have hstuck : (c.clientKx st).proofStuck E ↔ c.proofStuck E := by
      rw [clientKx_eq]
      exact Iff.rfl
    have hrole : (c.clientKx st).role = .client := by
      rw [clientKx_eq]
      exact hr
    obtain ⟨hidle, hok⟩ := clientSendAuthDevice_stuck E hrole
    rw [hstuck] at hok
    generalize hsent : clientSendAuthDevice E (c.clientKx st) = r at hidle hok
    obtain ⟨d, rc⟩ := r
    rw [clientTakeSsHeader_eq hsent]
    have haw : d.authAwaitingDecide = c.authAwaitingDecide := hidle.awaiting.trans hkxs.1
    have hraises : Raises [.kxComplete] c d := hkx.after hidle.raises
    by_cases hrc : rc = .ok
    · rw [if_pos hrc]
      exact (Raised.steady hraises haw (Or.inr (Or.inr (hidle.state.trans hkxs.2)))).due
        (hone fun h => hok.mp hrc h.2)
    · have htwo : c.dueHeader E body = 2 := by
        rw [Ctx.dueHeader, dif_pos hl,
          if_pos ⟨hr, by rw [hi]; rfl, by_contra fun hn => hrc (hok.mpr hn)⟩]
      rw [if_neg hrc]
      exact (Raised.failed hraises haw _ _).due htwo

theorem serverHandleSsHeader_raised (header : SsHeader) :
    Raised E said 1 c (serverHandleSsHeader E c header).1 := by
  have h := serverHandleSsHeader_effect E c header
  generalize serverHandleSsHeader E c header = r at h
  cases h with
  | refused msg => exact .refused _ _
  | stuck st c' msg hl =>
    have hraises : Raises [] c c' :=
      (Raises.same rfl rfl : Raises [] c (c.withPull st)).before (.headerLost hl)
    have haw : c'.authAwaitingDecide = c.authAwaitingDecide := by cases hl <;> rfl
    exact .failed hraises haw _ _
  | accepted st st' own rng =>
    have hpush : Raises [] c ((c.withPull st).withPush st' rng) := .same rfl rfl
    have hframe : Raises [] c ((((c.withPull st).withPush st' rng).withFrame own.val).enter
        .auth .done) := (hpush.before (.frame own.val)).after (.same rfl rfl)
    refine Raised.steady (hframe.before (.emit _ .kxComplete)) ?_ (Or.inr (Or.inr ?_)) <;>
      rw [emit_eq] <;> rfl

theorem handlePeerHello_raised (body : Bytes) : Raised E said (match Wire.helloDecode body with
    | .error _ => 1
    | .ok h => c.dueHello E h) c (handlePeerHello E c body).1 := by
  unfold handlePeerHello
  cases Wire.helloDecode body with
  | error => exact .refused _ _
  | ok h =>
    dsimp only
    cases hr : c.role with
    | client => exact clientHandleHello_raised hr h
    | server => exact serverHandleHello_raised hr h

theorem handlePeerSsHeader_raised (body : Bytes) :
    Raised E said (c.dueHeader E body) c (handlePeerSsHeader E c body).1 := by
  unfold handlePeerSsHeader
  split
  · rename_i hl
    cases hr : c.role with
    | client => exact clientHandleSsHeader_raised hr hl
    | server =>
      refine (serverHandleSsHeader_raised _).due ?_
      rw [Ctx.dueHeader, dif_pos hl, if_neg (by simp [hr])]
  · rename_i hl
    exact (Raised.refused _ _).due (by rw [Ctx.dueHeader, dif_neg hl])

/-! ### Authentication -/

theorem takeAuthDevice_raises (E : Env Rng SS) (c : Ctx Rng SS) (d : Wire.AuthDevice)
    (user device : Bytes) : Raises [.authDevice d.clientIdPk (cstr d.username) (cstr d.deviceId)
      (pubkeyFingerprintSha256 E d.clientIdPk fpSha256Max) true] c
      (takeAuthDevice E c d user device) ∧ (takeAuthDevice E c d user device).state = c.state := by
  constructor
  · have htake : Raises [] c { c with peerIdPk := d.clientIdPk, havePeerId := true } :=
      .same rfl rfl
    refine (htake.before (.emit _ _)).after (.logged
      (l := [.authDevice d.clientIdPk d.clientSig user device]) rfl rfl (by simp [Occ.event?]))
  · unfold takeAuthDevice
    dsimp only [Ctx.log]
    rw [emit_eq]

theorem handleAuthDevicePdu_raised {plain : Bytes} {tag : UInt8} (hsaid : said plain tag)
    (ht : plain.headD 0 = pduAuthDevice) :
    Raised E said (c.dueAuth E plain) c (handleAuthDevicePdu E c plain).1 := by
  have hone : ¬ (c.role = .server ∧ ¬ (c.authAwaitingDecide ∨ c.authComplete ∨ c.authDecided) ∧
      c.haveTHello ∧ c.misSigned E plain) → c.dueAuth E plain = 1 := fun hn => by
    rw [Ctx.dueAuth, if_pos ht, if_neg hn]
  unfold handleAuthDevicePdu
  split
  · rename_i hrole
    exact (Raised.refused _ _).due (hone fun h => hrole h.1)
  · rename_i hrole
    split
    · rename_i hdup
      exact (Raised.refused _ _).due (hone fun h => h.2.1 hdup)
    · rename_i hdup
      split
      · rename_i hhave
        exact (Raised.refused _ _).due (hone fun h => hhave h.2.2.1)
      · rename_i hhave
        have hbad : c.misSigned E plain = false → c.dueAuth E plain = 1 := fun hb =>
          hone fun h => by
            have := h.2.2.2
            rw [hb] at this
            cases this
        split
        · rename_i hd
          exact (Raised.refused _ _).due (hbad (by simp only [Ctx.misSigned, hd]))
        · rename_i d hd
          dsimp only
          split
          · rename_i hb
            exact (Raised.refused _ _).due (hbad (by simp only [Ctx.misSigned, hd, hb]))
          · rename_i tAuth hb
            split
            · rename_i hv
              have hmis : c.misSigned E plain = true := by
                simpa only [Ctx.misSigned, hd, hb, decide_eq_true_eq] using hv
              have htwo : c.dueAuth E plain = 2 := by
                rw [Ctx.dueAuth, if_pos ht,
                  if_pos ⟨not_not.mp hrole, hdup, not_not.mp hhave, hmis⟩]
              have hsend : Uneventful c (serverSendAuthFail E (c.log .authBadSig)).1 := by
                have hlog : Uneventful c (c.log .authBadSig) :=
                  ⟨.logged (l := [.authBadSig]) rfl rfl (by simp [Occ.event?]), rfl, rfl⟩
                refine hlog.trans ?_
                unfold serverSendAuthFail
                split
                · exact .refl _
                · exact .send _
              have hraises := hsend.raises.before (.emit _ (.authFailed .badSig "bad device sig"))
              refine (Raised.failed hraises ?_ _ _).due htwo
              rw [emit_eq]
              exact hsend.awaiting
            · rename_i hv
              refine Raised.due (n := 1) ?_ (hbad ?_)
              swap
              · simpa only [Ctx.misSigned, hd, hb, decide_eq_false_iff_not] using hv
              obtain ⟨hraises, hstate⟩ := takeAuthDevice_raises E c d
                (d.username.take d.usernameLen) (d.deviceId.take d.deviceIdLen)
              refine ⟨_, rfl, hraises, fun _ _ => ⟨plain, tag, d, hsaid, hd, by simp⟩, ?_, ?_, ?_⟩
              all_goals
                intro h0 h1
                exact absurd (hstate.symm.trans h1) h0

theorem handleAuthOkPdu_raised (plain : Bytes) : Raised E said 1 c (handleAuthOkPdu c plain).1 := by
  have h := handleAuthOkPdu_effect c plain
  generalize handleAuthOkPdu c plain = r at h
  cases h with
  | refused msg => exact .refused _ _
  | accepted hrole =>
    have hraises : Raises [.authenticated] c
        (emitAuthenticated { c with authComplete := true, state := .ready }) :=
      (Raises.same rfl rfl : Raises [] c { c with authComplete := true, state := .ready }).before
        (.emit _ _)
    have hfields : (emitAuthenticated { c with authComplete := true, state := .ready }).state =
          .ready ∧
        (emitAuthenticated { c with authComplete := true, state := .ready }).authAwaitingDecide =
          c.authAwaitingDecide := by
      unfold emitAuthenticated
      rw [emit_eq]
      exact ⟨rfl, rfl⟩
    refine ⟨_, rfl, hraises, fun h0 h1 => ?_, fun _ _ => List.mem_singleton_self _, ?_, ?_⟩
    · rw [hfields.2, h0] at h1
      cases h1
    all_goals
      intro _ h1
      rw [hfields.1] at h1
      cases h1

theorem handleAuthFailPdu_raised {plain : Bytes} (ht : plain.headD 0 = pduAuthFail) :
    Raised E said (c.dueAuth E plain) c (handleAuthFailPdu c plain).1 := by
  have hne : plain.headD 0 ≠ pduAuthDevice := by
    rw [ht]
    decide
  unfold handleAuthFailPdu Ctx.dueAuth
  rw [if_neg hne]
  cases Wire.authFailDecode plain with
  | error => exact (Raised.refused _ _).due (if_neg fun h => by cases h.2)
  | ok =>
    have hraises := Raises.emit c (.authFailed .unspec "AUTH_FAIL received")
    refine (Raised.failed hraises ?_ _ _).due (if_pos ⟨ht, rfl⟩)
    rw [emit_eq]

end Sodchan
