import Sodchan.Model.Format

/-! # Indices of the wire format

A decoder that reads outside its buffer returns `fault`. None does, since each
checks the length before it reads, and none of the buffers that the code hands
to its encoders is too small.
-/

namespace Sodchan

open ByteString

namespace Wire

/-- No read was outside the buffer. -/
def InBounds {α : Type} (x : Except Rc α) : Prop := x ≠ .error .fault

namespace InBounds

variable {α β : Type} {x : Except Rc α} {f : α → Except Rc β}

theorem ok (a : α) : InBounds (.ok a : Except Rc α) := by rintro ⟨⟩

theorem bind (h : InBounds x) (hf : ∀ a, x = .ok a → InBounds (f a)) : InBounds (x >>= f) := by
  cases x with
  | error rc =>
    intro he
    exact h (congrArg Except.error (Except.error.inj he))
  | ok a => exact hf a rfl

theorem check {γ : Type} {p : Prop} [Decidable p] {rc : Rc} {g : γ → Except Rc β}
    {y : Except Rc β} (hrc : rc ≠ .fault) (hy : ¬ p → InBounds y) :
    InBounds (if p then throw rc >>= g else y) := by
  by_cases hp : p
  · rw [if_pos hp]
    intro he
    exact hrc (Except.error.inj he)
  · rw [if_neg hp]
    exact hy hp

theorem protocol {γ : Type} {p : Prop} [Decidable p] {g : γ → Except Rc β} {y : Except Rc β}
    (hy : ¬ p → InBounds y) : InBounds (if p then throw .protocol >>= g else y) :=
  check (by decide) hy

variable {p : Bytes} {i n : ℕ}

theorem rd (h : i < p.length) : InBounds (rd p i) := by
  unfold Wire.rd
  rw [List.getElem?_eq_getElem h]
  exact ok _

theorem rdBytes (h : i + n ≤ p.length) : InBounds (rdBytes p i n) := by
  unfold Wire.rdBytes
  rw [if_pos h]
  exact ok _

theorem rdArray (h : i + n ≤ p.length) : InBounds (rdArray p i n) := by
  unfold Wire.rdArray
  rw [dif_pos h]
  exact ok _

theorem getU16 (h : i + 2 ≤ p.length) : InBounds (getU16 p i) := by
  unfold Wire.getU16
  exact (rd (by omega)).bind fun _ _ => (rd (by omega)).bind fun _ _ => ok _

theorem getU32 (h : i + 4 ≤ p.length) : InBounds (getU32 p i) := by
  unfold Wire.getU32
  exact (rd (by omega)).bind fun _ _ => (rd (by omega)).bind fun _ _ =>
    (rd (by omega)).bind fun _ _ => (rd (by omega)).bind fun _ _ => ok _

end InBounds

theorem frameParseMax_inBounds (data : Bytes) (maxBody : ℕ) :
    InBounds (frameParseMax data maxBody) := by
  intro h
  obtain h | h := frameParseMax_error h <;> cases h

theorem helloDecode_inBounds (b : Bytes) : InBounds (helloDecode b) := by
  unfold helloDecode helloBodyLen
  refine .protocol fun hl => (InBounds.getU16 (by omega)).bind fun m _ => .protocol fun _ => ?_
  refine (InBounds.getU16 (by omega)).bind fun _ _ =>
    (InBounds.getU16 (by omega)).bind fun _ _ => ?_
  refine (InBounds.getU16 (by omega)).bind fun _ _ =>
    (InBounds.getU32 (by omega)).bind fun _ _ => ?_
  refine (InBounds.rdArray (by omega)).bind fun _ _ => ?_
  refine (InBounds.rdArray (by omega)).bind fun _ _ => ?_
  refine (InBounds.rdArray (by omega)).bind fun _ _ => ?_
  exact .protocol fun _ => .protocol fun _ => .ok _

theorem authDeviceDecode_inBounds (b : Bytes) (cap cap' : ℕ) :
    InBounds (authDeviceDecode b cap cap') := by
  unfold authDeviceDecode
  refine .protocol fun hl => (InBounds.rd (by omega)).bind fun _ _ => .protocol fun _ => ?_
  refine (InBounds.rdArray (by omega)).bind fun _ _ => ?_
  refine (InBounds.rdArray (by omega)).bind fun _ _ => (InBounds.rd (by omega)).bind fun u _ => ?_
  refine .protocol fun hu => (InBounds.rdBytes (by omega)).bind fun _ _ => ?_
  refine (InBounds.rd (by omega)).bind fun d _ => .protocol fun hd => .protocol fun _ => ?_
  exact (InBounds.rdBytes (by omega)).bind fun _ _ => .ok _

theorem authOkDecode_inBounds (b : Bytes) : InBounds (authOkDecode b) := by
  unfold authOkDecode
  refine .protocol fun hl => (InBounds.rd (by omega)).bind fun _ _ => .protocol fun _ => ?_
  refine (InBounds.getU16 (by omega)).bind fun c _ => .protocol fun hc => ?_
  exact InBounds.rdBytes (by omega)

theorem authFailDecode_inBounds (b : Bytes) : InBounds (authFailDecode b) := by
  unfold authFailDecode
  refine .protocol fun hl => (InBounds.rd (by omega)).bind fun _ _ => .protocol fun _ => ?_
  refine (InBounds.rd (by omega)).bind fun _ _ => (InBounds.rd (by omega)).bind fun _ _ => ?_
  exact .protocol fun _ => .ok _

theorem channelOpenDecode_inBounds (b : Bytes) (cap : ℕ) : InBounds (channelOpenDecode b cap) := by
  unfold channelOpenDecode
  refine .protocol fun hl => (InBounds.rd (by omega)).bind fun _ _ => .protocol fun _ => ?_
  refine (InBounds.getU32 (by omega)).bind fun _ _ =>
    (InBounds.getU32 (by omega)).bind fun _ _ => ?_
  refine (InBounds.getU32 (by omega)).bind fun _ _ => (InBounds.rd (by omega)).bind fun n _ => ?_
  exact .protocol fun hn => (InBounds.rdBytes (by omega)).bind fun _ _ => .ok _

theorem channelOpenConfirmDecode_inBounds (b : Bytes) : InBounds (channelOpenConfirmDecode b) := by
  unfold channelOpenConfirmDecode
  refine .protocol fun hl => (InBounds.rd (by omega)).bind fun _ _ => .protocol fun _ => ?_
  refine (InBounds.getU32 (by omega)).bind fun _ _ =>
    (InBounds.getU32 (by omega)).bind fun _ _ => ?_
  exact (InBounds.getU32 (by omega)).bind fun _ _ =>
    (InBounds.getU32 (by omega)).bind fun _ _ => .ok _

theorem channelOpenFailDecode_inBounds (b : Bytes) (cap : ℕ) :
    InBounds (channelOpenFailDecode b cap) := by
  unfold channelOpenFailDecode
  refine .protocol fun hl => (InBounds.rd (by omega)).bind fun _ _ => .protocol fun _ => ?_
  refine (InBounds.getU32 (by omega)).bind fun _ _ =>
    (InBounds.getU32 (by omega)).bind fun _ _ => ?_
  refine (InBounds.rd (by omega)).bind fun n _ => .protocol fun hn => ?_
  exact (InBounds.rdBytes (by omega)).bind fun _ _ => .ok _

theorem channelDataDecode_inBounds (b : Bytes) : InBounds (channelDataDecode b) := by
  unfold channelDataDecode
  refine .protocol fun hl => (InBounds.rd (by omega)).bind fun _ _ => .protocol fun _ => ?_
  refine (InBounds.getU32 (by omega)).bind fun _ _ =>
    (InBounds.getU32 (by omega)).bind fun n _ => ?_
  exact .protocol fun hn => (InBounds.rdBytes (by omega)).bind fun _ _ => .ok _

theorem channelWindowDecode_inBounds (b : Bytes) : InBounds (channelWindowDecode b) := by
  unfold channelWindowDecode
  refine .protocol fun hl => (InBounds.rd (by omega)).bind fun _ _ => .protocol fun _ => ?_
  exact (InBounds.getU32 (by omega)).bind fun _ _ =>
    (InBounds.getU32 (by omega)).bind fun _ _ => .ok _

theorem wordDecode_inBounds (type : UInt8) (b : Bytes) : InBounds (wordDecode type b) := by
  unfold wordDecode
  refine .protocol fun hl => (InBounds.rd (by omega)).bind fun _ _ => .protocol fun _ => ?_
  exact InBounds.getU32 (by omega)

theorem disconnectDecode_inBounds (b : Bytes) (cap : ℕ) : InBounds (disconnectDecode b cap) := by
  unfold disconnectDecode
  refine .protocol fun hl => (InBounds.rd (by omega)).bind fun _ _ => .protocol fun _ => ?_
  refine (InBounds.getU32 (by omega)).bind fun _ _ => (InBounds.rd (by omega)).bind fun n _ => ?_
  exact .protocol fun hn => (InBounds.rdBytes (by omega)).bind fun _ _ => .ok _

theorem pduType_inBounds (b : Bytes) : InBounds (pduType b) := by
  unfold pduType
  split
  · rintro ⟨⟩
  · exact InBounds.rd (by omega)

theorem InBounds.map {α β : Type} {x : Except Rc α} (h : InBounds x) (f : α → β) :
    InBounds (x.map f) := by
  cases x with
  | error rc =>
    intro he
    exact h (congrArg Except.error (Except.error.inj he))
  | ok a => exact .ok _

end Wire

/-- No decoder reads outside its buffer. -/
theorem decode_inBounds (k : Kind) (cap cap' : ℕ) (b : Bytes) :
    Wire.InBounds (decode k cap cap' b) := by
  cases k
  · exact (Wire.helloDecode_inBounds b).map _
  · exact (Wire.channelOpenDecode_inBounds b cap).map _
  · exact (Wire.channelOpenConfirmDecode_inBounds b).map _
  · exact (Wire.channelOpenFailDecode_inBounds b cap).map _
  · exact (Wire.channelWindowDecode_inBounds b).map _
  · exact (Wire.channelDataDecode_inBounds b).map _
  · exact (Wire.wordDecode_inBounds _ b).map _
  · exact (Wire.wordDecode_inBounds _ b).map _
  · exact (Wire.wordDecode_inBounds _ b).map _
  · exact (Wire.wordDecode_inBounds _ b).map _
  · exact (Wire.disconnectDecode_inBounds b cap).map _
  · exact (Wire.authDeviceDecode_inBounds b cap cap').map _
  · exact (Wire.authOkDecode_inBounds b).map _
  · exact (Wire.authFailDecode_inBounds b).map _

namespace Wire

variable {cap : ℕ} {b : Bytes}

theorem helloEncode_length {h : Hello} (he : helloEncode h cap = .ok b) : b.length ≤ cap := by
  unfold helloEncode at he
  split_ifs at he with hc
  obtain rfl := Except.ok.inj he
  have hl := hc
  simp only [helloBodyLen] at hl
  simp [putU16, putU32]
  omega

theorem frameEncodeMax_length {body : Bytes} {maxBody : ℕ}
    (h : frameEncodeMax body maxBody cap = .ok b) : b.length ≤ cap := by
  unfold frameEncodeMax at h
  split_ifs at h
  obtain rfl := Except.ok.inj h
  simp [putU32]
  omega

theorem buildTAuth_length {t : BytesN tHelloLen} {pk : Key} {user device : Bytes}
    (h : buildTAuth t pk user device cap = .ok b) : b.length ≤ cap := by
  unfold buildTAuth at h
  split_ifs at h
  obtain rfl := Except.ok.inj h
  simp [length_domClientAuth]
  omega

end Wire

/-- No encoder writes beyond its buffer. -/
theorem encode_length {x : Message} {cap : ℕ} {b : Bytes} (h : x.encode cap = .ok b) :
    b.length ≤ cap := by
  cases x
  · exact Wire.helloEncode_length h
  · exact Wire.channelOpenEncode_length h
  · exact Wire.channelOpenConfirmEncode_length h
  · exact Wire.channelOpenFailEncode_length h
  · exact Wire.channelWindowEncode_length h
  · exact Wire.channelDataEncode_length h
  · exact Wire.wordEncode_length h
  · exact Wire.wordEncode_length h
  · exact Wire.wordEncode_length h
  · exact Wire.wordEncode_length h
  · exact Wire.disconnectEncode_length h
  · exact Wire.authDeviceEncode_length h
  · exact Wire.authOkEncode_length h
  · exact Wire.authFailEncode_length h

/-- What the code encodes into its own buffers, and the size of the buffer. -/
inductive LocalBuffer : Message → ℕ → Prop where
  | hello (h : Wire.Hello) : LocalBuffer (.hello h) helloBodyLen
  | channelOpen (sender initWindow maxPacket : UInt32) (name : Bytes) :
      LocalBuffer (.channelOpen sender initWindow maxPacket name) 128
  | channelOpenConfirm (sender recipient initWindow maxPacket : UInt32) :
      LocalBuffer (.channelOpenConfirm sender recipient initWindow maxPacket) 64
  | notAllowed (recipient : UInt32) :
      LocalBuffer (.channelOpenFail recipient reasonAdminProhibited (ascii "not allowed")) 64
  | refused (recipient reason : UInt32) : LocalBuffer (.channelOpenFail recipient reason []) 64
  | channelWindow (recipient add : UInt32) : LocalBuffer (.channelWindow recipient add) 16
  /-- The buffer of `channelSend` is allocated for the data at hand. -/
  | channelData (recipient : UInt32) (data : Bytes) :
      LocalBuffer (.channelData recipient data) (9 + data.length)
  | channelEof (recipient : UInt32) : LocalBuffer (.channelEof recipient) 8
  | channelClose (recipient : UInt32) : LocalBuffer (.channelClose recipient) 8
  | pong (word : UInt32) : LocalBuffer (.pong word) 8
  | disconnect (reason : UInt32) (msg : Bytes) :
      LocalBuffer (.disconnect reason (msg.take 64)) 128
  | authDevice (clientIdPk : Key) (clientSig : Sig) (username deviceId : Bytes) :
      LocalBuffer (.authDevice clientIdPk clientSig username deviceId) 512
  | authOk (claims : Bytes) : LocalBuffer (.authOk claims) (3 + claimsMax)
  | authFail (reason msgLen : UInt8) : LocalBuffer (.authFail reason msgLen) 8

/-- None of them is too small. -/
theorem LocalBuffer.encode_ne_full {x : Message} {cap : ℕ} (h : LocalBuffer x cap) :
    x.encode cap ≠ .error .full := by
  cases h with
  | hello h =>
    rw [Message.encode, Wire.helloEncode, if_neg (lt_irrefl _)]
    rintro ⟨⟩
  | channelOpen s w m name =>
    rw [Message.encode, Wire.channelOpenEncode, channelNameMax]
    split
    · rintro ⟨⟩
    · rw [if_neg (by omega)]
      rintro ⟨⟩
  | channelOpenConfirm | channelWindow | channelEof | channelClose | pong | authFail | refused =>
    rintro ⟨⟩
  | notAllowed => rintro ⟨⟩
  | channelData r data =>
    rw [Message.encode, Wire.channelDataEncode]
    split
    · rintro ⟨⟩
    · rw [if_neg (by omega)]
      rintro ⟨⟩
  | disconnect reason msg =>
    have hl : (msg.take 64).length ≤ 64 := List.length_take_le _ _
    rw [Message.encode, Wire.disconnectEncode, if_neg (by omega), if_neg (by omega)]
    rintro ⟨⟩
  | authDevice pk sig user device =>
    rw [Message.encode, Wire.authDeviceEncode, userMax, deviceIdMax]
    split
    · rintro ⟨⟩
    · rw [if_neg (by omega)]
      rintro ⟨⟩
  | authOk claims =>
    rw [Message.encode, Wire.authOkEncode, claimsMax]
    split
    · rintro ⟨⟩
    · rw [if_neg (by omega)]
      rintro ⟨⟩

theorem buildTAuth_ne_full (t : BytesN tHelloLen) (pk : Key) (user device : Bytes) :
    Wire.buildTAuth t pk user device 512 ≠ .error .full := by
  unfold Wire.buildTAuth userMax deviceIdMax tHelloLen
  split
  · rintro ⟨⟩
  · rw [if_neg (by omega)]
    rintro ⟨⟩

theorem frameEncode_ne_full (body : Bytes) :
    Wire.frameEncode body (4 + maxClearFrame) ≠ .error .full := by
  unfold Wire.frameEncode Wire.frameEncodeMax
  split
  · rintro ⟨⟩
  · split
    · rintro ⟨⟩
    · rw [if_neg (by omega)]
      rintro ⟨⟩

end Sodchan
