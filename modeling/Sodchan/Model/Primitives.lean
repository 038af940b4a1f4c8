import Sodchan.Model.Traffic

/-! # What an endpoint does by itself

The handlers of inbound PDUs and the channel calls are built from a few
primitives, so a relation that all of them respect is respected by every
handler and by every such call.
-/

namespace Sodchan

open ByteString

variable {Rng SS : Type} {E : Env Rng SS} {c : Ctx Rng SS}

/-- The errors of the dispatcher of channel PDUs. -/
def muxErrors : List String :=
  ["OPEN decode", "CONFIRM decode", "CONFIRM unknown", "OPEN_FAIL decode", "DATA decode",
    "DATA bad ch", "DATA not open", "DATA over window", "DATA over max", "WINDOW decode",
    "EOF decode", "CLOSE decode", "PING decode", "DISCONNECT decode", "unknown mux pdu"]

/-- A relation respected by all that a handler of channel PDUs is built from; `sends` tells
whether sending and taking a slot are among it. -/
structure Respected (E : Env Rng SS) (sends : Prop) (R : Ctx Rng SS → Ctx Rng SS → Prop) :
    Prop where
  refl : ∀ c, R c c
  trans : ∀ {c c' c''}, R c c' → R c' c'' → R c c''
  emit : ∀ c ev, R c (emit c ev)
  error : ∀ c code msg, msg ∈ muxErrors → R c (setError c code msg)
  noChannel : ∀ c r, R c (c.log (.noChannel r))
  slot : ∀ c i ch, R c (setCh c i ch)
  free : ∀ c i, R c (chFree c i)
  close : ∀ c, R c { c with state := .closed }
  send : sends → ∀ c pdu, R c (ssSendPdu E c pdu).1
  alloc : sends → ∀ c c' i, chAlloc c = some (c', i) → R c c'

/-- A plaintext that is neither a PING nor a CHANNEL_OPEN. -/
structure Unanswered (plain : Bytes) : Prop where
  ping : ∀ w, Wire.pingDecode plain ≠ .ok w
  open_ : ∀ p, Wire.channelOpenDecode plain (channelNameMax + 1) ≠ .ok p

theorem isOk_eq_false {ε α : Type} {x : Except ε α} : x.isOk = false ↔ ∀ a, x ≠ .ok a := by
  cases x <;> simp [Except.isOk, Except.toBool]

instance (plain : Bytes) : Decidable (Unanswered plain) :=
  decidable_of_iff ((Wire.pingDecode plain).isOk = false ∧
      (Wire.channelOpenDecode plain (channelNameMax + 1)).isOk = false)
    ((and_congr isOk_eq_false isOk_eq_false).trans ⟨fun h => ⟨h.1, h.2⟩, fun h => ⟨h.1, h.2⟩⟩)

namespace Respected

variable {sends : Prop} {R : Ctx Rng SS → Ctx Rng SS → Prop}

theorem unknown (h : Respected E sends R) (r : UInt32) (code : Rc) {msg : String}
    (hm : msg ∈ muxErrors) : R c (setError (c.log (.noChannel r)) code msg) :=
  h.trans (h.noChannel c r) (h.error _ code msg hm)

theorem change (h : Respected E sends R) (i : Fin maxChannelSlots) (ch : Channel) (ev : Event) :
    R c (Sodchan.emit (setCh c i ch) ev) := h.trans (h.slot c i ch) (h.emit _ ev)

theorem sendReply (h : Respected E sends R) (hs : sends) (reply : Except Rc Bytes) :
    R c (sendReply E c reply) := by
  unfold Sodchan.sendReply
  split
  · exact h.send hs c _
  · exact h.send hs c _

theorem muxChannelOpen (h : Respected E sends R) {plain : Bytes}
    (hs : sends ∨ Unanswered plain) : R c (muxChannelOpen E c plain).1 := by
  unfold Sodchan.muxChannelOpen
  split
  · exact h.error c _ _ (by decide)
  · rename_i p hp
    have hs : sends := hs.resolve_right fun hu => hu.open_ p hp
    dsimp only
    split
    · dsimp only
      exact h.sendReply hs _
    · split
      · dsimp only
        exact h.sendReply hs _
      · rename_i d i ha
        exact h.trans (h.alloc hs c d i ha) (h.change i _ _)

theorem muxChannelOpenConfirm (h : Respected E sends R) (plain : Bytes) :
    R c (muxChannelOpenConfirm c plain).1 := by
  unfold Sodchan.muxChannelOpenConfirm
  split
  · exact h.error c _ _ (by decide)
  · split
    · exact h.unknown _ _ (by decide)
    · split
      · exact h.error c _ _ (by decide)
      · exact h.change _ _ _

theorem muxChannelOpenFail (h : Respected E sends R) (plain : Bytes) :
    R c (muxChannelOpenFail c plain).1 := by
  unfold Sodchan.muxChannelOpenFail
  split
  · exact h.error c _ _ (by decide)
  · split
    · exact h.refl c
    · split
      · exact h.trans (h.emit c _) (h.free _ _)
      · exact h.refl c

theorem muxChannelData (h : Respected E sends R) (plain : Bytes) :
    R c (muxChannelData c plain).1 := by
  unfold Sodchan.muxChannelData
  split
  · exact h.error c _ _ (by decide)
  · split
    · exact h.unknown _ _ (by decide)
    · dsimp only
      split_ifs
      · exact h.error c _ _ (by decide)
      · exact h.error c _ _ (by decide)
      · exact h.error c _ _ (by decide)
      · exact h.error c _ _ (by decide)
      · exact h.change _ _ _

theorem muxChannelWindow (h : Respected E sends R) (plain : Bytes) :
    R c (muxChannelWindow c plain).1 := by
  unfold Sodchan.muxChannelWindow
  split
  · exact h.error c _ _ (by decide)
  · split
    · exact h.refl c
    · dsimp only
      split_ifs
      · exact h.refl c
      · exact h.change _ _ _

theorem muxChannelEof (h : Respected E sends R) (plain : Bytes) :
    R c (muxChannelEof c plain).1 := by
  unfold Sodchan.muxChannelEof
  split
  · exact h.error c _ _ (by decide)
  · split
    · exact h.refl c
    · exact h.change _ _ _

theorem muxChannelClose (h : Respected E sends R) (plain : Bytes) :
    R c (muxChannelClose c plain).1 := by
  unfold Sodchan.muxChannelClose
  split
  · exact h.error c _ _ (by decide)
  · split
    · exact h.refl c
    · exact h.trans (h.emit c _) (h.free _ _)

theorem muxPing (h : Respected E sends R) {plain : Bytes} (hs : sends ∨ Unanswered plain) :
    R c (muxPing E c plain).1 := by
  unfold Sodchan.muxPing
  split
  · exact h.error c _ _ (by decide)
  · rename_i w hw
    have hs : sends := hs.resolve_right fun hu => hu.ping w hw
    dsimp only
    split
    · exact h.emit c _
    · exact h.trans (h.emit c _) (h.send hs _ _)

theorem muxDisconnect (h : Respected E sends R) (plain : Bytes) :
    R c (muxDisconnect c plain).1 := by
  unfold Sodchan.muxDisconnect
  split
  · exact h.error c _ _ (by decide)
  · exact h.trans (h.emit c _) (h.close _)

/-- A relation that the primitives respect is respected by the dispatcher. -/
theorem handleMuxPdu (h : Respected E sends R) {plain : Bytes}
    (hs : sends ∨ Unanswered plain) : R c (handleMuxPdu E c plain).1 := by
  unfold Sodchan.handleMuxPdu
  dsimp only
  split_ifs
  · exact h.muxChannelOpen hs
  · exact h.muxChannelOpenConfirm plain
  · exact h.muxChannelOpenFail plain
  · exact h.muxChannelData plain
  · exact h.muxChannelWindow plain
  · exact h.muxChannelEof plain
  · exact h.muxChannelClose plain
  · exact h.muxPing hs
  · exact h.refl c
  · exact h.muxDisconnect plain
  · exact h.error c _ _ (by decide)

section Calls

theorem allocated (h : Respected E sends R) (hs : sends) {d : Ctx Rng SS}
    {i : Fin maxChannelSlots} (ha : chAlloc c = some (d, i)) (ch : Channel) : R c (setCh d i ch) :=
  h.trans (h.alloc hs c d i ha) (h.slot d i ch)

theorem channelOpen (h : Respected E sends R) (hs : sends) (name : Option Bytes) :
    R c (channelOpen E c name).1 := by
  unfold Sodchan.channelOpen
  split
  · exact h.refl c
  · split
    · exact h.refl c
    · split
      · exact h.refl c
      · split
        · exact h.refl c
        · split
          · exact h.refl c
          · split
            · exact h.refl c
            · rename_i d i ha
              dsimp only
              split
              · exact h.trans (h.allocated hs ha _) (h.free _ _)
              · rename_i pdu _
                split <;> rename_i e he <;> have hd := congrArg Prod.fst he <;>
                  dsimp only at hd ⊢ <;> rw [← hd]
                · exact h.trans (h.allocated hs ha _) (h.send hs _ pdu)
                · exact h.trans (h.trans (h.allocated hs ha _) (h.send hs _ pdu)) (h.free _ _)

theorem channelAccept (h : Respected E sends R) (hs : sends) (id : UInt32) (accept : Bool) :
    R c (channelAccept E c id accept).1 := by
  unfold Sodchan.channelAccept
  split
  · exact h.refl c
  · split
    · exact h.refl c
    · dsimp only
      split
      · exact h.refl c
      · split
        · exact h.refl c
        · split
          · split
            · exact h.refl c
            · rename_i pdu _
              have hsend := h.send hs c pdu
              split <;> rename_i he <;> rw [he] at hsend
              · exact h.trans hsend (h.change _ _ _)
              · exact hsend
          · split
            · exact h.refl c
            · rename_i pdu _
              have hsend := h.send hs c pdu
              split <;> rename_i he <;> rw [he] at hsend
              · exact h.trans hsend (h.free _ _)
              · exact hsend

theorem channelSend (h : Respected E sends R) (hs : sends) (id : UInt32) (data : Arg)
    (memOk : Bool) : R c (channelSend E c id data memOk).1 := by
  unfold Sodchan.channelSend
  split
  · exact h.refl c
  · split
    · exact h.refl c
    · split
      · exact h.refl c
      · dsimp only
        split_ifs
        all_goals first | exact h.refl c | skip
        split
        · exact h.refl c
        · rename_i pdu _
          have hsend := h.send hs c pdu
          split <;> rename_i he <;> rw [he] at hsend
          · exact h.trans hsend (h.slot _ _ _)
          · exact hsend

theorem channelEof (h : Respected E sends R) (hs : sends) (id : UInt32) :
    R c (channelEof E c id).1 := by
  unfold Sodchan.channelEof
  split
  · exact h.refl c
  · split
    · exact h.refl c
    · dsimp only
      split
      · exact h.refl c
      · split
        · exact h.refl c
        · split
          · exact h.refl c
          · rename_i pdu _
            have hsend := h.send hs c pdu
            split <;> rename_i he <;> rw [he] at hsend
            · exact h.trans hsend (h.slot _ _ _)
            · exact hsend

theorem channelClose (h : Respected E sends R) (hs : sends) (id : UInt32) :
    R c (channelClose E c id).1 := by
  unfold Sodchan.channelClose
  split
  · exact h.refl c
  · split
    · exact h.refl c
    · dsimp only
      split
      · exact h.refl c
      · refine h.trans ?_ (h.free _ _)
        unfold sendClose
        split
        · split
          · exact h.refl c
          · exact h.send hs c _
        · exact h.refl c

theorem channelWindowAdjust (h : Respected E sends R) (hs : sends) (id credit : UInt32) :
    R c (channelWindowAdjust E c id credit).1 := by
  unfold Sodchan.channelWindowAdjust
  split
  · exact h.refl c
  · split
    · exact h.refl c
    · split
      · exact h.refl c
      · dsimp only
        split
        · exact h.refl c
        · split
          · exact h.refl c
          · rename_i pdu _
            have hsend := h.send hs c pdu
            split <;> rename_i he <;> rw [he] at hsend
            · exact h.trans hsend (h.slot _ _ _)
            · exact hsend

theorem sendDisconnect (h : Respected E sends R) (hs : sends) (reason : UInt32) (text : Bytes) :
    R c (sendDisconnect E c reason text) := by
  unfold Sodchan.sendDisconnect
  split
  · exact h.refl c
  · exact h.send hs c _

end Calls

end Respected

end Sodchan
