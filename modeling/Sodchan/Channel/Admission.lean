import Sodchan.Channel.Credit
import Sodchan.Model.Format
import Sodchan.Session.Pinning

/-! # Requests that want an answer

A CHANNEL_OPEN is decided on the C string in its name field, and refused by a
reply that has to find room in the output. So is a PING answered. Nothing is
kept of a reply that finds none.
-/

namespace Sodchan

open ByteString

variable {Rng SS : Type} {E : Env Rng SS} {c c' d : Ctx Rng SS} {plain pdu name : Bytes}
  {tag : UInt8}
  {i : Fin maxChannelSlots} {s w m : UInt32}

/-- The slot of a channel that the peer has opened. -/
def Ctx.offer (c : Ctx Rng SS) (s w m : UInt32) (name : Bytes) : Channel :=
  { Channel.zero with
    state := .pending
    localId := c.nextLocalChannelId
    peerId := s
    havePeerId := true
    sendWindow := w
    maxPacket := Deed.packetOf c.terms m
    recvWindow := c.initialWindow
    name := name }

def Ctx.refusal (c : Ctx Rng SS) (s : UInt32) (name : Bytes) : Bytes :=
  if channelNameAllowed c name then
    [pduChannelOpenFail] ++ be32 s ++ be32 reasonResourceShortage ++ [0]
  else [pduChannelOpenFail] ++ be32 s ++ be32 reasonAdminProhibited ++ [11] ++ ascii "not allowed"

theorem ofBytes_refusal (c : Ctx Rng SS) (s : UInt32) (name : Bytes) :
    Pdu.ofBytes (c.refusal s name) = .channelOpenFail s := by
  have hfull : Wire.channelOpenFailEncode s reasonResourceShortage [] 64 =
      .ok ([pduChannelOpenFail] ++ be32 s ++ be32 reasonResourceShortage ++ [0]) := rfl
  have hname : Wire.channelOpenFailEncode s reasonAdminProhibited (ascii "not allowed") 64 =
      .ok ([pduChannelOpenFail] ++ be32 s ++ be32 reasonAdminProhibited ++ [11] ++
        ascii "not allowed") := rfl
  unfold Ctx.refusal
  split
  · exact Pdu.ofBytes_channelOpenFail hfull
  · exact Pdu.ofBytes_channelOpenFail hname

theorem handlePlain_taken (hst : c.muxes) (ht : Dispatched tag)
    (h : Pdu.ofBytes plain = .channelOpen s w m name) (ha : channelNameAllowed c name)
    (hs : chAlloc c = some (d, i)) :
    handlePlain E c plain tag =
      (emit (setCh (c.allocated i) i (c.offer s w m name))
        (.channelOpen c.nextLocalChannelId s name w (Deed.packetOf c.terms m)), true) := by
  obtain ⟨hh, p, hp, rfl, rfl, rfl, rfl⟩ := Pdu.channelOpen_inv h
  obtain ⟨-, -, rfl⟩ := chAlloc_eq_some hs
  have hself : (c.allocated i).channels i =
      { Channel.zero with localId := c.nextLocalChannelId } := Function.update_self _ _ _
  rw [handlePlain_channelOpen hst ht hh]
  unfold muxChannelOpen
  rw [hp]
  dsimp only
  rw [if_neg (not_not.mpr ha), hs]
  dsimp only
  rw [hself]
  rfl

theorem handlePlain_refused (hst : c.muxes) (ht : Dispatched tag)
    (h : Pdu.ofBytes plain = .channelOpen s w m name)
    (hn : ¬ (channelNameAllowed c name ∧ chAlloc c ≠ none)) :
    handlePlain E c plain tag = ((ssSendPdu E c (c.refusal s name)).1, true) := by
  obtain ⟨hh, p, hp, rfl, rfl, rfl, rfl⟩ := Pdu.channelOpen_inv h
  rw [handlePlain_channelOpen hst ht hh]
  unfold muxChannelOpen Ctx.refusal
  rw [hp]
  dsimp only
  by_cases ha : channelNameAllowed c (cstr p.name)
  · have hs : chAlloc c = none := not_not.mp fun hs => hn ⟨ha, hs⟩
    rw [if_neg (not_not.mpr ha), if_pos ha, hs]
    rfl
  · rw [if_pos ha, if_neg ha]
    rfl

/-- Nothing happens, or a pending channel and its event carry the name, which is on the list. -/
inductive Decided (c c' : Ctx Rng SS) (name : Bytes) : Prop where
  | ignored : c'.channels = c.channels → c'.emitted = c.emitted → Decided c c' name
  | pending {i : Fin maxChannelSlots} {s w m : UInt32} : Listed c.allowlist name →
      (c.channels i).state = .unused → (c'.channels i).state = .pending →
      (c'.channels i).name = name → (∀ j, j ≠ i → c'.channels j = c.channels j) →
      c'.emitted = c.emitted ++ [.channelOpen (c'.channels i).localId s name w m] →
      Decided c c' name

theorem ssSendPdu_decided (E : Env Rng SS) (c : Ctx Rng SS) (pdu name : Bytes) :
    Decided c (ssSendPdu E c pdu).1 name := by
  obtain ⟨st, ct, -, -, he⟩ | ⟨b, o, rc, -, -, -, he⟩ := ssSendPdu_cases E c pdu <;> rw [he]
  · refine .ignored rfl ?_
    simp [Ctx.pushed, Ctx.emitted, Occ.emitted?]
  · exact .ignored rfl rfl

theorem offered_eq (c : Ctx Rng SS) (i : Fin maxChannelSlots) (ch : Channel) (ev : Event) :
    (emit (setCh (c.allocated i) i ch) ev).channels = Function.update c.channels i ch ∧
    (emit (setCh (c.allocated i) i ch) ev).emitted = c.emitted ++ [ev] := by
  constructor
  · rw [emit_eq]
    simp [setCh, Ctx.allocated]
  · rw [emit_emitted]
    rfl

/-- A channel is taken for the part of the name before its first zero byte. -/
theorem decided_taken_iff {nul : Bytes} (ha : channelNameAllowed c (cstr nul))
    (hs : chAlloc c = some (d, i)) (s w m : UInt32) :
    Decided c (emit (setCh (c.allocated i) i (c.offer s w m (cstr nul)))
      (.channelOpen c.nextLocalChannelId s (cstr nul) w (Deed.packetOf c.terms m))) nul ↔
      0 ∉ nul := by
  obtain ⟨hu, -, -⟩ := chAlloc_eq_some hs
  obtain ⟨hch, hev⟩ := offered_eq c i (c.offer s w m (cstr nul))
    (.channelOpen c.nextLocalChannelId s (cstr nul) w (Deed.packetOf c.terms m))
  constructor
  · intro h hz
    cases h with
    | ignored _ he =>
      rw [hev] at he
      simpa using congrArg List.length he
    | pending _ _ _ _ _ he =>
      rw [hev] at he
      have hn := List.append_cancel_left he
      simp only [List.cons.injEq, Event.channelOpen.injEq] at hn
      have hc : cstr nul = nul := hn.1.2.2.1
      rw [← hc] at hz
      exact zero_not_mem_cstr nul hz
  · intro hz
    have hc : cstr nul = nul := cstr_of_zero_not_mem hz
    rw [hc] at ha hch hev ⊢
    have hself := congrFun hch i
    rw [Function.update_self] at hself
    refine .pending (i := i) (s := s) (w := w) (m := Deed.packetOf c.terms m)
      ((channelNameAllowed_iff c nul).mp ha) hu ?_ ?_ ?_ ?_
    · rw [hself]
      rfl
    · rw [hself]
      rfl
    · intro j hj
      rw [hch, Function.update_of_ne hj]
    · rw [hself]
      exact hev

/-- An OPEN is decided on the name it transmits exactly when the name has no zero byte, or what
stands before the first one is not on the list, or there is no slot for it. -/
theorem open_decided_iff (hst : c.state = .ready) (ht : Dispatched tag) {cap : ℕ}
    (h : Wire.channelOpenEncode s w m name cap = .ok plain) :
    Decided c (handlePlain E c plain tag).1 name ↔
      0 ∉ name ∨ ¬ channelNameAllowed c (cstr name) ∨ chAlloc c = none := by
  have hp := Pdu.ofBytes_channelOpen_cstr h
  have hmux : c.muxes := Or.inl hst
  by_cases hn : channelNameAllowed c (cstr name) ∧ chAlloc c ≠ none
  · obtain ⟨ha, hs⟩ := hn
    obtain ⟨⟨d, i⟩, hs⟩ := Option.ne_none_iff_exists'.mp hs
    rw [handlePlain_taken hmux ht hp ha hs, decided_taken_iff ha hs]
    simp [ha, hs]
  · rw [handlePlain_refused hmux ht hp hn]
    have hr : ¬ channelNameAllowed c (cstr name) ∨ chAlloc c = none := by
      by_cases ha : channelNameAllowed c (cstr name)
      · exact Or.inr (not_not.mp fun hs => hn ⟨ha, hs⟩)
      · exact Or.inl ha
    exact iff_of_true (ssSendPdu_decided E c _ name) (Or.inr hr)

def nulName : Bytes := ascii "tun" ++ [0, 120]

def plainNulOpen : Bytes := [pduChannelOpen] ++ List.replicate 12 0 ++ [5] ++ nulName

/-- A channel named tun is taken for a name that is on no list. -/
theorem open_undecided_plain :
    Reachable plainEnv plainServerReady ∧
    Wire.channelOpenEncode 0 0 0 nulName 128 = .ok plainNulOpen ∧
    ¬ Decided plainServerReady
      (handlePlain plainEnv plainServerReady plainNulOpen tagMessage).1 nulName := by
  refine ⟨reachable_plainServerReady, by decide, ?_⟩
  have hch : ((handlePlain plainEnv plainServerReady plainNulOpen tagMessage).1.channels
      slot0).name = ascii "tun" := by decide +kernel
  have h0 : (plainServerReady.channels slot0).name = [] := by decide +kernel
  rintro (⟨hc, -⟩ | ⟨-, -, -, hn, hj, -⟩)
  · rw [hc, h0] at hch
    exact absurd hch (by decide)
  · rename_i i _ _ _
    by_cases hi : slot0 = i
    · rw [← hi, hch] at hn
      exact absurd hn (by decide)
    · rw [hj slot0 hi, h0] at hch
      exact absurd hch (by decide)

theorem open_decided_iff_plain :
    Decided plainServerReady (handlePlain plainEnv plainServerReady plainOpen tagMessage).1
      (ascii "tun") ↔
    0 ∉ ascii "tun" ∨ ¬ channelNameAllowed plainServerReady (cstr (ascii "tun")) ∨
      chAlloc plainServerReady = none := by
  have hst : plainServerReady.state = .ready := by decide +kernel
  have henc : Wire.channelOpenEncode 0 0 0 (ascii "tun") 128 = .ok plainOpen := by decide
  exact open_decided_iff hst ⟨by decide, by decide⟩ henc

theorem Emits.sent_ne (h : Emits E c c' pdu) : c'.sent ≠ c.sent := by
  intro he
  have hl := congrArg List.length (he.symm.trans h.sent)
  rw [List.length_append] at hl
  exact absurd hl (Nat.ne_of_lt (Nat.lt_succ_self _))

/-- The PDU passes all guards of `ssSendPdu`, the push included. -/
structure CanSend (E : Env Rng SS) (c : Ctx Rng SS) (pdu : Bytes) : Prop where
  room : SendRoom E c pdu
  push : (E.ssPush c.ssPush pdu tagMessage).isSome

theorem CanSend.emits (h : CanSend E c pdu) : Emits E c (ssSendPdu E c pdu).1 pdu := by
  obtain ⟨st, ct, -, hpush, he⟩ | ⟨b, o, rc, hno, -, -, he⟩ := ssSendPdu_cases E c pdu
  · rw [he]
    exact .pushed hpush
  · have hsome := h.push
    rw [hno h.room] at hsome
    cases hsome

theorem Emits.canSend {pdu' : Bytes} (h : Emits E c (ssSendPdu E c pdu).1 pdu') :
    CanSend E c pdu := by
  obtain ⟨st, ct, hroom, hpush, -⟩ | ⟨b, o, rc, -, -, -, he⟩ := ssSendPdu_cases E c pdu
  · exact ⟨hroom, Option.isSome_iff_exists.mpr ⟨_, hpush⟩⟩
  · rw [he] at h
    exact absurd rfl h.sent_ne

theorem canSend_emit (ev : Event) : CanSend E (emit c ev) pdu ↔ CanSend E c pdu := by
  rw [emit_eq]
  exact ⟨fun ⟨⟨h1, h2, h3, h4, h5⟩, h6⟩ => ⟨⟨h1, h2, h3, h4, h5⟩, h6⟩,
    fun ⟨⟨h1, h2, h3, h4, h5⟩, h6⟩ => ⟨⟨h1, h2, h3, h4, h5⟩, h6⟩⟩

theorem ssSendPdu_channels (E : Env Rng SS) (c : Ctx Rng SS) (pdu : Bytes) :
    (ssSendPdu E c pdu).1.channels = c.channels := by
  obtain ⟨st, ct, -, -, he⟩ | ⟨b, o, rc, -, -, -, he⟩ := ssSendPdu_cases E c pdu
  · rw [he]
    rfl
  · rw [he]

/-- A channel is pending for the sender of an OPEN, with its id and window. -/
def PendingFor (c c' : Ctx Rng SS) (s w : UInt32) : Prop :=
  ∃ i, (c.channels i).state = .unused ∧ (c'.channels i).state = .pending ∧
    (c'.channels i).peerId = s ∧ (c'.channels i).sendWindow = w

def FailSent (E : Env Rng SS) (c c' : Ctx Rng SS) (s : UInt32) : Prop :=
  ∃ pdu, Pdu.ofBytes pdu = .channelOpenFail s ∧ Emits E c c' pdu

def PongSent (E : Env Rng SS) (c c' : Ctx Rng SS) (word : UInt32) : Prop :=
  ∃ pdu, Wire.pongDecode pdu = .ok word ∧ Emits E c c' pdu

theorem pingDecode_headD {word : UInt32} (h : Wire.pingDecode plain = .ok word) :
    plain.headD 0 = pduPing := by
  have hd : decode .ping 0 0 plain = .ok (.ping word, 0, 0) := by
    unfold decode
    rw [h]
    rfl
  rw [List.headD_eq_head?_getD, decode_type hd (by decide)]
  rfl

theorem handlePlain_pong (hst : c.muxes) (ht : Dispatched tag) {word : UInt32}
    (h : Wire.pingDecode plain = .ok word) :
    handlePlain E c plain tag =
      ((ssSendPdu E (emit c .ping) ([pduPong] ++ be32 word)).1, true) := by
  rw [handlePlain_ping hst ht (pingDecode_headD h)]
  unfold muxPing
  rw [h]
  rfl

theorem emits_emit_iff (ev : Event) {pdu' : Bytes} :
    Emits E c (ssSendPdu E (emit c ev) pdu).1 pdu' ↔
      Emits E (emit c ev) (ssSendPdu E (emit c ev) pdu).1 pdu' := by
  have hs : (emit c ev).ssPush = c.ssPush := by rw [emit_eq]
  have hp : (emit c ev).pending = c.pending := by
    rw [emit_eq]
    rfl
  have ha : (emit c ev).appended = c.appended :=
    emit_filterMap (fun _ => rfl) (fun _ => rfl) c ev
  have hn : (emit c ev).sent = c.sent := emit_filterMap (fun _ => rfl) (fun _ => rfl) c ev
  exact ⟨fun h => h.before hs.symm hp.symm ha.symm hn.symm, fun h => h.before hs hp ha hn⟩

theorem pongSent_iff (word : UInt32) :
    PongSent E c (ssSendPdu E (emit c .ping) ([pduPong] ++ be32 word)).1 word ↔
      CanSend E c ([pduPong] ++ be32 word) := by
  constructor
  · rintro ⟨pdu, -, h⟩
    exact (canSend_emit _).mp ((emits_emit_iff _).mp h).canSend
  · intro h
    have henc : Wire.pongEncode word 8 = .ok ([pduPong] ++ be32 word) := rfl
    exact ⟨_, Wire.wordDecode_encode henc,
      (emits_emit_iff _).mpr ((canSend_emit _).mpr h).emits⟩

theorem failSent_iff (s : UInt32) (name : Bytes) :
    FailSent E c (ssSendPdu E c (c.refusal s name)).1 s ↔ CanSend E c (c.refusal s name) := by
  constructor
  · rintro ⟨pdu, -, h⟩
    exact h.canSend
  · intro h
    exact ⟨_, ofBytes_refusal c s name, h.emits⟩

/-- An OPEN and a PING are always consumed, and they are answered exactly when the OPEN can be
taken, or there is room for the reply. -/
theorem requests_answered_iff (hst : c.muxes) (ht : Dispatched tag) :
    (∀ s w m name plain, Pdu.ofBytes plain = .channelOpen s w m name →
      (handlePlain E c plain tag).2 = true ∧
      (Xor (PendingFor c (handlePlain E c plain tag).1 s w)
          (FailSent E c (handlePlain E c plain tag).1 s) ↔
        channelNameAllowed c name ∧ chAlloc c ≠ none ∨ CanSend E c (c.refusal s name))) ∧
    ∀ word plain, Wire.pingDecode plain = .ok word →
      (handlePlain E c plain tag).2 = true ∧
      (PongSent E c (handlePlain E c plain tag).1 word ↔
        CanSend E c ([pduPong] ++ be32 word)) := by
  constructor
  · intro s w m name plain h
    by_cases hn : channelNameAllowed c name ∧ chAlloc c ≠ none
    · obtain ⟨ha, hs⟩ := hn
      obtain ⟨⟨d, i⟩, hs'⟩ := Option.ne_none_iff_exists'.mp hs
      rw [handlePlain_taken hst ht h ha hs']
      obtain ⟨hch, hev⟩ := offered_eq c i (c.offer s w m name)
        (.channelOpen c.nextLocalChannelId s name w (Deed.packetOf c.terms m))
      refine ⟨rfl, iff_of_true (Or.inl ⟨⟨i, (chAlloc_eq_some hs').1, ?_⟩, ?_⟩) (Or.inl ⟨ha, hs⟩)⟩
      · rw [hch, Function.update_self]
        exact ⟨rfl, rfl, rfl⟩
      · rintro ⟨pdu, -, he⟩
        have hsent : (emit (setCh (c.allocated i) i (c.offer s w m name)) (.channelOpen
            c.nextLocalChannelId s name w (Deed.packetOf c.terms m))).sent = c.sent :=
          emit_filterMap (fun _ => rfl) (fun _ => rfl) _ _
        exact he.sent_ne hsent
    · rw [handlePlain_refused hst ht h hn, failSent_iff]
      have hpending : ¬ PendingFor c (ssSendPdu E c (c.refusal s name)).1 s w := by
        rintro ⟨i, hu, hp, -⟩
        rw [ssSendPdu_channels, hu] at hp
        cases hp
      exact ⟨rfl, by simp [Xor, hpending, hn]⟩
  · intro word plain h
    rw [handlePlain_pong hst ht h]
    exact ⟨rfl, pongSent_iff word⟩

/-- A client without keys whose records are too small for an OPEN_FAIL. -/
def plainTightClient : Config where
  serverIdPk := some (plainKey 5)
  maxRecordSize := 15

def plainTightStart : Ctx Unit Unit :=
  (create plainEnv .client (some plainTightClient) () true).get (by decide +kernel)

def plainTightReady : Ctx Unit Unit :=
  play plainEnv plainTightStart (plainClientAuth ++ [.feedInput (plainRecord [pduAuthOk, 0, 0])])

theorem reachable_plainTightReady : Reachable plainEnv plainTightReady :=
  reachable_play (Option.some_get _).symm _

def plainLetterOpen : Bytes := [pduChannelOpen] ++ List.replicate 12 0 ++ [1, 120]

/-- An OPEN that is consumed and neither taken nor refused. -/
theorem request_unanswered_plain :
    Reachable plainEnv plainTightReady ∧ plainTightReady.state = .ready ∧
    Pdu.ofBytes plainLetterOpen = .channelOpen 0 0 0 [120] ∧
    (handlePlain plainEnv plainTightReady plainLetterOpen tagMessage).2 = true ∧
    (handlePlain plainEnv plainTightReady plainLetterOpen tagMessage).1.state = .ready ∧
    ¬ Xor (PendingFor plainTightReady
        (handlePlain plainEnv plainTightReady plainLetterOpen tagMessage).1 0 0)
      (FailSent plainEnv plainTightReady
        (handlePlain plainEnv plainTightReady plainLetterOpen tagMessage).1 0) := by
  have hslots : ∀ i, ((handlePlain plainEnv plainTightReady plainLetterOpen tagMessage).1.channels
      i).state = .unused := by decide +kernel
  have hsent : (handlePlain plainEnv plainTightReady plainLetterOpen tagMessage).1.sent =
      plainTightReady.sent := by decide +kernel
  refine ⟨reachable_plainTightReady, by decide +kernel, by decide +kernel, by decide +kernel,
    by decide +kernel, ?_⟩
  rintro (⟨⟨i, -, hp, -⟩, -⟩ | ⟨⟨pdu, -, he⟩, -⟩)
  · rw [hslots i] at hp
    cases hp
  · exact he.sent_ne hsent

theorem requests_answered_iff_plain :
    PongSent plainEnv plainServerReady
      (handlePlain plainEnv plainServerReady ([pduPing] ++ be32 7) tagMessage).1 7 ↔
      CanSend plainEnv plainServerReady ([pduPong] ++ be32 7) := by
  have hst : plainServerReady.muxes := Or.inl (by decide +kernel)
  have henc : Wire.pingEncode 7 8 = .ok ([pduPing] ++ be32 7) := rfl
  have hping : Wire.pingDecode ([pduPing] ++ be32 7) = .ok 7 := Wire.wordDecode_encode henc
  exact ((requests_answered_iff hst ⟨by decide, by decide⟩).2 7 _ hping).2

end Sodchan
