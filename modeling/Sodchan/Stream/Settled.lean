import Sodchan.Session.Lifecycle
import Sodchan.Stream.Blind

/-! # Processed input

The loop of `process_input` is incremental, so it leaves a context in which it
would do nothing more, and no other call of the host changes that. What is left
in the buffer of a live session is therefore less than one frame.
-/

namespace Sodchan

variable {Rng SS : Type} {E : Env Rng SS} {c c' : Ctx Rng SS}

/-- A handler that returns an error has ended the session. -/
def Fatal (r : Ctx Rng SS × Bool) : Prop := r.2 = false → r.1.state = .error

theorem fatal_setError (c : Ctx Rng SS) (code : Rc) (msg : String) :
    Fatal (setError c code msg, false) := fun _ => setError_state c code msg

theorem fatal_true (c : Ctx Rng SS) : Fatal (c, true) := by rintro ⟨⟩

theorem clientHandleHello_fatal (h : Wire.Hello) : Fatal (clientHandleHello E c h) := by
  unfold clientHandleHello clientFinishHello
  dsimp only
  repeat' split
  all_goals first | exact fatal_setError _ _ _ | exact fatal_true _

theorem serverHandleHello_fatal (h : Wire.Hello) : Fatal (serverHandleHello E c h) := by
  unfold serverHandleHello
  repeat' split
  all_goals first | exact fatal_setError _ _ _ | exact fatal_true _

theorem handlePeerHello_fatal (body : Bytes) : Fatal (handlePeerHello E c body) := by
  unfold handlePeerHello
  split
  · exact fatal_setError _ _ _
  · split
    · exact clientHandleHello_fatal _
    · exact serverHandleHello_fatal _

theorem handlePeerSsHeader_fatal (body : Bytes) : Fatal (handlePeerSsHeader E c body) := by
  unfold handlePeerSsHeader clientHandleSsHeader clientTakeSsHeader serverHandleSsHeader
    serverTakeSsHeader
  dsimp only
  repeat' split
  all_goals first | exact fatal_setError _ _ _ | exact fatal_true _

theorem handleAuthDevicePdu_fatal (plain : Bytes) : Fatal (handleAuthDevicePdu E c plain) := by
  unfold handleAuthDevicePdu
  dsimp only
  repeat' split
  all_goals first | exact fatal_setError _ _ _ | exact fatal_true _

theorem handleAuthOkPdu_fatal (plain : Bytes) : Fatal (handleAuthOkPdu c plain) := by
  unfold handleAuthOkPdu
  repeat' split
  all_goals first | exact fatal_setError _ _ _ | exact fatal_true _

theorem handleAuthFailPdu_fatal (plain : Bytes) : Fatal (handleAuthFailPdu c plain) := by
  unfold handleAuthFailPdu
  split <;> exact fatal_setError _ _ _

theorem muxChannelOpen_fatal (plain : Bytes) : Fatal (muxChannelOpen E c plain) := by
  unfold muxChannelOpen
  dsimp only
  repeat' split
  all_goals first | exact fatal_setError _ _ _ | exact fatal_true _

theorem muxChannelData_fatal (plain : Bytes) : Fatal (muxChannelData c plain) := by
  unfold muxChannelData
  dsimp only
  repeat' split
  all_goals first | exact fatal_setError _ _ _ | exact fatal_true _

theorem muxPing_fatal (plain : Bytes) : Fatal (muxPing E c plain) := by
  unfold muxPing
  dsimp only
  repeat' split
  all_goals first | exact fatal_setError _ _ _ | exact fatal_true _

theorem handleMuxPdu_fatal (plain : Bytes) : Fatal (handleMuxPdu E c plain) := by
  unfold handleMuxPdu
  dsimp only
  split_ifs
  · exact muxChannelOpen_fatal plain
  · unfold muxChannelOpenConfirm
    repeat' split
    all_goals first | exact fatal_setError _ _ _ | exact fatal_true _
  · unfold muxChannelOpenFail
    repeat' split
    all_goals first | exact fatal_setError _ _ _ | exact fatal_true _
  · exact muxChannelData_fatal plain
  · unfold muxChannelWindow
    dsimp only
    repeat' split
    all_goals first | exact fatal_setError _ _ _ | exact fatal_true _
  · unfold muxChannelEof
    repeat' split
    all_goals first | exact fatal_setError _ _ _ | exact fatal_true _
  · unfold muxChannelClose
    repeat' split
    all_goals first | exact fatal_setError _ _ _ | exact fatal_true _
  · exact muxPing_fatal plain
  · exact fatal_true _
  · unfold muxDisconnect
    split <;> first | exact fatal_setError _ _ _ | exact fatal_true _
  · exact fatal_setError _ _ _

theorem handlePlain_fatal (plain : Bytes) (tag : UInt8) : Fatal (handlePlain E c plain tag) := by
  unfold handlePlain
  repeat' split
  all_goals first
    | exact fatal_setError _ _ _
    | exact fatal_true _
    | exact handleAuthDevicePdu_fatal plain
    | exact handleAuthOkPdu_fatal plain
    | exact handleAuthFailPdu_fatal plain
    | exact handleMuxPdu_fatal plain

/-- Every path on which a frame is not handled has set the error. -/
theorem handleFrame_fatal (body : Bytes) : Fatal (handleFrame E c body) := by
  unfold handleFrame
  split
  · exact handlePeerHello_fatal body
  · exact handlePeerSsHeader_fatal body
  · obtain ⟨code, msg, h⟩ | ⟨st, plain, tag, -, -, -, h⟩ :=
      handleEncryptedPdu_cases E c body <;> rw [h]
    · exact fatal_setError _ _ _
    · exact handlePlain_fatal plain tag
  · exact fatal_setError _ _ _

def Ctx.feed (c : Ctx Rng SS) (data : Bytes) : Ctx Rng SS := c.withIn (c.inBuf ++ data)

theorem parseInput_feed_ok {data body : Bytes} {k : ℕ} (h : parseInput E c = .ok (k, body)) :
    parseInput E (c.feed data) = .ok (k, body) := by
  unfold parseInput at h ⊢
  change (if c.hs = .done then Wire.frameParseMax (c.inBuf ++ data) (ssFrameMaxBody E c)
    else Wire.frameParseMax (c.inBuf ++ data) maxClearFrame) = _
  split at h <;> rename_i hs
  · rw [if_pos hs]
    exact Wire.frameParseMax_append_ok h
  · rw [if_neg hs]
    exact Wire.frameParseMax_append_ok h

theorem parseInput_feed_protocol {data : Bytes} (h : parseInput E c = .error .protocol) :
    parseInput E (c.feed data) = .error .protocol := by
  unfold parseInput at h ⊢
  change (if c.hs = .done then Wire.frameParseMax (c.inBuf ++ data) (ssFrameMaxBody E c)
    else Wire.frameParseMax (c.inBuf ++ data) maxClearFrame) = _
  split at h <;> rename_i hs
  · rw [if_pos hs]
    exact Wire.frameParseMax_append_protocol h
  · rw [if_neg hs]
    exact Wire.frameParseMax_append_protocol h

theorem processOne_ok (hst : ¬ c.ended) {k : ℕ} {body : Bytes}
    (h : parseInput E c = .ok (k, body)) :
    processOne E c = match handleFrame E (c.log (.frame (rawFrame body))) body with
      | (c', true) => .again (c'.withIn (c'.inBuf.drop k))
      | (c', false) => .stop c' := by
  obtain ⟨he | hp, -⟩ | ⟨-, -, hp, -⟩ | ⟨k', body', d, -, -, hp, ⟨hf, hs⟩ | ⟨hf, hs⟩⟩ :=
    processOne_cases E c
  · exact absurd he hst
  · cases h.symm.trans hp
  · cases h.symm.trans hp
  · cases h.symm.trans hp
    rw [hs, hf]
    rfl
  · cases h.symm.trans hp
    rw [hs, hf]

theorem processOne_protocol (hst : ¬ c.ended) (h : parseInput E c = .error .protocol) :
    processOne E c = .stop (setError c .protocol "frame parse error") := by
  obtain ⟨he | hp, -⟩ | ⟨-, -, -, hs⟩ | ⟨k, body, d, -, -, hp, -⟩ := processOne_cases E c
  · exact absurd he hst
  · cases h.symm.trans hp
  · exact hs
  · cases h.symm.trans hp

theorem processOne_ended (h : c.ended) : processOne E c = .stop c := by
  obtain ⟨-, hs⟩ | ⟨he, hc, -⟩ | ⟨k, body, d, he, hc, -⟩ := processOne_cases E c
  · exact hs
  · exact absurd h (not_or.mpr ⟨he, hc⟩)
  · exact absurd h (not_or.mpr ⟨he, hc⟩)

theorem processOne_full (h : parseInput E c = .error .full) : processOne E c = .stop c := by
  obtain ⟨-, hs⟩ | ⟨-, -, hp, -⟩ | ⟨k, body, d, -, -, hp, -⟩ := processOne_cases E c
  · exact hs
  · cases h.symm.trans hp
  · cases h.symm.trans hp

theorem processOne_decreases (E : Env Rng SS) :
    Loop.Decreases (processOne E) fun c => c.inBuf.length := by
  intro c c' h
  obtain ⟨-, hs⟩ | ⟨-, -, -, hs⟩ | ⟨k, body, d, -, -, hp, ⟨hf, hs⟩ | ⟨hf, hs⟩⟩ :=
    processOne_cases E c <;> rw [hs] at h <;> cases h
  have hin := handleFrame_inBuf E (c.log (.frame (rawFrame body))) body
  rw [hf] at hin
  change d.inBuf = c.inBuf at hin
  obtain ⟨-, hc, hk⟩ := parseInput_ok hp
  have hl := congrArg List.length hc
  rw [List.length_append, length_rawFrame, List.length_drop] at hl
  change (d.inBuf.drop k).length < c.inBuf.length
  rw [List.length_drop, hin]
  omega

theorem handleFrame_feed {body data : Bytes} {d : Ctx Rng SS} {ok : Bool}
    (h : handleFrame E (c.log (.frame (rawFrame body))) body = (d, ok)) :
    handleFrame E ((c.feed data).log (.frame (rawFrame body))) body = (d.feed data, ok) := by
  have hin := handleFrame_inBuf E (c.log (.frame (rawFrame body))) body
  rw [h] at hin
  change d.inBuf = c.inBuf at hin
  unfold Ctx.feed
  rw [log_withIn, handleFrame_withIn, h, hin]
  rfl

theorem setError_inBuf (c : Ctx Rng SS) (code : Rc) (msg : String) :
    (setError c code msg).inBuf = c.inBuf := by
  unfold setError
  rw [emit_eq]

/-- What a round does with the input at hand does not depend on what follows it. -/
theorem processOne_incremental (E : Env Rng SS) :
    Loop.Incremental (processOne E) Ctx.feed Ctx.ended where
  feed_nil c := by
    unfold Ctx.feed
    rw [List.append_nil, withIn_inBuf]
  feed_feed c a b := by
    unfold Ctx.feed
    rw [Ctx.withIn_inBuf, List.append_assoc]
    rfl
  ended_feed _ _ h := h
  ended_stop _ h := processOne_ended h
  again c c' data h := by
    obtain ⟨-, hs⟩ | ⟨-, -, -, hs⟩ | ⟨k, body, d, he, hc, hp, ⟨hf, hs⟩ | ⟨hf, hs⟩⟩ :=
      processOne_cases E c <;> rw [hs] at h <;> cases h
    have hin := handleFrame_inBuf E (c.log (.frame (rawFrame body))) body
    rw [hf] at hin
    change d.inBuf = c.inBuf at hin
    have hk : k ≤ d.inBuf.length := by
      have hl := congrArg List.length (parseInput_ok hp).2.1
      rw [List.length_append, length_rawFrame] at hl
      have := (parseInput_ok hp).2.2
      rw [hin]
      omega
    rw [processOne_ok (c := c.feed data) (not_or.mpr ⟨he, hc⟩) (parseInput_feed_ok hp),
      handleFrame_feed hf]
    refine congrArg Outcome.again ?_
    change d.withIn ((d.inBuf ++ data).drop k) = d.withIn (d.inBuf.drop k ++ data)
    rw [List.drop_append_of_le_length hk]
  stop c c' data h := by
    obtain ⟨-, hs⟩ | ⟨he, hc, hp, hs⟩ | ⟨k, body, d, he, hc, hp, ⟨hf, hs⟩ | ⟨hf, hs⟩⟩ :=
      processOne_cases E c <;> rw [hs] at h <;> cases h
    · exact Or.inl rfl
    · refine Or.inr ⟨Or.inl (setError_state _ _ _), ?_⟩
      rw [processOne_protocol (c := c.feed data) (not_or.mpr ⟨he, hc⟩)
        (parseInput_feed_protocol hp)]
      refine congrArg Outcome.stop ?_
      unfold Ctx.feed
      rw [setError_withIn, setError_inBuf]
    · have hfatal := handleFrame_fatal (E := E) (c := c.log (.frame (rawFrame body))) body
      rw [hf] at hfatal
      refine Or.inr ⟨Or.inl (hfatal rfl), ?_⟩
      rw [processOne_ok (c := c.feed data) (not_or.mpr ⟨he, hc⟩) (parseInput_feed_ok hp),
        handleFrame_feed hf]

/-- The loop would do nothing. -/
def Settled (E : Env Rng SS) (c : Ctx Rng SS) : Prop := processOne E c = .stop c

theorem settled_short (h : c.inBuf.length < 4) : Settled E c := processOne_full (parseInput_short h)

/-- A settled session that is not over waits for the rest of a frame. -/
theorem Settled.waits (h : Settled E c) (hst : ¬ c.ended) : parseInput E c = .error .full := by
  obtain ⟨he | hp, -⟩ | ⟨-, -, -, hs⟩ | ⟨k, body, d, -, -, hp, ⟨hf, hs⟩ | ⟨hf, hs⟩⟩ :=
    processOne_cases E c
  · exact absurd he hst
  · exact hp
  · have h' := h.symm.trans hs
    refine absurd (Or.inl ?_) hst
    rw [Outcome.stop.inj h']
    exact setError_state _ _ _
  · cases h.symm.trans hs
  · refine absurd (Or.inl ?_) hst
    have hfatal := handleFrame_fatal (E := E) (c := c.log (.frame (rawFrame body))) body
    rw [hf] at hfatal
    rw [Outcome.stop.inj (h.symm.trans hs)]
    exact hfatal rfl

theorem processInput_stop (h : Settled E c) : processInput E c = c := Loop.run_succ_stop h

theorem processInput_settled (E : Env Rng SS) (c : Ctx Rng SS) : Settled E (processInput E c) :=
  (processOne_incremental E).full_settled (processOne_decreases E) c

/-- What a call that takes no input leaves alone. -/
structure Idle (c c' : Ctx Rng SS) : Prop where
  inBuf : c'.inBuf = c.inBuf
  hs : c'.hs = c.hs
  maxRecordSize : c'.maxRecordSize = c.maxRecordSize
  ended : c.ended → c'.ended

namespace Idle

theorem trans {d : Ctx Rng SS} (h : Idle c d) (h' : Idle d c') : Idle c c' :=
  ⟨h'.inBuf.trans h.inBuf, h'.hs.trans h.hs, h'.maxRecordSize.trans h.maxRecordSize,
    fun he => h'.ended (h.ended he)⟩

theorem moves {p : Powers} (h : Moves E p c c') : Idle c c' := by
  refine ⟨by rw [h.overlay]; rfl, by rw [h.overlay]; rfl, by rw [h.overlay]; rfl, fun he => ?_⟩
  rcases h.state with hs | hs
  · rcases he with he | he
    · exact Or.inl (hs.trans he)
    · exact Or.inr (hs.trans he)
  · exact hs

theorem record {k : Call} {r : Ctx Rng SS × Rc} (h : Idle c r.1) : Idle c (record k r).1 := by
  unfold Sodchan.record
  split
  · exact ⟨h.inBuf, h.hs, h.maxRecordSize, h.ended⟩
  · exact h

theorem decide (accept : Bool) (claims : Arg) : Idle c (authDecideEx E c accept claims).1 := by
  have hd := authDecideEx_effect E c accept claims
  generalize authDecideEx E c accept claims = r at hd ⊢
  have htake : MayDecide c → Idle c (takeDecision c accept) := fun hm =>
    ⟨rfl, rfl, rfl, fun he => by rcases he with he | he <;> rw [hm.state] at he <;> cases he⟩
  cases hd with
  | refused => exact ⟨rfl, rfl, rfl, fun h => h⟩
  | unsent c' msg hmay hs hm =>
    exact ((htake hmay).trans (moves (hs ⟨False, False⟩))).trans
      (moves (Moves.setError (E := E) (p := ⟨False, False⟩) _ _ hm))
  | accepted c' hmay _ hs _ =>
    have h := (htake hmay).trans (moves (hs ⟨False, False⟩))
    unfold emitAuthenticated
    rw [emit_eq]
    refine ⟨h.inBuf, h.hs, h.maxRecordSize, fun he => ?_⟩
    rcases he with he | he <;> rw [hmay.state] at he <;> cases he
  | rejected c' msg msg' hmay _ hs hm =>
    exact ((htake hmay).trans (moves (hs ⟨False, False⟩))).trans
      (moves ((Moves.emit (E := E) (p := ⟨False, False⟩) (.authFailed .policy msg) rfl rfl
        (by rintro ⟨⟩)).trans
        (Moves.setError _ _ hm)))

theorem output (n : ℕ) : Idle c (getOutput c n).1 := by
  obtain ⟨b, o, h⟩ := getOutput_eq c n
  rw [h]
  exact ⟨rfl, rfl, rfl, fun h => h⟩

theorem disconnect (reason : UInt32) (msg : Option Bytes) :
    Idle c (disconnect E c reason msg).1 := by
  obtain h | h | ⟨d, -, hst, hs, -, h⟩ := disconnect_cases E c reason msg <;> rw [h]
  · exact ⟨rfl, rfl, rfl, fun h => h⟩
  · exact ⟨rfl, rfl, rfl, fun _ => Or.inr rfl⟩
  · have h := moves (hs ⟨False, False⟩)
    refine ⟨h.inBuf, h.hs, h.maxRecordSize, fun he => ?_⟩
    rcases he with he | he <;> rw [he] at hst <;> simp at hst

theorem call {k : Call} (hk : k.isPlain) : Idle c (call E c k).1 := by
  obtain ⟨n, rfl⟩ | ⟨accept, claims, -, hc⟩ | ⟨reason, msg, rfl⟩ | hm := call_cases (E := E) hk c
  · exact output n
  · rw [hc]
    exact record (decide accept claims)
  · exact record (disconnect reason msg)
  · exact moves hm

theorem settled (h : Idle c c') (hc : Settled E c) : Settled E c' := by
  by_cases he : c'.ended
  · exact processOne_ended he
  · have hw := hc.waits fun hce => he (h.ended hce)
    refine processOne_full ?_
    unfold parseInput at hw ⊢
    rw [h.hs, h.inBuf, ssFrameMaxBody_congr E h.maxRecordSize]
    exact hw

end Idle

theorem reset_inBuf (E : Env Rng SS) (c : Ctx Rng SS) : (reset E c).inBuf = [] := by
  obtain ⟨rng, -, h⟩ | ⟨pk, sk, rng, -, h⟩ := reset_cases E c <;> rw [h]
  · rfl
  · unfold Ctx.started
    split <;> rfl

theorem create_inBuf {role : Role} {cfg : Option Config} {rng : Rng} {memOk : Bool}
    (h : create E role cfg rng memOk = some c) : c.inBuf = [] := by
  obtain ⟨pk, sk, rng', -, rfl⟩ := create_eq_some h
  unfold Ctx.started
  split <;> rfl

theorem feedInput_settled (h : Settled E c) (data : Bytes) : Settled E (feedInput E c data).1 := by
  unfold feedInput
  dsimp only
  split_ifs
  iterate 3 exact h
  exact processInput_settled E _

/-- Between calls all input is processed as far as it goes. -/
theorem Reachable.settled (h : Reachable E c) : Settled E c := by
  obtain ⟨role, cfg, rng, memOk, c₀, l, hc, hrun⟩ := h
  have h0 : Settled E c₀ := settled_short (by rw [create_inBuf hc]; decide)
  refine hrun.preserves_feed (P := Settled E) (fun b _ _ => ?_) (fun b b' k hb _ hstep => ?_)
    (fun b data hb _ => feedInput_settled hb data) h0
  · exact settled_short (by rw [reset_inBuf]; decide)
  · obtain ⟨k, hk⟩ := hstep
    exact (Idle.call hk).settled hb

theorem ssFrameMaxBody_le (h64 : E.sizeMax = 2 ^ 64 - 1) (c : Ctx Rng SS) :
    ssFrameMaxBody E c + 4 ≤ inBufSize := by
  unfold ssFrameMaxBody
  dsimp only
  rw [h64]
  generalize (c.maxRecordSize + ssAbytes) % (2 ^ 64 - 1 + 1) = m
  have hm : (if 0xFFFFFFFF < m then 0xFFFFFFFF else m) ≤ 0xFFFFFFFF := by
    split <;> omega
  generalize (if 0xFFFFFFFF < m then 0xFFFFFFFF else m) = m' at hm ⊢
  rw [Nat.mod_eq_of_lt (by omega)]
  split
  · decide
  · omega

/-- The input buffer of a live session is never full. -/
theorem Settled.room (h64 : E.sizeMax = 2 ^ 64 - 1) (h : Settled E c) (hst : ¬ c.ended) :
    c.inBuf.length < inBufSize := by
  have hp := h.waits hst
  have hmax := ssFrameMaxBody_le h64 c
  have h4 : 4 + maxClearFrame ≤ inBufSize := by decide
  unfold parseInput Wire.frameParse at hp
  split at hp
  · rcases Wire.length_lt_of_full hp with hl | hl <;> omega
  · rcases Wire.length_lt_of_full hp with hl | hl <;> omega

end Sodchan
