import Sodchan.Model.Traffic

/-! # Steps of an endpoint

A public call that processes input is broken up into the bytes it takes and
the rounds of its loop. Every step then decomposes into traffic moves and the
few turns in which the session itself changes, so an invariant of the session
has to be checked on moves and turns only.
-/

namespace Sodchan

variable {Rng SS : Type} {E : Env Rng SS} {c c' : Ctx Rng SS}

def Call.isPlain : Call → Bool
  | .feedInput _ | .reset => false
  | _ => true

inductive Label where
  | call (k : Call)
  | intake (data : Bytes)
  | round

/-- One step of an endpoint. -/
inductive Step (E : Env Rng SS) : Label → Ctx Rng SS → Ctx Rng SS → Prop where
  | call {c : Ctx Rng SS} (k : Call) : k.isPlain → Step E (.call k) c (call E c k).1
  | intake {c : Ctx Rng SS} (data : Bytes) : data ≠ [] → c.state ≠ .error → c.state ≠ .closed →
      c.inBuf.length + data.length ≤ inBufSize →
      Step E (.intake data) c { c with inBuf := c.inBuf ++ data }
  | again {c c' : Ctx Rng SS} : processOne E c = .again c' → Step E .round c c'
  | stop {c c' : Ctx Rng SS} : processOne E c = .stop c' → Step E .round c c'

def InputSteps (E : Env Rng SS) : Ctx Rng SS → Ctx Rng SS → Prop :=
  Relation.ReflTransGen fun c c' => Step E .round c c' ∨ ∃ data, Step E (.intake data) c c'

theorem processInput_steps (c : Ctx Rng SS) : InputSteps E c (processInput E c) :=
  Loop.run_invariant (P := InputSteps E c) (fun _ _ h hs => h.tail (.inl (.again hs)))
    (fun _ _ h hs => h.tail (.inl (.stop hs))) .refl

theorem feedInput_steps (c : Ctx Rng SS) (data : Bytes) :
    InputSteps E c (feedInput E c data).1 := by
  unfold feedInput
  split
  · exact .refl
  · split
    · exact .refl
    · dsimp only
      rename_i hst
      rw [not_or] at hst
      split
      · exact .refl
      · rename_i h0
        refine .head (.inr ⟨_, .intake _ (fun h => h0 ?_) hst.1 hst.2 ?_⟩) (processInput_steps _)
        · have := congrArg List.length h
          simp only [List.length_take, List.length_nil] at this
          omega
        · rw [List.length_take]
          omega

/-- A property that survives every admitted reset and call and all input survives every run. -/
theorem Run.preserves_feed {guard : Ctx Rng SS → Call → Prop} {P : Ctx Rng SS → Prop}
    {l : List (Call × Ret)} (hreset : ∀ c, P c → guard c .reset → P (reset E c))
    (hcall : ∀ c c' k, P c → guard c k → Step E (.call k) c c' → P c')
    (hfeed : ∀ c data, P c → guard c (.feedInput data) → P (feedInput E c data).1)
    (h : Run E guard c l c') (hc : P c) : P c' := by
  induction h with
  | nil => exact hc
  | @snoc b l k hrun hg ih =>
    by_cases hp : k.isPlain
    · exact hcall _ _ k ih hg (.call k hp)
    · cases k <;> first
        | exact absurd rfl hp
        | exact hreset _ ih hg
        | exact hfeed _ _ ih hg

/-- A property that survives every admitted reset and step survives every run. -/
theorem Run.preserves {guard : Ctx Rng SS → Call → Prop} {P : Ctx Rng SS → Prop}
    {l : List (Call × Ret)} (hreset : ∀ c, P c → guard c .reset → P (reset E c))
    (hcall : ∀ c c' k, P c → guard c k → Step E (.call k) c c' → P c')
    (hinput : ∀ c c', P c → InputSteps E c c' → P c')
    (h : Run E guard c l c') (hc : P c) : P c' :=
  h.preserves_feed hreset hcall (fun _ data hp _ => hinput _ _ hp (feedInput_steps _ data)) hc

/-- The context in which the rounds of a call begin. -/
def Ctx.taking (c : Ctx Rng SS) (data : Bytes) : Ctx Rng SS :=
  { c with inBuf := c.inBuf ++ data.take (inBufSize - c.inBuf.length) }

/-- Every round of the call begins in a context that meets the condition. -/
def RoundsMeet (E : Env Rng SS) (ok : Ctx Rng SS → Prop) (c : Ctx Rng SS) (k : Call) : Prop :=
  ∀ data, k = .feedInput data → ∀ d, Loop.Heads (processOne E) (c.taking data) d → ok d

/-- Input is refused, or taken and processed. -/
theorem feedInput_cases (E : Env Rng SS) (c : Ctx Rng SS) (data : Bytes) :
    (feedInput E c data).1 = c ∨
      ¬ c.ended ∧ (feedInput E c data).1 = processInput E (c.taking data) := by
  unfold feedInput
  split
  · exact Or.inl rfl
  · split
    · exact Or.inl rfl
    · rename_i hst
      dsimp only
      split
      · exact Or.inl rfl
      · refine Or.inr ⟨hst, ?_⟩
        have htake : data.take (min data.length (inBufSize - c.inBuf.length)) =
            data.take (inBufSize - c.inBuf.length) := by
          rcases Nat.le_total data.length (inBufSize - c.inBuf.length) with h | h
          · rw [Nat.min_eq_left h, List.take_length, List.take_of_length_le h]
          · rw [Nat.min_eq_right h]
        dsimp only
        rw [htake]
        rfl

/-- A property that survives admitted resets and calls, and rounds that meet the condition,
survives every run whose calls are admitted and whose rounds meet the condition. -/
theorem Run.preserves_rounds {guard : Ctx Rng SS → Call → Prop} {ok P : Ctx Rng SS → Prop}
    {l : List (Call × Ret)} (hreset : ∀ c, P c → guard c .reset → P (reset E c))
    (hcall : ∀ c k, P c → guard c k → k.isPlain → P (call E c k).1)
    (hintake : ∀ c data, P c → ¬ c.ended → P (c.taking data))
    (hround : ∀ c, P c → ok c → P (processOne E c).state)
    (h : Run E (fun c k => guard c k ∧ RoundsMeet E ok c k) c l c') (hc : P c) : P c' := by
  induction h with
  | nil => exact hc
  | @snoc b l k hrun hg ih =>
    cases k with
    | reset => exact hreset _ ih hg.1
    | feedInput data =>
      obtain h | ⟨hst, h⟩ := feedInput_cases E b data
      · simp only [Sodchan.call, h]
        exact ih
      · simp only [Sodchan.call, h]
        exact Loop.run_heads hround (hintake b data ih hst) (hg.2 data rfl)
    | _ => exact hcall _ _ ih hg.1 rfl

/-- A property that also holds after creation holds of every reachable context. -/
theorem ReachableUnder.induction {guard : Ctx Rng SS → Call → Prop} {P : Ctx Rng SS → Prop}
    (hcreate : ∀ role cfg rng memOk c, create E role cfg rng memOk = some c → P c)
    (hreset : ∀ c, P c → guard c .reset → P (reset E c))
    (hcall : ∀ c c' k, P c → guard c k → Step E (.call k) c c' → P c')
    (hinput : ∀ c c', P c → InputSteps E c c' → P c')
    (h : ReachableUnder E guard c) : P c := by
  obtain ⟨role, cfg, rng, memOk, c₀, l, hc, hrun⟩ := h
  exact hrun.preserves hreset hcall hinput (hcreate _ _ _ _ _ hc)

/-- The turns of the session, the output handed to the host and the input taken from the peer;
`quit` tells whether the host may disconnect during authentication. -/
inductive Turn (E : Env Rng SS) (quit : Prop) : Ctx Rng SS → Ctx Rng SS → Prop where
  | output {c : Ctx Rng SS} (n : ℕ) : Turn E quit c (getOutput c n).1
  | input {c : Ctx Rng SS} (b : Bytes) : Turn E quit c { c with inBuf := b }
  | frame {c : Ctx Rng SS} (raw : Bytes) : Turn E quit c (c.log (.frame raw))
  | pull {c : Ctx Rng SS} {st : SS} {ct plain : Bytes} {tag : UInt8} : c.ssPullReady →
      E.ssPull c.ssPull ct = some (st, plain, tag) → Turn E quit c (c.afterPull st ct plain tag)
  | drain {c : Ctx Rng SS} : c.ssPushReady → (c.muxActive ∨ c.state = .auth ∧ quit) →
      Turn E quit c { c with state := .draining }
  | hello {c : Ctx Rng SS} (body : Bytes) : c.state ≠ .error → c.state ≠ .closed →
      c.hs = .waitPeerHello → .frame (rawFrame body) ∈ c.hist →
      Turn E quit c (handlePeerHello E c body).1
  | ssHeader {c : Ctx Rng SS} (body : Bytes) : c.state ≠ .error → c.state ≠ .closed →
      c.hs = .waitPeerSs → Turn E quit c (handlePeerSsHeader E c body).1
  | authDevice {c : Ctx Rng SS} (plain : Bytes) : c.hs = .done → c.state = .auth →
      c.ssPullReady → Turn E quit c (handleAuthDevicePdu E c plain).1
  | authOk {c : Ctx Rng SS} (plain : Bytes) : c.hs = .done → c.state = .auth →
      c.ssPullReady → Turn E quit c (handleAuthOkPdu c plain).1
  | decide {c : Ctx Rng SS} (k : Call) (accept : Bool) (claims : Arg) : k.isDecide →
      Turn E quit c (record k (authDecideEx E c accept claims)).1

def Advance (E : Env Rng SS) (quit : Prop) : Ctx Rng SS → Ctx Rng SS → Prop :=
  Relation.ReflTransGen fun c c' => Moves E ⟨c.muxActive, True⟩ c c' ∨ Turn E quit c c'

namespace Advance

variable {quit : Prop}

theorem moves (h : Moves E ⟨c.muxActive, True⟩ c c') : Advance E quit c c' :=
  Relation.ReflTransGen.single (Or.inl h)

theorem quiet (h : Moves E ⟨c.muxActive, False⟩ c c') : Advance E quit c c' :=
  moves (h.mono (fun hm => hm) fun _ => trivial)

theorem turn (h : Turn E quit c c') : Advance E quit c c' :=
  Relation.ReflTransGen.single (Or.inr h)

theorem mono_quit {quit' : Prop} (hq : quit → quit') (h : Advance E quit c c') :
    Advance E quit' c c' := by
  refine Relation.ReflTransGen.mono ?_ c c' h
  rintro a b (hm | ⟨n⟩ | ⟨i⟩ | ⟨raw⟩ | ⟨h1, h2⟩ | ⟨h1, h2⟩ | ⟨body, h1, h2, h3, h4⟩ |
    ⟨body, h1, h2, h3⟩ | ⟨plain, h1, h2, h3⟩ | ⟨plain, h1, h2, h3⟩ | ⟨k, accept, claims, h1⟩)
  · exact Or.inl hm
  · exact Or.inr (.output n)
  · exact Or.inr (.input i)
  · exact Or.inr (.frame raw)
  · exact Or.inr (.pull h1 h2)
  · exact Or.inr (.drain h1 (h2.imp_right fun h => ⟨h.1, hq h.2⟩))
  · exact Or.inr (.hello body h1 h2 h3 h4)
  · exact Or.inr (.ssHeader body h1 h2 h3)
  · exact Or.inr (.authDevice plain h1 h2 h3)
  · exact Or.inr (.authOk plain h1 h2 h3)
  · exact Or.inr (.decide k accept claims h1)

theorem preserves {P : Ctx Rng SS → Prop} (h : Advance E quit c c') (hc : P c)
    (hmoves : ∀ a b, P a → Moves E ⟨a.muxActive, True⟩ a b → P b)
    (hturn : ∀ a b, P a → Turn E quit a b → P b) : P c' := by
  induction h with
  | refl => exact hc
  | tail _ h ih =>
    rcases h with h | h
    · exact hmoves _ _ ih h
    · exact hturn _ _ ih h

end Advance

variable {quit : Prop}

theorem handleAuthFailPdu_moves {p : Powers} (plain : Bytes) :
    Moves E p c (handleAuthFailPdu c plain).1 := by
  unfold handleAuthFailPdu
  split
  · exact Moves.setError _ _ (by decide)
  · exact (Moves.emit _ rfl rfl (by simp [Event.isChannel])).trans (Moves.setError _ _ (by decide))

theorem handlePlain_cases (he : c.state ≠ .error) (hc : c.state ≠ .closed) (plain : Bytes)
    (tag : UInt8) :
    (c.state = .auth ∧ (handlePlain E c plain tag = handleAuthDevicePdu E c plain ∨
      handlePlain E c plain tag = handleAuthOkPdu c plain)) ∨
    ∀ p : Powers, (c.state = .ready ∨ c.state = .draining → p.channels) →
      Moves E p c (handlePlain E c plain tag).1 := by
  unfold handlePlain
  split
  · exact Or.inr fun p _ => (Moves.emit _ rfl rfl (by simp [Event.isChannel])).tail
      (.fail .closed _ _ (.inr rfl))
  · split
    · exact Or.inr fun p _ => .refl
    · split
      · exact Or.inr fun p _ => .refl
      · split
        · exact Or.inr fun p _ => Moves.setError _ _ (by decide)
        · split
          · rename_i hauth
            split
            · exact Or.inl ⟨hauth, Or.inl rfl⟩
            · split
              · exact Or.inl ⟨hauth, Or.inr rfl⟩
              · split
                · exact Or.inr fun p _ => handleAuthFailPdu_moves plain
                · exact Or.inr fun p _ => Moves.setError _ _ (by decide)
          · split
            · rename_i hm
              exact Or.inr fun p hp => handleMuxPdu_moves (hp hm) he hc plain
            · exact Or.inr fun p _ => Moves.setError _ _ (by decide)

theorem handlePlain_advance (he : c.state ≠ .error) (hc : c.state ≠ .closed)
    (hs : c.hs = .done) (hr : c.ssPullReady) (plain : Bytes) (tag : UInt8) :
    Advance E quit c (handlePlain E c plain tag).1 := by
  rcases handlePlain_cases (E := E) he hc plain tag with ⟨ha, h | h⟩ | h
  · rw [h]
    exact Advance.turn (.authDevice plain hs ha hr)
  · rw [h]
    exact Advance.turn (.authOk plain hs ha hr)
  · exact Advance.quiet (h ⟨c.muxActive, False⟩ fun hst => ⟨hst, Or.inr hr⟩)

/-- A ciphertext whose plaintext fits the buffer, and the limit of the session. -/
structure PlainFits (c : Ctx Rng SS) (ct : Bytes) : Prop where
  tagged : ssAbytes ≤ ct.length
  buffer : ct.length - ssAbytes ≤ plainBufSize
  record : ct.length - ssAbytes ≤ c.maxRecordSize

/-- A record is refused with an error of the record layer, or pulled and handled. -/
theorem handleEncryptedPdu_cases (E : Env Rng SS) (c : Ctx Rng SS) (ct : Bytes) :
    (∃ code msg, handleEncryptedPdu E c ct = (setError c code msg, false)) ∨
    ∃ st plain tag, c.ssPullReady ∧ PlainFits c ct ∧ E.ssPull c.ssPull ct = some (st, plain, tag) ∧
      handleEncryptedPdu E c ct = handlePlain E (c.afterPull st ct plain tag) plain tag := by
  unfold handleEncryptedPdu
  split
  · exact Or.inl ⟨_, _, rfl⟩
  · rename_i hready
    rw [not_not] at hready
    split
    · exact Or.inl ⟨_, _, rfl⟩
    · split
      · exact Or.inl ⟨_, _, rfl⟩
      · split
        · exact Or.inl ⟨_, _, rfl⟩
        · rename_i st plain tag hpull
          exact Or.inr ⟨st, plain, tag, hready, ⟨by omega, by omega, by omega⟩, hpull, rfl⟩

theorem handleEncryptedPdu_advance (he : c.state ≠ .error) (hc : c.state ≠ .closed)
    (hs : c.hs = .done) (ct : Bytes) : Advance E quit c (handleEncryptedPdu E c ct).1 := by
  rcases handleEncryptedPdu_cases E c ct with ⟨code, msg, h⟩ | ⟨st, plain, tag, hr, -, hpull, h⟩ <;>
    rw [h]
  · exact Advance.moves (Moves.recordError trivial code msg)
  · exact (Advance.turn (.pull hr hpull)).trans
      (handlePlain_advance (c := c.afterPull st ct plain tag) he hc hs hr plain tag)

theorem handleFrame_advance (he : c.state ≠ .error) (hc : c.state ≠ .closed) {body : Bytes}
    (hf : .frame (rawFrame body) ∈ c.hist) : Advance E quit c (handleFrame E c body).1 := by
  unfold handleFrame
  split
  · rename_i hs
    exact Advance.turn (.hello body he hc hs hf)
  · rename_i hs
    exact Advance.turn (.ssHeader body he hc hs)
  · rename_i hs
    exact handleEncryptedPdu_advance he hc hs body
  · exact .moves (Moves.setError _ _ (by decide))

theorem parseInput_ok {body : Bytes} {k : ℕ} (h : parseInput E c = .ok (k, body)) :
    c.inBuf.take k = rawFrame body ∧ c.inBuf = rawFrame body ++ c.inBuf.drop k ∧
      k = 4 + body.length := by
  have hp : ∃ m, Wire.frameParseMax c.inBuf m = .ok (k, body) := by
    unfold parseInput at h
    split at h
    · exact ⟨_, h⟩
    · exact ⟨_, h⟩
  obtain ⟨m, hp⟩ := hp
  obtain ⟨-, hk, rest, hr⟩ := Wire.frameParseMax_ok_iff.mp hp
  have hl : (rawFrame body).length = k := by rw [length_rawFrame, hk]
  rw [hr]
  exact ⟨by rw [← hl, List.take_left], by rw [← hl, List.drop_left], hk⟩

theorem parseInput_error {rc : Rc} (h : parseInput E c = .error rc) :
    rc = .full ∨ rc = .protocol := by
  unfold parseInput at h
  split at h <;> exact Wire.frameParseMax_error h

theorem parseInput_short (h : c.inBuf.length < 4) : parseInput E c = .error .full := by
  unfold parseInput
  split <;> exact Wire.frameParseMax_short h _

/-- What one round does: nothing, a parse error, or one frame for its handler. -/
theorem processOne_cases (E : Env Rng SS) (c : Ctx Rng SS) :
    ((c.ended ∨ parseInput E c = .error .full) ∧ processOne E c = .stop c) ∨
    (c.state ≠ .error ∧ c.state ≠ .closed ∧ parseInput E c = .error .protocol ∧
      processOne E c = .stop (setError c .protocol "frame parse error")) ∨
    ∃ k body c', c.state ≠ .error ∧ c.state ≠ .closed ∧ parseInput E c = .ok (k, body) ∧
      (handleFrame E (c.log (.frame (rawFrame body))) body = (c', true) ∧
        processOne E c = .again { c' with inBuf := c'.inBuf.drop k } ∨
      handleFrame E (c.log (.frame (rawFrame body))) body = (c', false) ∧
        processOne E c = .stop c') := by
  unfold processOne
  split
  · rename_i hst
    exact Or.inl ⟨Or.inl hst, rfl⟩
  · rename_i hst
    rw [not_or] at hst
    split
    · rename_i h4
      exact Or.inl ⟨Or.inr (parseInput_short h4), rfl⟩
    · split
      · rename_i hp
        exact Or.inl ⟨Or.inr hp, rfl⟩
      · rename_i rc hne hp
        rcases parseInput_error hp with rfl | rfl
        · exact absurd rfl hne
        · exact Or.inr (Or.inl ⟨hst.1, hst.2, hp, rfl⟩)
      · rename_i k body hp
        rw [(parseInput_ok hp).1]
        rcases hh : handleFrame E (c.log (.frame (rawFrame body))) body with ⟨c', _ | _⟩
        · exact Or.inr (Or.inr ⟨k, body, c', hst.1, hst.2, hp, Or.inr ⟨hh, rfl⟩⟩)
        · exact Or.inr (Or.inr ⟨k, body, c', hst.1, hst.2, hp, Or.inl ⟨hh, rfl⟩⟩)

theorem processOne_advance (E : Env Rng SS) (quit : Prop) (c : Ctx Rng SS) :
    Advance E quit c (processOne E c).state := by
  rcases processOne_cases E c with ⟨-, h⟩ | ⟨-, -, -, h⟩ | ⟨k, body, d, he, hc, -, h⟩
  · rw [h]
    exact .refl
  · rw [h]
    exact Advance.moves (Moves.recordError trivial _ _)
  · have hadv : Advance E quit c (handleFrame E (c.log (.frame (rawFrame body))) body).1 :=
      (Advance.turn (.frame (rawFrame body))).trans
        (handleFrame_advance (c := c.log (.frame (rawFrame body))) he hc
          (List.mem_append_right _ (List.mem_singleton_self _)))
    rcases h with ⟨hf, h⟩ | ⟨hf, h⟩ <;> rw [h] <;> rw [hf] at hadv
    · exact hadv.trans (Advance.turn (.input _))
    · exact hadv

theorem record_moves {k : Call} (hk : k.isDecide = false) {r : Ctx Rng SS × Rc}
    {p : Powers} (h : Moves E p c r.1) : Moves E p c (record k r).1 := by
  unfold record
  split
  · exact h.tail (.log _ (by simp [Occ.isLog, hk]))
  · exact h

theorem sendDisconnect_moves {p : Powers} (he : c.state ≠ .error) (hc : c.state ≠ .closed)
    (reason : UInt32) (text : Bytes) : Moves E p c (sendDisconnect E c reason text) := by
  unfold sendDisconnect
  split
  · exact .refl
  · rename_i h
    exact Moves.send he hc ((Wire.disconnectEncode_length h).trans (by decide))

theorem sendDisconnect_state (E : Env Rng SS) (c : Ctx Rng SS) (reason : UInt32) (text : Bytes) :
    (sendDisconnect E c reason text).state = c.state := by
  unfold sendDisconnect
  split
  · rfl
  · exact ssSendPdu_state E c _

theorem disconnect_cases (E : Env Rng SS) (c : Ctx Rng SS) (reason : UInt32) (msg : Option Bytes) :
    disconnect E c reason msg = (c, .ok) ∨
    disconnect E c reason msg = ({ c with state := .closed }, .ok) ∨
    ∃ d, c.ssPushReady ∧ (c.state = .ready ∨ c.state = .auth ∨ c.state = .draining) ∧
      (∀ p, Moves E p c d) ∧ d.state = c.state ∧
      disconnect E c reason msg = ({ d with state := .draining }, .ok) := by
  unfold disconnect
  split
  · exact Or.inl rfl
  · dsimp only
    split
    · rename_i h
      obtain ⟨hp, hst⟩ := h
      have he : c.state ≠ .error := by rcases hst with h | h | h <;> simp [h]
      have hc : c.state ≠ .closed := by rcases hst with h | h | h <;> simp [h]
      exact Or.inr (Or.inr ⟨_, hp, hst, fun p => sendDisconnect_moves he hc _ _,
        sendDisconnect_state E c _ _, rfl⟩)
    · exact Or.inr (Or.inl rfl)

theorem disconnect_advance (reason : UInt32) (msg : Option Bytes) :
    Advance E (c.state = .auth) c (disconnect E c reason msg).1 := by
  obtain h | h | ⟨d, hp, hst, hs, hd, h⟩ := disconnect_cases E c reason msg <;> rw [h]
  · exact .refl
  · exact Advance.moves (Moves.one (.fail .closed _ _ (.inr rfl)))
  · have hready : d.ssPushReady := by
      rw [(hs ⟨True, True⟩).overlay]
      exact hp
    refine (Advance.quiet (hs _)).trans (Advance.turn (.drain hready ?_))
    unfold Ctx.muxActive
    rw [hd]
    rcases hst with h | h | h
    · exact Or.inl ⟨Or.inl h, Or.inl hready⟩
    · exact Or.inr ⟨h, h⟩
    · exact Or.inl ⟨Or.inr h, Or.inl hready⟩

theorem InputSteps.advance (h : InputSteps E c c') (quit : Prop) : Advance E quit c c' := by
  induction h with
  | refl => exact .refl
  | @tail a b _ h ih =>
    refine ih.trans ?_
    rcases h with h | ⟨data, h⟩
    · cases h with
      | again h | stop h =>
        have hadv := processOne_advance E quit a
        rwa [h] at hadv
    · cases h with
      | intake => exact Advance.turn (.input _)

theorem call_cases {k : Call} (hk : k.isPlain) (c : Ctx Rng SS) :
    (∃ n, k = .getOutput n) ∨
    (∃ accept claims, k.isDecide ∧ call E c k = record k (authDecideEx E c accept claims)) ∨
    (∃ reason msg, k = .disconnect reason msg) ∨
    Moves E ⟨c.muxActive, False⟩ c (call E c k).1 := by
  cases k with
  | feedInput | reset => cases hk
  | getOutput n => exact Or.inl ⟨n, rfl⟩
  | authDecide accept => exact Or.inr (Or.inl ⟨accept, .null 0, rfl, rfl⟩)
  | authDecideEx accept claims => exact Or.inr (Or.inl ⟨accept, claims, rfl, rfl⟩)
  | disconnect reason msg => exact Or.inr (Or.inr (Or.inl ⟨reason, msg, rfl⟩))
  | nextEvent =>
    refine Or.inr (Or.inr (Or.inr ?_))
    simp only [Sodchan.call]
    unfold nextEvent
    split
    · exact .refl
    · rename_i h
      exact Moves.one (.pop h)
  | channelOpen name =>
    exact Or.inr (Or.inr (Or.inr (record_moves rfl (channelOpen_moves name))))
  | channelAccept id accept =>
    exact Or.inr (Or.inr (Or.inr (record_moves rfl (channelAccept_moves id accept))))
  | channelSend id data m =>
    exact Or.inr (Or.inr (Or.inr (record_moves rfl (channelSend_moves id data m))))
  | channelEof id => exact Or.inr (Or.inr (Or.inr (record_moves rfl (channelEof_moves id))))
  | channelClose id => exact Or.inr (Or.inr (Or.inr (record_moves rfl (channelClose_moves id))))
  | channelWindowAdjust id credit =>
    exact Or.inr (Or.inr (Or.inr (record_moves rfl (channelWindowAdjust_moves id credit))))

/-- A call is an advance in which authentication is quit only by a disconnect. -/
theorem Step.advance {k : Call} (h : Step E (.call k) c c') :
    Advance E ((∃ reason msg, k = .disconnect reason msg) ∧ c.state = .auth) c c' := by
  obtain ⟨k, hk⟩ := h
  obtain ⟨n, rfl⟩ | ⟨accept, claims, hd, hc⟩ | ⟨reason, msg, rfl⟩ | hm := call_cases (E := E) hk c
  · exact Advance.turn (.output n)
  · rw [hc]
    exact Advance.turn (.decide k accept claims hd)
  · have h := (disconnect_advance (E := E) (c := c) reason msg).mono_quit
      fun hs => (⟨⟨reason, msg, rfl⟩, hs⟩ :
        (∃ r m, Call.disconnect reason msg = .disconnect r m) ∧ c.state = .auth)
    simp only [Sodchan.call, record]
    split
    · exact h.trans (Advance.moves (Moves.one (.log _ rfl)))
    · exact h
  · exact Advance.quiet hm

end Sodchan
