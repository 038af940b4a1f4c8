import Sodchan.Model.Codec
import Sodchan.Model.Engine

/-! # What traffic may change

Records, channels, buffers and events change only part of a context, and the
public state only by ending the session. `Moves` is that bound; it is
closed under composition and holds of every function that neither moves the
handshake nor decides on authentication.
-/

namespace Sodchan

variable {Rng SS : Type}

def emitRing (c : Ctx Rng SS) (ev : Event) : RingBuffer Event := (c.events.push ev).getD c.events

/-- What the history says about an emitted event. -/
def emitOcc (c : Ctx Rng SS) (ev : Event) : Occ :=
  if (c.events.push ev).isSome then .queued ev else .dropped ev

theorem emit_eq (c : Ctx Rng SS) (ev : Event) :
    emit c ev = { c with events := emitRing c ev, hist := c.hist ++ [emitOcc c ev] } := by
  unfold emit queueEvent emitRing emitOcc
  cases c.events.push ev <;> rfl

theorem emitOcc_cases (c : Ctx Rng SS) (ev : Event) :
    emitOcc c ev = .queued ev ∨ emitOcc c ev = .dropped ev := by
  unfold emitOcc
  split
  · exact Or.inl rfl
  · exact Or.inr rfl

theorem outCompact_eq (c : Ctx Rng SS) :
    outCompact c = { c with outBuf := c.pending, outOff := 0 } := by
  unfold outCompact Ctx.pending
  split
  · rename_i h
    rw [h, List.drop_zero, ← h]
  · split
    · rename_i h
      rw [List.drop_eq_nil_of_le h]
    · rfl

theorem outAppend_eq (c : Ctx Rng SS) (p : Bytes) :
    outAppend c p =
      if outBufSize - c.pending.length < p.length then
        ({ c with outBuf := c.pending, outOff := 0 }, .full)
      else
        ({ c with
            outBuf := c.pending ++ p, outOff := 0, hist := c.hist ++ [.appended p] }, .ok) := by
  simp only [outAppend, outCompact_eq]

theorem outAppendFrame_eq (c : Ctx Rng SS) {body : Bytes} (h0 : body ≠ [])
    (hmax : body.length ≤ maxClearFrame) : outAppendFrame c body = outAppend c (rawFrame body) := by
  have h0' : body.length ≠ 0 := fun h => h0 (List.length_eq_zero_iff.mp h)
  have h1 : ¬ maxClearFrame < body.length := by omega
  have h2 : ¬ 4 + maxClearFrame < 4 + body.length := by omega
  simp only [outAppendFrame, Wire.frameEncode, Wire.frameEncodeMax, h0', h1, h2, if_false]
  rfl

/-- The guards of `ssSendPdu` that concern the state and sizes, all but the push itself. -/
structure SendRoom (E : Env Rng SS) (c : Ctx Rng SS) (plain : Bytes) : Prop where
  ready : c.ssPushReady
  nonempty : plain ≠ []
  record : plain.length ≤ c.maxRecordSize
  space : 4 + (plain.length + ssAbytes) ≤ outBufSize - c.pending.length
  limit : plain.length + ssAbytes ≤ ssFrameMaxBody E c

theorem ssFrameMaxBody_congr (E : Env Rng SS) {c c' : Ctx Rng SS}
    (h : c'.maxRecordSize = c.maxRecordSize) : ssFrameMaxBody E c' = ssFrameMaxBody E c := by
  simp only [ssFrameMaxBody, h]

def Ctx.pushed (c : Ctx Rng SS) (plain : Bytes) (st : SS) (ct : Bytes) : Ctx Rng SS :=
  { c with
    ssPush := st
    outBuf := c.pending ++ rawFrame ct
    outOff := 0
    hist := c.hist ++ [.sent plain, .appended (rawFrame ct)] }

theorem pending_withBuf (c : Ctx Rng SS) {b : Bytes} {o : ℕ}
    (h : b = c.outBuf ∧ o = c.outOff ∨ b = c.pending ∧ o = 0) :
    ({ c with outBuf := b, outOff := o } : Ctx Rng SS).pending = c.pending := by
  obtain ⟨rfl, rfl⟩ | ⟨rfl, rfl⟩ := h
  · rfl
  · exact List.drop_zero

/-- What the host fetches was at the front of what was to be fetched. -/
theorem getOutput_pending (c : Ctx Rng SS) (n : ℕ) :
    c.pending = (getOutput c n).2 ++ (getOutput c n).1.pending := by
  unfold getOutput Ctx.pending
  split
  · rfl
  · split
    · rfl
    · rename_i h
      dsimp only
      split
      · rename_i hn
        have hlen : (c.outBuf.drop c.outOff).length ≤ min (c.outBuf.length - c.outOff) n := by
          rw [List.length_drop]
          omega
        rw [List.take_of_length_le hlen]
        exact (List.append_nil _).symm
      · dsimp only
        rw [← List.drop_drop, List.take_append_drop]

theorem ssSendPdu_cases (E : Env Rng SS) (c : Ctx Rng SS) (plain : Bytes) :
    (∃ st ct, SendRoom E c plain ∧ E.ssPush c.ssPush plain tagMessage = some (st, ct) ∧
      ssSendPdu E c plain = (c.pushed plain st ct, .ok)) ∨
    (∃ b o rc, (SendRoom E c plain → E.ssPush c.ssPush plain tagMessage = none) ∧
      (b = c.outBuf ∧ o = c.outOff ∨ b = c.pending ∧ o = 0) ∧ rc ≠ .ok ∧
      ssSendPdu E c plain = ({ c with outBuf := b, outOff := o }, rc)) := by
  have hm : ∀ b, ssFrameMaxBody E { c with outBuf := b, outOff := 0 } = ssFrameMaxBody E c :=
    fun b => ssFrameMaxBody_congr E rfl
  unfold ssSendPdu
  simp only [outCompact_eq, hm]
  split
  · rename_i h
    refine Or.inr ⟨c.outBuf, c.outOff, _, fun r => ?_, Or.inl ⟨rfl, rfl⟩, by decide, rfl⟩
    rcases h with h | h
    · exact absurd r.ready h
    · exact absurd (List.length_eq_zero_iff.mp h) r.nonempty
  · rename_i h
    split
    · rename_i h1
      exact Or.inr ⟨c.outBuf, c.outOff, _, fun r => absurd r.record (by omega),
        Or.inl ⟨rfl, rfl⟩, by decide, rfl⟩
    · rename_i h1
      split
      · rename_i h2
        exact Or.inr ⟨c.pending, 0, _, fun r => absurd r.space (by omega),
          Or.inr ⟨rfl, rfl⟩, by decide, rfl⟩
      · rename_i h2
        split
        · rename_i h3
          exact Or.inr ⟨c.pending, 0, _, fun r => absurd r.limit (by omega),
            Or.inr ⟨rfl, rfl⟩, by decide, rfl⟩
        · rename_i h3
          cases hp : E.ssPush c.ssPush plain tagMessage with
          | none => exact Or.inr ⟨c.pending, 0, _, fun _ => rfl, Or.inr ⟨rfl, rfl⟩, by decide, rfl⟩
          | some r =>
            obtain ⟨st, ct⟩ := r
            push Not at h
            refine Or.inl ⟨st, ct, ⟨h.1, fun hn => h.2 (by simp [hn]), ?_, ?_, ?_⟩, rfl, rfl⟩ <;>
              omega

/-! ### Elementary moves -/

def Event.isChannel : Event → Bool
  | .channelOpen .. | .channelOpened .. | .channelOpenFail .. | .channelData .. => true
  | .channelWindow .. | .channelEof .. | .channelClose .. => true
  | _ => false

/-- The events that report progress of the handshake or of authentication. -/
def Event.isSession : Event → Bool
  | .helloReceived .. | .kxComplete | .authDevice .. | .authenticated => true
  | _ => false

def Call.isDecide : Call → Bool
  | .authDecide _ | .authDecideEx _ _ => true
  | _ => false

/-- What the traffic layer records besides output and events. -/
def Occ.isLog : Occ → Bool
  | .did k => !k.isDecide
  | .noChannel _ => true
  | _ => false

/-- The errors of the record layer. -/
def recordErrors : List String :=
  ["frame parse error", "bad ss header length", "ss ciphertext size", "ss plaintext too large",
    "ss decrypt failed"]

def Event.isRecordError : Event → Bool
  | .error _ msg => decide (msg ∈ recordErrors)
  | _ => false

def Ctx.afterPull (c : Ctx Rng SS) (st : SS) (ct plain : Bytes) (tag : UInt8) : Ctx Rng SS :=
  { c with ssPull := st, hist := c.hist ++ [.pulled ct plain tag] }

/-- Channel PDUs are dispatched and a stream is open. -/
def Ctx.muxActive (c : Ctx Rng SS) : Prop :=
  (c.state = .ready ∨ c.state = .draining) ∧ (c.ssPushReady ∨ c.ssPullReady)

def Ctx.ended (c : Ctx Rng SS) : Prop := c.state = .error ∨ c.state = .closed

instance (c : Ctx Rng SS) : Decidable c.ended := inferInstanceAs (Decidable (_ ∨ _))

/-- What moves may do besides traffic: activate channels, and report errors of the record layer. -/
structure Powers where
  channels : Prop
  record : Prop

/-- One elementary move. Without power over channels no slot comes into use. -/
inductive Move (E : Env Rng SS) (p : Powers) : Ctx Rng SS → Ctx Rng SS → Prop where
  | emit {c : Ctx Rng SS} (ev : Event) : ev.isSession = false → (ev.isChannel → p.channels) →
      (ev.isRecordError → p.record) → Move E p c (emit c ev)
  | compact {c : Ctx Rng SS} : Move E p c { c with outBuf := c.pending, outOff := 0 }
  | push {c : Ctx Rng SS} {plain : Bytes} {st : SS} {ct : Bytes} :
      c.state ≠ .error → c.state ≠ .closed → plain.length ≤ plainBufSize → SendRoom E c plain →
      E.ssPush c.ssPush plain tagMessage = some (st, ct) → Move E p c (c.pushed plain st ct)
  | table {c : Ctx Rng SS} (chs : Fin maxChannelSlots → Channel) (next : UInt32)
      (active allocs : ℕ) : p.channels ∨ (∀ i, chs i = c.channels i ∨ (chs i).state = .unused) →
      Move E p c { c with
        channels := chs, nextLocalChannelId := next, activeChannels := active, allocs := allocs }
  | fail {c : Ctx Rng SS} (st : State) (code : Rc) (msg : String) : st = .error ∨ st = .closed →
      Move E p c { c with state := st, error := code, errorMsg := msg }
  | pop {c : Ctx Rng SS} {ev : Event} {r : RingBuffer Event} : c.events.pop = some (ev, r) →
      Move E p c { c with events := r, hist := c.hist ++ [.returned ev] }
  | log {c : Ctx Rng SS} (o : Occ) : o.isLog → Move E p c (c.log o)

def Moves (E : Env Rng SS) (p : Powers) : Ctx Rng SS → Ctx Rng SS → Prop :=
  Relation.ReflTransGen (Move E p)

def Ctx.allocated (c : Ctx Rng SS) (i : Fin maxChannelSlots) : Ctx Rng SS :=
  { c with
    channels :=
      Function.update c.channels i { Channel.zero with localId := c.nextLocalChannelId }
    nextLocalChannelId := c.nextLocalChannelId + 1
    activeChannels := c.activeChannels + 1
    allocs := c.allocs + 1 }

theorem chAlloc_eq_some {c c' : Ctx Rng SS} {i : Fin maxChannelSlots}
    (h : chAlloc c = some (c', i)) :
    (c.channels i).state = .unused ∧ c.activeChannels < c.maxChannels ∧ c' = c.allocated i := by
  unfold chAlloc at h
  split at h
  · cases h
  · split at h
    · cases h
    · rename_i hlt j hj
      obtain ⟨rfl, rfl⟩ := Prod.mk.inj (Option.some.inj h)
      exact ⟨by simpa using List.find?_some hj, by omega, rfl⟩

theorem chAlloc_eq_none {c : Ctx Rng SS} : chAlloc c = none ↔
    c.maxChannels ≤ c.activeChannels ∨ ∀ i, (c.channels i).state ≠ .unused := by
  unfold chAlloc
  split
  · exact iff_of_true rfl (Or.inl ‹_›)
  · rename_i hroom
    split
    · rename_i hnone
      exact iff_of_true rfl (Or.inr fun i => by simpa using List.find?_eq_none.mp hnone i)
    · rename_i i hi
      refine iff_of_false (by rintro ⟨⟩) (not_or.mpr ⟨hroom, fun hall => hall i ?_⟩)
      simpa using List.find?_some hi

namespace Moves

variable {E : Env Rng SS} {p : Powers} {c c' : Ctx Rng SS}

theorem one (h : Move E p c c') : Moves E p c c' := .single h

theorem mono {p' : Powers} (h : Moves E p c c') (hm : p.channels → p'.channels)
    (hr : p.record → p'.record) : Moves E p' c c' := by
  refine Relation.ReflTransGen.mono ?_ c c' h
  rintro a b (⟨ev, hs, hc, he⟩ | _ | ⟨h1, h2, h3, h4, h5⟩ | ⟨chs, n, a, l, h1⟩ |
    ⟨st, code, msg, h1⟩ | h1 | ⟨o, h1⟩)
  · exact .emit ev hs (fun h => hm (hc h)) fun h => hr (he h)
  · exact .compact
  · exact .push h1 h2 h3 h4 h5
  · exact .table chs n a l (h1.imp_left hm)
  · exact .fail st code msg h1
  · exact .pop h1
  · exact .log o h1

theorem emit (ev : Event) (hs : ev.isSession = false) (he : ev.isRecordError = false)
    (hc : ev.isChannel → p.channels) : Moves E p c (emit c ev) :=
  one (.emit ev hs hc (by simp [he]))

theorem fail_emit {code : Rc} {msg : String} (hr : msg ∈ recordErrors → p.record) :
    Moves E p c (Sodchan.setError c code msg) := by
  unfold Sodchan.setError
  exact .tail (one (.fail .error _ msg (.inl rfl)))
    (.emit _ rfl (by rintro ⟨⟩) fun h => hr (by simpa [Event.isRecordError] using h))

theorem setError (code : Rc) (msg : String) (hm : msg ∉ recordErrors) :
    Moves E p c (setError c code msg) := fail_emit fun h => absurd h hm

theorem recordError (hp : p.record) (code : Rc) (msg : String) :
    Moves E p c (Sodchan.setError c code msg) := fail_emit fun _ => hp

theorem noChannel (r : UInt32) (code : Rc) (msg : String) (hm : msg ∉ recordErrors) :
    Moves E p c (Sodchan.setError (c.log (.noChannel r)) code msg) :=
  (one (.log _ rfl)).trans (setError code msg hm)

theorem send (he : c.state ≠ .error) (hc : c.state ≠ .closed) {plain : Bytes}
    (hl : plain.length ≤ plainBufSize) : Moves E p c (ssSendPdu E c plain).1 := by
  obtain ⟨st, ct, hroom, hpush, h⟩ | ⟨b, o, rc, -, ho, -, h⟩ := ssSendPdu_cases E c plain
  · rw [h]
    exact one (.push he hc hl hroom hpush)
  · rw [h]
    rcases ho with ⟨rfl, rfl⟩ | ⟨rfl, rfl⟩
    · exact .refl
    · exact one .compact

theorem sendReply (he : c.state ≠ .error) (hc : c.state ≠ .closed) {reply : Except Rc Bytes}
    (hl : ∀ pdu, reply = .ok pdu → pdu.length ≤ plainBufSize) :
    Moves E p c (sendReply E c reply) := by
  unfold Sodchan.sendReply
  cases reply with
  | error rc => exact send he hc (Nat.zero_le _)
  | ok pdu => exact send he hc (hl pdu rfl)

theorem setCh (hm : p.channels) (i : Fin maxChannelSlots) (ch : Channel) :
    Moves E p c (setCh c i ch) :=
  one (.table _ c.nextLocalChannelId c.activeChannels c.allocs (.inl hm))

theorem chFree (i : Fin maxChannelSlots) : Moves E p c (chFree c i) := by
  unfold Sodchan.chFree
  split
  · exact .refl
  · refine one (.table _ c.nextLocalChannelId _ c.allocs (.inr fun j => ?_))
    by_cases hj : j = i
    · subst hj
      exact Or.inr (by simp [Sodchan.setCh, Channel.zero])
    · exact Or.inl (Function.update_of_ne hj _ _)

theorem chAlloc (hm : p.channels) {i : Fin maxChannelSlots} (h : chAlloc c = some (c', i)) :
    Moves E p c c' := by
  obtain ⟨-, -, rfl⟩ := chAlloc_eq_some h
  exact one (.table _ _ _ _ (.inl hm))

end Moves

theorem ssSendPdu_state (E : Env Rng SS) (c : Ctx Rng SS) (plain : Bytes) :
    (ssSendPdu E c plain).1.state = c.state := by
  obtain ⟨st, ct, -, -, h⟩ | ⟨b, o, rc, -, -, -, h⟩ := ssSendPdu_cases E c plain <;>
    rw [h]
  · rfl

@[simp] theorem emit_state (c : Ctx Rng SS) (ev : Event) : (emit c ev).state = c.state := by
  rw [emit_eq]

@[simp] theorem setError_state (c : Ctx Rng SS) (code : Rc) (msg : String) :
    (setError c code msg).state = .error := by
  unfold setError
  rw [emit_state]

/-! ### The channel layer only makes moves -/

section Mux

variable {E : Env Rng SS} {p : Powers} {c : Ctx Rng SS}

theorem muxChannelOpen_moves (hm : p.channels) (he : c.state ≠ .error) (hc : c.state ≠ .closed)
    (plain : Bytes) : Moves E p c (muxChannelOpen E c plain).1 := by
  unfold muxChannelOpen
  split
  · exact Moves.setError _ _ (by decide)
  · dsimp only
    split
    · dsimp only
      exact Moves.sendReply he hc fun pdu h =>
        (Wire.channelOpenFailEncode_length h).trans (by decide)
    · split
      · dsimp only
        exact Moves.sendReply he hc fun pdu h =>
          (Wire.channelOpenFailEncode_length h).trans (by decide)
      · rename_i c' i h
        exact (Moves.chAlloc hm h).trans
          ((Moves.setCh hm _ _).trans (Moves.emit _ rfl rfl fun _ => hm))

theorem muxChannelOpenConfirm_moves (hm : p.channels) (plain : Bytes) :
    Moves E p c (muxChannelOpenConfirm c plain).1 := by
  unfold muxChannelOpenConfirm
  split
  · exact Moves.setError _ _ (by decide)
  · split
    · exact Moves.noChannel _ _ _ (by decide)
    · split
      · exact Moves.setError _ _ (by decide)
      · exact (Moves.setCh hm _ _).trans (Moves.emit _ rfl rfl fun _ => hm)

theorem muxChannelOpenFail_moves (hm : p.channels) (plain : Bytes) :
    Moves E p c (muxChannelOpenFail c plain).1 := by
  unfold muxChannelOpenFail
  split
  · exact Moves.setError _ _ (by decide)
  · split
    · exact .refl
    · split
      · exact (Moves.emit _ rfl rfl fun _ => hm).trans (Moves.chFree _)
      · exact .refl

theorem muxChannelData_moves (hm : p.channels) (plain : Bytes) :
    Moves E p c (muxChannelData c plain).1 := by
  unfold muxChannelData
  split
  · exact Moves.setError _ _ (by decide)
  · split
    · exact Moves.noChannel _ _ _ (by decide)
    · dsimp only
      split
      · exact Moves.setError _ _ (by decide)
      · split
        · exact Moves.setError _ _ (by decide)
        · split
          · exact Moves.setError _ _ (by decide)
          · split
            · exact Moves.setError _ _ (by decide)
            · exact (Moves.setCh hm _ _).trans (Moves.emit _ rfl rfl fun _ => hm)

theorem muxChannelWindow_moves (hm : p.channels) (plain : Bytes) :
    Moves E p c (muxChannelWindow c plain).1 := by
  unfold muxChannelWindow
  split
  · exact Moves.setError _ _ (by decide)
  · split
    · exact .refl
    · dsimp only
      split
      · exact .refl
      · exact (Moves.setCh hm _ _).trans (Moves.emit _ rfl rfl fun _ => hm)

theorem muxChannelEof_moves (hm : p.channels) (plain : Bytes) :
    Moves E p c (muxChannelEof c plain).1 := by
  unfold muxChannelEof
  split
  · exact Moves.setError _ _ (by decide)
  · split
    · exact .refl
    · exact (Moves.setCh hm _ _).trans (Moves.emit _ rfl rfl fun _ => hm)

theorem muxChannelClose_moves (hm : p.channels) (plain : Bytes) :
    Moves E p c (muxChannelClose c plain).1 := by
  unfold muxChannelClose
  split
  · exact Moves.setError _ _ (by decide)
  · split
    · exact .refl
    · exact (Moves.emit _ rfl rfl fun _ => hm).trans (Moves.chFree _)

theorem muxPing_moves (he : c.state ≠ .error) (hc : c.state ≠ .closed) (plain : Bytes) :
    Moves E p c (muxPing E c plain).1 := by
  unfold muxPing
  split
  · exact Moves.setError _ _ (by decide)
  · dsimp only
    split
    · exact Moves.emit _ rfl rfl (by simp [Event.isChannel])
    · rename_i h
      exact (Moves.emit _ rfl rfl (by simp [Event.isChannel])).trans
        (Moves.send (by simpa using he) (by simpa using hc)
        ((Wire.wordEncode_length h).trans (by decide)))

theorem muxDisconnect_moves (plain : Bytes) : Moves E p c (muxDisconnect c plain).1 := by
  unfold muxDisconnect
  split
  · exact Moves.setError _ _ (by decide)
  · exact (Moves.emit _ rfl rfl (by simp [Event.isChannel])).tail (.fail .closed _ _ (.inr rfl))

theorem handleMuxPdu_moves (hm : p.channels) (he : c.state ≠ .error) (hc : c.state ≠ .closed)
    (plain : Bytes) : Moves E p c (handleMuxPdu E c plain).1 := by
  unfold handleMuxPdu
  dsimp only
  split_ifs
  · exact muxChannelOpen_moves hm he hc plain
  · exact muxChannelOpenConfirm_moves hm plain
  · exact muxChannelOpenFail_moves hm plain
  · exact muxChannelData_moves hm plain
  · exact muxChannelWindow_moves hm plain
  · exact muxChannelEof_moves hm plain
  · exact muxChannelClose_moves hm plain
  · exact muxPing_moves he hc plain
  · exact .refl
  · exact muxDisconnect_moves plain
  · exact Moves.setError _ _ (by decide)

theorem ssSendPdu_ready {plain : Bytes} {c' : Ctx Rng SS} (h : ssSendPdu E c plain = (c', .ok)) :
    c.ssPushReady := by
  obtain ⟨st, ct, hroom, -, -⟩ | ⟨b, o, rc, -, -, hrc, he⟩ := ssSendPdu_cases E c plain
  · exact hroom.ready
  · rw [he] at h
    exact absurd (Prod.mk.inj h).2 hrc

theorem Moves.sendReady (hs : c.state = .ready) {plain : Bytes}
    (hl : plain.length ≤ plainBufSize) :
    Moves E ⟨c.muxActive, False⟩ c (ssSendPdu E c plain).1 :=
  Moves.send (by simp [hs]) (by simp [hs]) hl

theorem muxActive_of_send (hs : c.state = .ready) {plain : Bytes} {c' : Ctx Rng SS}
    (h : ssSendPdu E c plain = (c', .ok)) : c.muxActive :=
  ⟨Or.inl hs, Or.inl (ssSendPdu_ready h)⟩

/-- The slot of an open that fails is given back; only the id is lost. -/
theorem openFailed_moves (i : Fin maxChannelSlots) {ch : Channel} (hch : ch.state ≠ .unused)
    {b : Bytes} {o : ℕ} (ho : b = c.outBuf ∧ o = c.outOff ∨ b = c.pending ∧ o = 0) :
    Moves E p c (chFree { setCh (c.allocated i) i ch with outBuf := b, outOff := o } i) := by
  have hout : Moves E p c { c with outBuf := b, outOff := o } := by
    rcases ho with ⟨rfl, rfl⟩ | ⟨rfl, rfl⟩
    · exact .refl
    · exact Moves.one .compact
  unfold chFree
  rw [if_neg (by simpa [setCh] using hch)]
  refine hout.tail (.table _ _ _ _ (.inr fun j => ?_))
  by_cases hj : j = i
  · exact Or.inr (by simp [setCh, hj, Channel.zero])
  · exact Or.inl (by simp [setCh, Ctx.allocated, Function.update_of_ne hj])

theorem channelOpen_moves (name : Option Bytes) :
    Moves E ⟨c.muxActive, False⟩ c (channelOpen E c name).1 := by
  unfold channelOpen
  split
  · exact .refl
  · split
    · exact .refl
    · split
      · exact .refl
      · rename_i name _ h
        rw [not_not] at h
        split
        · exact .refl
        · split
          · exact .refl
          · split
            · exact .refl
            · rename_i c' i ha
              obtain ⟨-, -, rfl⟩ := chAlloc_eq_some ha
              have hs : (c.allocated i).state = .ready := h
              dsimp only
              generalize hch : ({ (c.allocated i).channels i with
                state := .opening, recvWindow := (c.allocated i).initialWindow
                maxPacket := (c.allocated i).maxPacket, name := name } : Channel) = ch
              have hne : ch.state ≠ .unused := by rw [← hch]; rintro ⟨⟩
              split
              · exact openFailed_moves i hne (Or.inl ⟨rfl, rfl⟩)
              · rename_i pdu henc
                obtain ⟨st, ct, hroom, hpush, hsend⟩ | ⟨b, o, rc, -, ho, hrc, hsend⟩ :=
                  ssSendPdu_cases E (setCh (c.allocated i) i ch) pdu
                · have hm : c.muxActive := ⟨Or.inl h, Or.inl hroom.ready⟩
                  rw [hsend]
                  exact ((Moves.chAlloc hm ha).trans (Moves.setCh hm i ch)).tail
                    (.push (by simp [setCh, hs]) (by simp [setCh, hs])
                      ((Wire.channelOpenEncode_length henc).trans (by decide)) hroom hpush)
                · rw [hsend]
                  cases rc <;> first
                    | exact absurd rfl hrc
                    | exact openFailed_moves i hne ho

theorem channelAccept_moves (localId : UInt32) (accept : Bool) :
    Moves E ⟨c.muxActive, False⟩ c (channelAccept E c localId accept).1 := by
  unfold channelAccept
  split
  · exact .refl
  · rename_i h
    rw [not_not] at h
    split
    · exact .refl
    · dsimp only
      split
      · exact .refl
      · split
        · exact .refl
        · split
          · split
            · exact .refl
            · rename_i pdu henc
              have hs := Moves.sendReady (E := E) h
                ((Wire.channelOpenConfirmEncode_length henc).trans (by decide))
              split <;> rename_i hp <;> rw [hp] at hs
              · have hm := muxActive_of_send h hp
                exact hs.trans ((Moves.setCh hm _ _).trans (Moves.emit _ rfl rfl fun _ => hm))
              · exact hs
          · split
            · exact .refl
            · rename_i pdu henc
              have hs := Moves.sendReady (E := E) h
                ((Wire.channelOpenFailEncode_length henc).trans (by decide))
              split <;> rename_i hp <;> rw [hp] at hs
              · exact hs.trans (Moves.chFree _)
              · exact hs

theorem channelSend_moves (localId : UInt32) (data : Arg) (memOk : Bool) :
    Moves E ⟨c.muxActive, False⟩ c (channelSend E c localId data memOk).1 := by
  unfold channelSend
  split
  · exact .refl
  · split
    · exact .refl
    · rename_i h
      rw [not_not] at h
      split
      · exact .refl
      · dsimp only
        split_ifs with _ _ hmax
        all_goals first | exact .refl | skip
        split
        · exact .refl
        · rename_i pdu henc
          have hs := Moves.sendReady (E := E) h
            ((Wire.channelDataEncode_length henc).trans (by simp [plainBufSize]; omega))
          split <;> rename_i hp <;> rw [hp] at hs
          · exact hs.trans (Moves.setCh (muxActive_of_send h hp) _ _)
          · exact hs

theorem channelEof_moves (localId : UInt32) :
    Moves E ⟨c.muxActive, False⟩ c (channelEof E c localId).1 := by
  unfold channelEof
  split
  · exact .refl
  · rename_i h
    rw [not_not] at h
    split
    · exact .refl
    · dsimp only
      split
      · exact .refl
      · split
        · exact .refl
        · split
          · exact .refl
          · rename_i pdu henc
            have hs := Moves.sendReady (E := E) h
              ((Wire.wordEncode_length henc).trans (by decide))
            split <;> rename_i hp <;> rw [hp] at hs
            · exact hs.trans (Moves.setCh (muxActive_of_send h hp) _ _)
            · exact hs

theorem sendClose_moves (he : c.state ≠ .error) (hc : c.state ≠ .closed) (ch : Channel) :
    Moves E p c (sendClose E c ch) := by
  unfold sendClose
  split
  · split
    · exact .refl
    · rename_i pdu henc
      exact Moves.send he hc ((Wire.wordEncode_length henc).trans (by decide))
  · exact .refl

theorem channelClose_moves (localId : UInt32) :
    Moves E p c (channelClose E c localId).1 := by
  unfold channelClose
  split
  · exact .refl
  · rename_i h
    have hst : c.state = .ready ∨ c.state = .draining := by
      by_contra hn
      exact h (not_or.mp hn)
    have he : c.state ≠ .error := by rcases hst with hs | hs <;> simp [hs]
    have hc : c.state ≠ .closed := by rcases hst with hs | hs <;> simp [hs]
    split
    · exact .refl
    · dsimp only
      split
      · exact .refl
      · exact (sendClose_moves he hc _).trans (Moves.chFree _)

theorem channelWindowAdjust_moves (localId credit : UInt32) :
    Moves E ⟨c.muxActive, False⟩ c (channelWindowAdjust E c localId credit).1 := by
  unfold channelWindowAdjust
  split
  · exact .refl
  · split
    · exact .refl
    · rename_i h
      rw [not_not] at h
      split
      · exact .refl
      · dsimp only
        split
        · exact .refl
        · split
          · exact .refl
          · rename_i pdu henc
            have hs := Moves.sendReady (E := E) h
              ((Wire.channelWindowEncode_length henc).trans (by decide))
            split <;> rename_i hp <;> rw [hp] at hs
            · exact hs.trans (Moves.setCh (muxActive_of_send h hp) _ _)
            · exact hs

end Mux

/-- The context `c` with everything the traffic layer may change taken from `t`. -/
def Ctx.traffic (c t : Ctx Rng SS) : Ctx Rng SS :=
  { c with
    state := t.state
    error := t.error
    errorMsg := t.errorMsg
    ssPush := t.ssPush
    channels := t.channels
    nextLocalChannelId := t.nextLocalChannelId
    activeChannels := t.activeChannels
    outBuf := t.outBuf
    outOff := t.outOff
    events := t.events
    hist := t.hist
    allocs := t.allocs }

def Occ.isSession : Occ → Bool
  | .queued ev | .dropped ev => ev.isSession
  | .helloVerified _ | .authDevice .. | .authBadSig | .authDecided _ => true
  | .did k => k.isDecide
  | _ => false

/-- The events of the channel layer as they were emitted. -/
def Occ.isChannel : Occ → Bool
  | .queued ev | .dropped ev => ev.isChannel
  | _ => false

def Occ.isRecordError : Occ → Bool
  | .queued ev | .dropped ev => ev.isRecordError
  | _ => false

def Occ.isInput : Occ → Bool
  | .frame _ | .pulled .. => true
  | _ => false

/-- What moves may record. -/
structure Occ.isTraffic (p : Powers) (o : Occ) : Prop where
  session : o.isSession = false
  channel : o.isChannel → p.channels
  record : o.isRecordError → p.record
  input : o.isInput = false

theorem Occ.isTraffic.silent {p : Powers} {o : Occ} (hs : o.isSession = false)
    (hc : o.isChannel = false) (hr : o.isRecordError = false) (hi : o.isInput = false) :
    o.isTraffic p := ⟨hs, by simp [hc], by simp [hr], hi⟩

namespace Moves

variable {E : Env Rng SS} {p : Powers} {c c' : Ctx Rng SS}

theorem overlay (h : Moves E p c c') : c' = c.traffic c' := by
  induction h with
  | refl => rfl
  | tail _ hm ih =>
    cases hm with
    | emit ev =>
      rw [emit_eq]
      conv_lhs => rw [ih]
      rfl
    | _ =>
      conv_lhs => rw [ih]
      rfl

theorem state (h : Moves E p c c') :
    c'.state = c.state ∨ c'.state = .error ∨ c'.state = .closed := by
  induction h with
  | refl => exact Or.inl rfl
  | tail _ hm ih =>
    cases hm with
    | emit ev => rwa [emit_state]
    | fail st code msg hst => exact Or.inr hst
    | _ => exact ih

theorem hist (h : Moves E p c c') :
    ∃ l, c'.hist = c.hist ++ l ∧ ∀ o ∈ l, o.isTraffic p := by
  induction h with
  | refl => exact ⟨[], by simp, by simp⟩
  | @tail a b _ hm ih =>
    obtain ⟨l, hl, ho⟩ := ih
    have hsnoc : ∀ l', (∀ o ∈ l', o.isTraffic p) → b.hist = a.hist ++ l' →
        ∃ l, b.hist = c.hist ++ l ∧ ∀ o ∈ l, o.isTraffic p := by
      intro l' hl' hb
      refine ⟨l ++ l', by rw [hb, hl, List.append_assoc], fun o hmem => ?_⟩
      rcases List.mem_append.mp hmem with hmem | hmem
      · exact ho o hmem
      · exact hl' o hmem
    cases hm with
    | emit ev hs hc he =>
      refine hsnoc [emitOcc a ev] ?_ (by rw [emit_eq])
      simp only [List.mem_singleton, forall_eq]
      rcases emitOcc_cases a ev with h | h <;> rw [h] <;> exact ⟨hs, hc, he, rfl⟩
    | push =>
      refine hsnoc [.sent _, .appended _] ?_ rfl
      rintro o hmem
      rcases List.mem_pair.mp hmem with rfl | rfl <;> exact .silent rfl rfl rfl rfl
    | pop =>
      refine hsnoc [.returned _] ?_ rfl
      simpa using .silent rfl rfl rfl rfl
    | log o hlog =>
      refine hsnoc [o] ?_ rfl
      simp only [List.mem_singleton, forall_eq]
      cases o with
      | did k => exact .silent (by simpa [Occ.isLog, Occ.isSession] using hlog) rfl rfl rfl
      | noChannel r => exact .silent rfl rfl rfl rfl
      | _ => cases hlog
    | _ => exact ⟨l, hl, ho⟩

theorem hist_mono (h : Moves E p c c') : c.hist <+: c'.hist := by
  obtain ⟨l, hl, -⟩ := h.hist
  exact ⟨l, hl.symm⟩

theorem filter_eq {f : Occ → Bool} (hf : ∀ o, f o → o.isSession) (h : Moves E p c c') :
    c'.hist.filter f = c.hist.filter f := by
  obtain ⟨l, hl, ho⟩ := h.hist
  have hnil : l.filter f = [] :=
    List.filter_eq_nil_iff.mpr fun o hm hfo => by
      have := (ho o hm).session
      rw [hf o hfo] at this
      cases this
  rw [hl, List.filter_append, hnil, List.append_nil]

theorem slot_rest (hm : ¬ p.channels) (h : Moves E p c c') (i : Fin maxChannelSlots) :
    c'.channels i = c.channels i ∨ (c'.channels i).state = .unused := by
  induction h with
  | refl => exact Or.inl rfl
  | tail _ hs ih =>
    cases hs with
    | emit ev => rwa [emit_eq]
    | table chs next active allocs h =>
      rcases h with h | h
      · exact absurd h hm
      · rcases h i with hi | hi
        · exact ih.imp hi.trans fun hu => (congrArg Channel.state hi).trans hu
        · exact Or.inr hi
    | _ => exact ih

end Moves

end Sodchan
