import Sodchan.Lib.Machine
import Sodchan.Model.Traffic

/-! # The two queues of a context

The output buffer is a queue of bytes that the host empties in pieces of any
size, and the event ring is a bounded queue of events. Both are compared with
the queue they stand for over arbitrary sequences of calls.
-/

namespace Sodchan

open ByteString

variable {Rng SS : Type} {E : Env Rng SS} {c : Ctx Rng SS}

/-- The calls that move bytes into and out of the output buffer. -/
inductive OutCall where
  | append (p : Bytes)
  | appendFrame (body : Bytes)
  | sendPdu (plain : Bytes)
  | getOutput (maxLen : ℕ)

/-- What such a call answers: a code and the bytes it was to append, or the bytes it returns. -/
inductive OutAnswer where
  | code (rc : Rc) (frame : Bytes)
  | output (b : Bytes)

def OutAnswer.appended : OutAnswer → Bytes
  | .code rc frame => if rc = .ok then frame else []
  | .output _ => []

def OutAnswer.returned : OutAnswer → Bytes
  | .code .. => []
  | .output b => b

def OutCall.frame (E : Env Rng SS) (c : Ctx Rng SS) : OutCall → Bytes
  | .append p => p
  | .appendFrame body => rawFrame body
  | .sendPdu plain => ((E.ssPush c.ssPush plain tagMessage).map fun r => rawFrame r.2).getD []
  | .getOutput _ => []

/-- The output buffer under these calls. -/
def outMachine (E : Env Rng SS) : Machine (Ctx Rng SS) OutCall OutAnswer := fun c k =>
  match k with
  | .append p => ((outAppend c p).1, .code (outAppend c p).2 (k.frame E c))
  | .appendFrame body => ((outAppendFrame c body).1, .code (outAppendFrame c body).2 (k.frame E c))
  | .sendPdu plain => ((ssSendPdu E c plain).1, .code (ssSendPdu E c plain).2 (k.frame E c))
  | .getOutput maxLen => ((getOutput c maxLen).1, .output (getOutput c maxLen).2)

theorem outAppend_pending (c : Ctx Rng SS) (p : Bytes) :
    (outAppend c p).1.pending = c.pending ++ (OutAnswer.code (outAppend c p).2 p).appended := by
  rw [outAppend_eq]
  split
  · exact (List.append_nil _).symm
  · rfl

/-- A clear frame fits the buffer in which it is laid out, so appending one fails for its length
or for space in the output buffer. -/
theorem outAppendFrame_clear (c : Ctx Rng SS) (body : Bytes) :
    outAppendFrame c body = (c, .param) ∨ outAppendFrame c body = (c, .protocol) ∨
      outAppendFrame c body = outAppend c (rawFrame body) := by
  unfold outAppendFrame Wire.frameEncode Wire.frameEncodeMax
  split_ifs with h0 h1 h2
  · exact Or.inl rfl
  · exact Or.inr (Or.inl rfl)
  · omega
  · exact Or.inr (Or.inr rfl)

theorem outAppendFrame_pending (c : Ctx Rng SS) (body : Bytes) :
    (outAppendFrame c body).1.pending =
      c.pending ++ (OutAnswer.code (outAppendFrame c body).2 (rawFrame body)).appended := by
  obtain he | he | he := outAppendFrame_clear c body <;> rw [he]
  · exact (List.append_nil _).symm
  · exact (List.append_nil _).symm
  · exact outAppend_pending c _

theorem ssSendPdu_pending (c : Ctx Rng SS) (plain : Bytes) :
    (ssSendPdu E c plain).1.pending = c.pending ++
      (OutAnswer.code (ssSendPdu E c plain).2 ((OutCall.sendPdu plain).frame E c)).appended := by
  obtain ⟨st, ct, -, hp, he⟩ | ⟨b, o, rc, -, hb, hrc, he⟩ := ssSendPdu_cases E c plain
  · rw [he, OutCall.frame, hp]
    rfl
  · rw [he, OutAnswer.appended, if_neg hrc, List.append_nil]
    exact pending_withBuf c hb

theorem outMachine_conserves (E : Env Rng SS) :
    (outMachine E).Conserves Ctx.pending OutAnswer.appended OutAnswer.returned := by
  intro c k
  cases k with
  | append p => exact (outAppend_pending c p).symm
  | appendFrame body => exact (outAppendFrame_pending c body).symm
  | sendPdu plain => exact (ssSendPdu_pending c plain).symm
  | getOutput maxLen => exact (List.append_nil _).trans (getOutput_pending c maxLen)

theorem full_of_outAppend {p : Bytes} (h : (outAppend c p).2 = .full) :
    outBufSize < p.length + c.pending.length := by
  rw [outAppend_eq] at h
  split at h
  · omega
  · cases h

theorem full_of_outAppendFrame {body : Bytes} (h : (outAppendFrame c body).2 = .full) :
    outBufSize < 4 + body.length + c.pending.length := by
  rw [← length_rawFrame]
  obtain he | he | he := outAppendFrame_clear c body <;> rw [he] at h
  · cases h
  · cases h
  · exact full_of_outAppend h

theorem full_of_ssSendPdu {plain : Bytes} (h : (ssSendPdu E c plain).2 = .full) :
    outBufSize < 4 + plain.length + ssAbytes + c.pending.length := by
  unfold ssSendPdu at h
  simp only [outCompact_eq] at h
  split at h
  · cases h
  · split at h
    · cases h
    · split at h
      · omega
      · split at h
        · cases h
        · split at h <;> cases h

/-- The output buffer is a lossless queue: what was pending and what the calls that returned OK
appended is what was returned and what is pending, in order. -/
theorem output_lossless (E : Env Rng SS) (c : Ctx Rng SS) (l : List OutCall) :
    c.pending ++ ((outMachine E).drive c l).2.flatMap OutAnswer.appended =
      ((outMachine E).drive c l).2.flatMap OutAnswer.returned ++
        ((outMachine E).drive c l).1.pending ∧
    (∀ d : Ctx Rng SS,
      (∀ p, (outAppend d p).2 = .full → outBufSize < p.length + d.pending.length) ∧
      (∀ body, (outAppendFrame d body).2 = .full →
        outBufSize < 4 + body.length + d.pending.length) ∧
      (∀ plain, (ssSendPdu E d plain).2 = .full →
        outBufSize < 4 + plain.length + 17 + d.pending.length)) := by
  constructor
  · exact (outMachine_conserves E).drive c l
  · intro d
    exact ⟨fun p => full_of_outAppend, fun body => full_of_outAppendFrame,
      fun plain => full_of_ssSendPdu⟩

/-- The calls that store and return events. -/
inductive EventCall where
  | queueEvent (ev : Event)
  | nextEvent

inductive EventAnswer where
  | code (rc : Rc)
  | event (ev : Option Event)

/-- The event ring under these calls. -/
def eventMachine : Machine (Ctx Rng SS) EventCall EventAnswer := fun c k =>
  match k with
  | .queueEvent ev => ((queueEvent c ev).1, .code (queueEvent c ev).2)
  | .nextEvent => ((nextEvent c).1, .event (nextEvent c).2)

/-- A list of at most `cap` events that grows at its end and shrinks at its front. -/
def eventFifo (cap : ℕ) : Machine (List Event) EventCall EventAnswer := fun q k =>
  match k with
  | .queueEvent ev => if q.length < cap then (q ++ [ev], .code .ok) else (q, .code .full)
  | .nextEvent =>
    match q with
    | [] => ([], .event none)
    | ev :: q => (q, .event (some ev))

/-- The ring holds this list. -/
structure Holds (cap : ℕ) (c : Ctx Rng SS) (q : List Event) : Prop where
  cap_eq : c.events.cap = cap
  toList_eq : c.events.toList = q

theorem Holds.length_le {cap : ℕ} {q : List Event} (h : Holds cap c q) : q.length ≤ cap := by
  rw [← h.cap_eq, ← h.toList_eq]
  exact c.events.length_toList_le

theorem queueEvent_full (ev : Event) (h : c.events.toList.length = c.events.cap) :
    queueEvent c ev = (c.log (.dropped ev), .full) := by
  rw [RingBuffer.length_toList] at h
  unfold queueEvent
  rw [RingBuffer.push_eq_none_iff.mpr h]

theorem queueEvent_room (ev : Event) (h : c.events.toList.length < c.events.cap) :
    ∃ r, c.events.push ev = some r ∧
      queueEvent c ev = ({ c with events := r, hist := c.hist ++ [.queued ev] }, .ok) := by
  rw [RingBuffer.length_toList] at h
  obtain ⟨r, hr⟩ := Option.isSome_iff_exists.mp (RingBuffer.push_isSome_iff.mpr h)
  refine ⟨r, hr, ?_⟩
  unfold queueEvent
  rw [hr]

theorem eventMachine_simulates (cap : ℕ) :
    (eventMachine : Machine (Ctx Rng SS) EventCall EventAnswer).Simulates (eventFifo cap)
      (Holds cap) := by
  intro c q k h
  obtain ⟨rfl, rfl⟩ := h
  cases k with
  | queueEvent ev =>
    by_cases hfull : c.events.toList.length < c.events.cap
    · obtain ⟨r, hr, he⟩ := queueEvent_room ev hfull
      obtain ⟨hl, hc⟩ := RingBuffer.push_eq_some hr
      simp only [eventMachine, eventFifo, he, if_pos hfull]
      exact ⟨⟨hc, hl⟩, trivial⟩
    · have he := queueEvent_full ev (c := c) (by have := c.events.length_toList_le; omega)
      simp only [eventMachine, eventFifo, he, if_neg hfull]
      exact ⟨⟨rfl, rfl⟩, trivial⟩
  | nextEvent =>
    cases hp : c.events.pop with
    | none =>
      have hn := RingBuffer.pop_eq_none_iff.mp hp
      simp only [eventMachine, nextEvent, hp, hn]
      exact ⟨⟨rfl, hn⟩, rfl⟩
    | some x =>
      obtain ⟨ev, r⟩ := x
      obtain ⟨hl, hc⟩ := RingBuffer.pop_eq_some hp
      simp only [eventMachine, nextEvent, hp, hl]
      exact ⟨⟨hc, rfl⟩, rfl⟩

/-- The event ring is a bounded queue: over any calls it answers as the list that it holds, and a
full ring refuses an event and stays as it is. -/
theorem event_ring_fifo (c : Ctx Rng SS) (l : List EventCall) :
    (eventMachine.drive c l).1.events.toList =
      ((eventFifo c.events.cap).drive c.events.toList l).1 ∧
    (eventMachine.drive c l).2 = ((eventFifo c.events.cap).drive c.events.toList l).2 ∧
    (eventMachine.drive c l).1.events.cap = c.events.cap ∧
    (eventMachine.drive c l).1.events.toList.length ≤ c.events.cap ∧
    ∀ ev, (eventMachine.drive c l).1.events.toList.length = c.events.cap →
      queueEvent (eventMachine.drive c l).1 ev =
        ((eventMachine.drive c l).1.log (.dropped ev), .full) := by
  obtain ⟨h, ha⟩ := (eventMachine_simulates c.events.cap).drive ⟨rfl, rfl⟩ l
  have hle := h.length_le
  rw [← h.toList_eq] at hle
  exact ⟨h.toList_eq, ha, h.cap_eq, hle, fun ev hf => queueEvent_full ev (hf.trans h.cap_eq.symm)⟩

end Sodchan
