import Sodchan.Session.Upheld

/-! # Steps that are built from the primitives

A relation that the primitives respect is respected by every public call and
by every round of input.
-/

namespace Sodchan

open ByteString

variable {Rng SS : Type} {E : Env Rng SS} {c c' : Ctx Rng SS}

namespace Upheld

variable {possible : Prop} {R : Ctx Rng SS → Ctx Rng SS → Prop}

theorem authDecideEx (h : Upheld E possible R) (c : Ctx Rng SS) (accept : Bool) (claims : Arg) :
    R c (authDecideEx E c accept claims).1 := by
  have htake : R c (takeDecision c accept) :=
    h.trans (h.log c (.authDecided accept) rfl) (h.same rfl)
  unfold Sodchan.authDecideEx
  split_ifs
  · exact h.refl c
  · exact h.refl c
  · exact h.refl c
  · exact h.refl c
  · exact h.refl c
  · have hsend := h.trans htake (h.serverSendAuthOk (takeDecision c accept) claims.data)
    split <;> rename_i he <;> rw [he] at hsend
    · rename_i d
      have hready : R d { d with authComplete := true, state := .ready } :=
        h.same rfl
      exact h.trans hsend (h.trans hready (h.emit _ _))
    · exact h.fail hsend _ _ (by decide)
  · have hsend := h.trans htake (h.serverSendAuthFail (takeDecision c accept))
    split <;> rename_i he <;> rw [he] at hsend
    · exact h.fail (h.trans hsend (h.emit _ _)) _ _ (by decide)
    · exact h.fail hsend _ _ (by decide)

theorem disconnect (h : Upheld E possible R) (c : Ctx Rng SS) (reason : UInt32)
    (msg : Option Bytes) : R c (disconnect E c reason msg).1 := by
  unfold Sodchan.disconnect
  split
  · exact h.refl c
  · dsimp only
    split
    · exact h.trans (h.respected.sendDisconnect trivial reason _) (h.same rfl)
    · exact h.same rfl

theorem nextEvent (h : Upheld E possible R) (c : Ctx Rng SS) : R c (nextEvent c).1 := by
  unfold Sodchan.nextEvent
  split
  · exact h.refl c
  · rename_i ev r hr
    have hcap : r.cap = c.events.cap := (RingBuffer.pop_eq_some hr).2
    have hpop : R c { c with events := r } := h.same (by simp only [Ctx.outline, hcap]; rfl)
    exact h.trans hpop (h.log _ (.returned ev) rfl)

theorem record (h : Upheld E possible R) {k : Call} {r : Ctx Rng SS × Rc} (hr : R c r.1) :
    R c (record k r).1 := by
  unfold Sodchan.record
  split
  · exact h.trans hr (h.log _ (.did k) rfl)
  · exact hr

theorem call (h : Upheld E possible R) {k : Call} (hk : k.isPlain)
    (hout : ∀ n, k = .getOutput n → R c (getOutput c n).1) : R c (call E c k).1 := by
  cases k with
  | feedInput | reset => cases hk
  | getOutput n => exact hout n rfl
  | nextEvent => exact h.nextEvent c
  | authDecide accept => exact h.record (h.authDecideEx c accept _)
  | authDecideEx accept claims => exact h.record (h.authDecideEx c accept claims)
  | channelOpen name => exact h.record (h.respected.channelOpen trivial name)
  | channelAccept id accept => exact h.record (h.respected.channelAccept trivial id accept)
  | channelSend id data m => exact h.record (h.respected.channelSend trivial id data m)
  | channelEof id => exact h.record (h.respected.channelEof trivial id)
  | channelClose id => exact h.record (h.respected.channelClose trivial id)
  | channelWindowAdjust id credit =>
    exact h.record (h.respected.channelWindowAdjust trivial id credit)
  | disconnect reason msg => exact h.record (h.disconnect c reason msg)

/-- A relation that minds neither what is buffered as input, as long as it fits, nor which frames
were taken from it. -/
structure IgnoresInput (R : Ctx Rng SS → Ctx Rng SS → Prop) : Prop where
  buffer : ∀ c b, b.length ≤ max c.inBuf.length inBufSize → R c { c with inBuf := b }
  frame : ∀ c raw, R c (c.log (.frame raw))

theorem processOne (h : Upheld E possible R) (hin : IgnoresInput R)
    (hp : possible → ¬ c.ended → Possible c) : R c (processOne E c).state := by
  obtain ⟨-, he⟩ | ⟨-, -, -, he⟩ | ⟨k, body, d, hst, hcl, -, he⟩ := processOne_cases E c
  · rw [he]
    exact h.refl c
  · rw [he]
    exact h.error c _ _ fun _ => by decide
  · have hlog : R c (c.log (.frame (rawFrame body))) := hin.frame c _
    have hpos : possible → Possible (c.log (.frame (rawFrame body))) := by
      intro hq
      have hl := hp hq fun hend => hend.elim hst hcl
      exact ⟨hl.start, hl.pull, hl.state, hl.tHello⟩
    have hf := h.trans hlog (h.handleFrame hpos body)
    rcases he with ⟨hh, he⟩ | ⟨hh, he⟩ <;> rw [he] <;> rw [hh] at hf
    · refine h.trans hf (hin.buffer d _ (le_max_of_le_left ?_))
      rw [List.length_drop]
      exact Nat.sub_le _ _
    · exact hf

/-- A relation that the primitives respect is respected by every step. -/
theorem step (h : Upheld E False R) (hin : IgnoresInput R) (hout : ∀ c n, R c (getOutput c n).1)
    {l : Label} (hs : Step E l c c') : R c c' := by
  cases hs with
  | call k hk => exact h.call hk fun n _ => hout c n
  | intake data _ _ _ hroom =>
    refine hin.buffer c _ (le_max_of_le_right ?_)
    rwa [List.length_append]
  | again he | stop he =>
    have hp := h.processOne (c := c) hin False.elim
    rwa [he] at hp

end Upheld

end Sodchan
