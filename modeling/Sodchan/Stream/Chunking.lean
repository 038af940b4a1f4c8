import Sodchan.Model.Plain
import Sodchan.Stream.Settled

/-! # Chunks

Whatever the chunks in which a byte string is fed, the context ends up as if
the whole string had been appended to the input buffer and processed at once.
-/

namespace Sodchan

variable {Rng SS : Type} {E : Env Rng SS} {c d : Ctx Rng SS} {data rest : Bytes}

/-- All of the data processed at once, in a buffer without bound. -/
def absorb (E : Env Rng SS) (c : Ctx Rng SS) (data : Bytes) : Ctx Rng SS :=
  processInput E (c.feed data)

theorem absorb_nil (h : Settled E c) : absorb E c [] = c := by
  unfold absorb
  rw [(processOne_incremental E).feed_nil]
  exact processInput_stop h

theorem absorb_append (E : Env Rng SS) (c : Ctx Rng SS) (a b : Bytes) :
    absorb E (absorb E c a) b = absorb E c (a ++ b) := by
  unfold absorb
  rw [← (processOne_incremental E).feed_feed]
  exact ((processOne_incremental E).full_feed (processOne_decreases E) (c.feed a) b).symm

theorem absorb_ended (h : c.ended) (data : Bytes) : absorb E c data = c.feed data :=
  processInput_stop (c := c.feed data) (processOne_ended h)

theorem feedInput_ended (h : c.ended) (data : Bytes) : feedInput E c data = (c, 0) := by
  unfold feedInput
  split
  · rfl
  · split
    · rfl
    · rename_i hn
      exact absurd h hn

/-- What `feedInput` takes, it absorbs. -/
theorem feedInput_eq (hst : ¬ c.ended) (data : Bytes) (hs : Settled E c) :
    ∃ n, feedInput E c data = (absorb E c (data.take n), n) ∧
      n = min data.length (inBufSize - c.inBuf.length) := by
  refine ⟨_, ?_, rfl⟩
  unfold feedInput
  split
  · rename_i h
    rw [h, Nat.zero_min, List.take_zero, absorb_nil hs]
  · split
    · rename_i h
      exact absurd h hst
    · dsimp only
      split
      · rename_i h
        rw [h, List.take_zero, absorb_nil hs]
      · rfl

/-- A byte string being fed in non-empty chunks, with the part that was not taken yet. -/
inductive Feeding (E : Env Rng SS) (c : Ctx Rng SS) (data : Bytes) : Ctx Rng SS → Bytes → Prop where
  | start : Feeding E c data c data
  | chunk {d : Ctx Rng SS} {rest : Bytes} (n : ℕ) : Feeding E c data d rest → 0 < n →
      n ≤ rest.length → Feeding E c data (feedInput E d (rest.take n)).1
        (rest.drop (feedInput E d (rest.take n)).2)

/-- The string was taken, or the session is over. -/
def Feeding.Complete (d : Ctx Rng SS) (rest : Bytes) : Prop := rest = [] ∨ d.ended

/-- Equal contexts, up to the input buffer once the session is over. -/
structure Alike (c d : Ctx Rng SS) : Prop where
  rest : c.withIn [] = d.withIn []
  live : ¬ c.ended → c.inBuf = d.inBuf

theorem Feeding.settled (hc : Settled E c) (h : Feeding E c data d rest) : Settled E d := by
  induction h with
  | start => exact hc
  | chunk n _ _ _ ih => exact feedInput_settled ih _

/-- What is still to be fed leads where all of it would have led. -/
theorem Feeding.absorb (hc : Settled E c) (h : Feeding E c data d rest) :
    absorb E d rest = Sodchan.absorb E c data := by
  induction h with
  | start => rfl
  | @chunk d rest n hf _ _ ih =>
    rw [← ih]
    by_cases he : d.ended
    · rw [feedInput_ended he]
      rfl
    · obtain ⟨k, hk, hn⟩ := feedInput_eq he (rest.take n) (hf.settled hc)
      rw [hk, absorb_append]
      have htake : (rest.take n).take k ++ rest.drop k = rest := by
        rw [List.take_take, min_eq_left, List.take_append_drop]
        rw [List.length_take] at hn
        omega
      rw [htake]

/-- A complete feeding has absorbed the string, as far as the session got. -/
theorem Feeding.complete (hc : Settled E c) (h : Feeding E c data d rest)
    (hd : Feeding.Complete d rest) :
    d = Sodchan.absorb E c data ∨ d.ended ∧ d.feed rest = Sodchan.absorb E c data := by
  have ha := h.absorb hc
  rcases hd with rfl | he
  · exact Or.inl ((absorb_nil (h.settled hc)).symm.trans ha)
  · exact Or.inr ⟨he, (absorb_ended he rest).symm.trans ha⟩

/-- In a reachable live context every chunking of a string leads to the same context, and every
offer is taken at least in part. -/
theorem chunking (h64 : E.sizeMax = 2 ^ 64 - 1) (hr : Reachable E c) (hst : ¬ c.ended) :
    (∀ data d₁ r₁ d₂ r₂, Feeding E c data d₁ r₁ → Feeding.Complete d₁ r₁ →
      Feeding E c data d₂ r₂ → Feeding.Complete d₂ r₂ → Alike d₁ d₂) ∧
    c.inBuf.length < inBufSize ∧ ∀ data, data ≠ [] → 0 < (feedInput E c data).2 := by
  have hs := hr.settled
  have hroom := hs.room h64 hst
  refine ⟨?_, hroom, ?_⟩
  · intro data d₁ r₁ d₂ r₂ h₁ hc₁ h₂ hc₂
    obtain h₁ | ⟨he₁, h₁⟩ := h₁.complete hs hc₁ <;> obtain h₂ | ⟨he₂, h₂⟩ := h₂.complete hs hc₂
    · rw [h₁, h₂]
      exact ⟨rfl, fun _ => rfl⟩
    · refine ⟨by rw [h₁, ← h₂]; rfl, fun hn => absurd ?_ hn⟩
      rw [h₁, ← h₂]
      exact he₂
    · exact ⟨by rw [h₂, ← h₁]; rfl, fun hn => absurd he₁ hn⟩
    · refine ⟨?_, fun hn => absurd he₁ hn⟩
      have h := congrArg (fun x : Ctx Rng SS => x.withIn []) (h₁.trans h₂.symm)
      exact h
  · intro data hd
    obtain ⟨n, hn, hk⟩ := feedInput_eq hst data hs
    rw [hn, hk]
    have := List.length_pos_iff.mpr hd
    change 0 < min _ _
    omega

theorem Feeding.whole (h : Feeding E c data d rest) (hne : rest ≠ []) :
    Feeding E c data (feedInput E d rest).1 (rest.drop (feedInput E d rest).2) := by
  have hlast := h.chunk rest.length (List.length_pos_iff.mpr hne) le_rfl
  rwa [List.take_length] at hlast

/-- The HELLO and the header of a client, at once and with a cut in the HELLO. -/
theorem chunking_plain :
    Alike (feedInput plainEnv plainServerStart plainKx).1
      (feedInput plainEnv (feedInput plainEnv plainServerStart (plainKx.take 100)).1
        (plainKx.drop 100)).1 ∧
    (feedInput plainEnv plainServerStart plainKx).1.state = .auth ∧
    plainServerStart.inBuf.length < inBufSize ∧
    0 < (feedInput plainEnv plainServerStart plainKx).2 := by
  have hr : Reachable plainEnv plainServerStart := reachable_play create_plainServer []
  have hst : ¬ plainServerStart.ended := by decide
  have hkx : plainKx ≠ [] := by decide +kernel
  have hstart : Feeding plainEnv plainServerStart plainKx plainServerStart plainKx := .start
  have hsplit : Feeding plainEnv plainServerStart plainKx
      (feedInput plainEnv plainServerStart (plainKx.take 100)).1 (plainKx.drop 100) := by
    have hcut : (feedInput plainEnv plainServerStart (plainKx.take 100)).2 = 100 := by
      decide +kernel
    have h := hstart.chunk 100 (by decide) (by decide +kernel)
    rwa [hcut] at h
  obtain ⟨halike, hroom, hprogress⟩ := chunking rfl hr hst
  exact ⟨halike plainKx _ _ _ _ (hstart.whole hkx) (Or.inl (by decide +kernel))
    (hsplit.whole (by decide +kernel)) (Or.inl (by decide +kernel)), by decide +kernel, hroom,
    hprogress plainKx hkx⟩

end Sodchan
