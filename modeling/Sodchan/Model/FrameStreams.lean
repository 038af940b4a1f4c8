import Sodchan.Lib.Framing
import Sodchan.Model.Plain

/-! # Streams of frames

Frames are parsed one after another until the parser asks for more or gives
up. A stream of frames of admissible lengths is taken apart as it was put
together, wherever it is cut. For records the limit is computed in `size_t`.
-/

namespace Sodchan

open ByteString

variable {Rng SS : Type} {E : Env Rng SS} {c : Ctx Rng SS} {maxBody : ℕ}

namespace Wire

/-- Parse frames for at most the given number of rounds: the bodies, what is left of the stream,
and the verdict on it. -/
def parseFrames (maxBody : ℕ) : ℕ → Bytes → Option (List Bytes × Bytes × Rc)
  | 0, _ => none
  | n + 1, data =>
    match frameParseMax data maxBody with
    | .error rc => some ([], data, rc)
    | .ok (consumed, body) =>
      (parseFrames maxBody n (data.drop consumed)).map fun r => (body :: r.1, r.2)

theorem frameEncodeMax_rawFrame {body : Bytes} {cap : ℕ} (h0 : 1 ≤ body.length)
    (hmax : body.length ≤ maxBody) (hcap : 4 + body.length ≤ cap) :
    frameEncodeMax body maxBody cap = .ok (rawFrame body) := by
  unfold frameEncodeMax
  rw [if_neg (by omega), if_neg (by omega), if_neg (by omega)]
  rfl

theorem frameParseMax_rawFrame {body : Bytes} (h : Admissible maxBody body) (t : Bytes) :
    frameParseMax (rawFrame body ++ t) maxBody = .ok (4 + body.length, body) :=
  frameParseMax_ok_iff.mpr ⟨h, rfl, t, rfl⟩

/-- A frame that is cut short makes the parser wait. -/
theorem frameParseMax_cut {body p : Bytes} (h : Admissible maxBody body) (hp : p <+: rawFrame body)
    (hne : p ≠ rawFrame body) : frameParseMax p maxBody = .error .full := by
  have hlt : p.length < (rawFrame body).length :=
    lt_of_le_of_ne hp.length_le fun he => hne (hp.eq_of_length he)
  rw [length_rawFrame] at hlt
  rw [frameParseMax_full_iff]
  rcases Nat.lt_or_ge p.length 4 with h4 | h4
  · exact Or.inl h4
  · obtain ⟨x, y, z, w, tail, rfl⟩ := exists_word h4
    obtain ⟨a, b, c, d, he, hn⟩ := rawFrame_append body [] h.2.2
    obtain ⟨t, ht⟩ := hp
    rw [List.append_nil] at he
    rw [he] at ht
    simp only [List.cons_append, List.cons.injEq] at ht
    obtain ⟨rfl, rfl, rfl, rfl, -⟩ := ht
    refine Or.inr ⟨x, y, z, w, tail, rfl, hn ▸ h.2.1, ?_⟩
    simp only [List.length_cons] at hlt
    omega

/-- Whole frames are taken off a stream, whatever follows them. -/
theorem parseFrames_append {bodies : List Bytes} (hb : ∀ b ∈ bodies, Admissible maxBody b)
    {rest : Bytes} {rc : Rc} (hr : frameParseMax rest maxBody = .error rc) {n : ℕ}
    (hn : bodies.length < n) :
    parseFrames maxBody n ((bodies.map rawFrame).flatten ++ rest) = some (bodies, rest, rc) := by
  induction bodies generalizing n with
  | nil =>
    obtain ⟨n, rfl⟩ := Nat.exists_eq_succ_of_ne_zero (Nat.ne_zero_of_lt hn)
    simp only [List.map_nil, List.flatten_nil, List.nil_append, parseFrames, hr]
  | cons b bodies ih =>
    obtain ⟨n, rfl⟩ := Nat.exists_eq_succ_of_ne_zero (Nat.ne_zero_of_lt hn)
    have hparse := frameParseMax_rawFrame (hb b List.mem_cons_self)
      ((bodies.map rawFrame).flatten ++ rest)
    have hdrop : (rawFrame b ++ ((bodies.map rawFrame).flatten ++ rest)).drop (4 + b.length) =
        (bodies.map rawFrame).flatten ++ rest := List.drop_left' (length_rawFrame b)
    rw [List.map_cons, List.flatten_cons, List.append_assoc, parseFrames, hparse]
    simp only [hdrop]
    rw [ih (fun x hx => hb x (List.mem_cons_of_mem _ hx)) (Nat.lt_of_succ_lt_succ hn)]
    rfl

/-- Frame streams parse uniquely: the frames of a list of bodies give back that list, a stream cut
short gives the complete frames and then asks for more, and a verdict stands when more arrives. -/
theorem frame_streams_parse (hmax : maxBody ≤ inBufSize - 4) :
    (∀ bodies : List Bytes, (∀ b ∈ bodies, 1 ≤ b.length ∧ b.length ≤ maxBody) →
      (∀ b ∈ bodies, ∀ cap, 4 + b.length ≤ cap →
        frameEncodeMax b maxBody cap = .ok (rawFrame b)) ∧
      (∀ n, bodies.length < n →
        parseFrames maxBody n (bodies.map rawFrame).flatten = some (bodies, [], .full)) ∧
      (∀ p, p <+: (bodies.map rawFrame).flatten → p ≠ (bodies.map rawFrame).flatten →
        ∃ done body later rest, bodies = done ++ body :: later ∧
          p = (done.map rawFrame).flatten ++ rest ∧ rest <+: rawFrame body ∧
          rest ≠ rawFrame body ∧
          ∀ n, done.length < n → parseFrames maxBody n p = some (done, rest, .full))) ∧
    (∀ p q consumed body, frameParseMax p maxBody = .ok (consumed, body) →
      frameParseMax (p ++ q) maxBody = .ok (consumed, body)) ∧
    (∀ p q, frameParseMax p maxBody = .error .protocol →
      frameParseMax (p ++ q) maxBody = .error .protocol) := by
  refine ⟨fun bodies hb => ?_, fun p q _ _ => frameParseMax_append_ok,
    fun p q => frameParseMax_append_protocol⟩
  have hadm : ∀ b ∈ bodies, Admissible maxBody b := by
    intro b h
    obtain ⟨h0, hl⟩ := hb b h
    exact ⟨List.length_pos_iff.mp h0, hl, by simp only [inBufSize] at hmax; omega⟩
  refine ⟨fun b h cap hcap => frameEncodeMax_rawFrame (hb b h).1 (hb b h).2 hcap,
    fun n hn => ?_, fun p hp hne => ?_⟩
  · have hnil : frameParseMax [] maxBody = .error .full := frameParseMax_short (by decide) maxBody
    have h := parseFrames_append hadm hnil hn
    rwa [List.append_nil] at h
  · obtain ⟨done, w, later, rest, hl, rfl, hw, hwne⟩ := Framing.exists_cut hp hne
    obtain ⟨done, m, rfl, rfl, hm⟩ := List.map_eq_append_iff.mp hl
    obtain ⟨body, later, rfl, rfl, -⟩ := List.map_eq_cons_iff.mp hm
    refine ⟨done, body, later, rest, rfl, rfl, hw, hwne, fun n hn => ?_⟩
    have hbody : Admissible maxBody body := hadm body (by simp)
    exact parseFrames_append (fun b h => hadm b (List.mem_append_left _ h))
      (frameParseMax_cut hbody hw hwne) hn

theorem frame_streams_parse_plain :
    parseFrames 512 3 ((List.map rawFrame [[1, 2], [3]]).flatten) =
      some ([[1, 2], [3]], [], .full) := by
  have h := frame_streams_parse (by decide : 512 ≤ inBufSize - 4)
  exact (h.1 [[1, 2], [3]] (by decide)).2.1 3 (by decide)

end Wire

/-- The limit is the configured record size with its overhead, cut to the input buffer. So it admits
every record that both the configuration and the buffer allow, and a frame that it admits fits the
buffer and has a length that `size_t` can hold. -/
structure LimitExact (E : Env Rng SS) (c : Ctx Rng SS) : Prop where
  eq_min : ssFrameMaxBody E c = min (c.maxRecordSize + 17) (inBufSize - 4)
  admits : ∀ n ≤ c.maxRecordSize, 4 + (n + 17) ≤ inBufSize → n + 17 ≤ ssFrameMaxBody E c
  fits : 4 + ssFrameMaxBody E c ≤ inBufSize
  word : 4 + ssFrameMaxBody E c ≤ E.sizeMax

/-- Neither of the two sums of `ss_frame_max_body` leaves `size_t`. -/
def LimitInRange (E : Env Rng SS) (c : Ctx Rng SS) : Prop :=
  c.maxRecordSize + ssAbytes ≤ E.sizeMax ∧
    min (c.maxRecordSize + ssAbytes) 0xFFFFFFFF + 4 ≤ E.sizeMax

instance : Decidable (LimitInRange E c) := inferInstanceAs (Decidable (_ ∧ _))

theorem ssFrameMaxBody_of_inRange (h : LimitInRange E c) :
    ssFrameMaxBody E c = min (c.maxRecordSize + ssAbytes) (inBufSize - 4) := by
  obtain ⟨h1, h2⟩ := h
  unfold ssFrameMaxBody
  rw [Nat.mod_eq_of_lt (by omega)]
  simp only [inBufSize]
  split_ifs with hclamp hbuf hbuf <;> rw [Nat.mod_eq_of_lt (by omega)] at hbuf <;> omega

theorem ssFrameMaxBody_eq {m : ℕ} (hm : (c.maxRecordSize + ssAbytes) % (E.sizeMax + 1) = m)
    (hclamp : m ≤ 0xFFFFFFFF) (hbuf : (m + 4) % (E.sizeMax + 1) ≤ inBufSize) :
    ssFrameMaxBody E c = m := by
  unfold ssFrameMaxBody
  simp only [hm]
  rw [if_neg (Nat.not_lt.mpr hclamp), if_neg (Nat.not_lt.mpr hbuf)]

theorem mod_of_wrap {a n : ℕ} (h : n ≤ a) (h2 : a < n + n) : a % n = a - n := by
  rw [Nat.mod_eq_sub_mod h, Nat.mod_eq_of_lt (by omega)]

/-- A sum that wraps makes the limit too small for any record, or larger than the buffer. -/
theorem ssFrameMaxBody_of_wrap (hw : E.sizeMax = 2 ^ 32 - 1 ∨ E.sizeMax = 2 ^ 64 - 1)
    (hc : c.maxRecordSize ≤ E.sizeMax) (h : ¬ LimitInRange E c) :
    ssFrameMaxBody E c < ssAbytes ∨ inBufSize ≤ ssFrameMaxBody E c := by
  unfold LimitInRange at h
  have h17 : ssAbytes = 17 := rfl
  have hbuf : inBufSize = 131072 := rfl
  by_cases hsum : c.maxRecordSize + ssAbytes ≤ E.sizeMax
  · -- only the second sum wraps, so `size_t` has 32 bits
    obtain hw | hw := hw
    · have hm := Nat.mod_eq_of_lt (Nat.lt_succ_of_le hsum)
      right
      rw [ssFrameMaxBody_eq hm (by omega) (by rw [mod_of_wrap (by omega) (by omega)]; omega)]
      omega
    · omega
  · have hm : (c.maxRecordSize + ssAbytes) % (E.sizeMax + 1) =
        c.maxRecordSize + ssAbytes - (E.sizeMax + 1) := mod_of_wrap (by omega) (by omega)
    left
    rw [ssFrameMaxBody_eq hm (by omega) ((Nat.mod_le _ _).trans (by omega))]
    omega

/-- The record limit is exact exactly while its sums stay in `size_t`. -/
theorem record_limit_iff (hw : E.sizeMax = 2 ^ 32 - 1 ∨ E.sizeMax = 2 ^ 64 - 1)
    (hc : c.maxRecordSize ≤ E.sizeMax) : LimitExact E c ↔ LimitInRange E c := by
  constructor
  · intro h
    by_contra hr
    have heq := h.eq_min
    obtain hl | hl := ssFrameMaxBody_of_wrap hw hc hr
    · simp only [ssAbytes, inBufSize] at hl heq
      omega
    · have := h.fits
      omega
  · intro h
    have heq := ssFrameMaxBody_of_inRange h
    simp only [ssAbytes, inBufSize] at heq
    refine ⟨heq, fun n hn hb => ?_, ?_, ?_⟩
    · simp only [inBufSize] at hb
      omega
    · simp only [inBufSize]
      omega
    · omega

def plainUnlimited (n : ℕ) : Config := { plainClient with maxRecordSize := n }

def plainEnv32 : Env Unit Unit := { plainEnv with sizeMax := 2 ^ 32 - 1 }

def plainLimited (E : Env Unit Unit) (n : ℕ) : Option (Ctx Unit Unit) :=
  create E .client (some (plainUnlimited n)) () true

theorem record_limit_iff_plain :
    ssFrameMaxBody plainEnv plainClientStart = 131068 ∧ LimitExact plainEnv plainClientStart := by
  constructor
  · decide +kernel
  · exact (record_limit_iff (Or.inr rfl) (by decide +kernel)).mpr (by decide +kernel)

def Ctx.sizes (E : Env Rng SS) (c : Ctx Rng SS) : ℕ × ℕ := (c.maxRecordSize, ssFrameMaxBody E c)

theorem not_limitExact {n m : ℕ} (h : c.sizes E = (n, m)) (hne : m ≠ min (n + 17) (inBufSize - 4)) :
    ¬ LimitExact E c := by
  intro hl
  obtain ⟨hn, hm⟩ := Prod.mk.inj h
  exact hne (by rw [← hn, ← hm, hl.eq_min])

/-- The largest record size leaves no room for a record on a 64-bit host, and on a 32-bit host one
close to it admits frames that are larger than the input buffer. -/
theorem record_limit_wraps :
    (∃ c, plainLimited plainEnv (2 ^ 64 - 1) = some c ∧ c.sizes plainEnv = (2 ^ 64 - 1, 16) ∧
      ¬ LimitExact plainEnv c) ∧
    ∃ c, plainLimited plainEnv32 (2 ^ 32 - 18) = some c ∧
      c.sizes plainEnv32 = (2 ^ 32 - 18, 2 ^ 32 - 1) ∧ ¬ LimitExact plainEnv32 c := by
  constructor
  · have hs : (plainLimited plainEnv (2 ^ 64 - 1)).map (Ctx.sizes plainEnv) =
        some (2 ^ 64 - 1, 16) := by decide +kernel
    obtain ⟨c, hc, hv⟩ := Option.map_eq_some_iff.mp hs
    exact ⟨c, hc, hv, not_limitExact hv (by decide)⟩
  · have hs : (plainLimited plainEnv32 (2 ^ 32 - 18)).map (Ctx.sizes plainEnv32) =
        some (2 ^ 32 - 18, 2 ^ 32 - 1) := by decide +kernel
    obtain ⟨c, hc, hv⟩ := Option.map_eq_some_iff.mp hs
    exact ⟨c, hc, hv, not_limitExact hv (by decide)⟩

end Sodchan
