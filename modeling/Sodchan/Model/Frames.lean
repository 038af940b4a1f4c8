import Sodchan.Model.Wire

/-! # Frames on a byte stream

A frame is a length word followed by its body. The parser accepts exactly the
streams that begin with a complete frame of an admissible length, and its
verdict does not change when more bytes arrive.
-/

namespace Sodchan

open ByteString

def rawFrame (body : Bytes) : Bytes := Wire.putU32 (UInt32.ofNat body.length) ++ body

@[simp] theorem length_rawFrame (body : Bytes) : (rawFrame body).length = 4 + body.length := by
  simp [rawFrame, Wire.putU32]

namespace Wire

/-- A body the parser admits under a limit. -/
def Admissible (maxBody : ℕ) (body : Bytes) : Prop :=
  body ≠ [] ∧ body.length ≤ maxBody ∧ body.length < 2 ^ 32

theorem getU32_zero (a b c d : UInt8) (tail : Bytes) :
    getU32 (a :: b :: c :: d :: tail) 0 = .ok (ofBe32 a b c d) := rfl

/-- What the parser does once the length word has arrived. -/
theorem frameParseMax_cons (a b c d : UInt8) (tail : Bytes) (maxBody : ℕ) :
    frameParseMax (a :: b :: c :: d :: tail) maxBody =
      if (ofBe32 a b c d).toNat = 0 ∨ maxBody < (ofBe32 a b c d).toNat then .error .protocol
      else if tail.length < (ofBe32 a b c d).toNat then .error .full
      else .ok (4 + (ofBe32 a b c d).toNat, tail.take (ofBe32 a b c d).toNat) := by
  have h4 : ¬ (a :: b :: c :: d :: tail).length < 4 := by simp
  simp only [frameParseMax, h4, if_false, getU32_zero, bind, Except.bind, pure, Except.pure, throw,
    throwThe, MonadExceptOf.throw]
  split
  · rfl
  · simp only [List.length_cons]
    by_cases ht : tail.length < (ofBe32 a b c d).toNat
    · rw [if_pos (by omega), if_pos ht]
    · rw [if_neg (by omega), if_neg ht, rdBytes, if_pos (by simp only [List.length_cons]; omega)]
      rfl

theorem frameParseMax_short {data : Bytes} (h : data.length < 4) (maxBody : ℕ) :
    frameParseMax data maxBody = .error .full := by
  simp [frameParseMax, h, throw, throwThe, MonadExceptOf.throw, bind, Except.bind]

theorem exists_word {data : Bytes} (h : 4 ≤ data.length) :
    ∃ a b c d tail, data = a :: b :: c :: d :: tail := by
  match data, h with
  | a :: b :: c :: d :: tail, _ => exact ⟨a, b, c, d, tail, rfl⟩

theorem rawFrame_append (body rest : Bytes) (h : body.length < 2 ^ 32) :
    ∃ a b c d, rawFrame body ++ rest = a :: b :: c :: d :: (body ++ rest) ∧
      (ofBe32 a b c d).toNat = body.length := by
  refine ⟨_, _, _, _, rfl, ?_⟩
  rw [ofBe32_be32]
  simpa using h

theorem rawFrame_take (a b c d : UInt8) {tail : Bytes}
    (h : (ofBe32 a b c d).toNat ≤ tail.length) :
    a :: b :: c :: d :: tail = rawFrame (tail.take (ofBe32 a b c d).toNat) ++
      tail.drop (ofBe32 a b c d).toNat := by
  have hl : (tail.take (ofBe32 a b c d).toNat).length = (ofBe32 a b c d).toNat := by
    rw [List.length_take, min_eq_left h]
  rw [rawFrame, hl, UInt32.ofNat_toNat, putU32, be32_ofBe32, List.append_assoc,
    List.take_append_drop]
  rfl

/-- The parser accepts exactly what starts with an admissible frame. -/
theorem frameParseMax_ok_iff {data body : Bytes} {maxBody k : ℕ} :
    frameParseMax data maxBody = .ok (k, body) ↔
      Admissible maxBody body ∧ k = 4 + body.length ∧ ∃ rest, data = rawFrame body ++ rest := by
  constructor
  · intro h
    rcases Nat.lt_or_ge data.length 4 with h4 | h4
    · rw [frameParseMax_short h4] at h
      cases h
    · obtain ⟨a, b, c, d, tail, rfl⟩ := exists_word h4
      rw [frameParseMax_cons] at h
      split at h
      · cases h
      · rename_i hz
        split at h
        · cases h
        · rename_i ht
          obtain ⟨rfl, rfl⟩ := Prod.mk.inj (Except.ok.inj h)
          have hl : (tail.take (ofBe32 a b c d).toNat).length = (ofBe32 a b c d).toNat := by
            rw [List.length_take]
            omega
          have hlt := (ofBe32 a b c d).toNat_lt
          refine ⟨⟨fun hn => ?_, by omega, by omega⟩, by omega, _, rawFrame_take a b c d (by omega)⟩
          rw [hn, List.length_nil] at hl
          omega
  · rintro ⟨⟨hne, hmax, hlt⟩, rfl, rest, rfl⟩
    obtain ⟨a, b, c, d, he, hn⟩ := rawFrame_append body rest hlt
    have h0 : body.length ≠ 0 := fun h => hne (List.length_eq_zero_iff.mp h)
    rw [he, frameParseMax_cons, hn, if_neg (by omega), if_neg (by simp), List.take_left]

/-- The parser does not wait for more once a whole frame has arrived, whatever its limit. -/
theorem frameParseMax_rawFrame_ne_full {body : Bytes} (h : body.length < 2 ^ 32) (t : Bytes)
    (maxBody : ℕ) : frameParseMax (rawFrame body ++ t) maxBody ≠ .error .full := by
  obtain ⟨a, b, c, d, he, hn⟩ := rawFrame_append body t h
  rw [he, frameParseMax_cons, hn]
  split
  · rintro ⟨⟩
  · rw [if_neg (by simp)]
    rintro ⟨⟩

/-- The parser waits exactly while the length word or an admissible body is incomplete. -/
theorem frameParseMax_full_iff {data : Bytes} {maxBody : ℕ} :
    frameParseMax data maxBody = .error .full ↔
      data.length < 4 ∨ ∃ a b c d tail, data = a :: b :: c :: d :: tail ∧
        (ofBe32 a b c d).toNat ≤ maxBody ∧ tail.length < (ofBe32 a b c d).toNat := by
  rcases Nat.lt_or_ge data.length 4 with h4 | h4
  · simp [frameParseMax_short h4, h4]
  · obtain ⟨a, b, c, d, tail, rfl⟩ := exists_word h4
    rw [frameParseMax_cons]
    constructor
    · intro h
      split at h
      · cases h
      · split at h
        · exact Or.inr ⟨a, b, c, d, tail, rfl, by omega, by assumption⟩
        · cases h
    · rintro (h | ⟨a', b', c', d', tail', he, h1, h2⟩)
      · omega
      · obtain ⟨rfl, rfl, rfl, rfl, rfl⟩ : a = a' ∧ b = b' ∧ c = c' ∧ d = d' ∧ tail = tail' := by
          simpa using he
        rw [if_neg (by omega), if_pos h2]

theorem frameParseMax_error {data : Bytes} {maxBody : ℕ} {rc : Rc}
    (h : frameParseMax data maxBody = .error rc) : rc = .full ∨ rc = .protocol := by
  rcases Nat.lt_or_ge data.length 4 with h4 | h4
  · rw [frameParseMax_short h4] at h
    exact Or.inl (Except.error.inj h).symm
  · obtain ⟨a, b, c, d, tail, rfl⟩ := exists_word h4
    rw [frameParseMax_cons] at h
    split at h
    · exact Or.inr (Except.error.inj h).symm
    · split at h
      · exact Or.inl (Except.error.inj h).symm
      · cases h

/-- A complete frame stays what it is when more bytes arrive. -/
theorem frameParseMax_append_ok {data body more : Bytes} {maxBody k : ℕ}
    (h : frameParseMax data maxBody = .ok (k, body)) :
    frameParseMax (data ++ more) maxBody = .ok (k, body) := by
  rw [frameParseMax_ok_iff] at h ⊢
  obtain ⟨ha, hk, rest, rfl⟩ := h
  exact ⟨ha, hk, rest ++ more, List.append_assoc _ _ _⟩

/-- So does a malformed length word. -/
theorem frameParseMax_append_protocol {data more : Bytes} {maxBody : ℕ}
    (h : frameParseMax data maxBody = .error .protocol) :
    frameParseMax (data ++ more) maxBody = .error .protocol := by
  rcases Nat.lt_or_ge data.length 4 with h4 | h4
  · rw [frameParseMax_short h4] at h
    cases h
  · obtain ⟨a, b, c, d, tail, rfl⟩ := exists_word h4
    simp only [List.cons_append]
    rw [frameParseMax_cons] at h ⊢
    split at h
    · rename_i hb
      rw [if_pos hb]
    · split at h <;> cases h

theorem length_lt_of_full {data : Bytes} {maxBody : ℕ}
    (h : frameParseMax data maxBody = .error .full) : data.length < 4 + maxBody ∨
      data.length < 4 := by
  obtain h | ⟨a, b, c, d, tail, rfl, h1, h2⟩ := frameParseMax_full_iff.mp h
  · exact Or.inr h
  · simp only [List.length_cons]
    omega

end Wire

end Sodchan
