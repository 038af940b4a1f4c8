import Mathlib.Algebra.Group.Nat.Defs
import Mathlib.Data.List.Basic
import Mathlib.Data.List.TakeWhile
import Mathlib.Data.Nat.Notation

/-! # Byte strings

Byte strings are lists of bytes, fixed-length arrays carry their length, and a
C string is read up to its first zero byte. Integers are laid out most
significant byte first.
-/

abbrev Bytes := List UInt8

/-- A byte array of fixed length. -/
abbrev BytesN (n : ℕ) := {b : Bytes // b.length = n}

namespace BytesN

def zero (n : ℕ) : BytesN n := ⟨List.replicate n 0, List.length_replicate⟩

@[simp] theorem length_val {n : ℕ} (b : BytesN n) : b.val.length = n := b.2

end BytesN

/-- A C string, without its terminating zero byte. -/
abbrev CString := {b : Bytes // 0 ∉ b}

namespace ByteString

/-- The bytes of an ASCII literal. -/
def ascii (s : String) : Bytes := s.toList.map fun c => UInt8.ofNat c.toNat

/-- The C string in a buffer: everything before the first zero byte. -/
def cstr (b : Bytes) : Bytes := b.takeWhile (· ≠ 0)

theorem zero_not_mem_cstr (b : Bytes) : 0 ∉ cstr b := by
  intro h
  simpa using List.mem_takeWhile_imp h

theorem cstr_of_zero_not_mem {b : Bytes} (h : 0 ∉ b) : cstr b = b := by
  unfold cstr
  rw [List.takeWhile_eq_self_iff]
  intro x hx
  simpa using fun he : x = 0 => h (he ▸ hx)

@[simp] theorem cstr_cstr (b : Bytes) : cstr (cstr b) = cstr b :=
  cstr_of_zero_not_mem (zero_not_mem_cstr b)

/-- The two bytes of a 16-bit word, most significant first. -/
def be16 (v : UInt16) : Bytes := [(v >>> 8).toUInt8, v.toUInt8]

/-- The four bytes of a 32-bit word, most significant first. -/
def be32 (v : UInt32) : Bytes :=
  [(v >>> 24).toUInt8, (v >>> 16).toUInt8, (v >>> 8).toUInt8, v.toUInt8]

/-- Reassemble a 16-bit word. -/
def ofBe16 (a b : UInt8) : UInt16 := a.toUInt16 <<< 8 ||| b.toUInt16

/-- Reassemble a 32-bit word. -/
def ofBe32 (a b c d : UInt8) : UInt32 :=
  a.toUInt32 <<< 24 ||| b.toUInt32 <<< 16 ||| c.toUInt32 <<< 8 ||| d.toUInt32

@[simp] theorem length_be16 (v : UInt16) : (be16 v).length = 2 := rfl
@[simp] theorem length_be32 (v : UInt32) : (be32 v).length = 4 := rfl

theorem ofBe16_be16 (v : UInt16) : ofBe16 (v >>> 8).toUInt8 v.toUInt8 = v := by
  apply UInt16.toBitVec_inj.mp
  apply BitVec.eq_of_getLsbD_eq
  intro i hi
  simp only [ofBe16, UInt16.toBitVec_or, UInt16.toBitVec_shiftLeft, UInt8.toBitVec_toUInt16,
    UInt16.toBitVec_toUInt8, UInt16.toBitVec_shiftRight]
  simp
  grind

theorem ofBe32_be32 (v : UInt32) :
    ofBe32 (v >>> 24).toUInt8 (v >>> 16).toUInt8 (v >>> 8).toUInt8 v.toUInt8 = v := by
  apply UInt32.toBitVec_inj.mp
  apply BitVec.eq_of_getLsbD_eq
  intro i hi
  simp only [ofBe32, UInt32.toBitVec_or, UInt32.toBitVec_shiftLeft, UInt8.toBitVec_toUInt32,
    UInt32.toBitVec_toUInt8, UInt32.toBitVec_shiftRight]
  simp
  grind

theorem be32_ofBe32 (a b c d : UInt8) : be32 (ofBe32 a b c d) = [a, b, c, d] := by
  simp only [be32, ofBe32, List.cons.injEq, and_true]
  refine ⟨?_, ?_, ?_, ?_⟩ <;> apply UInt8.toBitVec_inj.mp <;> apply BitVec.eq_of_getLsbD_eq <;>
    intro i hi <;> simp <;> grind

theorem be16_ofBe16 (a b : UInt8) : be16 (ofBe16 a b) = [a, b] := by
  simp only [be16, ofBe16, List.cons.injEq, and_true]
  refine ⟨?_, ?_⟩ <;> apply UInt8.toBitVec_inj.mp <;> apply BitVec.eq_of_getLsbD_eq <;>
    (intro i hi; simp <;> grind)

theorem be16_injective {v w : UInt16} (h : be16 v = be16 w) : v = w := by
  rw [← ofBe16_be16 v, ← ofBe16_be16 w]
  simp only [be16, List.cons.injEq, and_true] at h
  obtain ⟨h1, h2⟩ := h
  rw [h1, h2]

end ByteString
