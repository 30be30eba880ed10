import Mathlib.Data.BitVec

/-!
# Buffers of bytes

A buffer is the function from offsets to bytes, and its words are little-endian.  The lemmas take
a word apart into the smaller ones that it is made of.
-/

namespace KessOS

/-- The bytes of a buffer, by offset. -/
abbrev Bytes := ℕ → BitVec 8

def Bytes.u16 (b : Bytes) (i : ℕ) : BitVec 16 := b (i + 1) ++ b i
def Bytes.u32 (b : Bytes) (i : ℕ) : BitVec 32 := b.u16 (i + 2) ++ b.u16 i
def Bytes.u64 (b : Bytes) (i : ℕ) : BitVec 64 := b.u32 (i + 4) ++ b.u32 i

/-- The buffer from `i` on. -/
def Bytes.from (b : Bytes) (i : ℕ) : Bytes := fun k => b (i + k)

/-- The bytes of a string literal, with the zero behind it. -/
def literal (s : String) : Bytes :=
  fun i => (s.toList.map fun c => BitVec.ofNat 8 c.toNat).getD i 0#8

/-- Two words are the same if their halves are. -/
theorem append_eq_append_iff {v w : ℕ} {x x' : BitVec v} {y y' : BitVec w} :
    x ++ y = x' ++ y' ↔ x = x' ∧ y = y' := by
  constructor
  · intro h
    have hlow := congrArg (BitVec.extractLsb' 0 w) h
    have hhigh := congrArg (BitVec.extractLsb' w v) h
    rw [BitVec.extractLsb'_append_eq_right, BitVec.extractLsb'_append_eq_right] at hlow
    rw [BitVec.extractLsb'_append_eq_left, BitVec.extractLsb'_append_eq_left] at hhigh
    exact ⟨hhigh, hlow⟩
  · rintro ⟨rfl, rfl⟩
    rfl

namespace Bytes

variable (b : Bytes) (i : ℕ)

@[simp] theorem u16_low : (b.u16 i).extractLsb' 0 8 = b i := BitVec.extractLsb'_append_eq_right

@[simp] theorem u16_high : (b.u16 i).extractLsb' 8 8 = b (i + 1) :=
  BitVec.extractLsb'_append_eq_left

@[simp] theorem u32_low : (b.u32 i).extractLsb' 0 16 = b.u16 i := BitVec.extractLsb'_append_eq_right

@[simp] theorem u32_high : (b.u32 i).extractLsb' 16 16 = b.u16 (i + 2) :=
  BitVec.extractLsb'_append_eq_left

@[simp] theorem u32_byte_zero : (b.u32 i).extractLsb' 0 8 = b i := by
  rw [← u16_low b i, ← u32_low b i, BitVec.extractLsb'_extractLsb'_of_le (by decide)]

@[simp] theorem u32_byte_one : (b.u32 i).extractLsb' 8 8 = b (i + 1) := by
  rw [← u16_high b i, ← u32_low b i, BitVec.extractLsb'_extractLsb'_of_le (by decide)]

end Bytes

end KessOS
