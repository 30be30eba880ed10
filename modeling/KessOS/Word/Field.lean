import Mathlib.Data.BitVec

/-!
# Bit-fields of a word

A bit-field is a range of bits of a word.  It is read by extraction and written by masking the
old bits out; what a write does is said bit by bit (`getLsbD_set`), and from it follow the laws by
which fields are reasoned about: a field is read back (`get_set`), and a field off the one written
is unchanged (`get_set_of_disjoint`).
-/

namespace Word

variable {w n k : ℕ}

/-- A field of `n` bits in a word of `w` bits. -/
structure Field (w n : ℕ) where
  lo : ℕ
  fits : lo + n ≤ w

namespace Field

/-- The value of the field. -/
def get (f : Field w n) (x : BitVec w) : BitVec n := x.extractLsb' f.lo n

/-- The bits of the field. -/
def mask (f : Field w n) : BitVec w := (BitVec.allOnes n).setWidth w <<< f.lo

/-- The word with the field replaced. -/
def set (f : Field w n) (x : BitVec w) (v : BitVec n) : BitVec w :=
  (x &&& ~~~f.mask) ||| v.setWidth w <<< f.lo

/-- The bit is one of the field's. -/
def Holds (f : Field w n) (i : ℕ) : Prop := f.lo ≤ i ∧ i < f.lo + n

instance (f : Field w n) (i : ℕ) : Decidable (f.Holds i) := inferInstanceAs (Decidable (_ ∧ _))

/-- No bit is in both fields. -/
def Disjoint (f : Field w n) (g : Field w k) : Prop := f.lo + n ≤ g.lo ∨ g.lo + k ≤ f.lo

instance (f : Field w n) (g : Field w k) : Decidable (f.Disjoint g) :=
  inferInstanceAs (Decidable (_ ∨ _))

theorem getLsbD_get (f : Field w n) (x : BitVec w) {i : ℕ} (hi : i < n) :
    (f.get x).getLsbD i = x.getLsbD (f.lo + i) := by
  rw [get, BitVec.getLsbD_extractLsb', decide_eq_true hi, Bool.true_and]

theorem getLsbD_mask (f : Field w n) (i : ℕ) : f.mask.getLsbD i = decide (f.Holds i) := by
  have hfits := f.fits
  have hiff : f.Holds i ↔ i < w ∧ ¬ i < f.lo ∧ i - f.lo < w ∧ i - f.lo < n := by
    unfold Holds
    omega
  simp only [mask, BitVec.getLsbD_shiftLeft, BitVec.getLsbD_setWidth, BitVec.getLsbD_allOnes,
    hiff, Bool.decide_and, decide_not, Bool.and_assoc]

/-- A write replaces the bits of the field and no others. -/
theorem getLsbD_set (f : Field w n) (x : BitVec w) (v : BitVec n) (i : ℕ) :
    (f.set x v).getLsbD i = if f.Holds i then v.getLsbD (i - f.lo) else x.getLsbD i := by
  have hfits := f.fits
  rw [set, BitVec.getLsbD_or, BitVec.getLsbD_and, BitVec.getLsbD_not, getLsbD_mask,
    BitVec.getLsbD_shiftLeft, BitVec.getLsbD_setWidth]
  by_cases hf : f.Holds i
  · have hlo := hf.1
    have hhi := hf.2
    simp [hf, show i < w by omega, show ¬ i < f.lo by omega, show i - f.lo < w by omega]
  · rw [if_neg hf]
    by_cases hlo : i < f.lo
    · simp [hf, hlo, show i < w by omega]
    · have hge : n ≤ i - f.lo := by
        unfold Holds at hf
        omega
      rw [BitVec.getLsbD_of_ge v _ hge]
      by_cases hi : i < w
      · simp [hf, hi]
      · rw [BitVec.getLsbD_of_ge x _ (not_lt.mp hi)]
        simp

variable {f : Field w n} {g : Field w k}

/-- What is written is read back. -/
@[simp] theorem get_set (f : Field w n) (x : BitVec w) (v : BitVec n) : f.get (f.set x v) = v := by
  refine BitVec.eq_of_getLsbD_eq fun i hi => ?_
  have hholds : f.Holds (f.lo + i) := ⟨Nat.le_add_right _ _, Nat.add_lt_add_left hi _⟩
  rw [getLsbD_get _ _ hi, getLsbD_set, if_pos hholds, Nat.add_sub_cancel_left]

/-- A field off the one written is unchanged. -/
theorem get_set_of_disjoint (h : f.Disjoint g) (x : BitVec w) (v : BitVec n) :
    g.get (f.set x v) = g.get x := by
  refine BitVec.eq_of_getLsbD_eq fun i hi => ?_
  have hoff : ¬ f.Holds (g.lo + i) := by
    unfold Holds
    unfold Disjoint at h
    omega
  rw [getLsbD_get _ _ hi, getLsbD_set, if_neg hoff, getLsbD_get _ _ hi]

/-- Fields that meet end to end are read as one. -/
theorem get_append {f : Field w n} {g : Field w k} {h : Field w (k + n)} (hlo : h.lo = f.lo)
    (hmeet : g.lo = f.lo + n) (x : BitVec w) : h.get x = g.get x ++ f.get x := by
  refine BitVec.eq_of_getLsbD_eq fun i hi => ?_
  rw [getLsbD_get _ _ hi, BitVec.getLsbD_append]
  by_cases hlow : i < n
  · rw [if_pos hlow, getLsbD_get _ _ hlow, hlo]
  · rw [if_neg hlow, getLsbD_get _ _ (by omega), hlo, hmeet]
    congr 1
    omega

end Field

end Word
