import Mathlib.Data.List.Pairwise
import Mathlib.Data.Set.Prod
import Mathlib.Order.CompletePartialOrder
import Mathlib.Order.Interval.Set.Disjoint

/-!
# Lines of text on a grid

The characters of a text that are not line breaks get a cell each: the number of their line, and
of the column in it.  When every cell is drawn in a box of the same size, with the columns side by
side, then no two boxes meet if, and only if, any two lines that have a character are drawn far
enough apart (`pairwise_disjoint_iff`).
-/

namespace Text

variable {α : Type*} {isBreak : α → Bool}

/-- The cells of a text that starts in line `k` at column `j`. -/
def cells (isBreak : α → Bool) (k j : ℕ) : List α → List (ℕ × ℕ)
  | [] => []
  | a :: as =>
    if isBreak a then cells isBreak (k + 1) 0 as else (k, j) :: cells isBreak k (j + 1) as

variable {k j : ℕ} {as : List α}

@[simp] theorem cells_nil : cells isBreak k j [] = [] := rfl

theorem cells_cons_break {a : α} (h : isBreak a) :
    cells isBreak k j (a :: as) = cells isBreak (k + 1) 0 as := if_pos h

theorem cells_cons_of_not {a : α} (h : ¬ isBreak a) :
    cells isBreak k j (a :: as) = (k, j) :: cells isBreak k (j + 1) as := if_neg h

/-- No cell comes before the start. -/
theorem le_of_mem_cells {p : ℕ × ℕ} (h : p ∈ cells isBreak k j as) :
    k < p.1 ∨ (p.1 = k ∧ j ≤ p.2) := by
  induction as generalizing k j with
  | nil => exact absurd h List.not_mem_nil
  | cons a as ih =>
    by_cases hbreak : isBreak a
    · rw [cells_cons_break hbreak] at h
      rcases ih h with hlater | ⟨hline, -⟩
      · exact Or.inl (Nat.lt_of_succ_lt hlater)
      · exact Or.inl (hline ▸ Nat.lt_succ_self k)
    · rw [cells_cons_of_not hbreak] at h
      rcases List.mem_cons.mp h with rfl | h
      · exact Or.inr ⟨rfl, le_rfl⟩
      · rcases ih h with hlater | ⟨hline, hcol⟩
        · exact Or.inl hlater
        · exact Or.inr ⟨hline, Nat.le_of_succ_le hcol⟩

/-- The cells come line by line, and from left to right in a line. -/
theorem cells_ordered : (cells isBreak k j as).Pairwise
    fun p q => p.1 < q.1 ∨ (p.1 = q.1 ∧ p.2 < q.2) := by
  induction as generalizing k j with
  | nil => exact List.Pairwise.nil
  | cons a as ih =>
    by_cases hbreak : isBreak a
    · rw [cells_cons_break hbreak]
      exact ih
    · rw [cells_cons_of_not hbreak]
      refine List.Pairwise.cons (fun q hq => ?_) ih
      rcases le_of_mem_cells hq with hlater | ⟨hline, hcol⟩
      · exact Or.inl hlater
      · exact Or.inr ⟨hline.symm, hcol⟩

/-- A line that has a character has one at its start, unless the text begins in its middle. -/
theorem start_mem_cells {p : ℕ × ℕ} (h : p ∈ cells isBreak k j as) :
    (p.1, 0) ∈ cells isBreak k j as ∨ (p.1 = k ∧ 0 < j) := by
  induction as generalizing k j with
  | nil => exact absurd h List.not_mem_nil
  | cons a as ih =>
    by_cases hbreak : isBreak a
    · rw [cells_cons_break hbreak] at h ⊢
      exact Or.inl ((ih h).resolve_right fun hmiddle => Nat.lt_irrefl 0 hmiddle.2)
    · rw [cells_cons_of_not hbreak] at h ⊢
      have hline : p.1 = k →
          (p.1, 0) ∈ (k, j) :: cells isBreak k (j + 1) as ∨ (p.1 = k ∧ 0 < j) := by
        intro hk
        rcases Nat.eq_zero_or_pos j with rfl | hj
        · exact Or.inl (hk ▸ List.mem_cons_self)
        · exact Or.inr ⟨hk, hj⟩
      rcases List.mem_cons.mp h with rfl | h
      · exact hline rfl
      · rcases ih h with hstart | ⟨hk, -⟩
        · exact Or.inl (List.mem_cons_of_mem _ hstart)
        · exact hline hk

/-! ### Boxes -/

/-- The points of a box of width `w` and height `h`. -/
def box (w h : ℕ) (corner : ℕ × ℕ) : Set (ℕ × ℕ) :=
  Set.Ico corner.1 (corner.1 + w) ×ˢ Set.Ico corner.2 (corner.2 + h)

/-- Rows that are `h` or more apart. -/
def Apart (h y y' : ℕ) : Prop := y + h ≤ y' ∨ y' + h ≤ y

instance (h y y' : ℕ) : Decidable (Apart h y y') := inferInstanceAs (Decidable (_ ∨ _))

theorem disjoint_Ico_iff {x x' w : ℕ} (_ : 0 < w) :
    Disjoint (Set.Ico x (x + w)) (Set.Ico x' (x' + w)) ↔ Apart w x x' := by
  rw [Set.Ico_disjoint_Ico, Apart]
  omega

theorem disjoint_box_iff {w h : ℕ} (hw : 0 < w) (hh : 0 < h) {p q : ℕ × ℕ} :
    Disjoint (box w h p) (box w h q) ↔ Apart w p.1 q.1 ∨ Apart h p.2 q.2 := by
  rw [box, box, Set.disjoint_prod, disjoint_Ico_iff hw, disjoint_Ico_iff hh]

/-- The corner of the box of a cell: the columns are `w` wide, and `top` is the row of a line. -/
def corner (left w : ℕ) (top : ℕ → ℕ) (p : ℕ × ℕ) : ℕ × ℕ := (left + w * p.2, top p.1)

/-- **When no two characters meet.** -/
theorem pairwise_disjoint_iff {w h : ℕ} (hw : 0 < w) (hh : 0 < h) {left : ℕ} {top : ℕ → ℕ} :
    ((cells isBreak k 0 as).map fun p => box w h (corner left w top p)).Pairwise Disjoint ↔
      (cells isBreak k 0 as).Pairwise fun p q => p.1 = q.1 ∨ Apart h (top p.1) (top q.1) := by
  rw [List.pairwise_map]
  constructor
  · intro hdisjoint
    have hsymm : Std.Symm fun p q =>
        Disjoint (box w h (corner left w top p)) (box w h (corner left w top q)) :=
      ⟨fun _ _ h => h.symm⟩
    have hmem : ∀ p ∈ cells isBreak k 0 as, (p.1, 0) ∈ cells isBreak k 0 as :=
      fun p hp => (start_mem_cells hp).resolve_right fun hmiddle => Nat.lt_irrefl 0 hmiddle.2
    refine List.Pairwise.imp_of_mem (fun {p q} hp hq _ => ?_) hdisjoint
    by_cases hline : p.1 = q.1
    · exact Or.inl hline
    -- The first characters of the two lines are in the same column.
    · have hfirst := hdisjoint.forall (hmem p hp) (hmem q hq)
        fun heq => hline (Prod.ext_iff.mp heq).1
      rw [disjoint_box_iff hw hh] at hfirst
      refine Or.inr (hfirst.resolve_left fun hcols => ?_)
      simp only [corner, Apart] at hcols
      omega
  · intro hapart
    refine hapart.imp₂ (fun p q hpq hordered => ?_) cells_ordered
    rw [disjoint_box_iff hw hh]
    rcases hpq with hline | hrows
    · have hcol : p.2 < q.2 := by omega
      have hnext : w * (p.2 + 1) ≤ w * q.2 := Nat.mul_le_mul_left w hcol
      rw [Nat.mul_succ] at hnext
      refine Or.inl (Or.inl ?_)
      simp only [corner]
      omega
    · exact Or.inr hrows

end Text
