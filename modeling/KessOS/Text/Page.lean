import KessOS.Copy.Blocks
import KessOS.Text.Layout
import Mathlib.Data.List.Basic
import Mathlib.Data.List.Nodup

/-!
# Pages of text

What stands in a cell is read off the lines of the text (`charAt`), and is what comes to the cell
when the text is set character by character (`mem_placed_iff`).  A text that is drawn character by
character, with none of them drawn over another, looks like its page (`writes_placed`).
-/

namespace Text

variable {α : Type*} {isBreak : α → Bool} {a : α} {as : List α} {k j k' j' : ℕ}

/-- The character in column `j` of line `k`. -/
def charAt (isBreak : α → Bool) (as : List α) (k j : ℕ) : Option α :=
  (as.splitOnP isBreak)[k]?.bind fun row => row[j]?

/-- The characters of a text that starts in line `k` at column `j`, with their cells. -/
def placed (isBreak : α → Bool) (k j : ℕ) : List α → List ((ℕ × ℕ) × α)
  | [] => []
  | a :: as =>
    if isBreak a then placed isBreak (k + 1) 0 as
    else ((k, j), a) :: placed isBreak k (j + 1) as

theorem placed_cons_break (h : isBreak a) :
    placed isBreak k j (a :: as) = placed isBreak (k + 1) 0 as := if_pos h

theorem placed_cons_of_not (h : ¬ isBreak a) :
    placed isBreak k j (a :: as) = ((k, j), a) :: placed isBreak k (j + 1) as := if_neg h

/-! ### The first character -/

@[simp] theorem charAt_nil (k j : ℕ) : charAt isBreak ([] : List α) k j = none := by
  cases k <;> simp [charAt]

theorem charAt_cons_break_zero (h : isBreak a) (j : ℕ) :
    charAt isBreak (a :: as) 0 j = none := by
  rw [charAt, List.splitOnP_cons_eq_if_modifyHead, if_pos h]
  rfl

theorem charAt_cons_break_succ (h : isBreak a) (k j : ℕ) :
    charAt isBreak (a :: as) (k + 1) j = charAt isBreak as k j := by
  rw [charAt, List.splitOnP_cons_eq_if_modifyHead, if_pos h]
  rfl

section

variable (h : ¬ isBreak a)

include h

variable (as) in
theorem splitOnP_cons_of_not :
    ∃ line lines, as.splitOnP isBreak = line :: lines ∧
      (a :: as).splitOnP isBreak = (a :: line) :: lines := by
  obtain ⟨line, lines, hlines⟩ := List.exists_cons_of_ne_nil (List.splitOnP_ne_nil isBreak as)
  refine ⟨line, lines, hlines, ?_⟩
  rw [List.splitOnP_cons_eq_if_modifyHead, if_neg h, hlines]
  rfl

theorem charAt_cons_zero_zero : charAt isBreak (a :: as) 0 0 = some a := by
  obtain ⟨line, lines, -, hcons⟩ := splitOnP_cons_of_not as h
  rw [charAt, hcons]
  rfl

theorem charAt_cons_zero_succ (j : ℕ) :
    charAt isBreak (a :: as) 0 (j + 1) = charAt isBreak as 0 j := by
  obtain ⟨line, lines, hlines, hcons⟩ := splitOnP_cons_of_not as h
  rw [charAt, charAt, hcons, hlines]
  rfl

theorem charAt_cons_succ (k j : ℕ) :
    charAt isBreak (a :: as) (k + 1) j = charAt isBreak as (k + 1) j := by
  obtain ⟨line, lines, hlines, hcons⟩ := splitOnP_cons_of_not as h
  rw [charAt, charAt, hcons, hlines]
  rfl

end

/-! ### The whole text -/

theorem mem_placed_from : ((k', j'), a) ∈ placed isBreak k j as ↔
    k' = k ∧ j ≤ j' ∧ charAt isBreak as 0 (j' - j) = some a ∨
      k < k' ∧ charAt isBreak as (k' - k) j' = some a := by
  induction as generalizing k j with
  | nil => simp [placed]
  | cons b as ih =>
    by_cases hbreak : isBreak b
    · rw [placed_cons_break hbreak, ih, charAt_cons_break_zero hbreak]
      rcases Nat.lt_trichotomy k' (k + 1) with hlt | rfl | hgt
      · have hle : ¬ k < k' := by omega
        simp [hle, hlt.ne, not_lt.mpr hlt.le]
      · have hdiff : k + 1 - k = 0 + 1 := by omega
        rw [hdiff, charAt_cons_break_succ hbreak]
        simp
      · obtain ⟨n, hn⟩ : ∃ n, k' - k = n + 1 := ⟨k' - k - 1, by omega⟩
        have hn' : k' - (k + 1) = n := by omega
        have hlt : k < k' := by omega
        rw [hn, hn', charAt_cons_break_succ hbreak]
        simp [hgt, hgt.ne', hlt]
    · rw [placed_cons_of_not hbreak, List.mem_cons, ih]
      rcases Nat.lt_trichotomy k' k with hlt | rfl | hgt
      · have hne : k' ≠ k := hlt.ne
        simp [hne, not_lt.mpr hlt.le]
      · rcases Nat.lt_trichotomy j' j with hlt | rfl | hgt
        · have hle : ¬ j + 1 ≤ j' := by omega
          simp [hle, hlt.ne, not_le.mpr hlt]
        · simp only [Nat.sub_self, charAt_cons_zero_zero hbreak]
          simp [eq_comm]
        · obtain ⟨n, hn⟩ : ∃ n, j' - j = n + 1 := ⟨j' - j - 1, by omega⟩
          have hn' : j' - (j + 1) = n := by omega
          rw [hn, hn', charAt_cons_zero_succ hbreak]
          simp [hgt.ne', hgt.le, Nat.succ_le_of_lt hgt]
      · obtain ⟨n, hn⟩ : ∃ n, k' - k = n + 1 := ⟨k' - k - 1, by omega⟩
        rw [hn, charAt_cons_succ hbreak]
        simp [hgt.ne', hgt]

/-- **Setting the text puts it on the page.** -/
theorem mem_placed_iff : ((k, j), a) ∈ placed isBreak 0 0 as ↔ charAt isBreak as k j = some a := by
  rw [mem_placed_from]
  cases k with
  | zero => simp
  | succ k => simp

/-- The cells of the page are those of its characters. -/
theorem map_fst_placed (k j : ℕ) (as : List α) :
    (placed isBreak k j as).map Prod.fst = cells isBreak k j as := by
  induction as generalizing k j with
  | nil => rfl
  | cons a as ih =>
    by_cases hbreak : isBreak a
    · rw [placed_cons_break hbreak, cells_cons_break hbreak, ih]
    · rw [placed_cons_of_not hbreak, cells_cons_of_not hbreak, List.map_cons, ih]

/-- The cells of a line, and of what comes behind it. -/
theorem forall_mem_cells_line {P : ℕ × ℕ → Prop} {line : List α} (hline : ∀ b ∈ line, ¬ isBreak b)
    (hbreak : isBreak a) (k j : ℕ) :
    (∀ p ∈ cells isBreak k j (line ++ a :: as), P p) ↔
      (∀ i < line.length, P (k, j + i)) ∧ ∀ p ∈ cells isBreak (k + 1) 0 as, P p := by
  induction line generalizing j with
  | nil => simp [cells_cons_break hbreak]
  | cons b line ih =>
    obtain ⟨hb, hline⟩ := List.forall_mem_cons.mp hline
    rw [List.cons_append, cells_cons_of_not hb, List.forall_mem_cons, ih hline, ← and_assoc]
    refine and_congr_left fun _ => ?_
    constructor
    · rintro ⟨hfirst, hrest⟩ (_ | i) hi
      · exact hfirst
      · have hnext := hrest i (Nat.lt_of_succ_lt_succ hi)
        rwa [Nat.add_assoc, Nat.add_comm 1] at hnext
    · intro h
      refine ⟨h 0 (Nat.succ_pos _), fun i hi => ?_⟩
      have hnext := h (i + 1) (Nat.succ_lt_succ hi)
      rwa [Nat.add_assoc, Nat.add_comm 1]

theorem nodup_placed (k j : ℕ) (as : List α) : (placed isBreak k j as).Nodup := by
  refine List.Nodup.of_map Prod.fst ?_
  rw [map_fst_placed]
  refine cells_ordered.imp fun {p q} hordered heq => ?_
  rw [heq] at hordered
  omega

/-- **A text that is drawn looks like its page**, at every dot that is in one cell only. -/
theorem writes_placed {κ β : Type*} [DecidableEq κ] {draw : (ℕ × ℕ) × α → List (κ × β)} {dot : κ}
    (m : κ → β)
    (hcell : ∀ c ∈ placed isBreak 0 0 as, c.1 ≠ (k, j) → ∀ w ∈ draw c, w.1 ≠ dot) :
    Copy.writes m ((placed isBreak 0 0 as).flatMap draw) dot =
      (charAt isBreak as k j).elim (m dot) fun a => Copy.writes m (draw ((k, j), a)) dot := by
  cases hchar : charAt isBreak as k j with
  | some a =>
    have hmem := mem_placed_iff.mpr hchar
    refine Copy.writes_flatMap m (nodup_placed 0 0 as) hmem fun c hc hne => ?_
    refine hcell c hc fun heq => hne ?_
    obtain ⟨_, b⟩ := c
    obtain rfl : _ = (k, j) := heq
    rw [mem_placed_iff, hchar] at hc
    rw [Option.some.inj hc]
  | none =>
    refine Copy.writes_of_notMem m fun w hw => ?_
    obtain ⟨c, hc, hw⟩ := List.mem_flatMap.mp hw
    refine hcell c hc (fun heq => ?_) w hw
    obtain ⟨_, b⟩ := c
    obtain rfl : _ = (k, j) := heq
    rw [mem_placed_iff, hchar] at hc
    exact absurd hc (by simp)

end Text
