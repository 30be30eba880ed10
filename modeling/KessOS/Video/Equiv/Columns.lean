import KessOS.Text.Layout
import KessOS.Video.Equiv.Bounds

/-!
# Lines and columns

After `clearScreen` the text is laid out from row 10 on, 20 rows to a line and 8 pixels to a
character.  At the end of the screen `kwrite` opens a column 300 pixels further right, but it does
so at the next character, after the newline has put the cursor back to the old column, so that the
first line of the new column is drawn over the first line of the old one.  No output is lost only
as long as no column is opened (`kwrites_undisturbed_iff`).
-/

namespace KessOS

open StateM Text Trace

variable {mem : PhysMem} {color : BitVec 32} {c : Canvas} {t : BitVec 32 × BitVec 8}
  {ts : List (BitVec 32 × BitVec 8)} {k j : ℕ}

def isNewline (t : BitVec 32 × BitVec 8) : Bool := t.2 == newline

/-- The row that line `k` of the text has in the first column. -/
def lineTop (k : ℕ) : ℕ := (10 + 20 * k) % 2 ^ 32

/-- Where a glyph is drawn. -/
def Access.glyphCorner : Access → Option (ℕ × ℕ)
  | .putChar _ xOff yOff => some (xOff.toNat, yOff.toNat)
  | _ => none

/-- The boxes of 8x16 pixels of the glyphs that are drawn. -/
def glyphBoxes (as : List Access) : List (Set (ℕ × ℕ)) :=
  (as.filterMap Access.glyphCorner).map (box 8 16)

/-- The next character is drawn in its column of 300 pixels. -/
def Canvas.InColumn (c : Canvas) : Prop :=
  c.wrapped.prevX.toNat ≤ c.x.toNat ∧ c.x.toNat + 8 ≤ c.wrapped.prevX.toNat + 300

/-- The cursor is at column `j` of line `k`, and the first column is still open. -/
structure Canvas.At (c : Canvas) (k j : ℕ) : Prop where
  prevX : c.prevX = 10
  x : c.x.toNat = 10 + 8 * j
  y : c.y.toNat = lineTop k

/-! ### Steps -/

theorem lineTop_succ (k : ℕ) : lineTop (k + 1) = (lineTop k + 20) % 2 ^ 32 := by
  unfold lineTop
  omega

theorem at_cleared (c : Canvas) : c.cleared.At 0 0 := ⟨rfl, rfl, rfl⟩

theorem wrapped_of_lt (h : c.y.toNat < c.lfb.height.toNat) : c.wrapped = c :=
  if_neg (BitVec.not_le.mpr (BitVec.lt_def.mpr h))

theorem wrapped_prevX_of_le (h : c.lfb.height.toNat ≤ c.y.toNat) :
    c.wrapped.prevX = c.prevX + 300 := by
  rw [Canvas.wrapped, if_pos (BitVec.le_def.mpr h)]

theorem Canvas.At.act_newline (hat : c.At k j) (h : isNewline t) : (c.act t).At (k + 1) 0 := by
  have ht : c.act t = { c with x := c.prevX, y := c.y + 20 } := if_pos (beq_iff_eq.mp h)
  rw [ht]
  refine ⟨hat.prevX, congrArg BitVec.toNat hat.prevX, ?_⟩
  rw [BitVec.toNat_add, hat.y, lineTop_succ]
  rfl

theorem ne_newline_of_not (h : ¬ isNewline t) : t.2 ≠ newline := fun heq => h (beq_iff_eq.mpr heq)

/-- A character of a line that starts on the screen. -/
theorem Canvas.At.act_char (hat : c.At k j) (h : ¬ isNewline t)
    (htop : lineTop k < c.lfb.height.toNat) (hcol : j < 37) : (c.act t).At k (j + 1) := by
  rw [Canvas.act_of_ne (ne_newline_of_not h), wrapped_of_lt (hat.y ▸ htop)]
  refine ⟨hat.prevX, ?_, hat.y⟩
  have hwidth : (8 : BitVec 32).toNat = 8 := rfl
  rw [BitVec.toNat_add, hat.x, hwidth]
  omega

/-- A character is in its column as long as its line starts on the screen. -/
theorem Canvas.At.inColumn_iff (hat : c.At k j) (hcol : j < 37) :
    c.InColumn ↔ lineTop k < c.lfb.height.toNat := by
  unfold Canvas.InColumn
  rcases Nat.lt_or_ge (lineTop k) c.lfb.height.toNat with htop | htop
  · have hten : (10 : BitVec 32).toNat = 10 := rfl
    rw [wrapped_of_lt (hat.y ▸ htop), hat.prevX, hat.x, hten]
    omega
  · have hnext : ((10 : BitVec 32) + 300).toNat = 310 := rfl
    rw [wrapped_prevX_of_le (hat.y ▸ htop), hat.prevX, hat.x, hnext]
    omega

/-- `putChar` draws one glyph. -/
theorem glyphCorner_putChar (fb : Framebuffer) (font : Psf1Font) (chr : BitVec 8)
    (xOff yOff : BitVec 32) :
    (putChar mem fb font color chr xOff yOff).filterMap Access.glyphCorner =
      [(xOff.toNat, yOff.toNat)] := by
  unfold putChar
  rw [List.filterMap_append]
  refine congrArg (List.cons _) (List.filterMap_eq_nil_iff.mpr fun a ha => ?_)
  obtain ⟨y, -, ha⟩ := List.mem_flatMap.mp ha
  obtain ⟨x, -, ha⟩ := List.mem_flatMap.mp ha
  rcases List.mem_cons.mp ha with rfl | ha
  · rfl
  · split_ifs at ha
    · simp only [List.mem_cons, List.not_mem_nil, or_false] at ha
      rcases ha with rfl | rfl
      · rfl
      · rfl
    · exact absurd ha List.not_mem_nil

/-- Where a character is drawn. -/
def Canvas.corners (c : Canvas) (t : BitVec 32 × BitVec 8) : List (ℕ × ℕ) :=
  if t.2 = newline then [] else [(c.x.toNat, c.wrapped.y.toNat)]

theorem glyphCorner_out (c : Canvas) (t : BitVec 32 × BitVec 8) :
    (c.out mem t).filterMap Access.glyphCorner = c.corners t := by
  unfold Canvas.out Canvas.typing Canvas.corners
  split_ifs with h
  · rfl
  · exact glyphCorner_putChar c.lfb c.font t.2 c.x c.wrapped.y

/-- The glyphs are those of the characters, in order. -/
theorem glyphBoxes_outputs (c : Canvas) (ts : List (BitVec 32 × BitVec 8)) :
    glyphBoxes (outputs Canvas.act (Canvas.out mem) c ts) =
      (outputs Canvas.act Canvas.corners c ts).map (box 8 16) := by
  rw [glyphBoxes, filterMap_outputs]
  congr 2
  funext c t
  exact glyphCorner_out c t

theorem Canvas.At.corners_eq (hat : c.At k j) (h : ¬ isNewline t)
    (htop : lineTop k < c.lfb.height.toNat) : c.corners t = [corner 10 8 lineTop (k, j)] := by
  rw [Canvas.corners, if_neg (ne_newline_of_not h), wrapped_of_lt (hat.y ▸ htop), hat.x, hat.y]
  rfl

/-! ### Runs -/

/-- In a text of short lines, the characters stay in their column if every line that has one starts
on the screen, and only then. -/
theorem Canvas.At.along_inColumn_iff (hat : c.At k j)
    (hshort : ∀ p ∈ cells isNewline k j ts, p.2 < 37) :
    Along Canvas.act (fun c t => t.2 = newline ∨ c.InColumn) c ts ↔
      ∀ p ∈ cells isNewline k j ts, lineTop p.1 < c.lfb.height.toNat := by
  induction ts generalizing c k j with
  | nil => simp
  | cons t ts ih =>
    have hlfb : (c.act t).lfb = c.lfb := act_lfb_of_eq c t rfl
    rw [along_cons]
    by_cases hbreak : isNewline t
    · rw [cells_cons_break hbreak] at hshort ⊢
      rw [ih (hat.act_newline hbreak) hshort, hlfb]
      exact and_iff_right (Or.inl (beq_iff_eq.mp hbreak))
    · rw [cells_cons_of_not hbreak, List.forall_mem_cons] at hshort ⊢
      rw [or_iff_right (ne_newline_of_not hbreak), hat.inColumn_iff hshort.1]
      refine and_congr_right fun htop => ?_
      rw [ih (hat.act_char hbreak htop hshort.1) hshort.2, hlfb]

/-- As long as every line starts on the screen, the characters are drawn in their cells. -/
theorem Canvas.At.outputs_corners (hat : c.At k j)
    (hshort : ∀ p ∈ cells isNewline k j ts, p.2 < 37)
    (htop : ∀ p ∈ cells isNewline k j ts, lineTop p.1 < c.lfb.height.toNat) :
    outputs Canvas.act Canvas.corners c ts =
      (cells isNewline k j ts).map (corner 10 8 lineTop) := by
  induction ts generalizing c k j with
  | nil => rfl
  | cons t ts ih =>
    have hlfb : (c.act t).lfb = c.lfb := act_lfb_of_eq c t rfl
    rw [outputs_cons]
    by_cases hbreak : isNewline t
    · rw [cells_cons_break hbreak] at hshort htop ⊢
      have hcorners : c.corners t = [] := if_pos (beq_iff_eq.mp hbreak)
      rw [hcorners]
      exact ih (hat.act_newline hbreak) hshort (hlfb ▸ htop)
    · rw [cells_cons_of_not hbreak, List.forall_mem_cons] at hshort htop
      rw [cells_cons_of_not hbreak, List.map_cons, hat.corners_eq hbreak htop.1,
        ih (hat.act_char hbreak htop.1 hshort.1) hshort.2 (hlfb ▸ htop.2)]
      rfl

/-- When the text that starts at the top of the first column is left as it is. -/
theorem typed_undisturbed_iff (hat : c.At 0 0)
    (hshort : ∀ p ∈ cells isNewline 0 0 ts, p.2 < 37) :
    (glyphBoxes (outputs Canvas.act (Canvas.out mem) c ts)).Pairwise Disjoint ∧
        Along Canvas.act (fun c t => t.2 = newline ∨ c.InColumn) c ts ↔
      (∀ p ∈ cells isNewline 0 0 ts, lineTop p.1 < c.lfb.height.toNat) ∧
        (cells isNewline 0 0 ts).Pairwise
          fun p q => p.1 = q.1 ∨ Apart 16 (lineTop p.1) (lineTop q.1) := by
  rw [hat.along_inColumn_iff hshort, and_comm]
  refine and_congr_right fun htop => ?_
  rw [glyphBoxes_outputs, hat.outputs_corners hshort htop, List.map_map]
  exact pairwise_disjoint_iff (by decide) (by decide)

theorem after_clearScreen_canvas (color : BitVec 32) (k : Kernel) :
    (k.after (clearScreen color)).canvas = k.canvas.cleared := by
  rw [Kernel.after, clearScreen_run]

/-- **Whether output is overwritten before the screen is cleared.**  After `clearScreen`, and with
lines of at most 37 characters, no two glyphs meet and each is drawn in its column if, and only if,
every line that has a character starts on the screen, with no two of these within 16 rows of each
other.  So the text is kept until a second column is opened, and no longer. -/
theorem kwrites_undisturbed_iff (mem : PhysMem) (k : Kernel) (color : BitVec 32)
    (calls : List (List (BitVec 8) × BitVec 32))
    (hshort : ∀ p ∈ cells isNewline 0 0 (typed calls), p.2 < 37) :
    let k₀ := k.after (clearScreen color)
    (glyphBoxes (k₀.since (k₀.after (kwrites mem calls)))).Pairwise Disjoint ∧
        Along Canvas.act (fun c t => t.2 = newline ∨ c.InColumn) k₀.canvas (typed calls) ↔
      (∀ p ∈ cells isNewline 0 0 (typed calls), lineTop p.1 < k.canvas.lfb.height.toNat) ∧
        (cells isNewline 0 0 (typed calls)).Pairwise
          fun p q => p.1 = q.1 ∨ Apart 16 (lineTop p.1) (lineTop q.1) := by
  intro k₀
  rw [since_kwrites, after_clearScreen_canvas]
  exact typed_undisturbed_iff (at_cleared k.canvas) hshort

/-- The small screen, cleared. -/
def smallCleared : Kernel := smallStart.after (clearScreen 0)

theorem smallCleared_canvas : smallCleared.canvas = smallStart.canvas.cleared :=
  after_clearScreen_canvas 0 smallStart

/-- Two lines are left as they are. -/
theorem kwrites_undisturbed_small :
    (∀ p ∈ cells isNewline 0 0 (typed twoLines), p.2 < 37) ∧
      (glyphBoxes (smallCleared.since
        (smallCleared.after (kwrites solid twoLines)))).Pairwise Disjoint := by
  have hshort : ∀ p ∈ cells isNewline 0 0 (typed twoLines), p.2 < 37 := by decide
  exact ⟨hshort, ((kwrites_undisturbed_iff solid smallStart 0 twoLines hshort).mpr (by decide)).1⟩

/-- "A" in line 0 and "B" in line 24, which would start in row 490. -/
def farLines : List (List (BitVec 8) × BitVec 32) :=
  [(chars "A" ++ List.replicate 24 newline ++ chars "B", 0xFFFFFF)]

/-- The second of these is drawn over the first: the cursor is still in the first column when the
second one, for which there is room, is opened. -/
theorem kwrites_disturbed :
    (∀ p ∈ cells isNewline 0 0 (typed farLines), p.2 < 37) ∧
      Along Canvas.act (fun c t => (c.act t).prevX.toNat + 300 ≤ smallScreen.width.toNat)
        smallCleared.canvas (typed farLines) ∧
      ¬ (glyphBoxes (smallCleared.since
        (smallCleared.after (kwrites solid farLines)))).Pairwise Disjoint := by
  have hcorners : outputs Canvas.act Canvas.corners smallStart.canvas.cleared (typed farLines) =
      [(10, 10), (10, 10)] := by decide
  rw [since_kwrites, smallCleared_canvas, glyphBoxes_outputs, hcorners]
  refine ⟨by decide, by decide, fun h => ?_⟩
  rw [List.map_cons, List.map_cons, List.map_nil, List.pairwise_pair,
    disjoint_box_iff (by decide) (by decide)] at h
  exact absurd h (by decide)

end KessOS
