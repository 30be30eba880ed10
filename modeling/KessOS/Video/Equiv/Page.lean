import KessOS.Text.Page
import KessOS.Video.Equiv.Columns
import KessOS.Video.Equiv.Paint
import KessOS.Video.Equiv.Since

/-!
# What is on the screen

`clearScreen` and the calls of `kwrite` after it make the page of the text: the colour of every
pixel of the screen is that of the dot in the glyph of its cell, or the background, whatever was on
the screen before (`kwrites_page`).
-/

namespace KessOS

open Copy StateM Text Trace

variable {mem : PhysMem} {fb : Framebuffer} {font : Psf1Font} {color bg : BitVec 32} {c : Canvas}
  {t : BitVec 32 × BitVec 8} {ts : List (BitVec 32 × BitVec 8)} {k j x y : ℕ}

/-! ### Pages -/

/-- The colour of a character at a dot of its glyph. -/
def inkAt (mem : PhysMem) (font : Psf1Font) (bg : BitVec 32) (r c : ℕ)
    (t : BitVec 32 × BitVec 8) : BitVec 32 :=
  if (glyphRow mem font t.2 r).getLsbD (7 - c) then t.1 else bg

/-- The colour of a pixel on the page of a text: there are 20 rows to a line, with the glyph in the
first 16 of them, and a margin of 10 pixels above and on the left. -/
def pageColor (mem : PhysMem) (font : Psf1Font) (bg : BitVec 32)
    (ts : List (BitVec 32 × BitVec 8)) (x y : ℕ) : BitVec 32 :=
  if 10 ≤ x ∧ 10 ≤ y ∧ (y - 10) % 20 < 16 then
    (charAt isNewline ts ((y - 10) / 20) ((x - 10) / 8)).elim bg
      (inkAt mem font bg ((y - 10) % 20) ((x - 10) % 8))
  else bg

/-- The lines of the screen fit into an `unsigned int`, and the screen into the address space. -/
structure Framebuffer.Addressable (fb : Framebuffer) : Prop where
  line : 4 * fb.ppsl.toNat < 2 ^ 32
  height : fb.height.toNat + 16 ≤ 2 ^ 32
  buffer : fb.baseAddr.toNat + 4 * (fb.ppsl.toNat * fb.height.toNat) < 2 ^ 64

/-- The characters of the text are in the first column, and their lines start on the screen. -/
structure Framebuffer.FitsText (fb : Framebuffer) (ts : List (BitVec 32 × BitVec 8)) : Prop where
  right : ∀ p ∈ cells isNewline 0 0 ts, 10 + 8 * (p.2 + 1) ≤ fb.ppsl.toNat
  below : ∀ p ∈ cells isNewline 0 0 ts, 10 + 20 * p.1 < fb.height.toNat
  ascii : ∀ t ∈ ts, t.2.toNat < 128

/-! ### String literals -/

/-- A literal of ASCII characters is looked at character by character. -/
theorem forall_mem_chars {p : ℕ → Bool} {text : String}
    (h : (text.toList.all fun c => c.toNat < 128 && p c.toNat) = true) :
    ∀ c ∈ chars text, c.toNat < 128 ∧ p c.toNat = true := by
  intro c hc
  obtain ⟨c, hmem, rfl⟩ := List.mem_map.mp hc
  have hchar := List.all_eq_true.mp h c hmem
  rw [Bool.and_eq_true, decide_eq_true_eq] at hchar
  rw [BitVec.toNat_ofNat, Nat.mod_eq_of_lt (hchar.1.trans (by decide))]
  exact hchar

/-! ### The background -/

theorem bytesPerScanline_eq (h : fb.Addressable) :
    (fb.ppsl * 4#32).setWidth 64 = BitVec.ofNat 64 (4 * fb.ppsl.toNat) := by
  have hline := h.line
  apply BitVec.eq_of_toNat_eq
  simp only [BitVec.toNat_setWidth, BitVec.toNat_mul, BitVec.toNat_ofNat]
  omega

/-- The pointers of a line go to its pixels. -/
theorem pointers_line (h : fb.Addressable) (hy : y < fb.height.toNat) :
    pointers
        (fb.baseAddr + BitVec.ofNat 64 (4 * fb.ppsl.toNat) * BitVec.ofNat 64 y)
        (fb.baseAddr + BitVec.ofNat 64 (4 * fb.ppsl.toNat) * BitVec.ofNat 64 y +
          BitVec.ofNat 64 (4 * fb.ppsl.toNat)) =
      (List.range fb.ppsl.toNat).map fun x =>
        fb.baseAddr + BitVec.ofNat 64 (4 * fb.index x y) := by
  have hbuffer := h.buffer
  have hrow : fb.ppsl.toNat * y + fb.ppsl.toNat ≤ fb.ppsl.toNat * fb.height.toNat := by
    rw [← Nat.mul_succ]
    exact Nat.mul_le_mul_left _ hy
  have hlo : (fb.baseAddr + BitVec.ofNat 64 (4 * fb.ppsl.toNat) * BitVec.ofNat 64 y).toNat =
      fb.baseAddr.toNat + 4 * (fb.ppsl.toNat * y) := by
    rw [← BitVec.ofNat_mul, BitVec.toNat_add, BitVec.toNat_ofNat, Nat.mul_assoc]
    omega
  have hhi : (fb.baseAddr + BitVec.ofNat 64 (4 * fb.ppsl.toNat) * BitVec.ofNat 64 y +
      BitVec.ofNat 64 (4 * fb.ppsl.toNat)).toNat =
      fb.baseAddr.toNat + 4 * (fb.ppsl.toNat * y) + 4 * fb.ppsl.toNat := by
    rw [BitVec.toNat_add, hlo, BitVec.toNat_ofNat]
    omega
  have hcount : (fb.baseAddr.toNat + 4 * (fb.ppsl.toNat * y) + 4 * fb.ppsl.toNat -
      (fb.baseAddr.toNat + 4 * (fb.ppsl.toNat * y)) + 3) / 4 = fb.ppsl.toNat := by
    omega
  unfold pointers
  rw [hlo, hhi, hcount]
  refine List.map_congr_left fun x _ => ?_
  rw [BitVec.add_assoc, ← BitVec.ofNat_mul, ← BitVec.ofNat_add, Framebuffer.index]
  congr 2
  ring

theorem mem_pointers_line (h : fb.Addressable) (hy : y < fb.height.toNat) {p : Addr} :
    p ∈ pointers
        (fb.baseAddr + BitVec.ofNat 64 (4 * fb.ppsl.toNat) * BitVec.ofNat 64 y)
        (fb.baseAddr + BitVec.ofNat 64 (4 * fb.ppsl.toNat) * BitVec.ofNat 64 y +
          BitVec.ofNat 64 (4 * fb.ppsl.toNat)) ↔
      ∃ x < fb.ppsl.toNat, p = fb.baseAddr + BitVec.ofNat 64 (4 * fb.index x y) := by
  rw [pointers_line h hy, List.mem_map]
  constructor
  · rintro ⟨x, hx, rfl⟩
    exact ⟨x, List.mem_range.mp hx, rfl⟩
  · rintro ⟨x, hx, rfl⟩
    exact ⟨x, List.mem_range.mpr hx, rfl⟩

/-- The number of the pixel is found from its address. -/
theorem index_of_pixel (h : fb.Addressable) (hx : x < fb.ppsl.toNat) (hy : y < fb.height.toNat) :
    (fb.baseAddr + BitVec.ofNat 64 (4 * fb.index x y) - fb.baseAddr).toNat / 4 =
      fb.index x y := by
  have hbuffer := h.buffer
  have hrow : y * fb.ppsl.toNat + fb.ppsl.toNat ≤ fb.ppsl.toNat * fb.height.toNat := by
    rw [← Nat.succ_mul, Nat.mul_comm]
    exact Nat.mul_le_mul_left _ hy
  have hindex : 4 * fb.index x y < 2 ^ 64 := by
    unfold Framebuffer.index
    omega
  rw [BitVec.add_comm, BitVec.add_sub_cancel, BitVec.toNat_ofNat, Nat.mod_eq_of_lt hindex]
  exact Nat.mul_div_cancel_left _ (by decide)

/-- What `clearScreen` writes. -/
theorem mem_written_clearing (h : fb.Addressable) {w : ℕ × BitVec 32} :
    w ∈ (clearing fb color).filterMap fb.written ↔
      ∃ y < fb.height.toNat, ∃ x < fb.ppsl.toNat, w = (fb.index x y, color) := by
  unfold clearing lineClearing
  simp only [List.mem_filterMap, List.mem_cons, List.mem_append, List.mem_flatMap, List.mem_range,
    List.mem_map, List.not_mem_nil, or_false, bytesPerScanline_eq h]
  constructor
  · rintro ⟨a, rfl | ⟨y, hy, rfl | rfl | ⟨p, hp, rfl⟩⟩ | rfl, hw⟩
    · cases hw
    · cases hw
    · cases hw
    · obtain ⟨x, hx, rfl⟩ := (mem_pointers_line h hy).mp hp
      refine ⟨y, hy, x, hx, ?_⟩
      rw [← index_of_pixel h hx hy]
      exact (Option.some.inj hw).symm
    · cases hw
  · rintro ⟨y, hy, x, hx, rfl⟩
    refine ⟨_, .inr (.inl ⟨y, hy, .inr (.inr ⟨_, (mem_pointers_line h hy).mpr ⟨x, hx, rfl⟩,
      rfl⟩)⟩), ?_⟩
    rw [Framebuffer.written, index_of_pixel h hx hy]

theorem painted_clearing (h : fb.Addressable) (pixels : ℕ → BitVec 32) (hx : x < fb.ppsl.toNat)
    (hy : y < fb.height.toNat) : fb.painted pixels (clearing fb color) (fb.index x y) = color := by
  refine writes_of_mem pixels (fun w hw _ => ?_) ((mem_written_clearing h).mpr ⟨y, hy, x, hx, rfl⟩)
  obtain ⟨_, _, _, _, rfl⟩ := (mem_written_clearing h).mp hw
  rfl

/-! ### The text -/

/-- What drawing a character in its cell writes. -/
def cellWrites (mem : PhysMem) (fb : Framebuffer) (font : Psf1Font)
    (cell : (ℕ × ℕ) × (BitVec 32 × BitVec 8)) : List (ℕ × BitVec 32) :=
  (putChar mem fb font cell.2.1 cell.2.2 (BitVec.ofNat 32 (10 + 8 * cell.1.2))
    (BitVec.ofNat 32 (10 + 20 * cell.1.1))).filterMap fb.written

/-- A character that ends within a line of the screen. -/
theorem Canvas.At.act_fitting (hat : c.At k j) (h : ¬ isNewline t)
    (htop : lineTop k < c.lfb.height.toNat) (hright : 10 + 8 * (j + 1) ≤ c.lfb.ppsl.toNat) :
    (c.act t).At k (j + 1) := by
  have hppsl := c.lfb.ppsl.isLt
  have hwidth : (8 : BitVec 32).toNat = 8 := rfl
  rw [Canvas.act_of_ne (ne_newline_of_not h), wrapped_of_lt (hat.y ▸ htop)]
  refine ⟨hat.prevX, ?_, hat.y⟩
  rw [BitVec.toNat_add, hat.x, hwidth]
  omega

theorem lineTop_of_lt (h : 10 + 20 * k < c.lfb.height.toNat) : lineTop k = 10 + 20 * k :=
  Nat.mod_eq_of_lt (h.trans c.lfb.height.isLt)

theorem Canvas.At.written_out (hat : c.At k j) (h : ¬ isNewline t)
    (htop : 10 + 20 * k < c.lfb.height.toNat) :
    (c.out mem t).filterMap c.lfb.written = cellWrites mem c.lfb c.font ((k, j), t) := by
  have hx : c.x = BitVec.ofNat 32 (10 + 8 * j) := by
    rw [← hat.x, BitVec.ofNat_toNat, BitVec.setWidth_eq]
  have hy : c.y = BitVec.ofNat 32 (10 + 20 * k) := by
    rw [← lineTop_of_lt htop, ← hat.y, BitVec.ofNat_toNat, BitVec.setWidth_eq]
  have hwrapped : c.wrapped = c := wrapped_of_lt (by rwa [hat.y, lineTop_of_lt htop])
  rw [Canvas.out_of_ne (ne_newline_of_not h), hwrapped, List.filterMap_cons_none rfl, hx, hy]
  rfl

/-- The characters are drawn in their cells. -/
theorem Canvas.At.written_outputs (hat : c.At k j)
    (hright : ∀ p ∈ cells isNewline k j ts, 10 + 8 * (p.2 + 1) ≤ c.lfb.ppsl.toNat)
    (hbelow : ∀ p ∈ cells isNewline k j ts, 10 + 20 * p.1 < c.lfb.height.toNat) :
    (outputs Canvas.act (Canvas.out mem) c ts).filterMap c.lfb.written =
      (placed isNewline k j ts).flatMap (cellWrites mem c.lfb c.font) := by
  induction ts generalizing c k j with
  | nil => rfl
  | cons t ts ih =>
    have hlfb : (c.act t).lfb = c.lfb := Canvas.type_lfb t.2 c
    have hfont : (c.act t).font = c.font := Canvas.type_font t.2 c
    rw [outputs_cons, List.filterMap_append]
    by_cases hbreak : isNewline t
    · rw [cells_cons_break hbreak] at hright hbelow
      have hnone : (c.out mem t).filterMap c.lfb.written = [] := by
        have hnewline : t = (t.1, newline) := Prod.ext rfl (beq_iff_eq.mp hbreak)
        rw [hnewline, Canvas.out_newline]
        rfl
      have hrest := ih (hat.act_newline hbreak) (hlfb.symm ▸ hright) (hlfb.symm ▸ hbelow)
      rw [hlfb, hfont] at hrest
      rw [hnone, hrest, placed_cons_break hbreak, List.nil_append]
    · rw [cells_cons_of_not hbreak, List.forall_mem_cons] at hright hbelow
      have htop : lineTop k < c.lfb.height.toNat := by
        rw [lineTop_of_lt hbelow.1]
        exact hbelow.1
      have hrest := ih (hat.act_fitting hbreak htop hright.1) (hlfb.symm ▸ hright.2)
        (hlfb.symm ▸ hbelow.2)
      rw [hlfb, hfont] at hrest
      rw [hat.written_out hbreak hbelow.1, hrest, placed_cons_of_not hbreak, List.flatMap_cons]

section Cell

variable (hfb : fb.Addressable) (hchsize : font.chsize = 16) (hascii : t.2.toNat < 128)
  (hright : 10 + 8 * (j + 1) ≤ fb.ppsl.toNat) (hbelow : 10 + 20 * k < fb.height.toNat)

include hfb hchsize hascii hright hbelow

/-- The dots of a character, with their pixels. -/
theorem mem_cellWrites {w : ℕ × BitVec 32} : w ∈ cellWrites mem fb font ((k, j), t) ↔
    ∃ r < 16, ∃ c < 8, w = (fb.index (10 + 8 * j + c) (10 + 20 * k + r), t.1) ∧
      (glyphRow mem font t.2 r).getLsbD (7 - c) := by
  have hheight := hfb.height
  have hppsl := fb.ppsl.isLt
  have hx : (BitVec.ofNat 32 (10 + 8 * j)).toNat = 10 + 8 * j := by
    rw [BitVec.toNat_ofNat]
    omega
  have hy : (BitVec.ofNat 32 (10 + 20 * k)).toNat = 10 + 20 * k := by
    rw [BitVec.toNat_ofNat]
    omega
  obtain ⟨i, color⟩ := w
  show (i, color) ∈ (putChar mem fb font t.1 t.2 _ _).filterMap fb.written ↔ _
  rw [written_putChar_iff hchsize hascii (by rw [hx]; omega) (by rw [hy]; omega), hx, hy]
  simp only [Prod.mk.injEq]
  constructor
  · rintro ⟨rfl, r, hr, c, hc, hi, hbit⟩
    exact ⟨r, hr, c, hc, ⟨hi, rfl⟩, hbit⟩
  · rintro ⟨r, hr, c, hc, ⟨hi, rfl⟩, hbit⟩
    exact ⟨rfl, r, hr, c, hc, hi, hbit⟩

/-- A character writes to pixels of its own cell only. -/
theorem cell_of_mem_cellWrites (hx : x < fb.ppsl.toNat) {w : ℕ × BitVec 32}
    (hw : w ∈ cellWrites mem fb font ((k, j), t)) (hindex : w.1 = fb.index x y) :
    10 ≤ x ∧ 10 ≤ y ∧ (y - 10) % 20 < 16 ∧ k = (y - 10) / 20 ∧ j = (x - 10) / 8 := by
  obtain ⟨r, hr, c, hc, rfl, -⟩ := (mem_cellWrites hfb hchsize hascii hright hbelow).mp hw
  obtain ⟨rfl, rfl⟩ := (index_inj (by omega) hx).mp hindex
  omega

variable (mem) in
/-- What a character makes of a pixel of its cell. -/
theorem writes_cellWrites {r i : ℕ} (hr : r < 16) (hi : i < 8) (pixels : ℕ → BitVec 32) :
    writes pixels (cellWrites mem fb font ((k, j), t))
        (fb.index (10 + 8 * j + i) (10 + 20 * k + r)) =
      inkAt mem font (pixels (fb.index (10 + 8 * j + i) (10 + 20 * k + r))) r i t := by
  unfold inkAt
  split_ifs with hbit
  · refine writes_of_mem pixels (fun w hw _ => ?_)
      ((mem_cellWrites hfb hchsize hascii hright hbelow).mpr ⟨r, hr, i, hi, rfl, hbit⟩)
    obtain ⟨_, _, _, _, rfl, _⟩ := (mem_cellWrites hfb hchsize hascii hright hbelow).mp hw
    rfl
  · refine writes_of_notMem pixels fun w hw heq => ?_
    obtain ⟨r', hr', c', hc', rfl, hbit'⟩ :=
      (mem_cellWrites hfb hchsize hascii hright hbelow).mp hw
    obtain ⟨hc, hr⟩ := (index_inj (by omega) (by omega)).mp heq
    obtain rfl : c' = i := by omega
    obtain rfl : r' = r := by omega
    exact hbit hbit'

end Cell

/-! ### The page -/

theorem mem_of_placed {cell : (ℕ × ℕ) × (BitVec 32 × BitVec 8)} (k j : ℕ)
    (h : cell ∈ placed isNewline k j ts) :
    cell.1 ∈ cells isNewline k j ts ∧ cell.2 ∈ ts := by
  refine ⟨map_fst_placed k j ts ▸ List.mem_map_of_mem h, ?_⟩
  induction ts generalizing k j with
  | nil => exact absurd h List.not_mem_nil
  | cons t ts ih =>
    by_cases hbreak : isNewline t
    · rw [placed_cons_break hbreak] at h
      exact List.mem_cons_of_mem _ (ih _ _ h)
    · rw [placed_cons_of_not hbreak] at h
      rcases List.mem_cons.mp h with rfl | h
      · exact List.mem_cons_self
      · exact List.mem_cons_of_mem _ (ih _ _ h)

/-- The text is drawn on the background that `clearScreen` leaves. -/
theorem painted_page (hfb : c.lfb.Addressable) (hchsize : c.font.chsize = 16)
    (hfits : c.lfb.FitsText ts) (hx : x < c.lfb.ppsl.toNat) (hy : y < c.lfb.height.toNat)
    (pixels : ℕ → BitVec 32) :
    c.lfb.painted pixels
        (clearing c.lfb bg ++ outputs Canvas.act (Canvas.out mem) c.cleared ts)
        (c.lfb.index x y) = pageColor mem c.font bg ts x y := by
  have hbackground : writes pixels ((clearing c.lfb bg).filterMap c.lfb.written)
      (c.lfb.index x y) = bg := painted_clearing hfb pixels hx hy
  have houtputs :
      (outputs Canvas.act (Canvas.out mem) c.cleared ts).filterMap c.lfb.written =
        (placed isNewline 0 0 ts).flatMap (cellWrites mem c.lfb c.font) :=
    (at_cleared c).written_outputs hfits.right hfits.below
  unfold Framebuffer.painted
  rw [List.filterMap_append, writes_append, houtputs]
  generalize writes pixels _ = cleared at hbackground ⊢
  -- No cell but its own writes to the pixel.
  have hcell : ∀ cell ∈ placed isNewline 0 0 ts, ∀ w ∈ cellWrites mem c.lfb c.font cell,
      w.1 = c.lfb.index x y → 10 ≤ x ∧ 10 ≤ y ∧ (y - 10) % 20 < 16 ∧
        cell.1.1 = (y - 10) / 20 ∧ cell.1.2 = (x - 10) / 8 := by
    intro cell hcell w hw hindex
    obtain ⟨hmem, htext⟩ := mem_of_placed 0 0 hcell
    exact cell_of_mem_cellWrites hfb hchsize (hfits.ascii _ htext) (hfits.right _ hmem)
      (hfits.below _ hmem) hx hw hindex
  unfold pageColor
  split_ifs with hinside
  · refine (writes_placed (k := (y - 10) / 20) (j := (x - 10) / 8) cleared
      fun cell hmem hne w hw heq => hne ?_).trans ?_
    · obtain ⟨-, -, -, hk, hj⟩ := hcell cell hmem w hw heq
      exact Prod.ext hk hj
    · cases hchar : charAt isNewline ts ((y - 10) / 20) ((x - 10) / 8) with
      | none => exact hbackground
      | some t =>
        obtain ⟨hmem, htext⟩ := mem_of_placed 0 0 (mem_placed_iff.mpr hchar)
        have hcolumn : 10 + 8 * ((x - 10) / 8) + (x - 10) % 8 = x := by omega
        have hrow : 10 + 20 * ((y - 10) / 20) + (y - 10) % 20 = y := by omega
        have hdot := writes_cellWrites mem hfb hchsize (hfits.ascii _ htext) (hfits.right _ hmem)
          (hfits.below _ hmem) hinside.2.2 (Nat.mod_lt (x - 10) (by decide : 0 < 8)) cleared
        rw [hcolumn, hrow, hbackground] at hdot
        exact hdot
  · refine (writes_of_notMem cleared fun w hw heq => hinside ?_).trans hbackground
    obtain ⟨cell, hmem, hw⟩ := List.mem_flatMap.mp hw
    obtain ⟨hleft, habove, hrow, -⟩ := hcell cell hmem w hw heq
    exact ⟨hleft, habove, hrow⟩

/-- **What is on the screen** after `clearScreen` and calls of `kwrite`: the page of the text, at
every pixel and whatever was there before, in any state of the cursor, as long as the text stays
within the first column. -/
theorem kwrites_page (mem : PhysMem) (k : Kernel) (bg : BitVec 32)
    (calls : List (List (BitVec 8) × BitVec 32)) (hfb : k.canvas.lfb.Addressable)
    (hchsize : k.canvas.font.chsize = 16) (hfits : k.canvas.lfb.FitsText (typed calls))
    (pixels : ℕ → BitVec 32) :
    ∀ x < k.canvas.lfb.ppsl.toNat, ∀ y < k.canvas.lfb.height.toNat,
      k.canvas.lfb.painted pixels
          (k.since (k.after do clearScreen bg; kwrites mem calls)) (k.canvas.lfb.index x y) =
        pageColor mem k.canvas.font bg (typed calls) x y := by
  intro x hx y hy
  have hsince : k.since (k.after do clearScreen bg; kwrites mem calls) =
      clearing k.canvas.lfb bg ++
        outputs Canvas.act (Canvas.out mem) k.canvas.cleared (typed calls) := by
    refine since_of_trace ?_
    rw [Kernel.after, run_bind_of_eq (clearScreen_run bg k), kwrites_run]
    simp [Kernel.did]
  rw [hsince]
  exact painted_page hfb hchsize hfits hx hy pixels

/-- The two lines on the small screen. -/
theorem kwrites_page_small :
    (smallScreen.Addressable ∧ smallScreen.FitsText (typed twoLines)) ∧
      smallScreen.painted (fun i => BitVec.ofNat 32 i)
          (smallStart.since (smallStart.after do clearScreen 0; kwrites solid twoLines))
          (smallScreen.index 10 30) =
        pageColor solid plainFont 0 (typed twoLines) 10 30 := by
  have hfb : smallScreen.Addressable := ⟨by decide, by decide, by decide⟩
  have hascii : ((typed twoLines).all fun t => t.2.toNat < 128) = true := by decide
  have hfits : smallScreen.FitsText (typed twoLines) :=
    ⟨by decide, by decide, fun t ht => of_decide_eq_true (List.all_eq_true.mp hascii t ht)⟩
  exact ⟨⟨hfb, hfits⟩, kwrites_page solid smallStart 0 twoLines hfb rfl hfits _ 10 (by decide) 30
    (by decide)⟩

end KessOS
