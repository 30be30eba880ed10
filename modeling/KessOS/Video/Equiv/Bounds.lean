import KessOS.Video.Equiv.Console

/-!
# What is drawn, and where

`kwrite` looks at the row of the cursor only, and only at the first of the 16 rows of a glyph; it
never looks at the column.  A run of it colours pixels of the screen only if there is room for
every glyph at the moment it is typed (`kwrites_onScreen_iff`).
-/

namespace KessOS

open StateM Trace

variable {mem : PhysMem} {fb : Framebuffer} {font : Psf1Font} {color xOff yOff : BitVec 32}
  {chr : BitVec 8}

/-- A pixel that is coloured is on the screen and in the buffer of `ppsl * height` pixels. -/
def Framebuffer.OnScreen (fb : Framebuffer) : Access → Prop
  | .pixel x y _ _ =>
    x < fb.width.toNat ∧ y < fb.height.toNat ∧
      x + y * fb.ppsl.toNat < fb.ppsl.toNat * fb.height.toNat
  | _ => True

/-- There is room for the glyph of the next character: to its right, and below it unless it goes
to the top of a new column.  A glyph whose last offset wraps at 2^32 is not drawn at all. -/
def Canvas.RoomFor (c : Canvas) : Prop :=
  2 ^ 32 ≤ c.x.toNat + 8 ∨ (c.y.toNat < c.lfb.height.toNat ∧ 2 ^ 32 ≤ c.y.toNat + 16) ∨
    (c.x.toNat + 8 ≤ c.lfb.width.toNat ∧
      (c.lfb.height.toNat ≤ c.y.toNat ∨ c.y.toNat + 16 ≤ c.lfb.height.toNat))

instance (c : Canvas) : Decidable c.RoomFor := inferInstanceAs (Decidable (_ ∨ _))

/-! ### The pixels of a glyph -/

theorem mem_span {lo hi : BitVec 32} {i : ℕ} : i ∈ span lo hi ↔ lo.toNat ≤ i ∧ i < hi.toNat := by
  unfold span
  rw [List.mem_range'_1]
  omega

/-- The pixels that are coloured are those whose bit of the glyph is set. -/
theorem pixel_mem_putChar {x y : ℕ} {a : Addr} {color' : BitVec 32} :
    .pixel x y a color' ∈ putChar mem fb font color chr xOff yOff ↔
      x ∈ span xOff (xOff + 8) ∧ y ∈ span yOff (yOff + 16) ∧ a = pixelAddr fb x y ∧
        color' = color ∧ BitVec.slt 0 (glyphBit
          (loadByte mem (fontPtr font chr + BitVec.ofNat 64 (y - yOff.toNat)))
          (x - xOff.toNat)) := by
  unfold putChar
  simp only [List.mem_append, List.mem_flatMap, List.mem_cons, reduceCtorEq, List.not_mem_nil,
    or_false, false_or]
  constructor
  · rintro ⟨y', hy, x', hx, h⟩
    split_ifs at h with hbit
    · simp only [List.mem_cons, reduceCtorEq, Access.pixel.injEq, List.not_mem_nil, or_false,
        false_or] at h
      obtain ⟨rfl, rfl, rfl, rfl⟩ := h
      exact ⟨hx, hy, rfl, rfl, hbit⟩
    · exact absurd h (List.not_mem_nil)
  · rintro ⟨hx, hy, rfl, rfl, hbit⟩
    refine ⟨y, hy, x, hx, ?_⟩
    rw [if_pos hbit]
    simp

/-- Physical memory where every bit is set, and with it every bit of every glyph. -/
def solid : PhysMem := fun _ _ => -1#64

theorem loadByte_solid (a : Addr) : loadByte solid a = 0xFF#8 := by
  have hones : ∀ b : Fin 8, (-1#64).extractLsb' (8 * b.val) 8 = 0xFF#8 := by decide
  exact hones ⟨a.toNat % 8, Nat.mod_lt _ (by decide)⟩

theorem glyphBit_solid {s : ℕ} (h : s < 8) : BitVec.slt 0 (glyphBit 0xFF#8 s) := by
  have hbits : ∀ s : Fin 8, BitVec.slt 0 (glyphBit 0xFF#8 s) := by decide
  exact hbits ⟨s, h⟩

/-- A glyph at `xOff` and `yOff` is on the screen, or not drawn. -/
def Framebuffer.Fits (fb : Framebuffer) (xOff yOff : BitVec 32) : Prop :=
  2 ^ 32 ≤ xOff.toNat + 8 ∨ 2 ^ 32 ≤ yOff.toNat + 16 ∨
    (xOff.toNat + 8 ≤ fb.width.toNat ∧ yOff.toNat + 16 ≤ fb.height.toNat)

theorem mem_span_add {lo : BitVec 32} {n : ℕ} (hn : n < 2 ^ 32) {i : ℕ} :
    i ∈ span lo (lo + BitVec.ofNat 32 n) ↔
      lo.toNat + n < 2 ^ 32 ∧ lo.toNat ≤ i ∧ i < lo.toNat + n := by
  have hlo := lo.isLt
  rw [mem_span, BitVec.toNat_add, BitVec.toNat_ofNat]
  omega

theorem onScreen_pixel (hppsl : fb.width ≤ fb.ppsl) {x y : ℕ} {a : Addr} (hx : x < fb.width.toNat)
    (hy : y < fb.height.toNat) : fb.OnScreen (.pixel x y a color) := by
  refine ⟨hx, hy, ?_⟩
  have hline : x < fb.ppsl.toNat := hx.trans_le (BitVec.le_def.mp hppsl)
  calc x + y * fb.ppsl.toNat
      < fb.ppsl.toNat + y * fb.ppsl.toNat := Nat.add_lt_add_right hline _
    _ = fb.ppsl.toNat * (y + 1) := by ring
    _ ≤ fb.ppsl.toNat * fb.height.toNat := Nat.mul_le_mul_left _ hy

/-- A glyph that fits is drawn on the screen. -/
theorem putChar_onScreen (hppsl : fb.width ≤ fb.ppsl) (h : fb.Fits xOff yOff) :
    ∀ a ∈ putChar mem fb font color chr xOff yOff, fb.OnScreen a := by
  intro a ha
  cases a with
  | pixel x y addr color' =>
    obtain ⟨hx, hy, -⟩ := pixel_mem_putChar.mp ha
    have hx' := (mem_span_add (n := 8) (by decide)).mp hx
    have hy' := (mem_span_add (n := 16) (by decide)).mp hy
    have hxw : x < fb.width.toNat := by
      unfold Framebuffer.Fits at h
      omega
    have hyh : y < fb.height.toNat := by
      unfold Framebuffer.Fits at h
      omega
    exact onScreen_pixel hppsl hxw hyh
  | _ => trivial

/-- A glyph with all its bits set is drawn on the screen only if it fits. -/
theorem fits_of_onScreen
    (h : ∀ a ∈ putChar solid fb font color chr xOff yOff, fb.OnScreen a) :
    fb.Fits xOff yOff := by
  unfold Framebuffer.Fits
  by_contra hfits
  push Not at hfits
  obtain ⟨hx, hy, hout⟩ := hfits
  -- The lowest pixel on the right.
  have hcorner := h (.pixel (xOff.toNat + 7) (yOff.toNat + 15) _ color) (pixel_mem_putChar.mpr
    ⟨(mem_span_add (n := 8) (by decide)).mpr (by omega),
      (mem_span_add (n := 16) (by decide)).mpr (by omega), rfl, rfl, by
        rw [loadByte_solid]
        exact glyphBit_solid (by omega)⟩)
  obtain ⟨hxw, hyh, -⟩ := hcorner
  exact absurd (hout (by omega)) (by omega)

/-! ### Runs -/

theorem wrapped_y (c : Canvas) :
    c.wrapped.y = if c.lfb.height ≤ c.y then 10 else c.y := by
  unfold Canvas.wrapped
  split_ifs <;> rfl

/-- Below the top of a column there is room for a glyph. -/
theorem fits_iff_roomFor {c : Canvas} (hheight : 480 ≤ c.lfb.height) :
    c.lfb.Fits c.x c.wrapped.y ↔ c.RoomFor := by
  have hten : (10 : BitVec 32).toNat = 10 := rfl
  have hheight' : 480 ≤ c.lfb.height.toNat := BitVec.le_def.mp hheight
  unfold Framebuffer.Fits Canvas.RoomFor
  rw [wrapped_y]
  split_ifs with hy
  · have hlow := BitVec.le_def.mp hy
    omega
  · have hlow := BitVec.lt_def.mp (BitVec.not_le.mp hy)
    omega

/-- What a character draws is on the screen, whatever the glyphs are, if it is a newline or there
is room for it. -/
theorem out_onScreen {c : Canvas} {t : BitVec 32 × BitVec 8} (hppsl : c.lfb.width ≤ c.lfb.ppsl)
    (hheight : 480 ≤ c.lfb.height) (h : t.2 = newline ∨ c.RoomFor) :
    ∀ a ∈ c.out mem t, c.lfb.OnScreen a := by
  unfold Canvas.out Canvas.typing
  split_ifs with hnewline
  · exact fun a ha => absurd ha List.not_mem_nil
  · intro a ha
    rcases List.mem_cons.mp ha with rfl | ha
    · trivial
    · have hroom := h.resolve_left hnewline
      exact putChar_onScreen hppsl ((fits_iff_roomFor hheight).mpr hroom) a ha

theorem roomFor_of_out {c : Canvas} {t : BitVec 32 × BitVec 8} (hheight : 480 ≤ c.lfb.height)
    (h : ∀ a ∈ c.out solid t, c.lfb.OnScreen a) : t.2 = newline ∨ c.RoomFor := by
  by_cases hnewline : t.2 = newline
  · exact Or.inl hnewline
  · rw [Canvas.out_of_ne hnewline] at h
    have hglyph := fits_of_onScreen fun a ha => h a (List.mem_cons_of_mem _ ha)
    exact Or.inr ((fits_iff_roomFor hheight).mp hglyph)

theorem since_kwrites (mem : PhysMem) (k : Kernel) (calls : List (List (BitVec 8) × BitVec 32)) :
    k.since (k.after (kwrites mem calls)) =
      outputs Canvas.act (Canvas.out mem) k.canvas (typed calls) := by
  rw [Kernel.after, kwrites_run]
  simp [Kernel.since]

section

variable {c : Canvas} {ts : List (BitVec 32 × BitVec 8)}

theorem act_lfb_of_eq {lfb : Framebuffer} (c : Canvas) (t : BitVec 32 × BitVec 8)
    (h : c.lfb = lfb) : (c.act t).lfb = lfb := (Canvas.type_lfb t.2 c).trans h

/-- With room for every glyph, all that is drawn is on the screen. -/
theorem outputs_onScreen (hppsl : c.lfb.width ≤ c.lfb.ppsl) (hheight : 480 ≤ c.lfb.height)
    (h : Along Canvas.act (fun c t => t.2 = newline ∨ c.RoomFor) c ts) :
    ∀ a ∈ outputs Canvas.act (Canvas.out mem) c ts, c.lfb.OnScreen a := by
  rw [forall_mem_outputs]
  apply h.mono_of_invariant (I := fun c' => c'.lfb = c.lfb) rfl act_lfb_of_eq
  intro c' t hlfb hroom
  rw [← hlfb] at hppsl hheight ⊢
  exact out_onScreen hppsl hheight hroom

/-- If all that is drawn with solid glyphs is on the screen, then there was room for them. -/
theorem along_roomFor (hheight : 480 ≤ c.lfb.height)
    (h : ∀ a ∈ outputs Canvas.act (Canvas.out solid) c ts, c.lfb.OnScreen a) :
    Along Canvas.act (fun c t => t.2 = newline ∨ c.RoomFor) c ts := by
  rw [forall_mem_outputs] at h
  apply h.mono_of_invariant (I := fun c' => c'.lfb = c.lfb) rfl act_lfb_of_eq
  intro c' t hlfb hscreen
  rw [← hlfb] at hscreen hheight
  exact roomFor_of_out hheight hscreen

end

/-- **Whether the console draws outside the screen.**  From any canvas, the initial one and the one
that `clearScreen` leaves among them, a run of `kwrite` stays on the screen with every font if, and
only if, there is room for the glyph of every character that is not a newline, where the cursor is
when its turn comes.  Neither a newline nor a character makes sure of it. -/
theorem kwrites_onScreen_iff (k : Kernel) (hppsl : k.canvas.lfb.width ≤ k.canvas.lfb.ppsl)
    (hheight : 480 ≤ k.canvas.lfb.height) (calls : List (List (BitVec 8) × BitVec 32)) :
    (∀ mem, ∀ a ∈ k.since (k.after (kwrites mem calls)), k.canvas.lfb.OnScreen a) ↔
      Along Canvas.act (fun c t => t.2 = newline ∨ c.RoomFor) k.canvas (typed calls) := by
  simp only [since_kwrites]
  exact ⟨fun h => along_roomFor hheight (h solid), fun h mem => outputs_onScreen hppsl hheight h⟩

/-! ### A screen of 640 by 480 -/

/-- The smallest screen of UEFI. -/
def smallScreen : Framebuffer where
  addr := 0x1000
  baseAddr := 0x80000000
  width := 640
  height := 480
  ppsl := 640

def plainFont : Psf1Font where
  addr := 0x2000
  header := 0x3000
  chsize := 16
  glyphBuffer := 0x4000

/-- The kernel at its start, with that screen. -/
def smallStart : Kernel := .start smallScreen plainFont

/-- Two lines. -/
def twoLines : List (List (BitVec 8) × BitVec 32) :=
  [(chars "Hello,\n", 0xFFFFFF), (chars "World!", 0xFF0000)]

/-- There is room for them. -/
theorem kwrites_onScreen_small :
    Along Canvas.act (fun c t => t.2 = newline ∨ c.RoomFor) smallStart.canvas (typed twoLines) ∧
      ∀ mem, ∀ a ∈ smallStart.since (smallStart.after (kwrites mem twoLines)),
        smallScreen.OnScreen a := by
  have hroom : Along Canvas.act (fun c t => t.2 = newline ∨ c.RoomFor) smallStart.canvas
    (typed twoLines) := by decide
  exact ⟨hroom, (kwrites_onScreen_iff smallStart (by decide) (by decide) twoLines).mpr hroom⟩

/-- After 21 newlines the cursor is in row 475, which is above the end of the screen, and a
character that is typed there is drawn down to row 490. -/
theorem kwrites_offScreen :
    ¬ ∀ a ∈ smallStart.since (smallStart.after
        (kwrites solid [(List.replicate 21 newline ++ chars "A", 0xFFFFFF)])),
      smallScreen.OnScreen a := by
  rw [since_kwrites]
  intro h
  exact absurd (along_roomFor (c := smallStart.canvas) (by decide) h) (by decide)

end KessOS
