import KessOS.Boot.Menu
import KessOS.Video.Equiv.Bounds

/-!
# Where the menu is drawn

The menus are placed from the row `height / 2 - 245` on, in unsigned arithmetic, and their columns
are counted from that row.  So they stay on the screen if it has at least 490 rows, if it is wide
enough for the text at the top, and if no line of it is longer than it is wide
(`menus_onScreen_iff`).
-/

namespace KessOS

namespace Bootloader

variable {mem : PhysMem} {lfb : Framebuffer} {font : Psf1Font} {P : Access → Prop} {menu : Menu}

/-! ### What is drawn -/

theorem forall_mem_drawBar {lo hi : BitVec 64} {color : BitVec 32} :
    (∀ a ∈ drawBar lfb lo hi color, P a) ↔
      ∀ x < lfb.width.toNat, ∀ y, lo.toNat ≤ y → y < hi.toNat →
        P (.pixel x y (pixelAddr lfb x y) color) := by
  unfold drawBar
  simp only [List.forall_mem_flatMap, List.forall_mem_map, List.mem_range, List.mem_range'_1]
  refine forall₂_congr fun x _ => ⟨fun h y hlo hhi => h y ⟨hlo, by omega⟩, fun h y hy => ?_⟩
  exact h y hy.1 (by omega)

/-- Character `i` is drawn `8 * i` columns to the right. -/
theorem forall_mem_drawText {str : List (BitVec 8)} {x y : BitVec 64} :
    (∀ a ∈ drawText mem lfb font str x y, P a) ↔
      ∀ i (h : i < str.length), ∀ a ∈ putChar mem lfb font 0x000000 str[i]
        ((x + BitVec.ofNat 64 (8 * i)).setWidth 32) (y.setWidth 32), P a := by
  induction str generalizing x with
  | nil => exact iff_of_true (fun _ ha => absurd ha List.not_mem_nil) fun i h => absurd h (by simp)
  | cons chr str ih =>
    have hshift : ∀ i, x + 8 + BitVec.ofNat 64 (8 * i) = x + BitVec.ofNat 64 (8 * (i + 1)) := by
      intro i
      rw [BitVec.add_assoc, Nat.mul_succ, Nat.add_comm, BitVec.ofNat_add]
      rfl
    rw [drawText, List.forall_mem_append, ih]
    simp only [hshift]
    constructor
    · rintro ⟨hfirst, hrest⟩ i hi
      cases i with
      | zero =>
        rw [Nat.mul_zero, BitVec.ofNat_eq_ofNat, BitVec.add_zero]
        exact hfirst
      | succ i => exact hrest i (Nat.lt_of_succ_lt_succ hi)
    · intro h
      refine ⟨?_, fun i hi => h (i + 1) (Nat.succ_lt_succ hi)⟩
      have hzero := h 0 (Nat.succ_pos _)
      rw [Nat.mul_zero, BitVec.ofNat_eq_ofNat, BitVec.add_zero] at hzero
      exact hzero

/-- The pixels that `clear_screen` colours in the row `y`. -/
def line (lfb : Framebuffer) (y : ℕ) : List Addr :=
  let lo := lfb.baseAddr + (lfb.ppsl * 4#32).setWidth 64 * BitVec.ofNat 64 y
  pointers lo (lo + (lfb.ppsl * 4#32).setWidth 64)

theorem forall_mem_clearScreen {color : BitVec 64} :
    (∀ a ∈ clearScreen lfb color, P a) ↔
      ∀ y < lfb.height.toNat, ∀ x (h : x < (line lfb y).length),
        P (.pixel x y (line lfb y)[x] (color.setWidth 32)) := by
  unfold clearScreen
  rw [List.forall_mem_flatMap]
  simp only [List.mem_range]
  refine forall₂_congr fun y _ => ?_
  simp only [List.mem_mapIdx]
  constructor
  · exact fun h x hx => h _ ⟨x, hx, rfl⟩
  · rintro h a ⟨x, hx, rfl⟩
    exact h x hx

/-- A row is as long as `ppsl` says, unless it goes past the end of the address space. -/
theorem length_line (hppsl : lfb.ppsl.toNat < 2 ^ 30) (y : ℕ) :
    (line lfb y).length ≤ lfb.ppsl.toNat ∧
      (lfb.baseAddr.toNat + 4 * lfb.ppsl.toNat < 2 ^ 64 →
        (line lfb 0).length = lfb.ppsl.toNat) := by
  have hbytes : ((lfb.ppsl * 4#32).setWidth 64).toNat = 4 * lfb.ppsl.toNat := by
    have hfour : (4#32).toNat = 4 := rfl
    rw [BitVec.toNat_setWidth, BitVec.toNat_mul, hfour]
    omega
  unfold line pointers
  rw [List.length_map, List.length_range, List.length_map, List.length_range]
  constructor
  · rw [BitVec.toNat_add _ ((lfb.ppsl * 4#32).setWidth 64), hbytes]
    omega
  · intro hfits
    rw [BitVec.mul_zero, BitVec.add_zero, BitVec.toNat_add, hbytes]
    omega

/-! ### On the screen -/

theorem clearScreen_onScreen_iff (hwidth : lfb.width ≤ lfb.ppsl) (hheight : 0 < lfb.height.toNat)
    (hppsl : lfb.ppsl.toNat < 2 ^ 30)
    (hfits : lfb.baseAddr.toNat + 4 * lfb.ppsl.toNat < 2 ^ 64) (color : BitVec 64) :
    (∀ a ∈ clearScreen lfb color, lfb.OnScreen a) ↔ lfb.width = lfb.ppsl := by
  have hle : lfb.width.toNat ≤ lfb.ppsl.toNat := BitVec.le_def.mp hwidth
  rw [forall_mem_clearScreen]
  constructor
  · intro h
    apply BitVec.eq_of_toNat_eq
    by_contra hne
    -- The padding of the first row is coloured.
    have hlen := (length_line hppsl 0).2 hfits
    obtain ⟨hx, -⟩ := h 0 hheight lfb.width.toNat (by omega)
    exact absurd hx (lt_irrefl _)
  · intro heq y hy x hx
    have hlen := (length_line hppsl y).1
    rw [← heq] at hlen
    exact onScreen_pixel hwidth (by omega) hy

theorem drawBar_onScreen {lo hi : BitVec 64} {color : BitVec 32} (hwidth : lfb.width ≤ lfb.ppsl)
    (hhi : hi.toNat ≤ lfb.height.toNat) : ∀ a ∈ drawBar lfb lo hi color, lfb.OnScreen a :=
  forall_mem_drawBar.mpr fun x hx y _ hy => onScreen_pixel hwidth hx (by omega)

/-- A line of text that ends before the right edge is on the screen. -/
theorem drawText_onScreen {str : List (BitVec 8)} {x y : BitVec 64}
    (hwidth : lfb.width ≤ lfb.ppsl) (hx : x.toNat + 8 * str.length ≤ lfb.width.toNat)
    (hy : y.toNat + 16 ≤ lfb.height.toNat) :
    ∀ a ∈ drawText mem lfb font str x y, lfb.OnScreen a := by
  have hlt := lfb.width.isLt
  have hlt' := lfb.height.isLt
  rw [forall_mem_drawText]
  intro i hi
  refine putChar_onScreen hwidth (Or.inr (Or.inr ⟨?_, ?_⟩))
  · rw [BitVec.toNat_setWidth, BitVec.toNat_add, BitVec.toNat_ofNat]
    omega
  · rw [BitVec.toNat_setWidth]
    omega

/-- With solid glyphs, a line of text has to end there. -/
theorem text_fits_of_onScreen {str : List (BitVec 8)} {x y : BitVec 64} (hne : str ≠ [])
    (hx : x.toNat + 8 * str.length < 2 ^ 32) (hy : y.toNat + 16 < 2 ^ 32)
    (h : ∀ a ∈ drawText solid lfb font str x y, lfb.OnScreen a) :
    x.toNat + 8 * str.length ≤ lfb.width.toNat := by
  have hpos := List.length_pos_of_ne_nil hne
  have hlast := fits_of_onScreen (forall_mem_drawText.mp h (str.length - 1) (by omega))
  have hx' : ((x + BitVec.ofNat 64 (8 * (str.length - 1))).setWidth 32).toNat =
      x.toNat + 8 * (str.length - 1) := by
    rw [BitVec.toNat_setWidth, BitVec.toNat_add, BitVec.toNat_ofNat]
    omega
  have hy' : (y.setWidth 32).toNat = y.toNat := by
    rw [BitVec.toNat_setWidth]
    omega
  rw [Framebuffer.Fits, hx', hy'] at hlast
  omega

/-! ### The menus -/

/-- The first row of the menus, `(lfb->height / 2) - 245`. -/
def top (lfb : Framebuffer) : BitVec 32 := lfb.height / 2 - 245

theorem toNat_top (lfb : Framebuffer) :
    (top lfb).toNat = if 490 ≤ lfb.height.toNat then lfb.height.toNat / 2 - 245
      else lfb.height.toNat / 2 + 2 ^ 32 - 245 := by
  have hlt := lfb.height.isLt
  have htwo : (2 : BitVec 32).toNat = 2 := rfl
  have hbig : (245 : BitVec 32).toNat = 245 := rfl
  rw [top, BitVec.toNat_sub, BitVec.toNat_udiv, htwo, hbig]
  split <;> omega

theorem toNat_setWidth_top_add (lfb : Framebuffer) {n : ℕ} (hn : n < 1000) :
    ((top lfb).setWidth 64 + BitVec.ofNat 64 n).toNat = (top lfb).toNat + n := by
  have hlt := (top lfb).isLt
  rw [BitVec.toNat_add, BitVec.toNat_setWidth, BitVec.toNat_ofNat]
  omega

theorem length_topText : (cString (chars topText)).length = 104 := by decide +kernel

/-- The parts of a menu. -/
theorem forall_mem_menuSelect :
    (∀ a ∈ menuSelect mem lfb font menu, P a) ↔
      (∀ a ∈ clearScreen lfb backgroundColor, P a) ∧
      (∀ a ∈ drawText mem lfb font (cString (chars topText)) ((top lfb).setWidth 64 + 100) 50,
        P a) ∧
      (∀ a ∈ drawBar lfb ((top lfb).setWidth 64) ((top lfb + 15).setWidth 64) menu.bootBar, P a) ∧
      (∀ a ∈ drawText mem lfb font (cString (chars menu.bootOption))
        ((top lfb).setWidth 64 + 350) ((top lfb).setWidth 64), P a) ∧
      (∀ a ∈ drawBar lfb ((top lfb).setWidth 64 + 50) ((top lfb).setWidth 64 + 50 + 15)
        menu.rebootBar, P a) ∧
      (∀ a ∈ drawText mem lfb font (cString (chars menu.rebootOption))
        ((top lfb).setWidth 64 + 350) ((top lfb).setWidth 64 + 50), P a) := by
  unfold menuSelect
  simp only [List.forall_mem_append, and_assoc]
  rfl

section Screen

variable (hwidth : lfb.width ≤ lfb.ppsl) (hppsl : lfb.ppsl.toNat < 2 ^ 30)
  (hfits : lfb.baseAddr.toNat + 4 * lfb.ppsl.toNat < 2 ^ 64)

include hwidth hppsl hfits

/-- On a screen of 490 rows or more the menu is on it if its longest line is. -/
theorem menuSelect_onScreen (hheight : 490 ≤ lfb.height.toNat)
    (htext : lfb.height.toNat / 2 - 245 + 932 ≤ lfb.width.toNat) (hpadding : lfb.width = lfb.ppsl)
    (hboot : (cString (chars menu.bootOption)).length ≤ 10)
    (hreboot : (cString (chars menu.rebootOption)).length ≤ 10) :
    ∀ a ∈ menuSelect mem lfb font menu, lfb.OnScreen a := by
  have hlt := lfb.height.isLt
  have htop := toNat_top lfb
  rw [if_pos hheight] at htop
  have hstart : ((top lfb).setWidth 64).toNat = (top lfb).toNat := by
    rw [BitVec.toNat_setWidth]
    omega
  have hlimit : ((top lfb + 15).setWidth 64).toNat = (top lfb).toNat + 15 := by
    have hfifteen : (15 : BitVec 32).toNat = 15 := rfl
    rw [BitVec.toNat_setWidth, BitVec.toNat_add]
    omega
  have hfifty : ((top lfb).setWidth 64 + 50).toNat = (top lfb).toNat + 50 :=
    toNat_setWidth_top_add lfb (by decide)
  have hbar : ((top lfb).setWidth 64 + 50 + 15).toNat = (top lfb).toNat + 65 := by
    have hfifteen : (15 : BitVec 64).toNat = 15 := rfl
    rw [BitVec.toNat_add, hfifty]
    omega
  have htitle : ((top lfb).setWidth 64 + 100).toNat = (top lfb).toNat + 100 :=
    toNat_setWidth_top_add lfb (by decide)
  have hoption : ((top lfb).setWidth 64 + 350).toNat = (top lfb).toNat + 350 :=
    toNat_setWidth_top_add lfb (by decide)
  have hrow : (50 : BitVec 64).toNat = 50 := rfl
  refine forall_mem_menuSelect.mpr ⟨?_, ?_, ?_, ?_, ?_, ?_⟩
  · exact (clearScreen_onScreen_iff hwidth (by omega) hppsl hfits _).mpr hpadding
  · exact drawText_onScreen hwidth (by rw [htitle, length_topText]; omega) (by omega)
  · exact drawBar_onScreen hwidth (by omega)
  · exact drawText_onScreen hwidth (by omega) (by omega)
  · exact drawBar_onScreen hwidth (by omega)
  · exact drawText_onScreen hwidth (by omega) (by omega)

/-- If the menu stays on the screen with solid glyphs, it is one of those. -/
theorem of_menuSelect_onScreen (hheight : 480 ≤ lfb.height.toNat) (hpos : 0 < lfb.width.toNat)
    (h : ∀ a ∈ menuSelect solid lfb font menu, lfb.OnScreen a) :
    490 ≤ lfb.height.toNat ∧ lfb.height.toNat / 2 - 245 + 932 ≤ lfb.width.toNat ∧
      lfb.width = lfb.ppsl := by
  have hlt := lfb.height.isLt
  have htop := toNat_top lfb
  obtain ⟨hclear, htitle, -, -, hbar, -⟩ := forall_mem_menuSelect.mp h
  have hfifty : ((top lfb).setWidth 64 + 50).toNat = (top lfb).toNat + 50 :=
    toNat_setWidth_top_add lfb (by decide)
  have hend : ((top lfb).setWidth 64 + 50 + 15).toNat = (top lfb).toNat + 65 := by
    have hfifteen : (15 : BitVec 64).toNat = 15 := rfl
    rw [BitVec.toNat_add, hfifty]
    omega
  have hrows : 490 ≤ lfb.height.toNat := by
    by_contra hsmall
    rw [if_neg hsmall] at htop
    -- The first row of the second bar is beyond 2^32.
    obtain ⟨-, hy, -⟩ := forall_mem_drawBar.mp hbar 0 hpos ((top lfb).toNat + 50) (by omega)
      (by omega)
    omega
  rw [if_pos hrows] at htop
  have hcolumn : ((top lfb).setWidth 64 + 100).toNat = (top lfb).toNat + 100 :=
    toNat_setWidth_top_add lfb (by decide)
  have htext := text_fits_of_onScreen (by decide) (by rw [hcolumn, length_topText]; omega)
    (by decide) htitle
  rw [hcolumn, length_topText] at htext
  exact ⟨hrows, by omega, (clearScreen_onScreen_iff hwidth (by omega) hppsl hfits _).mp hclear⟩

end Screen

/-- **Whether the menu is drawn on the screen.**  With every font both menus are drawn on the screen
if, and only if, it has 490 rows or more, the text at the top ends before its right edge, and its
rows have no padding, which would be cleared too. -/
theorem menus_onScreen_iff (hwidth : 640 ≤ lfb.width.toNat) (hheight : 480 ≤ lfb.height.toNat)
    (hline : lfb.width ≤ lfb.ppsl) (hsize : lfb.ppsl.toNat * lfb.height.toNat < 2 ^ 30)
    (hfits : lfb.baseAddr.toNat + 4 * (lfb.ppsl.toNat * lfb.height.toNat) ≤ 2 ^ 64) :
    (∀ mem font a, a ∈ menuSelectBoot mem lfb font ∨ a ∈ menuSelectReboot mem lfb font →
      lfb.OnScreen a) ↔
      490 ≤ lfb.height.toNat ∧ lfb.height.toNat / 2 - 245 + 932 ≤ lfb.width.toNat ∧
        lfb.width = lfb.ppsl := by
  have hle : lfb.ppsl.toNat * 480 ≤ lfb.ppsl.toNat * lfb.height.toNat :=
    Nat.mul_le_mul_left _ hheight
  have hpos : 0 < lfb.ppsl.toNat := by
    have := BitVec.le_def.mp hline
    omega
  constructor
  · exact fun h => of_menuSelect_onScreen hline (by omega) (by omega) hheight (by omega)
      fun a ha => h solid plainFont a (Or.inl ha)
  · rintro ⟨hrows, htext, hpadding⟩ mem font a ha
    rcases ha with ha | ha
    · exact menuSelect_onScreen hline (by omega) (by omega) hrows htext hpadding (by decide)
        (by decide) a ha
    · exact menuSelect_onScreen hline (by omega) (by omega) hrows htext hpadding (by decide)
        (by decide) a ha

theorem menus_onScreen_small :
    (∀ mem font a, a ∈ menuSelectBoot mem smallScreen font ∨
        a ∈ menuSelectReboot mem smallScreen font → smallScreen.OnScreen a) ↔
      490 ≤ smallScreen.height.toNat ∧
        smallScreen.height.toNat / 2 - 245 + 932 ≤ smallScreen.width.toNat ∧
        smallScreen.width = smallScreen.ppsl :=
  menus_onScreen_iff (by decide) (by decide) (by decide) (by decide) (by decide)

/-- On a screen of 640 by 480 the second bar goes to rows beyond 2^32. -/
theorem not_menus_onScreen_small :
    ¬ ∀ mem font a, a ∈ menuSelectBoot mem smallScreen font ∨
        a ∈ menuSelectReboot mem smallScreen font → smallScreen.OnScreen a := by
  intro h
  have hrows := (of_menuSelect_onScreen (by decide) (by decide) (by decide) (by decide) (by decide)
    fun a ha => h solid plainFont a (Or.inl ha)).1
  exact absurd hrows (by decide)

end Bootloader

end KessOS
