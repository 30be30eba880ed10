import KessOS.Boot.Equiv.Keys
import KessOS.Boot.Equiv.Screen
import KessOS.Copy.Layers
import KessOS.Video.Equiv.Page

/-!
# What the boot menu looks like

Each menu is a picture of layers, with its text and its bars over the background (`menuColor`).
After every poll of the keyboard the screen shows one of the two menus, at every pixel and whatever
was there before, and it is the one with the bar on the option that the right key chooses
(`drawing_shows`).
-/

namespace KessOS

namespace Bootloader

open Copy Trace

variable {mem : PhysMem} {lfb : Framebuffer} {font : Psf1Font} {color : BitVec 32} {menu : Menu}

/-! ### Layers -/

/-- The pixels of the screen, with the columns that pad its lines. -/
def area (lfb : Framebuffer) : Set (ℕ × ℕ) := {p | p.1 < lfb.ppsl.toNat ∧ p.2 < lfb.height.toNat}

/-- Where a pixel is kept. -/
def pixel (lfb : Framebuffer) (p : ℕ × ℕ) : ℕ := lfb.index p.1 p.2

/-- The accesses draw the layer on the screen. -/
def Paints (lfb : Framebuffer) (as : List Access) (l : Layer (ℕ × ℕ) (BitVec 32)) : Prop :=
  Draws (pixel lfb) (area lfb) (as.filterMap lfb.written) l

/-- A bar in the rows from `lo` up to `hi`. -/
def bar (lfb : Framebuffer) (lo hi : ℕ) (color : BitVec 32) : Layer (ℕ × ℕ) (BitVec 32) := fun p =>
  if p.1 < lfb.width.toNat ∧ lo ≤ p.2 ∧ p.2 < hi then some color else none

/-- A line of text that starts in the column `x` and the row `y`. -/
def textLine (mem : PhysMem) (font : Psf1Font) (color : BitVec 32) (str : List (BitVec 8))
    (x y : ℕ) : Layer (ℕ × ℕ) (BitVec 32) := fun p =>
  if x ≤ p.1 ∧ y ≤ p.2 ∧ p.2 < y + 16 then
    str[(p.1 - x) / 8]?.bind fun chr =>
      if (glyphRow mem font chr (p.2 - y)).getLsbD (7 - (p.1 - x) % 8) then some color else none
  else none

theorem Paints.append {as as' : List Access} {l l' : Layer (ℕ × ℕ) (BitVec 32)}
    (h : Paints lfb as l) (h' : Paints lfb as' l') : Paints lfb (as ++ as') (l'.onto l) := by
  unfold Paints
  rw [List.filterMap_append]
  exact Draws.append h h'

theorem pixel_inj {p : ℕ × ℕ} {x y : ℕ} (hp : p ∈ area lfb) (hx : x < lfb.ppsl.toNat) :
    lfb.index x y = pixel lfb p ↔ x = p.1 ∧ y = p.2 := index_inj hx hp.1

/-! ### The background and the bars -/

theorem clearScreen_eq (h : lfb.Addressable) (color : BitVec 64) :
    clearScreen lfb color =
      (List.range lfb.height.toNat).flatMap fun y => (List.range lfb.ppsl.toNat).map fun x =>
        .pixel x y (lfb.baseAddr + BitVec.ofNat 64 (4 * lfb.index x y)) (color.setWidth 32) := by
  unfold clearScreen
  refine List.flatMap_congr fun y hy => ?_
  simp only [bytesPerScanline_eq h, pointers_line h (List.mem_range.mp hy)]
  refine List.ext_getElem (by simp) fun i hi hi' => ?_
  simp

/-- `clear_screen` leaves nothing of what was there. -/
theorem paints_clearScreen (h : lfb.Addressable) (color : BitVec 64) :
    Paints lfb (clearScreen lfb color) fun _ => some (color.setWidth 32) := by
  refine draws_of_mem_iff fun p hp c => ?_
  rw [clearScreen_eq h]
  simp only [List.mem_filterMap, List.mem_flatMap, List.mem_range, List.mem_map, Option.some.injEq]
  constructor
  · rintro ⟨a, ⟨y, hy, x, hx, rfl⟩, hw⟩
    simp only [Framebuffer.written, Option.some.injEq, Prod.mk.injEq] at hw
    exact hw.2
  · rintro rfl
    exact ⟨_, ⟨p.2, hp.2, p.1, hp.1, rfl⟩, rfl⟩

theorem paints_drawBar (hwidth : lfb.width ≤ lfb.ppsl) (lo hi : BitVec 64) (color : BitVec 32) :
    Paints lfb (drawBar lfb lo hi color) (bar lfb lo.toNat hi.toNat color) := by
  have hle : lfb.width.toNat ≤ lfb.ppsl.toNat := BitVec.le_def.mp hwidth
  refine draws_of_mem_iff fun p hp c => ?_
  have hbar : bar lfb lo.toNat hi.toNat color p = some c ↔
      (p.1 < lfb.width.toNat ∧ lo.toNat ≤ p.2 ∧ p.2 < hi.toNat) ∧ color = c := by
    unfold bar
    split_ifs with hin <;> simp [hin]
  rw [hbar]
  unfold drawBar
  simp only [List.mem_filterMap, List.mem_flatMap, List.mem_range, List.mem_map,
    List.mem_range'_1]
  constructor
  · rintro ⟨a, ⟨x, hx, y, hy, rfl⟩, hw⟩
    simp only [Framebuffer.written, Option.some.injEq, Prod.mk.injEq] at hw
    obtain ⟨rfl, rfl⟩ := (pixel_inj hp (by omega)).mp hw.1
    exact ⟨⟨hx, hy.1, by omega⟩, hw.2⟩
  · rintro ⟨⟨hx, hlo, hhi⟩, rfl⟩
    exact ⟨_, ⟨p.1, hx, p.2, ⟨hlo, by omega⟩, rfl⟩, rfl⟩

/-! ### Text -/

/-- The first character, and the rest of the line. -/
theorem textLine_cons (chr : BitVec 8) (str : List (BitVec 8)) (x y : ℕ) :
    textLine mem font color (chr :: str) x y =
      (textLine mem font color str (x + 8) y).onto (textLine mem font color [chr] x y) := by
  funext p
  rw [Layer.onto_apply]
  unfold textLine
  rcases Nat.lt_or_ge p.1 x with hleft | hleft
  · rw [if_neg (by omega), if_neg (by omega), if_neg (by omega)]
    rfl
  rcases Nat.lt_or_ge p.1 (x + 8) with hfirst | hrest
  · have hnext : ¬ (x + 8 ≤ p.1 ∧ y ≤ p.2 ∧ p.2 < y + 16) := by omega
    have hzero : (p.1 - x) / 8 = 0 := by omega
    rw [if_neg hnext, hzero, Option.none_or]
    rfl
  · obtain ⟨i, hi⟩ : ∃ i, (p.1 - x) / 8 = i + 1 := ⟨(p.1 - x) / 8 - 1, by omega⟩
    have hi' : (p.1 - (x + 8)) / 8 = i := by omega
    have hcolumn : (p.1 - (x + 8)) % 8 = (p.1 - x) % 8 := by omega
    rw [hi, hi', hcolumn]
    simp [hleft, hrest]

theorem textLine_nil (x y : ℕ) : textLine mem font color [] x y = fun _ => none := by
  funext p
  simp [textLine]

section Text

variable (hchsize : font.chsize = 16)

include hchsize

theorem paints_putChar {chr : BitVec 8} {xOff yOff : BitVec 32} (hchr : chr.toNat < 128)
    (hx : xOff.toNat + 8 ≤ lfb.ppsl.toNat) (hy : yOff.toNat + 16 < 2 ^ 32) :
    Paints lfb (putChar mem lfb font color chr xOff yOff)
      (textLine mem font color [chr] xOff.toNat yOff.toNat) := by
  refine draws_of_mem_iff fun p hp c => ?_
  rw [written_putChar_iff hchsize hchr hx hy]
  constructor
  · rintro ⟨rfl, row, hrow, column, hcolumn, hindex, hbit⟩
    obtain ⟨hx', hy'⟩ := (pixel_inj hp (by omega)).mp hindex.symm
    have hfirst : (p.1 - xOff.toNat) / 8 = 0 := by omega
    have hat : (p.1 - xOff.toNat) % 8 = column := by omega
    have hbelow : p.2 - yOff.toNat = row := by omega
    rw [textLine, if_pos (by omega), hfirst, hat, hbelow]
    simp [hbit]
  · intro hline
    unfold textLine at hline
    split_ifs at hline with hin
    obtain ⟨chr', hchr', hdot⟩ := Option.bind_eq_some_iff.mp hline
    obtain ⟨hzero, rfl⟩ := List.getElem?_eq_some_iff.mp hchr'
    split_ifs at hdot with hbit
    rw [List.length_singleton] at hzero
    refine ⟨(Option.some.inj hdot).symm, p.2 - yOff.toNat, by omega, (p.1 - xOff.toNat) % 8,
      by omega, ?_, ?_⟩
    · exact ((pixel_inj hp (by omega)).mpr ⟨by omega, by omega⟩).symm
    · simpa using hbit

/-- A line of text that ends on the screen. -/
theorem paints_drawText {str : List (BitVec 8)} {x y : BitVec 64}
    (hascii : ∀ chr ∈ str, chr.toNat < 128) (hx : x.toNat + 8 * str.length ≤ lfb.ppsl.toNat)
    (hy : y.toNat + 16 < 2 ^ 32) :
    Paints lfb (drawText mem lfb font str x y) (textLine mem font 0 str x.toNat y.toNat) := by
  have hppsl := lfb.ppsl.isLt
  induction str generalizing x with
  | nil =>
    rw [textLine_nil]
    exact draws_nil
  | cons chr str ih =>
    rw [List.forall_mem_cons] at hascii
    rw [List.length_cons] at hx
    have hnext : (x + 8).toNat = x.toNat + 8 := by
      have height : (8 : BitVec 64).toNat = 8 := rfl
      rw [BitVec.toNat_add, height]
      omega
    have hxOff : (x.setWidth 32).toNat = x.toNat := by
      rw [BitVec.toNat_setWidth]
      omega
    have hyOff : (y.setWidth 32).toNat = y.toNat := by
      rw [BitVec.toNat_setWidth]
      omega
    have hfirst : Paints lfb (putChar mem lfb font 0 chr (x.setWidth 32) (y.setWidth 32))
        (textLine mem font 0 [chr] (x.setWidth 32).toNat (y.setWidth 32).toNat) :=
      paints_putChar hchsize hascii.1 (by omega) (by omega)
    have hrest := ih hascii.2 (x := x + 8) (by omega)
    rw [hxOff, hyOff] at hfirst
    rw [hnext] at hrest
    rw [textLine_cons]
    exact hfirst.append hrest

end Text

/-! ### The menus -/

/-- The lines of the menus end on the screen. -/
structure FitsMenu (lfb : Framebuffer) : Prop where
  addressable : lfb.Addressable
  width : lfb.width ≤ lfb.ppsl
  rows : 490 ≤ lfb.height.toNat
  columns : lfb.height.toNat / 2 - 245 + 932 ≤ lfb.ppsl.toNat

/-- The options are no longer than the text at the top, and the font has their characters. -/
structure Menu.Plain (menu : Menu) : Prop where
  boot : (cString (chars menu.bootOption)).length ≤ 72
  reboot : (cString (chars menu.rebootOption)).length ≤ 72
  bootAscii : ∀ chr ∈ cString (chars menu.bootOption), chr.toNat < 128
  rebootAscii : ∀ chr ∈ cString (chars menu.rebootOption), chr.toNat < 128

theorem ascii_cString_chars {text : String}
    (h : (text.toList.all fun c => c.toNat < 128 && true) = true) :
    ∀ chr ∈ cString (chars text), chr.toNat < 128 := fun chr hchr =>
  (forall_mem_chars (p := fun _ => true) h chr ((List.takeWhile_sublist _).subset hchr)).1

/-- The first row of a menu. -/
def topRow (lfb : Framebuffer) : ℕ := lfb.height.toNat / 2 - 245

/-- The layers of a menu over its background. -/
def menuLayers (mem : PhysMem) (lfb : Framebuffer) (font : Psf1Font) (menu : Menu) :
    Layer (ℕ × ℕ) (BitVec 32) :=
  let start := topRow lfb
  let title := textLine mem font 0 (cString (chars topText)) (start + 100) 50
  let bootBar := bar lfb start (start + 15) menu.bootBar
  let bootText := textLine mem font 0 (cString (chars menu.bootOption)) (start + 350) start
  let rebootBar := bar lfb (start + 50) (start + 65) menu.rebootBar
  let rebootText :=
    textLine mem font 0 (cString (chars menu.rebootOption)) (start + 350) (start + 50)
  rebootText.onto (rebootBar.onto (bootText.onto (bootBar.onto title)))

/-- The colour of a pixel of a menu, whose background is blue. -/
def menuColor (mem : PhysMem) (lfb : Framebuffer) (font : Psf1Font) (menu : Menu) (x y : ℕ) :
    BitVec 32 :=
  (menuLayers mem lfb font menu (x, y)).getD 0x0000FF

theorem toNat_top_of_fits (h : FitsMenu lfb) : (top lfb).toNat = topRow lfb := by
  rw [toNat_top, if_pos h.rows]
  rfl

theorem toNat_start (h : FitsMenu lfb) {n : ℕ} (hn : n < 1000) :
    ((top lfb).setWidth 64 + BitVec.ofNat 64 n).toNat = topRow lfb + n := by
  rw [toNat_setWidth_top_add lfb hn, toNat_top_of_fits h]

/-- A line of text of a menu. -/
theorem paints_menuText (h : FitsMenu lfb) (hchsize : font.chsize = 16) {str : List (BitVec 8)}
    (hascii : ∀ chr ∈ str, chr.toNat < 128) {n : ℕ} (hlen : n + 8 * str.length ≤ 932)
    {y : BitVec 64} (hy : y.toNat ≤ topRow lfb + 50) :
    Paints lfb (drawText mem lfb font str ((top lfb).setWidth 64 + BitVec.ofNat 64 n) y)
      (textLine mem font 0 str (topRow lfb + n) y.toNat) := by
  have hheight := lfb.height.isLt
  have hcolumns := h.columns
  have hrows := h.rows
  have hx := toNat_start h (n := n) (by omega)
  unfold topRow at hx hy ⊢
  rw [← hx]
  exact paints_drawText hchsize hascii (by omega) (by omega)

/-- A menu covers the whole screen. -/
theorem paints_menuSelect (h : FitsMenu lfb) (hchsize : font.chsize = 16) (hmenu : menu.Plain) :
    Paints lfb (menuSelect mem lfb font menu) fun p =>
      some (menuColor mem lfb font menu p.1 p.2) := by
  have hheight := lfb.height.isLt
  have hrow := toNat_top_of_fits h
  have hzero : ((top lfb).setWidth 64).toNat = topRow lfb := by
    rw [BitVec.toNat_setWidth, hrow]
    unfold topRow
    omega
  have hlimit : ((top lfb + 15).setWidth 64).toNat = topRow lfb + 15 := by
    have hfifteen : (15 : BitVec 32).toNat = 15 := rfl
    rw [BitVec.toNat_setWidth, BitVec.toNat_add, hrow, hfifteen]
    unfold topRow
    omega
  have hfifty : ((top lfb).setWidth 64 + 50).toNat = topRow lfb + 50 := toNat_start h (by decide)
  have hend : ((top lfb).setWidth 64 + 50 + 15).toNat = topRow lfb + 65 := by
    rw [BitVec.add_assoc]
    exact toNat_start h (by decide)
  have hbootLen : 350 + 8 * (cString (chars menu.bootOption)).length ≤ 932 := by
    have hlen := hmenu.boot
    omega
  have hrebootLen : 350 + 8 * (cString (chars menu.rebootOption)).length ≤ 932 := by
    have hlen := hmenu.reboot
    omega
  have hbackground := paints_clearScreen h.addressable backgroundColor
  have htitle : Paints lfb (drawText mem lfb font (cString (chars topText)) _ 50)
      (textLine mem font 0 (cString (chars topText)) (topRow lfb + 100) 50) :=
    paints_menuText h hchsize (ascii_cString_chars (by rfl)) (by rw [length_topText])
      (Nat.le_add_left _ _)
  have hboot := paints_drawBar h.width ((top lfb).setWidth 64) ((top lfb + 15).setWidth 64)
    menu.bootBar
  have hbootText : Paints lfb (drawText mem lfb font (cString (chars menu.bootOption)) _ _)
      (textLine mem font 0 (cString (chars menu.bootOption)) (topRow lfb + 350) _) :=
    paints_menuText h hchsize hmenu.bootAscii hbootLen (hzero.le.trans (Nat.le_add_right _ _))
  have hreboot := paints_drawBar h.width ((top lfb).setWidth 64 + 50)
    ((top lfb).setWidth 64 + 50 + 15) menu.rebootBar
  have hrebootText : Paints lfb (drawText mem lfb font (cString (chars menu.rebootOption)) _ _)
      (textLine mem font 0 (cString (chars menu.rebootOption)) (topRow lfb + 350) _) :=
    paints_menuText h hchsize hmenu.rebootAscii hrebootLen hfifty.le
  rw [hzero] at hbootText
  rw [hfifty] at hrebootText
  rw [hzero, hlimit] at hboot
  rw [hfifty, hend] at hreboot
  have hall := ((((hbackground.append htitle).append hboot).append hbootText).append
    hreboot).append hrebootText
  have hcover : ((menuLayers mem lfb font menu).onto fun _ => some (backgroundColor.setWidth 32)) =
      fun p => some (menuColor mem lfb font menu p.1 p.2) := Layer.onto_some _ _
  rw [← hcover]
  simp only [menuLayers, Layer.onto_assoc]
  exact hall

/-! ### The loop -/

theorem Menu.plain_boot : Menu.boot.Plain :=
  ⟨by decide, by decide, ascii_cString_chars (by rfl), ascii_cString_chars (by rfl)⟩

theorem Menu.plain_reboot : Menu.reboot.Plain :=
  ⟨by decide, by decide, ascii_cString_chars (by rfl), ascii_cString_chars (by rfl)⟩

/-- The menus that a turn draws are those that it leaves on the screen. -/
theorem getLastD_draws (read : Option (BitVec 16)) (s : MenuLoop × BitVec 16) :
    (MenuLoop.draws read s).getLastD s.1.screen = (MenuLoop.poll read s).1.screen := by
  unfold MenuLoop.draws MenuLoop.poll MenuLoop.react
  dsimp only
  split_ifs <;> simp_all

theorem plain_of_mem_draws {read : Option (BitVec 16)} {s : MenuLoop × BitVec 16}
    (h : menu ∈ MenuLoop.draws read s) : menu.Plain := by
  unfold MenuLoop.draws at h
  dsimp only at h
  split_ifs at h
  · exact absurd h List.not_mem_nil
  · rw [List.mem_singleton.mp h]
    exact Menu.plain_reboot
  · rw [List.mem_singleton.mp h]
    exact Menu.plain_boot
  · exact absurd h List.not_mem_nil

/-- The loop leaves one of the two menus on the screen. -/
theorem screen_run (scanCode : BitVec 16) (reads : List (Option (BitVec 16))) :
    (MenuLoop.run scanCode reads).screen = .boot ∨
      (MenuLoop.run scanCode reads).screen = .reboot := by
  rw [run_eq_locals]
  generalize replay (latch Selection.press) reads _ = t
  show t.1.locals.screen = _ ∨ t.1.locals.screen = _
  cases t.1 with
  | boot => exact Or.inl rfl
  | reboot => exact Or.inr rfl
  | booted legacyBoot => exact Or.inl rfl
  | reset => exact Or.inr rfl

/-- As long as nothing was chosen, the menu tells what the right key would do. -/
theorem outcome_right {scanCode : BitVec 16} {reads : List (Option (BitVec 16))}
    (h : (MenuLoop.run scanCode reads).outcome = .waiting) :
    (MenuLoop.run scanCode reads).screen = .boot ∧
        (MenuLoop.run scanCode (reads ++ [some 3])).outcome = .booted 0 ∨
      (MenuLoop.run scanCode reads).screen = .reboot ∧
        (MenuLoop.run scanCode (reads ++ [some 3])).outcome = .reset := by
  rw [run_eq_locals] at h
  rw [run_eq_locals, run_eq_locals, replay_append]
  generalize replay (latch Selection.press) reads _ = t at h ⊢
  show t.1.locals.screen = _ ∧ (t.1.press 3).locals.outcome = _ ∨
    t.1.locals.screen = _ ∧ (t.1.press 3).locals.outcome = _
  cases hselection : t.1 with
  | boot => exact Or.inl ⟨rfl, rfl⟩
  | reboot => exact Or.inr ⟨rfl, rfl⟩
  | booted legacyBoot =>
    rw [hselection] at h
    cases h
  | reset =>
    rw [hselection] at h
    cases h

/-- All that the loop draws leaves the picture of its menu. -/
theorem painted_drawing (mem : PhysMem) (h : FitsMenu lfb) (hchsize : font.chsize = 16)
    (scanCode : BitVec 16) (reads : List (Option (BitVec 16))) (pixels : ℕ → BitVec 32)
    {p : ℕ × ℕ} (hp : p ∈ area lfb) :
    lfb.painted pixels (MenuLoop.drawing mem lfb font scanCode reads) (pixel lfb p) =
      menuColor mem lfb font (MenuLoop.run scanCode reads).screen p.1 p.2 := by
  have hplain : ∀ menu ∈ outputs MenuLoop.poll (fun s read => MenuLoop.draws read s)
      (MenuLoop.start, scanCode) reads, menu.Plain := by
    refine forall_mem_outputs.mpr (along_of_invariant (I := fun _ => True) reads trivial
      (fun _ _ _ => trivial) fun s read _ menu hmenu => ?_)
    exact plain_of_mem_draws hmenu
  have hlast := getLastD_outputs (f := fun s => s.1.screen)
    (fun s read => getLastD_draws read s) (MenuLoop.start, scanCode) reads
  have hfirst : ∀ p ∈ area lfb, writes pixels
      ((menuSelectBoot mem lfb font).filterMap lfb.written) (pixel lfb p) =
        menuColor mem lfb font .boot p.1 p.2 := fun p hp =>
    paints_menuSelect h hchsize Menu.plain_boot pixels p hp
  unfold Framebuffer.painted MenuLoop.drawing
  rw [List.filterMap_append, writes_append, List.filterMap_flatMap]
  refine (writes_flatMap_pictures (fun menu hmenu =>
    paints_menuSelect h hchsize (hplain menu hmenu)) hfirst hp).trans ?_
  exact congrArg (menuColor mem lfb font · p.1 p.2) hlast

/-- **What the boot menu shows.**  Whatever was on the screen before, and whatever `Key` held, the
loop leaves one of the two menus at every pixel of the screen, after every sequence of polls, and as
long as nothing was chosen it is that of the option which the right key chooses. -/
theorem drawing_shows (mem : PhysMem) (h : FitsMenu lfb) (hchsize : font.chsize = 16)
    (scanCode : BitVec 16) (reads : List (Option (BitVec 16))) (pixels : ℕ → BitVec 32) :
    ∃ menu, (menu = .boot ∨ menu = .reboot) ∧
      (∀ x < lfb.ppsl.toNat, ∀ y < lfb.height.toNat,
        lfb.painted pixels (MenuLoop.drawing mem lfb font scanCode reads) (lfb.index x y) =
          menuColor mem lfb font menu x y) ∧
      menu.Highlights (MenuLoop.run scanCode reads).menuEntry ∧
      ((MenuLoop.run scanCode reads).outcome = .waiting →
        menu = .boot ∧ (MenuLoop.run scanCode (reads ++ [some 3])).outcome = .booted 0 ∨
          menu = .reboot ∧ (MenuLoop.run scanCode (reads ++ [some 3])).outcome = .reset) := by
  refine ⟨(MenuLoop.run scanCode reads).screen, screen_run scanCode reads, fun x hx y hy => ?_, ?_,
    outcome_right⟩
  · exact painted_drawing mem h hchsize scanCode reads pixels (p := (x, y)) ⟨hx, hy⟩
  · rw [run_eq_locals]
    exact (Selection.matches_locals _).highlights

/-- A screen of 1280 by 800. -/
def wideScreen : Framebuffer := { smallScreen with width := 1280, height := 800, ppsl := 1280 }

/-- Down is pressed, up, and down again. -/
theorem drawing_shows_wide :
    (FitsMenu wideScreen ∧ plainFont.chsize = 16) ∧
    ∃ menu, (menu = .boot ∨ menu = .reboot) ∧
      (∀ x < wideScreen.ppsl.toNat, ∀ y < wideScreen.height.toNat,
        wideScreen.painted (fun i => BitVec.ofNat 32 i)
            (MenuLoop.drawing solid wideScreen plainFont 0 [some 2, some 1, none, some 2])
            (wideScreen.index x y) = menuColor solid wideScreen plainFont menu x y) ∧
      menu.Highlights (MenuLoop.run 0 [some 2, some 1, none, some 2]).menuEntry ∧
      ((MenuLoop.run 0 [some 2, some 1, none, some 2]).outcome = .waiting →
        menu = .boot ∧
            (MenuLoop.run 0 ([some 2, some 1, none, some 2] ++ [some 3])).outcome = .booted 0 ∨
          menu = .reboot ∧
            (MenuLoop.run 0 ([some 2, some 1, none, some 2] ++ [some 3])).outcome = .reset) := by
  have hfits : FitsMenu wideScreen :=
    ⟨⟨by decide, by decide, by decide⟩, by decide, by decide, by decide⟩
  exact ⟨⟨hfits, rfl⟩, drawing_shows solid hfits rfl 0 _ _⟩

end Bootloader

end KessOS
