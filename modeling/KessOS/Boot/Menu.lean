import KessOS.Trace.Output
import KessOS.Video.Console

/-!
# The boot menu

`menu_select_boot` and `menu_select_reboot` of the bootloader, with its `clear_screen`, and the loop
of `efi_main` that polls the keyboard.  The bootloader's `putChar` has the text of the kernel's.
Of `clear_screen` and of the bars only the pixels are recorded, each with its column and its row.
-/

namespace KessOS

namespace Bootloader

open Trace

/-! ### Drawing -/

def backgroundColor : BitVec 64 := 0x0000FF

def topText : String :=
  "KessBoot v1.4 -- use up/down arrows to move and right arrow to select. " ++
  "Or left arrow for legacy support."

/-- `clear_screen`. -/
def clearScreen (lfb : Framebuffer) (color : BitVec 64) : List Access :=
  let bytesPerScanline := (lfb.ppsl * 4#32).setWidth 64
  (List.range lfb.height.toNat).flatMap fun vsl =>
    let pixPtrBase := lfb.baseAddr + bytesPerScanline * BitVec.ofNat 64 vsl
    (pointers pixPtrBase (pixPtrBase + bytesPerScanline)).mapIdx fun column pixelPtr =>
      .pixel column vsl pixelPtr (color.setWidth 32)

/-- The loops that colour the rows from `lo` up to `hi`. -/
def drawBar (lfb : Framebuffer) (lo hi : BitVec 64) (color : BitVec 32) : List Access :=
  (List.range lfb.width.toNat).flatMap fun x =>
    (List.range' lo.toNat (hi.toNat - lo.toNat)).map fun y =>
      .pixel x y (pixelAddr lfb x y) color

/-- The loops that draw a string from column `x` on. -/
def drawText (mem : PhysMem) (lfb : Framebuffer) (font : Psf1Font) :
    List (BitVec 8) → BitVec 64 → BitVec 64 → List Access
  | [], _, _ => []
  | chr :: str, x, y =>
    putChar mem lfb font 0x000000 chr (x.setWidth 32) (y.setWidth 32) ++
      drawText mem lfb font str (x + 8) y

/-- What the two menus differ in: the bars behind the options, and the options. -/
structure Menu where
  bootBar : BitVec 32
  bootOption : String
  rebootBar : BitVec 32
  rebootOption : String
deriving DecidableEq, Repr

/-- The text that `menu_select_boot` and `menu_select_reboot` share. -/
def menuSelect (mem : PhysMem) (lfb : Framebuffer) (font : Psf1Font) (menu : Menu) : List Access :=
  let limit := (lfb.height / 2 - 245 + 15).setWidth 64
  let start := (lfb.height / 2 - 245).setWidth 64
  clearScreen lfb backgroundColor ++
    drawText mem lfb font (cString (chars topText)) (start + 100) 50 ++
    drawBar lfb start limit menu.bootBar ++
    drawText mem lfb font (cString (chars menu.bootOption)) (start + 350) start ++
    drawBar lfb (start + 50) (start + 50 + 15) menu.rebootBar ++
    drawText mem lfb font (cString (chars menu.rebootOption)) (start + 350) (start + 50)

/-- The menu that `menu_select_boot` draws. -/
def Menu.boot : Menu := ⟨0xFFFFFF, "BOOT [X]", 0x808080, "REBOOT []"⟩

/-- The menu that `menu_select_reboot` draws. -/
def Menu.reboot : Menu := ⟨0x808080, "BOOT []", 0xFFFFFF, "REBOOT [X]"⟩

/-- `menu_select_boot`. -/
def menuSelectBoot (mem : PhysMem) (lfb : Framebuffer) (font : Psf1Font) : List Access :=
  menuSelect mem lfb font .boot

/-- `menu_select_reboot`. -/
def menuSelectReboot (mem : PhysMem) (lfb : Framebuffer) (font : Psf1Font) : List Access :=
  menuSelect mem lfb font .reboot

/-! ### Polling -/

/-- The locals of the loop, the menu that was drawn last, and whether the machine was reset. -/
structure MenuLoop where
  menuEntry : BitVec 8
  loop : BitVec 8
  legacyBoot : BitVec 8
  screen : Menu
  reset : Bool
deriving DecidableEq, Repr

/-- The locals as they are initialised, with the menu that was drawn before. -/
def MenuLoop.start : MenuLoop where
  menuEntry := 1
  loop := 1
  legacyBoot := 0
  screen := .boot
  reset := false

/-- What the body of the loop does with `Key.ScanCode`. -/
def MenuLoop.react (scanCode : BitVec 16) (s : MenuLoop) : MenuLoop :=
  if scanCode = 2 ∧ s.menuEntry ≠ 0 then { s with screen := .reboot, menuEntry := 0 }
  else if scanCode = 1 ∧ s.menuEntry = 0 then { s with screen := .boot, menuEntry := 1 }
  else if scanCode = 3 then
    if s.menuEntry = 1 then { s with loop := 0 }
    else if s.menuEntry = 0 then { s with reset := true }
    else s
  else if scanCode = 4 ∧ s.menuEntry ≠ 0 then { s with loop := 0, legacyBoot := 1 }
  else s

/-- One turn of the loop, unless it has ended or the machine was reset.  `ReadKeyStroke` leaves
`Key` as it is if no key is there, which is `none`. -/
def MenuLoop.poll (read : Option (BitVec 16)) (s : MenuLoop × BitVec 16) : MenuLoop × BitVec 16 :=
  if s.1.loop = 0 ∨ s.1.reset then s
  else
    let scanCode := read.getD s.2
    (s.1.react scanCode, scanCode)

/-- The loop, from what `Key` happens to hold on. -/
def MenuLoop.run (scanCode : BitVec 16) (reads : List (Option (BitVec 16))) : MenuLoop :=
  (reads.foldl (fun s read => MenuLoop.poll read s) (MenuLoop.start, scanCode)).1

/-- The menus that a turn of the loop draws. -/
def MenuLoop.draws (read : Option (BitVec 16)) (s : MenuLoop × BitVec 16) : List Menu :=
  if s.1.loop = 0 ∨ s.1.reset then []
  else
    let scanCode := read.getD s.2
    if scanCode = 2 ∧ s.1.menuEntry ≠ 0 then [.reboot]
    else if scanCode = 1 ∧ s.1.menuEntry = 0 then [.boot]
    else []

/-- All that is drawn, from the menu before the loop on. -/
def MenuLoop.drawing (mem : PhysMem) (lfb : Framebuffer) (font : Psf1Font) (scanCode : BitVec 16)
    (reads : List (Option (BitVec 16))) : List Access :=
  menuSelectBoot mem lfb font ++
    (outputs MenuLoop.poll (fun s read => MenuLoop.draws read s) (MenuLoop.start, scanCode)
      reads).flatMap (menuSelect mem lfb font)

/-- What has become of the menu. -/
inductive MenuOutcome
  | waiting
  | booted (legacyBoot : BitVec 8)
  | reset
deriving DecidableEq, Repr

def MenuLoop.outcome (s : MenuLoop) : MenuOutcome :=
  if s.reset then .reset else if s.loop = 0 then .booted s.legacyBoot else .waiting

end Bootloader

end KessOS
