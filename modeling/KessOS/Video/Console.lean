import KessOS.Copy.Blocks
import KessOS.Kernel.Basic

/-!
# The console

`drivers/video/impl/FrameBuffer.c`: `putChar` draws an 8x16 glyph, `kwrite` moves the cursor of
the canvas along, and `clearScreen` puts it back.  The offsets are `unsigned int`, so the bounds of
the loops of `putChar` wrap at 2^32, while its counters are `unsigned long`.
-/

namespace KessOS

variable (mem : PhysMem)

/-! ### `putChar` -/

/-- The values of `for (unsigned long i = lo; i < hi; i++)`. -/
def span (lo hi : BitVec 32) : List ℕ := List.range' lo.toNat (hi.toNat - lo.toNat)

/-- `*fontPtr & (0b10000000 >> shift)`, where `char` is signed. -/
def glyphBit (row : BitVec 8) (shift : ℕ) : BitVec 32 :=
  row.signExtend 32 &&& (0b10000000#32 >>> shift)

/-- `psf1_font->glyphBuffer + (chr * psf1_font->header->chsize)`. -/
def fontPtr (font : Psf1Font) (chr : BitVec 8) : Addr :=
  font.glyphBuffer + (chr.signExtend 32 * font.chsize.setWidth 32).signExtend 64

/-- `pixPtr + x + (y * framebuffer->ppsl)`. -/
def pixelAddr (fb : Framebuffer) (x y : ℕ) : Addr :=
  fb.baseAddr + 4#64 * (BitVec.ofNat 64 x + BitVec.ofNat 64 y * fb.ppsl.setWidth 64)

/-- The accesses of `putChar`. -/
def putChar (fb : Framebuffer) (font : Psf1Font) (color : BitVec 32) (chr : BitVec 8)
    (xOff yOff : BitVec 32) : List Access :=
  [.putChar chr xOff yOff, .read .framebuffer fb.addr 8, .read .font (font.addr + 8) 8,
    .read .font font.addr 8, .read .fontHeader (font.header + 3) 1] ++
  (span yOff (yOff + 16)).flatMap fun y =>
    let fontPtr := fontPtr font chr + BitVec.ofNat 64 (y - yOff.toNat)
    (span xOff (xOff + 8)).flatMap fun x =>
      .read .glyph fontPtr 1 ::
        if BitVec.slt 0 (glyphBit (loadByte mem fontPtr) (x - xOff.toNat)) then
          [.read .framebuffer (fb.addr + 24) 4, .pixel x y (pixelAddr fb x y) color]
        else []

/-! ### `draw_square` -/

/-- `get_pixel_idx`, whose `int` is computed as an `unsigned int`. -/
def getPixelIdx (fb : Framebuffer) (x y : BitVec 32) : BitVec 32 := x + y * fb.ppsl

/-- The accesses of `put_pix`. -/
def putPix (fb : Framebuffer) (x y color : BitVec 32) : List Access :=
  [.read .framebuffer fb.addr 8, .read .framebuffer (fb.addr + 24) 4,
    .pixel x.toNat y.toNat (fb.baseAddr + 4#64 * (getPixelIdx fb x y).signExtend 64) color]

/-- The accesses of `draw_square`. -/
def drawSquare (fb : Framebuffer) (x y w h color : BitVec 32) : List Access :=
  (span x (x + w)).flatMap fun sx =>
    (span y (y + h)).flatMap fun sy =>
      putPix fb (BitVec.ofNat 32 sx) (BitVec.ofNat 32 sy) color

/-! ### `kwrite` -/

/-- `'\n'`. -/
def newline : BitVec 8 := 10

/-- The characters of a string up to its `NUL`. -/
def cString (str : List (BitVec 8)) : List (BitVec 8) := str.takeWhile (· ≠ 0)

/-- `if (canvas->y >= canvas->lfb->height)`: below the screen, a new column is opened. -/
def Canvas.wrapped (c : Canvas) : Canvas :=
  if c.y ≥ c.lfb.height then { c with prevX := c.prevX + 300, y := 10 } else c

/-- The body of the loop of `kwrite`. -/
def kwriteChar (color : BitVec 32) (chr : BitVec 8) : KernelM Unit :=
  if chr = newline then
    modifyCanvas fun c => { c with x := c.prevX, y := c.y + 20 }
  else do
    access (.read .framebuffer ((← get).canvas.lfb.addr + 20) 4)
    modifyCanvas Canvas.wrapped
    let canvas := (← get).canvas
    (putChar mem canvas.lfb canvas.font color chr canvas.x canvas.y).forM access
    modifyCanvas fun c => { c with x := c.x + 8 }

/-- `kwrite`. -/
def kwrite (str : List (BitVec 8)) (color : BitVec 32) : KernelM Unit :=
  (cString str).forM fun chr => kwriteChar mem color chr

/-! ### `clearScreen` -/

/-- The pointers from `lo` up to `hi`, in steps of 4 bytes. -/
def pointers (lo hi : Addr) : List Addr :=
  (List.range ((hi.toNat - lo.toNat + 3) / 4)).map fun i => lo + BitVec.ofNat 64 (4 * i)

/-- The body of the loop of `clearScreen`. -/
def clearLine (lfb : Framebuffer) (color : BitVec 32) (bytesPerScanline : BitVec 64) (vsl : ℕ) :
    KernelM Unit := do
  access (.read .framebuffer (lfb.addr + 20) 4)
  access (.read .framebuffer lfb.addr 8)
  let pixPtrBase := lfb.baseAddr + bytesPerScanline * BitVec.ofNat 64 vsl
  (pointers pixPtrBase (pixPtrBase + bytesPerScanline)).forM fun pixelPtr =>
    access (.clear pixelPtr color)

/-- `clearScreen`. -/
def clearScreen (color : BitVec 32) : KernelM Unit := do
  let lfb := (← get).canvas.lfb
  access (.read .framebuffer (lfb.addr + 24) 4)
  (List.range lfb.height.toNat).forM (clearLine lfb color ((lfb.ppsl * 4#32).setWidth 64))
  access (.read .framebuffer (lfb.addr + 20) 4)
  modifyCanvas fun c => { c with prevX := 10, x := 10, y := 10 }

/-! ### The screen -/

/-- The number of the pixel in column `x` and row `y`. -/
def Framebuffer.index (fb : Framebuffer) (x y : ℕ) : ℕ := x + y * fb.ppsl.toNat

/-- The pixel that an access writes, and its new colour. -/
def Framebuffer.written (fb : Framebuffer) : Access → Option (ℕ × BitVec 32)
  | .pixel x y _ color => some (fb.index x y, color)
  | .clear addr color => some ((addr - fb.baseAddr).toNat / 4, color)
  | _ => none

/-- The pixels after some accesses. -/
def Framebuffer.painted (fb : Framebuffer) (pixels : ℕ → BitVec 32) (as : List Access) :
    ℕ → BitVec 32 :=
  Copy.writes pixels (as.filterMap fb.written)

/-! ### `log` -/

/-- `STATUS`; `other` is any value that is not an enumerator. -/
inductive Status
  | warning
  | info
  | critical
  | panic
  | other
deriving DecidableEq, Repr

/-- The colour that `log` uses. -/
def Status.color : Status → BitVec 32
  | .warning => 0x800080
  | .info => 0x00FF00
  | .critical => 0xFF0000
  | .panic => 0xFF0000
  | .other => 0xFFFFFF

/-- The characters of a literal. -/
def chars (s : String) : List (BitVec 8) := s.toList.map fun c => BitVec.ofNat 8 c.toNat

/-- What `log` writes first. -/
def Status.label : Status → List (BitVec 8)
  | .warning => chars "[WARNING] "
  | .info => chars "[INFO] "
  | .critical => chars "[CRITICAL] "
  | .panic => chars "** KERNEL PANIC **\n"
  | .other => []

/-- `log` of a format that has no conversion: every character has a `kwrite` of its own. -/
def logText (format : String) (status : Status) : KernelM Unit := do
  kwrite mem status.label status.color
  (cString (chars format)).forM fun c => kwrite mem [c, 0] status.color

end KessOS
