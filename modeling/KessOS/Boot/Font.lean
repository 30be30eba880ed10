import KessOS.Boot.Firmware
import KessOS.Kernel.Basic

/-!
# The font of the bootloader

`loadFont`: it reads the header of a PSF1 file, checks it, and reads the glyphs.
-/

namespace KessOS

def psf1Magic0 : BitVec 8 := 0x36
def psf1Magic1 : BitVec 8 := 0x04

/-- `psf1_header_t`. -/
structure Psf1Header where
  magic0 : BitVec 8
  magic1 : BitVec 8
  mode : BitVec 8
  chsize : BitVec 8
deriving DecidableEq, Repr

/-- `sizeof(psf1_header_t)`. -/
def psf1HeaderSize : ℕ := 4

def Psf1Header.ofBytes (b : Bytes) : Psf1Header where
  magic0 := b 0
  magic1 := b 1
  mode := b 2
  chsize := b 3

/-- The condition under which `loadFont` prints `Font header invalid!`. -/
def Psf1Header.invalid (header : Psf1Header) : Bool :=
  header.magic0 &&& psf1Magic0 == 0 || header.magic1 &&& psf1Magic1 == 0

/-- `glyphBufferSize`, an `int` that is converted to `UINTN`. -/
def Psf1Header.glyphBufferSize (header : Psf1Header) : BitVec 64 :=
  if header.mode = 1 then (header.chsize.setWidth 32 * 512#32).signExtend 64
  else (header.chsize.setWidth 32 * 255#32).signExtend 64

/-- `psf1_font_t`, with what the pointers in it point to.  The glyph buffer is `none` if there is
no memory for it. -/
structure LoadedFont where
  addr : Addr
  headerAddr : Addr
  header : Psf1Header
  glyphBuffer : Option Pool

/-- The font as `putChar` sees it. -/
def LoadedFont.toPsf1Font (font : LoadedFont) (glyphBuffer : Addr) : Psf1Font where
  addr := font.addr
  header := font.headerAddr
  chsize := font.header.chsize
  glyphBuffer := glyphBuffer

/-- What the calls of `loadFont` answer. -/
structure FontAnswers where
  file : FileAnswers
  headerPool : Option Pool
  readHeader : ReadAnswer
  setPosition : SeekAnswer
  glyphPool : Option Pool
  readGlyphs : ReadAnswer
  fontPool : Option Pool

/-- `loadFont` of a file with the contents `file`. -/
def loadFont (fw : FontAnswers) (file : List (BitVec 8)) : BootM (Option LoadedFont) := do
  match ← loadFile fw.file file with
  | none => return none
  | some font =>
    let size := BitVec.ofNat 64 psf1HeaderSize
    let fontHeader ← follow (← Pool.fill fw.headerPool (fw.readHeader.bytes font 0 size))
    let header := Psf1Header.ofBytes fontHeader.bytes
    if header.invalid then return none
    let glyphBufferSize := header.glyphBufferSize
    let position := fw.setPosition.position (BitVec.ofNat 64 psf1HeaderSize)
    let glyphBuffer ← Pool.fill fw.glyphPool (fw.readGlyphs.bytes font position glyphBufferSize)
    let fontRes ← follow fw.fontPool
    return some ⟨fontRes.addr, fontHeader.addr, header, glyphBuffer⟩

end KessOS
