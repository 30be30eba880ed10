import KessOS.Boot.Main
import KessOS.Boot.Equiv.Glyph
import KessOS.Boot.Equiv.Image
import KessOS.Boot.Equiv.Screen

/-!
# Whether the bootloader does all or nothing

`efi_main` tests the results of two calls of the firmware and none of the others, so a call that
fails makes it follow a bad pointer, or jump into a kernel that is not there as a whole
(`efiMain_allOrNothing_iff`).
-/

namespace KessOS

/-! ### Sequencing -/

/-- The volume of a file is found. -/
def FileAnswers.Found (fw : FileAnswers) : Prop :=
  fw.loadedImage.isSome ∧ fw.fs.isSome ∧ fw.dir.isSome

/-- The buffer with the bytes in it. -/
def Pool.filled (pool : Option Pool) (bytes : List (BitVec 8)) : Option Pool :=
  pool.map fun pool => { pool with bytes := Copy.Block.put pool.bytes ⟨0, bytes⟩ }

namespace FontAnswers

/-- The header of the font that is read into a buffer. -/
def headerIn (fw : FontAnswers) (file : List (BitVec 8)) (pool : Pool) : Psf1Header :=
  Psf1Header.ofBytes (Copy.Block.put pool.bytes
    ⟨0, fw.readHeader.bytes file 0 (BitVec.ofNat 64 psf1HeaderSize)⟩)

/-- The font is opened and accepted, and there is memory for it. -/
structure Loads (fw : FontAnswers) (file : List (BitVec 8)) : Prop where
  found : fw.file.Found
  opened : fw.file.file.isSome
  header : ∃ pool, fw.headerPool = some pool ∧ (fw.headerIn file pool).invalid = false
  glyphs : fw.glyphPool.isSome
  font : fw.fontPool.isSome

variable {fw : FontAnswers} {file : List (BitVec 8)}

end FontAnswers

namespace Bootloader

/-! ### What the file describes -/

/-- How often the loop goes round: not at all if the size of the table overflows. -/
def turns (header : Elf64Ehdr) : ℕ :=
  if 0 < (tableSize header).toInt then header.ePhnum.toNat else 0

/-- The header that the loop sees in its turn. -/
def phdrAt (table : Bytes) (header : Elf64Ehdr) (turn : ℕ) : Elf64Phdr :=
  Elf64Phdr.ofBytes (table.from (turn * header.ePhentsize.toNat))

/-- What the turns of the loop do, one after the other. -/
def segmentEvents (answers : ℕ → SegmentAnswers) (file : List (BitVec 8)) (header : Elf64Ehdr)
    (table : Bytes) : List LoadEvent :=
  (List.range (turns header)).flatMap fun j =>
    (answers j).load file (phdrAt table header j)

section Loop

variable (answers : ℕ → SegmentAnswers) (file : List (BitVec 8)) (header : Elf64Ehdr)

variable {answers file header} {table : Bytes}

variable {answers' : SegmentAnswers} {phdr : Elf64Phdr} {request : PageRequest}
  {start dst length : ℕ}

end Loop

/-! ### The run -/

namespace Machine

variable (m : Machine)

/-- The header that is checked. -/
def header : Elf64Ehdr := Elf64Ehdr.ofBytes m.headerBytes

/-- What the second `Read` puts into the table. -/
def tableRead : List (BitVec 8) :=
  m.readTable.bytes m.kernelFile (m.setPosition.position m.header.ePhoff)
    ((tableSize m.header).signExtend 64)

/-- The table that the loop goes over. -/
def table : Bytes := (Pool.filled m.tablePool m.tableRead).elim (fun _ => 0) Pool.bytes

/-- What the loop does. -/
def events : List LoadEvent := segmentEvents m.segments m.kernelFile m.header m.table

/-- There is all that the bootloader follows after it has accepted the header. -/
structure Ready : Prop where
  table : m.tablePool.isSome ∨ (m.tableRead = [] ∧ turns m.header = 0)
  gop : m.gop.isSome
  fbPool : m.fbPool.isSome
  font : m.font.Loads m.fontFile

/-- What becomes of the menu. -/
def chosen (lfb : Framebuffer) (font : LoadedFont) : Outcome :=
  match (MenuLoop.run m.key m.reads).outcome with
  | .waiting => .waiting
  | .reset => .reset
  | .booted legacyBoot => .jumped {
      header := m.headerBytes
      events := m.events
      entry := m.headerBytes.u64 24
      lfb := some lfb
      font := some font
      mMap := m.mapPool.map Pool.addr
      legacyBoot := legacyBoot }

variable {m}

variable (hfound : m.kernel.Found) (hopen : m.kernel.file.isSome)

include hfound hopen

end Machine

/-! ### The law -/

end Bootloader

end KessOS
