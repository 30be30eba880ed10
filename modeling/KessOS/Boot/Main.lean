import KessOS.Boot.Font
import KessOS.Boot.Loader
import KessOS.Boot.Menu

/-!
# The bootloader, when calls of the firmware fail

`efi_main` from its start to the jump into the kernel.  Of all the calls of the firmware only the
results of `Open` and of `LocateProtocol` are tested, and the one pointer that is looked at later
is that of the font.  `GetInfo`, `GetMemoryMap` and the search for the RSDP are left out: what they
give is not followed here.

A segment that is read does not overwrite what the bootloader itself has in memory.
-/

namespace KessOS

namespace Bootloader

/-! ### Loading the segments -/

/-- What the loop over the program headers has done: pages that were allocated, and bytes that a
`Read` has brought from the file. -/
inductive LoadEvent
  | allocated (request : PageRequest)
  | delivered (offset dst length : ℕ)
deriving DecidableEq, Repr

/-- What the calls for a segment answer. -/
structure SegmentAnswers where
  allocatePages : Bool
  setPosition : SeekAnswer
  read : ReadAnswer

/-- `AllocatePages` with `AllocateAddress`. -/
def SegmentAnswers.pages (answers : SegmentAnswers) (phdr : Elf64Phdr) : List LoadEvent :=
  if answers.allocatePages then
    [.allocated ⟨phdr.pPaddr.toNat, ((pagesFor phdr).signExtend 64).toNat⟩]
  else []

/-- `SetPosition`, and `Read` to the place of the segment. -/
def SegmentAnswers.contents (answers : SegmentAnswers) (file : List (BitVec 8))
    (phdr : Elf64Phdr) : List LoadEvent :=
  let position := answers.setPosition.position phdr.pOffset
  match answers.read with
  | .success => [.delivered position phdr.pPaddr.toNat
      (answers.read.bytes file position phdr.pFilesz).length]
  | .failure _ => []

/-- What the body of the loop does. -/
def SegmentAnswers.load (answers : SegmentAnswers) (file : List (BitVec 8)) (phdr : Elf64Phdr) :
    List LoadEvent :=
  if phdr.pType = ptLoad then answers.pages phdr ++ answers.contents file phdr else []

/-- The loop over the program headers, from the header `turn` on. -/
def loadSegments (answers : ℕ → SegmentAnswers) (file : List (BitVec 8)) (header : Elf64Ehdr)
    (progHeaders : Option Pool) : (fuel turn : ℕ) → BootM (List LoadEvent)
  | 0, _ => throw .outOfFuel
  | fuel + 1, turn =>
    let off := turn * header.ePhentsize.toNat
    if (off : ℤ) < (tableSize header).toInt then do
      let table ← follow progHeaders
      let events := (answers turn).load file (Elf64Phdr.ofBytes (table.bytes.from off))
      return events ++ (← loadSegments answers file header progHeaders fuel (turn + 1))
    else return []

/-! ### The framebuffer -/

/-- What `gop->Mode` says of the framebuffer. -/
structure GopMode where
  frameBufferBase : Addr
  horizontalResolution : BitVec 32
  verticalResolution : BitVec 32
  pixelsPerScanLine : BitVec 32

/-- What the firmware answers to the calls of `efi_main`, in their order, and what it has: the
files, the mode of the screen and the keys.  `stack` is what the local `header` holds at first, and
`key` what `Key` does. -/
structure Machine where
  mem : PhysMem
  kernelFile : List (BitVec 8)
  fontFile : List (BitVec 8)
  stack : Bytes
  kernel : FileAnswers
  readHeader : ReadAnswer
  setPosition : SeekAnswer
  tablePool : Option Pool
  readTable : ReadAnswer
  segments : ℕ → SegmentAnswers
  gop : Option GopMode
  fbPool : Option Pool
  font : FontAnswers
  key : BitVec 16
  reads : List (Option (BitVec 16))
  mapPool : Option Pool

/-- The jump into the kernel: the header that was accepted, what was loaded, where the jump goes,
and the arguments of the kernel.  The memory map is `NULL` if there is no memory for it. -/
structure Jump where
  header : Bytes
  events : List LoadEvent
  entry : Addr
  lfb : Option Framebuffer
  font : Option LoadedFont
  mMap : Option Addr
  legacyBoot : BitVec 8

inductive Outcome
  | returned
  | waiting
  | reset
  | jumped (jump : Jump)

/-- The local `header` after the first `Read`. -/
def Machine.headerBytes (m : Machine) : Bytes :=
  Copy.Block.put m.stack ⟨0, m.readHeader.bytes m.kernelFile 0 (BitVec.ofNat 64 ehdrSize)⟩

end Bootloader

end KessOS
