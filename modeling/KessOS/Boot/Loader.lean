import KessOS.Boot.Elf
import KessOS.Copy.Blocks

/-!
# The ELF loader

The part of `efi_main` that loads `kernel.elf`: it reads the ELF header, checks it, reads the
program headers into a pool buffer and copies every `PT_LOAD` segment to its physical address.

The firmware's services succeed.  `Read` delivers what the file holds from the position on, up
to the size asked for; `AllocatePool` hands out a buffer with arbitrary contents, on pages that
no `AllocatePages` hands out again; `AllocatePages` at a given address records the request and
changes no byte of memory.  Physical addresses are natural numbers: a segment that a successful
allocation covers does not wrap around.
-/

namespace KessOS

/-- The arguments of an `AllocatePages` call with `AllocateAddress`. -/
structure PageRequest where
  segment : ℕ
  pages : ℕ
deriving DecidableEq, Repr

/-- The page of `a` is one of the pages requested. -/
def PageRequest.Covers (r : PageRequest) (a : ℕ) : Prop :=
  r.segment / 0x1000 ≤ a / 0x1000 ∧ a / 0x1000 < r.segment / 0x1000 + r.pages

instance (r : PageRequest) (a : ℕ) : Decidable (r.Covers a) :=
  inferInstanceAs (Decidable (_ ∧ _))

/-- The position in the open file, the locals of `efi_main`, physical memory, the pages
requested, and the offsets in `progHeaders` of the headers the loop looked at. -/
structure Loader where
  position : ℕ
  header : Bytes
  progHeaders : Bytes
  mem : ℕ → BitVec 8
  requests : List PageRequest
  visited : List ℕ

/-- Why the kernel is not loaded. -/
inductive LoadError
  | headerBad
  | outOfFuel
deriving DecidableEq, Repr

abbrev LoaderM := EStateM LoadError Loader

/-- The kernel's file is open and nothing is read yet. -/
def opened (header progHeaders : Bytes) (mem : ℕ → BitVec 8) : Loader where
  position := 0
  header := header
  progHeaders := progHeaders
  mem := mem
  requests := []
  visited := []

/-- `kernel->SetPosition`. -/
def setPosition (position : BitVec 64) : LoaderM Unit :=
  modify fun l => { l with position := position.toNat }

/-- `kernel->Read`: the bytes that go to the caller's buffer. -/
def readFile (file : List (BitVec 8)) (size : BitVec 64) : LoaderM (List (BitVec 8)) :=
  modifyGet fun l =>
    let bytes := (file.drop l.position).take size.toNat
    (bytes, { l with position := l.position + bytes.length })

/-- `AllocatePages` with `AllocateAddress`. -/
def allocatePages (pages : BitVec 64) (segment : BitVec 64) : LoaderM Unit :=
  modify fun l => { l with requests := l.requests ++ [⟨segment.toNat, pages.toNat⟩] }

/-- `int pages`. -/
def pagesFor (phdr : Elf64Phdr) : BitVec 32 :=
  ((phdr.pMemsz + 0x1000#64 - 1#64) / 0x1000#64).setWidth 32

/-- What the loop does with a `PT_LOAD` header. -/
def loadSegment (file : List (BitVec 8)) (phdr : Elf64Phdr) : LoaderM Unit := do
  allocatePages ((pagesFor phdr).signExtend 64) phdr.pPaddr
  setPosition phdr.pOffset
  let bytes ← readFile file phdr.pFilesz
  modify fun l => { l with mem := Copy.Block.put l.mem ⟨phdr.pPaddr.toNat, bytes⟩ }

/-- `header.e_phnum * header.e_phentsize`, an `int`. -/
def tableSize (header : Elf64Ehdr) : BitVec 32 :=
  header.ePhnum.setWidth 32 * header.ePhentsize.setWidth 32

/-- The header that the loop sees at the offset `off` of `progHeaders`. -/
def Loader.phdrAt (l : Loader) (off : ℕ) : Elf64Phdr :=
  Elf64Phdr.ofBytes (l.progHeaders.from off)

/-- The body of the loop, with `phdr` at the offset `off` of `progHeaders`. -/
def loadHeader (file : List (BitVec 8)) (off : ℕ) : LoaderM Unit := do
  modify fun l => { l with visited := l.visited ++ [off] }
  let phdr := (← get).phdrAt off
  if phdr.pType = ptLoad then loadSegment file phdr

/-- The loop over the program headers, from the offset `off` on. -/
def loadSegments (file : List (BitVec 8)) (header : Elf64Ehdr) : (fuel off : ℕ) → LoaderM Unit
  | 0, _ => throw .outOfFuel
  | fuel + 1, off =>
    if (off : ℤ) < (tableSize header).toInt then do
      loadHeader file off
      loadSegments file header fuel (off + header.ePhentsize.toNat)
    else pure ()

/-- The first `Read`, into the local `header`. -/
def readHeader (file : List (BitVec 8)) : LoaderM Elf64Ehdr := do
  let bytes ← readFile file (BitVec.ofNat 64 ehdrSize)
  modify fun l => { l with header := Copy.Block.put l.header ⟨0, bytes⟩ }
  return Elf64Ehdr.ofBytes (← get).header

/-- The second `Read`, of `progHeaderSize` bytes into `progHeaders`. -/
def readProgHeaders (file : List (BitVec 8)) (header : Elf64Ehdr) : LoaderM Unit := do
  setPosition header.ePhoff
  let bytes ← readFile file ((tableSize header).signExtend 64)
  modify fun l => { l with progHeaders := Copy.Block.put l.progHeaders ⟨0, bytes⟩ }

/-- `efi_main` from the first `Read` to the end of the loop. -/
def loadKernel (file : List (BitVec 8)) : LoaderM Unit := do
  let header ← readHeader file
  if headerBad header then throw .headerBad
  else do
    readProgHeaders file header
    loadSegments file header (header.ePhnum.toNat + 1) 0

/-! ### What the file describes -/

def byteOf (file : List (BitVec 8)) (k : ℕ) : BitVec 8 := file.getD k 0#8

/-- The ELF header of the file. -/
def fileHeader (file : List (BitVec 8)) : Elf64Ehdr := Elf64Ehdr.ofBytes (byteOf file)

/-- The program header table of the file, in a pool buffer that held `pool`. -/
def tableBytes (file : List (BitVec 8)) (pool : Bytes) : Bytes := fun k =>
  let header := fileHeader file
  if k < header.ePhnum.toNat * header.ePhentsize.toNat
  then byteOf file (header.ePhoff.toNat + k)
  else pool k

/-- Program header `i`: the bytes of an `Elf64_Phdr` from its place in the table on. -/
def programHeader (file : List (BitVec 8)) (pool : Bytes) (i : ℕ) : Elf64Phdr :=
  Elf64Phdr.ofBytes ((tableBytes file pool).from (i * (fileHeader file).ePhentsize.toNat))

/-- The `PT_LOAD` headers, in table order. -/
def loadHeaders (file : List (BitVec 8)) (pool : Bytes) : List Elf64Phdr :=
  ((List.range (fileHeader file).ePhnum.toNat).map (programHeader file pool)).filter
    fun phdr => phdr.pType = ptLoad

/-- The memory range of a segment. -/
def Elf64Phdr.memory (phdr : Elf64Phdr) : Set ℕ :=
  Set.Ico phdr.pPaddr.toNat (phdr.pPaddr.toNat + phdr.pMemsz.toNat)

/-- A program header lies in the file when the entries are not shorter than an `Elf64_Phdr`. -/
theorem programHeader_of_le (file : List (BitVec 8)) (pool : Bytes) {i : ℕ}
    (hsize : phdrSize ≤ (fileHeader file).ePhentsize.toNat)
    (hi : i < (fileHeader file).ePhnum.toNat) :
    programHeader file pool i = Elf64Phdr.ofBytes fun k => byteOf file
      ((fileHeader file).ePhoff.toNat + i * (fileHeader file).ePhentsize.toNat + k) := by
  refine Elf64Phdr.ofBytes_congr fun k hk => ?_
  have hend := Nat.mul_le_mul_right (fileHeader file).ePhentsize.toNat (Nat.succ_le_of_lt hi)
  rw [Nat.succ_mul] at hend
  simp only [Bytes.from, tableBytes]
  rw [if_pos (by omega), Nat.add_assoc]

end KessOS
