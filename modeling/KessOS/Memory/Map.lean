import KessOS.Memory.Byte

/-!
# The memory map handed over by the firmware

`memdesc_t` and `meminfo_t` of `arch/memory/memory.h` and the iterator of `memory.c`.  The map
is an array of descriptors in memory whose stride `mDescriptorSize` the firmware chooses, so a
descriptor is read out of the bytes of physical memory at the address the iterator computes.
-/

namespace KessOS

/-- `memdesc_t`. -/
structure MemDesc where
  type : BitVec 32
  physAddr : Addr
  virtAddr : Addr
  nPages : BitVec 64
  attr : BitVec 64
deriving DecidableEq, Repr

/-- `meminfo_t`. -/
structure MemInfo where
  mMap : Addr
  mSize : BitVec 64
  mDescriptorSize : BitVec 64
deriving DecidableEq, Repr

/-- `MMAP_USABLE_MEMORY`, the eighth member of `mem_type_t`. -/
def mmapUsableMemory : BitVec 32 := 7

/-- `*(memdesc_t*)a`; the compiler pads `type` to eight bytes. -/
def loadMemDesc (m : PhysMem) (a : Addr) : MemDesc where
  type := load32 m a
  physAddr := load64 m (a + 8)
  virtAddr := load64 m (a + 16)
  nPages := load64 m (a + 24)
  attr := load64 m (a + 32)

/-- `get_mmap_entries`. -/
def getMmapEntries (meminfo : MemInfo) : BitVec 64 := meminfo.mSize / meminfo.mDescriptorSize

/-- `mmap_iterator_helper`: the address of descriptor `i`. -/
def mmapIteratorHelper (i : BitVec 64) (meminfo : MemInfo) : Addr :=
  meminfo.mMap + i * meminfo.mDescriptorSize

/-- The descriptors of the map, in the order the iterator visits them. -/
def memoryMap (m : PhysMem) (meminfo : MemInfo) : List MemDesc :=
  (List.range (getMmapEntries meminfo).toNat).map fun i =>
    loadMemDesc m (mmapIteratorHelper (BitVec.ofNat 64 i) meminfo)

end KessOS
