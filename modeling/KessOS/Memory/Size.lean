import KessOS.Memory.Map

/-!
# The size of the memory map

`getMemSize` of `arch/memory/impl/memory.c`.  Its counter is an `int`, which has no value after
the greatest one; the address of a descriptor adds the counter to the stride.
-/

namespace KessOS

/-- Why the sum has no value. -/
inductive SizeError
  | overflow
  | outOfFuel
deriving DecidableEq, Repr

/-- The sum so far, and the addresses of the `nPages` that were read. -/
structure MemSize where
  memSizeBytes : BitVec 64
  reads : List Addr
deriving DecidableEq, Repr

abbrev SizeM := EStateM SizeError MemSize

/-- `INT_MAX`. -/
def intMax : BitVec 32 := 0x7FFFFFFF

/-- `desc->nPages`, eight bytes at offset 24 of a `memdesc_t`. -/
def nPagesAddr (desc : Addr) : Addr := desc + 24

/-- `memSizeBytes += desc->nPages * 4096`. -/
def addDesc (mem : PhysMem) (desc : Addr) : SizeM Unit := modify fun s =>
  { memSizeBytes := s.memSizeBytes + (loadMemDesc mem desc).nPages * 4096
    reads := s.reads ++ [nPagesAddr desc] }

/-- The loop of `getMemSize` from `entry` on. -/
def getMemSizeFrom (mem : PhysMem) (mMap : Addr) (mEntryCount mDescSize : BitVec 64) :
    (fuel : ℕ) → (entry : BitVec 32) → SizeM Unit
  | 0, _ => throw .outOfFuel
  | fuel + 1, entry =>
    if entry.signExtend 64 < mEntryCount then do
      let desc := mMap + (entry.signExtend 64 + mDescSize)
      addDesc mem desc
      if entry = intMax then throw .overflow
      else getMemSizeFrom mem mMap mEntryCount mDescSize fuel (entry + 1)
    else pure ()

/-- `getMemSize`. -/
def getMemSize (mem : PhysMem) (mMap : Addr) (mEntryCount mDescSize : BitVec 64) :
    SizeM (BitVec 64) := do
  getMemSizeFrom mem mMap mEntryCount mDescSize (mEntryCount.toNat + 1) 0
  return (← get).memSizeBytes

end KessOS
