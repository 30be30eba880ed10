import KessOS.Memory.Map
import KessOS.Trace.Basic

/-!
# The virtual memory manager

`arch/memory/impl/vmm.c`: the bump allocator, `map_page` with its recursion, `unmap_page` and
`vmm_init`.  The globals of the file are the fields of `Vmm`; the static `pml4` is the page at
the address `pml4`, a parameter that the linker fixes, inside the physical memory `mem`.

The trace records what the code does to memory, oldest event first: `read`, `write`, `writeByte`
and `invlpg` are the accesses themselves, `alloc` marks a frame that `internel_alloc_page` hands
out.

`FULL_HALT` is an error that keeps the state in which the machine stopped.  The recursion of
`map_page` is bounded by fuel; `mapPage` gives it one more than the number of free frames, which
it never uses up (`mapPage_error`).  The calls of `log` only draw on the screen and are
left out.
-/

namespace KessOS

/-- What the memory manager does to memory. -/
inductive Event
  | alloc (frame : Addr)
  | read (table : Addr) (idx : Fin 512)
  | write (table : Addr) (idx : Fin 512) (entry : Entry)
  | writeByte (addr : Addr) (byte : BitVec 8)
  | invlpg (addr : Addr)
deriving DecidableEq, Repr

/-- The effect of an event on physical memory. -/
def Event.act : Event → PhysMem → PhysMem
  | .write table idx entry, m => Radix.store m (pfn table) idx entry
  | .writeByte addr byte, m => storeByte m addr byte
  | _, m => m

/-- Why the machine stopped. -/
inductive Stop
  | outOfMemory
  | noUsableMemory
  | outOfFuel
deriving DecidableEq, Repr

/-- Physical memory, the globals of `vmm.c`, `CR3` once it is loaded, and the trace. -/
structure Vmm where
  mem : PhysMem
  biggestSegment : MemDesc
  placement : Addr
  segmentUsable : BitVec 64
  cr3 : Option Addr
  trace : List Event

/-- A byte is present, and mapped to itself. -/
def Identity (m : PhysMem) (pml4 b : Addr) : Prop :=
  ∃ t, walk m pml4 b = some t ∧ t.page = pageStart b

/-- So it is in the page tables that are loaded. -/
def Vmm.Maps (s : Vmm) (b : Addr) : Prop := ∃ root, s.cr3 = some root ∧ Identity s.mem root b

abbrev VmmM := EStateM Stop Vmm

/-- The statics of `vmm.c` as they are initialised, with the memory `m`. -/
def bootState (m : PhysMem) : Vmm where
  mem := m
  biggestSegment := ⟨0, 0, 0, 0, 0⟩
  placement := 0xDEADBEEF#64
  segmentUsable := 0x0#64
  cr3 := none
  trace := []

/-- The state after `ev`. -/
def Vmm.record (s : Vmm) (ev : Event) : Vmm :=
  { s with mem := ev.act s.mem, trace := s.trace ++ [ev] }

def perform (ev : Event) : VmmM Unit := modify fun s => s.record ev

/-- `table->entries[idx]`. -/
def loadEntry (table : Addr) (idx : Fin 512) : VmmM Entry := do
  perform (.read table idx)
  return (← get).mem (pfn table) idx

/-- `table->entries[idx] = entry`. -/
def storeEntry (table : Addr) (idx : Fin 512) (entry : Entry) : VmmM Unit :=
  perform (.write table idx entry)

/-- `memzero`. -/
def memzero (addr : Addr) (n : ℕ) : VmmM Unit :=
  (List.range n).forM fun i => perform (.writeByte (addr + BitVec.ofNat 64 i) 0)

/-- The flags are `unsigned int`. -/
def pageBitPPresentFlag : BitVec 32 := 1#32 <<< 0
def pageBitRwWritableFlag : BitVec 32 := 1#32 <<< 1
def pageBitUsUserFlag : BitVec 32 := 1#32 <<< 2

/-! ### The allocator -/

/-- The loop of `set_alloc_base` over the descriptors. -/
def biggestOf (start : MemDesc) (descs : List MemDesc) : MemDesc :=
  descs.foldl (fun biggest cur =>
    if cur.nPages > biggest.nPages ∧ cur.type = mmapUsableMemory then cur else biggest) start

/-- `set_alloc_base`.  Only `nPages` of the old `biggestSegment` is reset. -/
def setAllocBase (meminfo : MemInfo) : VmmM Unit := modify fun s =>
  let biggest := biggestOf { s.biggestSegment with nPages := 0 } (memoryMap s.mem meminfo)
  { s with
    biggestSegment := biggest
    placement := biggest.physAddr
    segmentUsable := biggest.nPages }

/-- `internel_alloc_page`. -/
def internelAllocPage : VmmM Addr := do
  let s ← get
  if s.segmentUsable ≤ 0 then throw .outOfMemory
  let ret := s.placement
  set { s with
    segmentUsable := s.segmentUsable - 1
    placement := s.placement + BitVec.ofNat 64 pageSize }
  perform (.alloc ret)
  return ret

/-! ### Mapping -/

/-- One level of `map_page`: link a fresh table into `table->entries[idx]` if there is none, map
it to itself with `mapPage`, and return the table that the entry points to. -/
def ensureTable (mapPage : Addr → BitVec 32 → VmmM Unit) (table : Addr) (idx : Fin 512)
    (flags : BitVec 32) : VmmM Addr := do
  if !present (← loadEntry table idx) then
    let fresh ← internelAllocPage
    memzero fresh pageSize
    storeEntry table idx (entryFor fresh flags)
    mapPage fresh flags
  return target (← loadEntry table idx)

variable (pml4 : Addr)

/-- `map_page`, nested at most `fuel` deep. -/
def mapPageNested : ℕ → Addr → BitVec 32 → VmmM Unit
  | 0, _, _ => throw .outOfFuel
  | fuel + 1, logical, flags => do
    let addr := logical
    let flags := flags ||| pageBitPPresentFlag
    let pml4Idx := tableIdx addr 39
    let pdptIdx := tableIdx addr 30
    let pdIdx := tableIdx addr 21
    let ptIdx := tableIdx addr 12
    let pdpt ← ensureTable (mapPageNested fuel) pml4 pml4Idx flags
    let pdt ← ensureTable (mapPageNested fuel) pdpt pdptIdx flags
    let pt ← ensureTable (mapPageNested fuel) pdt pdIdx flags
    if !present (← loadEntry pt ptIdx) then
      storeEntry pt ptIdx (entryFor addr flags)

/-- `map_page`: every nested call has taken a frame, so the free frames bound the nesting. -/
def mapPage (logical : Addr) (flags : BitVec 32) : VmmM Unit := do
  mapPageNested pml4 ((← get).segmentUsable.toNat + 1) logical flags

/-! ### Unmapping -/

/-- `flush_tlb`. -/
def flushTlb (addr : Addr) : VmmM Unit := perform (.invlpg addr)

/-- `unmap_page`. -/
def unmapPage (logical : Addr) : VmmM (BitVec 8) := do
  let addr := logical
  if addr % 0x1000 ≠ 0 then return 0
  let pml4Idx := tableIdx addr 39
  let pdptIdx := tableIdx addr 30
  let pdIdx := tableIdx addr 21
  let ptIdx := tableIdx addr 12
  let pdpt := target (← loadEntry pml4 pml4Idx)
  let pdt := target (← loadEntry pdpt pdptIdx)
  let pt := target (← loadEntry pdt pdIdx)
  if present (← loadEntry pt ptIdx) then
    storeEntry pt ptIdx ((addr &&& pageAddrMask) &&& ~~~pageBitPPresent)
    flushTlb logical
  return 1

/-! ### Initialisation -/

/-- `GB` of `vmm.c`. -/
def gb : ℕ := 0x40000000

/-- `load_pml4`: the processor walks from `addr` from now on. -/
def loadPml4 (addr : Addr) : VmmM Unit := modify fun s => { s with cr3 := some addr }

/-- The addresses of the loop of `vmm_init`: from 0 to `GB*6` in steps of 4096. -/
def initAddrs : List Addr :=
  (List.range (gb * 6 / 4096)).map fun i => BitVec.ofNat 64 (i * 4096)

/-- `vmm_init`. -/
def vmmInit (meminfo : MemInfo) : VmmM Unit := do
  setAllocBase meminfo
  if (← get).placement = 0xDEADBEEF#64 then throw .noUsableMemory
  memzero pml4 pageSize
  initAddrs.forM fun addr => mapPage pml4 addr (pageBitRwWritableFlag ||| pageBitPPresentFlag)
  loadPml4 pml4

end KessOS
