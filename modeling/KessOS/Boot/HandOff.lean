import KessOS.Memory.Map

/-!
# The hand-off to the kernel

The last part of `efi_main`: it sizes the memory map, allocates a buffer for it, gets the map,
leaves the boot services and calls the kernel.  The other party is the firmware, which owns the map
and its key; `Uefi` is any behaviour of it.  The statuses of the calls are returned and, as in the
source, dropped.
-/

namespace KessOS

/-- The memory map that the firmware currently has, and its key. -/
structure Firmware where
  descriptorSize : BitVec 64
  map : List (List (BitVec 8))
  key : BitVec 64
  sized : ∀ d ∈ map, d.length = descriptorSize.toNat
  fits : map.flatten.length < 2 ^ 64

namespace Firmware

/-- The map as it is laid out in a buffer. -/
def bytes (fw : Firmware) : List (BitVec 8) := fw.map.flatten

/-- The size of the map. -/
def size (fw : Firmware) : BitVec 64 := BitVec.ofNat 64 fw.bytes.length

theorem size_toNat (fw : Firmware) : fw.size.toNat = fw.bytes.length :=
  Nat.mod_eq_of_lt fw.fits

end Firmware

/-- What is up to the firmware: where `AllocatePool` finds its buffer and what the map is
afterwards, and whether `ExitBootServices` accepts a current key. -/
structure Uefi where
  allocatePool : Firmware → BitVec 64 → Addr × Firmware
  exitBootServices : Firmware → Bool
  buffer_ne : ∀ fw size, (allocatePool fw size).1 ≠ 0
  key_ne : ∀ fw size, (allocatePool fw size).2.key ≠ fw.key

/-- `EFI_STATUS`, as far as these calls return it. -/
inductive EfiStatus
  | success
  | invalidParameter
  | bufferTooSmall
deriving DecidableEq, Repr

/-- The firmware, physical memory, the locals of `efi_main`, and what has happened: the buffers
allocated with their sizes, the pointers that maps were written through with their sizes, and
whether the boot services were left. -/
structure HandOff where
  firmware : Firmware
  mem : PhysMem
  map : Addr
  mapSize : BitVec 64
  mapKey : BitVec 64
  descriptorSize : BitVec 64
  buffers : List (Addr × BitVec 64)
  writes : List (Addr × BitVec 64)
  exited : Bool

abbrev HandOffM := StateM HandOff

/-- `GetMemoryMap(&mapSize, map, &mapKey, &descriptorSize, …)`. -/
def getMemoryMap : HandOffM EfiStatus := do
  let s ← get
  if s.mapSize < s.firmware.size then
    set { s with
      mapSize := s.firmware.size
      descriptorSize := s.firmware.descriptorSize }
    return .bufferTooSmall
  set { s with
    mem := storeBytes s.mem s.map s.firmware.bytes
    writes := s.writes ++ [(s.map, s.firmware.size)]
    mapSize := s.firmware.size
    mapKey := s.firmware.key
    descriptorSize := s.firmware.descriptorSize }
  return .success

variable (uefi : Uefi)

/-- `AllocatePool(EfiLoaderData, mapSize, (void**)&map)`. -/
def allocatePool : HandOffM EfiStatus := do
  let s ← get
  let (buffer, firmware) := uefi.allocatePool s.firmware s.mapSize
  set { s with
    firmware := firmware
    map := buffer
    buffers := s.buffers ++ [(buffer, s.mapSize)] }
  return .success

/-- `ExitBootServices(imageHandle, mapKey)`. -/
def exitBootServices : HandOffM EfiStatus := do
  let s ← get
  if s.mapKey = s.firmware.key ∧ uefi.exitBootServices s.firmware = true then
    set { s with exited := true }
    return .success
  return .invalidParameter

/-- `efi_main` from the declaration of `map` on; the `meminfo_t` that `kernel_entry` is called
with, if it is called. -/
def handOff (font : Addr) : HandOffM (Option MemInfo) := do
  modify fun s => { s with map := 0 }
  let _ ← getMemoryMap
  let _ ← allocatePool uefi
  let _ ← getMemoryMap
  let s ← get
  let memInfo : MemInfo := ⟨s.map, s.mapSize, s.descriptorSize⟩
  if font ≠ 0 then
    let _ ← exitBootServices uefi
    return some memInfo
  return none

/-- The state before that: nothing has happened yet, and the locals hold what the stack holds. -/
def HandOff.start (firmware : Firmware) (mem : PhysMem)
    (map : Addr) (mapSize mapKey descriptorSize : BitVec 64) : HandOff where
  firmware := firmware
  mem := mem
  map := map
  mapSize := mapSize
  mapKey := mapKey
  descriptorSize := descriptorSize
  buffers := []
  writes := []
  exited := false

end KessOS
