import KessOS.Memory.Bytes

/-!
# The PCI configuration space

`arch/pci/impl/pci.c` over configuration mechanism #1: a dword written to `CONFIG_ADDR` selects a
dword of the configuration space of a function, which `CONFIG_DATA` then reads.
-/

namespace KessOS

/-- The configuration space of every function: by bus, slot and function, its bytes. -/
abbrev ConfigSpace := BitVec 8 → BitVec 5 → BitVec 3 → Bytes

/-- The configuration spaces, and the dword last written to `CONFIG_ADDR`. -/
structure Pci where
  space : ConfigSpace
  latch : BitVec 32

abbrev PciM := StateM Pci

def configAddr : BitVec 16 := 0xCF8#16
def configData : BitVec 16 := 0xCFC#16

/-- The dword that the latch selects; without its enable bit, no device answers. -/
def Pci.selected (io : Pci) : BitVec 32 :=
  if io.latch.getLsbD 31 then
    (io.space (io.latch.extractLsb' 16 8) (io.latch.extractLsb' 11 5)
      (io.latch.extractLsb' 8 3)).u32 (4 * (io.latch.extractLsb' 2 6).toNat)
  else 0xFFFFFFFF#32

/-- `outportl`. -/
def outportl (port : BitVec 16) (data : BitVec 32) : PciM Unit :=
  modify fun io => if port = configAddr then { io with latch := data } else io

/-- `inportl`. -/
def inportl (port : BitVec 16) : PciM (BitVec 32) := do
  let io ← get
  return if port = configData then io.selected else 0xFFFFFFFF#32

/-- The dword that `pci_read_word` writes to `CONFIG_ADDR`. -/
def configAddress (bus slot func offset : BitVec 8) : BitVec 32 :=
  let lbus := bus.setWidth 32
  let lslot := slot.setWidth 32
  let lfunc := func.setWidth 32
  (lbus <<< 16) ||| (lslot <<< 11) ||| (lfunc <<< 8) ||| (offset.setWidth 32 &&& 0xFC#32) |||
    0x80000000#32

/-- `pci_read_word`. -/
def pciReadWord (bus slot func offset : BitVec 8) : PciM (BitVec 16) := do
  let addr := configAddress bus slot func offset
  outportl configAddr addr
  return (((← inportl configData) >>> ((offset.setWidth 32 &&& 2#32) * 2#32)) &&&
    0xFFFF#32).setWidth 16

variable (bus slot func : BitVec 8)

/-- `pci_get_vendor_id`. -/
def pciGetVendorId : PciM (BitVec 16) := pciReadWord bus slot func 0x0

/-- `pci_get_device_id`. -/
def pciGetDeviceId : PciM (BitVec 16) := pciReadWord bus slot func 0x2

/-- The low byte of a word. -/
def lowByte (offset : BitVec 8) : PciM (BitVec 8) := do
  return ((← pciReadWord bus slot func offset) &&& 0xFF#16).setWidth 8

/-- The high byte of a word. -/
def highByte (offset : BitVec 8) : PciM (BitVec 8) := do
  return ((← pciReadWord bus slot func offset) >>> 8).setWidth 8

/-- `pci_get_revision_id`. -/
def pciGetRevisionId : PciM (BitVec 8) := lowByte bus slot func 0x8

/-- `pci_get_prog_if`. -/
def pciGetProgIf : PciM (BitVec 8) := highByte bus slot func 0x8

/-- `pci_get_subclass_id`. -/
def pciGetSubclassId : PciM (BitVec 8) := lowByte bus slot func 0xA

/-- `pci_get_classid`. -/
def pciGetClassid : PciM (BitVec 8) := highByte bus slot func 0xA

/-- A base address register, put together from the words at `hi` and `lo`. -/
def barAt (hi lo : BitVec 8) : PciM (BitVec 32) := do
  return (← pciReadWord bus slot func hi).setWidth 32 <<< 16 |||
    (← pciReadWord bus slot func lo).setWidth 32

/-- `pci_get_bar0`. -/
def pciGetBar0 : PciM (BitVec 32) := barAt bus slot func 0x13 0x10

/-- `pci_get_bar1`. -/
def pciGetBar1 : PciM (BitVec 32) := barAt bus slot func 0x16 0x14

/-- `pci_get_bar2`. -/
def pciGetBar2 : PciM (BitVec 32) := barAt bus slot func 0x1A 0x18

/-- `pci_get_bar3`. -/
def pciGetBar3 : PciM (BitVec 32) := barAt bus slot func 0x1E 0x1C

/-- `pci_get_bar4`. -/
def pciGetBar4 : PciM (BitVec 32) := barAt bus slot func 0x22 0x20

/-- `pci_get_bar5`. -/
def pciGetBar5 : PciM (BitVec 32) := barAt bus slot func 0x26 0x24

end KessOS
