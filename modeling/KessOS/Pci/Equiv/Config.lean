import KessOS.Pci.Config
import Mathlib.Tactic.IntervalCases

/-!
# The fields that the PCI accessors return

`pci_read_word` reads the right dword, and its lower half is the word at an even offset.  For the
upper half it shifts the dword by 4 bits instead of 16 (`pciReadWord_run`), so the accessors that
use upper halves are right exactly for configuration spaces in which these bits agree
(`pci_readsFields_iff`).
-/

namespace KessOS

variable {bus slot func : BitVec 8}

/-! ### The address -/

/-- The bits of a number below `2 ^ n` are clear from `n` on. -/
theorem getLsbD_eq_false_of_lt {w n i : ℕ} {x : BitVec w} (h : x.toNat < 2 ^ n) (hi : n ≤ i) :
    x.getLsbD i = false :=
  Nat.testBit_lt_two_pow (h.trans_le (Nat.pow_le_pow_right Nat.two_pos hi))

theorem configAddress_enable (offset : BitVec 8) :
    (configAddress bus slot func offset).getLsbD 31 = true := by
  simp [configAddress]

theorem configAddress_offset (offset : BitVec 8) :
    (configAddress bus slot func offset).extractLsb' 2 6 = offset.extractLsb' 2 6 := by
  apply BitVec.eq_of_getLsbD_eq
  intro i hi
  interval_cases i <;> simp [configAddress]

theorem configAddress_func (offset : BitVec 8) :
    (configAddress bus slot func offset).extractLsb' 8 3 = func.setWidth 3 := by
  apply BitVec.eq_of_getLsbD_eq
  intro i hi
  interval_cases i <;> simp [configAddress]

section Address

variable (hslot : slot.toNat < 32) (hfunc : func.toNat < 8) (offset : BitVec 8)

include hfunc

theorem configAddress_slot :
    (configAddress bus slot func offset).extractLsb' 11 5 = slot.setWidth 5 := by
  apply BitVec.eq_of_getLsbD_eq
  intro i hi
  have hf : func.getLsbD (i + 3) = false := getLsbD_eq_false_of_lt (n := 3) hfunc (by omega)
  interval_cases i <;> simp_all [configAddress]

include hslot

theorem configAddress_bus : (configAddress bus slot func offset).extractLsb' 16 8 = bus := by
  apply BitVec.eq_of_getLsbD_eq
  intro i hi
  have hs : slot.getLsbD (i + 5) = false := getLsbD_eq_false_of_lt (n := 5) hslot (by omega)
  have hf : func.getLsbD (i + 8) = false := getLsbD_eq_false_of_lt (n := 3) hfunc (by omega)
  interval_cases i <;> simp_all [configAddress]

end Address

/-! ### The word reader -/

/-- The configuration space of one function. -/
def Pci.functionSpace (io : Pci) (bus slot func : BitVec 8) : Bytes :=
  io.space bus (slot.setWidth 5) (func.setWidth 3)

/-- The state after an access at `offset`. -/
def Pci.selecting (io : Pci) (bus slot func offset : BitVec 8) : Pci :=
  { io with latch := configAddress bus slot func offset }

/-- The offset of the dword that `offset` lies in. -/
def dwordOffset (offset : BitVec 8) : ℕ := 4 * (offset.extractLsb' 2 6).toNat

/-- The number of bits that `pci_read_word` shifts by. -/
def halfShift (offset : BitVec 8) : ℕ := if offset.getLsbD 1 then 4 else 0

theorem halfShift_eq (offset : BitVec 8) :
    ((offset.setWidth 32 &&& 2#32) * 2#32).toNat = halfShift offset := by
  have htwo : 2#32 = BitVec.twoPow 32 1 := rfl
  have hbit : (offset.setWidth 32).getLsbD 1 = offset.getLsbD 1 := by simp
  rw [halfShift, htwo, BitVec.and_twoPow, hbit]
  split_ifs
  · rfl
  · rfl

theorem shifted_eq (x : BitVec 32) (offset : BitVec 8) :
    ((x >>> ((offset.setWidth 32 &&& 2#32) * 2#32)) &&& 0xFFFF#32).setWidth 16 =
      x.extractLsb' (halfShift offset) 16 := by
  have hmask : ∀ i : Fin 16, (0xFFFF#32).getLsbD i = true := by decide
  rw [BitVec.ushiftRight_eq', halfShift_eq]
  apply BitVec.eq_of_getLsbD_eq
  intro i hi
  simp only [BitVec.getLsbD_setWidth, BitVec.getLsbD_and, hmask ⟨i, hi⟩, BitVec.getLsbD_ushiftRight,
    BitVec.getLsbD_extractLsb', Bool.and_true]

section Reader

variable (hslot : slot.toNat < 32) (hfunc : func.toNat < 8) (offset : BitVec 8) (io : Pci)

include hslot hfunc

theorem selecting_selected : (io.selecting bus slot func offset).selected =
    (io.functionSpace bus slot func).u32 (dwordOffset offset) := by
  rw [Pci.selected, Pci.selecting, if_pos (configAddress_enable offset),
    configAddress_bus hslot hfunc, configAddress_slot hfunc, configAddress_func,
    configAddress_offset, Pci.functionSpace, dwordOffset]

/-- `pci_read_word` shifts by 4 bits for the upper half of a dword. -/
theorem pciReadWord_run : (pciReadWord bus slot func offset).run io =
    (((io.functionSpace bus slot func).u32 (dwordOffset offset)).extractLsb'
      (halfShift offset) 16, io.selecting bus slot func offset) := by
  rw [← selecting_selected hslot hfunc, ← shifted_eq]
  rfl

end Reader

/-! ### The accessors -/

/-- Bits 4 to 19 of the dword at `i` are its upper half, so a shift by 4 does what one by 16
would. -/
def MiddleIsUpper (b : Bytes) (i : ℕ) : Prop := (b.u32 i).extractLsb' 4 16 = b.u16 (i + 2)

instance (b : Bytes) (i : ℕ) : Decidable (MiddleIsUpper b i) :=
  inferInstanceAs (Decidable (_ = _))

/-- A word is right if its bytes are. -/
theorem middleIsUpper_iff (b : Bytes) (i : ℕ) : MiddleIsUpper b i ↔
    (b.u32 i).extractLsb' 4 8 = b (i + 2) ∧ (b.u32 i).extractLsb' 12 8 = b (i + 3) := by
  have hhalves : (b.u32 i).extractLsb' 4 16 =
      (b.u32 i).extractLsb' 12 8 ++ (b.u32 i).extractLsb' 4 8 := by
    apply BitVec.eq_of_getLsbD_eq
    intro k hk
    simp only [BitVec.getLsbD_extractLsb', BitVec.getLsbD_append, hk, decide_true, Bool.true_and]
    split_ifs with hlow
    · simp [hlow]
    · have hoff : 12 + (k - 8) = 4 + k := by omega
      simp [hoff, show k - 8 < 8 by omega]
  rw [MiddleIsUpper, hhalves, Bytes.u16, append_eq_append_iff, and_comm]

section Accessors

variable (hslot : slot.toNat < 32) (hfunc : func.toNat < 8) (io : Pci)

include hslot hfunc

theorem lowByte_run (offset : BitVec 8) : ((lowByte bus slot func offset).run io).1 =
    ((io.functionSpace bus slot func).u32 (dwordOffset offset)).extractLsb'
      (halfShift offset) 8 := by
  have hmask : ∀ i : Fin 8, (0xFF#16).getLsbD i = true := by decide
  show ((((pciReadWord bus slot func offset).run io).1 &&& 0xFF#16).setWidth 8 : BitVec 8) = _
  rw [pciReadWord_run hslot hfunc]
  apply BitVec.eq_of_getLsbD_eq
  intro i hi
  have hi' : i < 16 := by omega
  simp only [BitVec.getLsbD_setWidth, BitVec.getLsbD_and, hmask ⟨i, hi⟩, BitVec.getLsbD_extractLsb',
    hi', hi, decide_true, Bool.true_and, Bool.and_true]

theorem highByte_run (offset : BitVec 8) : ((highByte bus slot func offset).run io).1 =
    ((io.functionSpace bus slot func).u32 (dwordOffset offset)).extractLsb'
      (halfShift offset + 8) 8 := by
  show ((((pciReadWord bus slot func offset).run io).1 >>> 8).setWidth 8 : BitVec 8) = _
  rw [pciReadWord_run hslot hfunc]
  apply BitVec.eq_of_getLsbD_eq
  intro i hi
  simp [hi, show 8 + i < 16 by omega, Nat.add_assoc]

theorem barAt_run {hi lo : BitVec 8} {d : ℕ} (hhi : dwordOffset hi = d ∧ halfShift hi = 4)
    (hlo : dwordOffset lo = d ∧ halfShift lo = 0) : ((barAt bus slot func hi lo).run io).1 =
      ((io.functionSpace bus slot func).u32 d).extractLsb' 4 16 ++
        ((io.functionSpace bus slot func).u32 d).extractLsb' 0 16 := by
  show (((pciReadWord bus slot func hi).run io).1.setWidth 32 <<< 16 |||
    ((pciReadWord bus slot func lo).run ((pciReadWord bus slot func hi).run io).2).1.setWidth 32 :
      BitVec 32) = _
  rw [pciReadWord_run hslot hfunc, pciReadWord_run hslot hfunc, hhi.1, hhi.2, hlo.1, hlo.2,
    ← BitVec.setWidth_append_eq_shiftLeft_setWidth_or]
  exact BitVec.setWidth_eq _

/-- A base address register is right exactly if bits 4 to 19 are its upper half. -/
theorem barAt_eq_iff {hi lo : BitVec 8} {d : ℕ} (hhi : dwordOffset hi = d ∧ halfShift hi = 4)
    (hlo : dwordOffset lo = d ∧ halfShift lo = 0) :
    ((barAt bus slot func hi lo).run io).1 = (io.functionSpace bus slot func).u32 d ↔
      MiddleIsUpper (io.functionSpace bus slot func) d := by
  rw [barAt_run hslot hfunc io hhi hlo, Bytes.u32_low, Bytes.u32, BitVec.append_left_inj,
    ← Bytes.u32, MiddleIsUpper]

end Accessors

/-- The accessors return the fields that they are named after. -/
structure ReadsFields (io : Pci) (bus slot func : BitVec 8) : Prop where
  vendorId : ((pciGetVendorId bus slot func).run io).1 = (io.functionSpace bus slot func).u16 0x00
  deviceId : ((pciGetDeviceId bus slot func).run io).1 = (io.functionSpace bus slot func).u16 0x02
  revisionId : ((pciGetRevisionId bus slot func).run io).1 = io.functionSpace bus slot func 0x08
  progIf : ((pciGetProgIf bus slot func).run io).1 = io.functionSpace bus slot func 0x09
  subclassId : ((pciGetSubclassId bus slot func).run io).1 = io.functionSpace bus slot func 0x0A
  classid : ((pciGetClassid bus slot func).run io).1 = io.functionSpace bus slot func 0x0B
  bar0 : ((pciGetBar0 bus slot func).run io).1 = (io.functionSpace bus slot func).u32 0x10
  bar1 : ((pciGetBar1 bus slot func).run io).1 = (io.functionSpace bus slot func).u32 0x14
  bar2 : ((pciGetBar2 bus slot func).run io).1 = (io.functionSpace bus slot func).u32 0x18
  bar3 : ((pciGetBar3 bus slot func).run io).1 = (io.functionSpace bus slot func).u32 0x1C
  bar4 : ((pciGetBar4 bus slot func).run io).1 = (io.functionSpace bus slot func).u32 0x20
  bar5 : ((pciGetBar5 bus slot func).run io).1 = (io.functionSpace bus slot func).u32 0x24

/-- **What the accessors return**: the fields they name, if and only if in each of the eight
dwords they take an upper half from, bits 4 to 19 are the upper half. -/
theorem pci_readsFields_iff (hslot : slot.toNat < 32) (hfunc : func.toNat < 8) (io : Pci) :
    ReadsFields io bus slot func ↔
      ∀ d ∈ [0x00, 0x08, 0x10, 0x14, 0x18, 0x1C, 0x20, 0x24],
        MiddleIsUpper (io.functionSpace bus slot func) d := by
  have hdevice : ((pciGetDeviceId bus slot func).run io).1 =
      (io.functionSpace bus slot func).u16 0x02 ↔
        MiddleIsUpper (io.functionSpace bus slot func) 0 := by
    rw [pciGetDeviceId, pciReadWord_run hslot hfunc]
    rfl
  have hclass : (((pciGetSubclassId bus slot func).run io).1 = io.functionSpace bus slot func 0x0A ∧
      ((pciGetClassid bus slot func).run io).1 = io.functionSpace bus slot func 0x0B) ↔
        MiddleIsUpper (io.functionSpace bus slot func) 8 := by
    rw [middleIsUpper_iff, pciGetSubclassId, pciGetClassid, lowByte_run hslot hfunc,
      highByte_run hslot hfunc]
    rfl
  have hbar := fun hi lo d => @barAt_eq_iff bus slot func hslot hfunc io hi lo d
  simp only [List.forall_mem_cons, List.not_mem_nil, false_implies, implies_true, and_true]
  rw [← hdevice, ← hclass, ← hbar 0x13 0x10 0x10 (by decide) (by decide),
    ← hbar 0x16 0x14 0x14 (by decide) (by decide),
    ← hbar 0x1A 0x18 0x18 (by decide) (by decide),
    ← hbar 0x1E 0x1C 0x1C (by decide) (by decide),
    ← hbar 0x22 0x20 0x20 (by decide) (by decide),
    ← hbar 0x26 0x24 0x24 (by decide) (by decide)]
  constructor
  · intro h
    exact ⟨h.deviceId, ⟨h.subclassId, h.classid⟩, h.bar0, h.bar1, h.bar2, h.bar3, h.bar4, h.bar5⟩
  · rintro ⟨hdev, ⟨hsub, hcls⟩, h0, h1, h2, h3, h4, h5⟩
    refine ⟨?_, hdev, ?_, ?_, hsub, hcls, h0, h1, h2, h3, h4, h5⟩
    · rw [pciGetVendorId, pciReadWord_run hslot hfunc]
      exact Bytes.u32_low _ _
    · rw [pciGetRevisionId, lowByte_run hslot hfunc]
      exact Bytes.u32_byte_zero _ _
    · rw [pciGetProgIf, highByte_run hslot hfunc]
      exact Bytes.u32_byte_one _ _

/-- A host bridge 8086:1237 whose other registers are clear. -/
def hostBridge : Pci where
  space := fun _ _ _ i => [0x86#8, 0x80#8, 0x37#8, 0x12#8].getD i 0#8
  latch := 0

/-- A device 8086:8808 of class 0x080080 with two BARs, whose registers are periodic in bits 4 to
31. -/
def periodicDevice : Pci where
  space := fun _ _ _ i =>
    [0x86#8, 0x80#8, 0x08#8, 0x88#8, 0x07#8, 0x00#8, 0x10#8, 0x00#8, 0x02#8, 0x80#8, 0x00#8, 0x08#8,
      0x00#8, 0x00#8, 0x00#8, 0x00#8, 0x08#8, 0xE0#8, 0x00#8, 0x0E#8, 0x01#8, 0xC0#8, 0x00#8,
      0x0C#8].getD i 0#8
  latch := 0

theorem pci_readsFields_periodic : ReadsFields periodicDevice 0 31 7 :=
  (pci_readsFields_iff (by decide) (by decide) periodicDevice).mpr (by decide)

/-- The device id of the host bridge is 1237, but 7808 is read. -/
theorem pci_misreads_hostBridge :
    ((pciGetDeviceId 0 0 0).run hostBridge).1 = 0x7808#16 ∧
      (hostBridge.functionSpace 0 0 0).u16 0x02 = 0x1237#16 ∧ ¬ ReadsFields hostBridge 0 0 0 := by
  have hread : ((pciGetDeviceId 0 0 0).run hostBridge).1 = 0x7808#16 := by decide
  have hfield : (hostBridge.functionSpace 0 0 0).u16 0x02 = 0x1237#16 := by decide
  refine ⟨hread, hfield, fun h => ?_⟩
  have hid := h.deviceId
  rw [hread, hfield] at hid
  exact absurd hid (by decide)

end KessOS
