import KessOS.Kernel.Equiv.Touch
import KessOS.Video.Equiv.Bounds
import KessOS.Vmm.Equiv.Identity

/-!
# What the kernel was handed, once paging is on

Nothing relates what `vmm_init` maps to what the kernel goes on to access: the framebuffer, the
font and the tables of the firmware stay mapped only where they happen to lie below 6 GiB, or in
the frames that hold the page tables (`startAfterPaging_mapped_iff`).
-/

namespace KessOS

/-- The bytes that `vmm_init` maps, with the page tables in `segment`. -/
def InitMaps (segment : MemDesc) (b : Addr) : Prop :=
  b.toNat < 6 * gb ∨
    (segment.physAddr.toNat ≤ b.toNat ∧
      b.toNat < segment.physAddr.toNat + pageSize * initFrames (pfn segment.physAddr))

section

variable {pml4 : Addr} {s s' : Vmm} {meminfo : MemInfo} (hpml4 : pml4.toNat % pageSize = 0)
  (haligned : (chosenSegment s meminfo).physAddr.toNat % pageSize = 0)
  (hbelow : (chosenSegment s meminfo).stop ≤ 2 ^ 48)
  (hapart : ∀ x, (chosenSegment s meminfo).Contains x → ¬ InPml4 pml4 x)
  (hrun : (vmmInit pml4 meminfo).run s = .ok () s')

include hpml4 haligned hbelow hapart hrun

/-- **Whether all that the kernel was handed stays mapped.**  Every byte that the kernel accesses
once `CR3` is loaded is mapped to itself if, and only if, the framebuffer, the font and the tables
of the firmware lie, as far as they are used, below 6 GiB or in the frames of the page tables. -/
theorem startAfterPaging_mapped_iff (k : Kernel) (rsdp : Addr) :
    (∀ a ∈ k.since (k.after (startAfterPaging s'.mem rsdp)), ∀ b, a.Touches b →
        s'.Maps b) ↔
      HandOffIn (InitMaps (chosenSegment s meminfo)) s'.mem rsdp k := by
  have hmaps : s'.Maps = InitMaps (chosenSegment s meminfo) := by
    funext b
    exact propext (vmmInit_maps_iff hpml4 haligned hbelow hapart hrun b)
  rw [← hmaps]
  exact startAfterPaging_within_iff

end

theorem first_mem_pointers {lo hi : Addr} (h : lo.toNat < hi.toNat) : lo ∈ pointers lo hi := by
  refine List.mem_map.mpr ⟨0, List.mem_range.mpr (by omega), ?_⟩
  exact BitVec.add_zero lo

/-- The first byte of the screen is cleared. -/
theorem ScreenIn.base {C : Addr → Prop} {fb : Framebuffer} (h : ScreenIn C fb)
    (hheight : 0 < fb.height.toNat) (hppsl : 0 < (fb.ppsl * 4#32).toNat)
    (hbase : fb.baseAddr.toNat < 2 ^ 48) : C fb.baseAddr := by
  have hline : fb.baseAddr + (fb.ppsl * 4#32).setWidth 64 * BitVec.ofNat 64 0 = fb.baseAddr := by
    rw [BitVec.mul_zero, BitVec.add_zero]
  have hlt : fb.baseAddr.toNat <
      (fb.baseAddr + (fb.ppsl * 4#32).setWidth 64 : Addr).toNat := by
    have hstep := (fb.ppsl * 4#32).isLt
    rw [BitVec.toNat_add, BitVec.toNat_setWidth_of_le (by decide)]
    omega
  have hfirst := (h.lines 0 hheight).2
  rw [hline] at hfirst
  have hbyte := hfirst fb.baseAddr (first_mem_pointers hlt) 0 (by decide)
  rwa [BitVec.add_zero] at hbyte

/-! ### A machine of 20 MiB -/

/-- A framebuffer at 32 GiB. -/
def highScreen : Framebuffer := { smallScreen with baseAddr := 0x800000000 }

/-- `vmm_init` completes on the machine with little memory. -/
theorem vmmInit_lowMachine :
    ∃ s', (vmmInit 0x200000#64 oneSegmentInfo).run lowMachine = .ok () s' := by
  have hinit : initPages ≤ initPages := le_rfl
  refine vmmInit_returns (by decide) lowMachine_aligned lowMachine_below lowMachine_apart
    hinit ?_ ?_
  · rw [chosenSegment_lowMachine, initPages_eq]
    decide
  · rw [chosenSegment_lowMachine, card_tablesBelow_init]
    decide

/-- Its hand-off is mapped if, and only if, it lies low. -/
theorem startAfterPaging_mapped_lowMachine :
    ∃ s', (vmmInit 0x200000#64 oneSegmentInfo).run lowMachine = .ok () s' ∧
      ((∀ a ∈ smallStart.since (smallStart.after (startAfterPaging s'.mem 0x1000)), ∀ b,
          a.Touches b → s'.Maps b) ↔
        HandOffIn (InitMaps (chosenSegment lowMachine oneSegmentInfo)) s'.mem 0x1000
          smallStart) := by
  obtain ⟨s', hrun⟩ := vmmInit_lowMachine
  exact ⟨s', hrun, startAfterPaging_mapped_iff (by decide) lowMachine_aligned lowMachine_below
    lowMachine_apart hrun smallStart 0x1000⟩

/-- `clearScreen` faults on the framebuffer at 32 GiB. -/
theorem startAfterPaging_unmapped_high :
    ∃ s', (vmmInit 0x200000#64 oneSegmentInfo).run lowMachine = .ok () s' ∧
      ¬ ∀ a ∈ (Kernel.start highScreen plainFont).since
          ((Kernel.start highScreen plainFont).after (startAfterPaging s'.mem 0x1000)), ∀ b,
        a.Touches b → s'.Maps b := by
  obtain ⟨s', hrun⟩ := vmmInit_lowMachine
  refine ⟨s', hrun, fun hmapped => ?_⟩
  have hscreen : ScreenIn s'.Maps highScreen := (startAfterPaging_within_iff.mp hmapped).screen
  have hfirst := hscreen.base (by decide) (by decide) (by decide)
  have hframes := initFrames_le (by decide) lowMachine_aligned lowMachine_below
    lowMachine_apart hrun
  rw [vmmInit_maps_iff (by decide) lowMachine_aligned lowMachine_below lowMachine_apart hrun]
    at hfirst
  have hbase : highScreen.baseAddr.toNat = 0x800000000 := rfl
  have hphys : (0x400000#64).toNat = 0x400000 := rfl
  have hpages : (4096#64).toNat = 4096 := rfl
  rw [chosenSegment_lowMachine] at hframes hfirst
  simp only [hbase, hphys, hpages] at hframes hfirst
  unfold gb pageSize at hfirst
  omega

end KessOS
