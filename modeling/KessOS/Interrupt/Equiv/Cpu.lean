import KessOS.Interrupt.Cpu

/-!
# What `gdt_load` and `zero_iopl` leave behind
-/

namespace KessOS

variable {c c' : Cpu}

namespace Cpu

/-! ### Straight code -/

@[simp] theorem runCode_nil (c : Cpu) : c.runCode [] = some c := rfl

theorem runCode_cons (c : Cpu) (i : CpuInstr) (code : List CpuInstr) :
    c.runCode (i :: code) = (i.exec c).bind fun c' => c'.runCode code := rfl

end Cpu

/-! ### `gdt_load` -/

theorem runCode_cli (hcpl : c.cpl = 0) (code : List CpuInstr) : c.runCode (.cli :: code) =
    { c with rflags := c.rflags &&& ~~~interruptFlag : Cpu }.runCode code := by
  have hle : c.cpl ≤ c.iopl := hcpl ▸ (Nat.zero_le _ : (0 : BitVec 2).toNat ≤ c.iopl.toNat)
  rw [Cpu.runCode_cons, CpuInstr.exec, if_pos hle, Option.bind_some]

theorem runCode_lgdt (hcpl : c.cpl = 0) (table : DescriptorTable) (code : List CpuInstr) :
    c.runCode (.lgdt table :: code) = { c with gdtr := table : Cpu }.runCode code := by
  rw [Cpu.runCode_cons, CpuInstr.exec, if_pos hcpl, Option.bind_some]

theorem runCode_movRax (c : Cpu) (imm : BitVec 64) (code : List CpuInstr) :
    c.runCode (.movRax imm :: code) =
      { c with regs := Function.update c.regs .rax imm : Cpu }.runCode code := rfl

/-- The data selector is good for every segment register of the kernel. -/
theorem accepts_data (hcpl : c.cpl = 0) (hgdtr : c.gdtr = gdtPointer) (seg : SegReg) :
    c.accepts seg 0x10 = true := by
  unfold Cpu.accepts
  rw [hcpl, hgdtr]
  cases seg <;> decide

theorem runCode_movSeg (hcpl : c.cpl = 0) (hgdtr : c.gdtr = gdtPointer)
    (hrax : (c.regs .rax).setWidth 16 = 0x10) (seg : SegReg) (code : List CpuInstr) :
    c.runCode (.movSeg seg :: code) = (c.setSeg seg 0x10).runCode code := by
  rw [Cpu.runCode_cons, CpuInstr.exec]
  simp only [hrax]
  rw [if_pos (accepts_data hcpl hgdtr seg), Option.bind_some]

/-- The data segments are loaded one after the other. -/
theorem runCode_loadData (hcpl : c.cpl = 0) (hgdtr : c.gdtr = gdtPointer)
    (hrax : (c.regs .rax).setWidth 16 = 0x10) (code : List CpuInstr) :
    c.runCode (.movSeg .ds :: .movSeg .es :: .movSeg .ss :: .movSeg .fs :: .movSeg .gs :: code) =
      { c with ds := 0x10, es := 0x10, ss := 0x10, fs := 0x10, gs := 0x10 : Cpu }.runCode
        code := by
  let ds := c.setSeg .ds 0x10
  let es := ds.setSeg .es 0x10
  let ss := es.setSeg .ss 0x10
  let fs := ss.setSeg .fs 0x10
  rw [runCode_movSeg hcpl hgdtr hrax, runCode_movSeg (c := ds) hcpl hgdtr hrax,
    runCode_movSeg (c := es) hcpl hgdtr hrax, runCode_movSeg (c := ss) hcpl hgdtr hrax,
    runCode_movSeg (c := fs) hcpl hgdtr hrax]
  rfl

/-- The return address is taken off the stack, and returned to in the code segment of the
kernel. -/
theorem runCode_farReturn (hcpl : c.cpl = 0) (hgdtr : c.gdtr = gdtPointer) :
    c.runCode [.pop .rdi, .movRax 0x08, .push .rax, .push .rdi, .retfq] = some
      { c with
        regs := Function.update (Function.update c.regs .rdi (c.mem c.rsp)) .rax 0x08
        rsp := c.rsp + 8#64
        rip := c.mem c.rsp
        cs := 0x08
        mem := Function.update (Function.update c.mem c.rsp 0x08) (c.rsp - 8#64)
          (c.mem c.rsp) } := by
  have hne : c.rsp ≠ c.rsp - 8#64 := by bv_omega
  have hcode : (gdtPointer.fetch 0x08).any (Descriptor.isCode 0) = true := by decide
  have hrax : Reg.rdi ≠ Reg.rax := by decide
  have hcpl' : requested c.cs = 0 := hcpl
  simp only [Cpu.runCode_cons, CpuInstr.exec, Cpu.pop, Machine.push, Cpu.cpl, Cpu.runCode_nil,
    Option.bind_some, Option.bind_fun_some, Function.update_self, Function.update_of_ne hne,
    Function.update_of_ne hrax, BitVec.add_sub_cancel, BitVec.sub_add_cancel, hcpl', hgdtr]
  exact if_pos ⟨by decide, hcode⟩

/-- The processor behind `gdt_load`. -/
def afterGdtLoad (c : Cpu) : Cpu :=
  { c with
    regs := Function.update (Function.update c.regs .rdi (c.mem c.rsp)) .rax 0x08
    rsp := c.rsp + 8#64
    rip := c.mem c.rsp
    cs := 0x08
    ss := 0x10
    ds := 0x10
    es := 0x10
    fs := 0x10
    gs := 0x10
    gdtr := gdtPointer
    rflags := c.rflags &&& ~~~interruptFlag
    mem := Function.update (Function.update c.mem c.rsp 0x08) (c.rsp - 8#64) (c.mem c.rsp) }

theorem gdtLoad_run (hcpl : c.cpl = 0) : c.runCode gdtLoad = some (afterGdtLoad c) := by
  let cleared : Cpu := { c with rflags := c.rflags &&& ~~~interruptFlag }
  let loaded : Cpu :=
    { cleared with gdtr := gdtPointer, regs := Function.update c.regs .rax 0x10 }
  let segments : Cpu :=
    { loaded with ds := 0x10, es := 0x10, ss := 0x10, fs := 0x10, gs := 0x10 }
  have hregs : Function.update (Function.update loaded.regs .rdi (c.mem c.rsp)) .rax 0x08 =
      Function.update (Function.update c.regs .rdi (c.mem c.rsp)) .rax 0x08 := by
    funext r
    simp only [loaded, Function.update_apply]
    split_ifs <;> rfl
  calc c.runCode gdtLoad
      = loaded.runCode (.movSeg .ds :: .movSeg .es :: .movSeg .ss :: .movSeg .fs ::
          .movSeg .gs :: [.pop .rdi, .movRax 0x08, .push .rax, .push .rdi, .retfq]) := by
        rw [gdtLoad, runCode_cli hcpl, runCode_lgdt (c := cleared) hcpl, runCode_movRax]
    _ = segments.runCode [.pop .rdi, .movRax 0x08, .push .rax, .push .rdi, .retfq] :=
        runCode_loadData (c := loaded) hcpl rfl rfl _
    _ = some (afterGdtLoad c) := by
        rw [runCode_farReturn (c := segments) hcpl rfl, afterGdtLoad, ← hregs]

/-- Outside the kernel the table cannot be loaded. -/
theorem gdtLoad_fault (hcpl : c.cpl ≠ 0) : c.runCode gdtLoad = none := by
  rw [gdtLoad, Cpu.runCode_cons, CpuInstr.exec]
  split_ifs
  · rw [Option.bind_some, Cpu.runCode_cons, CpuInstr.exec]
    exact congrArg (Option.bind · _) (if_neg hcpl)
  · rfl

/-- Every segment register holds a selector that the table has the right descriptor for. -/
structure Segmented (c : Cpu) : Prop where
  cpl : c.cpl = 0
  code : (c.gdtr.fetch c.cs).any (Descriptor.isCode 0) = true
  stack : (c.gdtr.fetch c.ss).any (Descriptor.isStack 0) = true
  data : ∀ selector ∈ [c.ds, c.es, c.fs, c.gs],
    (c.gdtr.fetch selector).any (Descriptor.isData 0 selector) = true

/-- The selectors of the kernel fit its table. -/
theorem segmented_of_selectors {c : Cpu} (hgdtr : c.gdtr = gdtPointer) (hcs : c.cs = 0x08)
    (hss : c.ss = 0x10) (hdata : (c.ds, c.es, c.fs, c.gs) = (0x10, 0x10, 0x10, 0x10)) :
    Segmented c where
  cpl := by
    rw [Cpu.cpl, hcs]
    decide
  code := by
    rw [hgdtr, hcs]
    decide
  stack := by
    rw [hgdtr, hss]
    decide
  data selector hselector := by
    have hfits : (gdtPointer.fetch 0x10).any (Descriptor.isData 0 0x10) = true := by decide
    simp only [Prod.mk.injEq] at hdata
    obtain ⟨hds, hes, hfs, hgs⟩ := hdata
    have hsame : selector = 0x10 := by simpa [hds, hes, hfs, hgs] using hselector
    rw [hgdtr, hsame]
    exact hfits

theorem segmented_afterGdtLoad (c : Cpu) : Segmented (afterGdtLoad c) :=
  segmented_of_selectors rfl rfl rfl rfl

/-- **When `gdt_load` comes back**: if the kernel calls it, and only then; every segment register
then has a descriptor that fits it, interrupts are off, and apart from `RAX` and `RDI` and two
words of the stack the caller finds all as it was. -/
theorem gdtLoad_spec (c : Cpu) :
    ((c.runCode gdtLoad).isSome ↔ c.cpl = 0) ∧
    ∀ c', c.runCode gdtLoad = some c' →
      Segmented c' ∧ c'.gdtr = gdtPointer ∧ ¬ c'.Interruptible ∧
      c'.rip = c.mem c.rsp ∧ c'.rsp = c.rsp + 8#64 ∧
      (∀ r, r ≠ .rax → r ≠ .rdi → c'.regs r = c.regs r) ∧
      ∀ a, a ≠ c.rsp → a ≠ c.rsp - 8#64 → c'.mem a = c.mem a := by
  by_cases hcpl : c.cpl = 0
  · rw [gdtLoad_run hcpl]
    refine ⟨by simp [hcpl], fun c' hc' => ?_⟩
    obtain rfl := Option.some.inj hc'
    refine ⟨segmented_afterGdtLoad c, rfl, ?_, rfl, rfl, fun r hrax hrdi => ?_, fun a ha ha' => ?_⟩
    · show ¬ c.rflags &&& ~~~interruptFlag &&& interruptFlag ≠ 0
      rw [BitVec.and_assoc, BitVec.and_comm (~~~interruptFlag), BitVec.and_not_self]
      simp
    · exact (Function.update_of_ne hrax ..).trans (Function.update_of_ne hrdi ..)
    · exact (Function.update_of_ne ha' ..).trans (Function.update_of_ne ha ..)
  · rw [gdtLoad_fault hcpl]
    refine ⟨⟨fun h => ?_, fun h => absurd h hcpl⟩, fun c' hc' => ?_⟩
    · cases h
    · cases hc'

/-! ### `zero_iopl` -/

/-- The flags behind `zero_iopl`. -/
def flagsAfter (c : Cpu) : BitVec 64 :=
  c.rflags &&& ~~~c.poppedFlags &&& ~~~Cpu.resumeFlag |||
    c.rflags &&& Cpu.imageFlags &&& ~~~(1#64 <<< 12) &&& ~~~(1#64 <<< 13) &&& c.poppedFlags

/-- The processor behind `zero_iopl`. -/
def afterZeroIopl (c : Cpu) : Cpu :=
  let flags := c.rflags &&& Cpu.imageFlags &&& ~~~(1#64 <<< 12) &&& ~~~(1#64 <<< 13)
  { c with
    regs := Function.update c.regs .rax flags
    rsp := c.rsp + 8#64
    rip := c.mem c.rsp
    rflags := flagsAfter c
    mem := Function.update c.mem (c.rsp - 8#64) flags }

theorem zeroIopl_run (c : Cpu) : c.runCode zeroIopl = some (afterZeroIopl c) := by
  have hne : c.rsp ≠ c.rsp - 8#64 := by bv_omega
  simp only [zeroIopl, Cpu.runCode_cons, CpuInstr.exec, Cpu.pop, Machine.push, Option.bind_some,
    Function.update_self, Function.update_idem, Function.update_of_ne hne, BitVec.sub_add_cancel,
    Cpu.runCode_nil]
  rfl

/-- Of the flags only `IOPL` and `RF` change, and `IOPL` only for the kernel. -/
theorem getLsbD_flagsAfter (c : Cpu) (i : Fin 64) :
    (flagsAfter c).getLsbD i = (c.rflags.getLsbD i && i != 16 &&
      !((i == 12 || i == 13) && c.cpl == 0)) := by
  have hmask : ∀ i : Fin 64, Cpu.resumeFlag.getLsbD i = (i == 16) ∧
      (1#64 <<< 12).getLsbD i = (i == 12) ∧ (1#64 <<< 13).getLsbD i = (i == 13) := by decide
  -- What is popped is part of the image, without `RF`, and with `IOPL` for the kernel only.
  have hpopped : ∀ i : Fin 64, (c.poppedFlags.getLsbD i = true → Cpu.imageFlags.getLsbD i = true) ∧
      ((i == 16) = true → c.poppedFlags.getLsbD i = false) ∧
      ((i == 12 || i == 13) = true → c.poppedFlags.getLsbD i = (c.cpl == 0)) := by
    unfold Cpu.poppedFlags
    split_ifs with hcpl
    · rw [hcpl]
      decide
    all_goals
      rw [beq_eq_false_iff_ne.mpr hcpl]
      decide
  obtain ⟨hresume, h12, h13⟩ := hmask i
  obtain ⟨himage, hrf, hiopl⟩ := hpopped i
  simp only [flagsAfter, BitVec.getLsbD_or, BitVec.getLsbD_and, BitVec.getLsbD_not, hresume, h12,
    h13, i.isLt, decide_true, Bool.true_and, bne]
  generalize c.rflags.getLsbD i = flag
  generalize c.poppedFlags.getLsbD i = popped at *
  generalize Cpu.imageFlags.getLsbD i = image at *
  generalize (i == 12) = low at *
  generalize (i == 13) = high at *
  generalize (i == 16) = resume at *
  generalize (c.cpl == 0) = kernel at *
  clear hpopped hmask hresume h12 h13
  revert flag popped image low high resume kernel
  decide

theorem iopl_eq_zero :
    c.iopl = 0 ↔ c.rflags.getLsbD 12 = false ∧ c.rflags.getLsbD 13 = false := by
  have hbits : ∀ x : BitVec 2, x = 0 ↔ x.getLsbD 0 = false ∧ x.getLsbD 1 = false := by decide
  rw [Cpu.iopl, hbits, BitVec.getLsbD_extractLsb', BitVec.getLsbD_extractLsb']
  simp

theorem iopl_afterZeroIopl (c : Cpu) :
    (afterZeroIopl c).iopl = 0 ↔ c.cpl = 0 ∨ c.iopl = 0 := by
  have hlow : (flagsAfter c).getLsbD 12 = (c.rflags.getLsbD 12 && !(c.cpl == 0)) := by
    have hbit := getLsbD_flagsAfter c 12
    simpa using hbit
  have hhigh : (flagsAfter c).getLsbD 13 = (c.rflags.getLsbD 13 && !(c.cpl == 0)) := by
    have hbit := getLsbD_flagsAfter c 13
    simpa using hbit
  rw [iopl_eq_zero, iopl_eq_zero]
  show (flagsAfter c).getLsbD 12 = false ∧ (flagsAfter c).getLsbD 13 = false ↔ _
  rw [hlow, hhigh]
  by_cases hcpl : c.cpl = 0
  · simp [hcpl]
  · rw [beq_eq_false_iff_ne.mpr hcpl, Bool.not_false, Bool.and_true, Bool.and_true]
    exact (or_iff_right hcpl).symm

theorem getLsbD_afterZeroIopl (c : Cpu) {i : Fin 64} (h12 : i ≠ 12) (h13 : i ≠ 13) (h16 : i ≠ 16) :
    (afterZeroIopl c).rflags.getLsbD i = c.rflags.getLsbD i := by
  have hne : (i == 12) = false ∧ (i == 13) = false ∧ (i != 16) = true := by
    simp [h12, h13, h16]
  show (flagsAfter c).getLsbD i = _
  rw [getLsbD_flagsAfter, hne.1, hne.2.1, hne.2.2]
  simp

/-- **What `zero_iopl` does** in every state: it returns with `IOPL` at zero, unless it was not
the kernel that called it, and it leaves the other flags. -/
theorem zeroIopl_spec (c : Cpu) :
    ∃ c', c.runCode zeroIopl = some c' ∧ c'.rip = c.mem c.rsp ∧ c'.rsp = c.rsp + 8#64 ∧
      (c'.iopl = 0 ↔ c.cpl = 0 ∨ c.iopl = 0) ∧
      (∀ i : Fin 64, i ≠ 12 → i ≠ 13 → i ≠ 16 → c'.rflags.getLsbD i = c.rflags.getLsbD i) ∧
      (∀ r, r ≠ .rax → c'.regs r = c.regs r) ∧ ∀ a, a ≠ c.rsp - 8#64 → c'.mem a = c.mem a :=
  ⟨_, zeroIopl_run c, rfl, rfl, iopl_afterZeroIopl c,
    fun _ h12 h13 h16 => getLsbD_afterZeroIopl c h12 h13 h16,
    fun _ hr => Function.update_of_ne hr .., fun _ ha => Function.update_of_ne ha ..⟩

end KessOS
