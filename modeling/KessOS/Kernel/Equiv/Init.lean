import KessOS.Interrupt.Equiv.Cpu
import KessOS.Interrupt.Equiv.Irq
import KessOS.Interrupt.Equiv.Vectors
import KessOS.Kernel.Equiv.Low
import KessOS.Kernel.Equiv.Mapped
import KessOS.Kernel.Equiv.Typed
import KessOS.Timer.Equiv.Init
import KessOS.Vmm.Equiv.Init

/-!
# What is ready when interrupts are let in

The initialisation is followed on what neither compiled code nor the lines of the devices touch
(`View`), step by step, and the devices are followed through their ports (`initDevices_run`).
Together they give the state at `STI` (`startUntilSti_iff`).
-/

namespace KessOS

open Interaction Trace

variable {idt : BitVec 64} {pml4 : Addr} {isr : Handler → BitVec 64} {meminfo : MemInfo}
  {rsdp : Addr}

/-! ### The processor, the tables and the memory manager -/

/-- What neither compiled code nor the lines of the devices touch. -/
structure View where
  cs : BitVec 16
  ss : BitVec 16
  data : BitVec 16 × BitVec 16 × BitVec 16 × BitVec 16
  gdtr : DescriptorTable
  interruptFlag : BitVec 64
  iopl : BitVec 2
  idt : Idt
  idtr : Option IdtPtr
  vmm : Vmm

def Platform.view (s : Platform) : View where
  cs := s.cpu.cs
  ss := s.cpu.ss
  data := (s.cpu.ds, s.cpu.es, s.cpu.fs, s.cpu.gs)
  gdtr := s.cpu.gdtr
  interruptFlag := s.cpu.rflags &&& KessOS.interruptFlag
  iopl := s.cpu.iopl
  idt := s.idt
  idtr := s.idtr
  vmm := s.vmm

/-- The steps of the initialisation on it, and on the globals of the kernel. -/
def viewed (idt : BitVec 64) : Component PlatformOp.Ans (View × Logger) where
  answers
    | .gdtLoad, (v, l), _, w =>
      requested v.cs = 0 ∧ w = ({ v with
        cs := 0x08
        ss := 0x10
        data := (0x10, 0x10, 0x10, 0x10)
        gdtr := gdtPointer
        interruptFlag := 0 }, l)
    | .zeroIopl, (v, l), _, w =>
      (requested v.cs = 0 → w.1.iopl = 0) ∧ w = ({ v with iopl := w.1.iopl }, l)
    | .sti, (v, l), _, w => w = ({ v with interruptFlag := KessOS.interruptFlag }, l)
    | .idtSetVec call, (v, l), _, w => w = ({ v with idt := call.run v.idt }, l)
    | .idtInstall, (v, l), _, w => w = ({ v with idtr := some (idtInstall idt) }, l)
    | .vmm x, (v, l), _, w =>
      v.vmm.cr3 = none ∧ ∃ vmm, x.run v.vmm = .ok () vmm ∧ w = ({ v with vmm }, l)
    | .placement, (v, l), b, w => b = v.vmm.placement ∧ w = (v, l)
    | .log args x, (v, l), _, w =>
      ∃ l', (x v.vmm.mem).run { l with args } = .ok () l' ∧
        v.vmm.Admits (l.kernel.since l'.kernel) ∧ w = (v, l')
    | .kernel x, (v, l), _, w =>
      let kernel := l.kernel.after (x v.vmm.mem)
      v.vmm.Admits (l.kernel.since kernel) ∧ w = (v, { l with kernel })
    | .kernFlags, (v, l), b, w => b = l.kernel.kernFlags ∧ w = (v, l)
    | .port _, (v, l), _, w => w = (v, l)
  moves _ _ := False

theorem viewed_still (w w' : View × Logger) : ¬ (viewed idt).moves w w' := id

/-- Clearing `IF` leaves `IOPL` alone, and setting it does. -/
theorem iopl_interruptFlag (flags : BitVec 64) :
    (flags &&& ~~~interruptFlag).extractLsb' 12 2 = flags.extractLsb' 12 2 ∧
      (flags ||| interruptFlag).extractLsb' 12 2 = flags.extractLsb' 12 2 := by
  have hzero : interruptFlag.extractLsb' 12 2 = 0 := by decide
  have hones : (~~~interruptFlag).extractLsb' 12 2 = BitVec.allOnes 2 := by decide
  rw [BitVec.extractLsb'_and, BitVec.extractLsb'_or, hzero, hones]
  exact ⟨BitVec.and_allOnes, BitVec.or_zero⟩

theorem interruptFlag_set (flags : BitVec 64) :
    (flags ||| interruptFlag) &&& interruptFlag = interruptFlag := by
  refine BitVec.eq_of_getLsbD_eq fun i _ => ?_
  rw [BitVec.getLsbD_and, BitVec.getLsbD_or]
  cases interruptFlag.getLsbD i <;> simp

theorem interruptFlag_afterZeroIopl (c : Cpu) :
    (afterZeroIopl c).rflags &&& interruptFlag = c.rflags &&& interruptFlag := by
  have hbit : ∀ i : Fin 64, interruptFlag.getLsbD i = true → i = 9 := by decide
  refine BitVec.eq_of_getLsbD_eq fun i hi => ?_
  rw [BitVec.getLsbD_and, BitVec.getLsbD_and]
  cases hflag : interruptFlag.getLsbD i with
  | false => simp
  | true =>
    obtain rfl : i = 9 := congrArg Fin.val (hbit ⟨i, hi⟩ hflag)
    rw [show (afterZeroIopl c).rflags.getLsbD 9 = _ from
      getLsbD_afterZeroIopl c (i := 9) (by decide) (by decide) (by decide)]
    rfl

theorem view_answers (o : PlatformOp) (s : Platform) (b : o.Ans) (s' : Platform)
    (h : (platform idt).answers o s b s') :
    (viewed idt).answers o (s.view, s.logger) b (s'.view, s'.logger) := by
  cases o with
  | port o =>
    obtain ⟨board, -, rfl⟩ := h
    rfl
  | gdtLoad =>
    obtain ⟨cpu, ⟨ret, hcall⟩, rfl⟩ := h
    by_cases hcpl : s.cpu.cpl = 0
    · rw [gdtLoad_run (c := s.cpu.called ret) hcpl, Option.some.injEq] at hcall
      subst hcall
      refine ⟨hcpl, Prod.ext ((View.mk.injEq ..).mpr ?_) rfl⟩
      refine ⟨rfl, rfl, rfl, rfl, ?_, ?_, rfl, rfl, rfl⟩
      · show s.cpu.rflags &&& ~~~interruptFlag &&& interruptFlag = 0
        rw [BitVec.and_assoc, BitVec.and_comm (~~~interruptFlag), BitVec.and_not_self]
        exact BitVec.and_zero
      · exact (iopl_interruptFlag s.cpu.rflags).1
    · rw [gdtLoad_fault (c := s.cpu.called ret) hcpl] at hcall
      cases hcall
  | zeroIopl =>
    obtain ⟨cpu, ⟨ret, hcall⟩, rfl⟩ := h
    rw [zeroIopl_run, Option.some.injEq] at hcall
    subst hcall
    refine ⟨fun hcpl => (iopl_afterZeroIopl _).mpr (.inl hcpl),
      Prod.ext ((View.mk.injEq ..).mpr ?_) rfl⟩
    exact ⟨rfl, rfl, rfl, rfl, interruptFlag_afterZeroIopl _, rfl, rfl, rfl, rfl⟩
  | sti =>
    obtain ⟨-, rfl⟩ := h
    refine Prod.ext ((View.mk.injEq ..).mpr ?_) rfl
    exact ⟨rfl, rfl, rfl, rfl, interruptFlag_set s.cpu.rflags,
      (iopl_interruptFlag s.cpu.rflags).2, rfl, rfl, rfl⟩
  | idtSetVec call =>
    obtain rfl := h
    rfl
  | idtInstall =>
    obtain ⟨-, rfl⟩ := h
    rfl
  | vmm x =>
    obtain ⟨hcr3, vmm, hrun, rfl⟩ := h
    exact ⟨hcr3, vmm, hrun, rfl⟩
  | placement =>
    obtain ⟨rfl, rfl⟩ := h
    exact ⟨rfl, rfl⟩
  | log args x =>
    obtain ⟨logger, hrun, hadmits, rfl⟩ := h
    exact ⟨logger, hrun, hadmits, rfl⟩
  | kernel x =>
    obtain ⟨hadmits, rfl⟩ := h
    exact ⟨hadmits, rfl⟩
  | kernFlags =>
    obtain ⟨rfl, rfl⟩ := h
    exact ⟨rfl, rfl⟩

theorem view_moves (s s' : Platform) (h : (platform idt).moves s s') :
    (s'.view, s'.logger) = (s.view, s.logger) := by
  rcases h with ⟨irq, high, rfl⟩ | ⟨cpu, hsame, rfl⟩
  · rfl
  · obtain ⟨hds, hes, hfs, hgs⟩ := hsame.data
    simp only [Platform.view, hsame.cs, hsame.ss, hds, hes, hfs, hgs, hsame.gdtr,
      hsame.interruptFlag, hsame.iopl]

/-- A single request is a single step. -/
theorem runs_request (o : PlatformOp) (w w' : View × Logger) (b : o.Ans) :
    Runs (viewed idt) (request o) w b w' ↔ (viewed idt).answers o w b w' := by
  rw [request, Prog.perform, runs_call_of_still viewed_still]
  simp only [runs_done_of_still viewed_still]
  constructor
  · rintro ⟨b, w₁, hcall, rfl, rfl⟩
    exact hcall
  · exact fun hcall => ⟨b, w', hcall, rfl, rfl⟩

section

variable {v : View} {l : Logger} {w : View × Logger} {u : Unit}

theorem runs_kernel {x : PhysMem → KernelM Unit} :
    Runs (α := Unit) (viewed idt) (request (.kernel x)) (v, l) u w ↔
      v.vmm.Admits (l.kernel.since (l.kernel.after (x v.vmm.mem))) ∧
        w = (v, { l with kernel := l.kernel.after (x v.vmm.mem) }) := runs_request ..

/-- A line is typed, and what it takes is mapped. -/
theorem logInfo_viewed {format : String} (h : Runs (viewed idt) (logInfo format) (v, l) u w) :
    ∃ l', l'.kernel = l.kernel.log v.vmm.mem format .info ∧
      v.vmm.Admits (l.kernel.since l'.kernel) ∧ w = (v, l') := by
  have hrun := runs_kernel.mp h
  simp only [after_logText] at hrun
  obtain ⟨hadmits, rfl⟩ := hrun
  exact ⟨_, rfl, hadmits, rfl⟩

theorem logPlacement_viewed {placement : BitVec 64}
    (h : Runs (α := Unit) (viewed idt) (request (.log [.int (placement.setWidth 32)] fun mem =>
      log mem (chars "Allocation base set at %x\n") .info)) (v, l) u w) :
    ∃ l', l'.kernel = l.kernel.typeAll v.vmm.mem (placementText placement) ∧ w = (v, l') := by
  obtain ⟨l₁, hrun, -, rfl⟩ := (runs_request ..).mp h
  obtain ⟨l', hrun', hkernel⟩ := logPlacement_run v.vmm.mem l placement
  obtain ⟨-, rfl⟩ := (EStateM.Result.ok.injEq ..).mp (hrun.symm.trans hrun')
  exact ⟨_, hkernel, rfl⟩

theorem runs_placement {b : BitVec 64} :
    Runs (α := BitVec 64) (viewed idt) (request .placement) (v, l) b w ↔
      b = v.vmm.placement ∧ w = (v, l) :=
  runs_request ..

theorem runs_vmm {x : VmmM Unit} :
    Runs (α := Unit) (viewed idt) (onVmm x) (v, l) u w ↔
      v.vmm.cr3 = none ∧ ∃ vmm, x.run v.vmm = .ok () vmm ∧ w = ({ v with vmm }, l) :=
  runs_request ..

end

/-- The part of `vmm_init` that can halt. -/
theorem setAllocBase_checked_iff {m m' : Vmm} :
    (do
        setAllocBase meminfo
        if (← get).placement = 0xDEADBEEF#64 then throw .noUsableMemory : VmmM Unit).run m =
          .ok () m' ↔
      (m.settle meminfo).placement ≠ 0xDEADBEEF#64 ∧ m' = m.settle meminfo := by
  rw [EStateM.run_bind_of_ok (setAllocBase_run m meminfo)]
  show (if (m.settle meminfo).placement = 0xDEADBEEF#64 then throw .noUsableMemory
    else pure () : VmmM Unit).run (m.settle meminfo) = .ok () m' ↔ _
  split_ifs with hdead
  · exact iff_of_false (fun h => by cases h) fun h => h.1 hdead
  · constructor
    · intro h
      cases h
      exact ⟨hdead, rfl⟩
    · rintro ⟨-, rfl⟩
      rfl

/-- `vmm_init` in its parts. -/
theorem vmmInit_iff {m m' : Vmm} :
    (vmmInit pml4 meminfo).run m = .ok () m' ↔
      (m.settle meminfo).placement ≠ 0xDEADBEEF#64 ∧ ∃ m₁ m₂,
        (memzero pml4 pageSize).run (m.settle meminfo) = .ok () m₁ ∧
        (initAddrs.forM fun addr =>
          mapPage pml4 addr (pageBitRwWritableFlag ||| pageBitPPresentFlag)).run m₁ = .ok () m₂ ∧
        (loadPml4 pml4).run m₂ = .ok () m' := by
  rw [vmmInit, EStateM.run_bind_of_ok (setAllocBase_run m meminfo)]
  show (if (m.settle meminfo).placement = 0xDEADBEEF#64 then _ else _ : VmmM Unit).run
    (m.settle meminfo) = .ok () m' ↔ _
  split_ifs with hdead
  · refine iff_of_false (fun h => ?_) fun h => h.1 hdead
    obtain ⟨_, _, hthrow, -⟩ := EStateM.run_bind_eq_ok.mp h
    cases hthrow
  · constructor
    · intro h
      obtain ⟨_, m₁, hzero, h⟩ := EStateM.run_bind_eq_ok.mp h
      obtain ⟨_, m₂, hmap, hload⟩ := EStateM.run_bind_eq_ok.mp h
      exact ⟨hdead, m₁, m₂, hzero, hmap, hload⟩
    · rintro ⟨-, m₁, m₂, hzero, hmap, hload⟩
      refine EStateM.run_bind_eq_ok.mpr ⟨_, m₁, hzero, ?_⟩
      exact EStateM.run_bind_eq_ok.mpr ⟨_, m₂, hmap, hload⟩

theorem vmmInit_cr3 {m m' : Vmm} (h : (vmmInit pml4 meminfo).run m = .ok () m') :
    m'.cr3 = some pml4 := by
  obtain ⟨-, _, _, -, -, hload⟩ := vmmInit_iff.mp h
  rw [loadPml4_run, EStateM.Result.ok.injEq] at hload
  rw [← hload.2]

/-- `vmm_init` with what it logs: what it types until `CR3` is loaded, and the line behind it, which
is typed with what is mapped. -/
theorem vmmInitLogging_viewed {v : View} {l : Logger} {w : View × Logger}
    (h : Runs (viewed idt) (vmmInitLogging pml4 meminfo) (v, l) () w) :
    ∃ vmm l' k, (vmmInit pml4 meminfo).run v.vmm = .ok () vmm ∧
      l.kernel.Typed (vmmTexts (chosenSegment v.vmm meminfo).physAddr) k ∧
      l'.kernel = k.log vmm.mem "Finished setting up VMM.\n" .info ∧
      vmm.Admits (k.since l'.kernel) ∧ w = ({ v with vmm }, l') := by
  obtain ⟨_, _, hsetting, h⟩ := runs_bind.mp h
  obtain ⟨l₁, hl₁, -, rfl⟩ := logInfo_viewed hsetting
  obtain ⟨_, _, hstep₁, h⟩ := runs_bind.mp h
  obtain ⟨-, m₁, hset, rfl⟩ := runs_vmm.mp hstep₁
  obtain ⟨_, _, hread, h⟩ := runs_bind.mp h
  obtain ⟨rfl, rfl⟩ := runs_placement.mp hread
  obtain ⟨_, _, hnumber, h⟩ := runs_bind.mp h
  obtain ⟨l₂, hl₂, rfl⟩ := logPlacement_viewed hnumber
  obtain ⟨_, _, hzeroing, h⟩ := runs_bind.mp h
  obtain ⟨l₃, hl₃, -, rfl⟩ := logInfo_viewed hzeroing
  obtain ⟨_, _, hstep₂, h⟩ := runs_bind.mp h
  obtain ⟨-, m₂, hzero, rfl⟩ := runs_vmm.mp hstep₂
  obtain ⟨_, _, hmapping, h⟩ := runs_bind.mp h
  obtain ⟨l₄, hl₄, -, rfl⟩ := logInfo_viewed hmapping
  obtain ⟨_, _, hstep₃, h⟩ := runs_bind.mp h
  obtain ⟨-, m₃, hmap, rfl⟩ := runs_vmm.mp hstep₃
  obtain ⟨_, _, hfinished, h⟩ := runs_bind.mp h
  obtain ⟨l₅, hl₅, -, rfl⟩ := logInfo_viewed hfinished
  obtain ⟨_, _, hloading, h⟩ := runs_bind.mp h
  obtain ⟨l₆, hl₆, -, rfl⟩ := logInfo_viewed hloading
  obtain ⟨_, _, hstep₄, h⟩ := runs_bind.mp h
  obtain ⟨-, m₄, hload, rfl⟩ := runs_vmm.mp hstep₄
  obtain ⟨l', hl', hadmits, rfl⟩ := logInfo_viewed h
  obtain ⟨hplacement, rfl⟩ := setAllocBase_checked_iff.mp hset
  refine ⟨m₄, l', l₆.kernel, ?_, ?_, hl', hadmits, rfl⟩
  · exact vmmInit_iff.mpr ⟨hplacement, _, _, hzero, hmap, hload⟩
  · rw [hl₆, hl₅, hl₄, hl₃, hl₂, hl₁, vmmTexts]
    have hfirst := (Kernel.Typed.refl l.kernel).log v.vmm.mem "Setting allocation base..\n"
    rw [List.nil_append] at hfirst
    exact ((((hfirst.typeAll ..).log ..).log ..).log ..).log ..

/-- The interrupt table, call by call. -/
theorem setVecs_viewed {v : View} {l : Logger} {w : View × Logger} {u : PUnit}
    {calls : List SetVec}
    (h : Runs (viewed idt) (calls.forM fun call => request (.idtSetVec call)) (v, l) u w) :
    w = ({ v with idt := setVecs v.idt calls }, l) := by
  induction calls generalizing v with
  | nil => exact ((runs_done_of_still viewed_still).mp h).2
  | cons call calls ih =>
    obtain ⟨_, _, hcall, hrest⟩ := runs_bind.mp h
    obtain rfl := (runs_request ..).mp hcall
    exact ih hrest

theorem setVecs_take_drop (table : Idt) (calls : List SetVec) (n : ℕ) :
    setVecs (setVecs table (calls.take n)) (calls.drop n) = setVecs table calls := by
  rw [setVecs, setVecs, ← List.foldl_append, List.take_append_drop, setVecs]

theorem admits_iff {m : Vmm} {root : Addr} (h : m.cr3 = some root) {as : List Access} :
    m.Admits as ↔ ∀ a ∈ as, a.Within m.Maps := by
  rw [Vmm.Admits, h, or_iff_right (Option.some_ne_none root)]

/-- `init` behind `vmm_init`: all that it uses of what was handed over is mapped, and of the rest
only `IOPL` changes. -/
theorem initBehindVmm_viewed {root : Addr} {k : Kernel} {v : View} {l : Logger} {w : View × Logger}
    (hcr3 : v.vmm.cr3 = some root)
    (hl : l.kernel = k.log v.vmm.mem "Finished setting up VMM.\n" .info)
    (hfirst : v.vmm.Admits (k.since l.kernel))
    (h : Runs (viewed idt) (do
      logInfo "Setting IOPL of EFLAGS to 0 (ring 0 access only).\n"
      request .zeroIopl
      logInfo "Setting up ACPI..\n"
      request (.kernel fun mem => acpiInit mem rsdp) : PlatformM Unit) (v, l) () w) :
    InitIn v.vmm.Maps v.vmm.mem rsdp k.canvas k.kernFlags ∧
      ∃ iopl, (requested v.cs = 0 → iopl = 0) ∧ w.1 = { v with iopl } := by
  obtain ⟨_, _, hlog, h⟩ := runs_bind.mp h
  obtain ⟨l₂, hl₂, hsecond, rfl⟩ := logInfo_viewed hlog
  obtain ⟨_, ⟨v', l'⟩, hiopl, h⟩ := runs_bind.mp h
  obtain ⟨hzero, hv⟩ := (runs_request ..).mp hiopl
  obtain ⟨hv', hl'⟩ := Prod.mk.inj hv
  rw [hl'] at h
  obtain ⟨_, _, hlog', h⟩ := runs_bind.mp h
  obtain ⟨l₃, hl₃, hthird, rfl⟩ := logInfo_viewed hlog'
  have hacpi := runs_kernel.mp h
  beta_reduce at hacpi
  obtain ⟨hfourth, rfl⟩ := hacpi
  have hvmm : v'.vmm = v.vmm := by rw [hv']
  rw [hvmm] at hl₃ hthird hfourth
  rw [admits_iff hcr3] at hfirst hsecond hthird hfourth
  rw [hl₃, hl₂, hl] at hfourth hthird
  rw [hl₂, hl] at hsecond
  rw [hl] at hfirst
  refine ⟨?_, v'.iopl, hzero, hv'⟩
  rw [← initAfterPaging_within_iff, forall_since_initAfterPaging]
  exact ⟨hfirst, hsecond, hthird, hfourth⟩

theorem initSystem_viewed {v : View} {l : Logger} {w : View × Logger}
    (h : Runs (viewed idt) (initSystem pml4 isr meminfo rsdp) (v, l) () w) :
    requested v.cs = 0 ∧ ∃ vmm, (vmmInit pml4 meminfo).run v.vmm = .ok () vmm ∧
      InitIn vmm.Maps vmm.mem rsdp
        (replay Canvas.act (initTexts (chosenSegment v.vmm meminfo).physAddr) l.kernel.canvas)
        l.kernel.kernFlags ∧
      w.1 = { v with
        cs := 0x08
        ss := 0x10
        data := (0x10, 0x10, 0x10, 0x10)
        gdtr := gdtPointer
        interruptFlag := 0
        iopl := 0
        idt := setVecs v.idt (initVectors isr)
        idtr := some (idtInstall idt)
        vmm } := by
  have hkernel : requested 0x08 = 0 := by decide
  obtain ⟨_, _, hlog₁, h⟩ := runs_bind.mp h
  obtain ⟨l₁, hl₁, -, rfl⟩ := logInfo_viewed hlog₁
  obtain ⟨_, _, hgdt, h⟩ := runs_bind.mp h
  obtain ⟨hcpl, rfl⟩ := (runs_request ..).mp hgdt
  obtain ⟨_, _, hlog₂, h⟩ := runs_bind.mp h
  obtain ⟨l₂, hl₂, -, rfl⟩ := logInfo_viewed hlog₂
  obtain ⟨_, _, hexceptions, h⟩ := runs_bind.mp h
  obtain rfl := setVecs_viewed hexceptions
  obtain ⟨_, _, hlog₃, h⟩ := runs_bind.mp h
  obtain ⟨l₃, hl₃, -, rfl⟩ := logInfo_viewed hlog₃
  obtain ⟨_, _, hirqs, h⟩ := runs_bind.mp h
  obtain rfl := setVecs_viewed hirqs
  obtain ⟨_, _, hlog₄, h⟩ := runs_bind.mp h
  obtain ⟨l₄, hl₄, -, rfl⟩ := logInfo_viewed hlog₄
  obtain ⟨_, _, hinstall, h⟩ := runs_bind.mp h
  obtain rfl := (runs_request ..).mp hinstall
  obtain ⟨_, _, hlog₅, h⟩ := runs_bind.mp h
  obtain ⟨l₅, hl₅, -, rfl⟩ := logInfo_viewed hlog₅
  obtain ⟨_, _, hvmm, h⟩ := runs_bind.mp h
  obtain ⟨vmm, l₆, k, hrun, htyped, hl₆, hfirst, rfl⟩ := vmmInitLogging_viewed hvmm
  obtain ⟨hin, iopl, hiopl, hw⟩ := initBehindVmm_viewed (vmmInit_cr3 hrun) hl₆ hfirst h
  have hall : l.kernel.Typed (initTexts (chosenSegment v.vmm meminfo).physAddr) k := by
    have hinit := (Kernel.Typed.refl l.kernel).log v.vmm.mem
      "Setting up Global Descriptor Table..\n"
    rw [List.nil_append] at hinit
    rw [hl₅, hl₄, hl₃, hl₂, hl₁] at htyped
    dsimp only at htyped
    rw [initTexts]
    exact ((((hinit.log ..).log ..).log ..).log ..).trans htyped
  refine ⟨hcpl, vmm, hrun, ?_, ?_⟩
  · rw [← hall.canvas, ← hall.kernFlags]
    exact hin
  · refine hw.trans ((View.mk.injEq ..).mpr ?_)
    exact ⟨rfl, rfl, rfl, rfl, rfl, hiopl hkernel, setVecs_take_drop .., rfl, rfl⟩

/-! ### The devices -/

variable {s s' : Platform}

theorem moves_board (h : Relation.ReflTransGen (platform idt).moves s s') :
    Relation.ReflTransGen ports.moves s.board s'.board ∧ s'.logger = s.logger := by
  induction h with
  | refl => exact ⟨.refl, rfl⟩
  | tail _ hmove ih =>
    rcases hmove with ⟨irq, high, rfl⟩ | ⟨cpu, -, rfl⟩
    · exact ⟨ih.1.tail ⟨irq, high, rfl⟩, ih.2⟩
    · exact ih

/-- Of the rest the ports see nothing, and nothing happens to the globals. -/
theorem runs_onPorts {α : Type} {p : PortM α} {a : α}
    (h : Runs (platform idt) (onPorts p) s a s') :
    Runs ports p s.board a s'.board ∧ s'.logger = s.logger := by
  constructor
  · refine Runs.of_lift (f := Platform.board) ?_ ?_ h
    · rintro o t b t' ⟨board, hans, rfl⟩
      exact hans
    · rintro t t' (⟨irq, high, rfl⟩ | ⟨cpu, -, rfl⟩)
      · exact .inr ⟨irq, high, rfl⟩
      · exact .inl rfl
  · refine Runs.lift_unchanged (f := Platform.logger) ?_ ?_ h
    · rintro o t b t' ⟨board, -, rfl⟩
      rfl
    · rintro t t' (⟨irq, high, rfl⟩ | ⟨cpu, -, rfl⟩)
      · rfl
      · rfl

theorem runs_request_kernFlags {b : BitVec 8}
    (h : Runs (α := BitVec 8) (platform idt) (request .kernFlags) s b s') :
    Relation.ReflTransGen ports.moves s.board s'.board ∧ s'.logger = s.logger ∧
      b = s.logger.kernel.kernFlags := by
  obtain ⟨s₁, s₂, hbefore, ⟨rfl, rfl⟩, hbehind⟩ := Runs.of_perform (o := PlatformOp.kernFlags) h
  obtain ⟨hboard, hlogger⟩ := moves_board hbefore
  obtain ⟨hboard', hlogger'⟩ := moves_board hbehind
  exact ⟨hboard.trans hboard', hlogger'.trans hlogger, by rw [hlogger]⟩

/-- `init` does not count on the APIC that it has found, and starts the legacy devices. -/
theorem initDevices_run (h : Runs (platform idt) initDevices s () s') :
    ∃ flags r, flags &&& usingApic = 0 ∧
      Runs ports (initPic >>= fun _ => pitInit flags) s.board r s'.board := by
  have hclear : ∀ flags : BitVec 8, flags &&& ~~~usingApic &&& usingApic = 0 := by decide
  obtain ⟨_, s₁, hset, h⟩ := runs_bind.mp h
  obtain ⟨b, s₂, hread, h⟩ := runs_bind.mp h
  obtain ⟨t, t', hbefore, ⟨-, rfl⟩, hbehind⟩ := Runs.of_perform (o := PlatformOp.kernel _) hset
  obtain ⟨hboard, -⟩ := moves_board hbefore
  obtain ⟨hboard', hlogger⟩ := moves_board hbehind
  obtain ⟨hboard₂, hlogger₂, hb⟩ := runs_request_kernFlags hread
  have hflags : s₁.logger.kernel.kernFlags &&& usingApic = 0 := by
    rw [hlogger]
    exact hclear _
  rw [if_pos (hb ▸ hflags)] at h
  obtain ⟨_, s₃, hpic, h⟩ := runs_bind.mp h
  obtain ⟨flags, s₄, hread', h⟩ := runs_bind.mp h
  obtain ⟨r, s₅, hpit, h⟩ := runs_bind.mp h
  obtain ⟨hpic, hlogger₃⟩ := runs_onPorts hpic
  obtain ⟨hboard₄, -, hflags'⟩ := runs_request_kernFlags hread'
  obtain ⟨hpit, -⟩ := runs_onPorts hpit
  obtain ⟨-, hend⟩ := h.of_done
  refine ⟨flags, r, ?_, ?_⟩
  · rw [hflags', hlogger₃, hlogger₂]
    exact hflags
  · refine .of_moves ((hboard.trans hboard').trans hboard₂) ?_
    refine (runs_bind.mpr ⟨_, _, hpic, .of_moves hboard₄ hpit⟩).then_moves ?_
    exact (moves_board hend).1

/-! ### The initialisation comes to its end -/

/-- In the kernel, with the memory manager at `m` and the globals as `K` says. -/
def Platform.Privileged (m : Vmm) (K : Kernel → Prop) (s : Platform) : Prop :=
  s.cpu.cpl = 0 ∧ s.vmm = m ∧ K s.logger.kernel

section

variable {m m' : Vmm} {K J : Kernel → Prop}

theorem completes_kernel {x : PhysMem → KernelM Unit}
    (hx : ∀ k, K k → m.Admits (k.since (k.after (x m.mem))) ∧ J (k.after (x m.mem))) :
    Completes (platform idt) (Platform.Privileged m K) (request (.kernel x))
      (Platform.Privileged m J) := by
  refine .perform fun s hs => ?_
  obtain ⟨hcpl, rfl, hk⟩ := hs
  obtain ⟨hadmits, hk'⟩ := hx _ hk
  exact ⟨(), _, ⟨hadmits, rfl⟩, hcpl, rfl, hk'⟩

theorem completes_vmm {x : VmmM Unit} (hcr3 : m.cr3 = none) (hx : x.run m = .ok () m') :
    Completes (platform idt) (Platform.Privileged m K) (request (.vmm x))
      (Platform.Privileged m' K) := by
  refine .perform fun s hs => ?_
  obtain ⟨hcpl, rfl, hk⟩ := hs
  exact ⟨(), _, ⟨hcr3, m', hx, rfl⟩, hcpl, rfl, hk⟩

theorem completes_idtSetVec (call : SetVec) :
    Completes (platform idt) (Platform.Privileged m K) (request (.idtSetVec call))
      (Platform.Privileged m K) :=
  .perform fun _ hs => ⟨(), _, rfl, hs⟩

theorem completes_kernFlags :
    Completes (platform idt) (Platform.Privileged m K) (request .kernFlags)
      (Platform.Privileged m K) :=
  .perform fun s hs => ⟨s.logger.kernel.kernFlags, s, ⟨rfl, rfl⟩, hs⟩

/-- The continuation of a read of `placement` gets what is in it. -/
theorem completes_placement {α : Type} {f : BitVec 64 → PlatformM α} {Q : Platform → Prop}
    (h : Completes (platform idt) (Platform.Privileged m K) (f m.placement) Q) :
    Completes (platform idt) (Platform.Privileged m K) (request .placement >>= f) Q := by
  intro s hs
  obtain ⟨a, s', hrun, hs'⟩ := h s hs
  exact ⟨a, s', .call ⟨congrArg Vmm.placement hs.2.1.symm, rfl⟩ hrun, hs'⟩

theorem completes_onPorts {α : Type} (p : PortM α) :
    Completes (platform idt) (Platform.Privileged m K) (onPorts p) (Platform.Privileged m K) := by
  induction p with
  | done a => exact fun s hs => ⟨a, s, .done .., hs⟩
  | call o next ih =>
    intro s hs
    cases o with
    | inb port =>
      obtain ⟨a, s', hrun, hs'⟩ := ih _ s hs
      exact ⟨a, s', .call ⟨s.board, ⟨reads_mask s.board port, rfl⟩, rfl⟩ hrun, hs'⟩
    | outb port data =>
      obtain ⟨a, s', hrun, hs'⟩ := ih () { s with board := s.board.write port data } hs
      exact ⟨a, s', .call ⟨_, rfl, rfl⟩ hrun, hs'⟩

theorem completes_gdtLoad :
    Completes (platform idt) (Platform.Privileged m K) (request .gdtLoad)
      (Platform.Privileged m K) := by
  refine .perform fun s hs =>
    ⟨(), _, ⟨_, ⟨0, gdtLoad_run (c := s.cpu.called 0) hs.1⟩, rfl⟩, ?_, hs.2⟩
  exact (segmented_afterGdtLoad _).cpl

theorem completes_zeroIopl :
    Completes (platform idt) (Platform.Privileged m K) (request .zeroIopl)
      (Platform.Privileged m K) :=
  .perform fun s hs => ⟨(), _, ⟨_, ⟨0, zeroIopl_run (s.cpu.called 0)⟩, rfl⟩, hs⟩

theorem completes_idtInstall :
    Completes (platform idt) (Platform.Privileged m K) (request .idtInstall)
      (Platform.Privileged m K) :=
  .perform fun _ hs => ⟨(), _, ⟨hs.1, rfl⟩, hs⟩

theorem completes_sti :
    Completes (platform idt) (Platform.Privileged m K) (request .sti)
      (Platform.Privileged m K) := by
  refine .perform fun s hs => ⟨(), _, ⟨?_, rfl⟩, hs⟩
  rw [hs.1]
  exact BitVec.le_def.mpr (Nat.zero_le _)

/-! #### The logs -/

variable {k : Kernel} {ts : List (BitVec 32 × BitVec 8)}

theorem completes_logInfo {format : String}
    (hlog : ∀ k, K k →
      m.Admits (k.since (k.log m.mem format .info)) ∧ J (k.log m.mem format .info)) :
    Completes (platform idt) (Platform.Privileged m K) (logInfo format)
      (Platform.Privileged m J) := by
  refine completes_kernel fun k hk => ?_
  rw [after_logText]
  exact hlog k hk

/-- Until `CR3` is loaded a line is typed in any case. -/
theorem completes_typed (hcr3 : m.cr3 = none) (format : String) :
    Completes (platform idt) (Platform.Privileged m (k.Typed ts)) (logInfo format)
      (Platform.Privileged m (k.Typed (ts ++ logged format .info))) :=
  completes_logInfo fun _ hk' => ⟨.inl hcr3, hk'.log m.mem format⟩

theorem completes_logPlacement (hcr3 : m.cr3 = none) (placement : BitVec 64) :
    Completes (platform idt) (Platform.Privileged m (k.Typed ts))
      (request (.log [.int (placement.setWidth 32)] fun mem =>
        log mem (chars "Allocation base set at %x\n") .info))
      (Platform.Privileged m (k.Typed (ts ++ placementText placement))) := by
  refine .perform fun s hs => ?_
  obtain ⟨hcpl, rfl, hk⟩ := hs
  obtain ⟨l, hrun, hkernel⟩ := logPlacement_run s.vmm.mem s.logger placement
  refine ⟨(), { s with logger := l }, ⟨l, hrun, .inl hcr3, rfl⟩, hcpl, rfl, ?_⟩
  show k.Typed _ l.kernel
  rw [hkernel]
  exact hk.typeAll s.vmm.mem (placementText placement)

/-- The loop of `vmm_init` does not load `CR3`. -/
theorem initAddrs_cr3 {m m' : Vmm} (h : (initAddrs.forM fun addr =>
    mapPage pml4 addr (pageBitRwWritableFlag ||| pageBitPPresentFlag)).run m = .ok () m') :
    m'.cr3 = m.cr3 := by
  have hloop : EStateM.Conserves Vmm.cr3 (initAddrs.forM fun addr =>
      mapPage pml4 addr (pageBitRwWritableFlag ||| pageBitPPresentFlag)) :=
    EStateM.conserves_forM fun addr _ => steady_cr3.mapPage pml4 addr _
  have hend := hloop m
  rw [h] at hend
  exact hend

/-- `vmm_init` up to the load of `CR3`, and the line behind it. -/
theorem completes_vmmInitLogging (hcr3 : m.cr3 = none)
    (hinit : (vmmInit pml4 meminfo).run m = .ok () m')
    (hlog : ∀ k', k.Typed (ts ++ vmmTexts (chosenSegment m meminfo).physAddr) k' →
      m'.Admits (k'.since (k'.log m'.mem "Finished setting up VMM.\n" .info)) ∧
        J (k'.log m'.mem "Finished setting up VMM.\n" .info)) :
    Completes (platform idt) (Platform.Privileged m (k.Typed ts)) (vmmInitLogging pml4 meminfo)
      (Platform.Privileged m' J) := by
  obtain ⟨hplacement, m₁, m₂, hzero, hmap, hload⟩ := vmmInit_iff.mp hinit
  have hbase := setAllocBase_checked_iff.mpr ⟨hplacement, rfl⟩
  have hcr3₀ : (m.settle meminfo).cr3 = none := hcr3
  have hcr3₁ : m₁.cr3 = none := by
    rw [memzero_run, EStateM.Result.ok.injEq] at hzero
    rw [← hzero.2, recordAll_cr3]
    exact hcr3₀
  have hcr3₂ : m₂.cr3 = none := (initAddrs_cr3 hmap).trans hcr3₁
  refine (completes_typed hcr3 _).bind fun _ => (completes_vmm hcr3 hbase).bind fun _ => ?_
  refine completes_placement ((completes_logPlacement hcr3₀ _).bind fun _ => ?_)
  refine (completes_typed hcr3₀ _).bind fun _ => (completes_vmm hcr3₀ hzero).bind fun _ => ?_
  refine (completes_typed hcr3₁ _).bind fun _ => (completes_vmm hcr3₁ hmap).bind fun _ => ?_
  refine (completes_typed hcr3₂ _).bind fun _ => (completes_typed hcr3₂ _).bind fun _ => ?_
  refine (completes_vmm hcr3₂ hload).bind fun _ => completes_logInfo fun k' hk' => hlog k' ?_
  simp only [vmmTexts, List.append_assoc] at hk' ⊢
  exact hk'

theorem completes_initSystem (hcr3 : m.cr3 = none)
    (hinit : (vmmInit pml4 meminfo).run m = .ok () m')
    (hin : InitIn m'.Maps m'.mem rsdp
      (replay Canvas.act (ts ++ initTexts (chosenSegment m meminfo).physAddr) k.canvas)
      k.kernFlags) :
    Completes (platform idt) (Platform.Privileged m (k.Typed ts))
      (initSystem pml4 isr meminfo rsdp) (Platform.Privileged m' fun _ => True) := by
  have hsetVecs {ts : List (BitVec 32 × BitVec 8)} (calls : List SetVec) :
      Completes (platform idt) (Platform.Privileged m (k.Typed ts))
        (calls.forM fun call => request (.idtSetVec call)) (Platform.Privileged m (k.Typed ts)) :=
    .forM completes_idtSetVec calls
  -- All that is done behind the load of `CR3` is to mapped bytes.
  have hmapped : ∀ k', k.Typed (ts ++ initTexts (chosenSegment m meminfo).physAddr) k' →
      let k₁ := k'.log m'.mem "Finished setting up VMM.\n" .info
      let k₂ := k₁.log m'.mem "Setting IOPL of EFLAGS to 0 (ring 0 access only).\n" .info
      let k₃ := k₂.log m'.mem "Setting up ACPI..\n" .info
      m'.Admits (k'.since k₁) ∧ m'.Admits (k₁.since k₂) ∧ m'.Admits (k₂.since k₃) ∧
        m'.Admits (k₃.since (k₃.after (acpiInit m'.mem rsdp))) := by
    intro k' hk'
    rw [← hk'.canvas, ← hk'.kernFlags, ← initAfterPaging_within_iff] at hin
    simp only [admits_iff (vmmInit_cr3 hinit)]
    exact forall_since_initAfterPaging.mp hin
  refine (completes_typed hcr3 _).bind fun _ => completes_gdtLoad.bind fun _ => ?_
  refine (completes_typed hcr3 _).bind fun _ => (hsetVecs _).bind fun _ => ?_
  refine (completes_typed hcr3 _).bind fun _ => (hsetVecs _).bind fun _ => ?_
  refine (completes_typed hcr3 _).bind fun _ => completes_idtInstall.bind fun _ => ?_
  refine (completes_typed hcr3 _).bind fun _ => ?_
  let T := k.Typed (ts ++ initTexts (chosenSegment m meminfo).physAddr)
  let first (k' : Kernel) := k'.log m'.mem "Finished setting up VMM.\n" .info
  let second (k' : Kernel) :=
    (first k').log m'.mem "Setting IOPL of EFLAGS to 0 (ring 0 access only).\n" .info
  let third (k' : Kernel) := (second k').log m'.mem "Setting up ACPI..\n" .info
  refine (completes_vmmInitLogging hcr3 hinit (J := fun k'' => ∃ k', T k' ∧ k'' = first k')
    fun k' hk' => ?_).bind fun _ => ?_
  · have htyped : T k' := by
      simp only [T, initTexts, List.append_assoc] at hk' ⊢
      exact hk'
    exact ⟨(hmapped k' htyped).1, k', htyped, rfl⟩
  refine (completes_logInfo (J := fun k'' => ∃ k', T k' ∧ k'' = second k') ?_).bind fun _ => ?_
  · rintro _ ⟨k', hk', rfl⟩
    exact ⟨(hmapped k' hk').2.1, k', hk', rfl⟩
  refine completes_zeroIopl.bind fun _ => ?_
  refine (completes_logInfo (J := fun k'' => ∃ k', T k' ∧ k'' = third k') ?_).bind fun _ => ?_
  · rintro _ ⟨k', hk', rfl⟩
    exact ⟨(hmapped k' hk').2.2.1, k', hk', rfl⟩
  refine completes_kernel ?_
  rintro _ ⟨k', hk', rfl⟩
  exact ⟨(hmapped k' hk').2.2.2, trivial⟩

theorem completes_initDevices :
    Completes (platform idt) (Platform.Privileged m fun _ => True) initDevices
      (Platform.Privileged m fun _ => True) := by
  have hset : Completes (platform idt) (Platform.Privileged m fun _ => True)
      (request (.kernel fun _ => setFlags (· &&& ~~~usingApic)))
      (Platform.Privileged m fun _ => True) := by
    refine completes_kernel fun k _ => ⟨.inr ?_, trivial⟩
    show ∀ a ∈ k.trace.drop k.trace.length, a.Within m.Maps
    rw [List.drop_length]
    exact fun _ h => absurd h List.not_mem_nil
  refine hset.bind fun _ => completes_kernFlags.bind fun flags => ?_
  split_ifs
  · refine (completes_onPorts _).bind fun _ => completes_kernFlags.bind fun flags => ?_
    exact (completes_onPorts _).bind fun _ s hs => ⟨_, s, .done .., hs⟩
  · exact fun s hs => ⟨_, s, .done .., hs⟩

theorem completes_startUntilSti {lfb : Framebuffer} {font : Psf1Font} (hcr3 : m.cr3 = none)
    (hinit : (vmmInit pml4 meminfo).run m = .ok () m')
    (hin : InitIn m'.Maps m'.mem rsdp
      (pagedCanvas lfb font (chosenSegment m meminfo).physAddr k.canvas) k.kernFlags) :
    Completes (platform idt) (Platform.Privileged m (· = k))
      (startUntilSti pml4 isr lfb font meminfo rsdp) (Platform.Privileged m' fun _ => True) := by
  have hfont : Completes (platform idt) (Platform.Privileged m (· = k))
      (request (.kernel fun _ => modifyCanvas fun c => { c with font }))
      (Platform.Privileged m (· = { k with canvas := { k.canvas with font } })) := by
    refine completes_kernel fun k' hk' => ⟨.inl hcr3, ?_⟩
    rw [hk']
    rfl
  have hlfb : Completes (platform idt)
      (Platform.Privileged m (· = { k with canvas := { k.canvas with font } }))
      (request (.kernel fun _ => modifyCanvas fun c => { c with lfb }))
      (Platform.Privileged m
        (Kernel.Typed [] { k with canvas := { k.canvas with lfb, font } })) := by
    refine completes_kernel fun k' hk' => ⟨.inl hcr3, ?_⟩
    rw [hk']
    exact .refl _
  have hwelcome := @completes_typed idt m { k with canvas := { k.canvas with lfb, font } } [] hcr3
    "Welcome to KessOS Paranoid Edition!\n"
  rw [List.nil_append] at hwelcome
  refine hfont.bind fun _ => hlfb.bind fun _ => hwelcome.bind fun _ => ?_
  rw [pagedCanvas, startTexts] at hin
  have hsystem : Completes (platform idt) _ (initSystem pml4 isr meminfo rsdp) _ :=
    completes_initSystem (k := { k with canvas := { k.canvas with lfb, font } }) hcr3 hinit hin
  exact (hsystem.bind fun _ => completes_initDevices).bind fun _ => completes_sti

end

/-! ### `_start` -/

/-- What `_start` has set up when it lets interrupts in. -/
structure Ready (pml4 : Addr) (isr : Handler → BitVec 64) (idt : BitVec 64) (meminfo : MemInfo)
    (s s' : Platform) : Prop where
  segmented : Segmented s'.cpu
  gdtr : s'.cpu.gdtr = gdtPointer
  interruptible : s'.cpu.Interruptible
  iopl : s'.cpu.iopl = 0
  vectors : s'.idt = initIdt isr
  idtr : s'.idtr = some (idtInstall idt)
  vmm : (vmmInit pml4 meminfo).run s.vmm = .ok () s'.vmm
  timerOnly : TimerOnly s'.board.settings
  frequency : (s'.board.pit 0).period = some 11931
  devices : ∃ flags b r, flags &&& usingApic = 0 ∧
    Runs ports (initPic >>= fun _ => pitInit flags) b r s'.board

variable {lfb : Framebuffer} {font : Psf1Font}

/-- The ports leave the rest alone. -/
theorem onPorts_viewed {α : Type} {p : PortM α} {w w' : View × Logger} {a : α}
    (h : Runs (viewed idt) (onPorts p) w a w') : w' = w :=
  Runs.lift_unchanged (f := id) (fun _ _ _ _ hans => hans) (fun _ _ hmove => False.elim hmove) h

theorem kernFlags_viewed {w w' : View × Logger} {b : BitVec 8}
    (h : Runs (α := BitVec 8) (viewed idt) (request .kernFlags) w b w') : w' = w :=
  ((runs_request ..).mp h).2

/-- The devices have nothing to do with the rest. -/
theorem initDevices_viewed {w w' : View × Logger} (h : Runs (viewed idt) initDevices w () w') :
    w'.1 = w.1 := by
  obtain ⟨_, w₁, hset, h₁⟩ := runs_bind.mp h
  obtain ⟨flags, w₂, hread, h₂⟩ := runs_bind.mp h₁
  obtain ⟨-, rfl⟩ := runs_kernel.mp hset
  obtain rfl := kernFlags_viewed hread
  split_ifs at h₂
  · obtain ⟨_, w₃, hpic, h₃⟩ := runs_bind.mp h₂
    obtain ⟨_, w₄, hread', h₄⟩ := runs_bind.mp h₃
    obtain ⟨_, w₅, hpit, h₅⟩ := runs_bind.mp h₄
    rw [((runs_done_of_still viewed_still).mp h₅).2, onPorts_viewed hpit, kernFlags_viewed hread',
      onPorts_viewed hpic]
  · rw [((runs_done_of_still viewed_still).mp h₂).2]

/-- The parts of `_start`, one after the other. -/
theorem startUntilSti_ready (hidt : s.idt = fun _ => 0)
    (h : Runs (platform idt) (startUntilSti pml4 isr lfb font meminfo rsdp) s () s') :
    Ready pml4 isr idt meminfo s s' ∧ s.cpu.cpl = 0 ∧
      InitIn s'.vmm.Maps s'.vmm.mem rsdp
        (pagedCanvas lfb font (chosenSegment s.vmm meminfo).physAddr s.logger.kernel.canvas)
        s.logger.kernel.kernFlags := by
  obtain ⟨_, s₁, hfont, h⟩ := runs_bind.mp h
  obtain ⟨_, s₂, hlfb, h⟩ := runs_bind.mp h
  obtain ⟨_, s₃, hlog, h⟩ := runs_bind.mp h
  obtain ⟨_, s₅, hinit, hsti⟩ := runs_bind.mp h
  obtain ⟨_, s₄, hsystem, hdevices⟩ := runs_bind.mp hinit
  have hmap {α : Type} {p : PlatformM α} {s s' : Platform} {a : α}
      (h : Runs (platform idt) p s a s') :
      Runs (viewed idt) p (s.view, s.logger) a (s'.view, s'.logger) :=
    h.map view_answers view_moves
  obtain ⟨-, hw₁⟩ := runs_kernel.mp (hmap hfont)
  obtain ⟨hv₁, hl₁⟩ := Prod.mk.inj hw₁
  obtain ⟨-, hw₂⟩ := runs_kernel.mp (hmap hlfb)
  obtain ⟨hv₂, hl₂⟩ := Prod.mk.inj hw₂
  obtain ⟨l, hl, -, hw₃⟩ := logInfo_viewed (hmap hlog)
  obtain ⟨hv₃, rfl⟩ := Prod.mk.inj hw₃
  obtain ⟨hcpl, m, hvmm, hin, hv₄⟩ := initSystem_viewed (hmap hsystem)
  change s₄.view = _ at hv₄
  have hv₅ : s₅.view = s₄.view := initDevices_viewed (hmap hdevices)
  have hv' : s'.view = { s₅.view with interruptFlag := interruptFlag } :=
    congrArg Prod.fst ((runs_request ..).mp (hmap hsti))
  obtain ⟨flags, r, hflags, hrun⟩ := initDevices_run hdevices
  obtain ⟨t, t', hbefore, ⟨-, rfl⟩, hbehind⟩ := Runs.of_perform (o := PlatformOp.sti) hsti
  have hboard := (hrun.then_moves (moves_board hbefore).1).then_moves (moves_board hbehind).1
  obtain ⟨-, htimer, hpit⟩ := initPic_pitInit_settings hflags hboard
  have hv : s'.view =
      { s.view with
        cs := 0x08
        ss := 0x10
        data := (0x10, 0x10, 0x10, 0x10)
        gdtr := gdtPointer
        interruptFlag := interruptFlag
        iopl := 0
        idt := setVecs s.idt (initVectors isr)
        idtr := some (idtInstall idt)
        vmm := m } := by
    rw [hv', hv₅, hv₄, hv₃, hv₂, hv₁]
    rfl
  have hgdtr := congrArg View.gdtr hv
  have hm : s'.vmm = m := congrArg View.vmm hv
  rw [hv₃, hv₂, hv₁] at hcpl hvmm hin
  refine ⟨⟨?_, hgdtr, ?_, congrArg View.iopl hv, ?_, congrArg View.idtr hv, ?_, htimer, ?_, ?_⟩,
    hcpl, ?_⟩
  · exact segmented_of_selectors hgdtr (congrArg View.cs hv) (congrArg View.ss hv)
      (congrArg View.data hv)
  · show s'.view.interruptFlag ≠ 0
    rw [hv]
    show interruptFlag ≠ 0
    decide
  · refine (congrArg View.idt hv).trans ?_
    show setVecs s.idt (initVectors isr) = initIdt isr
    rw [hidt, initIdt]
  · rw [hm]
    exact hvmm
  · rw [hpit, Function.update_self]
    rfl
  · exact ⟨flags, _, r, hflags, hboard⟩
  · rw [hl, log_canvas, log_kernFlags, hl₂, hl₁] at hin
    rw [hm, pagedCanvas, startTexts, replay_append]
    exact hin

/-- Until then no interrupt gets in. -/
theorem init_not_interruptible (h : Runs (platform idt) (init pml4 isr meminfo rsdp) s () s') :
    ¬ s'.cpu.Interruptible := by
  obtain ⟨_, s₁, hsystem, hdevices⟩ := runs_bind.mp h
  obtain ⟨-, m, -, -, hv₁⟩ := initSystem_viewed (hsystem.map view_answers view_moves)
  have hv : s'.view = s₁.view := initDevices_viewed (hdevices.map view_answers view_moves)
  change s₁.view = _ at hv₁
  show ¬ s'.view.interruptFlag ≠ 0
  rw [hv, hv₁]
  simp

/-- **The kernel starts.**  `_start` comes to `STI` exactly if it runs in the kernel's ring,
`vmm_init` does not halt, and all that `init` uses of what the kernel was handed over is mapped by
the tables that `vmm_init` leaves.  Then everything is ready, and `init` has kept interrupts off,
whatever the processor and the devices were left in, and whatever the lines of the devices do. -/
theorem startUntilSti_iff (hidt : s.idt = fun _ => 0) (hcr3 : s.vmm.cr3 = none) :
    ((∃ s', Runs (platform idt) (startUntilSti pml4 isr lfb font meminfo rsdp) s () s') ↔
      s.cpu.cpl = 0 ∧ ∃ m, (vmmInit pml4 meminfo).run s.vmm = .ok () m ∧
        InitIn m.Maps m.mem rsdp
          (pagedCanvas lfb font (chosenSegment s.vmm meminfo).physAddr s.logger.kernel.canvas)
          s.logger.kernel.kernFlags) ∧
    (∀ s', Runs (platform idt) (startUntilSti pml4 isr lfb font meminfo rsdp) s () s' →
      Ready pml4 isr idt meminfo s s') ∧
    ∀ s₁ s₂, Runs (platform idt) (init pml4 isr meminfo rsdp) s₁ () s₂ →
      ¬ s₂.cpu.Interruptible := by
  refine ⟨⟨?_, ?_⟩, fun s' h => (startUntilSti_ready hidt h).1, fun _ _ => init_not_interruptible⟩
  · rintro ⟨s', h⟩
    obtain ⟨hready, hcpl, hin⟩ := startUntilSti_ready hidt h
    exact ⟨hcpl, _, hready.vmm, hin⟩
  · rintro ⟨hcpl, m, hinit, hin⟩
    obtain ⟨_, s', hrun, -⟩ := completes_startUntilSti hcr3 hinit hin s ⟨hcpl, rfl, rfl⟩
    exact ⟨s', hrun⟩

/-! ### A machine of 20 MiB -/

/-- Its memory: the memory map with one segment at 0x1000, the RSDP at 0xE0000, an RSDT with one
entry at 0xE1000, and the APIC table that it points to. -/
def firmwareMem : PhysMem :=
  storeBytes (storeBytes (storeBytes (storeBytes (storeBytes (oneSegmentMem 0x400000#64 4096#64)
    0xE0000 (chars "RSD PTR ")) 0xE0010 [0x00, 0x10, 0x0E]) 0xE1004 [40, 0, 0, 0, 0, 170])
    0xE1024 [0x00, 0x20, 0x0E]) 0xE2000 (chars "APIC")

def firmwareScreen : Framebuffer where
  addr := 0x8000
  baseAddr := 0x80000000
  width := 1024
  height := 768
  ppsl := 1024

/-- The machine as a firmware may leave it, with interrupts on and `IOPL` at 3. -/
def firmwarePlatform : Platform where
  cpu :=
    { idleMachine with
      cs := 0x38
      ss := 0x30
      rflags := 0x3202
      ds := 0x30
      es := 0x30
      fs := 0x30
      gs := 0x30
      gdtr := ⟨0, []⟩ }
  idt := fun _ => 0
  idtr := none
  logger := ⟨.start firmwareScreen plainFont, ⟨fun _ => 0, []⟩, ⟨fun _ => 0, []⟩, []⟩
  vmm := bootState firmwareMem
  board := idleBoard

theorem chosenSegment_firmware :
    chosenSegment (bootState firmwareMem) oneSegmentInfo = ⟨7, 0x400000#64, 0, 4096#64, 0⟩ := by
  decide

theorem pagedCanvas_firmware :
    pagedCanvas firmwareScreen plainFont 0x400000 (.initial firmwareScreen plainFont) =
      ⟨0, 295, 0, firmwareScreen, plainFont⟩ := by decide +kernel

/-- Whatever the tables say, there is room for what `init` types. -/
theorem along_firmware (mem : PhysMem) : Along Canvas.act
    (fun c t => t.2 = newline ∨ (t.2.toNat < 128 ∧ c.RoomFor))
    ⟨0, 295, 0, firmwareScreen, plainFont⟩ (typedLogs (initLogs mem rsdp usingAcpi)) := by
  unfold initLogs acpiLogs verifyLogs searchLogs
  dsimp only
  split_ifs <;> decide +kernel

/-- `vmm_init` completes on it, and what it was handed stays mapped. -/
theorem vmmInit_firmware :
    ∃ m, (vmmInit 0x200000#64 oneSegmentInfo).run (bootState firmwareMem) = .ok () m ∧
      InitIn m.Maps m.mem 0xE0000
        (pagedCanvas firmwareScreen plainFont 0x400000 (.initial firmwareScreen plainFont))
        usingAcpi := by
  have hchosen := chosenSegment_firmware
  have haligned : (chosenSegment (bootState firmwareMem) oneSegmentInfo).physAddr.toNat %
      pageSize = 0 := by
    rw [hchosen]
    decide
  have hbelow : (chosenSegment (bootState firmwareMem) oneSegmentInfo).stop ≤ 2 ^ 48 := by
    rw [hchosen]
    decide
  have hapart : ∀ x, (chosenSegment (bootState firmwareMem) oneSegmentInfo).Contains x →
      ¬ InPml4 0x200000#64 x := by
    rw [hchosen]
    exact MemDesc.not_inPml4 (by decide)
  have hinit : initPages ≤ initPages := le_rfl
  obtain ⟨m, hrun⟩ := vmmInit_returns (by decide) haligned hbelow hapart hinit
    (by rw [hchosen, initPages_eq]; decide) (by rw [hchosen, card_tablesBelow_init]; decide)
  have hlow : ∀ b, b.toNat < 6 * gb → m.Maps b := fun b hb =>
    (vmmInit_maps_iff (by decide) haligned hbelow hapart hrun b).mpr (.inl hb)
  -- The tables lie below the root, and are left alone.
  have hkept : ∀ f < 0x200, m.mem f = firmwareMem f := by
    intro f hf
    refine vmmInit_mem (by decide) haligned hbelow hapart hrun (hf.ne) ?_
    rw [hchosen]
    intro hseg
    exact absurd hseg.1 (not_le.mpr (hf.trans (by decide)))
  have hrsdt : rsdtOf m.mem 0xE0000 = 0xE1000 := by
    rw [rsdtOf, load32_congr hkept (by decide)]
    decide
  have hlength : load32 m.mem (rsdtOf m.mem 0xE0000 + 4) = 40 := by
    rw [hrsdt, load32_congr hkept (by decide)]
    decide
  refine ⟨m, hrun, ?_, ?_⟩
  · rw [pagedCanvas_firmware]
    refine typedIn_of_low hlow ?_ (along_firmware m.mem)
    exact ⟨by decide, by decide, by decide, by decide, rfl, by decide, by decide, by decide⟩
  · exact tablesIn_of_low hlow (by decide) (by rw [hlength]; decide) (by rw [hlength]; decide)

/-- It starts. -/
theorem startUntilSti_firmware :
    ∃ s', Runs (platform 0x103000)
        (startUntilSti 0x200000#64 (fun _ => 0x102000) firmwareScreen plainFont oneSegmentInfo
          0xE0000) firmwarePlatform () s' ∧
      Segmented s'.cpu ∧ s'.cpu.Interruptible ∧ s'.cpu.iopl = 0 := by
  have hidt : firmwarePlatform.idt = fun _ => 0 := rfl
  have hcr3 : firmwarePlatform.vmm.cr3 = none := rfl
  obtain ⟨m, hvmm, hin⟩ := vmmInit_firmware
  obtain ⟨s', hrun⟩ := (startUntilSti_iff hidt hcr3).1.mpr ⟨by decide, m, hvmm, by
    rw [show (chosenSegment firmwarePlatform.vmm oneSegmentInfo).physAddr = 0x400000 from
      congrArg MemDesc.physAddr chosenSegment_firmware]
    exact hin⟩
  have h := (startUntilSti_iff hidt hcr3).2.1 s' hrun
  exact ⟨s', hrun, h.segmented, h.interruptible, h.iopl⟩

end KessOS
