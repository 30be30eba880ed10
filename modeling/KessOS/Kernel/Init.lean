import KessOS.Acpi.Basic
import KessOS.Interrupt.Vectors
import KessOS.Io.Pic
import KessOS.Kernel.Log
import KessOS.Timer.Freq
import KessOS.Vmm.Basic

/-!
# The initialisation of the kernel

`_start` and `init` of `kernel.c` up to `STI`, with `vmm_init` and what it logs, over all that
they set up: the segments and the flags of the processor, the table of the interrupts, the page
tables, the globals and the devices.  The compiled code between the calls may do what it likes to
the general registers and to the stack; it does not touch the segments, `GDTR`, `IF` and `IOPL`.

Once `CR3` is loaded, what the bootloader handed over is found only where the page tables map it:
an access elsewhere faults, and the kernel does not come back from it.  The image of the kernel and
its stack are taken to stay mapped.
-/

namespace KessOS

open Interaction

/-- What is set up.  `idtr` is nothing as long as it is that of the firmware. -/
structure Platform where
  cpu : Cpu
  idt : Idt
  idtr : Option IdtPtr
  logger : Logger
  vmm : Vmm
  board : Board

/-- The steps that matter. -/
inductive PlatformOp
  | port (o : PortOp)
  | gdtLoad
  | zeroIopl
  | sti
  | idtSetVec (call : SetVec)
  | idtInstall
  | vmm (x : VmmM Unit)
  | placement
  | log (args : List Arg) (x : PhysMem → LogM Unit)
  | kernel (x : PhysMem → KernelM Unit)
  | kernFlags

abbrev PlatformOp.Ans : PlatformOp → Type
  | .port o => o.Ans
  | .placement => BitVec 64
  | .kernFlags => BitVec 8
  | _ => Unit

abbrev PlatformM := Prog PlatformOp.Ans

/-- A `call` that is to return to `ret`. -/
def Cpu.called (c : Cpu) (ret : BitVec 64) : Cpu := { c with toMachine := c.toMachine.push ret }

/-- The processor behind the call of a function in assembly. -/
def Cpu.Calls (code : List CpuInstr) (c c' : Cpu) : Prop :=
  ∃ ret, (c.called ret).runCode code = some c'

/-- What compiled code leaves alone. -/
structure Cpu.SameSystem (c c' : Cpu) : Prop where
  cs : c'.cs = c.cs
  ss : c'.ss = c.ss
  data : c'.ds = c.ds ∧ c'.es = c.es ∧ c'.fs = c.fs ∧ c'.gs = c.gs
  gdtr : c'.gdtr = c.gdtr
  interruptFlag : c'.rflags &&& KessOS.interruptFlag = c.rflags &&& KessOS.interruptFlag
  iopl : c'.iopl = c.iopl

/-- The accesses are to mapped bytes, once `CR3` is loaded.  Before that the tables of the firmware
are in use, in which everything is mapped. -/
def Vmm.Admits (s : Vmm) (as : List Access) : Prop := s.cr3 = none ∨ ∀ a ∈ as, a.Within s.Maps

/-- A machine that has stopped in a halt or in a fault has no answer.  The memory manager only works
before `CR3` is loaded. -/
def platform (idt : BitVec 64) : Component PlatformOp.Ans Platform where
  answers
    | .port o, s, b, s' => ∃ board, ports.answers o s.board b board ∧ s' = { s with board }
    | .gdtLoad, s, _, s' => ∃ cpu, s.cpu.Calls gdtLoad cpu ∧ s' = { s with cpu }
    | .zeroIopl, s, _, s' => ∃ cpu, s.cpu.Calls zeroIopl cpu ∧ s' = { s with cpu }
    | .sti, s, _, s' =>
      s.cpu.cpl ≤ s.cpu.iopl ∧
        s' = { s with cpu := { s.cpu with rflags := s.cpu.rflags ||| interruptFlag } }
    | .idtSetVec call, s, _, s' => s' = { s with idt := call.run s.idt }
    | .idtInstall, s, _, s' =>
      s.cpu.cpl = 0 ∧ s' = { s with idtr := some (idtInstall idt) }
    | .vmm x, s, _, s' =>
      s.vmm.cr3 = none ∧ ∃ vmm, x.run s.vmm = .ok () vmm ∧ s' = { s with vmm }
    | .placement, s, b, s' => b = s.vmm.placement ∧ s' = s
    | .log args x, s, _, s' =>
      ∃ logger, (x s.vmm.mem).run { s.logger with args } = .ok () logger ∧
        s.vmm.Admits (s.logger.kernel.since logger.kernel) ∧ s' = { s with logger }
    | .kernel x, s, _, s' =>
      let kernel := s.logger.kernel.after (x s.vmm.mem)
      s.vmm.Admits (s.logger.kernel.since kernel) ∧
        s' = { s with logger := { s.logger with kernel } }
    | .kernFlags, s, b, s' => b = s.logger.kernel.kernFlags ∧ s' = s
  moves s s' :=
    (∃ irq high, s' = { s with board := s.board.setLine irq high }) ∨
      ∃ cpu, s.cpu.SameSystem cpu ∧ s' = { s with cpu }

/-! ### The program -/

def request (o : PlatformOp) : PlatformM o.Ans := Prog.perform o

/-- A call of `log` with a format that has no conversion. -/
def logInfo (format : String) : PlatformM Unit :=
  request (.kernel fun mem => logText mem format .info)

/-- The ports are those of the board. -/
def onPorts {α : Type} (p : PortM α) : PlatformM α := p.lift PlatformOp.port fun _ b => b

def onVmm (x : VmmM Unit) : PlatformM Unit := request (.vmm x)

/-- `vmm_init`. -/
def vmmInitLogging (pml4 : Addr) (meminfo : MemInfo) : PlatformM Unit := do
  logInfo "Setting allocation base..\n"
  onVmm do
    setAllocBase meminfo
    if (← get).placement = 0xDEADBEEF#64 then throw .noUsableMemory
  let placement ← request .placement
  request (.log [.int (placement.setWidth 32)] fun mem =>
    log mem (chars "Allocation base set at %x\n") .info)
  logInfo "Zeroing PML4..\n"
  onVmm (memzero pml4 pageSize)
  logInfo "Identity mapping some address space for KessKernel..\n"
  onVmm do
    initAddrs.forM fun addr => mapPage pml4 addr (pageBitRwWritableFlag ||| pageBitPPresentFlag)
  logInfo "Finished mapping..\n"
  logInfo "Loading PML4 into CR3 register..\n"
  onVmm (loadPml4 pml4)
  logInfo "Finished setting up VMM.\n"

variable (pml4 : Addr) (isr : Handler → BitVec 64)

/-- `init` up to `acpi_init`. -/
def initSystem (meminfo : MemInfo) (rsdp : Addr) : PlatformM Unit := do
  logInfo "Setting up Global Descriptor Table..\n"
  request .gdtLoad
  logInfo "Setting up exceptions..\n"
  ((initVectors isr).take 13).forM fun call => request (.idtSetVec call)
  logInfo "Setting up IRQs..\n"
  ((initVectors isr).drop 13).forM fun call => request (.idtSetVec call)
  logInfo "Loading IDTR with Interrupt Descriptor Table Pointer..\n"
  request .idtInstall
  logInfo "Setting up L4 paging..\n"
  vmmInitLogging pml4 meminfo
  logInfo "Setting IOPL of EFLAGS to 0 (ring 0 access only).\n"
  request .zeroIopl
  logInfo "Setting up ACPI..\n"
  request (.kernel fun mem => acpiInit mem rsdp)

/-- `init` from there on. -/
def initDevices : PlatformM Unit := do
  request (.kernel fun _ => setFlags (· &&& ~~~usingApic))
  if (← request .kernFlags) &&& usingApic = 0 then
    onPorts initPic
    let flags ← request .kernFlags
    -- The frequency is not zero, so `pit_init` returns.
    let _ ← onPorts (pitInit flags)

/-- `init`. -/
def init (meminfo : MemInfo) (rsdp : Addr) : PlatformM Unit := do
  initSystem pml4 isr meminfo rsdp
  initDevices

/-- `_start` up to `STI`, with the canvas as the loader hands it over. -/
def startUntilSti (lfb : Framebuffer) (font : Psf1Font) (meminfo : MemInfo) (rsdp : Addr) :
    PlatformM Unit := do
  request (.kernel fun _ => modifyCanvas fun c => { c with font })
  request (.kernel fun _ => modifyCanvas fun c => { c with lfb })
  logInfo "Welcome to KessOS Paranoid Edition!\n"
  init pml4 isr meminfo rsdp
  request .sti

end KessOS
