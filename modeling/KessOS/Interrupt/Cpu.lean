import KessOS.Interrupt.Machine

/-!
# Segments and flags

`gdt_load` and the table of `arch/memory/asm/GDT.asm`, `zero_iopl` of `protection/asm/iopl.asm`,
and of the processor what they change: the segment registers, `GDTR` and the flags.  A selector is
loaded only if the table has a descriptor for it that the 64-bit mode accepts; nothing follows
otherwise.  The code is straight, so `RIP` is followed through the returns only.
-/

namespace KessOS

/-! ### Descriptors -/

/-- The 8 bytes of a descriptor, from its lines in the source. -/
def descriptor (limitLow baseLow : BitVec 16) (baseMiddle access granularity baseHigh : BitVec 8) :
    BitVec 64 :=
  baseHigh ++ granularity ++ access ++ baseMiddle ++ baseLow ++ limitLow

/-- `GDT`; the descriptor of the TSS takes two entries. -/
def gdt : List (BitVec 64) :=
  [0,
    descriptor 0 0 0 0b10011010 0b10101111 0,
    descriptor 0 0 0 0b10010010 0b00000000 0,
    descriptor 0 0 0 0b11111010 0b10101111 0,
    descriptor 0 0 0 0b11110010 0b00000000 0,
    0, 0]

/-- What `GDTR` points to. -/
structure DescriptorTable where
  limit : BitVec 16
  entries : List (BitVec 64)

/-- `Pointer`. -/
def gdtPointer : DescriptorTable where
  limit := BitVec.ofNat 16 (8 * gdt.length) - 1
  entries := gdt

namespace DescriptorTable

/-- The descriptor that a selector stands for; there is no local table. -/
def fetch (table : DescriptorTable) (selector : BitVec 16) : Option (BitVec 64) :=
  if selector.getLsbD 2 then none
  else if 8 * (selector >>> 3).toNat + 7 ≤ table.limit.toNat then
    table.entries[(selector >>> 3).toNat]?
  else none

end DescriptorTable

/-- The privilege level in a selector. -/
def requested (selector : BitVec 16) : BitVec 2 := selector.extractLsb' 0 2

namespace Descriptor

/-- The fields that are looked at. -/
def present (d : BitVec 64) : Bool := d.getLsbD 47
def dpl (d : BitVec 64) : BitVec 2 := d.extractLsb' 45 2
def segment (d : BitVec 64) : Bool := d.getLsbD 44
def executable (d : BitVec 64) : Bool := d.getLsbD 43
def conforming (d : BitVec 64) : Bool := d.getLsbD 42
def accessible (d : BitVec 64) : Bool := d.getLsbD 41
def long (d : BitVec 64) : Bool := d.getLsbD 53 && !d.getLsbD 54

/-- Code of 64 bits that runs with the privilege level `cpl`. -/
def isCode (cpl : BitVec 2) (d : BitVec 64) : Bool :=
  present d && segment d && executable d && long d &&
    (if conforming d then dpl d ≤ cpl else dpl d = cpl)

/-- Data that code of the level `cpl` may read by a selector. -/
def isData (cpl : BitVec 2) (selector : BitVec 16) (d : BitVec 64) : Bool :=
  present d && segment d && (!executable d || accessible d) &&
    ((executable d && conforming d) || (cpl ≤ dpl d && requested selector ≤ dpl d))

/-- Data that may be the stack of the level `cpl`. -/
def isStack (cpl : BitVec 2) (d : BitVec 64) : Bool :=
  present d && segment d && !executable d && accessible d && dpl d = cpl

end Descriptor

/-! ### The processor -/

/-- The processor with its data segments and `GDTR`. -/
structure Cpu extends Machine where
  ds : BitVec 16
  es : BitVec 16
  fs : BitVec 16
  gs : BitVec 16
  gdtr : DescriptorTable

namespace Cpu

/-- The current privilege level. -/
def cpl (c : Cpu) : BitVec 2 := requested c.cs

/-- `IOPL`. -/
def ioplFlags : BitVec 64 := 1#64 <<< 12 ||| 1#64 <<< 13

def iopl (c : Cpu) : BitVec 2 := c.rflags.extractLsb' 12 2

/-- `RF`, which `popf` clears, and the flags in the image that `pushf` pushes. -/
def resumeFlag : BitVec 64 := 1#64 <<< 16
def imageFlags : BitVec 64 := 0xFCFFFF

/-- The flags that `popf` takes from the stack. -/
def poppedFlags (c : Cpu) : BitVec 64 :=
  if c.cpl = 0 then 0x247FD5
  else if c.cpl ≤ c.iopl then 0x247FD5 &&& ~~~ioplFlags
  else 0x247FD5 &&& ~~~ioplFlags &&& ~~~interruptFlag

def pop (c : Cpu) : Cpu := { c with rsp := c.rsp + 8#64 }

end Cpu

/-- A segment register that `mov` loads. -/
inductive SegReg
  | ds
  | es
  | ss
  | fs
  | gs
deriving DecidableEq, Repr

/-- The instructions of the two functions. -/
inductive CpuInstr
  | cli
  | lgdt (table : DescriptorTable)
  | movRax (imm : BitVec 64)
  | movSeg (seg : SegReg)
  | andRax (imm : BitVec 64)
  | push (r : Reg)
  | pop (r : Reg)
  | pushf
  | popf
  | retfq
  | retq

namespace Cpu

/-- The selector may be loaded into the segment register; `SS` does not take the null selector. -/
def accepts (c : Cpu) (seg : SegReg) (selector : BitVec 16) : Bool :=
  if seg = .ss then
    requested selector = c.cpl && (c.gdtr.fetch selector).any (Descriptor.isStack c.cpl)
  else
    selector &&& 0xFFFC = 0 || (c.gdtr.fetch selector).any (Descriptor.isData c.cpl selector)

def setSeg (c : Cpu) (seg : SegReg) (selector : BitVec 16) : Cpu :=
  match seg with
  | .ds => { c with ds := selector }
  | .es => { c with es := selector }
  | .ss => { c with ss := selector }
  | .fs => { c with fs := selector }
  | .gs => { c with gs := selector }

end Cpu

/-- The effect of an instruction, unless it is an exception. -/
def CpuInstr.exec : CpuInstr → Cpu → Option Cpu
  | .cli, c =>
    if c.cpl ≤ c.iopl then some { c with rflags := c.rflags &&& ~~~interruptFlag } else none
  | .lgdt table, c => if c.cpl = 0 then some { c with gdtr := table } else none
  | .movRax imm, c => some { c with regs := Function.update c.regs .rax imm }
  | .movSeg seg, c =>
    let selector := (c.regs .rax).setWidth 16
    if c.accepts seg selector then some (c.setSeg seg selector) else none
  | .andRax imm, c => some { c with regs := Function.update c.regs .rax (c.regs .rax &&& imm) }
  | .push r, c => some { c with toMachine := c.toMachine.push (c.regs r) }
  | .pop r, c => some { c.pop with regs := Function.update c.regs r (c.mem c.rsp) }
  | .pushf, c => some { c with toMachine := c.toMachine.push (c.rflags &&& Cpu.imageFlags) }
  | .popf, c => some { c.pop with
      rflags := c.rflags &&& ~~~c.poppedFlags &&& ~~~Cpu.resumeFlag |||
        c.mem c.rsp &&& c.poppedFlags }
  | .retfq, c =>
    let selector := (c.mem (c.rsp + 8#64)).setWidth 16
    if requested selector = c.cpl ∧ (c.gdtr.fetch selector).any (Descriptor.isCode c.cpl) then
      some { c.pop.pop with rip := c.mem c.rsp, cs := selector }
    else none
  | .retq, c => some { c.pop with rip := c.mem c.rsp }

/-- The processor behind a piece of straight code. -/
def Cpu.runCode (c : Cpu) (code : List CpuInstr) : Option Cpu := code.foldlM (fun c i => i.exec c) c

/-- `gdt_load`. -/
def gdtLoad : List CpuInstr :=
  [.cli, .lgdt gdtPointer, .movRax 0x10, .movSeg .ds, .movSeg .es, .movSeg .ss, .movSeg .fs,
    .movSeg .gs, .pop .rdi, .movRax 0x08, .push .rax, .push .rdi, .retfq]

/-- `zero_iopl`. -/
def zeroIopl : List CpuInstr :=
  [.pushf, .pop .rax, .andRax (~~~(1#64 <<< 12)), .andRax (~~~(1#64 <<< 13)), .push .rax, .popf,
    .retq]

end KessOS
