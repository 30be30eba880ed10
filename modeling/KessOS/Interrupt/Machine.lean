import Mathlib.Data.BitVec

/-!
# The processor and its interrupts

The registers of the processor that an interrupt can change, memory, the ports, and the few
instructions of `interrupts/asm/irq.asm`.  Delivering an interrupt follows the 64-bit rules of
the processor without a change of privilege and without an interrupt stack: the stack is
aligned, five words are pushed and the flag `IF` is cleared.

Memory is kept by 8-byte words, as every access here is to the aligned stack; the static `ticks`
of `pit.c` is a field of its own.
-/

namespace KessOS

/-- The general registers other than `RSP`. -/
inductive Reg
  | rax | rcx | rdx | rbx | rbp | rsi | rdi
  | r8 | r9 | r10 | r11 | r12 | r13 | r14 | r15
deriving DecidableEq, Repr

/-- The state of the machine; `outputs` are the bytes written to ports, oldest first. -/
structure Machine where
  regs : Reg → BitVec 64
  rsp : BitVec 64
  rip : BitVec 64
  cs : BitVec 16
  ss : BitVec 16
  rflags : BitVec 64
  mem : BitVec 64 → BitVec 64
  ticks : BitVec 16
  outputs : List (BitVec 8 × BitVec 8)

/-- The flag `IF`. -/
def interruptFlag : BitVec 64 := 1#64 <<< 9

/-- `IF`, `TF`, `NT` and `RF`: what an interrupt gate clears. -/
def gateFlags : BitVec 64 := interruptFlag ||| 1#64 <<< 8 ||| 1#64 <<< 14 ||| 1#64 <<< 16

/-- The processor accepts interrupts. -/
def Machine.Interruptible (m : Machine) : Prop := m.rflags &&& interruptFlag ≠ 0

instance (m : Machine) : Decidable m.Interruptible := inferInstanceAs (Decidable (_ ≠ _))

def Machine.push (m : Machine) (word : BitVec 64) : Machine :=
  { m with
    rsp := m.rsp - 8#64
    mem := Function.update m.mem (m.rsp - 8#64) word }

/-- The stack pointer, aligned to 16 bytes. -/
def Machine.alignedRsp (m : Machine) : BitVec 64 := m.rsp &&& ~~~15#64

/-- The code selector that `idt_set_vec` puts into every gate. -/
def gateCs : BitVec 16 := 0x08

/-- The machine after an interrupt is delivered through a gate to `handler`. -/
def Machine.deliver (m : Machine) (handler : BitVec 64) : Machine :=
  let aligned := { m with rsp := m.alignedRsp }
  let pushed := ((((aligned.push (m.ss.setWidth 64)).push m.rsp).push m.rflags).push
    (m.cs.setWidth 64)).push m.rip
  { pushed with
    rip := handler
    cs := gateCs
    rflags := m.rflags &&& ~~~gateFlags }

/-! ### Instructions -/

/-- The instructions of the handler.  A `call` carries what its target does from its first
instruction to the one after its return. -/
inductive Instr
  | cli
  | sti
  | call (target : Machine → Machine)
  | movAl (imm : BitVec 8)
  | outAl (port : BitVec 8)
  | retq

/-- The length of the encoding. -/
def Instr.size : Instr → ℕ
  | .cli | .sti | .retq => 1
  | .movAl _ | .outAl _ => 2
  | .call _ => 5

def Instr.isRet : Instr → Bool
  | .retq => true
  | _ => false

def Machine.setAl (m : Machine) (imm : BitVec 8) : Machine :=
  { m with regs := Function.update m.regs .rax (m.regs .rax &&& ~~~0xFF#64 ||| imm.setWidth 64) }

/-- The effect of an instruction on the machine whose `RIP` points behind it. -/
def Instr.act : Instr → Machine → Machine
  | .cli, m => { m with rflags := m.rflags &&& ~~~interruptFlag }
  | .sti, m => { m with rflags := m.rflags ||| interruptFlag }
  | .call target, m => target (m.push m.rip)
  | .movAl imm, m => m.setAl imm
  | .outAl port, m => { m with outputs := m.outputs ++ [(port, (m.regs .rax).setWidth 8)] }
  | .retq, m => { m with rip := m.mem m.rsp, rsp := m.rsp + 8#64 }

def Instr.exec (i : Instr) (m : Machine) : Machine :=
  i.act { m with rip := m.rip + BitVec.ofNat 64 i.size }

/-- The instruction at the offset `off` of a piece of code. -/
def fetch : List Instr → ℕ → Option Instr
  | [], _ => none
  | i :: code, off =>
    if off = 0 then some i
    else if off < i.size then none
    else fetch code (off - i.size)

/-- Executes the code at the address `base` from `RIP` on until it returns. -/
def runUntilRet (code : List Instr) (base : BitVec 64) : ℕ → Machine → Option Machine
  | 0, _ => none
  | fuel + 1, m => do
    let i ← fetch code (m.rip - base).toNat
    if i.isRet then some (i.exec m) else runUntilRet code base fuel (i.exec m)

end KessOS
