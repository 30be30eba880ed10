import KessOS.Interrupt.Machine

/-!
# The timer interrupt

`irq0_handler` of `interrupts/asm/irq.asm`, for a `pit_tick` that is compiled for the SysV ABI,
and the runs of a machine whose code is interrupted by it.
-/

namespace KessOS

/-- The registers that a SysV function preserves. -/
def calleeSaved : List Reg := [.rbx, .rbp, .r12, .r13, .r14, .r15]

/-- What holds of `pit_tick` from its first instruction to its return: it increments `ticks`, and
the ABI lets it change the caller-saved registers, the status flags and the memory from its
return address down. -/
structure PitTick (pitTick : Machine → Machine) : Prop where
  ticks : ∀ m, (pitTick m).ticks = m.ticks + 1
  rip : ∀ m, (pitTick m).rip = m.mem m.rsp
  rsp : ∀ m, (pitTick m).rsp = m.rsp + 8#64
  regs : ∀ m, ∀ r ∈ calleeSaved, (pitTick m).regs r = m.regs r
  cs : ∀ m, (pitTick m).cs = m.cs
  ss : ∀ m, (pitTick m).ss = m.ss
  interruptFlag : ∀ m, (pitTick m).rflags &&& interruptFlag = m.rflags &&& interruptFlag
  mem : ∀ m a, m.rsp.toNat < a.toNat → (pitTick m).mem a = m.mem a

/-- `irq0_handler`. -/
def irq0Handler (pitTick : Machine → Machine) : List Instr :=
  [.cli, .call pitTick, .movAl 0x20, .outAl 0x20, .sti, .retq]

/-- The machine when the handler, which lies at `handler`, returns from an interrupt. -/
def irq0 (pitTick : Machine → Machine) (handler : BitVec 64) (m : Machine) : Option Machine :=
  runUntilRet (irq0Handler pitTick) handler (irq0Handler pitTick).length (m.deliver handler)

/-- The code interrupted in `m` goes on in `m'` as if nothing had happened but a tick.  Below the
stack pointer memory may differ. -/
structure Transparent (m m' : Machine) : Prop where
  rip : m'.rip = m.rip
  cs : m'.cs = m.cs
  rflags : m'.rflags = m.rflags
  rsp : m'.rsp = m.rsp
  ss : m'.ss = m.ss
  regs : m'.regs = m.regs
  ticks : m'.ticks = m.ticks + 1
  mem : ∀ a, m.rsp.toNat ≤ a.toNat → m'.mem a = m.mem a

/-- A run of code, one step of which `code` describes, with the interrupts delivered in it: the
machine before each and the machine when its handler returned. -/
inductive IrqRun (code : Machine → Machine → Prop) (pitTick : Machine → Machine)
    (handler : BitVec 64) : Machine → List (Machine × Machine) → Machine → Prop
  | refl (m : Machine) : IrqRun code pitTick handler m [] m
  | code {m m₁ m₂ : Machine} {irqs : List (Machine × Machine)} :
      IrqRun code pitTick handler m irqs m₁ → code m₁ m₂ →
      IrqRun code pitTick handler m irqs m₂
  | irq {m m₁ m₂ : Machine} {irqs : List (Machine × Machine)} :
      IrqRun code pitTick handler m irqs m₁ → m₁.Interruptible →
      irq0 pitTick handler m₁ = some m₂ →
      IrqRun code pitTick handler m (irqs ++ [(m₁, m₂)]) m₂

end KessOS
