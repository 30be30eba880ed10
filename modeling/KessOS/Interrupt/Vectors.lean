import KessOS.Interrupt.Cpu
import KessOS.Interrupt.Idt

/-!
# The vectors of the kernel

The calls of `idt_set_vec` in `init` of `kernel.c`, `idt_install` of `IDT.c`, and how the processor
finds a handler by the two tables.
-/

namespace KessOS

/-- The handlers of `exceptions.asm` and of `irq.asm`. -/
inductive Handler
  | div0Handler
  | debugException
  | breakpointException
  | overflowException
  | boundrangeExceededException
  | invalidOpcodeException
  | devNotAvailException
  | doubleFault
  | invalidTssException
  | segmentNotPresent
  | stackSegmentFault
  | generalProtectionFault
  | pageFault
  | irq0Handler
deriving DecidableEq, Repr

/-- The arguments of the calls, in their order. -/
def vectors : List (BitVec 8 × Handler × GateAttr) :=
  [(0x0, .div0Handler, trapGateFlags),
    (0x1, .debugException, trapGateFlags),
    (0x3, .breakpointException, trapGateFlags),
    (0x4, .overflowException, trapGateFlags),
    (0x5, .boundrangeExceededException, trapGateFlags),
    (0x6, .invalidOpcodeException, trapGateFlags),
    (0x7, .devNotAvailException, trapGateFlags),
    (0x8, .doubleFault, trapGateFlags),
    (0xA, .invalidTssException, trapGateFlags),
    (0xB, .segmentNotPresent, trapGateFlags),
    (0xC, .stackSegmentFault, trapGateFlags),
    (0xD, .generalProtectionFault, trapGateFlags),
    (0xE, .pageFault, trapGateFlags),
    (0x20, .irq0Handler, intGateFlags)]

/-- The calls, with the handlers where the linker puts them. -/
def initVectors (isr : Handler → BitVec 64) : List SetVec :=
  vectors.map fun v => ⟨v.1, isr v.2.1, v.2.2⟩

/-- The array `idt` after them: as a static, it starts as zero. -/
def initIdt (isr : Handler → BitVec 64) : Idt := setVecs (fun _ => 0) (initVectors isr)

/-- The handler that `init` sets for a vector, and the attributes of its gate. -/
def handlerOf (vec : BitVec 8) : Option (Handler × GateAttr) :=
  (vectors.find? fun v => v.1 = vec).map Prod.snd

/-- `struct IDTPtr`. -/
structure IdtPtr where
  limit : BitVec 16
  base : BitVec 64
deriving DecidableEq, Repr

/-- `idt_install`, with the address of `idt`. -/
def idtInstall (idt : BitVec 64) : IdtPtr where
  limit := BitVec.ofNat 16 (16 * 256 - 1)
  base := idt

/-! ### Delivery -/

/-- The gate is present, and is an interrupt gate or a trap gate of 64 bits. -/
def Gate.valid (gate : Gate) : Bool :=
  gate.attributes.getLsbD 7 && !gate.attributes.getLsbD 4 &&
    gate.attributes.extractLsb' 1 3 == 7

/-- The gate leaves `IF` alone. -/
def Gate.trap (gate : Gate) : Bool := gate.attributes.getLsbD 0

/-- The processor behind the delivery of an interrupt from outside or of an `INT`, unless the
delivery is an exception: the gate must lie within the limit and be valid, and its selector must
stand for code of the kernel. -/
def Cpu.take (c : Cpu) (idtr : IdtPtr) (idt : Idt) (vec : BitVec 8) : Option Cpu :=
  let gate := Gate.decode (idt vec)
  if 16 * vec.toNat + 15 ≤ idtr.limit.toNat ∧ gate.valid ∧
      (c.gdtr.fetch gate.selector).any (Descriptor.isCode 0) then
    some { c with
      toMachine :=
        { c.deliver gate.offset with
          cs := gate.selector
          rflags :=
            if gate.trap then c.rflags &&& ~~~(gateFlags &&& ~~~interruptFlag)
            else c.rflags &&& ~~~gateFlags } }
  else none

end KessOS
