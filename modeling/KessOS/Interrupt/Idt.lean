import KessOS.Interrupt.Machine
import KessOS.Word.Field

/-!
# The interrupt descriptor table

`struct IDTVector` of `interrupts/IDT.h` and `idt_set_vec` of `IDT.c`.  A gate is its 16 bytes as
one word.  The fields of the structure lie as the compiler lays them out: `ist`, `zero` and
`zero1` share byte 4, whose last bit no field has, and `attr` starts the next byte, since it does
not fit into the bit that is left.  `Gate` is what the processor reads out of the 16 bytes.
-/

namespace KessOS

open Word (Field)

/-- The 16 bytes of an entry of `idt`. -/
abbrev GateBits := BitVec 128

/-- The array `idt`. -/
abbrev Idt := BitVec 8 → GateBits

/-! ### `struct IDTVector` -/

namespace IdtVector

def isrLow16 : Field 128 16 := ⟨0, by decide⟩
def cs : Field 128 16 := ⟨16, by decide⟩
def ist : Field 128 3 := ⟨32, by decide⟩
def zero : Field 128 1 := ⟨35, by decide⟩
def zero1 : Field 128 3 := ⟨36, by decide⟩
def attr : Field 128 4 := ⟨40, by decide⟩
def zero2 : Field 128 1 := ⟨44, by decide⟩
def dpl : Field 128 2 := ⟨45, by decide⟩
def p : Field 128 1 := ⟨47, by decide⟩
def isrMid16 : Field 128 16 := ⟨48, by decide⟩
def isrHigh32 : Field 128 32 := ⟨64, by decide⟩
def reserved : Field 128 32 := ⟨96, by decide⟩

/-- The bit of byte 4 that belongs to no field. -/
def padding : Field 128 1 := ⟨39, by decide⟩

end IdtVector

/-- The assignments of `idt_set_vec` to the entry `gate`. -/
def setGate (isr : BitVec 64) (flags : BitVec 32) (gate : GateBits) : GateBits :=
  let addr := isr
  let gate := IdtVector.isrLow16.set gate ((addr &&& 0xFFFF).setWidth 16)
  let gate := IdtVector.isrMid16.set gate ((addr >>> 16 &&& 0xFFFF).setWidth 16)
  let gate := IdtVector.isrHigh32.set gate ((addr >>> 32 &&& 0xFFFFFFFF).setWidth 32)
  let gate := IdtVector.zero.set gate 0
  let gate := IdtVector.zero1.set gate 0
  let gate := IdtVector.zero2.set gate 0
  let gate := IdtVector.attr.set gate (flags.setWidth 4)
  let gate := IdtVector.dpl.set gate 0
  let gate := IdtVector.p.set gate 1
  let gate := IdtVector.reserved.set gate 0
  IdtVector.cs.set gate gateCs

/-- `idt_set_vec`. -/
def idtSetVec (vec : BitVec 8) (isr : BitVec 64) (flags : BitVec 32) (idt : Idt) : Idt :=
  Function.update idt vec (setGate isr flags (idt vec))

/-! ### What the processor reads -/

/-- A gate as the processor decodes it; `attributes` is the type, a zero bit, DPL and P. -/
structure Gate where
  offset : BitVec 64
  selector : BitVec 16
  ist : BitVec 3
  zeros : BitVec 5
  attributes : BitVec 8
  reserved : BitVec 32
deriving DecidableEq, Repr

namespace Gate

def offsetLow : Field 128 16 := ⟨0, by decide⟩
def selectorField : Field 128 16 := ⟨16, by decide⟩
def istField : Field 128 3 := ⟨32, by decide⟩
def zerosField : Field 128 5 := ⟨35, by decide⟩
def attributesField : Field 128 8 := ⟨40, by decide⟩
def offsetMid : Field 128 16 := ⟨48, by decide⟩
def offsetHigh : Field 128 32 := ⟨64, by decide⟩
def reservedField : Field 128 32 := ⟨96, by decide⟩

def decode (gate : GateBits) : Gate where
  offset := offsetHigh.get gate ++ offsetMid.get gate ++ offsetLow.get gate
  selector := selectorField.get gate
  ist := istField.get gate
  zeros := zerosField.get gate
  attributes := attributesField.get gate
  reserved := reservedField.get gate

end Gate

/-- A gate attribute byte: the gate is present and is no storage segment. -/
structure GateAttr where
  byte : BitVec 8
  present : byte.getLsbD 7 = true
  system : byte.getLsbD 4 = false

/-- The privilege level in an attribute byte. -/
def GateAttr.dpl (flags : GateAttr) : BitVec 2 := flags.byte.extractLsb' 5 2

/-- `TRAP_GATE_FLAGS`. -/
def trapGateFlags : GateAttr := ⟨0x8F, rfl, rfl⟩

/-- `INT_GATE_FLAGS`. -/
def intGateFlags : GateAttr := ⟨0x8E, rfl, rfl⟩

/-- `IDT_INT_GATE_USER`. -/
def idtIntGateUser : GateAttr := ⟨0xEE, rfl, rfl⟩

/-- The gate that a call of `idt_set_vec` asks for. -/
def gateFor (isr : BitVec 64) (flags : GateAttr) : Gate where
  offset := isr
  selector := gateCs
  ist := 0
  zeros := 0
  attributes := flags.byte
  reserved := 0

/-! ### Sequences of calls -/

/-- The arguments of a call of `idt_set_vec`. -/
structure SetVec where
  vec : BitVec 8
  isr : BitVec 64
  flags : GateAttr

/-- The array after the call. -/
def SetVec.run (idt : Idt) (call : SetVec) : Idt :=
  idtSetVec call.vec call.isr (call.flags.byte.setWidth 32) idt

/-- The array after the calls. -/
def setVecs (idt : Idt) (calls : List SetVec) : Idt := calls.foldl SetVec.run idt

/-- The last of the calls that is about `vec`. -/
def lastCall (vec : BitVec 8) (calls : List SetVec) : Option SetVec :=
  calls.reverse.find? fun call => call.vec = vec

end KessOS
