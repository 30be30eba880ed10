import KessOS.Device.I8254
import KessOS.Device.I8259
import KessOS.Interaction.Prog

/-!
# The byte ports

`outportb`, `inportb` and `io_wait` of `arch/io/impl/io.c`, and the devices that the kernel
programs through them: the two interrupt controllers and the interval timer.  The lines of the
controllers go up and down whenever the devices on them like.
-/

namespace KessOS

open Interaction

/-- `in` and `out`. -/
inductive PortOp
  | inb (port : BitVec 16)
  | outb (port : BitVec 16) (data : BitVec 8)
deriving DecidableEq, Repr

/-- The type of the answer. -/
abbrev PortOp.Ans : PortOp → Type
  | .inb _ => BitVec 8
  | .outb _ _ => Unit

abbrev PortM := Prog PortOp.Ans

/-- `inportb`. -/
def inportb (port : BitVec 16) : PortM (BitVec 8) := Prog.perform (PortOp.inb port)

/-- `outportb`. -/
def outportb (port : BitVec 16) (data : BitVec 8) : PortM Unit :=
  Prog.perform (PortOp.outb port data)

/-- `io_wait`. -/
def ioWait : PortM Unit := outportb 0x80 0x0

/-! ### The devices -/

/-- The ports of `legacy-pic.h` and of `pit.c`. -/
def pic1Command : BitVec 16 := 0x20
def pic1Data : BitVec 16 := 0x21
def pic2Command : BitVec 16 := 0xA0
def pic2Data : BitVec 16 := 0xA1
def channel0 : BitVec 16 := 0x40
def channel1 : BitVec 16 := 0x41
def channel2 : BitVec 16 := 0x42
def channel3 : BitVec 16 := 0x43

/-- The interrupt controllers and the timer. -/
structure Board where
  pics : I8259.Pair
  pit : I8254.Timer

/-- A byte goes to the device at a port. -/
def Board.write (b : Board) (port : BitVec 16) (data : BitVec 8) : Board :=
  if port = pic1Command then { b with pics := b.pics.command data }
  else if port = pic1Data then { b with pics := b.pics.data data }
  else if port = pic2Command then { b with pics := b.pics.slaveCommand data }
  else if port = pic2Data then { b with pics := b.pics.slaveData data }
  else if port = channel0 then { b with pit := I8254.Timer.data b.pit I8254.counter0 data }
  else if port = channel1 then { b with pit := I8254.Timer.data b.pit I8254.counter1 data }
  else if port = channel2 then { b with pit := I8254.Timer.data b.pit I8254.counter2 data }
  else if port = channel3 then { b with pit := I8254.Timer.control b.pit data }
  else b

/-- The bytes that a port may give: the masks are known, of the other ports nothing is said. -/
def Board.Reads (b : Board) (port : BitVec 16) (data : BitVec 8) : Prop :=
  (port = pic1Data → data = b.pics.master.imr) ∧ (port = pic2Data → data = b.pics.slave.imr)

/-- A line of the interrupt controllers. -/
def Board.setLine (b : Board) (irq : Fin 16) (high : Bool) : Board :=
  { b with pics := b.pics.setLine irq high }

/-- What happens on the board: the processor reads and writes, and lines change. -/
def ports : Component PortOp.Ans Board where
  answers
    | .inb port, b, data, b' => b.Reads port data ∧ b' = b
    | .outb port data, b, _, b' => b' = b.write port data
  moves b b' := ∃ irq high, b' = b.setLine irq high

end KessOS
