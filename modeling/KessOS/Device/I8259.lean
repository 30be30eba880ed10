import Mathlib.Data.BitVec
import Mathlib.Data.List.FinRange

/-!
# The 8259A interrupt controller

One chip, and two in cascade with the slave on line 2 of the master, as the data sheet describes
them, in the fully nested mode: level 0 comes first.  A request is an edge, or with bit 3 of ICW1
a level, and is gone when its line falls before it is acknowledged.  Rotating priorities, the
special modes and OCW3 are left out, as is the vector of the 8080 mode.
-/

namespace I8259

/-- What the next byte at the odd address is. -/
inductive Expects
  | icw2
  | icw3
  | icw4
  | ocw1
deriving DecidableEq, Repr

/-- What has been programmed into a chip, and its in-service register. -/
structure Programmed where
  expects : Expects
  icw1 : BitVec 8
  icw2 : BitVec 8
  icw3 : BitVec 8
  icw4 : BitVec 8
  imr : BitVec 8
  isr : BitVec 8
deriving DecidableEq, Repr

/-- A chip: `edges` are the rising edges that wait, `lines` the levels of its inputs. -/
structure Chip extends Programmed where
  edges : BitVec 8
  lines : BitVec 8
deriving DecidableEq, Repr

/-! ### Levels -/

/-- The register with the bit of a level set, and with it cleared. -/
def setLevel (r : BitVec 8) (i : Fin 8) : BitVec 8 := r ||| BitVec.twoPow 8 i
def clearLevel (r : BitVec 8) (i : Fin 8) : BitVec 8 := r &&& ~~~BitVec.twoPow 8 i

/-- The level in a register that comes first. -/
def highest (r : BitVec 8) : Option (Fin 8) := (List.finRange 8).find? fun i => r.getLsbD i

/-! ### Programming -/

namespace Programmed

/-- ICW1, which starts the initialisation. -/
def start (c : Programmed) (data : BitVec 8) : Programmed :=
  { c with
    expects := .icw2
    icw1 := data
    icw4 := if data.getLsbD 0 then c.icw4 else 0
    imr := 0
    isr := 0 }

/-- The end of what has the highest priority among what is in service. -/
def eoi (c : Programmed) : Programmed :=
  { c with isr := (highest c.isr).elim c.isr (clearLevel c.isr) }

/-- OCW2: a non-specific end of interrupt, or the end of a certain one. -/
def ocw2 (c : Programmed) (data : BitVec 8) : Programmed :=
  if data >>> 5 = 1 then c.eoi
  else if data >>> 5 = 3 then
    { c with isr := c.isr &&& ~~~(1#8 <<< (data &&& 7)) }
  else c

/-- A byte at the even address. -/
def command (c : Programmed) (data : BitVec 8) : Programmed :=
  if data.getLsbD 4 then c.start data
  else if data.getLsbD 3 then c
  else c.ocw2 data

/-- A byte at the odd address. -/
def data (c : Programmed) (data : BitVec 8) : Programmed :=
  let afterIcw3 := if c.icw1.getLsbD 0 then .icw4 else .ocw1
  match c.expects with
  | .icw2 => { c with icw2 := data, expects := if c.icw1.getLsbD 1 then afterIcw3 else .icw3 }
  | .icw3 => { c with icw3 := data, expects := afterIcw3 }
  | .icw4 => { c with icw4 := data, expects := .ocw1 }
  | .ocw1 => { c with imr := data }

end Programmed

namespace Chip

def command (c : Chip) (data : BitVec 8) : Chip :=
  { c with
    toProgrammed := c.toProgrammed.command data
    edges := if data.getLsbD 4 then 0 else c.edges }

def data (c : Chip) (data : BitVec 8) : Chip := { c with toProgrammed := c.toProgrammed.data data }

/-! ### Requests -/

/-- An input goes high or low. -/
def setLine (c : Chip) (i : Fin 8) (high : Bool) : Chip :=
  if high then
    { c with
      lines := setLevel c.lines i
      edges := if c.lines.getLsbD i then c.edges else setLevel c.edges i }
  else { c with lines := clearLevel c.lines i, edges := clearLevel c.edges i }

/-- The requests that are not masked. -/
def requests (c : Chip) : BitVec 8 :=
  (if c.icw1.getLsbD 3 then c.lines else c.edges) &&& ~~~c.imr

/-- The request that interrupts what is in service, if there is one. -/
def pending (c : Chip) : Option (Fin 8) :=
  (highest c.requests).filter fun i => (highest c.isr).all fun j => i < j

/-- The output `INT`. -/
def int (c : Chip) : Bool := c.pending.isSome

/-- The pending request is acknowledged: it is in service now, unless its end is automatic. -/
def acknowledge (c : Chip) : Chip :=
  c.pending.elim c fun i =>
    { c with
      isr := if c.icw4.getLsbD 1 then c.isr else setLevel c.isr i
      edges := clearLevel c.edges i }

/-- The vector of a level in the 8086 mode. -/
def vector (c : Chip) (i : Fin 8) : BitVec 8 := c.icw2 &&& 0xF8 ||| BitVec.ofNat 8 i

end Chip

/-! ### Two chips -/

/-- A master and a slave. -/
structure Pair where
  master : Chip
  slave : Chip
deriving DecidableEq, Repr

/-- The input of the master that the slave's output is wired to. -/
def slaveLine : Fin 8 := 2

/-- What an acknowledge cycle finds.  If the request is gone by then, the chip that is asked gives
the vector of its level 7. -/
inductive Taken
  | request (irq : Fin 16)
  | spurious (irq : Fin 16)
deriving DecidableEq, Repr

namespace Taken

def irq : Taken → Fin 16
  | request i | spurious i => i

/-- The level of the master that is in service for it. -/
def level : Taken → Option (Fin 8)
  | request i => some (if h : i.val < 8 then ⟨i, h⟩ else slaveLine)
  | spurious i => if i.val < 8 then none else some slaveLine

/-- The level of the slave that is in service for it. -/
def slaveLevel : Taken → Option (Fin 8)
  | request i => if h : 8 ≤ i.val then some ⟨i - 8, by omega⟩ else none
  | spurious _ => none

end Taken

namespace Pair

/-- The slave's output on its line. -/
def rewire (p : Pair) : Pair := { p with master := p.master.setLine slaveLine p.slave.int }

/-- The line of a device goes high or low; there is no device on the line of the slave. -/
def setLine (p : Pair) (irq : Fin 16) (high : Bool) : Pair :=
  if irq.val = slaveLine.val then p
  else if h : irq.val < 8 then { p with master := p.master.setLine ⟨irq, h⟩ high }
  else { p with slave := p.slave.setLine ⟨irq - 8, by omega⟩ high }.rewire

def command (p : Pair) (data : BitVec 8) : Pair := { p with master := p.master.command data }
def data (p : Pair) (data : BitVec 8) : Pair := { p with master := p.master.data data }

def slaveCommand (p : Pair) (data : BitVec 8) : Pair :=
  { p with slave := p.slave.command data }.rewire

def slaveData (p : Pair) (data : BitVec 8) : Pair := { p with slave := p.slave.data data }.rewire

/-- The output to the processor. -/
def int (p : Pair) : Bool := p.master.int

/-- The slave knows that it is on its line. -/
def answers (p : Pair) : Bool := p.slave.icw3.extractLsb' 0 3 == BitVec.ofNat 3 slaveLine

/-- What an acknowledge cycle finds; nothing, if the master counts on a slave that is not there. -/
def taken (p : Pair) : Option Taken :=
  match p.master.pending with
  | none => some (.spurious (Fin.castAdd 8 (7 : Fin 8)))
  | some i =>
    if p.master.icw3.getLsbD i then
      if i = slaveLine ∧ p.answers then
        some (p.slave.pending.elim (.spurious (Fin.natAdd 8 (7 : Fin 8)))
          fun j => .request (j.natAdd 8))
      else none
    else some (.request (i.castAdd 8))

/-- The chips after an acknowledge cycle. -/
def acknowledge (p : Pair) : Pair :=
  let asked := p.master.pending = some slaveLine ∧ p.master.icw3.getLsbD slaveLine ∧ p.answers
  { master := p.master.acknowledge
    slave := if asked then p.slave.acknowledge else p.slave : Pair }.rewire

/-- The vector that is given for a line. -/
def vector (p : Pair) (irq : Fin 16) : BitVec 8 :=
  if h : irq.val < 8 then p.master.vector ⟨irq, h⟩ else p.slave.vector ⟨irq - 8, by omega⟩

end Pair

end I8259
