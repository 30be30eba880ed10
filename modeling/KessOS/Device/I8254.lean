import Mathlib.Data.BitVec

/-!
# The 8254 interval timer

The programming of the three counters: a control word starts a counter anew, and the count follows
in one byte or in two.  The latch and read-back commands, which read a count, change nothing here.
-/

namespace I8254

/-- A counter: `access` tells which bytes of the count are written, `low` is the one that has come
of two, and until the count is complete there is none. -/
structure Counter where
  access : BitVec 2
  mode : BitVec 3
  bcd : Bool
  low : Option (BitVec 8)
  count : Option (BitVec 16)
deriving DecidableEq, Repr

/-- The three counters. -/
abbrev Timer := Fin 3 → Counter

/-- A counter after its control word. -/
def Counter.ofControl (data : BitVec 8) : Counter where
  access := data.extractLsb' 4 2
  mode := data.extractLsb' 1 3
  bcd := data.getLsbD 0
  low := none
  count := none

/-- A byte at the address of a counter. -/
def Counter.data (c : Counter) (data : BitVec 8) : Counter :=
  if c.access = 1 then { c with count := some (0#8 ++ data) }
  else if c.access = 2 then { c with count := some (data ++ 0#8) }
  else
    match c.low with
    | none => { c with low := some data }
    | some low => { c with low := none, count := some (data ++ low) }

/-- How many pulses of its clock a binary counter needs for a round: 0 stands for 2^16. -/
def Counter.period (c : Counter) : Option ℕ :=
  c.count.map fun n => if n = 0 then 2 ^ 16 else n.toNat

/-! ### The chip -/

/-- The counters by their numbers. -/
abbrev counter0 : Fin 3 := 0
abbrev counter1 : Fin 3 := 1
abbrev counter2 : Fin 3 := 2

namespace Timer

/-- A byte at the control address. -/
def control (t : Timer) (data : BitVec 8) : Timer :=
  if data.extractLsb' 4 2 = 0 then t
  else
    match (data.extractLsb' 6 2).toNat with
    | 0 => Function.update t 0 (.ofControl data)
    | 1 => Function.update t 1 (.ofControl data)
    | 2 => Function.update t 2 (.ofControl data)
    | _ => t

def data (t : Timer) (i : Fin 3) (data : BitVec 8) : Timer :=
  Function.update t i ((t i).data data)

end Timer

end I8254
