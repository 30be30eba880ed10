import KessOS.Interrupt.Irq
import KessOS.Interrupt.Vectors
import KessOS.Io.Port

/-!
# The timer and the processor

The processor between `STI` and the timer on the board.  It looks at the request of the
controllers between two instructions, and asks for a vector afterwards; the lines change whenever
they like, so the request may be gone by then.  `irq0_handler` is executed instruction by
instruction.  The processor does not look at requests behind its `sti`, as `retq` comes next.
-/

namespace KessOS

open I8259 (Taken)

/-- The loop of `_start` around its `hlt`, in which nothing but `RIP` changes. -/
def idle (m m' : Machine) : Prop := ∃ rip, m' = { m with rip }

/-- What the processor is at. -/
inductive Phase
  | code
  | asked
  | handler (vec : BitVec 8)
  | exception (vec : BitVec 8)
deriving DecidableEq, Repr

/-- How often the line of the timer rose, how often it fell before its request was taken, and how
many requests of it were taken. -/
structure Tally where
  rises : ℕ
  withdrawn : ℕ
  taken : ℕ
deriving DecidableEq, Repr

structure TimerSystem where
  cpu : Cpu
  board : Board
  phase : Phase
  tally : Tally

/-- The writes of a machine since `m` reach the board. -/
def Board.receive (b : Board) (m m' : Machine) : Board :=
  (m'.outputs.drop m.outputs.length).foldl (fun b o => b.write (o.1.setWidth 16) o.2) b

namespace TimerSystem

/-- A line of the controllers goes high or low. -/
def setLine (s : TimerSystem) (irq : Fin 16) (high : Bool) : TimerSystem :=
  { s with
    board := s.board.setLine irq high
    tally :=
      if irq = ⟨0, by decide⟩ then
        if high then
          { s.tally with
            rises := s.tally.rises + (!s.board.pics.master.lines.getLsbD 0).toNat }
        else
          { s.tally with
            withdrawn := s.tally.withdrawn + (s.board.pics.master.edges.getLsbD 0).toNat }
      else s.tally }

/-- The processor gets the vector of what was taken, with the table at `idt`. -/
def take (isr : Handler → BitVec 64) (idt : BitVec 64) (s : TimerSystem) (t : Taken) :
    TimerSystem :=
  let vec := s.board.pics.vector t.irq
  { cpu := (s.cpu.take (idtInstall idt) (initIdt isr) vec).getD s.cpu
    board := { s.board with pics := s.board.pics.acknowledge }
    phase :=
      if (s.cpu.take (idtInstall idt) (initIdt isr) vec).isSome then .handler vec
      else .exception vec
    tally := { s.tally with taken := s.tally.taken + (t == .request ⟨0, by decide⟩).toNat } }

/-- The steps, around code that `code` describes. -/
inductive Step (code : Machine → Machine → Prop) (pitTick : Machine → Machine)
    (isr : Handler → BitVec 64) (idt : BitVec 64) : TimerSystem → TimerSystem → Prop
  | line (s : TimerSystem) (irq : Fin 16) (high : Bool) :
      Step code pitTick isr idt s (s.setLine irq high)
  | code (s : TimerSystem) (m : Machine) : s.phase = .code → code s.cpu.toMachine m →
      Step code pitTick isr idt s
        { s with
          cpu := { s.cpu with toMachine := m }
          board := s.board.receive s.cpu.toMachine m }
  | ask (s : TimerSystem) : s.phase = .code → s.cpu.Interruptible → s.board.pics.int = true →
      Step code pitTick isr idt s { s with phase := .asked }
  | take (s : TimerSystem) (t : Taken) : s.phase = .asked → s.board.pics.taken = some t →
      Step code pitTick isr idt s (s.take isr idt t)
  | exec (s : TimerSystem) (i : Instr) : s.phase = .handler 0x20 →
      fetch (irq0Handler pitTick) (s.cpu.rip - isr .irq0Handler).toNat = some i →
      Step code pitTick isr idt s
        { s with
          cpu := { s.cpu with toMachine := i.exec s.cpu.toMachine }
          board := s.board.receive s.cpu.toMachine (i.exec s.cpu.toMachine)
          phase := if i.isRet then .code else s.phase }

/-- An edge of the timer waits at the controllers. -/
def waiting (s : TimerSystem) : ℕ := (s.board.pics.master.edges.getLsbD 0).toNat

end TimerSystem

end KessOS
