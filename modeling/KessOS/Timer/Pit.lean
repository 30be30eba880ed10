import Mathlib.Data.BitVec
import Mathlib.Data.Nat.Count

/-!
# The programmable interval timer

`pit_tick` and `pit_sleep` of `arch/timer/impl/pit.c`.  A processor in `pit_sleep` tests the
condition of its loop over and over, and now and then the timer interrupt gets in between; which
of the two comes next is up to a schedule.
-/

namespace KessOS

/-- `pit_tick`, on the static `ticks`. -/
def pitTick (ticks : BitVec 16) : BitVec 16 := ticks + 1

/-- A processor in the loop of `pit_sleep`; `left` once the condition has been found false. -/
structure PitSleep where
  ticks : BitVec 16
  eticks : BitVec 32
  left : Bool
deriving DecidableEq, Repr

/-- `pit_sleep` up to its loop. -/
def pitSleep (ticks nticks : BitVec 16) : PitSleep where
  ticks := ticks
  eticks := ticks.setWidth 32 + nticks.setWidth 32
  left := false

/-- What happens while the processor is in the loop: a timer interrupt, or the next test. -/
inductive PitEvent
  | tick
  | test
deriving DecidableEq, Repr

/-- The condition of the loop. -/
def PitSleep.waits (p : PitSleep) : Bool := p.ticks.setWidth 32 < p.eticks

def PitSleep.step (p : PitSleep) : PitEvent → PitSleep
  | .tick => { p with ticks := pitTick p.ticks }
  | .test => { p with left := p.left || !p.waits }

/-- The processor after the first `n` events of a schedule. -/
def PitSleep.after (p : PitSleep) (schedule : ℕ → PitEvent) : ℕ → PitSleep
  | 0 => p
  | n + 1 => (p.after schedule n).step (schedule n)

/-- The ticks among the first `n` events. -/
def ticksBefore (schedule : ℕ → PitEvent) (n : ℕ) : ℕ := Nat.count (fun i => schedule i = .tick) n

/-- The interrupts do not end, and the condition is tested before the first of them and between
any two. -/
structure Interleaved (schedule : ℕ → PitEvent) : Prop where
  first : schedule 0 = .test
  between : ∀ n, schedule n = .tick → schedule (n + 1) = .test
  endless : ∀ n, ∃ m, n ≤ m ∧ schedule m = .tick

/-- The processor leaves the loop at a test that `k` ticks precede. -/
def PitSleep.LeavesAfter (p : PitSleep) (schedule : ℕ → PitEvent) (k : ℕ) : Prop :=
  ∃ n, (p.after schedule n).left = false ∧ (p.after schedule (n + 1)).left = true ∧
    ticksBefore schedule n = k

end KessOS
