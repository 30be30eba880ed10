import KessOS.Trace.Basic

/-!
# Polling an input that keeps its last value

A machine that polls an input sees the value that came last again and again, from what the input
happens to hold at first on; `edge` is the machine that moves only when a value comes.  If a
second step on the same value does nothing, then a value that has been seen does no harm, and the
two machines are in the same state after every poll, unless the first poll sees what was there
before (`latch_eq_edge_iff`).
-/

namespace Trace

variable {σ α : Type*} {step : α → σ → σ}

/-- A poll: the input has a new value, or still the one it had. -/
def latch (step : α → σ → σ) (read : Option α) (s : σ × α) : σ × α :=
  (step (read.getD s.2) s.1, read.getD s.2)

/-- A step if a value has come. -/
def edge (step : α → σ → σ) (read : Option α) (s : σ) : σ := read.elim s fun a => step a s

/-- The value that the input holds does nothing to the state. -/
def Spent (step : α → σ → σ) (s : σ × α) : Prop := step s.2 s.1 = s.1

section Idempotent

variable (hstep : ∀ a s, step a (step a s) = step a s)

include hstep

/-- A value that has been seen once is spent. -/
theorem spent_latch (read : Option α) (s : σ × α) : Spent step (latch step read s) :=
  hstep _ _

/-- If the value is spent, the polls do what the values that come do. -/
theorem latch_eq_edge {s : σ × α} (hs : Spent step s) (reads : List (Option α)) :
    (replay (latch step) reads s).1 = replay (edge step) reads s.1 := by
  induction reads generalizing s with
  | nil => rfl
  | cons read reads ih =>
    have hfirst : (latch step read s).1 = edge step read s.1 := by
      cases read with
      | none => exact hs
      | some a => rfl
    rw [replay_cons, replay_cons, ih (spent_latch hstep read s), hfirst]

/-- **Polling against waiting.**  The two agree after every poll if there is none, if the first
one sees a new value, or if the value that was there does nothing. -/
theorem latch_eq_edge_iff (s : σ × α) (reads : List (Option α)) :
    (∀ pre, pre <+: reads →
      (replay (latch step) pre s).1 = replay (edge step) pre s.1) ↔
      (reads.head? = some none → Spent step s) := by
  constructor
  · intro h hhead
    obtain ⟨rest, rfl⟩ := List.head?_eq_some_iff.mp hhead
    exact h [none] (List.prefix_append [none] rest)
  · rintro h pre ⟨post, rfl⟩
    cases pre with
    | nil => rfl
    | cons read pre =>
      cases read with
      | none => exact latch_eq_edge hstep (h rfl) (none :: pre)
      | some a =>
        rw [replay_cons, replay_cons]
        exact latch_eq_edge hstep (spent_latch hstep (some a) s) pre

end Idempotent

end Trace
