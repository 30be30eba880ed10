import Mathlib.Init

/-!
# Sequencing in `StateM`

A computation that returns nothing is a function on states; a sequence of them composes these
functions.
-/

namespace StateM

variable {σ α β : Type} {x : StateM σ α} {s s' : σ} {a : α}

/-- The second of two steps starts where the first one ends. -/
theorem run_bind_of_eq {f : α → StateM σ β} (h : x.run s = (a, s')) :
    (x >>= f).run s = (f a).run s' := by
  rw [StateT.run_bind, h]
  rfl

/-- A loop over a list goes from state to state. -/
theorem run_forM_of_eq {ι : Type} {f : ι → StateM σ Unit} {g : ι → σ → σ}
    (h : ∀ i s, (f i).run s = ((), g i s)) (l : List ι) (s : σ) :
    (l.forM f).run s = ((), l.foldl (fun s i => g i s) s) := by
  induction l generalizing s with
  | nil => rfl
  | cons i l ih =>
    show (f i >>= fun _ => l.forM f).run s = _
    rw [run_bind_of_eq (h i s), ih]
    rfl

end StateM
