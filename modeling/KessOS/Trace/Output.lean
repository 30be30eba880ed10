import KessOS.Trace.Basic

/-!
# What a run puts out

A machine that puts out `out s e` at the event `e` in the state `s` puts out `outputs act out s es`
in a run.  A property of everything that is put out is one that every step has
(`forall_mem_outputs`).
-/

namespace Trace

variable {σ ε ω : Type*} {act : ε → σ → σ} {out : σ → ε → List ω}

/-- What is put out in the run of `es` from `s`, in order. -/
def outputs (act : ε → σ → σ) (out : σ → ε → List ω) : σ → List ε → List ω
  | _, [] => []
  | s, e :: es => out s e ++ outputs act out (act e s) es

@[simp] theorem outputs_nil (s : σ) : outputs act out s [] = [] := rfl

@[simp] theorem outputs_cons (s : σ) (e : ε) (es : List ε) :
    outputs act out s (e :: es) = out s e ++ outputs act out (act e s) es := rfl

theorem outputs_append (s : σ) (es es' : List ε) :
    outputs act out s (es ++ es') =
      outputs act out s es ++ outputs act out (replay act es s) es' := by
  induction es generalizing s with
  | nil => rfl
  | cons e es ih => simp [ih, List.append_assoc]

theorem filterMap_outputs {ω' : Type*} (f : ω → Option ω') (s : σ) (es : List ε) :
    (outputs act out s es).filterMap f = outputs act (fun s e => (out s e).filterMap f) s es := by
  induction es generalizing s with
  | nil => rfl
  | cons e es ih => rw [outputs_cons, List.filterMap_append, ih, outputs_cons]

/-- A property of all outputs, step by step. -/
theorem forall_mem_outputs {P : ω → Prop} {s : σ} {es : List ε} :
    (∀ o ∈ outputs act out s es, P o) ↔ Along act (fun s e => ∀ o ∈ out s e, P o) s es := by
  induction es generalizing s with
  | nil => simp
  | cons e es ih => rw [outputs_cons, List.forall_mem_append, ih, along_cons]

/-- What was put out last is what the state says, if it is so at every step. -/
theorem getLastD_outputs {f : σ → ω} (hstep : ∀ s e, (out s e).getLastD (f s) = f (act e s)) (s : σ)
    (es : List ε) : (outputs act out s es).getLastD (f s) = f (replay act es s) := by
  induction es generalizing s with
  | nil => rfl
  | cons e es ih =>
    have happend : (outputs act out s (e :: es)).getLastD (f s) =
        (outputs act out (act e s) es).getLastD ((out s e).getLastD (f s)) := by
      rw [outputs_cons]
      simp [List.getLast?_append]
    rw [happend, hstep, ih, replay_cons]

end Trace
