import Mathlib.Data.List.Basic

/-!
# Traces of events that act on a state

A run is recorded as the list of its events, oldest first, and `act e` is what the event `e`
does to the state.  `replay` performs a trace; `Along P s es` says that `P` holds of every event
together with the state at the moment it happens.  `along_append` splits a run in two,
`along_iff_split` reads `Along` at one moment, and `Along.rel_start` says that a reflexive and
transitive relation kept by every event relates the start of a run to every moment of it.
-/

namespace Trace

variable {σ ε : Type*} {act : ε → σ → σ}

/-- The state after the events `es`. -/
def replay (act : ε → σ → σ) (es : List ε) (s : σ) : σ :=
  es.foldl (fun s e => act e s) s

/-- `P` holds at every event of the run of `es` from `s`, of the state just before the event. -/
inductive Along (act : ε → σ → σ) (P : σ → ε → Prop) : σ → List ε → Prop
  | nil (s : σ) : Along act P s []
  | cons {s : σ} {e : ε} {es : List ε} :
    P s e → Along act P (act e s) es → Along act P s (e :: es)

@[simp] theorem replay_nil (s : σ) : replay act [] s = s := rfl

@[simp] theorem replay_cons (e : ε) (es : List ε) (s : σ) :
    replay act (e :: es) s = replay act es (act e s) := rfl

@[simp] theorem replay_append (es es' : List ε) (s : σ) :
    replay act (es ++ es') s = replay act es' (replay act es s) := by
  simp [replay]

variable {P Q : σ → ε → Prop}

@[simp] theorem along_nil (s : σ) : Along act P s [] := .nil s

@[simp] theorem along_cons {s : σ} {e : ε} {es : List ε} :
    Along act P s (e :: es) ↔ P s e ∧ Along act P (act e s) es :=
  ⟨fun h => by cases h with | cons h₁ h₂ => exact ⟨h₁, h₂⟩, fun h => .cons h.1 h.2⟩

instance Along.decidable [∀ s e, Decidable (P s e)] (s : σ) (es : List ε) :
    Decidable (Along act P s es) :=
  match es with
  | [] => .isTrue (.nil s)
  | e :: es =>
    have := Along.decidable (act e s) es
    decidable_of_iff (P s e ∧ Along act P (act e s) es) along_cons.symm

@[simp] theorem along_append {s : σ} {es es' : List ε} :
    Along act P s (es ++ es') ↔ Along act P s es ∧ Along act P (replay act es s) es' := by
  induction es generalizing s with
  | nil => simp
  | cons e es ih => simp [ih, and_assoc]

theorem Along.mono {s : σ} {es : List ε} (h : Along act P s es)
    (hPQ : ∀ s e, e ∈ es → P s e → Q s e) : Along act Q s es := by
  induction h with
  | nil s => exact .nil s
  | cons h₁ _ ih =>
    refine .cons (hPQ _ _ (List.mem_cons_self ..) h₁) (ih ?_)
    exact fun s' e' he' => hPQ s' e' (List.mem_cons_of_mem _ he')

/-- An invariant holds along the run, and so does what follows from it. -/
theorem along_of_invariant {I : σ → Prop} {s : σ} (es : List ε) (hs : I s)
    (hact : ∀ s e, I s → I (act e s)) (hP : ∀ s e, I s → P s e) : Along act P s es := by
  induction es generalizing s with
  | nil => exact .nil s
  | cons e es ih => exact .cons (hP s e hs) (ih (hact s e hs))

/-- What each of the events preserves. -/
theorem replay_preserves {I : σ → Prop} {s : σ} {es : List ε} (hs : I s)
    (hact : ∀ e ∈ es, ∀ s, I s → I (act e s)) : I (replay act es s) := by
  induction es generalizing s with
  | nil => exact hs
  | cons e es ih =>
    exact ih (hact e List.mem_cons_self s hs) fun e he => hact e (List.mem_cons_of_mem _ he)

theorem replay_invariant {I : σ → Prop} {s : σ} (es : List ε) (hs : I s)
    (hact : ∀ s e, I s → I (act e s)) : I (replay act es s) :=
  replay_preserves hs fun e _ s => hact s e

/-- `Along.mono` with an invariant of the run. -/
theorem Along.mono_of_invariant {I : σ → Prop} {s : σ} {es : List ε} (h : Along act P s es)
    (hs : I s) (hact : ∀ s e, I s → I (act e s)) (hPQ : ∀ s e, I s → P s e → Q s e) :
    Along act Q s es := by
  induction h with
  | nil s => exact .nil s
  | cons h₁ _ ih => exact .cons (hPQ _ _ hs h₁) (ih (hact _ _ hs))

/-- `Along` at one moment of the run. -/
theorem along_iff_split {s : σ} {es : List ε} :
    Along act P s es ↔
      ∀ pre e post, es = pre ++ e :: post → P (replay act pre s) e := by
  constructor
  · rintro h pre e post rfl
    rw [along_append, along_cons] at h
    exact h.2.1
  · intro h
    induction es generalizing s with
    | nil => exact .nil s
    | cons e es ih =>
      refine .cons (h [] e es rfl) (ih fun pre e' post hes => ?_)
      exact h (e :: pre) e' post (by rw [hes]; rfl)

section Rel

variable {R : σ → σ → Prop}

theorem Along.rel_replay (hrefl : ∀ s, R s s) (htrans : ∀ s t u, R s t → R t u → R s u) {s : σ}
    {es : List ε} (h : Along act (fun s e => R s (act e s)) s es) : R s (replay act es s) := by
  induction h with
  | nil s => exact hrefl s
  | cons h₁ _ ih => exact htrans _ _ _ h₁ ih

/-- Every moment of the run is related to its start. -/
theorem Along.rel_start (hrefl : ∀ s, R s s) (htrans : ∀ s t u, R s t → R t u → R s u) {s : σ}
    {es : List ε} (h : Along act (fun s e => R s (act e s)) s es) :
    Along act (fun t _ => R s t) s es := by
  rw [along_iff_split]
  rintro pre e post rfl
  rw [along_append] at h
  exact Along.rel_replay hrefl htrans h.1

end Rel

end Trace
