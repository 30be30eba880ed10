import Mathlib.Data.List.Induction

/-!
# Runs of a labelled transition system

`Path step es s s'` is a run from `s` to `s'` whose steps have the labels `es`.  What every step
keeps, a run keeps (`Path.invariant`), and a function that takes steps to steps takes runs to runs
(`Path.map`).  Something that is so at the end of a run, and was not at its start, has been so
since a certain step (`Path.since`).
-/

namespace Trace

variable {σ τ ε : Type*} {step : ε → σ → σ → Prop} {e : ε} {es es' : List ε} {s s' s'' : σ}

/-- A run of steps with these labels. -/
inductive Path (step : ε → σ → σ → Prop) : List ε → σ → σ → Prop
  | nil (s : σ) : Path step [] s s
  | snoc {es : List ε} {e : ε} {s s' s'' : σ} (h : Path step es s s') (he : step e s' s'') :
    Path step (es ++ [e]) s s''

@[simp] theorem path_nil_iff : Path step [] s s' ↔ s' = s := by
  constructor
  · intro h
    generalize hes : ([] : List ε) = es at h
    cases h with
    | nil => rfl
    | snoc => simp at hes
  · rintro rfl
    exact .nil _

theorem path_snoc_iff :
    Path step (es ++ [e]) s s'' ↔ ∃ s', Path step es s s' ∧ step e s' s'' := by
  constructor
  · intro h
    generalize hes : es ++ [e] = es' at h
    cases h with
    | nil => simp at hes
    | snoc h he =>
      obtain ⟨rfl, hlast⟩ := List.append_inj' hes rfl
      obtain rfl := List.singleton_inj.mp hlast
      exact ⟨_, h, he⟩
  · rintro ⟨s', h, he⟩
    exact .snoc h he

/-- A run in two parts. -/
theorem path_append_iff :
    Path step (es ++ es') s s'' ↔ ∃ s', Path step es s s' ∧ Path step es' s' s'' := by
  induction es' using List.reverseRecOn generalizing s'' with
  | nil => simp
  | append_singleton es' e ih =>
    rw [← List.append_assoc, path_snoc_iff]
    simp only [ih, path_snoc_iff]
    constructor
    · rintro ⟨t, ⟨t', h, h'⟩, he⟩
      exact ⟨t', h, t, h', he⟩
    · rintro ⟨t', h, t, h', he⟩
      exact ⟨t, ⟨t', h, h'⟩, he⟩

/-- A run at one of its steps. -/
theorem path_append_cons_iff : Path step (es ++ e :: es') s s'' ↔
    ∃ s₁ s₂, Path step es s s₁ ∧ step e s₁ s₂ ∧ Path step es' s₂ s'' := by
  rw [← List.singleton_append, ← List.append_assoc, path_append_iff]
  simp only [path_snoc_iff]
  constructor
  · rintro ⟨s₂, ⟨s₁, h, he⟩, h'⟩
    exact ⟨s₁, s₂, h, he, h'⟩
  · rintro ⟨s₁, s₂, h, he, h'⟩
    exact ⟨s₂, ⟨s₁, h, he⟩, h'⟩

namespace Path

theorem single (h : step e s s') : Path step [e] s s' := .snoc (.nil s) h

/-- A property that every step keeps. -/
theorem invariant {I : σ → Prop} (hstep : ∀ e s s', I s → step e s s' → I s')
    (h : Path step es s s') (hs : I s) : I s' := by
  induction h with
  | nil => exact hs
  | snoc _ he ih => exact hstep _ _ _ (ih hs) he

/-- A simulation by a function, where an invariant holds. -/
theorem map {step' : ε → τ → τ → Prop} {I : σ → Prop} {f : σ → τ}
    (hI : ∀ e s s', I s → step e s s' → I s')
    (hstep : ∀ e s s', I s → step e s s' → step' e (f s) (f s')) (h : Path step es s s')
    (hs : I s) : Path step' es (f s) (f s') := by
  induction h with
  | nil s => exact .nil (f s)
  | snoc h he ih => exact (ih hs).snoc (hstep _ _ _ (h.invariant hI hs) he)

/-- Steps with more that is known of them. -/
theorem mono {step' : ε → σ → σ → Prop} (hstep : ∀ e s s', step e s s' → step' e s s')
    (h : Path step es s s') : Path step' es s s' :=
  h.map (I := fun _ => True) (f := id) (fun _ _ _ _ _ => trivial)
    (fun e s s' _ he => hstep e s s' he) trivial

/-- What is known of every step that has a label of the run. -/
theorem forall_mem {P : ε → Prop} (hstep : ∀ e s s', step e s s' → P e)
    (h : Path step es s s') : ∀ e ∈ es, P e := by
  induction h with
  | nil => exact fun e he => absurd he List.not_mem_nil
  | snoc _ he ih =>
    intro e hmem
    rcases List.mem_append.mp hmem with hmem | hmem
    · exact ih e hmem
    · exact List.mem_singleton.mp hmem ▸ hstep _ _ _ he

/-- **Since when something is so**: the last step that made it so, with the run behind it. -/
theorem since {P : σ → Prop} (h : Path step es s s') (hs : ¬ P s) (hs' : P s') :
    ∃ pre e post s₁ s₂, es = pre ++ e :: post ∧ Path step pre s s₁ ∧ ¬ P s₁ ∧ step e s₁ s₂ ∧
      P s₂ ∧ Path (fun e s s' => step e s s' ∧ P s') post s₂ s' := by
  induction h with
  | nil => exact absurd hs' hs
  | @snoc es e s s₁ s₂ h he ih =>
    by_cases hP : P s₁
    · obtain ⟨pre, e', post, t, t', rfl, hpre, ht, hstep, ht', hpost⟩ := ih hs hP
      exact ⟨pre, e', post ++ [e], t, t', by simp, hpre, ht, hstep, ht', hpost.snoc ⟨he, hs'⟩⟩
    · exact ⟨es, e, [], s₁, s₂, rfl, h, hP, he, hs', .nil s₂⟩

end Path

end Trace
