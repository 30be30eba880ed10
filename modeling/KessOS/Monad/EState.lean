import Mathlib.Init

/-!
# Sequencing in `EStateM`

A computation with state and errors that runs `x` and then `f` ends well exactly when both do
(`run_bind_eq_ok`), and stops with an error exactly when one of them does
(`run_bind_eq_error`); the error keeps the state in which it was raised.

The rules below it lift to a computation what is known of its parts: which errors it raises
(`RaisesOnly`), a quantity that it conserves (`Conserves`), that it agrees with another one unless
it raises a certain error (`AgreesUnless`), and that its result on one state is related to that of
another computation on another state (`Result.Rel`).
-/

namespace EStateM

universe u

variable {ε σ α β : Type u} {x : EStateM ε σ α} {f : α → EStateM ε σ β} {s s' : σ}

theorem run_bind_of_ok {a : α} {s₁ : σ} (h : x.run s = .ok a s₁) :
    (x >>= f).run s = (f a).run s₁ := by
  show EStateM.bind x f s = _
  unfold EStateM.bind
  rw [show x s = .ok a s₁ from h]
  rfl

theorem run_bind_of_error {e : ε} (h : x.run s = .error e s') :
    (x >>= f).run s = .error e s' := by
  show EStateM.bind x f s = _
  unfold EStateM.bind
  rw [show x s = .error e s' from h]

theorem run_bind_eq_ok {b : β} :
    (x >>= f).run s = .ok b s' ↔ ∃ a s₁, x.run s = .ok a s₁ ∧ (f a).run s₁ = .ok b s' := by
  cases hx : x.run s with
  | ok a s₁ =>
    rw [run_bind_of_ok hx]
    constructor
    · exact fun h => ⟨a, s₁, rfl, h⟩
    · rintro ⟨a', s₁', h, hf⟩
      cases h
      exact hf
  | error e s₁ =>
    rw [run_bind_of_error hx]
    constructor
    · exact fun h => by cases h
    · rintro ⟨_, _, h, _⟩
      cases h

theorem run_bind_eq_error {e : ε} :
    (x >>= f).run s = .error e s' ↔
      x.run s = .error e s' ∨ ∃ a s₁, x.run s = .ok a s₁ ∧ (f a).run s₁ = .error e s' := by
  cases hx : x.run s with
  | ok a s₁ =>
    rw [run_bind_of_ok hx]
    constructor
    · exact fun h => Or.inr ⟨a, s₁, rfl, h⟩
    · rintro (h | ⟨a', s₁', h, hf⟩)
      · cases h
      · cases h
        exact hf
  | error e₁ s₁ =>
    rw [run_bind_of_error hx]
    constructor
    · intro h
      cases h
      exact Or.inl rfl
    · rintro (h | ⟨_, _, h, _⟩)
      · cases h
        rfl
      · cases h

/-- A loop goes on where its first round ends. -/
theorem run_forM_cons_of_ok {ε σ ι : Type} {f : ι → EStateM ε σ PUnit} {i : ι} {s s₁ : σ}
    (h : (f i).run s = .ok ⟨⟩ s₁) (l : List ι) : ((i :: l).forM f).run s = (l.forM f).run s₁ :=
  run_bind_of_ok h

/-! ### The errors of a computation -/

/-- Every error of the computation satisfies `P`. -/
def RaisesOnly (P : ε → Prop) (x : EStateM ε σ α) : Prop :=
  ∀ s e s', x.run s = .error e s' → P e

variable {P : ε → Prop}

theorem raisesOnly_of_ok (h : ∀ s, ∃ a s', x.run s = .ok a s') : RaisesOnly P x := by
  intro s e s' herr
  obtain ⟨a, s₁, hok⟩ := h s
  rw [hok] at herr
  cases herr

theorem raisesOnly_throw {e : ε} (he : P e) : RaisesOnly P (throw e : EStateM ε σ α) := by
  intro s e' s' herr
  cases herr
  exact he

theorem RaisesOnly.bind (hx : RaisesOnly P x) (hf : ∀ a, RaisesOnly P (f a)) :
    RaisesOnly P (x >>= f) := by
  intro s e s' herr
  rcases run_bind_eq_error.mp herr with hx' | ⟨a, s₁, -, hf'⟩
  · exact hx s e s' hx'
  · exact hf a s₁ e s' hf'

theorem RaisesOnly.ite {c : Prop} [Decidable c] {y : EStateM ε σ α} (hx : RaisesOnly P x)
    (hy : RaisesOnly P y) : RaisesOnly P (if c then x else y) := by
  split
  · exact hx
  · exact hy

/-- A loop raises what its body raises. -/
theorem raisesOnly_forM {ε σ ι : Type} {P : ε → Prop} {f : ι → EStateM ε σ PUnit} {l : List ι}
    (hf : ∀ i ∈ l, RaisesOnly P (f i)) : RaisesOnly P (l.forM f) := by
  induction l with
  | nil => exact raisesOnly_of_ok fun s => ⟨_, s, rfl⟩
  | cons i l ih =>
    show RaisesOnly P (f i >>= fun _ => l.forM f)
    exact (hf i List.mem_cons_self).bind fun _ => ih fun j hj => hf j (List.mem_cons_of_mem _ hj)

/-! ### A conserved quantity -/

/-- The state in which a computation ended. -/
def Result.state : Result ε σ α → σ
  | .ok _ s => s
  | .error _ s => s

/-- The quantity `f` is the same at the end as at the start. -/
def Conserves {γ : Type u} (f : σ → γ) (x : EStateM ε σ α) : Prop :=
  ∀ s, f (x.run s).state = f s

theorem Conserves.bind {γ : Type u} {q : σ → γ} (hx : Conserves q x)
    (hf : ∀ a, Conserves q (f a)) : Conserves q (x >>= f) := by
  intro s
  have hxs := hx s
  cases hrun : x.run s with
  | ok a s₁ =>
    rw [hrun] at hxs
    rw [run_bind_of_ok hrun, hf a s₁]
    exact hxs
  | error e s₁ =>
    rw [hrun] at hxs
    rw [run_bind_of_error hrun]
    exact hxs

/-- A loop conserves what its body does. -/
theorem conserves_forM {ε σ ι γ : Type} {q : σ → γ} {f : ι → EStateM ε σ PUnit} {l : List ι}
    (hf : ∀ i ∈ l, Conserves q (f i)) : Conserves q (l.forM f) := by
  induction l with
  | nil => exact fun s => rfl
  | cons i l ih =>
    show Conserves q (f i >>= fun _ => l.forM f)
    exact (hf i List.mem_cons_self).bind fun _ => ih fun j hj => hf j (List.mem_cons_of_mem _ hj)

/-! ### Two computations -/

/-- The two end alike, unless the first raises `e`. -/
def AgreesUnless (e : ε) (x y : EStateM ε σ α) : Prop :=
  ∀ s, x.run s = y.run s ∨ ∃ s', x.run s = .error e s'

namespace AgreesUnless

variable {e : ε} {y z : EStateM ε σ α} {g : α → EStateM ε σ β}

theorem refl (e : ε) (x : EStateM ε σ α) : AgreesUnless e x x := fun _ => Or.inl rfl

theorem trans (hxy : AgreesUnless e x y) (hyz : AgreesUnless e y z) : AgreesUnless e x z := by
  intro s
  rcases hxy s with hxy | herr
  · rw [hxy]
    exact hyz s
  · exact Or.inr herr

theorem bind (hx : AgreesUnless e x y) (hf : ∀ a, AgreesUnless e (f a) (g a)) :
    AgreesUnless e (x >>= f) (y >>= g) := by
  intro s
  rcases hx s with hxy | ⟨s', herr⟩
  · cases hrun : y.run s with
    | ok a s₁ =>
      rw [run_bind_of_ok (hxy.trans hrun), run_bind_of_ok hrun]
      exact hf a s₁
    | error e' s₁ =>
      rw [run_bind_of_error (hxy.trans hrun), run_bind_of_error hrun]
      exact Or.inl rfl
  · exact Or.inr ⟨s', run_bind_of_error herr⟩

theorem run_eq (h : AgreesUnless e x y) {s : σ} (hne : ∀ s', x.run s ≠ .error e s') :
    x.run s = y.run s := by
  rcases h s with heq | ⟨s', herr⟩
  · exact heq
  · exact absurd herr (hne s')

end AgreesUnless

/-- Both results are the same value, or the same error, in states that `R` relates. -/
def Result.Rel (R : σ → σ → Prop) : Result ε σ α → Result ε σ α → Prop
  | .ok a s, .ok b t => a = b ∧ R s t
  | .error e s, .error e' t => e = e' ∧ R s t
  | _, _ => False

namespace Result.Rel

variable {R : σ → σ → Prop} {r r' : Result ε σ α}

theorem eq_ok {a : α} (h : r.Rel R r') (hr : r = .ok a s) : ∃ t, r' = .ok a t ∧ R s t := by
  subst hr
  cases r' with
  | ok b t =>
    obtain ⟨rfl, hR⟩ := h
    exact ⟨t, rfl, hR⟩
  | error e t => exact h.elim

theorem eq_error {e : ε} (h : r.Rel R r') (hr : r = .error e s) :
    ∃ t, r' = .error e t ∧ R s t := by
  subst hr
  cases r' with
  | ok b t => exact h.elim
  | error e' t =>
    obtain ⟨rfl, hR⟩ := h
    exact ⟨t, rfl, hR⟩

protected theorem state (h : r.Rel R r') : R r.state r'.state := by
  cases hr : r with
  | ok a s =>
    obtain ⟨t, rfl, hR⟩ := h.eq_ok hr
    exact hR
  | error e s =>
    obtain ⟨t, rfl, hR⟩ := h.eq_error hr
    exact hR

end Result.Rel

/-- Related first steps, and related rests of them, make related runs. -/
theorem rel_bind {R : σ → σ → Prop} {y : EStateM ε σ α} {g : α → EStateM ε σ β} {t : σ}
    (hx : (x.run s).Rel R (y.run t))
    (hf : ∀ a s' t', x.run s = .ok a s' → y.run t = .ok a t' → R s' t' →
      ((f a).run s').Rel R ((g a).run t')) :
    ((x >>= f).run s).Rel R ((y >>= g).run t) := by
  cases hs : x.run s with
  | ok a s₁ =>
    obtain ⟨t₁, ht, hR⟩ := hx.eq_ok hs
    rw [run_bind_of_ok hs, run_bind_of_ok ht]
    exact hf a s₁ t₁ hs ht hR
  | error e s₁ =>
    obtain ⟨t₁, ht, hR⟩ := hx.eq_error hs
    rw [run_bind_of_error hs, run_bind_of_error ht]
    exact ⟨rfl, hR⟩

end EStateM
