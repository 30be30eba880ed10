import Mathlib.Logic.Relation

/-!
# Programs that talk to a component

A program calls the operations of a component and goes on with the answers.  Between any two calls
the component may move by itself.

What a program leaves behind is found in two ways.  `runs_bind` takes a run apart at a `bind`.  And
where the moves leave a part of the state alone, and the answers depend on this part only, a run
does to it what a plain evaluation does (`Runs.eval`); a program can be evaluated as far as the
answers are determined.  An evaluation is itself a run (`runs_of_eval`).
-/

namespace Interaction

variable {Op : Type} {Ans : Op → Type} {α β σ τ : Type}

/-- A program: `call o next` calls `o` and goes on with the answer. -/
inductive Prog (Ans : Op → Type) (α : Type) : Type
  | done (a : α)
  | call (o : Op) (next : Ans o → Prog Ans α)

namespace Prog

protected def bind : Prog Ans α → (α → Prog Ans β) → Prog Ans β
  | done a, f => f a
  | call o next, f => call o fun b => (next b).bind f

instance : Monad (Prog Ans) where
  pure := done
  bind := Prog.bind

/-- The program that calls one operation. -/
def perform (o : Op) : Prog Ans (Ans o) := call o done

@[simp] theorem done_bind (a : α) (f : α → Prog Ans β) : done a >>= f = f a := rfl

@[simp] theorem call_bind (o : Op) (next : Ans o → Prog Ans α) (f : α → Prog Ans β) :
    call o next >>= f = call o fun b => next b >>= f := rfl

/-- The value of a program and the state that it leaves, as long as `act` knows the answers. -/
def eval (act : (o : Op) → τ → Option (Ans o × τ)) : Prog Ans α → τ → Option (α × τ)
  | done a, t => some (a, t)
  | call o next, t => (act o t).bind fun r => (next r.1).eval act r.2

/-- A program over the operations of one component as one over those of another: `g` says which
operation stands for which, and `e` what its answer is. -/
def lift {Op' : Type} {Ans' : Op' → Type} (g : Op → Op') (e : (o : Op) → Ans' (g o) → Ans o) :
    Prog Ans α → Prog Ans' α
  | done a => done a
  | call o next => call (g o) fun b => (next (e o b)).lift g e

variable {act : (o : Op) → τ → Option (Ans o × τ)}

@[simp] theorem eval_call (o : Op) (next : Ans o → Prog Ans α) (t : τ) :
    (call o next).eval act t = (act o t).bind fun r => (next r.1).eval act r.2 := rfl

theorem eval_bind (p : Prog Ans α) (f : α → Prog Ans β) (t : τ) :
    (p >>= f).eval act t = (p.eval act t).bind fun r => (f r.1).eval act r.2 := by
  induction p generalizing t with
  | done a => rfl
  | call o next ih =>
    rw [call_bind, eval_call, eval_call, Option.bind_assoc]
    congr 1
    funext r
    exact ih r.1 r.2

end Prog

/-- A component: the answers that a call may get, with the states that it leaves, and the moves
that nobody calls for. -/
structure Component (Ans : Op → Type) (σ : Type) where
  answers : (o : Op) → σ → Ans o → σ → Prop
  moves : σ → σ → Prop

variable (C : Component Ans σ)

/-- The runs of a program: its value and the state that it leaves. -/
inductive Runs : Prog Ans α → σ → α → σ → Prop
  | done (a : α) (s : σ) : Runs (.done a) s a s
  | call {o : Op} {next : Ans o → Prog Ans α} {s s₁ s' : σ} {b : Ans o} {a : α} :
      C.answers o s b s₁ → Runs (next b) s₁ a s' → Runs (.call o next) s a s'
  | move {p : Prog Ans α} {s s₁ s' : σ} {a : α} : C.moves s s₁ → Runs p s₁ a s' → Runs p s a s'

variable {C}

/-- A run goes through the first part, and then through the second. -/
theorem runs_bind {p : Prog Ans α} {f : α → Prog Ans β} {s s' : σ} {b : β} :
    Runs C (p >>= f) s b s' ↔ ∃ a s₁, Runs C p s a s₁ ∧ Runs C (f a) s₁ b s' := by
  constructor
  · intro h
    generalize hq : p >>= f = q at h
    induction h generalizing p with
    | done b s =>
      cases p with
      | done a =>
        rw [Prog.done_bind] at hq
        exact ⟨a, s, .done a s, by rw [hq]; exact .done b s⟩
      | call o next => cases hq
    | @call o next' s s₁ s' c b hans hrun ih =>
      cases p with
      | done a =>
        rw [Prog.done_bind] at hq
        exact ⟨a, s, .done a s, by rw [hq]; exact .call hans hrun⟩
      | call o' next =>
        cases hq
        obtain ⟨a, s₂, hnext, hrest⟩ := ih rfl
        exact ⟨a, s₂, .call hans hnext, hrest⟩
    | move hmove _ ih =>
      obtain ⟨a, s₂, hp, hrest⟩ := ih hq
      exact ⟨a, s₂, .move hmove hp, hrest⟩
  · rintro ⟨a, s₁, hp, hf⟩
    induction hp with
    | done => exact hf
    | call hans _ ih => exact .call hans (ih hf)
    | move hmove _ ih => exact .move hmove (ih hf)

/-- A run goes on from where the moves lead. -/
theorem Runs.of_moves {p : Prog Ans α} {s s₁ s' : σ} {a : α}
    (hmoves : Relation.ReflTransGen C.moves s s₁) (h : Runs C p s₁ a s') : Runs C p s a s' := by
  induction hmoves using Relation.ReflTransGen.head_induction_on with
  | refl => exact h
  | head hmove _ ih => exact .move hmove ih

theorem Runs.then_moves {p : Prog Ans α} {s s₁ s' : σ} {a : α} (h : Runs C p s a s₁)
    (hmoves : Relation.ReflTransGen C.moves s₁ s') : Runs C p s a s' := by
  induction h with
  | done => exact .of_moves hmoves (.done ..)
  | call hcall _ ih => exact .call hcall (ih hmoves)
  | move hmove _ ih => exact .move hmove (ih hmoves)

/-- A program without calls only waits. -/
theorem Runs.of_done {a b : α} {s s' : σ} (h : Runs C (.done a) s b s') :
    b = a ∧ Relation.ReflTransGen C.moves s s' := by
  generalize hp : Prog.done a = p at h
  induction h with
  | done =>
    cases hp
    exact ⟨rfl, .refl⟩
  | call => cases hp
  | move hmove _ ih => exact ⟨(ih hp).1, .head hmove (ih hp).2⟩

/-- A single call has moves before it and behind it. -/
theorem Runs.of_perform {o : Op} {s s' : σ} {b : Ans o} (h : Runs C (Prog.perform o) s b s') :
    ∃ s₁ s₂, Relation.ReflTransGen C.moves s s₁ ∧ C.answers o s₁ b s₂ ∧
      Relation.ReflTransGen C.moves s₂ s' := by
  generalize hp : Prog.perform o = p at h
  induction h with
  | done => cases hp
  | call hcall hrest _ =>
    cases hp
    obtain ⟨rfl, hbehind⟩ := hrest.of_done
    exact ⟨_, _, .refl, hcall, hbehind⟩
  | move hmove _ ih =>
    obtain ⟨s₁, s₂, hbefore, hcall, hbehind⟩ := ih hp
    exact ⟨s₁, s₂, .head hmove hbefore, hcall, hbehind⟩

/-- An invariant of the calls and of the moves holds at the end. -/
theorem Runs.invariant {I : σ → Prop} (hans : ∀ o s b s', C.answers o s b s' → I s → I s')
    (hmoves : ∀ s s', C.moves s s' → I s → I s') {p : Prog Ans α} {s s' : σ} {a : α}
    (h : Runs C p s a s') (hs : I s) : I s' := by
  induction h with
  | done => exact hs
  | call hcall _ ih => exact ih (hans _ _ _ _ hcall hs)
  | move hmove _ ih => exact ih (hmoves _ _ hmove hs)

/-- A first call that establishes an invariant. -/
theorem Runs.establishes {I : σ → Prop} {o : Op} (hcall : ∀ s b s', C.answers o s b s' → I s')
    (hans : ∀ o s b s', C.answers o s b s' → I s → I s')
    (hmoves : ∀ s s', C.moves s s' → I s → I s') {next : Ans o → Prog Ans α} {s s' : σ} {a : α}
    (h : Runs C (.call o next) s a s') : I s' := by
  generalize hp : Prog.call o next = p at h
  induction h with
  | done => cases hp
  | call hfirst hrest _ =>
    cases hp
    exact hrest.invariant hans hmoves (hcall _ _ _ hfirst)
  | move _ _ ih => exact ih hp

/-- A run of a lifted program, seen from the component that it was written for. -/
theorem Runs.of_lift {Op' : Type} {Ans' : Op' → Type} {C' : Component Ans' τ} {g : Op → Op'}
    {e : (o : Op) → Ans' (g o) → Ans o} {f : τ → σ}
    (hans : ∀ o t b t', C'.answers (g o) t b t' → C.answers o (f t) (e o b) (f t'))
    (hmoves : ∀ t t', C'.moves t t' → f t' = f t ∨ C.moves (f t) (f t')) {p : Prog Ans α}
    {t t' : τ} {a : α} (h : Runs C' (p.lift g e) t a t') : Runs C p (f t) a (f t') := by
  generalize hq : p.lift g e = q at h
  induction h generalizing p with
  | done =>
    cases p with
    | done a =>
      cases hq
      exact .done ..
    | call o next => cases hq
  | call hcall _ ih =>
    cases p with
    | done a => cases hq
    | call o next =>
      cases hq
      exact .call (hans _ _ _ _ hcall) (ih rfl)
  | move hmove _ ih =>
    rcases hmoves _ _ hmove with hsame | hmove
    · rw [← hsame]
      exact ih hq
    · exact .move hmove (ih hq)

/-- A lifted program leaves alone what its operations and the moves leave alone. -/
theorem Runs.lift_unchanged {Op' : Type} {Ans' : Op' → Type} {C' : Component Ans' τ}
    {g : Op → Op'} {e : (o : Op) → Ans' (g o) → Ans o} {f : τ → σ}
    (hans : ∀ o t b t', C'.answers (g o) t b t' → f t' = f t)
    (hmoves : ∀ t t', C'.moves t t' → f t' = f t) {p : Prog Ans α} {t t' : τ} {a : α}
    (h : Runs C' (p.lift g e) t a t') : f t' = f t := by
  let still : Component Ans σ := ⟨fun _ s _ s' => s' = s, fun _ _ => False⟩
  have hrun : Runs still p (f t) a (f t') :=
    h.of_lift hans fun t t' hmove => .inl (hmoves t t' hmove)
  refine Runs.invariant (C := still) (I := fun s => s = f t) ?_ ?_ hrun rfl
  · exact fun _ _ _ _ hcall heq => Eq.trans hcall heq
  · exact fun _ _ hmove => False.elim hmove

/-- A run, seen by a component that does not see the moves. -/
theorem Runs.map {C' : Component Ans τ} {f : σ → τ}
    (hans : ∀ o s b s', C.answers o s b s' → C'.answers o (f s) b (f s'))
    (hmoves : ∀ s s', C.moves s s' → f s' = f s) {p : Prog Ans α} {s s' : σ} {a : α}
    (h : Runs C p s a s') : Runs C' p (f s) a (f s') := by
  induction h with
  | done => exact .done ..
  | call hcall _ ih => exact .call (hans _ _ _ _ hcall) ih
  | move hmove _ ih =>
    rw [← hmoves _ _ hmove]
    exact ih

section Still

variable (hstill : ∀ s s', ¬ C.moves s s')

include hstill

/-- Without moves a run is followed call by call. -/
theorem runs_done_of_still {a b : α} {s s' : σ} :
    Runs C (.done a) s b s' ↔ b = a ∧ s' = s := by
  constructor
  · intro h
    cases h with
    | done => exact ⟨rfl, rfl⟩
    | move hmove => exact absurd hmove (hstill _ _)
  · rintro ⟨rfl, rfl⟩
    exact .done ..

theorem runs_call_of_still {o : Op} {next : Ans o → Prog Ans α} {s s' : σ} {a : α} :
    Runs C (.call o next) s a s' ↔ ∃ b s₁, C.answers o s b s₁ ∧ Runs C (next b) s₁ a s' := by
  constructor
  · intro h
    cases h with
    | call hcall hrest => exact ⟨_, _, hcall, hrest⟩
    | move hmove => exact absurd hmove (hstill _ _)
  · rintro ⟨b, s₁, hcall, hrest⟩
    exact .call hcall hrest

end Still

/-- **A part that the moves leave alone** is evaluated as if there were none. -/
theorem Runs.eval {f : σ → τ} {act : (o : Op) → τ → Option (Ans o × τ)}
    (hans : ∀ o s b s' r, C.answers o s b s' → act o (f s) = some r → r = (b, f s'))
    (hmoves : ∀ s s', C.moves s s' → f s' = f s) {p : Prog Ans α} {s s' : σ} {a : α}
    (h : Runs C p s a s') {r : α × τ} (hr : p.eval act (f s) = some r) : r = (a, f s') := by
  induction h with
  | done a s => exact (Option.some.inj hr).symm
  | call hcall _ ih =>
    obtain ⟨r₁, hr₁, hrest⟩ := Option.bind_eq_some_iff.mp hr
    obtain rfl := hans _ _ _ _ _ hcall hr₁
    exact ih hrest
  | move hmove _ ih => exact ih (by rwa [hmoves _ _ hmove])

/-- An evaluation is a run in which nothing moves. -/
theorem runs_of_eval {act : (o : Op) → σ → Option (Ans o × σ)}
    (hact : ∀ o s r, act o s = some r → C.answers o s r.1 r.2) {p : Prog Ans α} {s s' : σ} {a : α}
    (h : p.eval act s = some (a, s')) : Runs C p s a s' := by
  induction p generalizing s with
  | done b =>
    cases h
    exact .done ..
  | call o next ih =>
    obtain ⟨r, hr, hrest⟩ := Option.bind_eq_some_iff.mp h
    exact .call (hact o _ r hr) (ih r.1 hrest)

/-- From every state with `P` there is a run, which leaves a state with `Q`. -/
def Completes (C : Component Ans σ) (P : σ → Prop) (p : Prog Ans α) (Q : σ → Prop) : Prop :=
  ∀ s, P s → ∃ a s', Runs C p s a s' ∧ Q s'

namespace Completes

variable {P Q R : σ → Prop}

theorem bind {p : Prog Ans α} {f : α → Prog Ans β} (hp : Completes C P p Q)
    (hf : ∀ a, Completes C Q (f a) R) : Completes C P (p >>= f) R := by
  intro s hs
  obtain ⟨a, s₁, hrun, hs₁⟩ := hp s hs
  obtain ⟨b, s', hrest, hs'⟩ := hf a s₁ hs₁
  exact ⟨b, s', runs_bind.mpr ⟨a, s₁, hrun, hrest⟩, hs'⟩

theorem perform {o : Op} (h : ∀ s, P s → ∃ b s', C.answers o s b s' ∧ Q s') :
    Completes C P (Prog.perform o) Q := by
  intro s hs
  obtain ⟨b, s', hcall, hs'⟩ := h s hs
  exact ⟨b, s', .call hcall (.done ..), hs'⟩

theorem forM {ι : Type} {f : ι → Prog Ans PUnit} (h : ∀ i, Completes C P (f i) P) (is : List ι) :
    Completes C P (is.forM f) P := by
  induction is with
  | nil => exact fun s hs => ⟨_, s, .done .., hs⟩
  | cons i is ih => exact (h i).bind fun _ => ih

end Completes

end Interaction
