import KessOS.Copy.Blocks

/-!
# Layers of a picture

A layer covers some of the points with a value each and leaves the others open.  Writes to a store
draw a layer if they leave every point that it covers with its value, and the others as they were;
what is drawn behind is laid over what was drawn before (`Draws.append`), and of pictures that cover
every point the last one is seen (`writes_flatMap_pictures`).
-/

namespace Copy

variable {P κ α : Type*} [DecidableEq κ]

/-- A value for some of the points. -/
abbrev Layer (P α : Type*) := P → Option α

namespace Layer

/-- The layer `l`, laid over `l'`. -/
def onto (l l' : Layer P α) : Layer P α := fun p => (l p).or (l' p)

theorem onto_apply (l l' : Layer P α) (p : P) : l.onto l' p = (l p).or (l' p) := rfl

theorem onto_assoc (l l' l'' : Layer P α) : (l.onto l').onto l'' = l.onto (l'.onto l'') :=
  funext fun _ => Option.or_assoc

/-- Over a background every point is covered. -/
theorem onto_some (l : Layer P α) (c : P → α) :
    (l.onto fun p => some (c p)) = fun p => some ((l p).getD (c p)) := by
  funext p
  rw [onto_apply]
  cases l p with
  | some a => rfl
  | none => rfl

end Layer

/-- The writes draw the layer on the points of `D`, which are kept at the cells that `key` gives. -/
def Draws (key : P → κ) (D : Set P) (ws : List (κ × α)) (l : Layer P α) : Prop :=
  ∀ m : κ → α, ∀ p ∈ D, writes m ws (key p) = (l p).getD (m (key p))

variable {key : P → κ} {D : Set P} {ws ws' : List (κ × α)} {l l' : Layer P α}

theorem draws_nil : Draws key D ([] : List (κ × α)) fun _ => none := fun _ _ _ => rfl

/-- Every cell is written as the layer says. -/
theorem draws_of_mem_iff (h : ∀ p ∈ D, ∀ a, (key p, a) ∈ ws ↔ l p = some a) :
    Draws key D ws l := by
  intro m p hp
  cases hl : l p with
  | some a =>
    refine writes_of_mem m (fun w hw heq => ?_) ((h p hp a).mpr hl)
    have hval := (h p hp w.2).mp (heq ▸ hw)
    rw [hl] at hval
    exact (Option.some.inj hval).symm
  | none =>
    refine writes_of_notMem m fun w hw heq => ?_
    have hval := (h p hp w.2).mp (heq ▸ hw)
    rw [hl] at hval
    cases hval

/-- What is drawn behind is laid over. -/
theorem Draws.append (h : Draws key D ws l) (h' : Draws key D ws' l') :
    Draws key D (ws ++ ws') (l'.onto l) := by
  intro m p hp
  rw [writes_append, h' _ p hp, h m p hp, Layer.onto_apply]
  cases l' p <;> rfl

/-- Of pictures that cover every point, one after the other, the last one is seen. -/
theorem writes_flatMap_pictures {ι : Type*} {picture : ι → List (κ × α)} {c : ι → P → α}
    {is : List ι} (hdraws : ∀ i ∈ is, Draws key D (picture i) fun p => some (c i p)) {i : ι}
    {m : κ → α} (hm : ∀ p ∈ D, m (key p) = c i p) {p : P} (hp : p ∈ D) :
    writes m (is.flatMap picture) (key p) = c (is.getLastD i) p := by
  induction is generalizing i m with
  | nil => exact hm p hp
  | cons j is ih =>
    rw [List.forall_mem_cons] at hdraws
    rw [List.flatMap_cons, writes_append, List.getLastD_cons]
    exact ih hdraws.2 fun p hp => hdraws.1 m p hp

end Copy
