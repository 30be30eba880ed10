import KessOS.Trace.Basic
import Mathlib.Data.Set.Basic

/-!
# Caches that fill at any moment

A program acts on a memory `m` by events, and beside it a cache holds results of `look m`, a
partial function from keys to values.  At any moment (`Tick.fill`) the cache may take in what
`look` gives at that moment; an event `e` of the program drops the key `drops e` from it.

`Coherent` says that the cache holds nothing but what `look` gives now, and `CoherentOff k` says
so of all keys but `k`.  A run whose events lose no result keeps the cache coherent, however the
fills are interleaved with it (`Coherent.run`); a run that loses those of `k` only keeps it
coherent off `k` (`CoherentOff.run`), and dropping `k` then makes it coherent (`CoherentOff.drop`).
-/

namespace Cache

open Trace

variable {M K V ε : Type*}

/-- One moment: an event of the program, or a fill. -/
inductive Tick (ε K : Type*)
  | code (e : ε)
  | fill (k : K)

/-- The events of the program among the ticks. -/
def codes (τ : List (Tick ε K)) : List ε :=
  τ.filterMap fun
    | .code e => some e
    | .fill _ => none

variable (look : M → K → Option V) (act : ε → M → M) (drops : ε → Option K)

/-- The memory and the cache after a tick. -/
def tick : Tick ε K → M × Set (K × V) → M × Set (K × V)
  | .code e, (m, T) => (act e m, {c | c ∈ T ∧ drops e ≠ some c.1})
  | .fill k, (m, T) => (m, {c | c ∈ T ∨ c.1 = k ∧ look m k = some c.2})

/-- The cache holds what `look` gives. -/
def Coherent (s : M × Set (K × V)) : Prop := ∀ c ∈ s.2, look s.1 c.1 = some c.2

/-- The cache holds what `look` gives, but for the key `k`. -/
def CoherentOff (k : K) (s : M × Set (K × V)) : Prop :=
  ∀ c ∈ s.2, c.1 ≠ k → look s.1 c.1 = some c.2

variable {look act drops} {s : M × Set (K × V)} {τ τ' : List (Tick ε K)} {k : K}

@[simp] theorem codes_nil : codes ([] : List (Tick ε K)) = [] := rfl

@[simp] theorem codes_code (e : ε) (τ : List (Tick ε K)) :
    codes (.code e :: τ) = e :: codes τ := rfl

@[simp] theorem codes_fill (k : K) (τ : List (Tick ε K)) : codes (.fill k :: τ) = codes τ := rfl

theorem codes_append (τ τ' : List (Tick ε K)) : codes (τ ++ τ') = codes τ ++ codes τ' :=
  List.filterMap_append

/-- A program that runs without fills. -/
theorem codes_map_code (es : List ε) : codes (es.map (.code : ε → Tick ε K)) = es := by
  induction es with
  | nil => rfl
  | cons e es ih => rw [List.map_cons, codes_code, ih]

/-- Fills do not act on the memory. -/
theorem replay_tick_fst (τ : List (Tick ε K)) (s : M × Set (K × V)) :
    (replay (tick look act drops) τ s).1 = replay act (codes τ) s.1 := by
  induction τ generalizing s with
  | nil => rfl
  | cons t τ ih =>
    rw [replay_cons, ih]
    cases t with
    | code e => rfl
    | fill k => rfl

/-- A fill takes in what `look` gives. -/
theorem mem_replay_fill {v : V} (τ : List (Tick ε K)) (s : M × Set (K × V))
    (h : look (replay act (codes τ) s.1) k = some v) :
    (k, v) ∈ (replay (tick look act drops) (τ ++ [.fill k]) s).2 := by
  have hfst : (replay (tick look act drops) τ s).1 = replay act (codes τ) s.1 :=
    replay_tick_fst τ s
  rw [replay_append]
  rw [← hfst] at h
  exact Or.inr ⟨rfl, h⟩

theorem CoherentOff.of_coherent (h : Coherent look s) (k : K) : CoherentOff look k s :=
  fun c hc _ => h c hc

/-- A run that loses no result for the keys of `P` keeps the cache right on them. -/
theorem right_on_run {P : K → Prop} (h : ∀ c ∈ s.2, P c.1 → look s.1 c.1 = some c.2)
    (hkeep : Along act (fun m e => ∀ j v, P j → look m j = some v → look (act e m) j = some v)
      s.1 (codes τ)) :
    ∀ c ∈ (replay (tick look act drops) τ s).2,
      P c.1 → look (replay (tick look act drops) τ s).1 c.1 = some c.2 := by
  induction τ generalizing s with
  | nil => exact h
  | cons t τ ih =>
    rw [replay_cons]
    cases t with
    | code e =>
      rw [codes_code, along_cons] at hkeep
      exact ih (fun c hc hP => hkeep.1 _ _ hP (h c hc.1 hP)) hkeep.2
    -- What is taken in is what `look` gives at that moment.
    | fill j =>
      refine ih (fun c hc hP => ?_) hkeep
      rcases hc with hc | ⟨rfl, hlook⟩
      · exact h c hc hP
      · exact hlook

/-- A run that loses no result but those of `k`. -/
theorem CoherentOff.run (h : CoherentOff look k s)
    (hkeep : Along act (fun m e => ∀ j v, j ≠ k → look m j = some v → look (act e m) j = some v)
      s.1 (codes τ)) : CoherentOff look k (replay (tick look act drops) τ s) :=
  right_on_run (P := fun j => j ≠ k) h hkeep

/-- A run that loses no result. -/
theorem Coherent.run (h : Coherent look s)
    (hkeep : Along act (fun m e => ∀ j v, look m j = some v → look (act e m) j = some v)
      s.1 (codes τ)) : Coherent look (replay (tick look act drops) τ s) := by
  have hkeep' := hkeep.mono fun _ _ _ hk j v (_ : True) => hk j v
  exact fun c hc => right_on_run (P := fun _ => True) (fun c hc _ => h c hc) hkeep' c hc trivial

/-- Fills alone keep the cache coherent. -/
theorem Coherent.fills (h : Coherent look s) (hτ : codes τ = []) :
    Coherent look (replay (tick look act drops) τ s) :=
  h.run (by rw [hτ]; exact .nil _)

/-- Dropping the one key that was lost. -/
theorem CoherentOff.drop {e : ε} (h : CoherentOff look k s) (he : drops e = some k)
    (hact : ∀ m, act e m = m) (hτ : codes τ = [e]) :
    Coherent look (replay (tick look act drops) τ s) := by
  induction τ generalizing s with
  | nil => cases hτ
  | cons t τ ih =>
    rw [replay_cons]
    cases t with
    | code e' =>
      rw [codes_code] at hτ
      obtain ⟨rfl, hrest⟩ := List.cons.inj hτ
      refine Coherent.fills (fun c hc => ?_) hrest
      show look (act e' s.1) c.1 = _
      rw [hact]
      refine h c hc.1 fun hck => hc.2 ?_
      rw [he, hck]
    | fill j =>
      refine ih (fun c hc hne => ?_) hτ
      rcases hc with hc | ⟨rfl, hlook⟩
      · exact h c hc hne
      · exact hlook

/-- A run that does one thing after another is cut in two at any moment in between. -/
theorem codes_eq_append {es es' : List ε} (h : codes τ = es ++ es') :
    ∃ τ₁ τ₂, τ = τ₁ ++ τ₂ ∧ codes τ₁ = es ∧ codes τ₂ = es' :=
  List.filterMap_eq_append_iff.mp h

end Cache
