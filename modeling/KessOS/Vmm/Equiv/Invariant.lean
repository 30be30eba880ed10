import KessOS.Vmm.Equiv.Run

/-!
# The page-table invariant

`Inv seg s` describes a state of the memory manager between two stores: the bump allocator
stands inside the segment, the tables below `pml4` form a tree (`distinct`), these tables are
exactly the frames taken so far (`inside`, `covered`), a page is only ever mapped to itself
(`identity`), and an upper entry that is not present was never used (`clean`).  Nothing here asks
a frame to be mapped, so the invariant also holds inside a call of `map_page`, while the frames
of the calls on the stack are linked but not yet mapped.

`Extends flags Δ s s'` says how the state has grown from `s` to `s'`: no entry is lost, the new
ones are those of `Δ` and carry `flags`, and the events in between (`Traced`) touch tables only.
`Extends.trans` composes two such steps.
-/

namespace KessOS

open Trace

/-- The frame that `internel_alloc_page` hands out next. -/
def Vmm.next (s : Vmm) : ℕ := pfn s.placement

/-- A segment of free page frames, below 2^48 and apart from the static `pml4`. -/
structure Segment (pml4 : Addr) where
  base : ℕ
  pages : ℕ
  fits : base + pages ≤ 2 ^ 36
  apart : ¬ (base ≤ pfn pml4 ∧ pfn pml4 < base + pages)

variable {pml4 : Addr} {seg : Segment pml4}

/-- Every entry of `m` is still there in `m'`. -/
def Keeps (pml4 : Addr) (m m' : PhysMem) : Prop :=
  ∀ ℓ q e, ℓ ≤ 3 → q < 512 ^ (ℓ + 1) → slotAt m pml4 ℓ q = some e → slotAt m' pml4 ℓ q = some e

theorem Keeps.refl (m : PhysMem) : Keeps pml4 m m := fun _ _ _ _ _ h => h

theorem Keeps.trans {m₁ m₂ m₃ : PhysMem} (h₁ : Keeps pml4 m₁ m₂) (h₂ : Keeps pml4 m₂ m₃) :
    Keeps pml4 m₁ m₃ :=
  fun ℓ q e hℓ hq h => h₂ ℓ q e hℓ hq (h₁ ℓ q e hℓ hq h)

/-- Tables are kept along with the entries. -/
theorem Keeps.node {m m' : PhysMem} (h : Keeps pml4 m m') {ℓ q t : ℕ} (hℓ : ℓ ≤ 4)
    (hq : q < 512 ^ ℓ) (ht : nodeAt m pml4 ℓ q = some t) : nodeAt m' pml4 ℓ q = some t := by
  cases ℓ with
  | zero => exact ht
  | succ ℓ =>
    obtain ⟨e, he, htarget⟩ := nodeAt_succ_eq_some.mp ht
    exact nodeAt_succ_eq_some.mpr ⟨e, h ℓ q e (by omega) hq he, htarget⟩

/-- The tables and the allocator are in order. -/
structure Inv (seg : Segment pml4) (s : Vmm) : Prop where
  aligned : s.placement.toNat = 4096 * s.next
  low : seg.base ≤ s.next
  count : s.next + s.segmentUsable.toNat = seg.base + seg.pages
  distinct : Radix.Distinct child s.mem (pfn pml4) 3
  inside : ∀ ℓ < 3, ∀ q < 512 ^ (ℓ + 1), ∀ t,
    nodeAt s.mem pml4 (ℓ + 1) q = some t → seg.base ≤ t ∧ t < s.next
  covered : ∀ t, seg.base ≤ t → t < s.next →
    ∃ ℓ < 3, ∃ q < 512 ^ (ℓ + 1), nodeAt s.mem pml4 (ℓ + 1) q = some t
  identity : ∀ p < 512 ^ 4, ∀ e, slotAt s.mem pml4 3 p = some e → pfn (target e) = p
  clean : ∀ ℓ < 3, ∀ q < 512 ^ ℓ, ∀ t, nodeAt s.mem pml4 ℓ q = some t →
    ∀ i, present (s.mem t i) = true ∨ s.mem t i = 0#64

namespace Inv

variable {s : Vmm}

theorem next_le (h : Inv seg s) : s.next ≤ seg.base + seg.pages := by
  have := h.count
  omega

/-- No table lies outside the frames taken so far, except `pml4`. -/
theorem table_within (h : Inv seg s) {ℓ q t : ℕ} (hℓ : ℓ ≤ 3) (hq : q < 512 ^ ℓ)
    (ht : nodeAt s.mem pml4 ℓ q = some t) :
    t = pfn pml4 ∨ (seg.base ≤ t ∧ t < s.next) := by
  cases ℓ with
  | zero => exact Or.inl (Option.some.inj ht).symm
  | succ ℓ => exact Or.inr (h.inside ℓ (by omega) q hq t ht)

/-- The next free frame is not a table. -/
theorem node_ne_next (h : Inv seg s) (hfree : 0 < s.segmentUsable.toNat) {ℓ q : ℕ} (hℓ : ℓ ≤ 3)
    (hq : q < 512 ^ ℓ) : nodeAt s.mem pml4 ℓ q ≠ some s.next := by
  intro ht
  have hcount := h.count
  have hlow := h.low
  rcases h.table_within hℓ hq ht with hroot | ⟨_, hlt⟩
  · exact seg.apart (by omega)
  · exact lt_irrefl _ hlt

end Inv

/-! ### Events -/

/-- The frame that an event reads or writes. -/
def Event.frame? : Event → Option ℕ
  | .read table _ => some (pfn table)
  | .write table _ _ => some (pfn table)
  | .writeByte addr _ => some (pfn addr)
  | _ => none

/-- Other frames are left alone. -/
theorem Event.act_frame {ev : Event} {f : ℕ} (h : ev.frame? ≠ some f) (m : PhysMem) :
    ev.act m f = m f := by
  cases ev with
  | write table idx entry =>
    have hne : f ≠ pfn table := fun heq => h (congrArg some heq.symm)
    exact Function.update_of_ne hne _ _
  | writeByte addr byte => exact storeByte_of_ne m (fun heq => h (congrArg some heq.symm)) byte
  | _ => rfl

/-- The frames handed out in a trace, in order. -/
def allocated (es : List Event) : List Addr :=
  es.filterMap fun
    | .alloc frame => some frame
    | _ => none

/-- The addresses of the frames from `lo` up to `hi`. -/
def framesFrom (lo hi : ℕ) : List Addr :=
  (List.range' lo (hi - lo)).map frameAddr

theorem framesFrom_append {lo mid hi : ℕ} (h₁ : lo ≤ mid) (h₂ : mid ≤ hi) :
    framesFrom lo mid ++ framesFrom mid hi = framesFrom lo hi := by
  rw [framesFrom, framesFrom, framesFrom, ← List.map_append]
  have hmid : mid = lo + 1 * (mid - lo) := by omega
  rw [show List.range' mid (hi - mid) = List.range' (lo + 1 * (mid - lo)) (hi - mid) by
    rw [← hmid], List.range'_append]
  congr 2
  omega

theorem mem_framesFrom {lo hi : ℕ} {a : Addr} :
    a ∈ framesFrom lo hi ↔ ∃ f, lo ≤ f ∧ f < hi ∧ a = frameAddr f := by
  simp only [framesFrom, List.mem_map, List.mem_range'_1]
  constructor
  · rintro ⟨f, ⟨hlo, hhi⟩, rfl⟩
    exact ⟨f, hlo, by omega, rfl⟩
  · rintro ⟨f, hlo, hhi, rfl⟩
    exact ⟨f, ⟨hlo, by omega⟩, rfl⟩

@[simp] theorem length_framesFrom (lo hi : ℕ) : (framesFrom lo hi).length = hi - lo := by
  rw [framesFrom, List.length_map, List.length_range']

@[simp] theorem framesFrom_self (lo : ℕ) : framesFrom lo lo = [] := by
  simp [framesFrom]

@[simp] theorem allocated_nil : allocated [] = [] := rfl

@[simp] theorem allocated_append (es es' : List Event) :
    allocated (es ++ es') = allocated es ++ allocated es' := by
  simp [allocated]

theorem allocated_zeroing (table : Addr) : allocated (zeroing table) = [] := by
  simp [allocated, zeroing]

/-- `es` is what happened between `s` and `s'`: it keeps every entry at every moment, it touches
only `pml4` and frames taken from the segment, it takes the frames from `s.next` up to `s'.next`,
and it touches each of them for the first time while the tables do not map it, unless they
already did in `s`. -/
structure Traced (seg : Segment pml4) (s s' : Vmm) (es : List Event) : Prop where
  trace : s'.trace = s.trace ++ es
  mem : s'.mem = replay Event.act es s.mem
  keeps : Along Event.act (fun m ev => Keeps pml4 m (ev.act m)) s.mem es
  tables : ∀ ev ∈ es, ∀ f, ev.frame? = some f →
    f = pfn pml4 ∨ (seg.base ≤ f ∧ f < s'.next)
  allocs : allocated es = framesFrom s.next s'.next
  touched : ∀ f, s.next ≤ f → f < s'.next → ∃ pre ev post, es = pre ++ ev :: post ∧
    ev.frame? = some f ∧
    slotAt (replay Event.act pre s.mem) pml4 3 f = slotAt s.mem pml4 3 f

/-- Frames outside the segment are left alone, but for the one of `pml4`. -/
theorem Traced.mem_eq {s s' : Vmm} {es : List Event} (h : Traced seg s s' es) {f : ℕ}
    (hroot : f ≠ pfn pml4) (hseg : ¬ (seg.base ≤ f ∧ f < s'.next)) : s'.mem f = s.mem f := by
  rw [h.mem]
  refine replay_preserves (I := fun m : PhysMem => m f = s.mem f) rfl fun ev hev m hm => ?_
  refine (Event.act_frame (fun hframe => ?_) m).trans hm
  exact (h.tables ev hev f hframe).elim hroot hseg

/-- What happened in two steps.  The first must not have mapped a frame that the second takes. -/
theorem Traced.trans {s s₁ s₂ : Vmm} {es₁ es₂ : List Event} (h₁ : Traced seg s s₁ es₁)
    (h₂ : Traced seg s₁ s₂ es₂) (hle₁ : s.next ≤ s₁.next) (hle₂ : s₁.next ≤ s₂.next)
    (hlater : ∀ f, s₁.next ≤ f → f < s₂.next →
      slotAt s₁.mem pml4 3 f = slotAt s.mem pml4 3 f) :
    Traced seg s s₂ (es₁ ++ es₂) where
  trace := by rw [h₂.trace, h₁.trace, List.append_assoc]
  mem := by rw [h₂.mem, h₁.mem, replay_append]
  keeps := by
    rw [along_append, ← h₁.mem]
    exact ⟨h₁.keeps, h₂.keeps⟩
  tables := by
    intro ev hev f hf
    rcases List.mem_append.mp hev with hev | hev
    · have := h₁.tables ev hev f hf
      omega
    · exact h₂.tables ev hev f hf
  allocs := by rw [allocated_append, h₁.allocs, h₂.allocs, framesFrom_append hle₁ hle₂]
  touched := by
    intro f hf₁ hf₂
    rcases Nat.lt_or_ge f s₁.next with hlt | hge
    · obtain ⟨pre, ev, post, hes, hframe, hslot⟩ := h₁.touched f hf₁ hlt
      exact ⟨pre, ev, post ++ es₂, by rw [hes]; simp, hframe, hslot⟩
    · -- The first step has left the frame alone, so the second finds it as `s` had it.
      obtain ⟨pre, ev, post, hes, hframe, hslot⟩ := h₂.touched f hge hf₂
      refine ⟨es₁ ++ pre, ev, post, by rw [hes]; simp, hframe, ?_⟩
      rw [replay_append, ← h₁.mem, hslot]
      exact hlater f hge hf₂

/-- The tables of `s'` are those of `s` with the entries of `Δ` added, all of them new ones
with these `flags`. -/
structure Extends (seg : Segment pml4) (flags : BitVec 32) (Δ : Set (ℕ × ℕ)) (s s' : Vmm) :
    Prop where
  le : s.next ≤ s'.next
  keep : Keeps pml4 s.mem s'.mem
  gain : ∀ ℓ q e, ℓ ≤ 3 → q < 512 ^ (ℓ + 1) → slotAt s.mem pml4 ℓ q = none →
    slotAt s'.mem pml4 ℓ q = some e → (ℓ, q) ∈ Δ ∧ flagBits e = flags.setWidth 64
  full : ∀ κ ∈ Δ, (slotAt s'.mem pml4 κ.1 κ.2).isSome
  range : ∀ κ ∈ Δ, κ.1 ≤ 3 ∧ κ.2 < 512 ^ (κ.1 + 1)
  traced : ∃ es, Traced seg s s' es
  cr3 : s'.cr3 = s.cr3

namespace Extends

variable {flags : BitVec 32} {Δ Δ₁ Δ₂ : Set (ℕ × ℕ)} {s s₁ s₂ s' : Vmm}

/-- The entries present after the step. -/
theorem isSome_iff (h : Extends seg flags Δ s s') {ℓ q : ℕ} (hℓ : ℓ ≤ 3)
    (hq : q < 512 ^ (ℓ + 1)) :
    (slotAt s'.mem pml4 ℓ q).isSome ↔ (slotAt s.mem pml4 ℓ q).isSome ∨ (ℓ, q) ∈ Δ := by
  constructor
  · intro hs
    cases hold : slotAt s.mem pml4 ℓ q with
    | some e => exact Or.inl rfl
    | none =>
      obtain ⟨e, he⟩ := Option.isSome_iff_exists.mp hs
      exact Or.inr (h.gain ℓ q e hℓ hq hold he).1
  · rintro (hs | hΔ)
    · obtain ⟨e, he⟩ := Option.isSome_iff_exists.mp hs
      rw [h.keep ℓ q e hℓ hq he]
      rfl
    · exact h.full _ hΔ

/-- A page outside `Δ` is mapped afterwards as it was before. -/
theorem slotAt_eq (h : Extends seg flags Δ s s') {ℓ q : ℕ} (hℓ : ℓ ≤ 3) (hq : q < 512 ^ (ℓ + 1))
    (hΔ : (ℓ, q) ∉ Δ) : slotAt s'.mem pml4 ℓ q = slotAt s.mem pml4 ℓ q := by
  cases hold : slotAt s.mem pml4 ℓ q with
  | some e => exact h.keep ℓ q e hℓ hq hold
  | none =>
    cases hnew : slotAt s'.mem pml4 ℓ q with
    | none => rfl
    | some e => exact absurd (h.gain ℓ q e hℓ hq hold hnew).1 hΔ

theorem congr_set (h : Extends seg flags Δ₁ s s') (hΔ : Δ₁ = Δ₂) : Extends seg flags Δ₂ s s' :=
  hΔ ▸ h

theorem refl (s : Vmm) : Extends seg flags ∅ s s where
  le := le_rfl
  keep := Keeps.refl _
  gain ℓ q e _ _ h₁ h₂ := by rw [h₁] at h₂; cases h₂
  full κ hκ := absurd hκ (Set.notMem_empty κ)
  range κ hκ := absurd hκ (Set.notMem_empty κ)
  traced := ⟨[], by simp, rfl, .nil _, by simp, by simp, fun f h₁ h₂ => by omega⟩
  cr3 := rfl

/-- Two steps in a row.  The first must not map a frame that the second takes. -/
theorem trans (h₁ : Extends seg flags Δ₁ s s₁) (h₂ : Extends seg flags Δ₂ s₁ s₂)
    (hlater : ∀ f, s₁.next ≤ f → f < s₂.next → (3, f) ∉ Δ₁) (hfit : s₂.next ≤ 2 ^ 36) :
    Extends seg flags (Δ₁ ∪ Δ₂) s s₂ where
  le := h₁.le.trans h₂.le
  keep := h₁.keep.trans h₂.keep
  gain ℓ q e hℓ hq hold hnew := by
    -- A new entry was made by the first step, which the second kept, or by the second.
    cases hmid : slotAt s₁.mem pml4 ℓ q with
    | none =>
      obtain ⟨hΔ, hflags⟩ := h₂.gain ℓ q e hℓ hq hmid hnew
      exact ⟨Or.inr hΔ, hflags⟩
    | some e₁ =>
      obtain ⟨hΔ, hflags⟩ := h₁.gain ℓ q e₁ hℓ hq hold hmid
      have hkept := h₂.keep ℓ q e₁ hℓ hq hmid
      rw [hnew] at hkept
      obtain rfl := Option.some.inj hkept
      exact ⟨Or.inl hΔ, hflags⟩
  full κ hκ := by
    rcases hκ with hκ | hκ
    · obtain ⟨hℓ, hq⟩ := h₁.range κ hκ
      exact (h₂.isSome_iff hℓ hq).mpr (Or.inl (h₁.full κ hκ))
    · exact h₂.full κ hκ
  range κ hκ := hκ.elim (h₁.range κ) (h₂.range κ)
  traced := by
    obtain ⟨es₁, ht₁⟩ := h₁.traced
    obtain ⟨es₂, ht₂⟩ := h₂.traced
    exact ⟨es₁ ++ es₂, ht₁.trans ht₂ h₁.le h₂.le fun f hge hlt =>
      h₁.slotAt_eq le_rfl (by omega) (hlater f hge hlt)⟩
  cr3 := h₂.cr3.trans h₁.cr3

end Extends

end KessOS
