import KessOS.Vmm.Equiv.MapPage
import Mathlib.Order.Lattice.Nat

/-!
# How many frames a call takes

A call of `map_page` takes a frame only when a table that it needs is missing, so the number of
frames it takes is the least `j` such that the page and the next `j` free frames lack at most
`j` tables together: `demand` (`mapPage_takes`).  If the segment is too small for that, the call
runs out of memory, and it does not stop for any other reason (`mapPage_error`).

`ShortAt seg p s m` is the state of affairs just before a frame is taken: the call that started
in `s` has grown the tables until `m` is the next free frame, and a table is missing.
`mapPage_short` finds it at every frame a call takes, and `ShortAt.lt_missing` counts the tables.
-/

namespace KessOS

open EStateM

variable {pml4 : Addr} {seg : Segment pml4} {flags : BitVec 32} {s s' : Vmm} {p : ℕ}

/-- The entries a call on page `p` has to have once it has taken the frames from `lo` to `hi`. -/
def neededKeys (p lo hi : ℕ) : Set (ℕ × ℕ) := pathKeys p ∪ selfKeys lo hi

theorem neededKeys_mono {lo hi hi' : ℕ} (h : hi ≤ hi') :
    neededKeys p lo hi ⊆ neededKeys p lo hi' := by
  rintro κ (hκ | ⟨f, hlo, hhi, hκ⟩)
  · exact Or.inl hκ
  · exact Or.inr ⟨f, hlo, by omega, hκ⟩

/-- A call on page `p` that started in `s` stands where `m` is the next free frame and a table
is missing. -/
def ShortAt (seg : Segment pml4) (flags : BitVec 32) (p : ℕ) (s : Vmm) (m : ℕ) : Prop :=
  ∃ t Δ, t.next = m ∧ Inv seg t ∧ Extends seg flags Δ s t ∧ Δ ⊆ neededKeys p s.next m ∧
    ∃ κ ∈ neededKeys p s.next m, κ.1 < 3 ∧ κ.2 < 512 ^ (κ.1 + 1) ∧
      slotAt t.mem pml4 κ.1 κ.2 = none

/-- What a nested call lacks, the call around it lacks. -/
theorem ShortAt.of_nested {s₁ : Vmm} {p' m : ℕ} {Δ : Set (ℕ × ℕ)} (h : ShortAt seg flags p' s₁ m)
    (hE : Extends seg flags Δ s s₁) (hΔ : Δ ⊆ neededKeys p s.next s₁.next)
    (hlater : ∀ f, s₁.next ≤ f → (3, f) ∉ Δ)
    (hp' : pathKeys p' ⊆ neededKeys p s.next s₁.next) : ShortAt seg flags p s m := by
  obtain ⟨t, Δ', rfl, hI, hE', hΔ', κ, hκ, hκ3, hκr, hnone⟩ := h
  have hsub : neededKeys p' s₁.next t.next ⊆ neededKeys p s.next t.next := by
    rintro κ (hκ | ⟨f, hlo, hhi, hκ⟩)
    · exact neededKeys_mono hE'.le (hp' hκ)
    · exact Or.inr ⟨f, hE.le.trans hlo, hhi, hκ⟩
  refine ⟨t, Δ ∪ Δ', rfl, hI, hE.trans hE' (fun f hf _ => hlater f hf)
    (hI.next_le.trans seg.fits), ?_, κ, hsub hκ, hκ3, hκr, hnone⟩
  exact Set.union_subset (hΔ.trans (neededKeys_mono hE'.le)) (hΔ'.trans hsub)

/-! ### One level -/

section Level

variable {rec : Addr → BitVec 32 → VmmM Unit} {table : Addr} {ℓ q : ℕ}
  (hI : Inv seg s) (hf : FlagsOk flags) (hp : flags.getLsbD 0 = true) (hℓ : ℓ < 3)
  (hq : q < 512 ^ (ℓ + 1)) (ht : nodeAt s.mem pml4 ℓ (q / 512) = some (pfn table))
  (hpath : (ℓ, q) ∈ pathKeys p) (hpres : ¬ present (s.mem (pfn table) (Fin.ofNat 512 q)) = true)

include hI hf hp hℓ hq ht hpath hpres

omit hf hp in
/-- A missing table, before its frame is taken. -/
theorem shortAt_before : ShortAt seg flags p s s.next := by
  have hread := step_read flags (Fin.ofNat 512 q)
    (hI.table_within hℓ.le (Radix.div_lt_pow hq) ht)
  refine ⟨s.record (.read table (Fin.ofNat 512 q)), ∅, rfl, hI.record_read table _, hread,
    Set.empty_subset _, (ℓ, q), Or.inl hpath, hℓ, hq, ?_⟩
  exact slotAt_eq_none ht hpres

/-- A missing table of the nested call on the frame just linked. -/
theorem shortAt_after (hfree : 0 < s.segmentUsable.toNat) {m : ℕ}
    (h : ShortAt seg flags s.next
      ((s.record (.read table (Fin.ofNat 512 q))).linkFresh table (Fin.ofNat 512 q) flags) m) :
    ShortAt seg flags p s m := by
  obtain ⟨-, hnext, h12⟩ := hI.readLink hf hp hℓ hq ht hpres hfree rfl
  refine h.of_nested h12 ?_ ?_ ?_
  · intro κ hκ
    exact Or.inl ((Set.mem_singleton_iff.mp hκ) ▸ hpath)
  · intro f _ hκ
    have := (Prod.mk.inj (Set.mem_singleton_iff.mp hκ)).1
    omega
  · intro κ hκ
    exact Or.inr ⟨s.next, le_rfl, by rw [hnext]; exact Nat.lt_succ_self _, hκ⟩

end Level

/-- Frame `m` is one that a computation takes, or the one it wanted when it ran out of memory. -/
def Takes {α : Type} (r : Result Stop Vmm α) (m : ℕ) : Prop :=
  match r with
  | .ok _ s' => m < s'.next
  | .error e s' => e = .outOfMemory ∧ m ≤ s'.next

theorem takes_bind {α β : Type} {x : VmmM α} {f : α → VmmM β} {m : ℕ}
    (h : Takes ((x >>= f).run s) m) :
    Takes (x.run s) m ∨ ∃ a s₁, x.run s = .ok a s₁ ∧ s₁.next ≤ m ∧ Takes ((f a).run s₁) m := by
  cases hx : x.run s with
  | ok a s₁ =>
    rw [run_bind_of_ok hx] at h
    rcases Nat.lt_or_ge m s₁.next with hlt | hge
    · exact Or.inl hlt
    · exact Or.inr ⟨a, s₁, rfl, hge, h⟩
  | error e s₁ =>
    rw [run_bind_of_error hx] at h
    exact Or.inl h

section Level

variable {rec : Addr → BitVec 32 → VmmM Unit} {table : Addr} {ℓ q fuel : ℕ}
  (hI : Inv seg s) (hf : FlagsOk flags) (hp : flags.getLsbD 0 = true) (hℓ : ℓ < 3)
  (hq : q < 512 ^ (ℓ + 1)) (ht : nodeAt s.mem pml4 ℓ (q / 512) = some (pfn table))

include hI hf hp hℓ hq ht

theorem ensureTable_short
    (hshort : ∀ s a, Inv seg s → a.toNat < 2 ^ 48 → ∀ m, s.next ≤ m →
      Takes ((rec a flags).run s) m → ShortAt seg flags (pfn a) s m)
    (hpath : (ℓ, q) ∈ pathKeys p) {m : ℕ} (hm : s.next ≤ m)
    (h : Takes ((ensureTable rec table (Fin.ofNat 512 q) flags).run s) m) :
    ShortAt seg flags p s m := by
  rw [ensureTable_run] at h
  split_ifs at h with hpres hfree
  -- The table is there, so no frame is taken.
  · exact absurd (lt_of_le_of_lt hm h) (lt_irrefl _)
  -- The segment is used up: the frame wanted is the next one.
  · obtain rfl : m = s.next := Nat.le_antisymm h.2 hm
    exact shortAt_before hI hℓ hq ht hpath hpres
  -- The first frame is for the table itself, all others are taken by the nested call.
  · rcases Nat.eq_or_lt_of_le hm with rfl | hlt
    · exact shortAt_before hI hℓ hq ht hpath hpres
    · have hfree' := usable_pos hfree
      obtain ⟨hI₂, hnext, -⟩ := hI.readLink hf hp hℓ hq ht hpres hfree' rfl
      refine shortAt_after hI hf hp hℓ hq ht hpath hpres hfree'
        (hshort _ _ hI₂ (hI.placement_lt hfree') m (by omega) ?_)
      generalize (rec s.placement flags).run _ = r at h ⊢
      cases r with
      | ok u s₃ => exact h
      | error e s₃ => exact h

theorem ensureTable_error
    (herr : ∀ s s' a e, Inv seg s → a.toNat < 2 ^ 48 → s.segmentUsable.toNat < fuel →
      (rec a flags).run s = .error e s' →
      e = .outOfMemory ∧ s'.next = seg.base + seg.pages ∧ s'.cr3 = s.cr3)
    (hfuel : s.segmentUsable.toNat ≤ fuel) {e : Stop}
    (h : (ensureTable rec table (Fin.ofNat 512 q) flags).run s = .error e s') :
    e = .outOfMemory ∧ s'.next = seg.base + seg.pages ∧ s'.cr3 = s.cr3 := by
  rw [ensureTable_run] at h
  split_ifs at h with hpres hfree
  · obtain ⟨rfl, rfl⟩ := (Result.error.injEq ..).mp h
    have hzero : s.segmentUsable.toNat = 0 := Nat.le_zero.mp hfree
    have hcount := hI.count
    exact ⟨rfl, by show s.next = _; omega, rfl⟩
  · have hfree' := usable_pos hfree
    obtain ⟨hI₂, hnext, -⟩ := hI.readLink hf hp hℓ hq ht hpres hfree' rfl
    cases hrun : (rec s.placement flags).run
        ((s.record (.read table (Fin.ofNat 512 q))).linkFresh table (Fin.ofNat 512 q) flags) with
    | ok u s₃ =>
      rw [hrun] at h
      cases h
    | error e' s₃ =>
      rw [hrun] at h
      obtain ⟨rfl, rfl⟩ := (Result.error.injEq ..).mp h
      -- One page fewer is left, and the fuel still covers it.
      have hcount₁ := hI.count
      have hcount₂ := hI₂.count
      obtain ⟨h1, h2, h3⟩ := herr _ _ _ _ hI₂ (hI.placement_lt hfree') (by omega) hrun
      exact ⟨h1, h2, h3.trans (linkFresh_cr3 ..)⟩

end Level

/-! ### The call -/

/-- What a level lacks, the call lacks. -/
theorem Reached.short {addr table : Addr} {ℓ m : ℕ} {s₁ : Vmm}
    (h : Reached seg flags addr ℓ table s s₁) (hℓ : ℓ ≤ 3)
    (hshort : ShortAt seg flags (pfn addr) s₁ m) : ShortAt seg flags (pfn addr) s m := by
  refine hshort.of_nested h.ext ?_ (fun f hf => h.page_notMem hℓ hf) (fun κ hκ => Or.inl hκ)
  exact Set.union_subset_union_left _ fun κ hκ => hκ.2

/-- Wherever a call takes a frame, a table was missing. -/
theorem mapPageNested_short : ∀ (fuel : ℕ) (flags : BitVec 32), FlagsOk flags →
    ∀ (s : Vmm) (addr : Addr), Inv seg s → addr.toNat < 2 ^ 48 → ∀ m, s.next ≤ m →
      Takes ((mapPageNested pml4 fuel addr flags).run s) m →
      ShortAt seg (flags ||| pageBitPPresentFlag) (pfn addr) s m := by
  intro fuel
  induction fuel with
  -- Running out of fuel is not running out of memory.
  | zero =>
    intro flags _ s addr _ _ m _ h
    exact absurd h.1 (by decide)
  | succ fuel ih =>
    intro flags hf s addr hI ha m hm h
    have hf' := hf.or_present
    have hp := or_present_getLsbD flags
    have hrec := mapPageNested_nested seg fuel hf
    have hshort : ∀ s a, Inv seg s → a.toNat < 2 ^ 48 → ∀ m, s.next ≤ m →
        Takes ((mapPageNested pml4 fuel a (flags ||| pageBitPPresentFlag)).run s) m →
        ShortAt seg (flags ||| pageBitPPresentFlag) (pfn a) s m := by
      intro s a hI ha m hm h
      have := ih _ hf' s a hI ha m hm h
      rwa [or_present_idem] at this
    have hlevel : ∀ {ℓ table s₁}, ℓ < 3 →
        Reached seg (flags ||| pageBitPPresentFlag) addr ℓ table s s₁ → s₁.next ≤ m →
        Takes ((ensureTable (mapPageNested pml4 fuel) table (tableIdx addr (39 - 9 * ℓ))
          (flags ||| pageBitPPresentFlag)).run s₁) m →
        ShortAt seg (flags ||| pageBitPPresentFlag) (pfn addr) s m := by
      intro ℓ table s₁ hℓ hr hm h
      rw [tableIdx_eq addr hℓ.le] at h
      exact hr.short hℓ.le (ensureTable_short hr.inv hf' hp hℓ (levelIdx_lt (pfn_lt addr ha) hℓ.le)
        hr.node hshort ⟨hℓ.le, rfl⟩ hm h)
    rw [mapPageNested] at h
    have r₀ : Reached seg (flags ||| pageBitPPresentFlag) addr 0 pml4 s s := Reached.start hI
    rcases takes_bind h with h | ⟨pdpt, s₁, h₁, hm₁, h⟩
    · exact hlevel (by omega) r₀ hm h
    have r₁ := r₀.level hrec hf' hp (by omega) ha h₁
    rcases takes_bind h with h | ⟨pdt, s₂, h₂, hm₂, h⟩
    · exact hlevel (by omega) r₁ hm₁ h
    have r₂ := r₁.level hrec hf' hp (by omega) ha h₂
    rcases takes_bind h with h | ⟨pt, s₃, h₃, hm₃, h⟩
    · exact hlevel (by omega) r₂ hm₂ h
    have r₃ := r₂.level hrec hf' hp (by omega) ha h₃
    -- The last lines take no frame.
    have hlast : m < s₃.next := by
      rw [leaf_run] at h
      split_ifs at h
      · exact h
      · exact h
    omega

/-- A call that stops has used up the segment. -/
theorem mapPageNested_error : ∀ (fuel : ℕ) (flags : BitVec 32), FlagsOk flags →
    ∀ (s s' : Vmm) (addr : Addr) (e : Stop), Inv seg s → addr.toNat < 2 ^ 48 →
      s.segmentUsable.toNat < fuel → (mapPageNested pml4 fuel addr flags).run s = .error e s' →
      e = .outOfMemory ∧ s'.next = seg.base + seg.pages ∧ s'.cr3 = s.cr3 := by
  intro fuel
  induction fuel with
  | zero =>
    intro flags _ s s' addr e _ _ hfuel
    omega
  | succ fuel ih =>
    intro flags hf s s' addr e hI ha hfuel h
    obtain ⟨ℓ, table, s₁, hℓ, hr, h⟩ := mapPageNested_error_cases hf hI ha h
    have hcount := hI.count
    have hcount₁ := hr.inv.count
    have hle := hr.ext.le
    obtain ⟨h1, h2, h3⟩ := ensureTable_error hr.inv hf.or_present (or_present_getLsbD flags) hℓ
      (levelIdx_lt (pfn_lt addr ha) hℓ.le) hr.node (fun s s' a e => ih _ hf.or_present s s' a e)
      (by omega) h
    exact ⟨h1, h2, h3.trans hr.ext.cr3⟩

/-! ### Counting the missing tables -/

/-- The tables on the walk of page `p`. -/
def tableKeys (p : ℕ) : Finset (ℕ × ℕ) := (Finset.range 3).image fun ℓ => (ℓ, levelIdx p ℓ)

/-- The tables a call on page `p` needs if it takes `j` frames. -/
def neededTables (p lo j : ℕ) : Finset (ℕ × ℕ) :=
  tableKeys p ∪ (Finset.range j).biUnion fun i => tableKeys (lo + i)

/-- The number of tables that page `p` and the next `j` free frames lack. -/
def missing (pml4 : Addr) (s : Vmm) (p j : ℕ) : ℕ :=
  ((neededTables p s.next j).filter fun κ => slotAt s.mem pml4 κ.1 κ.2 = none).card

/-- The least number of frames that makes up for the tables lacking. -/
noncomputable def demand (pml4 : Addr) (s : Vmm) (p : ℕ) : ℕ :=
  sInf {j | missing pml4 s p j ≤ j}

theorem mem_tableKeys {p : ℕ} {κ : ℕ × ℕ} : κ ∈ tableKeys p ↔ κ.1 < 3 ∧ κ ∈ pathKeys p := by
  obtain ⟨ℓ, q⟩ := κ
  simp only [tableKeys, Finset.mem_image, Finset.mem_range, Prod.mk.injEq, mem_pathKeys]
  constructor
  · rintro ⟨k, hk, rfl, rfl⟩
    exact ⟨hk, by omega, rfl⟩
  · rintro ⟨hℓ, _, rfl⟩
    exact ⟨ℓ, hℓ, rfl, rfl⟩

theorem mem_neededTables {p lo j : ℕ} {κ : ℕ × ℕ} :
    κ ∈ neededTables p lo j ↔ κ.1 < 3 ∧ κ ∈ neededKeys p lo (lo + j) := by
  simp only [neededTables, Finset.mem_union, Finset.mem_biUnion, Finset.mem_range, mem_tableKeys,
    neededKeys, Set.mem_union, mem_selfKeys]
  constructor
  · rintro (⟨hℓ, hκ⟩ | ⟨i, hi, hℓ, hκ⟩)
    · exact ⟨hℓ, Or.inl hκ⟩
    · exact ⟨hℓ, Or.inr ⟨lo + i, by omega, by omega, hκ⟩⟩
  · rintro ⟨hℓ, hκ | ⟨f, hlo, hhi, hκ⟩⟩
    · exact Or.inl ⟨hℓ, hκ⟩
    · exact Or.inr ⟨f - lo, by omega, hℓ, by rwa [Nat.add_sub_cancel' hlo]⟩

/-- A table that is not in `s` was taken since. -/
theorem table_taken {s t : Vmm} (hIs : Inv seg s) (hIt : Inv seg t)
    (hkeep : Keeps pml4 s.mem t.mem) {ℓ q f : ℕ} (hℓ : ℓ < 3) (hq : q < 512 ^ (ℓ + 1))
    (hnone : slotAt s.mem pml4 ℓ q = none) (hf : nodeAt t.mem pml4 (ℓ + 1) q = some f) :
    s.next ≤ f ∧ f < t.next := by
  obtain ⟨hlo, hhi⟩ := hIt.inside ℓ hℓ q hq f hf
  refine ⟨?_, hhi⟩
  by_contra hlt
  -- An older frame would be a table of `s`, at a place it still has in `t`.
  obtain ⟨k, hk, r, hr, hf'⟩ := hIs.covered f hlo (by omega)
  have hkept := hkeep.node (by omega) hr hf'
  obtain ⟨hkℓ, rfl⟩ := hIt.distinct _ _ _ _ _ (by omega) (by omega) hr hq hkept hf
  obtain rfl : k = ℓ := by omega
  obtain ⟨e, he, _⟩ := nodeAt_succ_eq_some.mp hf'
  rw [hnone] at he
  cases he

/-- Every frame taken since `s` is a table that was not there. -/
theorem taken_table {s t : Vmm} (hIs : Inv seg s) (hIt : Inv seg t)
    (hkeep : Keeps pml4 s.mem t.mem) {f : ℕ} (hlo : s.next ≤ f) (hhi : f < t.next) :
    ∃ ℓ < 3, ∃ q < 512 ^ (ℓ + 1), nodeAt t.mem pml4 (ℓ + 1) q = some f ∧
      slotAt s.mem pml4 ℓ q = none := by
  obtain ⟨ℓ, hℓ, q, hq, hf⟩ := hIt.covered f (hIs.low.trans hlo) hhi
  refine ⟨ℓ, hℓ, q, hq, hf, ?_⟩
  cases hs : slotAt s.mem pml4 ℓ q with
  | none => rfl
  | some e =>
    have hnode := nodeAt_succ_eq_some.mpr ⟨e, hs, rfl⟩
    have hkept := hkeep.node (by omega) hq hnode
    rw [hf] at hkept
    obtain rfl := Option.some.inj hkept
    have := (hIs.inside ℓ hℓ q hq _ hnode).2
    omega

/-- Where a call takes a frame, the frames taken so far do not make up for the tables lacking. -/
theorem ShortAt.lt_missing {j : ℕ} (hI : Inv seg s) (h : ShortAt seg flags p s (s.next + j)) :
    j < missing pml4 s p j := by
  obtain ⟨t, Δ, ht, hIt, hE, hΔ, κ, hκ, hκ3, hκr, hnone⟩ := h
  have hmem : κ ∈ (neededTables p s.next j).filter fun κ => slotAt s.mem pml4 κ.1 κ.2 = none := by
    refine Finset.mem_filter.mpr ⟨mem_neededTables.mpr ⟨hκ3, hκ⟩, ?_⟩
    cases hs : slotAt s.mem pml4 κ.1 κ.2 with
    | none => rfl
    | some e =>
      rw [hE.keep κ.1 κ.2 e (by omega) hκr hs] at hnone
      cases hnone
  rw [missing, ← Finset.card_erase_add_one hmem]
  -- Each frame taken is a table that was lacking, and none of them is the one still missing.
  have hframes : (Finset.Ico s.next t.next).card ≤ _ :=
    Radix.card_le_of_covers child (m := t.mem) (r := pfn pml4)
      (U := ((neededTables p s.next j).filter fun κ => slotAt s.mem pml4 κ.1 κ.2 = none).erase κ)
      fun f hf => by
        obtain ⟨hlo, hhi⟩ := Finset.mem_Ico.mp hf
        obtain ⟨ℓ, hℓ, q, hq, hnode, hs⟩ := taken_table hI hIt hE.keep hlo hhi
        obtain ⟨e, he, _⟩ := nodeAt_succ_eq_some.mp hnode
        refine ⟨(ℓ, q), Finset.mem_erase.mpr ⟨?_, Finset.mem_filter.mpr
          ⟨mem_neededTables.mpr ⟨hℓ, hΔ (hE.gain ℓ q e hℓ.le hq hs he).1⟩, hs⟩⟩, hnode⟩
        rintro rfl
        rw [hnone] at he
        cases he
  rw [Nat.card_Ico, ht] at hframes
  omega

/-- The frames a call has taken make up for the tables that were lacking. -/
theorem Maps.missing_le {addr : Addr} (hI : Inv seg s) (h : Maps seg flags addr s s') :
    missing pml4 s (pfn addr) (s'.next - s.next) ≤ s'.next - s.next := by
  obtain ⟨hI', hE⟩ := h
  have hle := hE.le
  have hneeded : ∀ κ ∈ neededTables (pfn addr) s.next (s'.next - s.next),
      κ.1 < 3 ∧ κ ∈ pathKeys (pfn addr) ∪ selfKeys s.next s'.next := by
    intro κ hκ
    have := mem_neededTables.mp hκ
    rwa [Nat.add_sub_cancel' hle] at this
  refine (Radix.card_le_of_present (S := Finset.Ico s.next s'.next) hI'.distinct ?_ ?_).trans
    (Nat.card_Ico ..).le
  · intro κ hκ
    obtain ⟨hκ3, hκ⟩ := hneeded κ (Finset.mem_filter.mp hκ).1
    exact ⟨hκ3, (hE.range κ hκ).2, hE.full κ hκ⟩
  · intro κ hκ f hf
    obtain ⟨hκmem, hnone⟩ := Finset.mem_filter.mp hκ
    obtain ⟨hκ3, hκΔ⟩ := hneeded κ hκmem
    exact Finset.mem_Ico.mpr
      (table_taken hI hI' hE.keep hκ3 (hE.range κ hκΔ).2 hnone hf)

/-- A page that lacks a table takes a frame. -/
theorem demand_pos {ℓ : ℕ} (hℓ : ℓ < 3) (hnone : slotAt s.mem pml4 ℓ (levelIdx p ℓ) = none)
    (henough : ∃ j, missing pml4 s p j ≤ j) : 0 < demand pml4 s p := by
  by_contra hzero
  have hdemand : demand pml4 s p = 0 := by omega
  have hin : missing pml4 s p (demand pml4 s p) ≤ demand pml4 s p := Nat.sInf_mem henough
  rw [hdemand, Nat.le_zero, missing, Finset.card_eq_zero] at hin
  have hmem : (ℓ, levelIdx p ℓ) ∈
      (neededTables p s.next 0).filter fun κ => slotAt s.mem pml4 κ.1 κ.2 = none :=
    Finset.mem_filter.mpr ⟨mem_neededTables.mpr ⟨hℓ, Or.inl ⟨hℓ.le, rfl⟩⟩, hnone⟩
  rw [hin] at hmem
  exact absurd hmem (Finset.notMem_empty _)

/-! ### `map_page` as a whole -/

theorem mapPage_run (addr : Addr) (flags : BitVec 32) (s : Vmm) :
    (mapPage pml4 addr flags).run s =
      (mapPageNested pml4 (s.segmentUsable.toNat + 1) addr flags).run s := by
  have hget : (get : VmmM Vmm).run s = .ok s s := rfl
  unfold mapPage
  rw [run_bind_of_ok hget]

variable {addr : Addr} (hI : Inv seg s) (ha : addr.toNat < 2 ^ 48) (hf : FlagsOk flags)

include hI ha hf

/-- **`map_page` is correct.** -/
theorem mapPage_ok (h : (mapPage pml4 addr flags).run s = .ok () s') :
    Maps seg (flags ||| pageBitPPresentFlag) addr s s' :=
  mapPageNested_ok _ flags hf s s' addr hI ha (mapPage_run addr flags s ▸ h)

/-- `map_page` only stops because the segment is used up. -/
theorem mapPage_error {e : Stop} (h : (mapPage pml4 addr flags).run s = .error e s') :
    e = .outOfMemory ∧ s'.next = seg.base + seg.pages ∧ s'.cr3 = s.cr3 :=
  mapPageNested_error _ flags hf s s' addr e hI ha (Nat.lt_succ_self _)
    (mapPage_run addr flags s ▸ h)

theorem mapPage_short {m : ℕ} (hm : s.next ≤ m) (h : Takes ((mapPage pml4 addr flags).run s) m) :
    ShortAt seg (flags ||| pageBitPPresentFlag) (pfn addr) s m :=
  mapPageNested_short _ flags hf s addr hI ha m hm (mapPage_run addr flags s ▸ h)

/-- A call that returns has taken as many frames as it needed. -/
theorem mapPage_takes (h : (mapPage pml4 addr flags).run s = .ok () s') :
    s'.next = s.next + demand pml4 s (pfn addr) := by
  have hmaps := mapPage_ok hI ha hf h
  have hle := hmaps.2.le
  have henough := hmaps.missing_le hI
  have hleast : demand pml4 s (pfn addr) ≤ s'.next - s.next := Nat.sInf_le henough
  have hin : demand pml4 s (pfn addr) ∈ {j | missing pml4 s (pfn addr) j ≤ j} :=
    Nat.sInf_mem ⟨_, henough⟩
  by_contra hne
  -- A frame beyond the demand would be taken with no table lacking any more.
  have htakes : Takes ((mapPage pml4 addr flags).run s) (s.next + demand pml4 s (pfn addr)) := by
    rw [h]
    show _ < _
    omega
  have hlt := (mapPage_short hI ha hf (Nat.le_add_right _ _) htakes).lt_missing hI
  exact absurd hin (Nat.not_le.mpr hlt)

/-- A call returns if the segment has the frames for what is lacking. -/
theorem mapPage_returns {j : ℕ} (hj : missing pml4 s (pfn addr) j ≤ j)
    (hroom : s.next + j ≤ seg.base + seg.pages) :
    ∃ s', (mapPage pml4 addr flags).run s = .ok () s' ∧ s'.next ≤ s.next + j := by
  have htakes : ¬ Takes ((mapPage pml4 addr flags).run s) (s.next + j) := by
    intro htakes
    have hlt := (mapPage_short hI ha hf (Nat.le_add_right _ _) htakes).lt_missing hI
    exact absurd hj (Nat.not_le.mpr hlt)
  cases hrun : (mapPage pml4 addr flags).run s with
  | ok u s' =>
    rw [hrun] at htakes
    exact ⟨s', rfl, Nat.not_lt.mp htakes⟩
  | error e s' =>
    obtain ⟨rfl, hnext, -⟩ := mapPage_error hI ha hf hrun
    rw [hrun] at htakes
    exact absurd ⟨rfl, hnext ▸ hroom⟩ htakes

end KessOS
