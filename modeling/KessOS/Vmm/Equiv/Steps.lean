import KessOS.Vmm.Equiv.Invariant

/-!
# The three steps of `map_page`

Everything `map_page` does is one of three steps: it reads an entry (`step_read`), it takes a
frame, clears it and links it into a vacant entry of an upper-level table (`step_link`), or it
fills a vacant entry of a page table (`step_leaf`).  Each step keeps `Inv` and is an `Extends`
with at most one new entry.
-/

namespace KessOS

open Trace

variable {pml4 : Addr} {seg : Segment pml4} {flags : BitVec 32} {s : Vmm}

/-! ### Reading -/

theorem Inv.record_read (h : Inv seg s) (table : Addr) (idx : Fin 512) :
    Inv seg (s.record (.read table idx)) :=
  ⟨h.aligned, h.low, h.count, h.distinct, h.inside, h.covered, h.identity, h.clean⟩

theorem step_read (flags : BitVec 32) {table : Addr} (idx : Fin 512)
    (htable : pfn table = pfn pml4 ∨ (seg.base ≤ pfn table ∧ pfn table < s.next)) :
    Extends seg flags ∅ s (s.record (.read table idx)) where
  le := le_rfl
  keep := Keeps.refl _
  gain ℓ q e _ _ h₁ h₂ := absurd (h₁.symm.trans h₂) (by simp)
  full κ hκ := absurd hκ (Set.notMem_empty κ)
  range κ hκ := absurd hκ (Set.notMem_empty κ)
  traced := by
    refine ⟨[.read table idx], rfl, rfl, .cons (Keeps.refl _) (.nil _), ?_, ?_, ?_⟩
    · intro ev hev f hf
      rw [List.mem_singleton] at hev
      subst hev
      obtain rfl := Option.some.inj hf
      exact htable
    · exact (framesFrom_self _).symm
    · exact fun f h₁ h₂ => absurd (lt_of_le_of_lt h₁ h₂) (lt_irrefl _)
  cr3 := rfl

/-! ### Filling an entry of a page table -/

/-- The state after `map_page` stores the entry for `addr` in the page table `pt`. -/
def Vmm.mapLeaf (s : Vmm) (pt addr : Addr) (flags : BitVec 32) : Vmm :=
  s.record (.write pt (tableIdx addr 12) (entryFor addr flags))

section Leaf

variable {pt addr : Addr} (hI : Inv seg s) (ha : addr.toNat < 2 ^ 48) (hf : FlagsOk flags)
  (hp : flags.getLsbD 0 = true) (hpt : nodeAt s.mem pml4 3 (pfn addr / 512) = some (pfn pt))
  (hvacant : slotAt s.mem pml4 3 (pfn addr) = none)

theorem tableIdx_leaf (addr : Addr) : tableIdx addr 12 = Fin.ofNat 512 (pfn addr) := by
  rw [show (12 : ℕ) = 39 - 9 * 3 by rfl, tableIdx_eq addr le_rfl, levelIdx_three]

include hI ha hf hp hpt in
theorem slotAt_mapLeaf {ℓ q : ℕ} (hℓ : ℓ ≤ 3) (hq : q < 512 ^ (ℓ + 1)) :
    slotAt (s.mapLeaf pt addr flags).mem pml4 ℓ q =
      if (ℓ, q) = (3, pfn addr) then some (entryFor addr flags) else slotAt s.mem pml4 ℓ q := by
  have hmem : (s.mapLeaf pt addr flags).mem =
      Radix.store s.mem (pfn pt) (Fin.ofNat 512 (pfn addr)) (entryFor addr flags) := by
    rw [← tableIdx_leaf]
    rfl
  have hrange := pfn_lt addr ha
  rw [slotAt, hmem]
  split_ifs with heq
  · obtain ⟨rfl, rfl⟩ := Prod.mk.inj heq
    rw [Radix.slot_store_self hI.distinct le_rfl hrange hpt, child_entryFor hf addr hp ha]
    rfl
  · exact Radix.slot_store_ne hI.distinct le_rfl hrange hpt hℓ hq heq

include hI ha hpt in
theorem nodeAt_mapLeaf {ℓ q : ℕ} (hℓ : ℓ ≤ 3) (hq : q < 512 ^ ℓ) :
    nodeAt (s.mapLeaf pt addr flags).mem pml4 ℓ q = nodeAt s.mem pml4 ℓ q :=
  Radix.node_store_le hI.distinct le_rfl (pfn_lt addr ha) hpt hℓ hq

include hI ha hf hp hpt in
theorem Inv.mapLeaf : Inv seg (s.mapLeaf pt addr flags) where
  aligned := hI.aligned
  low := hI.low
  count := hI.count
  distinct := hI.distinct.store_leaf (pfn_lt addr ha) hpt _
  inside ℓ hℓ q hq t ht := by
    rw [nodeAt_mapLeaf hI ha hpt (by omega) hq] at ht
    exact hI.inside ℓ hℓ q hq t ht
  covered t hlo hhi := by
    obtain ⟨ℓ, hℓ, q, hq, ht⟩ := hI.covered t hlo hhi
    refine ⟨ℓ, hℓ, q, hq, ?_⟩
    rw [nodeAt_mapLeaf hI ha hpt (by omega) hq]
    exact ht
  identity p hpr e he := by
    rw [slotAt_mapLeaf hI ha hf hp hpt le_rfl hpr] at he
    split_ifs at he with heq
    · obtain rfl := Option.some.inj he
      rw [(Prod.mk.inj heq).2]
      exact pfn_target_entryFor hf addr ha
    · exact hI.identity p hpr e he
  clean ℓ hℓ q hq t ht i := by
    rw [nodeAt_mapLeaf hI ha hpt (by omega) hq] at ht
    -- A table above depth 3 is not the page table, which is at depth 3.
    have hne : t ≠ pfn pt := by
      rintro rfl
      have := (hI.distinct _ _ _ _ _ (by omega) le_rfl hq (Radix.div_lt_pow (pfn_lt addr ha)) ht
        hpt).1
      omega
    have hmem : (s.mapLeaf pt addr flags).mem t = s.mem t := Radix.store_table_ne hne ..
    rw [hmem]
    exact hI.clean ℓ hℓ q hq t ht i

include hI ha hf hp hpt hvacant in
theorem step_leaf : Extends seg flags {(3, pfn addr)} s (s.mapLeaf pt addr flags) where
  le := le_rfl
  keep ℓ q e hℓ hq he := by
    rw [slotAt_mapLeaf hI ha hf hp hpt hℓ hq, if_neg, he]
    intro heq
    obtain ⟨rfl, rfl⟩ := Prod.mk.inj heq
    rw [hvacant] at he
    cases he
  gain ℓ q e hℓ hq hold hnew := by
    rw [slotAt_mapLeaf hI ha hf hp hpt hℓ hq] at hnew
    split_ifs at hnew with heq
    · obtain rfl := Option.some.inj hnew
      exact ⟨heq, flagBits_entryFor hf addr⟩
    · rw [hold] at hnew
      cases hnew
  full κ hκ := by
    obtain rfl := Set.mem_singleton_iff.mp hκ
    rw [slotAt_mapLeaf hI ha hf hp hpt le_rfl (pfn_lt addr ha), if_pos rfl]
    rfl
  range κ hκ := by
    obtain rfl := Set.mem_singleton_iff.mp hκ
    exact ⟨le_rfl, pfn_lt addr ha⟩
  traced := by
    refine ⟨[.write pt (tableIdx addr 12) (entryFor addr flags)], rfl, rfl,
      .cons ?_ (.nil _), ?_, ?_, ?_⟩
    · have hnone : child (s.mem (pfn pt) (tableIdx addr 12)) = none := by
        rw [tableIdx_leaf]
        exact (Radix.slot_eq_none_of_node hpt).mp hvacant
      exact fun ℓ q e _ _ he => Radix.slot_store_of_vacant _ hnone he
    · intro ev hev f hf
      rw [List.mem_singleton] at hev
      subst hev
      obtain rfl := Option.some.inj hf
      exact hI.table_within le_rfl (Radix.div_lt_pow (pfn_lt addr ha)) hpt
    · exact (framesFrom_self _).symm
    · exact fun f h₁ h₂ => absurd (lt_of_le_of_lt h₁ h₂) (lt_irrefl _)
  cr3 := rfl

end Leaf

/-! ### Linking a fresh table -/

/-- The state after one level of `map_page` has taken a frame, cleared it and linked it into
entry `idx` of `table`. -/
def Vmm.linkFresh (s : Vmm) (table : Addr) (idx : Fin 512) (flags : BitVec 32) : Vmm :=
  (s.takeFrame.recordAll (zeroing s.placement)).record
    (.write table idx (entryFor s.placement flags))

theorem linkFresh_mem (haligned : s.placement.toNat = pageSize * s.next) (table : Addr)
    (idx : Fin 512) (flags : BitVec 32) :
    (s.linkFresh table idx flags).mem =
      Radix.store (Function.update s.mem s.next fun _ => 0#64) (pfn table) idx
        (entryFor s.placement flags) := by
  unfold Vmm.linkFresh Vmm.record Vmm.recordAll
  simp only [replay_zeroing haligned, Event.act, takeFrame_mem]
  rfl

theorem linkFresh_cr3 (s : Vmm) (table : Addr) (idx : Fin 512) (flags : BitVec 32) :
    (s.linkFresh table idx flags).cr3 = s.cr3 := by
  simp only [Vmm.linkFresh, Vmm.record, Vmm.recordAll, takeFrame_cr3]

section Link

variable (hI : Inv seg s) (hfree : 0 < s.segmentUsable.toNat)

include hI hfree

theorem Inv.next_lt : s.next < seg.base + seg.pages := by
  have := hI.count
  omega

theorem Inv.placement_lt : s.placement.toNat < 2 ^ 48 := by
  have h1 := hI.next_lt hfree
  have h2 := seg.fits
  have h3 := hI.aligned
  omega

theorem Inv.placement_takeFrame : s.takeFrame.placement.toNat = 4096 * (s.next + 1) := by
  have h1 := hI.placement_lt hfree
  have h2 := hI.aligned
  show (s.placement + BitVec.ofNat 64 4096).toNat = _
  rw [BitVec.toNat_add, BitVec.toNat_ofNat]
  omega

theorem Inv.next_linkFresh (table : Addr) (idx : Fin 512) (flags : BitVec 32) :
    (s.linkFresh table idx flags).next = s.next + 1 := by
  have h := hI.placement_takeFrame hfree
  show s.takeFrame.placement.toNat / 4096 = _
  omega

omit hI in
theorem segmentUsable_takeFrame :
    s.takeFrame.segmentUsable.toNat = s.segmentUsable.toNat - 1 := by
  have hone : (1 : BitVec 64).toNat = 1 := rfl
  have hlt := s.segmentUsable.isLt
  show (s.segmentUsable - 1).toNat = _
  rw [BitVec.toNat_sub, hone]
  omega

/-- The memory while the fresh frame is being cleared has the same entries. -/
theorem slotAt_off_next {m : PhysMem} (hm : ∀ u, u ≠ s.next → m u = s.mem u) {ℓ q : ℕ}
    (hℓ : ℓ ≤ 3) (hq : q < 512 ^ (ℓ + 1)) : slotAt m pml4 ℓ q = slotAt s.mem pml4 ℓ q :=
  Radix.slot_congr_off hm hq fun k hk _ hp => hI.node_ne_next hfree (by omega) hp

theorem nodeAt_off_next {m : PhysMem} (hm : ∀ u, u ≠ s.next → m u = s.mem u) {ℓ q : ℕ}
    (hℓ : ℓ ≤ 3) (hq : q < 512 ^ ℓ) : nodeAt m pml4 ℓ q = nodeAt s.mem pml4 ℓ q :=
  Radix.node_congr_off hm hq fun k hk _ hp => hI.node_ne_next hfree (by omega) hp

end Link

/-- Clearing the next free frame keeps every entry at every store. -/
theorem along_keeps_clear (hI : Inv seg s) (hfree : 0 < s.segmentUsable.toNat) (l : List ℕ)
    (hl : ∀ i ∈ l, i < pageSize) (m : PhysMem) (hm : ∀ u, u ≠ s.next → m u = s.mem u) :
    Along Event.act (fun m ev => Keeps pml4 m (ev.act m)) m
      (l.map fun i => .writeByte (s.placement + BitVec.ofNat 64 i) 0) := by
  -- The stores may come in any order: all that matters is that they stay in the frame.
  induction l generalizing m with
  | nil => exact .nil m
  | cons i l ih =>
    have hpfn : pfn (s.placement + BitVec.ofNat 64 i) = s.next :=
      pfn_add_offset hI.aligned (hl i (List.mem_cons_self ..))
    have hm' : ∀ u, u ≠ s.next →
        storeByte m (s.placement + BitVec.ofNat 64 i) 0 u = s.mem u := by
      intro u hu
      rw [storeByte_of_ne m (by rwa [hpfn]), hm u hu]
    refine .cons (fun ℓ q e hℓ hq he => ?_)
      (ih (fun j hj => hl j (List.mem_cons_of_mem _ hj)) _ hm')
    have hnew := slotAt_off_next hI hfree hm' hℓ hq
    rw [slotAt_off_next hI hfree hm hℓ hq] at he
    exact hnew.trans he

section Link

variable {table : Addr} {ℓ q : ℕ} (hI : Inv seg s) (hfree : 0 < s.segmentUsable.toNat)
  (hf : FlagsOk flags) (hp : flags.getLsbD 0 = true) (hℓ : ℓ < 3) (hq : q < 512 ^ (ℓ + 1))
  (ht : nodeAt s.mem pml4 ℓ (q / 512) = some (pfn table)) (hv : slotAt s.mem pml4 ℓ q = none)

/-- The memory just before the fresh table is linked. -/
def Vmm.cleared (s : Vmm) : PhysMem := Function.update s.mem s.next fun _ => 0#64

theorem cleared_off (s : Vmm) : ∀ u, u ≠ s.next → s.cleared u = s.mem u :=
  fun _ hu => Function.update_of_ne hu ..

theorem child_cleared (s : Vmm) (i : Fin 512) : child (s.cleared s.next i) = none := by
  rw [Vmm.cleared, Function.update_self, child_zero]

include hI hfree in
theorem distinct_cleared : Radix.Distinct child s.cleared (pfn pml4) 3 :=
  hI.distinct.congr_off (cleared_off s) fun _ hk _ hr => hI.node_ne_next hfree hk hr

include hI hfree hℓ hq ht in
theorem node_cleared : Radix.node child s.cleared (pfn pml4) ℓ (q / 512) = some (pfn table) :=
  (nodeAt_off_next hI hfree (cleared_off s) hℓ.le (Radix.div_lt_pow hq)).trans ht

include hI hfree hℓ hq ht hv in
theorem vacant_cleared : child (s.cleared (pfn table) (Fin.ofNat 512 q)) = none := by
  rw [← Radix.slot_eq_none_of_node (node_cleared hI hfree hℓ hq ht)]
  exact (slotAt_off_next hI hfree (cleared_off s) hℓ.le hq).trans hv

include hI hfree hf hp in
theorem child_fresh : child (entryFor s.placement flags) = some s.next :=
  child_entryFor hf _ hp (hI.placement_lt hfree)

include hI hfree hℓ hq ht in
theorem next_ne_table : s.next ≠ pfn table := by
  intro h
  refine hI.node_ne_next hfree hℓ.le (Radix.div_lt_pow hq) ?_
  rw [h]
  exact ht

include hI hfree hf hp hℓ hq ht hv

theorem slotAt_linkFresh {k r : ℕ} (hk : k ≤ 3) (hr : r < 512 ^ (k + 1)) :
    slotAt (s.linkFresh table (Fin.ofNat 512 q) flags).mem pml4 k r =
      if (k, r) = (ℓ, q) then some (entryFor s.placement flags) else slotAt s.mem pml4 k r := by
  rw [slotAt, linkFresh_mem hI.aligned, ← slotAt_off_next hI hfree (cleared_off s) hk hr]
  exact Radix.slot_store_link (distinct_cleared hI hfree) hℓ.le hq
    (node_cleared hI hfree hℓ hq ht) (vacant_cleared hI hfree hℓ hq ht hv)
    (child_fresh hI hfree hf hp) (next_ne_table hI hfree hℓ hq ht) (child_cleared s) hk hr

theorem nodeAt_linkFresh {k r : ℕ} (hk : k ≤ 3) (hr : r < 512 ^ k) :
    nodeAt (s.linkFresh table (Fin.ofNat 512 q) flags).mem pml4 k r =
      if k = ℓ + 1 ∧ r = q then some s.next else nodeAt s.mem pml4 k r := by
  rw [nodeAt, linkFresh_mem hI.aligned, ← nodeAt_off_next hI hfree (cleared_off s) hk hr]
  exact Radix.node_store_link (distinct_cleared hI hfree) hℓ.le hq
    (node_cleared hI hfree hℓ hq ht) (vacant_cleared hI hfree hℓ hq ht hv)
    (child_fresh hI hfree hf hp) (next_ne_table hI hfree hℓ hq ht) (child_cleared s) hk hr

theorem Inv.linkFresh : Inv seg (s.linkFresh table (Fin.ofNat 512 q) flags) := by
  have hnext := hI.next_linkFresh hfree table (Fin.ofNat 512 q) flags
  have hlow := hI.low
  refine ⟨?aligned, ?low, ?count, ?distinct, ?inside, ?covered, ?identity, ?clean⟩
  case aligned =>
    rw [hnext]
    exact hI.placement_takeFrame hfree
  case low => omega
  case count =>
    have husable : (s.linkFresh table (Fin.ofNat 512 q) flags).segmentUsable.toNat =
        s.segmentUsable.toNat - 1 := segmentUsable_takeFrame hfree
    have := hI.count
    omega
  case distinct =>
    rw [linkFresh_mem hI.aligned]
    refine (distinct_cleared hI hfree).store_link hℓ.le hq (node_cleared hI hfree hℓ hq ht)
      (vacant_cleared hI hfree hℓ hq ht hv) (child_fresh hI hfree hf hp) (child_cleared s) ?_
    intro k hk r hr hnode
    exact hI.node_ne_next hfree hk hr
      ((nodeAt_off_next hI hfree (cleared_off s) hk hr).symm.trans hnode)
  case inside =>
    intro k hk r hr t hnode
    rw [nodeAt_linkFresh hI hfree hf hp hℓ hq ht hv (by omega) hr] at hnode
    split_ifs at hnode with heq
    · obtain rfl := Option.some.inj hnode
      omega
    · have := hI.inside k hk r hr t hnode
      omega
  case covered =>
    intro t hlo hhi
    rcases Nat.lt_or_ge t s.next with hlt | hge
    · obtain ⟨k, hk, r, hr, hnode⟩ := hI.covered t hlo hlt
      refine ⟨k, hk, r, hr, ?_⟩
      rw [nodeAt_linkFresh hI hfree hf hp hℓ hq ht hv (by omega) hr, if_neg, hnode]
      -- The new slot was vacant, so no table hung below it.
      rintro ⟨hkℓ, rfl⟩
      obtain rfl : k = ℓ := by omega
      obtain ⟨e, he, _⟩ := nodeAt_succ_eq_some.mp hnode
      rw [hv] at he
      cases he
    -- The one frame past the old ones is the table just linked.
    · refine ⟨ℓ, hℓ, q, hq, ?_⟩
      rw [nodeAt_linkFresh hI hfree hf hp hℓ hq ht hv (by omega) hq, if_pos ⟨rfl, rfl⟩]
      exact congrArg some (by omega)
  case identity =>
    intro p hpr e he
    rw [slotAt_linkFresh hI hfree hf hp hℓ hq ht hv le_rfl hpr, if_neg] at he
    · exact hI.identity p hpr e he
    -- The new entry is above depth 3, so it maps no page.
    · intro heq
      have := (Prod.mk.inj heq).1
      omega
  case clean =>
    intro k hk r hr t hnode i
    rw [nodeAt_linkFresh hI hfree hf hp hℓ hq ht hv (by omega) hr] at hnode
    rw [linkFresh_mem hI.aligned]
    split_ifs at hnode with heq
    · obtain rfl := Option.some.inj hnode
      rw [Radix.store_table_ne (next_ne_table hI hfree hℓ hq ht), Function.update_self]
      exact Or.inr rfl
    · have hne : t ≠ s.next := fun h => hI.node_ne_next hfree (by omega) hr (h ▸ hnode)
      by_cases hnew : t = pfn table ∧ i = Fin.ofNat 512 q
      -- The entry just stored is present; every other entry is as it was.
      · obtain ⟨rfl, rfl⟩ := hnew
        rw [Radix.store_same]
        exact Or.inl (child_eq_some.mp (child_fresh hI hfree hf hp)).1
      · rw [Radix.store_of_ne _ hnew, Function.update_of_ne hne]
        exact hI.clean k hk r hr t hnode i

omit hf hp in
theorem traced_linkFresh : Traced seg s (s.linkFresh table (Fin.ofNat 512 q) flags)
    ([.alloc s.placement] ++ zeroing s.placement ++
      [.write table (Fin.ofNat 512 q) (entryFor s.placement flags)]) := by
  have hnext := hI.next_linkFresh hfree table (Fin.ofNat 512 q) flags
  have hlow := hI.low
  refine ⟨?_, ?_, ?_, ?_, ?_, ?_⟩
  · simp [Vmm.linkFresh, Vmm.record, Vmm.recordAll]
  · rw [linkFresh_mem hI.aligned, replay_append, replay_append, replay_zeroing hI.aligned]
    rfl
  -- No entry is lost at any point: the clearing stays in the free frame, the link fills a
  -- vacant entry.
  · rw [along_append, along_append, replay_append, replay_zeroing hI.aligned]
    refine ⟨⟨.cons (Keeps.refl _) (.nil _), ?_⟩, .cons ?_ (.nil _)⟩
    · exact along_keeps_clear hI hfree _ (fun _ hi => List.mem_range.mp hi) s.mem fun _ _ => rfl
    · exact fun k r e _ _ he =>
        Radix.slot_store_of_vacant _ (vacant_cleared hI hfree hℓ hq ht hv) he
  -- Every access is in the frame just taken or in the table it is linked into.
  · intro ev hev f hf
    rw [hnext]
    rcases List.mem_append.mp hev with hev | hev
    · rcases List.mem_append.mp hev with hev | hev
      · rw [List.mem_singleton] at hev
        subst hev
        cases hf
      · obtain ⟨i, hi, rfl⟩ := List.mem_map.mp hev
        obtain rfl := Option.some.inj hf
        rw [pfn_add_offset hI.aligned (List.mem_range.mp hi)]
        exact Or.inr ⟨hlow, Nat.lt_succ_self _⟩
    · rw [List.mem_singleton] at hev
      subst hev
      obtain rfl := Option.some.inj hf
      have := hI.table_within hℓ.le (Radix.div_lt_pow hq) ht
      omega
  · rw [allocated_append, allocated_append, allocated_zeroing, hnext, framesFrom,
      Nat.add_sub_cancel_left]
    have hplace : s.placement = frameAddr s.next := by
      rw [frameAddr, pageSize, ← hI.aligned, BitVec.ofNat_toNat, BitVec.setWidth_eq]
    simp [allocated, ← hplace]
  -- The first access to the frame is the first store of the clearing loop.
  · intro f hlo hhi
    obtain rfl : f = s.next := by omega
    have hpage : 0 < pageSize := by decide
    refine ⟨[.alloc s.placement], .writeByte (s.placement + BitVec.ofNat 64 0) 0,
      ((List.range' 1 (pageSize - 1)).map fun i =>
        .writeByte (s.placement + BitVec.ofNat 64 i) 0) ++
        [.write table (Fin.ofNat 512 q) (entryFor s.placement flags)], ?_,
      congrArg some (pfn_add_offset hI.aligned hpage), rfl⟩
    rw [zeroing, List.range_eq_range', ← Nat.sub_add_cancel hpage, List.range'_succ]
    simp

theorem step_link : Extends seg flags {(ℓ, q)} s (s.linkFresh table (Fin.ofNat 512 q) flags) where
  le := by
    rw [hI.next_linkFresh hfree]
    exact Nat.le_succ _
  keep k r e hk hr he := by
    rw [slotAt_linkFresh hI hfree hf hp hℓ hq ht hv hk hr, if_neg, he]
    intro heq
    obtain ⟨rfl, rfl⟩ := Prod.mk.inj heq
    rw [hv] at he
    cases he
  gain k r e hk hr hold hnew := by
    rw [slotAt_linkFresh hI hfree hf hp hℓ hq ht hv hk hr] at hnew
    split_ifs at hnew with heq
    · obtain rfl := Option.some.inj hnew
      exact ⟨heq, flagBits_entryFor hf _⟩
    · rw [hold] at hnew
      cases hnew
  full κ hκ := by
    obtain rfl := Set.mem_singleton_iff.mp hκ
    rw [slotAt_linkFresh hI hfree hf hp hℓ hq ht hv hℓ.le hq, if_pos rfl]
    rfl
  range κ hκ := by
    obtain rfl := Set.mem_singleton_iff.mp hκ
    exact ⟨hℓ.le, hq⟩
  traced := ⟨_, traced_linkFresh hI hfree hℓ hq ht hv⟩
  cr3 := linkFresh_cr3 s table _ flags

end Link

end KessOS
