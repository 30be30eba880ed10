import KessOS.Vmm.Equiv.MapPage

/-!
# Correctness of `unmap_page`

`unmap_page` follows the four levels of its address (`followed`) without looking at the present
bits of the upper entries.  Where the three upper entries are present (`UpperPresent`) it comes
to the tables of the walk, and the call clears the entry of its page and no other
(`unmapPage_clears`).
-/

namespace KessOS

open EStateM

variable {pml4 : Addr} {seg : Segment pml4} {s s' : Vmm} {a : Addr}

/-- The four reads of a call on `a`. -/
def unmapReads (m : PhysMem) (pml4 a : Addr) : List Event :=
  (List.range 4).map fun ℓ => .read (followed m pml4 a ℓ) (tableIdx a (39 - 9 * ℓ))

/-- The store of a call on `a` and the flush after it. -/
def unmapWrites (m : PhysMem) (pml4 a : Addr) : List Event :=
  [.write (followed m pml4 a 3) (tableIdx a 12) ((a &&& pageAddrMask) &&& ~~~pageBitPPresent),
    .invlpg a]

theorem recordAll_unmapReads (s : Vmm) (es : List Event) :
    s.recordAll (unmapReads s.mem pml4 a ++ es) =
      ((((s.record (.read pml4 (tableIdx a 39))).record
        (.read (followed s.mem pml4 a 1) (tableIdx a 30))).record
        (.read (followed s.mem pml4 a 2) (tableIdx a 21))).record
        (.read (followed s.mem pml4 a 3) (tableIdx a 12))).recordAll es := by
  rw [record_recordAll, record_recordAll, record_recordAll, record_recordAll]
  rfl

theorem unmapPage_run (a : Addr) (s : Vmm) :
    (unmapPage pml4 a).run s =
      if a % 0x1000 ≠ 0 then .ok 0 s
      else if present (foundEntry s.mem pml4 a 3) then
        .ok 1 (s.recordAll (unmapReads s.mem pml4 a ++ unmapWrites s.mem pml4 a))
      else .ok 1 (s.recordAll (unmapReads s.mem pml4 a ++ [])) := by
  unfold unmapPage
  by_cases ha : a % 0x1000 ≠ 0
  · rw [if_pos ha, if_pos ha]
    rfl
  · rw [if_neg ha, if_neg ha, run_bind_of_ok (loadEntry_run _ _ _),
      run_bind_of_ok (loadEntry_run _ _ _), run_bind_of_ok (loadEntry_run _ _ _),
      run_bind_of_ok (loadEntry_run _ _ _), recordAll_unmapReads, recordAll_unmapReads,
      recordAll_nil]
    split_ifs with hfound hfound' hfound'
    · rw [run_bind_of_ok (storeEntry_run _ _ _ _)]
      rw [unmapWrites, ← record_recordAll, ← record_recordAll, recordAll_nil]
      rfl
    · exact absurd hfound hfound'
    · exact absurd hfound' hfound
    · rfl

/-- The events of a call are behind those before. -/
theorem unmapPage_trace {s s' : Vmm} {r : BitVec 8} (h : (unmapPage pml4 a).run s = .ok r s') :
    ∃ es, s'.trace = s.trace ++ es := by
  rw [unmapPage_run] at h
  split_ifs at h
  · obtain ⟨-, rfl⟩ := (Result.ok.injEq ..).mp h
    exact ⟨[], (List.append_nil _).symm⟩
  · obtain ⟨-, rfl⟩ := (Result.ok.injEq ..).mp h
    exact ⟨_, recordAll_trace ..⟩
  · obtain ⟨-, rfl⟩ := (Result.ok.injEq ..).mp h
    exact ⟨_, recordAll_trace ..⟩

/-! ### Where the upper entries are present -/

/-- As long as the entries are present, the followed addresses are the tables of the walk. -/
theorem nodeAt_followed {m : PhysMem} {ℓ : ℕ} (hℓ : ℓ ≤ 3)
    (h : ∀ k < ℓ, present (foundEntry m pml4 a k) = true) :
    nodeAt m pml4 ℓ (levelIdx (pfn a) ℓ / 512) = some (pfn (followed m pml4 a ℓ)) := by
  induction ℓ with
  | zero => rfl
  | succ ℓ ih =>
    have ht := ih (by omega) fun k hk => h k (by omega)
    have he : slotAt m pml4 ℓ (levelIdx (pfn a) ℓ) = some (foundEntry m pml4 a ℓ) := by
      refine slotAt_eq_some.mpr ⟨_, ht, ?_, h ℓ (Nat.lt_succ_self ℓ)⟩
      rw [foundEntry, tableIdx_eq a (by omega)]
    exact nodeAt_target (by omega) he

theorem slotAt_followed {m : PhysMem} {ℓ : ℕ} (hℓ : ℓ ≤ 3)
    (h : ∀ k < ℓ, present (foundEntry m pml4 a k) = true) :
    slotAt m pml4 ℓ (levelIdx (pfn a) ℓ) =
      if present (foundEntry m pml4 a ℓ) then some (foundEntry m pml4 a ℓ) else none := by
  rw [← presentEntry_eq_slotAt (nodeAt_followed hℓ h), ← tableIdx_eq a hℓ]
  rfl

/-- The walk of `a` is stopped by the first of the found entries that is not present. -/
theorem walk_isSome_iff_found {m : PhysMem} :
    (walk m pml4 a).isSome ↔ ∀ ℓ ≤ 3, present (foundEntry m pml4 a ℓ) = true := by
  constructor
  · intro h ℓ
    -- The entry found at depth `ℓ` is the walk's once those above it are known to be present.
    induction ℓ using Nat.strong_induction_on with
    | _ ℓ ih =>
      intro hℓ
      have hslot := slotAt_isSome_of_leaf (walk_isSome_iff.mp h) hℓ
      rw [slotAt_followed hℓ fun k hk => ih k hk (by omega)] at hslot
      by_contra hne
      rw [if_neg hne] at hslot
      cases hslot
  · intro h
    have hslot := slotAt_followed le_rfl fun k hk => h k (by omega)
    rw [if_pos (h 3 le_rfl), levelIdx_three] at hslot
    rw [walk_isSome_iff, hslot]
    rfl

/-- The page of `a` within the 2^48 bytes that the tables cover. -/
def pageOf (a : Addr) : ℕ := pfn a % 512 ^ 4

theorem pageOf_lt (a : Addr) : pageOf a < 512 ^ 4 := Nat.mod_lt _ (by decide)

theorem pageOf_of_lt (ha : a.toNat < 2 ^ 48) : pageOf a = pfn a := Nat.mod_eq_of_lt (pfn_lt a ha)

theorem nodeAt_pageOf (m : PhysMem) (a : Addr) :
    nodeAt m pml4 3 (pageOf a / 512) = nodeAt m pml4 3 (pfn a / 512) := by
  have hdiv : pageOf a / 512 = pfn a / 512 % 512 ^ 3 := by
    unfold pageOf
    omega
  rw [hdiv]
  exact Radix.node_mod ..

theorem tableIdx_pageOf (a : Addr) : tableIdx a 12 = Fin.ofNat 512 (pageOf a) := by
  rw [tableIdx_leaf]
  apply Fin.ext
  show pfn a % 512 = pfn a % 512 ^ 4 % 512
  omega

theorem child_cleared_entry (a : Addr) :
    child ((a &&& pageAddrMask) &&& ~~~pageBitPPresent) = none := by
  have hone : (~~~pageBitPPresent).getLsbD 0 = false := by decide
  rw [child, present_eq, BitVec.getLsbD_and, hone, Bool.and_false]
  rfl

/-- What a call of `unmap_page` on `a` does to the tables. -/
structure Clears (pml4 a : Addr) (s s' : Vmm) : Prop where
  slots : ∀ ℓ q, ℓ ≤ 3 → q < 512 ^ (ℓ + 1) →
    slotAt s'.mem pml4 ℓ q = if (ℓ, q) = (3, pageOf a) then none else slotAt s.mem pml4 ℓ q
  upper : ∀ ℓ < 3, ∀ q < 512 ^ ℓ, ∀ t, nodeAt s.mem pml4 ℓ q = some t → s'.mem t = s.mem t
  placement : s'.placement = s.placement
  segmentUsable : s'.segmentUsable = s.segmentUsable
  cr3 : s'.cr3 = s.cr3

/-- **`unmap_page` is correct** where the upper entries are present: it clears the entry of its
page and no other. -/
theorem unmapPage_clears (hD : Radix.Distinct child s.mem (pfn pml4) 3)
    (hupper : UpperPresent s.mem pml4 a) (h : (unmapPage pml4 a).run s = .ok 1 s') :
    Clears pml4 a s s' := by
  have hnode := nodeAt_followed (ℓ := 3) le_rfl hupper
  rw [levelIdx_three, ← nodeAt_pageOf] at hnode
  rw [unmapPage_run] at h
  split_ifs at h with ha hfound
  -- The address is not page-aligned: the call returns 0.
  · cases h
  -- The entry is present: it is overwritten.
  · obtain ⟨-, rfl⟩ := (Result.ok.injEq ..).mp h
    have hmem : (s.recordAll (unmapReads s.mem pml4 a ++ unmapWrites s.mem pml4 a)).mem =
        Radix.store s.mem (pfn (followed s.mem pml4 a 3)) (Fin.ofNat 512 (pageOf a))
          ((a &&& pageAddrMask) &&& ~~~pageBitPPresent) := by
      rw [← tableIdx_pageOf]
      rfl
    refine ⟨fun ℓ q hℓ hq => ?_, fun ℓ hℓ q hq t ht => ?_, rfl, rfl, rfl⟩
    · rw [slotAt, hmem]
      split_ifs with heq
      · obtain ⟨rfl, rfl⟩ := Prod.mk.inj heq
        rw [Radix.slot_store_self hD le_rfl (pageOf_lt a) hnode, child_cleared_entry]
        rfl
      · exact Radix.slot_store_ne hD le_rfl (pageOf_lt a) hnode hℓ hq heq
    · rw [hmem, Radix.store_table_ne]
      rintro rfl
      have := (hD _ _ _ _ _ (by omega) le_rfl hq (Radix.div_lt_pow (pageOf_lt a)) ht hnode).1
      omega
  -- It is not: nothing is stored, and the slot was empty already.
  · obtain ⟨-, rfl⟩ := (Result.ok.injEq ..).mp h
    refine ⟨fun ℓ q hℓ hq => ?_, fun _ _ _ _ _ _ => rfl, rfl, rfl, rfl⟩
    have hmem : (s.recordAll (unmapReads s.mem pml4 a ++ [])).mem = s.mem := rfl
    rw [hmem]
    split_ifs with heq
    · obtain ⟨rfl, rfl⟩ := Prod.mk.inj heq
      rw [slotAt, Radix.slot_eq_none_of_node hnode, ← tableIdx_pageOf, child, if_neg]
      exact hfound
    · rfl

/-- Clearing entries of page tables keeps the invariant. -/
theorem Clears.inv (h : Clears pml4 a s s') (hI : Inv seg s) : Inv seg s' := by
  have hnext : s'.next = s.next := by rw [Vmm.next, h.placement, Vmm.next]
  -- A node hangs on a slot above depth 3, and none of those has changed.
  have hnode : ∀ ℓ ≤ 3, ∀ q < 512 ^ ℓ, nodeAt s'.mem pml4 ℓ q = nodeAt s.mem pml4 ℓ q := by
    intro ℓ hℓ q hq
    cases ℓ with
    | zero => rfl
    | succ ℓ =>
      have hslot := h.slots ℓ q (by omega) hq
      rw [if_neg fun heq => by have := (Prod.mk.inj heq).1; omega] at hslot
      rw [nodeAt, nodeAt, Radix.node_succ, Radix.node_succ]
      rw [slotAt, slotAt] at hslot
      rw [hslot]
  refine ⟨?aligned, ?low, ?count, ?distinct, ?inside, ?covered, ?identity, ?clean⟩
  case aligned =>
    rw [h.placement, hnext]
    exact hI.aligned
  case low =>
    rw [hnext]
    exact hI.low
  case count =>
    rw [h.segmentUsable, hnext]
    exact hI.count
  case distinct => exact hI.distinct.congr hnode
  case inside =>
    intro ℓ hℓ q hq t ht
    rw [hnode (ℓ + 1) (by omega) q hq] at ht
    rw [hnext]
    exact hI.inside ℓ hℓ q hq t ht
  case covered =>
    intro t hlo hhi
    rw [hnext] at hhi
    obtain ⟨ℓ, hℓ, q, hq, ht⟩ := hI.covered t hlo hhi
    exact ⟨ℓ, hℓ, q, hq, (hnode (ℓ + 1) (by omega) q hq).trans ht⟩
  case identity =>
    intro p hp e he
    rw [h.slots 3 p le_rfl hp] at he
    split_ifs at he
    exact hI.identity p hp e he
  case clean =>
    intro ℓ hℓ q hq t ht i
    rw [hnode ℓ (by omega) q hq] at ht
    rw [h.upper ℓ hℓ q hq t ht]
    exact hI.clean ℓ hℓ q hq t ht i

end KessOS
