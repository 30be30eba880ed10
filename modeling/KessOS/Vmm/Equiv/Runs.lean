import KessOS.Paging.Tables
import KessOS.Vmm.Equiv.Demand
import KessOS.Vmm.Equiv.UnmapPage
import Mathlib.Logic.Relation

/-!
# Runs of the memory manager

`Fresh seg s` is the state from which everything starts: `pml4` is clear and the whole segment
is free.  `Vmm.Step` is one call that returns, of `map_page` or of `unmap_page` on a page whose
upper entries are present, and `Inv` holds in every state such calls lead to (`Fresh.reach`).
`mapPage_spec` says what a call of `map_page` does in any of them.
-/

namespace KessOS

open EStateM

variable {pml4 : Addr} {seg : Segment pml4} {flags : BitVec 32} {s s' : Vmm} {a : Addr}

/-! ### The start -/

/-- A clear `pml4` has no entry at any level. -/
theorem slotAt_of_zeroed {m : PhysMem} (hzero : ∀ idx, m (pfn pml4) idx = 0#64) :
    ∀ ℓ q, slotAt m pml4 ℓ q = none := by
  intro ℓ
  induction ℓ with
  | zero =>
    intro q
    rw [slotAt, Radix.slot_eq_none_of_node (t := pfn pml4) rfl, hzero, child_zero]
  | succ ℓ ih =>
    intro q
    have hparent := ih (q / 512)
    cases hs : slotAt m pml4 (ℓ + 1) q with
    | none => rfl
    | some e =>
      have := Radix.slot_isSome_parent (Option.isSome_of_eq_some hs)
      rw [slotAt] at hparent
      rw [hparent] at this
      cases this

theorem nodeAt_succ_of_zeroed {m : PhysMem} (hzero : ∀ idx, m (pfn pml4) idx = 0#64) (ℓ q : ℕ) :
    nodeAt m pml4 (ℓ + 1) q = none := by
  have hslot := slotAt_of_zeroed hzero ℓ q
  rw [slotAt] at hslot
  rw [nodeAt, Radix.node_succ, hslot, Option.bind_none]

/-- Below a clear `pml4` there is no other table. -/
theorem TableAt.eq_root {m : PhysMem} (hzero : ∀ idx, m (pfn pml4) idx = 0#64) {ℓ t : ℕ}
    (h : TableAt m pml4 ℓ t) : t = pfn pml4 := by
  obtain ⟨q, -, ht⟩ := (tableAt_iff h.le).mp h
  cases ℓ with
  | zero => exact (Option.some.inj ht).symm
  | succ ℓ =>
    rw [nodeAt_succ_of_zeroed hzero] at ht
    cases ht

/-- The tables are empty and the whole segment is free. -/
structure Fresh (seg : Segment pml4) (s : Vmm) : Prop where
  zeroed : ∀ idx, s.mem (pfn pml4) idx = 0#64
  placement : s.placement.toNat = pageSize * seg.base
  segmentUsable : s.segmentUsable.toNat = seg.pages

namespace Fresh

theorem next_eq (h : Fresh seg s) : s.next = seg.base := by
  rw [Vmm.next, pfn, h.placement]
  exact Nat.mul_div_cancel_left _ (by decide)

theorem inv (h : Fresh seg s) : Inv seg s where
  aligned := by
    rw [h.next_eq]
    exact h.placement
  low := h.next_eq.ge
  count := by rw [h.next_eq, h.segmentUsable]
  distinct := by
    intro ℓ ℓ' q q' t hℓ hℓ' hq hq' ht ht'
    cases ℓ with
    | succ ℓ =>
      rw [← nodeAt, nodeAt_succ_of_zeroed h.zeroed] at ht
      cases ht
    -- Only the root is left, and depth 0 has one index.
    | zero =>
      cases ℓ' with
      | succ ℓ' =>
        rw [← nodeAt, nodeAt_succ_of_zeroed h.zeroed] at ht'
        cases ht'
      | zero => exact ⟨rfl, by omega⟩
  inside ℓ _ q _ t ht := by
    rw [nodeAt_succ_of_zeroed h.zeroed] at ht
    cases ht
  covered t hlo hhi := by
    rw [h.next_eq] at hhi
    omega
  identity p _ e he := by
    rw [slotAt_of_zeroed h.zeroed] at he
    cases he
  clean ℓ _ q _ t ht i := by
    cases ℓ with
    | zero =>
      obtain rfl := Option.some.inj ht
      exact Or.inr (h.zeroed i)
    | succ ℓ =>
      rw [nodeAt_succ_of_zeroed h.zeroed] at ht
      cases ht

end Fresh

/-- A segment of 16 pages at 4 MiB, and the state in which all of it is free. -/
def smallSegment : Segment 0x200000#64 where
  base := 0x400
  pages := 16
  fits := by norm_num
  apart := by decide

def smallState : Vmm :=
  { bootState fun _ _ => 0#64 with placement := 0x400000#64, segmentUsable := 16#64 }

theorem fresh_smallState : Fresh smallSegment smallState where
  zeroed _ := rfl
  placement := rfl
  segmentUsable := rfl

/-! ### Reachable states -/

/-- One call that returns: of `map_page`, or of `unmap_page` on a page whose PML4, PDPT and PD
entries are present. -/
inductive Vmm.Step (pml4 : Addr) : Vmm → Vmm → Prop
  | map {s s' : Vmm} {addr : Addr} {flags : BitVec 32} (haddr : addr.toNat < 2 ^ 48)
    (hflags : FlagsOk flags) (h : (mapPage pml4 addr flags).run s = .ok () s') : Step pml4 s s'
  | unmap {s s' : Vmm} {addr : Addr} {r : BitVec 8} (hupper : UpperPresent s.mem pml4 addr)
    (h : (unmapPage pml4 addr).run s = .ok r s') : Step pml4 s s'

/-- A call of `unmap_page` either does nothing or clears its page. -/
theorem unmapPage_cases {r : BitVec 8} (h : (unmapPage pml4 a).run s = .ok r s') :
    (r = 0 ∧ s' = s ∧ a % 0x1000 ≠ 0) ∨ (r = 1 ∧ a % 0x1000 = 0) := by
  rw [unmapPage_run] at h
  split_ifs at h with ha
  · obtain ⟨rfl, rfl⟩ := (Result.ok.injEq ..).mp h
    exact Or.inl ⟨rfl, rfl, ha⟩
  · exact Or.inr ⟨((Result.ok.injEq ..).mp h).1.symm, not_not.mp ha⟩
  · exact Or.inr ⟨((Result.ok.injEq ..).mp h).1.symm, not_not.mp ha⟩

theorem Vmm.Step.inv (h : Vmm.Step pml4 s s') (hI : Inv seg s) : Inv seg s' := by
  cases h with
  | map haddr hflags h => exact (mapPage_ok hI haddr hflags h).1
  | unmap hupper h =>
    rcases unmapPage_cases h with ⟨_, rfl, _⟩ | ⟨rfl, _⟩
    · exact hI
    · exact (unmapPage_clears hI.distinct hupper h).inv hI

/-- The invariant holds in every state that calls lead to. -/
theorem Fresh.reach (hs : Fresh seg s) (h : Relation.ReflTransGen (Vmm.Step pml4) s s') :
    Inv seg s' := by
  induction h with
  | refl => exact hs.inv
  | tail _ hstep ih => exact hstep.inv ih

/-! ### What a call does to the walks -/

/-- A present page walks to itself. -/
theorem Inv.walk_page (hI : Inv seg s) (ha : a.toNat < 2 ^ 48)
    (hpres : (slotAt s.mem pml4 3 (pfn a)).isSome) :
    ∃ t, walk s.mem pml4 a = some t ∧ t.page = pageStart a := by
  obtain ⟨t, ht⟩ := Option.isSome_iff_exists.mp (walk_isSome_iff.mpr hpres)
  have hpage := hI.identity _ (pfn_lt a ha) _ (slotAt_of_walk ht)
  refine ⟨t, ht, ?_⟩
  rw [← BitVec.toNat_inj, Translation.page, toNat_target, toNat_pageStart, hpage]

theorem Inv.walk_frame (hI : Inv seg s) {f : ℕ} (hf : f < 2 ^ 36)
    (hpres : (slotAt s.mem pml4 3 f).isSome) :
    ∃ t, walk s.mem pml4 (frameAddr f) = some t ∧ t.page = frameAddr f := by
  rw [← pfn_frameAddr hf] at hpres
  obtain ⟨t, ht, hpage⟩ := hI.walk_page (frameAddr_lt hf) hpres
  exact ⟨t, ht, hpage.trans (pageStart_frameAddr hf)⟩

theorem Keeps.walk {m m' : PhysMem} (h : Keeps pml4 m m') (ha : a.toNat < 2 ^ 48)
    {t : Translation} (ht : walk m pml4 a = some t) : walk m' pml4 a = some t := by
  rw [walk_eq_some_iff] at ht ⊢
  exact fun ℓ hℓ => h ℓ _ _ hℓ (levelIdx_lt (pfn_lt a ha) hℓ) (ht ℓ hℓ)

namespace Maps

variable {addr : Addr} (h : Maps seg flags addr s s')

include h

/-- The page of the call walks to itself. -/
theorem walk_addr (haddr : addr.toNat < 2 ^ 48) :
    ∃ t, walk s'.mem pml4 addr = some t ∧ t.page = pageStart addr := by
  refine h.1.walk_page haddr (h.2.full (3, pfn addr) (Or.inl ⟨le_rfl, ?_⟩))
  exact (levelIdx_three _).symm

theorem slotAt_frame {f : ℕ} (hlo : s.next ≤ f) (hhi : f < s'.next) :
    (slotAt s'.mem pml4 3 f).isSome :=
  h.2.full (3, f) (Or.inr ⟨f, hlo, hhi, le_rfl, (levelIdx_three f).symm⟩)

theorem frame_lt {f : ℕ} (hhi : f < s'.next) : f < 2 ^ 36 := by
  have := h.1.next_le
  have := seg.fits
  omega

/-- Every frame the call takes walks to itself. -/
theorem walk_frame {f : Addr} (hf : f ∈ framesFrom s.next s'.next) :
    ∃ t, walk s'.mem pml4 f = some t ∧ t.page = f := by
  obtain ⟨k, hlo, hhi, rfl⟩ := mem_framesFrom.mp hf
  exact h.1.walk_frame (h.frame_lt hhi) (h.slotAt_frame hlo hhi)

/-- Any other page that was not present still is not. -/
theorem walk_other {b : Addr} (hb : b.toNat < 2 ^ 48) (hnone : walk s.mem pml4 b = none)
    (hne : pfn b ≠ pfn addr) (hframe : ∀ f ∈ framesFrom s.next s'.next, pfn b ≠ pfn f) :
    walk s'.mem pml4 b = none := by
  rw [walk_eq_none_iff] at hnone ⊢
  rw [h.2.slotAt_eq le_rfl (pfn_lt b hb), hnone]
  rintro (hpath | hself)
  · exact hne (hpath.2.trans (levelIdx_three _))
  · obtain ⟨hlo, hhi⟩ := page_mem_selfKeys hself
    refine hframe _ (mem_framesFrom.mpr ⟨_, hlo, hhi, rfl⟩) ?_
    rw [pfn_frameAddr (h.frame_lt hhi)]

end Maps

/-- What a call of `map_page` on `addr` with the events `es` does to the walks. -/
structure MapSpec (pml4 addr : Addr) (es : List Event) (m m' : PhysMem) : Prop where
  page : ∃ t, walk m' pml4 addr = some t ∧ t.page = pageStart addr
  frames : ∀ f ∈ allocated es, ∃ t, walk m' pml4 f = some t ∧ t.page = f
  kept : ∀ b t, b.toNat < 2 ^ 48 → walk m pml4 b = some t → walk m' pml4 b = some t
  others : ∀ b, b.toNat < 2 ^ 48 → walk m pml4 b = none → pfn b ≠ pfn addr →
    (∀ f ∈ allocated es, pfn b ≠ pfn f) → walk m' pml4 b = none

/-- **`map_page` is correct and changes nothing else**, in every state that calls lead to: unless
it runs out of memory, the page of `addr` walks to itself and so does every frame that was
handed out, a page that was present is translated as before, and no other page is present. -/
theorem mapPage_spec {s₀ : Vmm} (hs₀ : Fresh seg s₀)
    (hreach : Relation.ReflTransGen (Vmm.Step pml4) s₀ s) {addr : Addr}
    (haddr : addr.toNat < 2 ^ 48) (hflags : FlagsOk flags) :
    (∃ s', (mapPage pml4 addr flags).run s = .error .outOfMemory s') ∨
      ∃ s' es, (mapPage pml4 addr flags).run s = .ok () s' ∧ s'.trace = s.trace ++ es ∧
        MapSpec pml4 addr es s.mem s'.mem := by
  have hI := hs₀.reach hreach
  cases hrun : (mapPage pml4 addr flags).run s with
  | error e s' =>
    obtain ⟨rfl, _⟩ := mapPage_error hI haddr hflags hrun
    exact Or.inl ⟨s', rfl⟩
  | ok u s' =>
    have hmaps := mapPage_ok hI haddr hflags hrun
    obtain ⟨es, htraced⟩ := hmaps.2.traced
    have hallocs := htraced.allocs
    refine Or.inr ⟨s', es, rfl, htraced.trace, hmaps.walk_addr haddr, fun f hf => ?_,
      fun b t hb ht => hmaps.2.keep.walk hb ht, fun b hb hnone hne hframe => ?_⟩
    · rw [hallocs] at hf
      exact hmaps.walk_frame hf
    · rw [hallocs] at hframe
      exact hmaps.walk_other hb hnone hne hframe

/-! ### Calls in the small segment -/

/-- In the small segment a page lacks six tables at most: its own, and those of the frames. -/
theorem missing_small_le (hlow : 0x400 ≤ s.next) (hhigh : s.next + 6 ≤ 0x410) (p : ℕ) :
    missing pml4 s p 6 ≤ 6 := by
  have hframes : ∀ i < 6, tableKeys (s.next + i) = tableKeys 0x400 := by
    intro i hi
    refine Finset.image_congr fun ℓ hℓ => Prod.ext rfl ?_
    have hlt : ℓ < 3 := Finset.mem_range.mp hℓ
    interval_cases ℓ <;> simp only [levelIdx] <;> omega
  have hneeded : neededTables p s.next 6 ⊆ tableKeys p ∪ tableKeys 0x400 := by
    refine Finset.union_subset_union_right (Finset.biUnion_subset.mpr fun i hi => ?_)
    rw [hframes i (Finset.mem_range.mp hi)]
  calc missing pml4 s p 6
      ≤ (neededTables p s.next 6).card := Finset.card_filter_le ..
    _ ≤ (tableKeys p ∪ tableKeys 0x400).card := Finset.card_le_card hneeded
    _ ≤ (tableKeys p).card + (tableKeys 0x400).card := Finset.card_union_le ..
    _ ≤ 3 + 3 := Nat.add_le_add Finset.card_image_le Finset.card_image_le

/-- So a call returns as long as six of its frames are left. -/
theorem small_mapPage_returns {addr : Addr} (hI : Inv smallSegment s) (hnext : s.next + 6 ≤ 0x410)
    (ha : addr.toNat < 2 ^ 48) (hf : FlagsOk flags) :
    ∃ s', (mapPage 0x200000#64 addr flags).run s = .ok () s' ∧ s'.next ≤ s.next + 6 :=
  mapPage_returns hI ha hf (missing_small_le hI.low hnext _) hnext

/-- Page 1 is mapped and unmapped. -/
theorem small_map_unmap :
    ∃ s₁ s₂, (mapPage 0x200000#64 0x1000#64 pageBitRwWritableFlag).run smallState = .ok () s₁ ∧
      UpperPresent s₁.mem 0x200000#64 0x1000#64 ∧
      (unmapPage 0x200000#64 0x1000#64).run s₁ = .ok 1 s₂ ∧ s₂.next ≤ 0x406 := by
  have haddr : (0x1000#64).toNat < 2 ^ 48 := by decide
  have hflags : FlagsOk pageBitRwWritableFlag := by decide
  have hI := fresh_smallState.inv
  have hfirst : smallState.next = 0x400 := fresh_smallState.next_eq
  obtain ⟨s₁, hmap, hnext⟩ := small_mapPage_returns hI (by omega) haddr hflags
  obtain ⟨t, ht, -⟩ := (mapPage_ok hI haddr hflags hmap).walk_addr haddr
  have hfound := walk_isSome_iff_found.mp (Option.isSome_of_eq_some ht)
  have hunmap : (unmapPage 0x200000#64 0x1000#64).run s₁ = .ok 1 (s₁.recordAll
      (unmapReads s₁.mem 0x200000#64 0x1000#64 ++ unmapWrites s₁.mem 0x200000#64 0x1000#64)) := by
    rw [unmapPage_run, if_neg (by decide), if_pos (hfound 3 le_rfl)]
  refine ⟨s₁, _, hmap, fun ℓ hℓ => hfound ℓ hℓ.le, hunmap, ?_⟩
  rw [hfirst] at hnext
  exact hnext

/-- A page under another PDPT entry is mapped after that. -/
theorem mapPage_spec_small : ∃ s₁ s s' es,
    (mapPage 0x200000#64 0x1000#64 pageBitRwWritableFlag).run smallState = .ok () s₁ ∧
      (unmapPage 0x200000#64 0x1000#64).run s₁ = .ok 1 s ∧
      (mapPage 0x200000#64 0x7FFFF123#64 pageBitUsUserFlag).run s = .ok () s' ∧
      s'.trace = s.trace ++ es ∧ MapSpec 0x200000#64 0x7FFFF123#64 es s.mem s'.mem := by
  have haddr : (0x7FFFF123#64).toNat < 2 ^ 48 := by decide
  have hflags : FlagsOk pageBitUsUserFlag := by decide
  obtain ⟨s₁, s, hmap, hupper, hunmap, hnext⟩ := small_map_unmap
  have hreach : Relation.ReflTransGen (Vmm.Step 0x200000#64) smallState s :=
    .tail (.single (.map (by decide) (by decide) hmap)) (.unmap hupper hunmap)
  obtain ⟨s', hrun, -⟩ :=
    small_mapPage_returns (fresh_smallState.reach hreach) (by omega) haddr hflags
  rcases mapPage_spec fresh_smallState hreach haddr hflags with
    ⟨s'', hstop⟩ | ⟨s'', es, hok, htrace, hspec⟩
  · rw [hrun] at hstop
    cases hstop
  · exact ⟨s₁, s, s'', es, hmap, hunmap, hok, htrace, hspec⟩

/-! ### Runs of `map_page` -/

/-- The invariant between two calls of `map_page`: every frame taken so far is mapped. -/
structure Settled {pml4 : Addr} (seg : Segment pml4) (s : Vmm) : Prop extends Inv seg s where
  mapped : ∀ f, seg.base ≤ f → f < s.next → (slotAt s.mem pml4 3 f).isSome

theorem Fresh.settled (h : Fresh seg s) : Settled seg s where
  toInv := h.inv
  mapped f hlo hhi := by
    rw [h.next_eq] at hhi
    omega

theorem Settled.step {addr : Addr} (h : Settled seg s) (haddr : addr.toNat < 2 ^ 48)
    (hflags : FlagsOk flags) (hrun : (mapPage pml4 addr flags).run s = .ok () s') :
    Settled seg s' := by
  have hmaps := mapPage_ok h.toInv haddr hflags hrun
  refine ⟨hmaps.1, fun f hlo hhi => ?_⟩
  -- Frames of earlier calls keep their entries; the call maps those that it takes itself.
  rcases Nat.lt_or_ge f s.next with hlt | hge
  · obtain ⟨e, he⟩ := Option.isSome_iff_exists.mp (h.mapped f hlo hlt)
    rw [hmaps.2.keep 3 f e le_rfl (by have := hmaps.frame_lt hhi; omega) he]
    rfl
  · exact hmaps.slotAt_frame hge hhi

/-- A run of calls of `map_page`. -/
def mapPages (pml4 : Addr) (calls : List (Addr × BitVec 32)) : VmmM Unit :=
  calls.forM fun call => mapPage pml4 call.1 call.2

/-- The calls have addresses below 2^48 and flags drawn from `P`, `RW`, `US`, `A` and `D`. -/
def CallsOk (calls : List (Addr × BitVec 32)) : Prop :=
  ∀ call ∈ calls, call.1.toNat < 2 ^ 48 ∧ FlagsOk call.2

instance (calls : List (Addr × BitVec 32)) : Decidable (CallsOk calls) :=
  inferInstanceAs (Decidable (∀ call ∈ calls, _))

theorem mapPages_cons (call : Addr × BitVec 32) (calls : List (Addr × BitVec 32)) :
    mapPages pml4 (call :: calls) =
      mapPage pml4 call.1 call.2 >>= fun _ => mapPages pml4 calls := rfl

section Calls

variable {calls : List (Addr × BitVec 32)} {P : Vmm → Prop} (hcalls : CallsOk calls)
  (hstep : ∀ call ∈ calls, ∀ s s', Settled seg s → P s →
    (mapPage pml4 call.1 call.2).run s = .ok () s' → P s')
  (h : Settled seg s) (hP : P s)

include hcalls hstep h hP

/-- What every call preserves holds after a run. -/
theorem mapPages_ok (hrun : (mapPages pml4 calls).run s = .ok () s') : Settled seg s' ∧ P s' := by
  induction calls generalizing s with
  | nil =>
    obtain ⟨-, rfl⟩ := (Result.ok.injEq ..).mp hrun
    exact ⟨h, hP⟩
  | cons call calls ih =>
    rw [mapPages_cons] at hrun
    obtain ⟨u, s₁, h₁, hrest⟩ := run_bind_eq_ok.mp hrun
    obtain ⟨haddr, hflags⟩ := hcalls call (List.mem_cons_self ..)
    exact ih (fun c hc => hcalls c (List.mem_cons_of_mem _ hc))
      (fun c hc => hstep c (List.mem_cons_of_mem _ hc)) (h.step haddr hflags h₁)
      (hstep call (List.mem_cons_self ..) s s₁ h hP h₁) hrest

/-- A run that stops does so in one of its calls, which finds everything in order. -/
theorem mapPages_error {e : Stop} (hrun : (mapPages pml4 calls).run s = .error e s') :
    ∃ call ∈ calls, ∃ s₁, Settled seg s₁ ∧ P s₁ ∧
      (mapPage pml4 call.1 call.2).run s₁ = .error e s' := by
  induction calls generalizing s with
  | nil => cases hrun
  | cons call calls ih =>
    rw [mapPages_cons] at hrun
    rcases run_bind_eq_error.mp hrun with h₁ | ⟨u, s₁, h₁, hrest⟩
    · exact ⟨call, List.mem_cons_self .., s, h, hP, h₁⟩
    · obtain ⟨haddr, hflags⟩ := hcalls call (List.mem_cons_self ..)
      obtain ⟨c, hc, hfound⟩ := ih (fun c hc => hcalls c (List.mem_cons_of_mem _ hc))
        (fun c hc => hstep c (List.mem_cons_of_mem _ hc)) (h.step haddr hflags h₁)
        (hstep call (List.mem_cons_self ..) s s₁ h hP h₁) hrest
      exact ⟨c, List.mem_cons_of_mem _ hc, hfound⟩

end Calls

section Calls

variable {calls : List (Addr × BitVec 32)} (hcalls : CallsOk calls) (h : Settled seg s)

include hcalls h

/-- A run keeps every entry and `CR3`. -/
theorem mapPages_keeps (hrun : (mapPages pml4 calls).run s = .ok () s') :
    Keeps pml4 s.mem s'.mem ∧ s'.cr3 = s.cr3 := by
  refine (mapPages_ok (P := fun t => Keeps pml4 s.mem t.mem ∧ t.cr3 = s.cr3) hcalls ?_ h
    ⟨Keeps.refl _, rfl⟩ hrun).2
  rintro call hcall t t' ht ⟨hkeep, hcr3⟩ hrun
  obtain ⟨haddr, hflags⟩ := hcalls call hcall
  have hE := (mapPage_ok ht.toInv haddr hflags hrun).2
  exact ⟨hkeep.trans hE.keep, hE.cr3.trans hcr3⟩

/-- A run leaves all memory alone that is neither in the segment nor in `pml4`. -/
theorem mapPages_mem {f : ℕ} (hroot : f ≠ pfn pml4)
    (hseg : ¬ (seg.base ≤ f ∧ f < seg.base + seg.pages))
    (hrun : (mapPages pml4 calls).run s = .ok () s') : s'.mem f = s.mem f := by
  refine (mapPages_ok (P := fun t => t.mem f = s.mem f) hcalls ?_ h rfl hrun).2
  intro call hcall t t' ht hmem hrun
  obtain ⟨haddr, hflags⟩ := hcalls call hcall
  obtain ⟨hI, hE⟩ := mapPage_ok ht.toInv haddr hflags hrun
  obtain ⟨es, htraced⟩ := hE.traced
  have hle := hI.next_le
  exact (htraced.mem_eq hroot (by omega)).trans hmem

/-- A run maps the page of every call. -/
theorem mapPages_present (hrun : (mapPages pml4 calls).run s = .ok () s') :
    ∀ call ∈ calls, (slotAt s'.mem pml4 3 (pfn call.1)).isSome := by
  induction calls generalizing s with
  | nil => exact fun call hcall => absurd hcall List.not_mem_nil
  | cons call calls ih =>
    rw [mapPages_cons] at hrun
    obtain ⟨u, s₁, h₁, hrest⟩ := run_bind_eq_ok.mp hrun
    obtain ⟨haddr, hflags⟩ := hcalls call (List.mem_cons_self ..)
    have hcalls' : CallsOk calls := fun c hc => hcalls c (List.mem_cons_of_mem _ hc)
    have hsettled := h.step haddr hflags h₁
    intro c hc
    -- The first call maps its page, and the rest of the run keeps it.
    rcases List.mem_cons.mp hc with rfl | hc
    · obtain ⟨t, ht, -⟩ := (mapPage_ok h.toInv haddr hflags h₁).walk_addr haddr
      rw [(mapPages_keeps hcalls' hsettled hrest).1 3 _ _ le_rfl (pfn_lt _ haddr)
        (slotAt_of_walk ht)]
      rfl
    · exact ih hcalls' hsettled hrest c hc

end Calls

end KessOS
