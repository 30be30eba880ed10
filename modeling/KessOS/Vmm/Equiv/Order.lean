import KessOS.Vmm.Equiv.Tree

/-!
# The order of the calls

How many frames a run of `map_page` takes does not depend on the order of its calls: it is the
least `j` such that the pages of the calls and the first `j` frames of the segment have at most
`j` tables together, `framesFor` (`mapPages_next`).  The tables themselves may lie in different
frames, but no walk can tell (`mapPages_perm`).

A frame is taken only while a table is missing, so the frames taken never make up for the tables
before the run is over (`mapPages_short`); once it is over, every table is there.
-/

namespace KessOS

open EStateM

variable {pml4 : Addr} {seg : Segment pml4} {flags : BitVec 32} {s s' t t' : Vmm}
  {calls : List (Addr × BitVec 32)} {addrs addrs' : List Addr} {pages : Finset ℕ}

/-! ### The tables that some pages and frames need -/

/-- The entries on the walks of `pages`. -/
def pagesKeys (pages : Finset ℕ) : Set (ℕ × ℕ) := {κ | ∃ p ∈ pages, κ ∈ pathKeys p}

/-- The tables that `pages` and the `j` frames from `lo` on need. -/
def requiredTables (pages : Finset ℕ) (lo j : ℕ) : Finset (ℕ × ℕ) :=
  (pages ∪ Finset.Ico lo (lo + j)).biUnion tableKeys

/-- The least number of frames from `lo` on that makes up for these tables. -/
noncomputable def framesFor (pages : Finset ℕ) (lo : ℕ) : ℕ :=
  sInf {j | (requiredTables pages lo j).card ≤ j}

theorem mem_requiredTables {lo j : ℕ} {κ : ℕ × ℕ} :
    κ ∈ requiredTables pages lo j ↔
      κ.1 < 3 ∧ κ ∈ pagesKeys pages ∪ selfKeys lo (lo + j) := by
  simp only [requiredTables, Finset.mem_biUnion, Finset.mem_union, Finset.mem_Ico, mem_tableKeys,
    pagesKeys, selfKeys, Set.mem_union, Set.mem_ofPred_eq]
  constructor
  · rintro ⟨p, hp | ⟨hlo, hhi⟩, h3, hκ⟩
    · exact ⟨h3, Or.inl ⟨p, hp, hκ⟩⟩
    · exact ⟨h3, Or.inr ⟨p, hlo, hhi, hκ⟩⟩
  · rintro ⟨h3, ⟨p, hp, hκ⟩ | ⟨f, hlo, hhi, hκ⟩⟩
    · exact ⟨p, Or.inl hp, h3, hκ⟩
    · exact ⟨f, Or.inr ⟨hlo, hhi⟩, h3, hκ⟩

/-- The pages that a run of calls is asked to map. -/
def pagesOf (calls : List (Addr × BitVec 32)) : Finset ℕ :=
  (calls.map fun call => pfn call.1).toFinset

theorem mem_pagesOf {p : ℕ} : p ∈ pagesOf calls ↔ ∃ call ∈ calls, pfn call.1 = p := by
  simp [pagesOf]

theorem pathKeys_subset_pagesKeys {call : Addr × BitVec 32} (h : call ∈ calls) :
    pathKeys (pfn call.1) ⊆ pagesKeys (pagesOf calls) :=
  fun _ hκ => ⟨_, mem_pagesOf.mpr ⟨call, h, rfl⟩, hκ⟩

/-! ### While a run takes frames -/

/-- A run of calls that started on a fresh segment stands where `m` is the next free frame and a
table is missing. -/
def ShortIn (seg : Segment pml4) (K : Set (ℕ × ℕ)) (m : ℕ) : Prop :=
  ∃ t, t.next = m ∧ Inv seg t ∧ Within pml4 (K ∪ selfKeys seg.base m) t.mem ∧
    ∃ κ ∈ K ∪ selfKeys seg.base m, κ.1 < 3 ∧ κ.2 < 512 ^ (κ.1 + 1) ∧
      slotAt t.mem pml4 κ.1 κ.2 = none

/-- What one of the calls lacks, the run lacks. -/
theorem ShortAt.shortIn {K : Set (ℕ × ℕ)} {p m : ℕ} (hlow : seg.base ≤ s.next)
    (hp : pathKeys p ⊆ K) (hW : Within pml4 (K ∪ selfKeys seg.base s.next) s.mem)
    (h : ShortAt seg flags p s m) : ShortIn seg K m := by
  obtain ⟨t, Δ, rfl, hI, hE, hΔ, κ, hκ, hmissing⟩ := h
  have hle := hE.le
  have hneeded : neededKeys p s.next t.next ⊆ K ∪ selfKeys seg.base t.next := by
    refine Set.union_subset_union hp ?_
    rintro κ ⟨f, hlo, hhi, hκ⟩
    exact ⟨f, hlow.trans hlo, hhi, hκ⟩
  have hold : K ∪ selfKeys seg.base s.next ⊆ K ∪ selfKeys seg.base t.next := by
    refine Set.union_subset_union_right _ ?_
    rintro κ ⟨f, hlo, hhi, hκ⟩
    exact ⟨f, hlo, hhi.trans_le hle, hκ⟩
  exact ⟨t, rfl, hI, (hW.mono hold).extends hE (hΔ.trans hneeded), κ, hneeded hκ, hmissing⟩

/-- Wherever a run takes a frame, a table is missing. -/
theorem mapPages_short {K : Set (ℕ × ℕ)} (hcalls : CallsOk calls)
    (hK : ∀ call ∈ calls, pathKeys (pfn call.1) ⊆ K) (h : Settled seg s)
    (hW : Within pml4 (K ∪ selfKeys seg.base s.next) s.mem) {m : ℕ} (hm : s.next ≤ m)
    (htakes : Takes ((mapPages pml4 calls).run s) m) : ShortIn seg K m := by
  induction calls generalizing s with
  | nil => exact absurd htakes (Nat.not_lt.mpr hm)
  | cons call calls ih =>
    obtain ⟨haddr, hflags⟩ := hcalls call (List.mem_cons_self ..)
    have hpath := hK call (List.mem_cons_self ..)
    rw [mapPages_cons] at htakes
    rcases takes_bind htakes with hfirst | ⟨u, s₁, hfirst, hm₁, hrest⟩
    · exact (mapPage_short h.toInv haddr hflags hm hfirst).shortIn h.low hpath hW
    · -- The first call leaves a settled state, from which the others take the frame.
      have hcalls' : CallsOk calls := fun c hc => hcalls c (List.mem_cons_of_mem _ hc)
      refine ih hcalls' (fun c hc => hK c (List.mem_cons_of_mem _ hc))
        (h.step haddr hflags hfirst) ?_ hm₁ hrest
      have hone : CallsOk [call] := List.forall_mem_singleton.mpr ⟨haddr, hflags⟩
      refine within_mapPages_of hone (List.forall_mem_singleton.mpr hpath) h hW ?_
      rw [mapPages_cons, run_bind_of_ok hfirst]
      rfl

/-- So the frames taken before do not make up for the tables. -/
theorem ShortIn.lt_card {j : ℕ} (h : ShortIn seg (pagesKeys pages) (seg.base + j)) :
    j < (requiredTables pages seg.base j).card := by
  obtain ⟨t, ht, hI, hW, κ, hκ, hκ3, hκr, hnone⟩ := h
  have hmem : κ ∈ requiredTables pages seg.base j := mem_requiredTables.mpr ⟨hκ3, hκ⟩
  rw [← Finset.card_erase_add_one hmem]
  refine Nat.lt_succ_of_le ?_
  have hframes : t.next - seg.base ≤ ((requiredTables pages seg.base j).erase κ).card := by
    refine hI.frames_le fun ℓ hℓ q hq hs => ?_
    refine Finset.mem_erase.mpr ⟨?_, mem_requiredTables.mpr ⟨hℓ, hW ℓ q hℓ.le hq hs⟩⟩
    rintro rfl
    rw [hnone] at hs
    cases hs
  omega

/-- A run that stops has used up the segment. -/
theorem mapPages_error_end (hcalls : CallsOk calls) (h : Settled seg s) {e : Stop}
    (hrun : (mapPages pml4 calls).run s = .error e s') :
    e = .outOfMemory ∧ s'.next = seg.base + seg.pages := by
  obtain ⟨call, hcall, s₁, hs₁, -, hstop⟩ := mapPages_error (P := fun _ => True) hcalls
    (fun _ _ _ _ _ _ _ => trivial) h trivial hrun
  obtain ⟨haddr, hflags⟩ := hcalls call hcall
  obtain ⟨rfl, hend, -⟩ := mapPage_error hs₁.toInv haddr hflags hstop
  exact ⟨rfl, hend⟩

/-! ### Runs from a fresh segment -/

section Fresh

variable (hs : Fresh seg s) (hcalls : CallsOk calls)

include hs hcalls

/-- No frame is taken once the frames make up for the tables. -/
theorem mapPages_lt_card {j : ℕ} (htakes : Takes ((mapPages pml4 calls).run s) (seg.base + j)) :
    j < (requiredTables (pagesOf calls) seg.base j).card := by
  refine (mapPages_short hcalls (fun call => pathKeys_subset_pagesKeys) hs.settled (hs.within _) ?_
    htakes).lt_card
  rw [hs.next_eq]
  exact Nat.le_add_right _ _

/-- The entries there are once the calls have returned. -/
theorem mapPages_isSome_iff (hrun : (mapPages pml4 calls).run s = .ok () s') {p : ℕ}
    (hp : p < 512 ^ 4) :
    (slotAt s'.mem pml4 3 p).isSome ↔ p ∈ pagesOf calls ∨ (seg.base ≤ p ∧ p < s'.next) := by
  obtain ⟨hsettled, -⟩ := mapPages_allocs hcalls hs.settled hrun
  constructor
  · intro hsome
    have hW := within_mapPages_of hcalls (fun call => pathKeys_subset_pagesKeys) hs.settled
      (hs.within _) hrun
    rcases hW 3 p le_rfl hp hsome with ⟨r, hr, hκ⟩ | hself
    · have hpr : p = r := hκ.2.trans (levelIdx_three r)
      exact Or.inl (hpr ▸ hr)
    · exact Or.inr (page_mem_selfKeys hself)
  · rintro (hpage | ⟨hlo, hhi⟩)
    · obtain ⟨call, hcall, rfl⟩ := mem_pagesOf.mp hpage
      exact mapPages_present hcalls hs.settled hrun call hcall
    · exact hsettled.mapped p hlo hhi

/-- The frames taken are the least number that makes up for the tables. -/
theorem mapPages_isLeast (hrun : (mapPages pml4 calls).run s = .ok () s') :
    IsLeast {j | (requiredTables (pagesOf calls) seg.base j).card ≤ j} (s'.next - seg.base) := by
  obtain ⟨hsettled, -⟩ := mapPages_allocs hcalls hs.settled hrun
  have hlow := hsettled.low
  have hfit := hsettled.next_le.trans seg.fits
  constructor
  · -- Every table of the pages and of the frames is there, each in a frame of its own.
    refine hsettled.toInv.le_frames fun κ hκ => ?_
    obtain ⟨hκ3, hκ⟩ := mem_requiredTables.mp hκ
    rw [Nat.add_sub_cancel' hlow] at hκ
    rcases hκ with ⟨p, hp, hpath⟩ | ⟨f, hlo, hhi, hpath⟩
    · obtain ⟨call, hcall, rfl⟩ := mem_pagesOf.mp hp
      have hleaf := mapPages_present hcalls hs.settled hrun call hcall
      rw [hpath.2]
      exact ⟨hκ3, levelIdx_lt (pfn_lt _ (hcalls call hcall).1) hκ3.le,
        slotAt_isSome_of_leaf hleaf hκ3.le⟩
    · rw [hpath.2]
      exact ⟨hκ3, levelIdx_lt (by omega) hκ3.le,
        slotAt_isSome_of_leaf (hsettled.mapped f hlo hhi) hκ3.le⟩
  · intro j hj
    by_contra hlt
    refine absurd (mapPages_lt_card hs hcalls (j := j) ?_) (Nat.not_lt.mpr hj)
    rw [hrun]
    show seg.base + j < s'.next
    omega

/-- **The frames that a run takes**, whatever the order of its calls. -/
theorem mapPages_next (hrun : (mapPages pml4 calls).run s = .ok () s') :
    s'.next = seg.base + framesFor (pagesOf calls) seg.base := by
  obtain ⟨hsettled, -⟩ := mapPages_allocs hcalls hs.settled hrun
  have hlow := hsettled.low
  rw [framesFor, (mapPages_isLeast hs hcalls hrun).csInf_eq]
  omega

/-- A run returns if and only if the segment has enough frames. -/
theorem mapPages_ok_iff : (∃ s', (mapPages pml4 calls).run s = .ok () s') ↔
    ∃ j ≤ seg.pages, (requiredTables (pagesOf calls) seg.base j).card ≤ j := by
  constructor
  · rintro ⟨s', hrun⟩
    obtain ⟨hsettled, -⟩ := mapPages_allocs hcalls hs.settled hrun
    have hend := hsettled.next_le
    exact ⟨_, by omega, (mapPages_isLeast hs hcalls hrun).1⟩
  · rintro ⟨j, hj, henough⟩
    cases hrun : (mapPages pml4 calls).run s with
    | ok u s' => exact ⟨s', rfl⟩
    | error e s' =>
      obtain ⟨rfl, hend⟩ := mapPages_error_end hcalls hs.settled hrun
      -- The run wanted every frame of the segment, and the one behind it too.
      refine absurd (mapPages_lt_card hs hcalls (j := j) ?_) (Nat.not_lt.mpr henough)
      rw [hrun]
      exact ⟨rfl, by rw [hend]; omega⟩

/-- A run that does not return has run out of memory. -/
theorem mapPages_stops (hstop : ¬ ∃ s', (mapPages pml4 calls).run s = .ok () s') :
    ∃ s', (mapPages pml4 calls).run s = .error .outOfMemory s' := by
  cases hrun : (mapPages pml4 calls).run s with
  | ok u s' => exact absurd ⟨s', hrun⟩ hstop
  | error e s' =>
    obtain ⟨rfl, -⟩ := mapPages_error_end hcalls hs.settled hrun
    exact ⟨s', rfl⟩

end Fresh

/-! ### The order of the calls -/

/-- The frame and the leaf flags that a walk of `a` comes to. -/
def walkResult (m : PhysMem) (pml4 a : Addr) : Option (Addr × Entry) :=
  (walk m pml4 a).map fun t => (t.page, flagBits t.pte)

/-- The calls that map `addrs` in this order. -/
def callsWith (flags : BitVec 32) (addrs : List Addr) : List (Addr × BitVec 32) :=
  addrs.map fun a => (a, flags)

theorem callsOk_callsWith (haddrs : ∀ a ∈ addrs, a.toNat < 2 ^ 48) (hflags : FlagsOk flags) :
    CallsOk (callsWith flags addrs) := by
  intro call hcall
  obtain ⟨a, ha, rfl⟩ := List.mem_map.mp hcall
  exact ⟨haddrs a ha, hflags⟩

theorem callsWith_flags : ∀ call ∈ callsWith flags addrs, call.2 = flags := by
  intro call hcall
  obtain ⟨a, -, rfl⟩ := List.mem_map.mp hcall
  rfl

/-- The pages do not depend on the order. -/
theorem pagesOf_perm (h : addrs.Perm addrs') :
    pagesOf (callsWith flags addrs) = pagesOf (callsWith flags addrs') :=
  List.toFinset_eq_of_perm _ _ ((h.map _).map _)

/-- What a walk comes to once all pages are mapped with the same flags. -/
theorem walkResult_mapPages (hs : Fresh seg s) (haddrs : ∀ a ∈ addrs, a.toNat < 2 ^ 48)
    (hflags : FlagsOk flags) (hrun : (mapPages pml4 (callsWith flags addrs)).run s = .ok () s')
    {a : Addr} (ha : a.toNat < 2 ^ 48) :
    walkResult s'.mem pml4 a =
      if pfn a ∈ pagesOf (callsWith flags addrs) ∨ (seg.base ≤ pfn a ∧ pfn a < s'.next) then
        some (pageStart a, (flags ||| pageBitPPresentFlag).setWidth 64)
      else none := by
  have hcalls := callsOk_callsWith haddrs hflags
  obtain ⟨hsettled, -⟩ := mapPages_allocs hcalls hs.settled hrun
  have hsome := mapPages_isSome_iff hs hcalls hrun (pfn_lt a ha)
  split_ifs with hmapped
  · obtain ⟨t, ht, hpage⟩ := hsettled.toInv.walk_page ha (hsome.mpr hmapped)
    have hF := flagged_mapPages hcalls callsWith_flags hs.settled (hs.flagged _) hrun
    have hpte := hF 3 _ _ le_rfl (pfn_lt a ha) (slotAt_of_walk ht)
    rw [walkResult, ht, Option.map_some, hpage, hpte]
  · have hnone : walk s'.mem pml4 a = none := by
      rw [walk_eq_none_iff, ← Option.not_isSome_iff_eq_none]
      exact mt hsome.mp hmapped
    rw [walkResult, hnone, Option.map_none]

/-- Two runs have taken as many frames, and no walk can tell them apart. -/
structure SameMapping (pml4 : Addr) (s t s' t' : Vmm) : Prop where
  frames : ∃ es es', s'.trace = s.trace ++ es ∧ t'.trace = t.trace ++ es' ∧
    (allocated es).length = (allocated es').length
  placement : s'.placement = t'.placement
  segmentUsable : s'.segmentUsable = t'.segmentUsable
  walks : ∀ a : Addr, a.toNat < 2 ^ 48 → walkResult s'.mem pml4 a = walkResult t'.mem pml4 a

/-- **The order of the calls does not matter**: mapping the same pages in another order stops as
well, or it takes as many frames and every walk comes to the same result. -/
theorem mapPages_perm (hs : Fresh seg s) (ht : Fresh seg t)
    (haddrs : ∀ a ∈ addrs, a.toNat < 2 ^ 48) (hflags : FlagsOk flags)
    (hperm : addrs.Perm addrs') :
    (∃ s' t', (mapPages pml4 (callsWith flags addrs)).run s = .error .outOfMemory s' ∧
        (mapPages pml4 (callsWith flags addrs')).run t = .error .outOfMemory t') ∨
      ∃ s' t', (mapPages pml4 (callsWith flags addrs)).run s = .ok () s' ∧
        (mapPages pml4 (callsWith flags addrs')).run t = .ok () t' ∧
        SameMapping pml4 s t s' t' := by
  have haddrs' : ∀ a ∈ addrs', a.toNat < 2 ^ 48 := fun a ha => haddrs a (hperm.mem_iff.mpr ha)
  have hcalls := callsOk_callsWith haddrs hflags
  have hcalls' := callsOk_callsWith haddrs' hflags
  have hpages : pagesOf (callsWith flags addrs) = pagesOf (callsWith flags addrs') :=
    pagesOf_perm hperm
  have hok : (∃ s', (mapPages pml4 (callsWith flags addrs)).run s = .ok () s') ↔
      ∃ t', (mapPages pml4 (callsWith flags addrs')).run t = .ok () t' := by
    rw [mapPages_ok_iff hs hcalls, mapPages_ok_iff ht hcalls', hpages]
  by_cases hreturns : ∃ s', (mapPages pml4 (callsWith flags addrs)).run s = .ok () s'
  · obtain ⟨s', hrun⟩ := hreturns
    obtain ⟨t', hrun'⟩ := hok.mp ⟨s', hrun⟩
    obtain ⟨hsettled, -, es, htrace, hallocs⟩ := mapPages_allocs hcalls hs.settled hrun
    obtain ⟨hsettled', -, es', htrace', hallocs'⟩ := mapPages_allocs hcalls' ht.settled hrun'
    have hnext : s'.next = t'.next := by
      rw [mapPages_next hs hcalls hrun, mapPages_next ht hcalls' hrun', hpages]
    refine Or.inr ⟨s', t', hrun, hrun', ⟨es, es', htrace, htrace', ?_⟩, ?_, ?_, fun a ha => ?_⟩
    · rw [hallocs, hallocs', hs.next_eq, ht.next_eq, hnext]
    · rw [← BitVec.toNat_inj, hsettled.aligned, hsettled'.aligned, hnext]
    · have hcount := hsettled.count
      have hcount' := hsettled'.count
      rw [← BitVec.toNat_inj]
      omega
    · rw [walkResult_mapPages hs haddrs hflags hrun ha,
        walkResult_mapPages ht haddrs' hflags hrun' ha, hpages, hnext]
  · have hstop : ¬ ∃ t', (mapPages pml4 (callsWith flags addrs')).run t = .ok () t' :=
      mt hok.mpr hreturns
    obtain ⟨s', hrun⟩ := mapPages_stops hs hcalls hreturns
    obtain ⟨t', hrun'⟩ := mapPages_stops ht hcalls' hstop
    exact Or.inl ⟨s', t', hrun, hrun'⟩

/-- Two pages under different PD entries, either way round. -/
theorem mapPages_perm_small :
    ∃ s' t', (mapPages 0x200000#64 (callsWith pageBitUsUserFlag
        [0x5000#64, 0x2FF123#64])).run smallState = .ok () s' ∧
      (mapPages 0x200000#64 (callsWith pageBitUsUserFlag
        [0x2FF123#64, 0x5000#64])).run smallState = .ok () t' ∧
      SameMapping 0x200000#64 smallState smallState s' t' := by
  have hfresh := fresh_smallState
  have haddrs : ∀ a ∈ [0x5000#64, 0x2FF123#64], a.toNat < 2 ^ 48 :=
    List.forall_iff_forall_mem.mp (by decide)
  have hflags : FlagsOk pageBitUsUserFlag := by decide
  have hbelow : ∀ call ∈ callsWith pageBitUsUserFlag [0x5000#64, 0x2FF123#64],
      pfn call.1 < 1040 :=
    List.forall_mem_cons.mpr ⟨by decide, List.forall_mem_singleton.mpr (by decide)⟩
  -- The segment has a frame for every table of the pages below its end.
  obtain ⟨s', hrun⟩ := mapPages_returns (callsOk_callsWith haddrs hflags) hbelow hfresh.settled
    (by decide) (hfresh.within _) (by rw [card_tablesBelow]; decide)
  rcases mapPages_perm hfresh hfresh haddrs hflags (List.Perm.swap ..) with
    ⟨s'', t', hstop, -⟩ | ⟨s'', t', hs, ht, hsame⟩
  · rw [hrun] at hstop
    cases hstop
  · exact ⟨s'', t', hs, ht, hsame⟩

end KessOS
