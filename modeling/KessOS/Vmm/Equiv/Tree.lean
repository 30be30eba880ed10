import KessOS.Paging.Tables
import KessOS.Vmm.Equiv.Below
import KessOS.Vmm.Equiv.Start

/-!
# Who owns the frames

After any run of `map_page` the frames taken from the segment are exactly the page tables: each
is referred to by one entry, no entry refers to anything else, and each is mapped to itself
(`mapPages_tree`).
-/

namespace KessOS

open EStateM

variable {pml4 : Addr} {seg : Segment pml4} {flags : BitVec 32} {s s' : Vmm} {meminfo : MemInfo}
  {calls : List (Addr × BitVec 32)}

/-- Without a free frame nothing can be mapped into a clear `pml4`. -/
theorem mapPage_of_empty (addr : Addr) (flags : BitVec 32)
    (hzero : ∀ idx, s.mem (pfn pml4) idx = 0#64)
    (hempty : s.segmentUsable = 0) :
    ∃ s', (mapPage pml4 addr flags).run s = .error .outOfMemory s' := by
  have hvacant : ¬ present (s.mem (pfn pml4) (tableIdx addr 39)) = true := by
    rw [hzero]
    decide
  have hfirst := ensureTable_run (mapPageNested pml4 s.segmentUsable.toNat) pml4
    (tableIdx addr 39) (flags ||| pageBitPPresentFlag) s
  rw [if_neg hvacant, if_pos (by rw [hempty]; exact BitVec.le_refl _)] at hfirst
  rw [mapPage_run, mapPageNested, run_bind_of_error hfirst]
  exact ⟨_, rfl⟩

/-- A run that returns has taken the frames in order. -/
theorem mapPages_allocs (hcalls : CallsOk calls) (h : Settled seg s)
    (hrun : (mapPages pml4 calls).run s = .ok () s') :
    Settled seg s' ∧ s.next ≤ s'.next ∧
      ∃ es, s'.trace = s.trace ++ es ∧ allocated es = framesFrom s.next s'.next := by
  refine mapPages_ok (P := fun t => s.next ≤ t.next ∧
    ∃ es, t.trace = s.trace ++ es ∧ allocated es = framesFrom s.next t.next) hcalls ?_ h
    ⟨le_rfl, [], by simp, by simp⟩ hrun
  rintro call hcall t t' ht ⟨hle, es, htrace, hallocs⟩ hrun
  obtain ⟨haddr, hflags⟩ := hcalls call hcall
  have hmaps := mapPage_ok ht.toInv haddr hflags hrun
  obtain ⟨es', htraced⟩ := hmaps.2.traced
  refine ⟨hle.trans hmaps.2.le, es ++ es', ?_, ?_⟩
  · rw [htraced.trace, htrace, List.append_assoc]
  · rw [allocated_append, hallocs, htraced.allocs, framesFrom_append hle hmaps.2.le]

/-- The state of the tables and of the allocator when `k` frames of the segment `d` are taken. -/
structure TreeSpec (pml4 : Addr) (descs : List MemDesc) (d : MemDesc) (k : ℕ) (s : Vmm) :
    Prop where
  taken : k ≤ d.nPages.toNat
  placement : s.placement = d.physAddr + BitVec.ofNat 64 (pageSize * k)
  segmentUsable : s.segmentUsable = d.nPages - BitVec.ofNat 64 k
  referenced : ∀ f, d.physAddr.toNat ≤ pageSize * f → pageSize * f < s.placement.toNat →
    ∃! r, PointsTo s.mem pml4 f r
  inside : ∀ f r, PointsTo s.mem pml4 f r →
    d.physAddr.toNat ≤ pageSize * f ∧ pageSize * f < s.placement.toNat
  foreign : ∀ f r, PointsTo s.mem pml4 f r → ∀ d' ∈ descs, ∀ x, d'.Contains x →
    pageSize * f ≤ x → x < pageSize * (f + 1) → d' = d
  identity : ∀ f, d.physAddr.toNat ≤ pageSize * f → pageSize * f < s.placement.toNat →
    ∃ t, walk s.mem pml4 (frameAddr f) = some t ∧ t.page = frameAddr f

/-- What points to a table, in a state that keeps the invariant. -/
theorem Inv.existsUnique_pointsTo (hI : Inv seg s) {f : ℕ} (hlo : seg.base ≤ f)
    (hhi : f < s.next) : ∃! r, PointsTo s.mem pml4 f r := by
  obtain ⟨ℓ, hℓ, q, hq, hf⟩ := hI.covered f hlo hhi
  obtain ⟨e, he, hfe⟩ := nodeAt_succ_eq_some.mp hf
  obtain ⟨t, ht, -, -⟩ := slotAt_eq_some.mp he
  -- The entry that the walk goes through is one reference, and as tables are distinct the only one.
  have hr : PointsTo s.mem pml4 f (ℓ, t, Fin.ofNat 512 q) :=
    pointsTo_iff.mpr ⟨hℓ, q, hq, ht, rfl, hf⟩
  exact ⟨_, hr, fun r' hr' => hr'.unique hI.distinct hr⟩

theorem Inv.pointsTo_inside (hI : Inv seg s) {f : ℕ} {r : ℕ × ℕ × Fin 512}
    (hr : PointsTo s.mem pml4 f r) : seg.base ≤ f ∧ f < s.next := by
  obtain ⟨ℓ, t, idx⟩ := r
  obtain ⟨hℓ, q, hq, -, -, hf⟩ := pointsTo_iff.mp hr
  exact hI.inside ℓ hℓ q hq f hf

/-- The tree of an empty segment, which is that of a clear `pml4`. -/
theorem treeSpec_empty {descs : List MemDesc} {d : MemDesc}
    (hzero : ∀ idx, s.mem (pfn pml4) idx = 0#64) (hplacement : s.placement = d.physAddr)
    (husable : s.segmentUsable = d.nPages) : TreeSpec pml4 descs d 0 s := by
  have hnone : ∀ f r, ¬ PointsTo s.mem pml4 f r := by
    rintro f ⟨ℓ, t, idx⟩ hr
    obtain ⟨-, q, -, -, -, hf⟩ := pointsTo_iff.mp hr
    rw [nodeAt_succ_of_zeroed hzero] at hf
    cases hf
  refine ⟨Nat.zero_le _, by simpa using hplacement, by simpa using husable, ?_, ?_, ?_, ?_⟩
  · intro f hlo hhi
    rw [hplacement] at hhi
    omega
  · exact fun f r hr => absurd hr (hnone f r)
  · exact fun f r hr => absurd hr (hnone f r)
  · intro f hlo hhi
    rw [hplacement] at hhi
    omega

/-- The tree of a segment that `map_page` takes its frames from. -/
theorem Settled.treeSpec {descs : List MemDesc} (hmap : MemoryMapOk pml4 descs) {d : MemDesc}
    (hd : d ∈ descs) {hpml4 : pml4.toNat % pageSize = 0}
    {haligned : d.physAddr.toNat % pageSize = 0} {hbelow : d.stop ≤ 2 ^ 48}
    {hapart : ∀ x, d.Contains x → ¬ InPml4 pml4 x}
    (h : Settled (Segment.ofDesc d hpml4 haligned hbelow hapart) s) :
    TreeSpec pml4 descs d (s.next - pfn d.physAddr) s := by
  have hI := h.toInv
  have hplace : s.placement.toNat = pageSize * s.next := hI.aligned
  have hphys : d.physAddr.toNat = pageSize * pfn d.physAddr := by
    rw [pfn, Nat.mul_div_cancel' (Nat.dvd_of_mod_eq_zero haligned)]
  have hlow : pfn d.physAddr ≤ s.next := hI.low
  have hcount : s.next + s.segmentUsable.toNat = pfn d.physAddr + d.nPages.toNat := hI.count
  have hfit : pfn d.physAddr + d.nPages.toNat ≤ 2 ^ 36 :=
    (Segment.ofDesc d hpml4 haligned hbelow hapart).fits
  have hpage : pageSize = 4096 := rfl
  have hframes : ∀ f, (d.physAddr.toNat ≤ pageSize * f ∧ pageSize * f < s.placement.toNat) ↔
      pfn d.physAddr ≤ f ∧ f < s.next := by
    intro f
    rw [hplace, hphys, Nat.mul_le_mul_left_iff (by decide), Nat.mul_lt_mul_left (by decide)]
  refine ⟨by omega, ?_, ?_, ?_, ?_, ?_, ?_⟩
  · rw [← BitVec.toNat_inj, BitVec.toNat_add, BitVec.toNat_ofNat, hplace, hphys]
    rw [hpage]
    omega
  · rw [← BitVec.toNat_inj, BitVec.toNat_sub, BitVec.toNat_ofNat]
    omega
  · intro f hlo hhi
    obtain ⟨hlo, hhi⟩ := (hframes f).mp ⟨hlo, hhi⟩
    exact hI.existsUnique_pointsTo hlo hhi
  · exact fun f r hr => (hframes f).mpr (hI.pointsTo_inside hr)
  · intro f r hr d' hd' x hx hlo hhi
    obtain ⟨hbase, hnext⟩ := hI.pointsTo_inside hr
    have hbase : pfn d.physAddr ≤ f := hbase
    refine hmap.eq_of_contains hd' hd hx ⟨?_, ?_⟩
    · rw [hphys]
      exact (Nat.mul_le_mul_left _ hbase).trans hlo
    · rw [MemDesc.stop, hphys, ← Nat.mul_add]
      exact lt_of_lt_of_le hhi (Nat.mul_le_mul_left _ (by omega))
  · intro f hlo hhi
    obtain ⟨hlo, hhi⟩ := (hframes f).mp ⟨hlo, hhi⟩
    exact hI.walk_frame (by omega) (h.mapped f hlo hhi)

/-- **The page tables form a tree over the frames taken**, between any two calls of `map_page` of
any run after `set_alloc_base` and the clearing of `pml4`. -/
theorem mapPages_tree (hpml4 : pml4.toNat % pageSize = 0)
    (hmap : MemoryMapOk pml4 (memoryMap s.mem meminfo)) (hcalls : CallsOk calls)
    (hrun : (do
      setAllocBase meminfo
      memzero pml4 pageSize
      mapPages pml4 calls : VmmM Unit).run s = .ok () s') :
    ∃ es, s'.trace = s.trace ++ es ∧
      TreeSpec pml4 (memoryMap s.mem meminfo) (chosenSegment s meminfo) (allocated es).length
        s' := by
  rw [start_run] at hrun
  have hzeroed := started_zeroed hpml4 s meminfo
  have hplacement : (s.started pml4 meminfo).placement = (chosenSegment s meminfo).physAddr := by
    rw [Vmm.started, recordAll_placement]
    rfl
  have husable : (s.started pml4 meminfo).segmentUsable = (chosenSegment s meminfo).nPages := by
    rw [Vmm.started, recordAll_segmentUsable]
    rfl
  by_cases hempty : (chosenSegment s meminfo).nPages = 0
  · -- No call returns, so there was none.
    cases calls with
    | nil =>
      obtain ⟨-, rfl⟩ := (Result.ok.injEq ..).mp hrun
      refine ⟨zeroing pml4, started_trace s pml4 meminfo, ?_⟩
      rw [allocated_zeroing]
      exact treeSpec_empty hzeroed hplacement husable
    | cons call calls =>
      obtain ⟨s₁, h₁⟩ := mapPage_of_empty call.1 call.2 hzeroed
        (husable.trans hempty)
      rw [mapPages_cons, run_bind_of_error h₁] at hrun
      cases hrun
  · obtain ⟨hmem, htype⟩ := chosenSegment_mem hempty
    have hfresh := fresh_started hpml4 (hmap.aligned _ hmem) (hmap.below _ hmem)
      (hmap.apart _ hmem htype)
    obtain ⟨hsettled, -, es, htrace, hallocs⟩ := mapPages_allocs hcalls hfresh.settled hrun
    refine ⟨zeroing pml4 ++ es, ?_, ?_⟩
    · rw [htrace, started_trace, List.append_assoc]
    · rw [allocated_append, allocated_zeroing, List.nil_append, hallocs, length_framesFrom,
        hfresh.next_eq]
      exact hsettled.treeSpec hmap hmem

/-! ### A run -/

/-- The start and two calls on a machine whose segment has 16 pages at 4 MiB. -/
def smallCalls : List (Addr × BitVec 32) :=
  [(0x5000#64, pageBitRwWritableFlag), (0x208123#64, 0#32)]

theorem callsOk_smallCalls : CallsOk smallCalls := List.forall_iff_forall_mem.mp (by decide)

def smallRun : VmmM Unit := do
  setAllocBase oneSegmentInfo
  memzero 0x200000#64 pageSize
  mapPages 0x200000#64 smallCalls

theorem memoryMap_small :
    memoryMap (oneSegmentMem 0x400000#64 16#64) oneSegmentInfo =
      [⟨7, 0x400000#64, 0, 16#64, 0⟩] := by decide

theorem memoryMapOk_small :
    MemoryMapOk 0x200000#64 (memoryMap (oneSegmentMem 0x400000#64 16#64) oneSegmentInfo) := by
  rw [memoryMap_small]
  refine ⟨?_, ?_, List.pairwise_singleton .., ?_⟩
  · simp only [List.mem_singleton, forall_eq]
    decide
  · simp only [List.mem_singleton, forall_eq]
    decide
  · rintro d hd -
    obtain rfl := List.mem_singleton.mp hd
    exact MemDesc.not_inPml4 (by decide)

theorem chosenSegment_small :
    chosenSegment (bootState (oneSegmentMem 0x400000#64 16#64)) oneSegmentInfo =
      ⟨7, 0x400000#64, 0, 16#64, 0⟩ := by decide

theorem smallRun_returns :
    ∃ s', smallRun.run (bootState (oneSegmentMem 0x400000#64 16#64)) = .ok () s' := by
  have hne : (chosenSegment (bootState (oneSegmentMem 0x400000#64 16#64)) oneSegmentInfo).nPages ≠
      0 := by
    rw [chosenSegment_small]
    decide
  obtain ⟨hmem, htype⟩ := chosenSegment_mem hne
  have hmap := memoryMapOk_small
  have hfresh := fresh_started (by decide) (hmap.aligned _ hmem) (hmap.below _ hmem)
    (hmap.apart _ hmem htype)
  rw [smallRun, start_run]
  have hbelow : ∀ call ∈ smallCalls, pfn call.1 < 1040 :=
    List.forall_iff_forall_mem.mp (by decide)
  refine mapPages_returns callsOk_smallCalls hbelow hfresh.settled ?_ (hfresh.within _) ?_
  · show pfn (chosenSegment _ _).physAddr + (chosenSegment _ _).nPages.toNat ≤ 1040
    rw [chosenSegment_small]
    decide
  · show _ ≤ (chosenSegment _ _).nPages.toNat
    rw [chosenSegment_small, card_tablesBelow]
    decide

theorem mapPages_tree_small :
    ∃ s' es, smallRun.run (bootState (oneSegmentMem 0x400000#64 16#64)) = .ok () s' ∧
      s'.trace = [] ++ es ∧
      TreeSpec 0x200000#64 (memoryMap (oneSegmentMem 0x400000#64 16#64) oneSegmentInfo)
        (chosenSegment (bootState (oneSegmentMem 0x400000#64 16#64)) oneSegmentInfo)
        (allocated es).length s' := by
  obtain ⟨s', hrun⟩ := smallRun_returns
  have htree := mapPages_tree (s := bootState (oneSegmentMem 0x400000#64 16#64)) (by decide)
    memoryMapOk_small callsOk_smallCalls (by rw [smallRun] at hrun; exact hrun)
  obtain ⟨es, hes⟩ := htree
  exact ⟨s', es, hrun, hes⟩

end KessOS
