import KessOS.Vmm.Equiv.Below
import KessOS.Vmm.Equiv.Tree
import Mathlib.Data.Set.Card

/-!
# Correctness of `vmm_init`

`vmm_init` maps the first 6 GiB page by page.  As long as the segment lies below them, the tables
taken are exactly those of the first 6 GiB, whether the loop or a nested call gets there first:
3079 frames are needed, and they are enough (`vmmInit_spec`).
-/

namespace KessOS

open EStateM

variable {pml4 : Addr} {seg : Segment pml4} {flags : BitVec 32} {s s' : Vmm} {meminfo : MemInfo}
  {hi : ℕ}

/-- The number of pages that `vmm_init` maps. -/
def initPages : ℕ := gb * 6 / 4096

theorem card_tablesBelow_init : (tablesBelow initPages).card = 3079 := by
  rw [card_tablesBelow]
  simp [Finset.sum_range_succ, levelIdx, initPages, gb]

/-! ### The levels of a tree that is full below a bound -/

/-- The tables at one level below `pml4`, where exactly the walks of the pages below `hi` are
present. -/
theorem Inv.ncard_tables (hI : Inv seg s) (hpos : 0 < hi) (hle : hi ≤ 512 ^ 4)
    (hW : Within pml4 (selfKeys 0 hi) s.mem)
    (hfull : ∀ p < hi, (slotAt s.mem pml4 3 p).isSome) {ℓ : ℕ} (hℓ : ℓ < 3) :
    {t | TableAt s.mem pml4 (ℓ + 1) t}.ncard = levelIdx (hi - 1) ℓ + 1 := by
  have hnode : ∀ q < levelIdx (hi - 1) ℓ + 1,
      q < 512 ^ (ℓ + 1) ∧ ∃ t, nodeAt s.mem pml4 (ℓ + 1) q = some t := by
    intro q hq
    obtain ⟨f, -, hf, -, hqf⟩ := (mem_selfKeys_zero hpos hℓ.le).mpr hq
    obtain rfl : q = levelIdx f ℓ := hqf
    obtain ⟨e, he⟩ := Option.isSome_iff_exists.mp
      (slotAt_isSome_of_leaf (hfull f hf) hℓ.le)
    exact ⟨levelIdx_lt (by omega) hℓ.le, _, nodeAt_succ_eq_some.mpr ⟨e, he, rfl⟩⟩
  -- The tables are the nodes at the indices that `hnode` lists, one for each of them.
  have hset : {t | TableAt s.mem pml4 (ℓ + 1) t} = ((Finset.range (levelIdx (hi - 1) ℓ + 1)).image
      fun q => (nodeAt s.mem pml4 (ℓ + 1) q).getD 0 : Finset ℕ) := by
    ext t
    simp only [Set.mem_ofPred_eq, Finset.coe_image, Set.mem_image, Finset.mem_coe,
      Finset.mem_range]
    rw [tableAt_iff (by omega)]
    constructor
    · rintro ⟨q, hq, ht⟩
      obtain ⟨e, he, -⟩ := nodeAt_succ_eq_some.mp ht
      have hkey := hW ℓ q hℓ.le hq (Option.isSome_of_eq_some he)
      exact ⟨q, (mem_selfKeys_zero hpos hℓ.le).mp hkey, by rw [ht]; rfl⟩
    · rintro ⟨q, hq, rfl⟩
      obtain ⟨hlt, t, ht⟩ := hnode q hq
      exact ⟨q, hlt, by rw [ht]; rfl⟩
  rw [hset, Set.ncard_coe_finset, Finset.card_image_of_injOn, Finset.card_range]
  intro q hq r hr heq
  obtain ⟨hqlt, t, ht⟩ := hnode q (Finset.mem_range.mp hq)
  obtain ⟨hrlt, u, hu⟩ := hnode r (Finset.mem_range.mp hr)
  have heq : (nodeAt s.mem pml4 (ℓ + 1) q).getD 0 = (nodeAt s.mem pml4 (ℓ + 1) r).getD 0 := heq
  rw [ht, hu] at heq
  obtain rfl : t = u := heq
  exact (hI.distinct _ _ _ _ _ (by omega) (by omega) hqlt hrlt ht hu).2

/-! ### The loop -/

/-- The calls of `vmm_init`. -/
def initFlags : BitVec 32 := pageBitRwWritableFlag ||| pageBitPPresentFlag

def initCalls : List (Addr × BitVec 32) := initAddrs.map fun addr => (addr, initFlags)

theorem mem_initAddrs {a : Addr} : a ∈ initAddrs ↔ ∃ p < initPages, a = frameAddr p := by
  simp only [initAddrs, List.mem_map, List.mem_range, frameAddr, pageSize, initPages]
  exact exists_congr fun p => and_congr_right fun _ => by rw [Nat.mul_comm, eq_comm]

theorem initPages_eq : initPages = 1572864 := by decide

theorem mem_initCalls {call : Addr × BitVec 32} :
    call ∈ initCalls ↔ ∃ p < initPages, call = (frameAddr p, initFlags) := by
  rw [initCalls, List.mem_map]
  constructor
  · rintro ⟨a, ha, rfl⟩
    obtain ⟨p, hp, rfl⟩ := mem_initAddrs.mp ha
    exact ⟨p, hp, rfl⟩
  · rintro ⟨p, hp, rfl⟩
    exact ⟨_, mem_initAddrs.mpr ⟨p, hp, rfl⟩, rfl⟩

theorem initPages_lt {p : ℕ} (hp : p < initPages) : p < 2 ^ 36 := by
  rw [initPages_eq] at hp
  omega

theorem callsOk_initCalls : CallsOk initCalls := by
  have hflags : FlagsOk initFlags := by decide
  intro call hcall
  obtain ⟨p, hp, rfl⟩ := mem_initCalls.mp hcall
  exact ⟨frameAddr_lt (initPages_lt hp), hflags⟩

theorem initCalls_flags : ∀ call ∈ initCalls, call.2 = initFlags := by
  intro call hcall
  obtain ⟨p, hp, rfl⟩ := mem_initCalls.mp hcall
  rfl

theorem initCalls_below : ∀ call ∈ initCalls, pfn call.1 < initPages := by
  intro call hcall
  obtain ⟨p, hp, rfl⟩ := mem_initCalls.mp hcall
  rwa [pfn_frameAddr (initPages_lt hp)]

/-- The loop maps all of its pages. -/
theorem initCalls_present (h : Settled seg s)
    (hrun : (mapPages pml4 initCalls).run s = .ok () s') :
    ∀ p < initPages, (slotAt s'.mem pml4 3 p).isSome := by
  intro p hp
  have hpres := mapPages_present callsOk_initCalls h hrun _ (mem_initCalls.mpr ⟨p, hp, rfl⟩)
  rwa [pfn_frameAddr (initPages_lt hp)] at hpres

theorem forM_mapPage (flags : BitVec 32) (l : List Addr) :
    (l.forM fun addr => mapPage pml4 addr flags) =
      mapPages pml4 (l.map fun addr => (addr, flags)) := by
  induction l with
  | nil => rfl
  | cons a l ih =>
    show (mapPage pml4 a flags >>= fun _ => l.forM fun addr => mapPage pml4 addr flags) = _
    rw [ih]
    rfl

theorem vmmInit_run (hne : (chosenSegment s meminfo).physAddr ≠ 0xDEADBEEF#64) :
    (vmmInit pml4 meminfo).run s =
      (mapPages pml4 initCalls >>= fun _ => loadPml4 pml4).run (s.started pml4 meminfo) := by
  have hget : (get : VmmM Vmm).run (s.settle meminfo) = .ok (s.settle meminfo) _ := rfl
  have hne' : ¬ (s.settle meminfo).placement = 0xDEADBEEF#64 := hne
  unfold vmmInit
  rw [run_bind_of_ok (setAllocBase_run s meminfo), run_bind_of_ok hget, if_neg hne']
  show (memzero pml4 pageSize >>= fun _ => _).run _ = _
  rw [run_bind_of_ok (memzero_run pml4 _), forM_mapPage, Vmm.started, initCalls, initFlags]

theorem loadPml4_run (a : Addr) (s : Vmm) :
    (loadPml4 a).run s = .ok () { s with cr3 := some a } := rfl

/-- A page boundary is not the address that `vmm_init` takes for a missing segment. -/
theorem ne_deadbeef {a : Addr} (h : a.toNat % pageSize = 0) : a ≠ 0xDEADBEEF#64 := by
  rintro rfl
  exact absurd h (by decide)

/-! ### `vmm_init` as a whole -/

/-- What `vmm_init` leaves behind once it has loaded `CR3`; `es` is what it has done. -/
structure InitSpec (pml4 : Addr) (es : List Event) (s' : Vmm) : Prop where
  cr3 : s'.cr3 = some pml4
  frames : (allocated es).length = 3079
  tables : ∀ f, f ∈ allocated es ↔ ∃ ℓ t, TableAt s'.mem pml4 (ℓ + 1) t ∧ f = frameAddr t
  pdpts : {t | TableAt s'.mem pml4 1 t}.ncard = 1
  pds : {t | TableAt s'.mem pml4 2 t}.ncard = 6
  pts : {t | TableAt s'.mem pml4 3 t}.ncard = 3072
  mapped : ∀ a : Addr, a.toNat < 6 * gb → ∃ t, walk s'.mem pml4 a = some t ∧
    t.page = pageStart a ∧ ∀ e ∈ t.entries, present e = true ∧ writable e = true
  unmapped : ∀ a : Addr, 6 * gb ≤ a.toNat → a.toNat < 2 ^ 48 → walk s'.mem pml4 a = none

/-- Loading `CR3` leaves the tables as they are. -/
theorem Settled.setCr3 (h : Settled seg s) (cr3 : Option Addr) :
    Settled seg { s with cr3 := cr3 } where
  aligned := h.aligned
  low := h.low
  count := h.count
  distinct := h.distinct
  inside := h.inside
  covered := h.covered
  identity := h.identity
  clean := h.clean
  mapped := h.mapped

theorem pfn_lt_initPages (a : Addr) : pfn a < initPages ↔ a.toNat < 6 * gb := by
  rw [initPages_eq]
  unfold pfn pageSize gb
  omega

/-! ### The tables at the end of the loop

Exactly the walks of the first `initPages` pages are present, with the flags of `vmm_init`. -/

section Full

variable (hI : Inv seg s) (hW : Within pml4 (selfKeys 0 initPages) s.mem)
  (hfull : ∀ p < initPages, (slotAt s.mem pml4 3 p).isSome)

include hI hW hfull

/-- One frame is taken for every table: no more than there are entries that link one, and no
fewer. -/
theorem Inv.frames_init : s.next - seg.base = 3079 := by
  have hpos : 0 < initPages := by rw [initPages_eq]; norm_num
  have hle : initPages ≤ 512 ^ 4 := by rw [initPages_eq]; norm_num
  rw [← card_tablesBelow_init]
  refine Nat.le_antisymm (hI.frames_le fun ℓ hℓ q hq hs => ?_) (hI.le_frames fun κ hκ => ?_)
  · exact (mem_tablesBelow hpos).mpr ⟨hℓ, hW ℓ q hℓ.le hq hs⟩
  · obtain ⟨hℓ, f, -, hf, -, hq⟩ := (mem_tablesBelow hpos).mp hκ
    rw [hq]
    exact ⟨hℓ, levelIdx_lt (by omega) hℓ.le, slotAt_isSome_of_leaf (hfull f hf) hℓ.le⟩

theorem Inv.ncard_tables_init {ℓ : ℕ} (hℓ : ℓ < 3) :
    {t | TableAt s.mem pml4 (ℓ + 1) t}.ncard = levelIdx 1572863 ℓ + 1 := by
  have hpos : 0 < initPages := by rw [initPages_eq]; norm_num
  have hle : initPages ≤ 512 ^ 4 := by rw [initPages_eq]; norm_num
  rw [hI.ncard_tables hpos hle hW hfull hℓ, initPages_eq]

omit hW in
/-- A page below 6 GiB is mapped with the flags of `vmm_init` at all four levels. -/
theorem Inv.walk_init (hF : Flagged pml4 initFlags s.mem) {a : Addr} (ha : a.toNat < 6 * gb) :
    ∃ t, walk s.mem pml4 a = some t ∧ t.page = pageStart a ∧
      ∀ e ∈ t.entries, present e = true ∧ writable e = true := by
  have h48 : a.toNat < 2 ^ 48 := by
    unfold gb at ha
    omega
  obtain ⟨t, ht, htpage⟩ := hI.walk_page h48 (hfull _ ((pfn_lt_initPages a).mpr ha))
  refine ⟨t, ht, htpage, fun e he => ?_⟩
  obtain ⟨ℓ, hℓ, rfl⟩ := Translation.mem_entries.mp he
  have hslot := walk_eq_some_iff.mp ht ℓ hℓ
  obtain ⟨-, -, -, hp⟩ := slotAt_eq_some.mp hslot
  have hflags := hF ℓ _ _ hℓ (levelIdx_lt (pfn_lt a h48) hℓ) hslot
  refine ⟨hp, ?_⟩
  rw [writable_eq, getLsbD_of_flagBits hflags (by omega)]
  decide

omit hI hfull in
/-- No other page is mapped. -/
theorem Within.walk_init {a : Addr} (ha : 6 * gb ≤ a.toNat) (hlt : a.toNat < 2 ^ 48) :
    walk s.mem pml4 a = none := by
  rw [walk_eq_none_iff, ← Option.not_isSome_iff_eq_none]
  intro hs
  obtain ⟨f, -, hf, -, hq⟩ := hW 3 _ le_rfl (pfn_lt a hlt) hs
  rw [levelIdx_three] at hq
  have hq : pfn a = f := hq
  exact absurd ((pfn_lt_initPages a).mp (hq ▸ hf)) (not_lt.mpr ha)

end Full

/-- The state at the end of the loop of `vmm_init`. -/
theorem initSpec_of_settled {es : List Event} (h : Settled seg s)
    (hW : Within pml4 (selfKeys 0 initPages) s.mem) (hF : Flagged pml4 initFlags s.mem)
    (hcr3 : s.cr3 = some pml4)
    (hfull : ∀ p < initPages, (slotAt s.mem pml4 3 p).isSome)
    (hallocs : allocated es = framesFrom seg.base s.next) : InitSpec pml4 es s where
  cr3 := hcr3
  frames := by rw [hallocs, length_framesFrom, h.toInv.frames_init hW hfull]
  tables := by
    intro f
    rw [hallocs, mem_framesFrom]
    constructor
    · rintro ⟨t, hlo, hhi, rfl⟩
      obtain ⟨ℓ, hℓ, q, hq, ht⟩ := h.covered t hlo hhi
      exact ⟨ℓ, t, (tableAt_iff (by omega)).mpr ⟨q, hq, ht⟩, rfl⟩
    · rintro ⟨ℓ, t, ht, rfl⟩
      have hℓ := ht.le
      obtain ⟨q, hq, ht⟩ := (tableAt_iff hℓ).mp ht
      obtain ⟨hlo, hhi⟩ := h.inside ℓ (by omega) q hq t ht
      exact ⟨t, hlo, hhi, rfl⟩
  pdpts := h.toInv.ncard_tables_init hW hfull (ℓ := 0) (by omega)
  pds := h.toInv.ncard_tables_init hW hfull (ℓ := 1) (by omega)
  pts := h.toInv.ncard_tables_init hW hfull (ℓ := 2) (by omega)
  mapped _ ha := h.toInv.walk_init hfull hF ha
  unmapped _ ha hlt := Within.walk_init hW ha hlt

/-- **`vmm_init` end to end**: a segment of 3079 pages below 6 GiB is what it takes to map the
first 6 GiB and nothing else. -/
theorem vmmInit_spec (hpml4 : pml4.toNat % pageSize = 0)
    (haligned : (chosenSegment s meminfo).physAddr.toNat % pageSize = 0)
    (hbelow : (chosenSegment s meminfo).stop ≤ 6 * gb)
    (hapart : ∀ x, (chosenSegment s meminfo).Contains x → ¬ InPml4 pml4 x) :
    (3079 ≤ (chosenSegment s meminfo).nPages.toNat → ∃ s' es,
      (vmmInit pml4 meminfo).run s = .ok () s' ∧ s'.trace = s.trace ++ es ∧
        InitSpec pml4 es s') ∧
      ((chosenSegment s meminfo).nPages.toNat < 3079 → ∃ s',
        (vmmInit pml4 meminfo).run s = .error .outOfMemory s' ∧ s'.cr3 = s.cr3) := by
  have hbelow' : (chosenSegment s meminfo).stop ≤ 2 ^ 48 := hbelow.trans (by decide)
  have hfresh := fresh_started hpml4 haligned hbelow' hapart
  set seg := Segment.ofDesc _ hpml4 haligned hbelow' hapart with hseg
  have hend : seg.base + seg.pages ≤ initPages := by
    rw [initPages_eq]
    show pfn (chosenSegment s meminfo).physAddr + (chosenSegment s meminfo).nPages.toNat ≤ _
    unfold MemDesc.stop gb at hbelow
    unfold pfn
    unfold pageSize at *
    omega
  rw [vmmInit_run (ne_deadbeef haligned)]
  cases hrun : (mapPages pml4 initCalls).run (s.started pml4 meminfo) with
  | ok u s₁ =>
    obtain ⟨hsettled, hle, es, htrace, hallocs⟩ :=
      mapPages_allocs callsOk_initCalls hfresh.settled hrun
    have hF₁ := flagged_mapPages callsOk_initCalls initCalls_flags hfresh.settled
      (hfresh.flagged _) hrun
    have hW₁ : Within pml4 (selfKeys 0 initPages) s₁.mem := by
      refine (within_mapPages callsOk_initCalls initCalls_below hfresh.settled subset_rfl
        (hfresh.within _) hrun).mono (Set.union_subset subset_rfl ?_)
      rintro κ ⟨f, -, hf, hκ⟩
      exact ⟨f, Nat.zero_le f, by have := hsettled.next_le; omega, hκ⟩
    have hfull := initCalls_present hfresh.settled hrun
    have hspec : InitSpec pml4 (zeroing pml4 ++ es) { s₁ with cr3 := some pml4 } := by
      refine initSpec_of_settled (hsettled.setCr3 _) hW₁ hF₁ rfl hfull ?_
      rw [allocated_append, allocated_zeroing, List.nil_append, hallocs, hfresh.next_eq]
      rfl
    rw [run_bind_of_ok hrun, loadPml4_run]
    refine ⟨fun _ => ⟨_, zeroing pml4 ++ es, rfl, ?_, hspec⟩, fun hlt => ?_⟩
    · rw [← List.append_assoc, ← started_trace s pml4 meminfo]
      exact htrace
    · -- All 3079 tables have been taken from the segment.
      have hframes := hspec.frames
      have hnext := hsettled.next_le
      have hpages : seg.pages = (chosenSegment s meminfo).nPages.toNat := rfl
      rw [allocated_append, allocated_zeroing, List.nil_append, hallocs, length_framesFrom,
        hfresh.next_eq] at hframes
      omega
  | error e s₁ =>
    obtain ⟨rfl, hlt, hcr3⟩ := mapPages_error_below callsOk_initCalls initCalls_below
      hfresh.settled hend (hfresh.within _) hrun
    rw [card_tablesBelow_init] at hlt
    rw [run_bind_of_error hrun]
    exact ⟨fun hge => absurd hlt (Nat.not_lt.mpr hge),
      fun _ => ⟨s₁, rfl, hcr3.trans (started_cr3 ..)⟩⟩

/-- A machine whose memory has one segment, of 4096 pages at 4 MiB. -/
def lowMachine : Vmm := bootState (oneSegmentMem 0x400000#64 4096#64)

theorem chosenSegment_lowMachine :
    chosenSegment lowMachine oneSegmentInfo = ⟨7, 0x400000#64, 0, 4096#64, 0⟩ := by decide

theorem lowMachine_aligned :
    (chosenSegment lowMachine oneSegmentInfo).physAddr.toNat % pageSize = 0 := by
  rw [chosenSegment_lowMachine]
  decide

theorem lowMachine_stop : (chosenSegment lowMachine oneSegmentInfo).stop ≤ 6 * gb := by
  rw [chosenSegment_lowMachine]
  decide

theorem lowMachine_below : (chosenSegment lowMachine oneSegmentInfo).stop ≤ 2 ^ 48 :=
  lowMachine_stop.trans (by decide)

theorem lowMachine_apart :
    ∀ x, (chosenSegment lowMachine oneSegmentInfo).Contains x → ¬ InPml4 0x200000#64 x := by
  rw [chosenSegment_lowMachine]
  exact MemDesc.not_inPml4 (by decide)

/-- It has frames enough. -/
theorem vmmInit_spec_small :
    ∃ s' es, (vmmInit 0x200000#64 oneSegmentInfo).run
        (bootState (oneSegmentMem 0x400000#64 4096#64)) = .ok () s' ∧
      s'.trace = [] ++ es ∧ InitSpec 0x200000#64 es s' := by
  have hpages : 3079 ≤ (chosenSegment lowMachine oneSegmentInfo).nPages.toNat := by
    rw [chosenSegment_lowMachine]
    decide
  exact (vmmInit_spec (by decide) lowMachine_aligned lowMachine_stop lowMachine_apart).1 hpages

/-! ### The state that `vmm_init` leaves -/

/-- The state after `vmm_init` and any later calls with the same flags. -/
structure Live {pml4 : Addr} (seg : Segment pml4) (s : Vmm) : Prop extends Settled seg s where
  cr3 : s.cr3 = some pml4
  flagged : Flagged pml4 initFlags s.mem
  first : ∀ p < initPages, (slotAt s.mem pml4 3 p).isSome

theorem vmmInit_ok (hpml4 : pml4.toNat % pageSize = 0)
    (haligned : (chosenSegment s meminfo).physAddr.toNat % pageSize = 0)
    (hbelow : (chosenSegment s meminfo).stop ≤ 2 ^ 48)
    (hapart : ∀ x, (chosenSegment s meminfo).Contains x → ¬ InPml4 pml4 x)
    (hrun : (vmmInit pml4 meminfo).run s = .ok () s') :
    Live (Segment.ofDesc _ hpml4 haligned hbelow hapart) s' ∧
      Within pml4 (selfKeys 0 initPages ∪ selfKeys (pfn (chosenSegment s meminfo).physAddr) s'.next)
        s'.mem := by
  have hfresh := fresh_started hpml4 haligned hbelow hapart
  rw [vmmInit_run (ne_deadbeef haligned)] at hrun
  obtain ⟨u, s₁, hloop, hload⟩ := run_bind_eq_ok.mp hrun
  obtain ⟨-, rfl⟩ := (Result.ok.injEq ..).mp ((loadPml4_run pml4 s₁).symm.trans hload)
  obtain ⟨hsettled, -⟩ := mapPages_allocs callsOk_initCalls hfresh.settled hloop
  have hW := within_mapPages callsOk_initCalls initCalls_below hfresh.settled subset_rfl
    (hfresh.within _) hloop
  have hF := flagged_mapPages callsOk_initCalls initCalls_flags hfresh.settled (hfresh.flagged _)
    hloop
  have hfull := initCalls_present hfresh.settled hloop
  exact ⟨⟨hsettled.setCr3 _, rfl, hF, hfull⟩, hW⟩

/-- What is outside the segment is left alone, but for `pml4`. -/
theorem vmmInit_mem (hpml4 : pml4.toNat % pageSize = 0)
    (haligned : (chosenSegment s meminfo).physAddr.toNat % pageSize = 0)
    (hbelow : (chosenSegment s meminfo).stop ≤ 2 ^ 48)
    (hapart : ∀ x, (chosenSegment s meminfo).Contains x → ¬ InPml4 pml4 x)
    (hrun : (vmmInit pml4 meminfo).run s = .ok () s') {f : ℕ} (hroot : f ≠ pfn pml4)
    (hseg : ¬ (pfn (chosenSegment s meminfo).physAddr ≤ f ∧
      f < pfn (chosenSegment s meminfo).physAddr + (chosenSegment s meminfo).nPages.toNat)) :
    s'.mem f = s.mem f := by
  have hfresh := fresh_started hpml4 haligned hbelow hapart
  rw [vmmInit_run (ne_deadbeef haligned)] at hrun
  obtain ⟨u, s₁, hloop, hload⟩ := run_bind_eq_ok.mp hrun
  obtain ⟨-, rfl⟩ := (Result.ok.injEq ..).mp ((loadPml4_run pml4 s₁).symm.trans hload)
  refine (mapPages_mem callsOk_initCalls hfresh.settled hroot hseg hloop).trans ?_
  have haligned : pml4.toNat = pageSize * pfn pml4 := by
    rw [pfn, Nat.mul_div_cancel' (Nat.dvd_of_mod_eq_zero hpml4)]
  rw [Vmm.started, recordAll_mem, replay_zeroing haligned, Function.update_of_ne hroot]
  rfl

/-- Wherever the segment lies, `vmm_init` returns if there is a frame for every table of the
pages below its end. -/
theorem vmmInit_returns (hpml4 : pml4.toNat % pageSize = 0)
    (haligned : (chosenSegment s meminfo).physAddr.toNat % pageSize = 0)
    (hbelow : (chosenSegment s meminfo).stop ≤ 2 ^ 48)
    (hapart : ∀ x, (chosenSegment s meminfo).Contains x → ¬ InPml4 pml4 x)
    (hinit : initPages ≤ hi) (hend : pfn (chosenSegment s meminfo).physAddr +
      (chosenSegment s meminfo).nPages.toNat ≤ hi)
    (henough : (tablesBelow hi).card ≤ (chosenSegment s meminfo).nPages.toNat) :
    ∃ s', (vmmInit pml4 meminfo).run s = .ok () s' := by
  have hfresh := fresh_started hpml4 haligned hbelow hapart
  obtain ⟨s₁, hloop⟩ := mapPages_returns callsOk_initCalls
    (fun call hcall => (initCalls_below call hcall).trans_le hinit) hfresh.settled hend
    (hfresh.within _) henough
  rw [vmmInit_run (ne_deadbeef haligned), run_bind_of_ok hloop, loadPml4_run]
  exact ⟨_, rfl⟩

theorem Live.step {addr : Addr} (h : Live seg s) (haddr : addr.toNat < 2 ^ 48)
    (hrun : (mapPage pml4 addr initFlags).run s = .ok () s') : Live seg s' := by
  have hmaps := mapPage_ok h.toInv haddr (by decide) hrun
  refine ⟨h.toSettled.step haddr (by decide) hrun, hmaps.2.cr3.trans h.cr3,
    h.flagged.extends hmaps.2, fun p hp => ?_⟩
  obtain ⟨e, he⟩ := Option.isSome_iff_exists.mp (h.first p hp)
  rw [hmaps.2.keep 3 p e le_rfl (by have := initPages_lt hp; omega) he]
  rfl

end KessOS
