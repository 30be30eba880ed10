import KessOS.Vmm.Equiv.Init
import Mathlib.Data.List.MinMax

/-!
# The choice of the segment

The loop of `set_alloc_base` keeps the first of the largest usable descriptors that have a page
(`biggestOf_eq`).  When there is none, `biggestSegment` keeps the `physAddr` it had, and
`vmm_init` takes that for a placement unless it is `0xDEADBEEF`: only then does it stop before
its first call of `map_page` (`choosesSegment_iff`).
-/

namespace KessOS

open EStateM

variable {pml4 : Addr} {s s' : Vmm} {meminfo : MemInfo}

/-- A descriptor that the loop can pick. -/
def MemDesc.Eligible (d : MemDesc) : Prop := d.type = mmapUsableMemory ∧ 0 < d.nPages

instance (d : MemDesc) : Decidable d.Eligible := inferInstanceAs (Decidable (_ ∧ _))

/-- The first of the usable descriptors with the greatest `nPages`, if any has a page. -/
def firstLargest (descs : List MemDesc) : Option MemDesc :=
  (descs.filter (·.Eligible)).argmax fun d => d.nPages.toNat

/-- The segment is the first largest one, and without one `vmm_init` stops before it maps. -/
def ChoosesSegment (pml4 : Addr) (s : Vmm) (meminfo : MemInfo) : Prop :=
  match firstLargest (memoryMap s.mem meminfo) with
  | some d => ∃ s', (setAllocBase meminfo).run s = .ok () s' ∧
      s'.placement = d.physAddr ∧ s'.segmentUsable = d.nPages
  | none => (vmmInit pml4 meminfo).run s = .error .noUsableMemory (s.settle meminfo)

/-! ### The loop -/

theorem firstLargest_append (descs : List MemDesc) (d : MemDesc) :
    firstLargest (descs ++ [d]) =
      if d.Eligible then
        match firstLargest descs with
        | some c => if c.nPages < d.nPages then some d else some c
        | none => some d
      else firstLargest descs := by
  rw [firstLargest, List.filter_append, List.filter_singleton]
  by_cases hd : d.Eligible
  · rw [if_pos hd, decide_eq_true hd, cond_true, List.argmax_concat]
    cases hc : firstLargest descs with
    | none =>
      rw [firstLargest] at hc
      rw [hc]
    | some c =>
      rw [firstLargest] at hc
      rw [hc]
      simp only [BitVec.lt_def]
  · rw [if_neg hd, decide_eq_false hd, cond_false, List.append_nil, firstLargest]

/-- A descriptor with more pages than another is eligible if it is usable. -/
theorem MemDesc.eligible_of_lt {d c : MemDesc} (h : d.nPages > c.nPages) :
    d.Eligible ↔ d.type = mmapUsableMemory := by
  have hpos : 0 < d.nPages := by bv_omega
  exact and_iff_left hpos

/-- The loop, from a descriptor without pages. -/
theorem biggestOf_eq {start : MemDesc} (hstart : start.nPages = 0) (descs : List MemDesc) :
    biggestOf start descs = (firstLargest descs).getD start := by
  -- The loop goes from the front, so the last descriptor is the one looked at last.
  induction descs using List.reverseRecOn with
  | nil => rfl
  | append_singleton descs d ih =>
    rw [biggestOf_append, firstLargest_append, ih]
    by_cases hlt : d.nPages > ((firstLargest descs).getD start).nPages
    · by_cases husable : d.type = mmapUsableMemory
      · rw [if_pos ⟨hlt, husable⟩, if_pos ((d.eligible_of_lt hlt).mpr husable)]
        cases hc : firstLargest descs with
        | none => rfl
        | some c =>
          rw [hc, Option.getD_some] at hlt
          show d = Option.getD (if d.nPages > c.nPages then some d else some c) start
          rw [if_pos hlt, Option.getD_some]
      · rw [if_neg fun h => husable h.2,
          if_neg fun h => husable ((d.eligible_of_lt hlt).mp h)]
    · rw [if_neg fun h => hlt h.1]
      by_cases hd : d.Eligible
      · rw [if_pos hd]
        cases hc : firstLargest descs with
        | none =>
          rw [hc, Option.getD_none, hstart] at hlt
          exact absurd hd.2 hlt
        | some c =>
          rw [hc, Option.getD_some] at hlt
          show c = Option.getD (if d.nPages > c.nPages then some d else some c) start
          rw [if_neg hlt, Option.getD_some]
      · rw [if_neg hd]

theorem chosenSegment_eq (s : Vmm) (meminfo : MemInfo) :
    chosenSegment s meminfo = (firstLargest (memoryMap s.mem meminfo)).getD
      { s.biggestSegment with nPages := 0 } :=
  biggestOf_eq rfl _

/-! ### The errors of `vmm_init` -/

theorem raisesOnly_ensureTable {rec : Addr → BitVec 32 → VmmM Unit} {P : Stop → Prop}
    (hP : P .outOfMemory) (hrec : ∀ a f, RaisesOnly P (rec a f)) (table : Addr) (idx : Fin 512)
    (flags : BitVec 32) : RaisesOnly P (ensureTable rec table idx flags) := by
  intro s e s' herr
  rw [ensureTable_run] at herr
  split_ifs at herr with hpres hfree
  · cases herr
    exact hP
  · cases hrun : (rec s.placement flags).run
        ((s.record (.read table idx)).linkFresh table idx flags) with
    | ok u s₂ =>
      rw [hrun] at herr
      cases herr
    | error e₂ s₂ =>
      rw [hrun] at herr
      cases herr
      exact hrec _ _ _ _ _ hrun

theorem raisesOnly_mapPageNested {P : Stop → Prop} (hmem : P .outOfMemory)
    (hfuel : P .outOfFuel) (pml4 : Addr) (fuel : ℕ) (logical : Addr) (flags : BitVec 32) :
    RaisesOnly P (mapPageNested pml4 fuel logical flags) := by
  induction fuel generalizing logical flags with
  | zero => exact raisesOnly_throw hfuel
  | succ fuel ih =>
    have hlevel := raisesOnly_ensureTable hmem ih
    have hload : ∀ table idx, RaisesOnly P (loadEntry table idx) := fun table idx =>
      raisesOnly_of_ok fun s => ⟨_, _, loadEntry_run table idx s⟩
    have hstore : ∀ table idx e, RaisesOnly P (storeEntry table idx e) := fun table idx e =>
      raisesOnly_of_ok fun s => ⟨_, _, storeEntry_run table idx e s⟩
    rw [mapPageNested]
    refine (hlevel _ _ _).bind fun pdpt => (hlevel _ _ _).bind fun pdt =>
      (hlevel _ _ _).bind fun pt => (hload _ _).bind fun e => RaisesOnly.ite (hstore _ _ _) ?_
    exact raisesOnly_of_ok fun s => ⟨_, s, rfl⟩

theorem raisesOnly_mapPage {P : Stop → Prop} (hmem : P .outOfMemory) (hfuel : P .outOfFuel)
    (pml4 logical : Addr) (flags : BitVec 32) : RaisesOnly P (mapPage pml4 logical flags) := by
  have hget : RaisesOnly P (get : VmmM Vmm) := raisesOnly_of_ok fun s => ⟨_, s, rfl⟩
  exact hget.bind fun s => raisesOnly_mapPageNested hmem hfuel _ _ _ _

/-- Without the sentinel `vmm_init` does not take its panic branch. -/
theorem vmmInit_ne_noUsableMemory (hne : (chosenSegment s meminfo).physAddr ≠ 0xDEADBEEF#64) :
    (vmmInit pml4 meminfo).run s ≠ .error .noUsableMemory s' := by
  have hraises : RaisesOnly (· ≠ .noUsableMemory)
      (mapPages pml4 initCalls >>= fun _ => loadPml4 pml4) := by
    rw [initCalls, ← forM_mapPage]
    refine RaisesOnly.bind (raisesOnly_forM fun a _ => ?_) fun _ => ?_
    · exact raisesOnly_mapPage (by decide) (by decide) _ _ _
    · exact raisesOnly_of_ok fun s => ⟨_, _, loadPml4_run pml4 s⟩
  intro hrun
  rw [vmmInit_run hne] at hrun
  exact hraises _ _ _ hrun rfl

/-- With it `vmm_init` stops right after `set_alloc_base`. -/
theorem vmmInit_of_deadbeef (h : (chosenSegment s meminfo).physAddr = 0xDEADBEEF#64) :
    (vmmInit pml4 meminfo).run s = .error .noUsableMemory (s.settle meminfo) := by
  have hget : (get : VmmM Vmm).run (s.settle meminfo) = .ok (s.settle meminfo) _ := rfl
  have h' : (s.settle meminfo).placement = 0xDEADBEEF#64 := h
  unfold vmmInit
  rw [run_bind_of_ok (setAllocBase_run s meminfo), run_bind_of_ok hget, if_pos h']
  rfl

/-! ### The choice -/

/-- The segment is chosen right exactly when some usable descriptor has a page or
`biggestSegment` held the sentinel before. -/
theorem choosesSegment_iff (pml4 : Addr) (s : Vmm) (meminfo : MemInfo) :
    ChoosesSegment pml4 s meminfo ↔
      (∃ d ∈ memoryMap s.mem meminfo, d.type = mmapUsableMemory ∧ 0 < d.nPages) ∨
        s.biggestSegment.physAddr = 0xDEADBEEF#64 := by
  have hchosen := chosenSegment_eq s meminfo
  unfold ChoosesSegment
  cases hfirst : firstLargest (memoryMap s.mem meminfo) with
  | some d =>
    rw [hfirst, Option.getD_some] at hchosen
    have hd : d ∈ (memoryMap s.mem meminfo).filter (·.Eligible) := List.argmax_mem hfirst
    obtain ⟨hmem, heligible⟩ := List.mem_filter.mp hd
    refine iff_of_true ⟨_, setAllocBase_run s meminfo, ?_, ?_⟩
      (Or.inl ⟨d, hmem, of_decide_eq_true heligible⟩)
    · rw [← hchosen]
      rfl
    · rw [← hchosen]
      rfl
  | none =>
    rw [hfirst, Option.getD_none] at hchosen
    have hempty : (memoryMap s.mem meminfo).filter (·.Eligible) = [] :=
      List.argmax_eq_none.mp hfirst
    have hnone : ¬ ∃ d ∈ memoryMap s.mem meminfo, d.type = mmapUsableMemory ∧ 0 < d.nPages := by
      rintro ⟨d, hd, heligible⟩
      exact List.filter_eq_nil_iff.mp hempty d hd (decide_eq_true heligible)
    rw [or_iff_right hnone]
    have hphys : (chosenSegment s meminfo).physAddr = s.biggestSegment.physAddr := by
      rw [hchosen]
    constructor
    · intro hrun
      by_contra hne
      exact vmmInit_ne_noUsableMemory (hphys ▸ hne) hrun
    · exact fun h => vmmInit_of_deadbeef (hphys.trans h)

/-- A machine whose map has one descriptor, of 16 reserved pages. -/
def reservedMachine : Vmm := bootState fun f idx => if f = 1 ∧ idx.val = 3 then 16#64 else 0#64

/-- At boot `biggestSegment` is zero, and it goes unnoticed that no memory is usable. -/
theorem not_choosesSegment_reserved :
    ¬ ChoosesSegment 0x200000#64 reservedMachine oneSegmentInfo := by
  intro h
  have hnone : firstLargest (memoryMap reservedMachine.mem oneSegmentInfo) = none := by decide
  have hchosen : (chosenSegment reservedMachine oneSegmentInfo).physAddr ≠ 0xDEADBEEF#64 := by
    decide
  rw [ChoosesSegment, hnone] at h
  exact vmmInit_ne_noUsableMemory hchosen h

end KessOS
