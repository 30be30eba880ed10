import KessOS.Vmm.Equiv.Runs

/-!
# Starting the allocator

`set_alloc_base` picks the first of the largest usable descriptors of the memory map
(`biggestOf_spec`).  With `pml4` cleared after it, the allocator stands at the start of a fresh
segment, the one that `Segment.ofDesc` makes of the descriptor (`fresh_started`).
-/

namespace KessOS

open EStateM

variable {pml4 : Addr} {s : Vmm} {meminfo : MemInfo}

/-! ### The descriptor that is picked -/

/-- Adding a descriptor at the end of the map. -/
theorem biggestOf_append (start : MemDesc) (descs : List MemDesc) (d : MemDesc) :
    biggestOf start (descs ++ [d]) =
      if d.nPages > (biggestOf start descs).nPages ∧ d.type = mmapUsableMemory then d
      else biggestOf start descs := by
  simp [biggestOf]

/-- The descriptor picked is a usable one of the map, unless none has more pages than `start`,
and no usable one has more pages than it. -/
theorem biggestOf_spec (start : MemDesc) (descs : List MemDesc) :
    (biggestOf start descs = start ∨
      biggestOf start descs ∈ descs ∧ (biggestOf start descs).type = mmapUsableMemory) ∧
      ∀ d ∈ descs, d.type = mmapUsableMemory → d.nPages ≤ (biggestOf start descs).nPages := by
  -- The loop goes from the front, so the last descriptor is the one looked at last.
  induction descs using List.reverseRecOn with
  | nil => exact ⟨Or.inl rfl, fun d hd => absurd hd (List.not_mem_nil)⟩
  | append_singleton descs d ih =>
    obtain ⟨hpick, hmax⟩ := ih
    rw [biggestOf_append]
    split_ifs with hd
    · refine ⟨Or.inr ⟨List.mem_append_right _ (List.mem_singleton_self d), hd.2⟩, ?_⟩
      intro d' hd' husable
      rcases List.mem_append.mp hd' with hd' | hd'
      · exact BitVec.le_def.mpr ((BitVec.le_def.mp (hmax d' hd' husable)).trans
          (BitVec.lt_def.mp hd.1).le)
      · rw [List.mem_singleton.mp hd']
        exact BitVec.le_refl _
    · refine ⟨hpick.imp id fun h => ⟨List.mem_append_left _ h.1, h.2⟩, ?_⟩
      intro d' hd' husable
      rcases List.mem_append.mp hd' with hd' | hd'
      · exact hmax d' hd' husable
      · obtain rfl := List.mem_singleton.mp hd'
        exact BitVec.not_lt.mp fun hlt => hd ⟨hlt, husable⟩

/-- The segment that `set_alloc_base` settles on. -/
def chosenSegment (s : Vmm) (meminfo : MemInfo) : MemDesc :=
  biggestOf { s.biggestSegment with nPages := 0 } (memoryMap s.mem meminfo)

/-- Without a usable descriptor that has a page, the segment is empty. -/
theorem chosenSegment_mem (h : (chosenSegment s meminfo).nPages ≠ 0) :
    chosenSegment s meminfo ∈ memoryMap s.mem meminfo ∧
      (chosenSegment s meminfo).type = mmapUsableMemory := by
  rcases (biggestOf_spec { s.biggestSegment with nPages := 0 } (memoryMap s.mem meminfo)).1 with
    hstart | hmem
  · exact absurd (congrArg MemDesc.nPages hstart) h
  · exact hmem

namespace MemDesc

/-- The end of the memory that a descriptor is about. -/
def stop (d : MemDesc) : ℕ := d.physAddr.toNat + pageSize * d.nPages.toNat

/-- The byte `x` belongs to the memory that a descriptor is about. -/
def Contains (d : MemDesc) (x : ℕ) : Prop := d.physAddr.toNat ≤ x ∧ x < d.stop

/-- No byte belongs to both descriptors. -/
def Apart (d d' : MemDesc) : Prop := ∀ x, ¬ (d.Contains x ∧ d'.Contains x)

instance : Std.Symm Apart where
  symm _ _ h x hx := h x hx.symm

end MemDesc

/-- The byte `x` belongs to the static `pml4`. -/
def InPml4 (pml4 : Addr) (x : ℕ) : Prop := pml4.toNat ≤ x ∧ x < pml4.toNat + pageSize

/-- Memory above `pml4` is apart from it. -/
theorem MemDesc.not_inPml4 {d : MemDesc} (h : pml4.toNat + pageSize ≤ d.physAddr.toNat) :
    ∀ x, d.Contains x → ¬ InPml4 pml4 x := by
  rintro x ⟨hlo, -⟩ ⟨-, hhi⟩
  omega

/-- The descriptors are page-aligned, below 2^48 and pairwise disjoint, and the usable ones are
disjoint from `pml4`. -/
structure MemoryMapOk (pml4 : Addr) (descs : List MemDesc) : Prop where
  aligned : ∀ d ∈ descs, d.physAddr.toNat % pageSize = 0
  below : ∀ d ∈ descs, d.stop ≤ 2 ^ 48
  disjoint : descs.Pairwise MemDesc.Apart
  apart : ∀ d ∈ descs, d.type = mmapUsableMemory → ∀ x, d.Contains x → ¬ InPml4 pml4 x

/-- A byte belongs to one descriptor. -/
theorem MemoryMapOk.eq_of_contains {descs : List MemDesc} (h : MemoryMapOk pml4 descs)
    {d d' : MemDesc} (hd : d ∈ descs) (hd' : d' ∈ descs) {x : ℕ} (hx : d.Contains x)
    (hx' : d'.Contains x) : d = d' := by
  by_contra hne
  exact h.disjoint.forall hd hd' hne x ⟨hx, hx'⟩

/-- A page-aligned descriptor below 2^48 and apart from `pml4`, as a segment. -/
def Segment.ofDesc (d : MemDesc) (hpml4 : pml4.toNat % pageSize = 0)
    (haligned : d.physAddr.toNat % pageSize = 0) (hbelow : d.stop ≤ 2 ^ 48)
    (hapart : ∀ x, d.Contains x → ¬ InPml4 pml4 x) : Segment pml4 where
  base := pfn d.physAddr
  pages := d.nPages.toNat
  fits := by
    unfold MemDesc.stop at hbelow
    unfold pfn
    unfold pageSize at *
    omega
  apart := by
    rintro ⟨hlo, hhi⟩
    refine hapart pml4.toNat ⟨?_, ?_⟩ ⟨le_rfl, Nat.lt_add_of_pos_right (by decide)⟩
    · unfold pfn at hlo
      unfold pageSize at *
      omega
    · unfold MemDesc.stop
      unfold pfn at hhi
      unfold pageSize at *
      omega

/-! ### The start -/

/-- The state once `set_alloc_base` is done. -/
def Vmm.settle (s : Vmm) (meminfo : MemInfo) : Vmm :=
  { s with
    biggestSegment := chosenSegment s meminfo
    placement := (chosenSegment s meminfo).physAddr
    segmentUsable := (chosenSegment s meminfo).nPages }

/-- The state once `pml4` is cleared after that. -/
def Vmm.started (s : Vmm) (pml4 : Addr) (meminfo : MemInfo) : Vmm :=
  (s.settle meminfo).recordAll (zeroing pml4)

theorem setAllocBase_run (s : Vmm) (meminfo : MemInfo) :
    (setAllocBase meminfo).run s = .ok () (s.settle meminfo) := rfl

theorem start_run (s : Vmm) (meminfo : MemInfo) {α : Type} (f : VmmM α) :
    (do
      setAllocBase meminfo
      memzero pml4 pageSize
      f : VmmM α).run s = f.run (s.started pml4 meminfo) := by
  rw [Vmm.started, run_bind_of_ok (setAllocBase_run s meminfo),
    run_bind_of_ok (memzero_run pml4 _)]

theorem started_cr3 (s : Vmm) (pml4 : Addr) (meminfo : MemInfo) :
    (s.started pml4 meminfo).cr3 = s.cr3 := by
  rw [Vmm.started, recordAll_cr3]
  rfl

theorem started_trace (s : Vmm) (pml4 : Addr) (meminfo : MemInfo) :
    (s.started pml4 meminfo).trace = s.trace ++ zeroing pml4 := by
  rw [Vmm.started, recordAll_trace]
  rfl

theorem started_zeroed (hpml4 : pml4.toNat % pageSize = 0) (s : Vmm) (meminfo : MemInfo)
    (idx : Fin 512) : (s.started pml4 meminfo).mem (pfn pml4) idx = 0#64 := by
  have haligned : pml4.toNat = pageSize * pfn pml4 := by
    rw [pfn, Nat.mul_div_cancel' (Nat.dvd_of_mod_eq_zero hpml4)]
  rw [Vmm.started, recordAll_mem, replay_zeroing haligned, Function.update_self]

theorem fresh_started (hpml4 : pml4.toNat % pageSize = 0)
    (haligned : (chosenSegment s meminfo).physAddr.toNat % pageSize = 0)
    (hbelow : (chosenSegment s meminfo).stop ≤ 2 ^ 48)
    (hapart : ∀ x, (chosenSegment s meminfo).Contains x → ¬ InPml4 pml4 x) :
    Fresh (Segment.ofDesc _ hpml4 haligned hbelow hapart) (s.started pml4 meminfo) where
  zeroed := started_zeroed hpml4 s meminfo
  placement := by
    rw [Vmm.started, recordAll_placement]
    show (chosenSegment s meminfo).physAddr.toNat = pageSize * pfn _
    rw [pfn, Nat.mul_div_cancel' (Nat.dvd_of_mod_eq_zero haligned)]
  segmentUsable := by
    rw [Vmm.started, recordAll_segmentUsable]
    rfl

/-! ### A machine with one usable segment -/

/-- A memory whose frame 1 holds a memory map with one usable descriptor. -/
def oneSegmentMem (physAddr nPages : BitVec 64) : PhysMem := fun f idx =>
  if f = 1 then
    match idx.val with
    | 0 => 7#64
    | 1 => physAddr
    | 3 => nPages
    | _ => 0#64
  else 0#64

def oneSegmentInfo : MemInfo := ⟨0x1000#64, 48#64, 48#64⟩

end KessOS
