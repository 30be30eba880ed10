import KessOS.Vmm.Equiv.Init
import KessOS.Vmm.Equiv.Order

/-!
# What `vmm_init` maps

Once `vmm_init` has returned, a byte is mapped to itself if, and only if, it lies below 6 GiB or in
one of the frames that were taken for tables (`vmmInit_maps_iff`).
-/

namespace KessOS

open EStateM

variable {pml4 : Addr} {seg : Segment pml4} {s s' : Vmm} {meminfo : MemInfo} {m : PhysMem}

/-! ### Addresses that are too long -/

/-- The 48 bits of an address that the walk looks at. -/
def low48 (a : Addr) : Addr := BitVec.ofNat 64 (a.toNat % 2 ^ 48)

theorem toNat_low48 (a : Addr) : (low48 a).toNat = a.toNat % 2 ^ 48 := by
  rw [low48, BitVec.toNat_ofNat]
  omega

theorem tableIdx_low48 (a : Addr) {ℓ : ℕ} (hℓ : ℓ ≤ 3) :
    tableIdx (low48 a) (39 - 9 * ℓ) = tableIdx a (39 - 9 * ℓ) := by
  rw [tableIdx_eq _ hℓ, tableIdx_eq _ hℓ]
  apply Fin.ext
  show levelIdx (pfn (low48 a)) ℓ % 512 = levelIdx (pfn a) ℓ % 512
  unfold levelIdx pfn pageSize
  rw [toNat_low48]
  interval_cases ℓ
  · omega
  · omega
  · omega
  · omega

theorem walk_low48 (m : PhysMem) (pml4 a : Addr) : walk m pml4 (low48 a) = walk m pml4 a := by
  unfold walk
  rw [tableIdx_low48 a (ℓ := 0) (by omega), tableIdx_low48 a (ℓ := 1) (by omega),
    tableIdx_low48 a (ℓ := 2) (by omega), tableIdx_low48 a (ℓ := 3) (by omega)]

/-- An address that is too long is never mapped to itself: the walk ends below 2^48. -/
theorem identity_lt (hI : Inv seg s) {b : Addr} (h : Identity s.mem pml4 b) : b.toNat < 2 ^ 48 := by
  obtain ⟨t, ht, hpage⟩ := h
  have hlow : (low48 b).toNat < 2 ^ 48 := by
    rw [toNat_low48]
    exact Nat.mod_lt _ (by positivity)
  rw [← walk_low48] at ht
  obtain ⟨t', ht', hpage'⟩ := hI.walk_page hlow (walk_isSome_iff.mp (Option.isSome_of_eq_some ht))
  obtain rfl := Option.some.inj (ht.symm.trans ht')
  have hpfn := congrArg BitVec.toNat (hpage.symm.trans hpage')
  rw [toNat_pageStart, toNat_pageStart] at hpfn
  unfold pfn pageSize at hpfn
  omega

/-! ### The pages that are mapped -/

theorem pagesOf_initCalls : pagesOf initCalls = Finset.range initPages := by
  ext p
  rw [mem_pagesOf, Finset.mem_range]
  constructor
  · rintro ⟨call, hcall, rfl⟩
    exact initCalls_below call hcall
  · intro hp
    exact ⟨_, mem_initCalls.mpr ⟨p, hp, rfl⟩, pfn_frameAddr (initPages_lt hp)⟩

theorem identity_iff_isSome (hI : Inv seg s) {b : Addr} (hb : b.toNat < 2 ^ 48) :
    Identity s.mem pml4 b ↔ (slotAt s.mem pml4 3 (pfn b)).isSome := by
  constructor
  · rintro ⟨t, ht, -⟩
    exact walk_isSome_iff.mp (Option.isSome_of_eq_some ht)
  · exact hI.walk_page hb

/-- The bytes of some frames from a page boundary on. -/
theorem pfn_mem_frames_iff {a b : Addr} (haligned : a.toNat % pageSize = 0) (n : ℕ) :
    (pfn a ≤ pfn b ∧ pfn b < pfn a + n) ↔
      (a.toNat ≤ b.toNat ∧ b.toNat < a.toNat + pageSize * n) := by
  unfold pfn pageSize at *
  omega

/-- The frames that `vmm_init` takes for tables. -/
noncomputable def initFrames (base : ℕ) : ℕ := framesFor (Finset.range initPages) base

section

variable (hpml4 : pml4.toNat % pageSize = 0)
  (haligned : (chosenSegment s meminfo).physAddr.toNat % pageSize = 0)
  (hbelow : (chosenSegment s meminfo).stop ≤ 2 ^ 48)
  (hapart : ∀ x, (chosenSegment s meminfo).Contains x → ¬ InPml4 pml4 x)
  (hrun : (vmmInit pml4 meminfo).run s = .ok () s')

include hpml4 haligned hbelow hapart hrun

/-- They are frames of the segment. -/
theorem initFrames_le :
    initFrames (pfn (chosenSegment s meminfo).physAddr) ≤
      (chosenSegment s meminfo).nPages.toNat := by
  have hfresh := fresh_started hpml4 haligned hbelow hapart
  rw [vmmInit_run (ne_deadbeef haligned)] at hrun
  obtain ⟨u, s₁, hloop, -⟩ := run_bind_eq_ok.mp hrun
  obtain ⟨hsettled, -⟩ := mapPages_allocs callsOk_initCalls hfresh.settled hloop
  have hnext := mapPages_next hfresh callsOk_initCalls hloop
  rw [initFrames, ← pagesOf_initCalls]
  exact Nat.le_of_add_le_add_left (hnext.symm.le.trans hsettled.next_le)

/-- **What `vmm_init` maps**: the bytes below 6 GiB, and those of the frames it takes from its
segment. -/
theorem vmmInit_maps_iff (b : Addr) :
    s'.Maps b ↔ b.toNat < 6 * gb ∨
      ((chosenSegment s meminfo).physAddr.toNat ≤ b.toNat ∧
        b.toNat < (chosenSegment s meminfo).physAddr.toNat +
          pageSize * initFrames (pfn (chosenSegment s meminfo).physAddr)) := by
  have hfresh := fresh_started hpml4 haligned hbelow hapart
  have hframes := initFrames_le hpml4 haligned hbelow hapart hrun
  rw [vmmInit_run (ne_deadbeef haligned)] at hrun
  obtain ⟨u, s₁, hloop, hload⟩ := run_bind_eq_ok.mp hrun
  obtain ⟨-, rfl⟩ := (Result.ok.injEq ..).mp ((loadPml4_run pml4 s₁).symm.trans hload)
  obtain ⟨hsettled, -⟩ := mapPages_allocs callsOk_initCalls hfresh.settled hloop
  have hnext := mapPages_next hfresh callsOk_initCalls hloop
  have hroot : Vmm.Maps { s₁ with cr3 := some pml4 } b ↔ Identity s₁.mem pml4 b :=
    ⟨fun ⟨_, hcr3, h⟩ => Option.some.inj hcr3 ▸ h, fun h => ⟨pml4, rfl, h⟩⟩
  rw [hroot]
  by_cases hb : b.toNat < 2 ^ 48
  · have hsome := mapPages_isSome_iff hfresh callsOk_initCalls hloop (pfn_lt b hb)
    rw [identity_iff_isSome hsettled.toInv hb, hsome, pagesOf_initCalls, Finset.mem_range,
      pfn_lt_initPages, hnext, pagesOf_initCalls]
    exact or_congr_right (pfn_mem_frames_iff haligned _)
  · refine iff_of_false (fun h => hb (identity_lt hsettled.toInv h)) ?_
    rw [← pfn_mem_frames_iff haligned]
    unfold MemDesc.stop at hbelow
    unfold gb
    unfold pfn pageSize at *
    omega

end

end KessOS
