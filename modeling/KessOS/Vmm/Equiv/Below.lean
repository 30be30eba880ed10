import KessOS.Vmm.Equiv.Runs
import Mathlib.Algebra.BigOperators.Group.Finset.Basic

/-!
# The tables of the first pages

As long as the calls and the segment stay below page `hi`, every entry that comes into being is
on the walk of one of these pages (`Within`), whether a call or a nested call gets there first.
So the tables taken are among those of `tablesBelow hi`, and a segment with as many frames as
there are such tables is never used up (`mapPages_error_below`).
-/

namespace KessOS

open EStateM

variable {pml4 : Addr} {seg : Segment pml4} {flags : BitVec 32} {s s' : Vmm}
  {calls : List (Addr × BitVec 32)} {hi : ℕ}

/-! ### The tables of the first pages -/

/-- The entries at one level on the walks of the pages below `hi`. -/
theorem mem_selfKeys_zero {ℓ q : ℕ} (hpos : 0 < hi) (hℓ : ℓ ≤ 3) :
    (ℓ, q) ∈ selfKeys 0 hi ↔ q < levelIdx (hi - 1) ℓ + 1 := by
  rw [mem_selfKeys, Nat.lt_succ_iff]
  constructor
  · rintro ⟨f, -, hf, -, hq⟩
    obtain rfl : q = levelIdx f ℓ := hq
    exact Nat.div_le_div_right (by omega)
  · intro hq
    -- The first page below entry `q` is below `hi`.
    have hle : q * 512 ^ (3 - ℓ) ≤ hi - 1 := (Nat.le_div_iff_mul_le (by positivity)).mp hq
    refine ⟨q * 512 ^ (3 - ℓ), Nat.zero_le _, by omega, hℓ, ?_⟩
    exact (Nat.mul_div_cancel q (by positivity)).symm

/-- The upper entries on the walks of the pages below `hi`. -/
def tablesBelow (hi : ℕ) : Finset (ℕ × ℕ) :=
  (Finset.range 3).biUnion fun ℓ => (Finset.range (levelIdx (hi - 1) ℓ + 1)).image (Prod.mk ℓ)

theorem mem_tablesBelow {ℓ q : ℕ} (hpos : 0 < hi) :
    (ℓ, q) ∈ tablesBelow hi ↔ ℓ < 3 ∧ (ℓ, q) ∈ selfKeys 0 hi := by
  simp only [tablesBelow, Finset.mem_biUnion, Finset.mem_range, Finset.mem_image, Prod.mk.injEq]
  constructor
  · rintro ⟨k, hk, r, hr, rfl, rfl⟩
    exact ⟨hk, (mem_selfKeys_zero hpos hk.le).mpr hr⟩
  · rintro ⟨hℓ, hq⟩
    exact ⟨ℓ, hℓ, q, (mem_selfKeys_zero hpos hℓ.le).mp hq, rfl, rfl⟩

theorem card_tablesBelow (hi : ℕ) :
    (tablesBelow hi).card = ∑ ℓ ∈ Finset.range 3, (levelIdx (hi - 1) ℓ + 1) := by
  rw [tablesBelow, Finset.card_biUnion]
  · refine Finset.sum_congr rfl fun ℓ _ => ?_
    rw [Finset.card_image_of_injective _ (Prod.mk_right_injective ℓ), Finset.card_range]
  · intro ℓ _ k _ hne
    rw [Function.onFun, Finset.disjoint_left]
    rintro κ hκ hκ'
    obtain ⟨q, -, rfl⟩ := Finset.mem_image.mp hκ
    obtain ⟨r, -, heq⟩ := Finset.mem_image.mp hκ'
    exact hne (Prod.mk.inj heq).1.symm

/-! ### Entries on given walks -/

/-- Every entry is one of `K`. -/
def Within (pml4 : Addr) (K : Set (ℕ × ℕ)) (m : PhysMem) : Prop :=
  ∀ ℓ q, ℓ ≤ 3 → q < 512 ^ (ℓ + 1) → (slotAt m pml4 ℓ q).isSome → (ℓ, q) ∈ K

theorem Within.mono {K K' : Set (ℕ × ℕ)} {m : PhysMem} (h : Within pml4 K m) (hK : K ⊆ K') :
    Within pml4 K' m :=
  fun ℓ q hℓ hq hs => hK (h ℓ q hℓ hq hs)

theorem Within.extends {K Δ : Set (ℕ × ℕ)} (h : Within pml4 K s.mem)
    (hE : Extends seg flags Δ s s') (hΔ : Δ ⊆ K) : Within pml4 K s'.mem := by
  intro ℓ q hℓ hq hs
  rcases (hE.isSome_iff hℓ hq).mp hs with hold | hnew
  · exact h ℓ q hℓ hq hold
  · exact hΔ hnew

/-- A clear `pml4` has no entry. -/
theorem Fresh.within (h : Fresh seg s) (K : Set (ℕ × ℕ)) : Within pml4 K s.mem := by
  intro ℓ q _ _ hs
  rw [slotAt_of_zeroed h.zeroed] at hs
  cases hs

theorem neededKeys_subset {p lo m : ℕ} (hp : p < hi) (hm : m ≤ hi) :
    neededKeys p lo m ⊆ selfKeys 0 hi := by
  rintro κ (hκ | ⟨f, -, hf, hκ⟩)
  · exact ⟨p, Nat.zero_le p, hp, hκ⟩
  · exact ⟨f, Nat.zero_le f, by omega, hκ⟩

/-- The frames taken are no more than the upper entries there are. -/
theorem Inv.frames_le (hI : Inv seg s) {U : Finset (ℕ × ℕ)}
    (hU : ∀ ℓ < 3, ∀ q < 512 ^ (ℓ + 1), (slotAt s.mem pml4 ℓ q).isSome → (ℓ, q) ∈ U) :
    s.next - seg.base ≤ U.card := by
  refine (Nat.card_Ico ..).ge.trans (Radix.card_le_of_covers child (m := s.mem)
    (r := pfn pml4) (S := Finset.Ico seg.base s.next) fun f hf => ?_)
  obtain ⟨hlo, hhi⟩ := Finset.mem_Ico.mp hf
  obtain ⟨ℓ, hℓ, q, hq, hnode⟩ := hI.covered f hlo hhi
  obtain ⟨e, he, -⟩ := nodeAt_succ_eq_some.mp hnode
  exact ⟨(ℓ, q), hU ℓ hℓ q hq (Option.isSome_of_eq_some he), hnode⟩

/-- The frames taken are no fewer than the upper entries there are. -/
theorem Inv.le_frames (hI : Inv seg s) {U : Finset (ℕ × ℕ)}
    (hU : ∀ κ ∈ U, κ.1 < 3 ∧ κ.2 < 512 ^ (κ.1 + 1) ∧ (slotAt s.mem pml4 κ.1 κ.2).isSome) :
    U.card ≤ s.next - seg.base := by
  refine (Radix.card_le_of_present (S := Finset.Ico seg.base s.next) hI.distinct hU ?_).trans
    (Nat.card_Ico ..).le
  intro κ hκ f hf
  exact Finset.mem_Ico.mpr (hI.inside κ.1 (hU κ hκ).1 κ.2 (hU κ hκ).2.1 f hf)

/-- A table can only be missing while fewer frames are taken than there are tables. -/
theorem ShortAt.lt_card (hW : Within pml4 (selfKeys 0 hi) s.mem) {p m : ℕ} (hp : p < hi)
    (hm : m ≤ hi) (h : ShortAt seg flags p s m) : m - seg.base < (tablesBelow hi).card := by
  obtain ⟨t, Δ, rfl, hI, hE, hΔ, κ, hκ, hκ3, hκr, hnone⟩ := h
  have hsub : neededKeys p s.next t.next ⊆ selfKeys 0 hi := neededKeys_subset hp hm
  have hWt := hW.extends hE (hΔ.trans hsub)
  have hmem : κ ∈ tablesBelow hi := (mem_tablesBelow (by omega)).mpr ⟨hκ3, hsub hκ⟩
  -- The missing table is one of them, and every frame taken is another.
  rw [← Finset.card_erase_add_one hmem]
  refine Nat.lt_succ_of_le (hI.frames_le fun ℓ hℓ q hq hs => Finset.mem_erase.mpr ⟨?_, ?_⟩)
  · rintro rfl
    rw [hnone] at hs
    cases hs
  · exact (mem_tablesBelow (by omega)).mpr ⟨hℓ, hWt ℓ q hℓ.le hq hs⟩

/-- The entries there are once the calls have returned, wherever the segment lies. -/
theorem within_mapPages_of {K : Set (ℕ × ℕ)} (hcalls : CallsOk calls)
    (hK : ∀ call ∈ calls, pathKeys (pfn call.1) ⊆ K) (h : Settled seg s)
    (hW : Within pml4 (K ∪ selfKeys seg.base s.next) s.mem)
    (hrun : (mapPages pml4 calls).run s = .ok () s') :
    Within pml4 (K ∪ selfKeys seg.base s'.next) s'.mem := by
  refine (mapPages_ok (P := fun t => Within pml4 (K ∪ selfKeys seg.base t.next) t.mem) hcalls ?_ h
    hW hrun).2
  intro call hcall t t' ht hWt hrun
  obtain ⟨haddr, hok⟩ := hcalls call hcall
  have hmaps := mapPage_ok ht.toInv haddr hok hrun
  have hle := hmaps.2.le
  have hlow := ht.low
  refine (hWt.mono (Set.union_subset_union_right _ ?_)).extends hmaps.2
    (Set.union_subset_union (hK call hcall) ?_)
  · rintro κ ⟨f, hlo, hhi, hκ⟩
    exact ⟨f, hlo, by omega, hκ⟩
  · rintro κ ⟨f, hlo, hhi, hκ⟩
    exact ⟨f, by omega, hhi, hκ⟩

section Calls

variable (hcalls : CallsOk calls) (hbelow : ∀ call ∈ calls, pfn call.1 < hi) (h : Settled seg s)

include hcalls hbelow h

/-- The entries there are once calls on pages below `hi` have returned. -/
theorem within_mapPages {K : Set (ℕ × ℕ)} (hK : selfKeys 0 hi ⊆ K)
    (hW : Within pml4 (K ∪ selfKeys seg.base s.next) s.mem)
    (hrun : (mapPages pml4 calls).run s = .ok () s') :
    Within pml4 (K ∪ selfKeys seg.base s'.next) s'.mem :=
  within_mapPages_of hcalls
    (fun call hcall _ hκ => hK ⟨_, Nat.zero_le _, hbelow call hcall, hκ⟩) h hW hrun

/-- A run on pages below `hi`, with a segment that lies below `hi` too, only stops if the segment
has fewer frames than these pages have tables. -/
theorem mapPages_error_below (hseg : seg.base + seg.pages ≤ hi)
    (hW : Within pml4 (selfKeys 0 hi) s.mem) {e : Stop}
    (hrun : (mapPages pml4 calls).run s = .error e s') :
    e = .outOfMemory ∧ seg.pages < (tablesBelow hi).card ∧ s'.cr3 = s.cr3 := by
  have hstep : ∀ call ∈ calls, ∀ t t', Settled seg t →
      (Within pml4 (selfKeys 0 hi) t.mem ∧ t.cr3 = s.cr3) →
      (mapPage pml4 call.1 call.2).run t = .ok () t' →
      Within pml4 (selfKeys 0 hi) t'.mem ∧ t'.cr3 = s.cr3 := by
    rintro call hcall t t' ht ⟨hWt, hcr3⟩ hrun
    obtain ⟨haddr, hok⟩ := hcalls call hcall
    have hmaps := mapPage_ok ht.toInv haddr hok hrun
    refine ⟨hWt.extends hmaps.2 (neededKeys_subset (hbelow call hcall) ?_),
      hmaps.2.cr3.trans hcr3⟩
    exact hmaps.1.next_le.trans hseg
  obtain ⟨call, hcall, t, ht, ⟨hWt, hcr3⟩, hstop⟩ :=
    mapPages_error hcalls hstep h ⟨hW, rfl⟩ hrun
  obtain ⟨haddr, hok⟩ := hcalls call hcall
  obtain ⟨rfl, hend, hcr3'⟩ := mapPage_error ht.toInv haddr hok hstop
  -- The frame it wanted when it stopped is the one behind the segment.
  have htakes : Takes ((mapPage pml4 call.1 call.2).run t) (seg.base + seg.pages) := by
    rw [hstop]
    exact ⟨rfl, hend.ge⟩
  have hlt := (mapPage_short ht.toInv haddr hok ht.next_le htakes).lt_card hWt
    (hbelow call hcall) hseg
  exact ⟨rfl, by omega, hcr3'.trans hcr3⟩

/-- A run whose segment has a frame for every table returns. -/
theorem mapPages_returns (hseg : seg.base + seg.pages ≤ hi)
    (hW : Within pml4 (selfKeys 0 hi) s.mem) (henough : (tablesBelow hi).card ≤ seg.pages) :
    ∃ s', (mapPages pml4 calls).run s = .ok () s' := by
  cases hrun : (mapPages pml4 calls).run s with
  | ok u s' => exact ⟨s', rfl⟩
  | error e s' =>
    obtain ⟨-, hlt, -⟩ := mapPages_error_below hcalls hbelow h hseg hW hrun
    omega

end Calls

/-! ### Flags -/

/-- Every entry has the given flags. -/
def Flagged (pml4 : Addr) (flags : BitVec 32) (m : PhysMem) : Prop :=
  ∀ ℓ q e, ℓ ≤ 3 → q < 512 ^ (ℓ + 1) → slotAt m pml4 ℓ q = some e →
    flagBits e = flags.setWidth 64

theorem Flagged.extends {Δ : Set (ℕ × ℕ)} (h : Flagged pml4 flags s.mem)
    (hE : Extends seg flags Δ s s') : Flagged pml4 flags s'.mem := by
  intro ℓ q e hℓ hq he
  cases hold : slotAt s.mem pml4 ℓ q with
  | none => exact (hE.gain ℓ q e hℓ hq hold he).2
  | some e' =>
    have hkept := hE.keep ℓ q e' hℓ hq hold
    rw [he] at hkept
    obtain rfl := Option.some.inj hkept
    exact h ℓ q e hℓ hq hold

theorem Fresh.flagged (h : Fresh seg s) (flags : BitVec 32) : Flagged pml4 flags s.mem := by
  intro ℓ q e _ _ he
  rw [slotAt_of_zeroed h.zeroed] at he
  cases he

theorem flagged_mapPages (hcalls : CallsOk calls) (hflags : ∀ call ∈ calls, call.2 = flags)
    (h : Settled seg s) (hF : Flagged pml4 (flags ||| pageBitPPresentFlag) s.mem)
    (hrun : (mapPages pml4 calls).run s = .ok () s') :
    Flagged pml4 (flags ||| pageBitPPresentFlag) s'.mem := by
  refine (mapPages_ok (P := fun t => Flagged pml4 (flags ||| pageBitPPresentFlag) t.mem) hcalls ?_
    h hF hrun).2
  intro call hcall t t' ht hFt hrun
  obtain ⟨haddr, hok⟩ := hcalls call hcall
  have hmaps := mapPage_ok ht.toInv haddr hok hrun
  rw [hflags call hcall] at hmaps
  exact hFt.extends hmaps.2

end KessOS
