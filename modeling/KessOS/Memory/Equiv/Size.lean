import KessOS.Memory.Size
import KessOS.Monad.EState
import Mathlib.Algebra.BigOperators.Intervals
import Mathlib.Data.Nat.ModEq

/-!
# What `getMemSize` sums

The loop takes for descriptor `i` what lies `i` bytes behind descriptor 1, where the iterator
takes what lies `i` strides behind descriptor 0.  The two agree on descriptor 1 only, so the sum is
right when the words that start 1, 2, … bytes behind the `nPages` of descriptor 1 add up to the page
counts of the other descriptors; and with a single descriptor the loop reads behind the map
(`getMemSize_iff`).
-/

namespace KessOS

open EStateM Finset

variable {mem : PhysMem} {mMap : Addr} {n stride : BitVec 64}

/-- The map lies in the address space and is no larger than an object can be. -/
structure MapFits (mMap : Addr) (n stride : BitVec 64) : Prop where
  fits : mMap.toNat + n.toNat * stride.toNat ≤ 2 ^ 64
  object : n.toNat * stride.toNat < 2 ^ 63

/-- The byte `x` belongs to the map. -/
def InMap (mMap : Addr) (n stride : BitVec 64) (x : Addr) : Prop :=
  mMap.toNat ≤ x.toNat ∧ x.toNat < mMap.toNat + n.toNat * stride.toNat

/-- `nPages` of the descriptor that the iterator returns for `i`. -/
def pagesAt (mem : PhysMem) (mMap : Addr) (n stride : BitVec 64) (i : ℕ) : ℕ :=
  (loadMemDesc mem (mmapIteratorHelper (BitVec.ofNat 64 i) ⟨mMap, n * stride, stride⟩)).nPages.toNat

/-- `getMemSize` returns the size of the memory that the map describes, and every byte that it
reads belongs to the map. -/
def SumsMap (mem : PhysMem) (mMap : Addr) (n stride : BitVec 64) : Prop :=
  ∃ bytes s, (getMemSize mem mMap n stride).run ⟨0, []⟩ = .ok bytes s ∧
    bytes.toNat = 4096 * (∑ i ∈ range n.toNat, pagesAt mem mMap n stride i) % 2 ^ 64 ∧
    ∀ a ∈ s.reads, ∀ k < 8, InMap mMap n stride (a + BitVec.ofNat 64 k)

/-- The word that starts `i` bytes behind the `nPages` of descriptor 1. -/
def strayPages (mem : PhysMem) (mMap : Addr) (stride : BitVec 64) (i : ℕ) : ℕ :=
  (load64 mem (nPagesAddr (mMap + (BitVec.ofNat 64 i + stride)))).toNat

/-! ### The loop -/

/-- The loop has looked at entry `i`. -/
def MemSize.visit (mem : PhysMem) (mMap : Addr) (stride : BitVec 64) (s : MemSize) (i : ℕ) :
    MemSize where
  memSizeBytes := s.memSizeBytes + BitVec.ofNat 64 (strayPages mem mMap stride i) * 4096
  reads := s.reads ++ [nPagesAddr (mMap + (BitVec.ofNat 64 i + stride))]

theorem addDesc_run (s : MemSize) (i : ℕ) :
    (addDesc mem (mMap + (BitVec.ofNat 64 i + stride))).run s =
      .ok () (s.visit mem mMap stride i) := by
  rw [MemSize.visit, strayPages, BitVec.ofNat_toNat, BitVec.setWidth_eq]
  rfl

theorem signExtend_ofNat {i : ℕ} (hi : i < 2 ^ 31) :
    (BitVec.ofNat 32 i).signExtend 64 = BitVec.ofNat 64 i := by
  have hmsb : (BitVec.ofNat 32 i).msb = false := by
    rw [BitVec.msb_eq_false_iff_two_mul_lt, BitVec.toNat_ofNat]
    omega
  apply BitVec.eq_of_toNat_eq
  rw [BitVec.signExtend_eq_setWidth_of_msb_false hmsb, BitVec.toNat_setWidth, BitVec.toNat_ofNat,
    BitVec.toNat_ofNat]
  omega

/-- One turn of the loop. -/
theorem getMemSizeFrom_succ {i fuel : ℕ} (hi : i < 2 ^ 31) (hlt : i < n.toNat) (s : MemSize) :
    (getMemSizeFrom mem mMap n stride (fuel + 1) (BitVec.ofNat 32 i)).run s =
      if i + 1 = 2 ^ 31 then .error .overflow (s.visit mem mMap stride i)
      else (getMemSizeFrom mem mMap n stride fuel (BitVec.ofNat 32 (i + 1))).run
        (s.visit mem mMap stride i) := by
  have hcond : BitVec.ofNat 64 i < n := by
    rw [BitVec.lt_def, BitVec.toNat_ofNat]
    omega
  have hmax : BitVec.ofNat 32 i = intMax ↔ i + 1 = 2 ^ 31 := by
    have hintMax : intMax.toNat = 2 ^ 31 - 1 := rfl
    rw [← BitVec.toNat_inj, BitVec.toNat_ofNat, hintMax]
    omega
  rw [getMemSizeFrom, signExtend_ofNat hi, if_pos hcond, run_bind_of_ok (addDesc_run s i)]
  by_cases hlast : i + 1 = 2 ^ 31
  · rw [if_pos hlast, if_pos (hmax.mpr hlast)]
    rfl
  · rw [if_neg hlast, if_neg (mt hmax.mp hlast), BitVec.ofNat_add]
    rfl

/-- The loop looks at the entries from `i` on, as long as the counter has a next value. -/
theorem getMemSizeFrom_run (mem : PhysMem) (mMap : Addr) (stride : BitVec 64)
    (hn : n.toNat < 2 ^ 31) {i k fuel : ℕ} (hik : i + k = n.toNat) (hfuel : k < fuel)
    (s : MemSize) :
    (getMemSizeFrom mem mMap n stride fuel (BitVec.ofNat 32 i)).run s =
      .ok () ((List.range' i k).foldl (MemSize.visit mem mMap stride) s) := by
  obtain ⟨fuel, rfl⟩ : ∃ f, fuel = f + 1 := ⟨fuel - 1, by omega⟩
  induction k generalizing i fuel s with
  | zero =>
    have hcond : ¬ BitVec.ofNat 64 i < n := by
      rw [BitVec.lt_def, BitVec.toNat_ofNat]
      omega
    rw [getMemSizeFrom, signExtend_ofNat (by omega), if_neg hcond]
    rfl
  | succ k ih =>
    obtain ⟨fuel, rfl⟩ : ∃ f, fuel = f + 1 := ⟨fuel - 1, by omega⟩
    rw [getMemSizeFrom_succ (by omega) (by omega), if_neg (by omega),
      ih (by omega) _ fuel (by omega), List.range'_succ, List.foldl_cons]

/-- With more entries the counter overflows. -/
theorem getMemSizeFrom_overflow (mem : PhysMem) (mMap : Addr) (stride : BitVec 64)
    (hn : 2 ^ 31 ≤ n.toNat) {i k fuel : ℕ} (hik : i + k + 1 = 2 ^ 31) (hfuel : k < fuel)
    (s : MemSize) :
    ∃ s', (getMemSizeFrom mem mMap n stride fuel (BitVec.ofNat 32 i)).run s =
      .error .overflow s' := by
  obtain ⟨fuel, rfl⟩ : ∃ f, fuel = f + 1 := ⟨fuel - 1, by omega⟩
  induction k generalizing i fuel s with
  | zero =>
    rw [getMemSizeFrom_succ (by omega) (by omega), if_pos (by omega)]
    exact ⟨_, rfl⟩
  | succ k ih =>
    obtain ⟨fuel, rfl⟩ : ∃ f, fuel = f + 1 := ⟨fuel - 1, by omega⟩
    rw [getMemSizeFrom_succ (by omega) (by omega), if_neg (by omega)]
    exact ih (by omega) _ fuel (by omega)

/-- What the loop has computed and read after `k` entries. -/
theorem foldl_visit (k : ℕ) :
    (List.range k).foldl (MemSize.visit mem mMap stride) ⟨0, []⟩ =
      { memSizeBytes := BitVec.ofNat 64 (4096 * ∑ i ∈ range k, strayPages mem mMap stride i)
        reads := (List.range k).map fun i =>
          nPagesAddr (mMap + (BitVec.ofNat 64 i + stride)) } := by
  induction k with
  | zero => rfl
  | succ k ih =>
    have hbytes : ∀ a x : ℕ, BitVec.ofNat 64 (4096 * (a + x)) =
        BitVec.ofNat 64 (4096 * a) + BitVec.ofNat 64 x * 4096 := by
      intro a x
      rw [Nat.mul_add, BitVec.ofNat_add, Nat.mul_comm 4096 x, BitVec.ofNat_mul x 4096]
      rfl
    rw [List.range_succ, List.foldl_append, ih, List.foldl_cons, List.foldl_nil, MemSize.visit,
      List.map_append, List.map_singleton, sum_range_succ, hbytes]

theorem getMemSize_run (mem : PhysMem) (mMap : Addr) (stride : BitVec 64)
    (hn : n.toNat < 2 ^ 31) :
    ∃ s, (getMemSize mem mMap n stride).run ⟨0, []⟩ =
        .ok (BitVec.ofNat 64 (4096 * ∑ i ∈ range n.toNat, strayPages mem mMap stride i)) s ∧
      s.reads = (List.range n.toNat).map fun i =>
        nPagesAddr (mMap + (BitVec.ofNat 64 i + stride)) := by
  have hloop := getMemSizeFrom_run mem mMap stride hn (Nat.zero_add n.toNat)
    (Nat.lt_succ_self n.toNat) ⟨0, []⟩
  rw [← List.range_eq_range', foldl_visit] at hloop
  exact ⟨_, run_bind_of_ok hloop, rfl⟩

/-! ### The reads -/

/-- A read of eight bytes lies in the map if it does not end behind it. -/
theorem inMap_stray (h : MapFits mMap n stride) {i k : ℕ}
    (hi : i + stride.toNat + 24 + k < n.toNat * stride.toNat) :
    InMap mMap n stride
      (nPagesAddr (mMap + (BitVec.ofNat 64 i + stride)) + BitVec.ofNat 64 k) := by
  have hfits := h.fits
  have h24 : BitVec.toNat (24 : Addr) = 24 := rfl
  have hval : (nPagesAddr (mMap + (BitVec.ofNat 64 i + stride)) + BitVec.ofNat 64 k).toNat =
      mMap.toNat + (i + stride.toNat + 24 + k) := by
    rw [nPagesAddr, BitVec.toNat_add, BitVec.toNat_add, BitVec.toNat_add, BitVec.toNat_add,
      BitVec.toNat_ofNat, BitVec.toNat_ofNat, h24]
    omega
  rw [InMap, hval]
  omega

/-- With two descriptors or more, every entry lies before the end of the last but one stride. -/
theorem stray_lt (hstride : 40 ≤ stride.toNat) (hn : 2 ≤ n.toNat) {i k : ℕ} (hi : i < n.toNat)
    (hk : k < 8) : i + stride.toNat + 24 + k < n.toNat * stride.toNat := by
  obtain ⟨m, hm⟩ : ∃ m, n.toNat = m + 1 := ⟨n.toNat - 1, by omega⟩
  have hmul : m * 40 ≤ m * stride.toNat := Nat.mul_le_mul_left m hstride
  rw [hm, Nat.succ_mul]
  omega

/-- With one descriptor, the first read is off the map. -/
theorem not_inMap_stray (h : MapFits mMap n stride) (hn : n.toNat = 1) :
    ¬ InMap mMap n stride
      (nPagesAddr (mMap + (BitVec.ofNat 64 0 + stride)) + BitVec.ofNat 64 0) := by
  have hfits := h.fits
  have hobject := h.object
  have h24 : BitVec.toNat (24 : Addr) = 24 := rfl
  rw [hn, Nat.one_mul] at hfits hobject
  rw [InMap, hn, Nat.one_mul, nPagesAddr, BitVec.toNat_add, BitVec.toNat_add, BitVec.toNat_add,
    BitVec.toNat_add, BitVec.toNat_ofNat, h24]
  omega

/-! ### The sums -/

/-- The first stray descriptor is descriptor 1. -/
theorem strayPages_zero : strayPages mem mMap stride 0 = pagesAt mem mMap n stride 1 := by
  rw [strayPages, pagesAt, nPagesAddr, mmapIteratorHelper, BitVec.zero_add, BitVec.one_mul]
  rfl

theorem sums_modEq_iff (hn : 2 ≤ n.toNat) :
    4096 * (∑ i ∈ range n.toNat, strayPages mem mMap stride i) % 2 ^ 64 =
        4096 * (∑ i ∈ range n.toNat, pagesAt mem mMap n stride i) % 2 ^ 64 ↔
      ∑ i ∈ Ico 1 n.toNat, strayPages mem mMap stride i ≡
        pagesAt mem mMap n stride 0 + ∑ i ∈ Ico 2 n.toNat, pagesAt mem mMap n stride i
        [MOD 2 ^ 52] := by
  have hpow : 2 ^ 64 = 4096 * 2 ^ 52 := rfl
  have hpages : ∑ i ∈ range n.toNat, pagesAt mem mMap n stride i =
      strayPages mem mMap stride 0 + (pagesAt mem mMap n stride 0 +
        ∑ i ∈ Ico 2 n.toNat, pagesAt mem mMap n stride i) := by
    rw [range_eq_Ico, sum_eq_sum_Ico_succ_bot (by omega), sum_eq_sum_Ico_succ_bot (by omega),
      strayPages_zero (n := n)]
    simp only [Nat.zero_add, Nat.reduceAdd]
    omega
  have hstray : ∑ i ∈ range n.toNat, strayPages mem mMap stride i =
      strayPages mem mMap stride 0 + ∑ i ∈ Ico 1 n.toNat, strayPages mem mMap stride i := by
    rw [range_eq_Ico, sum_eq_sum_Ico_succ_bot (by omega)]
  rw [hpow, Nat.mul_mod_mul_left, Nat.mul_mod_mul_left, Nat.mul_right_inj (by decide), hpages,
    hstray]
  exact ⟨Nat.ModEq.add_left_cancel' _, Nat.ModEq.add_left _⟩

/-- `getMemSize` sums the map exactly when the map is empty, or has at least two descriptors, no
more than the counter can count, and the words that start 1, 2, … bytes behind the page count of
descriptor 1 add up, modulo 2^52, to the page counts of the other descriptors. -/
theorem getMemSize_iff (hstride : 40 ≤ stride.toNat) (hmap : MapFits mMap n stride) :
    SumsMap mem mMap n stride ↔
      n.toNat = 0 ∨ 2 ≤ n.toNat ∧ n.toNat < 2 ^ 31 ∧
        ∑ i ∈ Ico 1 n.toNat, strayPages mem mMap stride i ≡
          pagesAt mem mMap n stride 0 + ∑ i ∈ Ico 2 n.toNat, pagesAt mem mMap n stride i
          [MOD 2 ^ 52] := by
  by_cases hn : n.toNat < 2 ^ 31
  · obtain ⟨s, hrun, hreads⟩ := getMemSize_run mem mMap stride hn
    have hsums : SumsMap mem mMap n stride ↔
        4096 * (∑ i ∈ range n.toNat, strayPages mem mMap stride i) % 2 ^ 64 =
            4096 * (∑ i ∈ range n.toNat, pagesAt mem mMap n stride i) % 2 ^ 64 ∧
          ∀ i < n.toNat, ∀ k < 8, InMap mMap n stride
            (nPagesAddr (mMap + (BitVec.ofNat 64 i + stride)) + BitVec.ofNat 64 k) := by
      unfold SumsMap
      rw [hrun]
      constructor
      · rintro ⟨_, _, heq, hval, hin⟩
        obtain ⟨rfl, rfl⟩ := (Result.ok.injEq ..).mp heq
        rw [BitVec.toNat_ofNat] at hval
        refine ⟨hval, fun i hi => hin _ ?_⟩
        rw [hreads]
        exact List.mem_map_of_mem (List.mem_range.mpr hi)
      · rintro ⟨hval, hin⟩
        refine ⟨_, s, rfl, by rw [BitVec.toNat_ofNat, hval], ?_⟩
        rw [hreads, List.forall_mem_map]
        exact fun i hi => hin i (List.mem_range.mp hi)
    rw [hsums]
    rcases Nat.lt_or_ge n.toNat 2 with hlt | hge
    · rcases (show n.toNat = 0 ∨ n.toNat = 1 by omega) with hzero | hone
      · rw [hzero]
        simp
      · refine iff_of_false ?_ (by omega)
        rintro ⟨-, hin⟩
        exact not_inMap_stray hmap hone (hin 0 (by omega) 0 (by decide))
    · rw [sums_modEq_iff hge]
      constructor
      · exact fun h => Or.inr ⟨hge, hn, h.1⟩
      · rintro (h | ⟨-, -, h⟩)
        · omega
        · exact ⟨h, fun i hi k hk => inMap_stray hmap (stray_lt hstride hge hi hk)⟩
  · refine iff_of_false ?_ (by omega)
    rintro ⟨bytes, s, hrun, -⟩
    have hlast : 0 + (2 ^ 31 - 1) + 1 = 2 ^ 31 := rfl
    have hfuel : 2 ^ 31 - 1 < n.toNat + 1 := by omega
    obtain ⟨s', hloop⟩ := getMemSizeFrom_overflow mem mMap stride (not_lt.mp hn) hlast hfuel ⟨0, []⟩
    have herr : (getMemSize mem mMap n stride).run ⟨0, []⟩ = .error .overflow s' :=
      run_bind_of_error hloop
    rw [herr] at hrun
    cases hrun

/-- A map at 0x1000 of two descriptors with a stride of 48, with 3 and 768 pages: the word one byte
behind the page count of the second is 3. -/
def shiftedDescMem : PhysMem := fun f idx =>
  if f = 1 then
    match idx.val with
    | 0 => 7
    | 1 => 0x100000
    | 3 => 3
    | 6 => 7
    | 7 => 0x200000
    | 9 => 0x300
    | _ => 0
  else 0

theorem getMemSize_two_shifted : SumsMap shiftedDescMem 0x1000 2 48 :=
  (getMemSize_iff (by decide) ⟨by decide, by decide⟩).mpr
    (Or.inr ⟨by decide, by decide, by decide⟩)

/-- A map at 0x1000 of two descriptors with a stride of 48, with 1 and 2 pages. -/
def twoDescMem : PhysMem := fun f idx =>
  if f = 1 then
    match idx.val with
    | 0 => 7
    | 3 => 1
    | 6 => 7
    | 9 => 2
    | _ => 0
  else 0

/-- Descriptor 0 is left out of the sum. -/
theorem not_sumsMap_two : ¬ SumsMap twoDescMem 0x1000 2 48 := by
  rintro ⟨bytes, s, hrun, hsum, -⟩
  obtain ⟨s', hrun', -⟩ := getMemSize_run twoDescMem 0x1000 48 (n := 2) (by decide)
  rw [hrun'] at hrun
  obtain ⟨rfl, -⟩ := (Result.ok.injEq ..).mp hrun
  revert hsum
  decide

end KessOS
