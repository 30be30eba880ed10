import KessOS.Boot.Rsdp
import Mathlib.Tactic.IntervalCases

/-!
# Which RSDP the loader hands over

`CompareGuid` is zero on equal GUIDs (`compareGuid_eq_zero_iff`), so the loop looks for entries
whose GUID is not that of ACPI 2.0; and as `configTable` advances while `i` does, the GUID it
tests is that of entry `2 * i` and the table it takes that of entry `i`.  From two entries on it
reads behind the table (`rsdpSearch_iff`).
-/

namespace KessOS

variable {sysTable : EfiSystemTable} {m : PhysMem}

/-! ### `CompareGuid` -/

/-- A GUID is made of its words. -/
theorem EfiGuid.ext_word {g h : EfiGuid} (hw : ∀ i, g.word i = h.word i) : g = h := by
  have h0 : g.data1 = h.data1 := hw 0
  have h1 : g.data3 = h.data3 ∧ g.data2 = h.data2 := append_eq_append_iff.mp (hw 1)
  obtain ⟨h2, h20⟩ := append_eq_append_iff.mp (hw 2)
  obtain ⟨h2, h21⟩ := append_eq_append_iff.mp h2
  obtain ⟨h23, h22⟩ := append_eq_append_iff.mp h2
  obtain ⟨h3, h30⟩ := append_eq_append_iff.mp (hw 3)
  obtain ⟨h3, h31⟩ := append_eq_append_iff.mp h3
  obtain ⟨h33, h32⟩ := append_eq_append_iff.mp h3
  have h4 : g.data4 = h.data4 := by
    refine Vector.ext fun i hi => ?_
    interval_cases i <;> assumption
  cases g
  cases h
  simp_all

theorem signExtend_eq_zero_iff {v w : ℕ} (h : v ≤ w) {x : BitVec v} :
    x.signExtend w = 0#w ↔ x = 0#v := by
  rw [← BitVec.toInt_inj, ← BitVec.toInt_inj, BitVec.toInt_signExtend_of_le h, BitVec.toInt_zero,
    BitVec.toInt_zero]

/-- `CompareGuid` returns zero exactly on equal GUIDs. -/
theorem compareGuid_eq_zero_iff {g h : EfiGuid} : compareGuid g h = 0 ↔ g = h := by
  have hwords : compareGuid g h = 0#64 ↔ ∀ i, g.word i = h.word i := by
    have hsub : ∀ x y : BitVec 32, x - y = 0#32 ↔ x = y := fun x y => sub_eq_zero
    rw [compareGuid, rtCompareGuid, signExtend_eq_zero_iff (by decide), BitVec.or_eq_zero_iff,
      BitVec.or_eq_zero_iff, BitVec.or_eq_zero_iff]
    simp only [hsub, Fin.forall_fin_succ, IsEmpty.forall_iff, and_true, and_assoc]
    rfl
  exact hwords.trans ⟨EfiGuid.ext_word, fun heq i => heq ▸ rfl⟩

/-! ### The loop -/

/-- The table of an entry starts with `RSD PTR `. -/
def HasSignature (m : PhysMem) (e : EfiConfigurationTable) : Prop :=
  ∀ i < 8, literal "RSD PTR " i = bytesAt m e.vendorTable i

instance (m : PhysMem) (e : EfiConfigurationTable) : Decidable (HasSignature m e) :=
  inferInstanceAs (Decidable (∀ i < 8, _))

/-- An entry for the RSDP of ACPI 2.0. -/
def IsRsdp (m : PhysMem) (e : EfiConfigurationTable) : Prop :=
  e.vendorGuid = acpi20TableGuid ∧ HasSignature m e

/-- Turn `i` of the loop takes a table. -/
def TurnTakes (sysTable : EfiSystemTable) (m : PhysMem) (i : ℕ) : Prop :=
  (sysTable.configurationTable (2 * i)).vendorGuid ≠ acpi20TableGuid ∧
    HasSignature m (sysTable.configurationTable i)

instance (sysTable : EfiSystemTable) (m : PhysMem) (i : ℕ) :
    Decidable (TurnTakes sysTable m i) := inferInstanceAs (Decidable (_ ∧ _))

/-- One turn, with its cursor at entry `n`. -/
theorem rsdpStep_eq (s : RsdpSearch) (n : ℕ) (hcursor : s.configTable = n) :
    rsdpStep sysTable m s n =
      { configTable := n + 1
        rsdp := if TurnTakes sysTable m n then (sysTable.configurationTable n).vendorTable
          else s.rsdp
        reads := s.reads ++ 2 * n ::
          if (sysTable.configurationTable (2 * n)).vendorGuid = acpi20TableGuid then []
          else [n] } := by
  have hsig : memcmp (literal "RSD PTR ")
      (bytesAt m (sysTable.configurationTable n).vendorTable) 8 = 0 ↔
        HasSignature m (sysTable.configurationTable n) := memcmp_eq_zero_iff
  have hguid := compareGuid_eq_zero_iff (g := (sysTable.configurationTable (2 * n)).vendorGuid)
    (h := acpi20TableGuid)
  subst hcursor
  rw [rsdpStep, ← two_mul]
  simp only [ne_eq, hguid, hsig, TurnTakes]
  by_cases htested : (sysTable.configurationTable (2 * s.configTable)).vendorGuid = acpi20TableGuid
  · simp [htested]
  · by_cases htaken : HasSignature m (sysTable.configurationTable s.configTable)
    · simp [htested, htaken]
    · simp [htested, htaken]

theorem rsdpLoop_succ (n : ℕ) :
    rsdpLoop sysTable m (n + 1) = rsdpStep sysTable m (rsdpLoop sysTable m n) n := by
  simp [rsdpLoop, List.range_succ]

/-- The cursor has advanced once for every turn. -/
theorem rsdpLoop_configTable (n : ℕ) : (rsdpLoop sysTable m n).configTable = n := by
  induction n with
  | zero => rfl
  | succ n ih => rw [rsdpLoop_succ, rsdpStep_eq _ n ih]

/-- The RSDP after a turn. -/
theorem rsdpLoop_rsdp_succ (n : ℕ) : (rsdpLoop sysTable m (n + 1)).rsdp =
    if TurnTakes sysTable m n then (sysTable.configurationTable n).vendorTable
    else (rsdpLoop sysTable m n).rsdp := by
  rw [rsdpLoop_succ, rsdpStep_eq _ n (rsdpLoop_configTable n)]

/-- The entries read after a turn. -/
theorem rsdpLoop_reads_succ (n : ℕ) : (rsdpLoop sysTable m (n + 1)).reads =
    (rsdpLoop sysTable m n).reads ++ 2 * n ::
      if (sysTable.configurationTable (2 * n)).vendorGuid = acpi20TableGuid then [] else [n] := by
  rw [rsdpLoop_succ, rsdpStep_eq _ n (rsdpLoop_configTable n)]

/-- **What the loop finds**: the table of the last turn that takes one. -/
theorem rsdpLoop_spec (n : ℕ) :
    (∃ i < n, TurnTakes sysTable m i ∧ (∀ j, i < j → j < n → ¬ TurnTakes sysTable m j) ∧
      (rsdpLoop sysTable m n).rsdp = (sysTable.configurationTable i).vendorTable) ∨
    ((∀ i < n, ¬ TurnTakes sysTable m i) ∧ (rsdpLoop sysTable m n).rsdp = 0) := by
  induction n with
  | zero => exact Or.inr ⟨fun i hi => absurd hi (Nat.not_lt_zero i), rfl⟩
  | succ n ih =>
    rw [rsdpLoop_rsdp_succ]
    by_cases hn : TurnTakes sysTable m n
    · refine Or.inl ⟨n, Nat.lt_succ_self n, hn, fun j hj hj' => ?_, if_pos hn⟩
      omega
    · rw [if_neg hn]
      rcases ih with ⟨i, hi, htakes, hlast, hrsdp⟩ | ⟨hnone, hrsdp⟩
      · refine Or.inl ⟨i, by omega, htakes, fun j hj hj' => ?_, hrsdp⟩
        rcases Nat.lt_succ_iff_lt_or_eq.mp hj' with hlt | rfl
        · exact hlast j hj hlt
        · exact hn
      · refine Or.inr ⟨fun i hi => ?_, hrsdp⟩
        rcases Nat.lt_succ_iff_lt_or_eq.mp hi with hlt | rfl
        · exact hnone i hlt
        · exact hn

/-- Turn `i` reads the GUID of entry `2 * i`. -/
theorem mem_rsdpLoop_reads {n i : ℕ} (hi : i < n) : 2 * i ∈ (rsdpLoop sysTable m n).reads := by
  induction n with
  | zero => exact absurd hi (Nat.not_lt_zero i)
  | succ n ih =>
    rw [rsdpLoop_reads_succ]
    rcases Nat.lt_succ_iff_lt_or_eq.mp hi with hlt | rfl
    · exact List.mem_append_left _ (ih hlt)
    · exact List.mem_append_right _ (List.mem_cons_self ..)

/-! ### The search as a whole -/

/-- The search has found the RSDP of ACPI 2.0 and has stayed inside the table. -/
structure FindsRsdp (sysTable : EfiSystemTable) (m : PhysMem) (s : RsdpSearch) : Prop where
  found : (∃ i < sysTable.numberOfTableEntries.toNat, IsRsdp m (sysTable.configurationTable i)) →
    ∃ i < sysTable.numberOfTableEntries.toNat, IsRsdp m (sysTable.configurationTable i) ∧
      s.rsdp = (sysTable.configurationTable i).vendorTable
  missing : (¬ ∃ i < sysTable.numberOfTableEntries.toNat,
    IsRsdp m (sysTable.configurationTable i)) → s.rsdp = 0
  inside : ∀ i ∈ s.reads, i < sysTable.numberOfTableEntries.toNat

/-- If no turn takes a table, the loader hands over `NULL`. -/
theorem rsdpSearch_eq_zero (h : ∀ i < sysTable.numberOfTableEntries.toNat,
    ¬ TurnTakes sysTable m i) : (rsdpSearch sysTable m).rsdp = 0 := by
  rcases @rsdpLoop_spec sysTable m sysTable.numberOfTableEntries.toNat with
    ⟨i, hi, htakes, -⟩ | ⟨-, hrsdp⟩
  · exact absurd htakes (h i hi)
  · exact hrsdp

/-- With a single entry, its table is taken unless its GUID is the right one. -/
theorem rsdpLoop_one : (rsdpLoop sysTable m 1).rsdp =
    if TurnTakes sysTable m 0 then (sysTable.configurationTable 0).vendorTable else 0 :=
  rsdpLoop_rsdp_succ 0

/-- With a single entry, only that entry is read. -/
theorem rsdpLoop_one_reads : ∀ i ∈ (rsdpLoop sysTable m 1).reads, i = 0 := by
  intro i hi
  rw [rsdpLoop_reads_succ 0] at hi
  split_ifs at hi
  · exact List.mem_singleton.mp hi
  · rcases List.mem_cons.mp hi with rfl | hi
    · rfl
    · exact List.mem_singleton.mp hi

/-- What a single entry must be like. -/
theorem findsRsdp_one (hone : sysTable.numberOfTableEntries.toNat = 1) :
    FindsRsdp sysTable m (rsdpLoop sysTable m 1) ↔
      (sysTable.configurationTable 0).vendorTable = 0 ∨
        ¬ HasSignature m (sysTable.configurationTable 0) := by
  have hentry : (∃ i < sysTable.numberOfTableEntries.toNat,
      IsRsdp m (sysTable.configurationTable i)) ↔ IsRsdp m (sysTable.configurationTable 0) := by
    rw [hone]
    exact ⟨fun ⟨i, hi, h⟩ => by rwa [Nat.lt_one_iff.mp hi] at h, fun h => ⟨0, Nat.one_pos, h⟩⟩
  have hrsdp := @rsdpLoop_one sysTable m
  constructor
  · rintro ⟨hfound, hmissing, -⟩
    by_contra hgood
    obtain ⟨hnull, hsig⟩ := not_or.mp hgood
    have hsig : HasSignature m (sysTable.configurationTable 0) := not_not.mp hsig
    by_cases hguid : (sysTable.configurationTable 0).vendorGuid = acpi20TableGuid
    -- The entry is the right one, so the loop passes it over.
    · obtain ⟨i, hi, -, htable⟩ := hfound (hentry.mpr ⟨hguid, hsig⟩)
      rw [hone, Nat.lt_one_iff] at hi
      rw [hi, hrsdp, if_neg fun h => h.1 hguid] at htable
      exact hnull htable.symm
    -- The entry is not, so the loop takes it.
    · have hzero := hmissing fun h => hguid (hentry.mp h).1
      rw [hrsdp, if_pos ⟨hguid, hsig⟩] at hzero
      exact hnull hzero
  · intro hgood
    have hzero : (rsdpLoop sysTable m 1).rsdp = 0 := by
      rw [hrsdp]
      split_ifs with htakes
      · exact hgood.resolve_right fun h => h htakes.2
      · rfl
    refine ⟨fun hexists => ?_, fun _ => hzero, fun i hi => ?_⟩
    · have hright := hentry.mp hexists
      refine ⟨0, by omega, hright, hzero.trans ?_⟩
      exact (hgood.resolve_right fun h => h hright.2).symm
    · rw [rsdpLoop_one_reads i hi]
      omega

/-- **Which RSDP the loader hands over**: the right one, with no read behind the table, if and
only if the table is empty or has one entry whose table is `NULL` or does not start with
`RSD PTR `. -/
theorem rsdpSearch_iff (sysTable : EfiSystemTable) (m : PhysMem) :
    FindsRsdp sysTable m (rsdpSearch sysTable m) ↔
      sysTable.numberOfTableEntries = 0 ∨ (sysTable.numberOfTableEntries = 1 ∧
        ((sysTable.configurationTable 0).vendorTable = 0 ∨
          ¬ HasSignature m (sysTable.configurationTable 0))) := by
  rw [rsdpSearch, ← BitVec.toNat_inj, ← BitVec.toNat_inj (y := 1)]
  show _ ↔ sysTable.numberOfTableEntries.toNat = 0 ∨ sysTable.numberOfTableEntries.toNat = 1 ∧ _
  rcases Nat.lt_or_ge sysTable.numberOfTableEntries.toNat 2 with hlt | hge
  · rcases Nat.lt_succ_iff_lt_or_eq.mp hlt with hzero | hone
    · have hzero : sysTable.numberOfTableEntries.toNat = 0 := Nat.lt_one_iff.mp hzero
      refine ⟨fun _ => Or.inl hzero, fun _ => ?_⟩
      rw [hzero]
      refine ⟨?_, fun _ => rfl, fun i hi => absurd hi List.not_mem_nil⟩
      rintro ⟨i, hi, -⟩
      omega
    · rw [hone, findsRsdp_one hone]
      simp
  -- The last turn tests an entry behind the table.
  · refine ⟨fun h => ?_, fun h => by omega⟩
    have hread := h.inside _ (mem_rsdpLoop_reads (i := sysTable.numberOfTableEntries.toNat - 1)
      (by omega))
    omega

/-- The RSDP of ACPI 2.0 as the only entry. -/
def oneEntryTable : EfiSystemTable where
  numberOfTableEntries := 1
  configurationTable := fun _ => ⟨acpi20TableGuid, 0x1000#64⟩

/-- A memory with `RSD PTR ` at 0x1000. -/
def signatureMem : PhysMem := fun f idx => if f = 1 ∧ idx.val = 0 then 0x2052545020445352#64 else 0

/-- The only entry is the right one, and `NULL` is handed over. -/
theorem rsdpSearch_misses_oneEntry :
    IsRsdp signatureMem (oneEntryTable.configurationTable 0) ∧
      (rsdpSearch oneEntryTable signatureMem).rsdp = 0 ∧
      ¬ FindsRsdp oneEntryTable signatureMem (rsdpSearch oneEntryTable signatureMem) := by
  have hright : IsRsdp signatureMem (oneEntryTable.configurationTable 0) := ⟨rfl, by decide⟩
  have hzero : (rsdpSearch oneEntryTable signatureMem).rsdp = 0 := by decide
  refine ⟨hright, hzero, fun h => ?_⟩
  obtain ⟨i, -, -, htable⟩ := h.found ⟨0, by decide, hright⟩
  have hnull : (0 : Addr) ≠ 0x1000#64 := by decide
  rw [hzero] at htable
  exact hnull htable

end KessOS
