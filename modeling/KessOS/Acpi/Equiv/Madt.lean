import KessOS.Acpi.Equiv.Rsdt
import Mathlib.Algebra.BigOperators.Intervals

/-!
# What `acpi_init` finds

`acpiSpec` says from the bytes of the tables alone what becomes of `kern_flags` and `apic_madt`.
`strncmp` takes a null pointer for a match: an RSDT entry of zero is taken for the MADT, and an
RSDP whose signature would run past the end of memory for a signed one.  Apart from these two the
code does what the specification says (`acpiInit_meetsSpec_iff`).
-/

namespace KessOS

open StateM Finset

variable {mem : PhysMem} {k : Kernel} {rsdp : Addr}

/-! ### The specification -/

/-- The bytes at `a` are the first `n` of `s`. -/
def Signed (mem : PhysMem) (a : Addr) (s : Bytes) (n : ℕ) : Prop := ∀ i < n, bytesAt mem a i = s i

instance (mem : PhysMem) (a : Addr) (s : Bytes) (n : ℕ) : Decidable (Signed mem a s n) :=
  inferInstanceAs (Decidable (∀ i < n, _))

/-- The sum of the `n` bytes at `a`. -/
def byteSum (mem : PhysMem) (a : Addr) (n : ℕ) : ℕ := ∑ i ∈ range n, (bytesAt mem a i).toNat

/-- `rsdt->header.length`. -/
def lengthOf (mem : PhysMem) (rsdt : Addr) : ℕ := (load32 mem (rsdt + 4)).toNat

/-- The tables that the entries of the RSDT address. -/
def rsdtTables (mem : PhysMem) (rsdt : Addr) : List Addr :=
  (List.range ((lengthOf mem rsdt - sizeofAcpiHeader) / 4)).map (tableAt mem rsdt)

/-- A table that is an APIC table. -/
def IsApic (mem : PhysMem) (table : Addr) : Prop := Signed mem table (literal "APIC") 4

instance (mem : PhysMem) (table : Addr) : Decidable (IsApic mem table) :=
  inferInstanceAs (Decidable (Signed ..))

/-- What `kern_flags` and `apic_madt` should be after `acpi_init`. -/
def acpiSpec (mem : PhysMem) (rsdp : Addr) (flags : BitVec 8) (madt : Addr) : BitVec 8 × Addr :=
  let rsdt := rsdtOf mem rsdp
  if ¬ Signed mem rsdp (literal "RSD PTR") 7 ∨ byteSum mem rsdt (lengthOf mem rsdt) % 256 ≠ 0 then
    (flags &&& ~~~usingAcpi, madt)
  else
    match (rsdtTables mem rsdt).find? (IsApic mem ·) with
    | some table => (flags ||| usingApic, table)
    | none => (flags, madt)

/-- `acpi_init` leaves what the specification says. -/
def MeetsAcpiSpec (mem : PhysMem) (rsdp : Addr) (k : Kernel) : Prop :=
  ((k.after (acpiInit mem rsdp)).kernFlags, (k.after (acpiInit mem rsdp)).apicMadt) =
    acpiSpec mem rsdp k.kernFlags k.apicMadt

/-! ### `strncmp` and the signatures -/

/-- `strncmp` finds a difference if there is one before the null pointer. -/
theorem agree_eq_false_iff {a : Addr} {s : Bytes} {n : ℕ} :
    agree mem a s n = false ↔
      ∃ j < n, (∀ i < j + 1, a + BitVec.ofNat 64 i ≠ 0) ∧ bytesAt mem a j ≠ s j := by
  induction n generalizing a s with
  | zero =>
    refine iff_of_false Bool.true_eq_false_eq_False ?_
    rintro ⟨j, hj, -⟩
    exact absurd hj (Nat.not_lt_zero j)
  | succ n ih =>
    have hfirst : bytesAt mem a 0 = loadByte mem a := congrArg (loadByte mem) (BitVec.add_zero a)
    have hnext : ∀ i, bytesAt mem (a + 1) i = bytesAt mem a (i + 1) :=
      fun i => congrArg (loadByte mem) (add_one_add_ofNat a i)
    have hrest : ∀ i, (s.from 1) i = s (i + 1) := fun i => congrArg s (Nat.add_comm 1 i)
    rw [Nat.exists_lt_succ_left, agree, Bool.or_eq_false_iff, Bool.and_eq_false_iff, ih]
    simp only [forall_ptr_succ, hfirst, hnext, hrest, beq_eq_false_iff_ne]
    constructor
    · rintro ⟨hnull, hne | ⟨j, hj, hptr, hne⟩⟩
      · exact Or.inl ⟨⟨hnull, fun i hi => absurd hi (Nat.not_lt_zero i)⟩, hne⟩
      · exact Or.inr ⟨j, hj, ⟨hnull, hptr⟩, hne⟩
    · rintro (⟨⟨hnull, -⟩, hne⟩ | ⟨j, hj, ⟨hnull, hptr⟩, hne⟩)
      · exact ⟨hnull, Or.inl hne⟩
      · exact ⟨hnull, Or.inr ⟨j, hj, hptr, hne⟩⟩

/-- No pointer into a table wraps around. -/
theorem tableAt_add_ne (mem : PhysMem) (rsdt : Addr) (i : ℕ) {j : ℕ} (hj : j < 4)
    (h : tableAt mem rsdt i ≠ 0) : tableAt mem rsdt i + BitVec.ofNat 64 j ≠ 0 := by
  have hlt := tableAt_lt mem rsdt i
  rw [ne_eq, ← BitVec.toNat_inj] at h ⊢
  rw [BitVec.toNat_add, BitVec.toNat_ofNat]
  have hzero : (0 : Addr).toNat = 0 := rfl
  omega

/-- A table is taken for the MADT if it is an APIC table, or if its address is 0. -/
theorem isMadt_iff (mem : PhysMem) (rsdt : Addr) (i : ℕ) :
    isMadt mem (tableAt mem rsdt i) = true ↔
      tableAt mem rsdt i = 0 ∨ IsApic mem (tableAt mem rsdt i) := by
  constructor
  · intro hmadt
    by_contra hnot
    obtain ⟨hnull, hapic⟩ := not_or.mp hnot
    obtain ⟨j, hj, hne⟩ : ∃ j < 4, bytesAt mem (tableAt mem rsdt i) j ≠ literal "APIC" j := by
      by_contra hall
      exact hapic fun j hj => not_not.mp fun hne => hall ⟨j, hj, hne⟩
    have hfalse : isMadt mem (tableAt mem rsdt i) = false :=
      agree_eq_false_iff.mpr ⟨j, hj, fun l hl => tableAt_add_ne mem rsdt i (by omega) hnull, hne⟩
    rw [hfalse] at hmadt
    exact Bool.false_ne_true hmadt
  · rintro (hnull | hapic)
    · rw [isMadt, hnull]
      exact agree_null ..
    · exact agree_of_bytes hapic

/-! ### The checksum -/

/-- The `unsigned char` that `verify_rsdt` sums up is the sum of the bytes modulo 256. -/
theorem rsdtSum_toNat (mem : PhysMem) (rsdt : Addr) (n : ℕ) :
    (rsdtSum mem rsdt 0 (List.range n)).toNat = byteSum mem rsdt n % 256 := by
  induction n with
  | zero => rfl
  | succ n ih =>
    unfold rsdtSum byteSum at ih ⊢
    rw [List.range_succ, List.foldl_append, List.foldl_cons, List.foldl_nil, BitVec.toNat_add, ih,
      sum_range_succ, bytesAt]
    omega

theorem rsdtChecksum_eq_zero_iff (mem : PhysMem) (rsdt : Addr) :
    rsdtChecksum mem rsdt = 0 ↔ byteSum mem rsdt (lengthOf mem rsdt) % 256 = 0 := by
  rw [← rsdtSum_toNat, ← BitVec.toNat_inj]
  rfl

/-! ### The search -/

/-- Two searches of which one takes what the other takes have the same result if nothing that only
the one takes comes first. -/
theorem find?_eq_find?_iff {α : Type} {p q : α → Bool} {l : List α}
    (h : ∀ a ∈ l, q a = true → p a = true) :
    l.find? p = l.find? q ↔ ∀ a ∈ l.takeWhile (!q ·), p a = false := by
  induction l with
  | nil => simp
  | cons a l ih =>
    have hhead := h a List.mem_cons_self
    have htail := ih fun b hb => h b (List.mem_cons_of_mem a hb)
    rw [List.find?_cons, List.find?_cons, List.takeWhile_cons]
    cases hq : q a with
    | true => simp [hhead hq]
    | false =>
      cases hp : p a with
      | true =>
        refine iff_of_false ?_ fun hall => ?_
        · intro hfind
          have hmem := List.find?_some hfind.symm
          rw [hq] at hmem
          exact Bool.false_ne_true hmem
        · have := hall a (by simp)
          rw [hp] at this
          exact Bool.noConfusion this
      | false => simpa [hp] using htail

theorem madtIn_rsdtSlots (hlen : sizeofAcpiHeader ≤ lengthOf mem (rsdtOf mem rsdp)) :
    madtIn mem (rsdtOf mem rsdp) (rsdtSlots mem (rsdtOf mem rsdp)) =
      (rsdtTables mem (rsdtOf mem rsdp)).find? (isMadt mem) := by
  rw [madtIn, rsdtSlots, entryCount_of_le hlen]
  rfl

/-- The search finds the first APIC table exactly when no entry before it is zero. -/
theorem find?_isMadt_iff (mem : PhysMem) (rsdt : Addr) :
    (rsdtTables mem rsdt).find? (isMadt mem) = (rsdtTables mem rsdt).find? (IsApic mem ·) ↔
      0 ∉ (rsdtTables mem rsdt).takeWhile (¬ IsApic mem ·) := by
  have hmadt : ∀ t ∈ rsdtTables mem rsdt, isMadt mem t = true ↔ t = 0 ∨ IsApic mem t := by
    rw [rsdtTables, List.forall_mem_map]
    exact fun i _ => isMadt_iff mem rsdt i
  rw [find?_eq_find?_iff fun t ht hapic => (hmadt t ht).mpr (Or.inr (of_decide_eq_true hapic))]
  simp only [decide_not]
  constructor
  · intro hall hzero
    have hnull : isMadt mem 0 = true := agree_null ..
    rw [hall 0 hzero] at hnull
    exact Bool.false_ne_true hnull
  · intro hzero t ht
    have hmem : t ∈ rsdtTables mem rsdt := (List.takeWhile_sublist _).subset ht
    have hapic : ¬ IsApic mem t := by simpa using List.mem_takeWhile_imp ht
    rw [← Bool.not_eq_true, hmadt t hmem]
    exact not_or.mpr ⟨fun hnull => hzero (hnull ▸ ht), hapic⟩

/-! ### The globals after `acpi_init` -/

theorem searched_globals (mem : PhysMem) (k : Kernel) :
    ((k.searched mem).kernFlags, (k.searched mem).apicMadt) =
      match madtIn mem k.rsdt (rsdtSlots mem k.rsdt) with
      | some table => (k.kernFlags ||| usingApic, table)
      | none => (k.kernFlags, k.apicMadt) := by
  unfold Kernel.searched Kernel.scanned
  cases madtIn mem k.rsdt (rsdtSlots mem k.rsdt) with
  | none =>
    dsimp only
    split_ifs
    · rw [log_kernFlags, log_apicMadt, did_kernFlags, did_apicMadt]
    · rw [did_kernFlags, did_apicMadt]
  | some table =>
    dsimp only
    split_ifs
    · rw [log_kernFlags, log_apicMadt, log_kernFlags, log_apicMadt, did_kernFlags]
    · rw [log_kernFlags, log_apicMadt, did_kernFlags]

theorem located_apicMadt (mem : PhysMem) (rsdp : Addr) (k : Kernel) :
    (k.located mem rsdp).apicMadt = k.apicMadt := by
  rw [Kernel.located, log_apicMadt, did_apicMadt, log_apicMadt, did_apicMadt, log_apicMadt]

theorem verified_apicMadt (mem : PhysMem) (k : Kernel) :
    (k.verified mem).apicMadt = k.apicMadt := by
  unfold Kernel.verified
  dsimp only
  split_ifs
  · rw [did_apicMadt]
  · rw [log_apicMadt, did_apicMadt]

/-- What `acpi_init` makes of the globals: without a signature that agrees and a checksum of 0 it
clears `USING_ACPI`, else it searches. -/
theorem acpiInit_globals (mem : PhysMem) (rsdp : Addr) (hacpi : k.kernFlags &&& usingAcpi ≠ 0)
    (hlen : sizeofAcpiHeader ≤ lengthOf mem (rsdtOf mem rsdp)) :
    ((k.after (acpiInit mem rsdp)).kernFlags, (k.after (acpiInit mem rsdp)).apicMadt) =
      if agree mem rsdp (literal "RSD PTR") 7 ∧
          byteSum mem (rsdtOf mem rsdp) (lengthOf mem (rsdtOf mem rsdp)) % 256 = 0 then
        match (rsdtTables mem (rsdtOf mem rsdp)).find? (isMadt mem) with
        | some table => (k.kernFlags ||| usingApic, table)
        | none => (k.kernFlags, k.apicMadt)
      else (k.kernFlags &&& ~~~usingAcpi, k.apicMadt) := by
  rw [Kernel.after, acpiInit_run]
  by_cases hsig : agree mem rsdp (literal "RSD PTR") 7
  · rw [if_pos hsig]
    unfold Kernel.inited
    dsimp only
    by_cases hsum : rsdtChecksum mem (rsdtOf mem rsdp) = 0
    · have hstop : ¬ ((k.located mem rsdp).verified mem).kernFlags &&& usingAcpi = 0 := by
        rw [inited_stops_iff]
        exact not_or.mpr ⟨not_not.mpr hsum, hacpi⟩
      rw [if_neg hstop, if_pos ⟨hsig, (rsdtChecksum_eq_zero_iff ..).mp hsum⟩,
        ← madtIn_rsdtSlots hlen, log_kernFlags, log_apicMadt, searched_globals, log_rsdt, log_rsdt,
        verified_rsdt, located_rsdt, log_kernFlags, log_kernFlags,
        verified_kernFlags (by rw [located_rsdt, hsum]), located_kernFlags, log_apicMadt,
        log_apicMadt, verified_apicMadt, located_apicMadt]
    · rw [if_pos ((inited_stops_iff ..).mpr (Or.inl hsum)),
        if_neg fun h => hsum ((rsdtChecksum_eq_zero_iff ..).mpr h.2),
        verified_apicMadt, located_apicMadt]
      unfold Kernel.verified
      rw [located_rsdt, if_neg hsum, located_kernFlags]
  · rw [if_neg hsig, if_neg fun h => hsig h.1]
    unfold Kernel.refused
    dsimp only
    rw [log_apicMadt, did_apicMadt, log_apicMadt]

/-! ### The specification is met -/

theorem and_not_usingAcpi_ne {flags flags' : BitVec 8} (h : flags' &&& usingAcpi ≠ 0) :
    flags &&& ~~~usingAcpi ≠ flags' := by
  rintro rfl
  rw [BitVec.and_assoc] at h
  exact h BitVec.and_zero

theorem or_usingApic_and_usingAcpi (flags : BitVec 8) :
    (flags ||| usingApic) &&& usingAcpi = flags &&& usingAcpi := by
  revert flags
  decide

/-- Two searches leave the same globals only if they find the same table. -/
theorem found_inj {flags : BitVec 8} (h : flags &&& usingApic = 0) (madt : Addr)
    {found found' : Option Addr} :
    ((match found with
      | some table => (flags ||| usingApic, table)
      | none => (flags, madt)) =
      match found' with
      | some table => (flags ||| usingApic, table)
      | none => (flags, madt)) ↔ found = found' := by
  have hne : flags ||| usingApic ≠ flags := by
    intro heq
    rw [← heq, or_usingApic] at h
    exact absurd h (by decide)
  cases found with
  | none =>
    cases found' with
    | none => simp
    | some table => simp [hne.symm]
  | some table =>
    cases found' with
    | none => simp [hne]
    | some table' => simp

/-- **When `acpi_init` does what it should.**  That is so exactly if a byte of the signature differs
before the pointer wraps around, or the checksum is wrong, or the signature is right and no entry
of the RSDT before the first APIC table is zero. -/
theorem acpiInit_meetsSpec_iff (mem : PhysMem) (rsdp : Addr) (k : Kernel)
    (hacpi : k.kernFlags &&& usingAcpi ≠ 0) (hapic : k.kernFlags &&& usingApic = 0)
    (hlen : sizeofAcpiHeader ≤ lengthOf mem (rsdtOf mem rsdp)) :
    MeetsAcpiSpec mem rsdp k ↔
      (∃ j < 7, (∀ i < j + 1, rsdp + BitVec.ofNat 64 i ≠ 0) ∧
        bytesAt mem rsdp j ≠ literal "RSD PTR" j) ∨
      byteSum mem (rsdtOf mem rsdp) (lengthOf mem (rsdtOf mem rsdp)) % 256 ≠ 0 ∨
      Signed mem rsdp (literal "RSD PTR") 7 ∧
        0 ∉ (rsdtTables mem (rsdtOf mem rsdp)).takeWhile (¬ IsApic mem ·) := by
  rw [MeetsAcpiSpec, acpiInit_globals mem rsdp hacpi hlen, acpiSpec, ← agree_eq_false_iff,
    ← find?_isMadt_iff]
  cases hagree : agree mem rsdp (literal "RSD PTR") 7 with
  | false =>
    have hunsigned : ¬ Signed mem rsdp (literal "RSD PTR") 7 := by
      intro hsigned
      rw [agree_of_bytes hsigned] at hagree
      exact Bool.noConfusion hagree
    rw [if_neg (by simp), if_pos (Or.inl hunsigned)]
    exact iff_of_true rfl (Or.inl rfl)
  | true =>
    by_cases hsum : byteSum mem (rsdtOf mem rsdp) (lengthOf mem (rsdtOf mem rsdp)) % 256 = 0
    · rw [if_pos ⟨rfl, hsum⟩]
      by_cases hsigned : Signed mem rsdp (literal "RSD PTR") 7
      · rw [if_neg (by simp [hsigned, hsum]), found_inj hapic]
        simp [hsum, hsigned]
      -- The code goes on with an RSDP that has no signature.
      · rw [if_pos (Or.inl hsigned)]
        refine iff_of_false ?_ (by simp [hsum, hsigned])
        have hset := or_usingApic_and_usingAcpi k.kernFlags
        intro heq
        cases hfind : (rsdtTables mem (rsdtOf mem rsdp)).find? (isMadt mem) with
        | none =>
          rw [hfind] at heq
          exact and_not_usingAcpi_ne hacpi (congrArg Prod.fst heq).symm
        | some table =>
          rw [hfind] at heq
          exact and_not_usingAcpi_ne (hset ▸ hacpi) (congrArg Prod.fst heq).symm
    · rw [if_neg fun h => hsum h.2, if_pos (Or.inr hsum)]
      exact iff_of_true rfl (Or.inr (Or.inl hsum))

/-! ### A table of one entry -/

/-- Physical memory with an RSDT of one entry, which addresses `entry` times 0x100, and an APIC
table at 0x3000. -/
def tablesOfEntry (entry checksum : BitVec 8) : PhysMem :=
  storeBytes (storeBytes (storeBytes (tablesOfLength 40) 0x2009 [checksum]) 0x2025 [entry]) 0x3000
    (chars "APIC")

/-- The entry addresses the APIC table. -/
theorem acpiInit_meetsSpec_apic : MeetsAcpiSpec (tablesOfEntry 0x30 168) 0x1000 blankKernel :=
  (acpiInit_meetsSpec_iff _ _ blankKernel (by decide) (by decide) (by decide)).mpr
    (Or.inr (Or.inr ⟨by decide, by decide⟩))

/-- The entry is zero, and is taken for the address of the MADT. -/
theorem not_meetsAcpiSpec_zero : ¬ MeetsAcpiSpec (tablesOfEntry 0 216) 0x1000 blankKernel := by
  have hfound : (rsdtTables (tablesOfEntry 0 216) (rsdtOf (tablesOfEntry 0 216) 0x1000)).find?
      (isMadt (tablesOfEntry 0 216)) = some 0 := by decide
  have hcode : agree (tablesOfEntry 0 216) 0x1000 (literal "RSD PTR") 7 = true ∧
      byteSum (tablesOfEntry 0 216) (rsdtOf (tablesOfEntry 0 216) 0x1000)
        (lengthOf (tablesOfEntry 0 216) (rsdtOf (tablesOfEntry 0 216) 0x1000)) % 256 = 0 := by
    decide
  have hspec : acpiSpec (tablesOfEntry 0 216) 0x1000 usingAcpi 0 = (usingAcpi, 0) := by decide
  intro hmeets
  rw [MeetsAcpiSpec, acpiInit_globals _ _ (by decide) (by decide), if_pos hcode, hfound] at hmeets
  have hflags : usingAcpi ||| usingApic = usingAcpi :=
    congrArg Prod.fst (hmeets.trans hspec)
  exact absurd hflags (by decide)

end KessOS
