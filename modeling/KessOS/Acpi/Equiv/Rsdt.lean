import KessOS.Acpi.Equiv.Since

/-!
# The scan of the RSDT

`rsdt_entry_count` takes the size of the header off the length without a look at whether it is
that long.  The slots that `find_madt` reads lie in the RSDT if it is, and it walks out of it if a
shorter one has a valid checksum (`acpiInit_withinRsdt_iff`).
-/

namespace KessOS

open StateM Trace

variable {mem : PhysMem} {k k' : Kernel} {rsdp rsdt : Addr} {logs : List (String × Status)}
  {as : List Access}

/-! ### Slots -/

/-- A slot of the RSDT is read. -/
def Access.isSlot : Access → Bool
  | .read (.slot _) _ _ => true
  | _ => false

/-- The reads of slots. -/
def slotReads (as : List Access) : List Access := as.filter Access.isSlot

theorem slotReads_append (as as' : List Access) :
    slotReads (as ++ as') = slotReads as ++ slotReads as' := List.filter_append ..

theorem slotReads_eq_nil {as : List Access} (h : ∀ a ∈ as, ¬ a.isSlot) : slotReads as = [] :=
  List.filter_eq_nil_iff.mpr h

/-- Typing reads no slot. -/
theorem slotReads_outputs (mem : PhysMem) (c : Canvas) (ts : List (BitVec 32 × BitVec 8)) :
    slotReads (outputs Canvas.act (Canvas.out mem) c ts) = [] := by
  refine slotReads_eq_nil (forall_mem_outputs.mpr (along_of_invariant (I := fun _ => True) ts
    trivial (fun _ _ _ => trivial) fun c t _ => ?_))
  unfold Canvas.out Canvas.typing
  split_ifs
  · exact fun a ha => absurd ha List.not_mem_nil
  · rw [List.forall_mem_cons, forall_mem_putChar]
    simp [Access.isSlot]

theorem slotReads_comparing (mem : PhysMem) {what : Handed} (hwhat : ∀ i, what ≠ .slot i) (a : Addr)
    (s : Bytes) (n : ℕ) : slotReads (comparing mem what a s n) = [] := by
  refine slotReads_eq_nil (forall_mem_comparing.mpr fun i _ _ _ => ?_)
  cases what with
  | slot j => exact absurd rfl (hwhat j)
  | _ => exact Bool.false_ne_true

theorem slotReads_summing (rsdt : Addr) (is : List ℕ) : slotReads (summing rsdt is) = [] := by
  refine slotReads_eq_nil ?_
  rw [forall_mem_summing]
  simp [Access.isSlot]

/-- The slots that are read, without what is logged. -/
theorem slotReads_since (h : k.Ran mem logs as k') :
    (slotReads (k.since k')).Perm (slotReads as) := by
  have hfilter : (slotReads (k.since k')).Perm (slotReads (_ ++ as)) := h.perm.filter Access.isSlot
  rwa [slotReads_append, slotReads_outputs, List.nil_append] at hfilter

/-- The slots that `acpi_init` reads. -/
theorem slotReads_acpiReads (mem : PhysMem) {rsdp : Addr}
    (hsig : agree mem rsdp (literal "RSD PTR") 7) (flags : BitVec 8) :
    slotReads (acpiReads mem rsdp flags) =
      if rsdtChecksum mem (rsdtOf mem rsdp) ≠ 0 ∨ flags &&& usingAcpi = 0 then []
      else slotReads (scanning mem (rsdtOf mem rsdp) (rsdtSlots mem (rsdtOf mem rsdp))) := by
  unfold acpiReads locatedReads
  dsimp only
  rw [if_pos hsig, slotReads_append, slotReads_append, slotReads_append,
    slotReads_comparing mem (fun _ => by simp), slotReads_summing]
  split_ifs
  · rfl
  · rfl

/-- One slot is read in a round of the loop. -/
theorem slotReads_probing (mem : PhysMem) (rsdt : Addr) (i : ℕ) :
    slotReads (probing mem rsdt i) = [.read (.slot i) (slotAddr rsdt i) 4] := by
  have htable : slotReads (comparing mem .table (tableAt mem rsdt i) (literal "APIC") 4) = [] :=
    slotReads_comparing mem (fun _ => by simp) ..
  rw [slotReads] at htable
  simp only [slotReads, probing, List.filter_cons, Access.isSlot, htable]
  rfl

theorem slotReads_scanning_cons (mem : PhysMem) (rsdt : Addr) (i : ℕ) (is : List ℕ) :
    slotReads (scanning mem rsdt (i :: is)) = .read (.slot i) (slotAddr rsdt i) 4 ::
      if isMadt mem (tableAt mem rsdt i) then [] else slotReads (scanning mem rsdt is) := by
  rw [scanning, slotReads_append, slotReads_probing]
  split_ifs
  · rfl
  · rfl

theorem slotReads_scanning (mem : PhysMem) (rsdt : Addr) (is : List ℕ) :
    (slotReads (scanning mem rsdt is)).length ≤ is.length ∧
      ∀ a ∈ slotReads (scanning mem rsdt is),
        ∃ i ∈ is, a = .read (.slot i) (slotAddr rsdt i) 4 := by
  induction is with
  | nil => exact ⟨le_rfl, fun _ h => absurd h List.not_mem_nil⟩
  | cons i is ih =>
    rw [slotReads_scanning_cons, List.forall_mem_cons]
    have hhead : ∃ j ∈ i :: is, Access.read (.slot i) (slotAddr rsdt i) 4 =
        .read (.slot j) (slotAddr rsdt j) 4 := ⟨i, List.mem_cons_self, rfl⟩
    split_ifs
    · exact ⟨Nat.succ_le_succ (Nat.zero_le _), hhead, fun _ h => absurd h List.not_mem_nil⟩
    · refine ⟨Nat.succ_le_succ ih.1, hhead, fun a ha => ?_⟩
      obtain ⟨j, hj, rfl⟩ := ih.2 a ha
      exact ⟨j, List.mem_cons_of_mem i hj, rfl⟩

/-! ### Lengths -/

theorem toNat_entryCount (length : BitVec 32) :
    (entryCount length).toNat = (2 ^ 64 - 36 + length.toNat) % 2 ^ 64 / 4 % 2 ^ 32 := by
  have hlt := length.isLt
  have hheader : (BitVec.ofNat 64 sizeofAcpiHeader).toNat = 36 := rfl
  have hfour : (4#64).toNat = 4 := rfl
  rw [entryCount, BitVec.toNat_setWidth, BitVec.toNat_udiv, BitVec.toNat_sub, hheader, hfour,
    BitVec.toNat_setWidth_of_le (by decide)]

theorem entryCount_of_le {length : BitVec 32} (h : 36 ≤ length.toNat) :
    (entryCount length).toNat = (length.toNat - 36) / 4 := by
  have hlt := length.isLt
  rw [toNat_entryCount]
  omega

/-- A table that is shorter than its header has entries all the same. -/
theorem entryCount_pos {length : BitVec 32} (h : length.toNat < 36) :
    0 < (entryCount length).toNat := by
  rw [toNat_entryCount]
  omega

theorem rsdtOf_lt (mem : PhysMem) (rsdp : Addr) : (rsdtOf mem rsdp).toNat < 2 ^ 32 := by
  have hlt := (load32 mem (rsdp + 16)).isLt
  rw [rsdtOf, BitVec.toNat_setWidth]
  omega

theorem tableAt_lt (mem : PhysMem) (rsdt : Addr) (i : ℕ) : (tableAt mem rsdt i).toNat < 2 ^ 32 := by
  have hlt := (load32 mem (slotAddr rsdt i)).isLt
  rw [tableAt, BitVec.toNat_setWidth]
  omega

theorem toNat_slotAddr {rsdt : Addr} (hrsdt : rsdt.toNat < 2 ^ 32) {i : ℕ} (hi : i < 2 ^ 32) :
    (slotAddr rsdt i).toNat = rsdt.toNat + 36 + 4 * i := by
  unfold slotAddr sizeofAcpiHeader
  simp only [BitVec.toNat_add, BitVec.toNat_mul, BitVec.toNat_ofNat]
  omega

/-- The slots that are read are among the `length` bytes of the RSDT, and there are at most
`length / 4` of them. -/
structure WithinRsdt (mem : PhysMem) (rsdt : Addr) (as : List Access) : Prop where
  inside : ∀ i a n, .read (.slot i) a n ∈ as →
    rsdt.toNat ≤ a.toNat ∧ a.toNat + n ≤ rsdt.toNat + (load32 mem (rsdt + 4)).toNat
  rounds : (slotReads as).length ≤ (load32 mem (rsdt + 4)).toNat / 4

theorem mem_slotReads {as : List Access} {i : ℕ} {a : Addr} {n : ℕ} :
    .read (.slot i) a n ∈ slotReads as ↔ .read (.slot i) a n ∈ as := by
  rw [slotReads, List.mem_filter]
  exact and_iff_left rfl

theorem withinRsdt_of_nil {as : List Access} (h : slotReads as = []) :
    WithinRsdt mem rsdt as where
  inside i a n ha := by
    rw [← mem_slotReads, h] at ha
    exact absurd ha List.not_mem_nil
  rounds := by
    rw [h]
    exact Nat.zero_le _

theorem withinRsdt_of_scanning {as : List Access} (hrsdt : rsdt.toNat < 2 ^ 32)
    (hlen : 36 ≤ (load32 mem (rsdt + 4)).toNat)
    (h : (slotReads as).Perm (slotReads (scanning mem rsdt (rsdtSlots mem rsdt)))) :
    WithinRsdt mem rsdt as := by
  have hcount := entryCount_of_le hlen
  have hlt := (load32 mem (rsdt + 4)).isLt
  obtain ⟨hrounds, hslots⟩ := slotReads_scanning mem rsdt (rsdtSlots mem rsdt)
  have hsize : (rsdtSlots mem rsdt).length = ((load32 mem (rsdt + 4)).toNat - 36) / 4 := by
    rw [rsdtSlots, List.length_range, hcount]
  constructor
  · intro i a n ha
    rw [← mem_slotReads, h.mem_iff] at ha
    obtain ⟨j, hj, heq⟩ := hslots _ ha
    obtain ⟨-, rfl, rfl⟩ := Access.read.inj heq
    rw [rsdtSlots, List.mem_range, hcount] at hj
    rw [toNat_slotAddr hrsdt (by omega)]
    omega
  · rw [h.length_eq]
    omega

/-- The first slot of a table that is shorter than its header is read, and it is outside. -/
theorem not_withinRsdt_of_scanning {as : List Access} (hrsdt : rsdt.toNat < 2 ^ 32)
    (hlen : (load32 mem (rsdt + 4)).toNat < 36)
    (h : (slotReads as).Perm (slotReads (scanning mem rsdt (rsdtSlots mem rsdt)))) :
    ¬ WithinRsdt mem rsdt as := by
  intro hwithin
  obtain ⟨n, hn⟩ := Nat.exists_eq_succ_of_ne_zero (entryCount_pos hlen).ne'
  have hfirst : .read (.slot 0) (slotAddr rsdt 0) 4 ∈ slotReads as := by
    rw [h.mem_iff, rsdtSlots, hn, List.range_succ_eq_map, slotReads_scanning_cons]
    exact List.mem_cons_self
  have hend := (hwithin.inside _ _ _ (mem_slotReads.mp hfirst)).2
  rw [toNat_slotAddr hrsdt (by decide)] at hend
  omega

/-- **Whether the scan of the RSDT stays inside it.**  With a signature that matches, the slots that
`acpi_init` reads are within the bytes that were summed if, and only if, the RSDT is as long as
its header, or its checksum or the flag that was clear before keeps `find_madt` from being
called. -/
theorem acpiInit_withinRsdt_iff (mem : PhysMem) (rsdp : Addr) (k : Kernel)
    (hsig : ∀ i < 7, bytesAt mem rsdp i = literal "RSD PTR" i) :
    WithinRsdt mem (rsdtOf mem rsdp) (k.since (k.after (acpiInit mem rsdp))) ↔
      36 ≤ (load32 mem (rsdtOf mem rsdp + 4)).toNat ∨ rsdtChecksum mem (rsdtOf mem rsdp) ≠ 0 ∨
        k.kernFlags &&& usingAcpi = 0 := by
  have hslots := slotReads_since (acpiInit_ran mem rsdp k)
  rw [slotReads_acpiReads mem (agree_of_bytes hsig)] at hslots
  by_cases hclear : rsdtChecksum mem (rsdtOf mem rsdp) ≠ 0 ∨ k.kernFlags &&& usingAcpi = 0
  · rw [if_pos hclear] at hslots
    exact iff_of_true (withinRsdt_of_nil hslots.eq_nil) (Or.inr hclear)
  · rw [if_neg hclear] at hslots
    rw [or_iff_left hclear]
    constructor
    · intro hwithin
      by_contra hlen
      exact not_withinRsdt_of_scanning (rsdtOf_lt mem rsdp) (Nat.not_le.mp hlen) hslots hwithin
    · exact fun hlen => withinRsdt_of_scanning (rsdtOf_lt mem rsdp) hlen hslots

/-! ### Two tables -/

/-- Physical memory with an RSDP at 0x1000 and an RSDT of some length at 0x2000, and nothing
else. -/
def tablesOfLength (length : BitVec 8) : PhysMem :=
  storeBytes (storeBytes (storeBytes (fun _ _ => 0) 0x1000 (chars "RSD PTR ")) 0x1010 [0x00, 0x20])
    0x2004 [length]

/-- The one of 40 bytes, with a checksum. -/
def summedTables : PhysMem := storeBytes (tablesOfLength 40) 0x2009 [216]

/-- Its checksum is right, so that the one slot is read. -/
theorem acpiInit_withinRsdt_forty :
    (rsdtChecksum summedTables (rsdtOf summedTables 0x1000) = 0 ∧
      blankKernel.kernFlags &&& usingAcpi ≠ 0 ∧
      rsdtSlots summedTables (rsdtOf summedTables 0x1000) = [0]) ∧
    WithinRsdt summedTables (rsdtOf summedTables 0x1000)
      (blankKernel.since (blankKernel.after (acpiInit summedTables 0x1000))) :=
  ⟨⟨by decide, by decide, by decide⟩,
    (acpiInit_withinRsdt_iff summedTables 0x1000 blankKernel (by decide)).mpr (Or.inl (by decide))⟩

/-- A table of no bytes: `verify_rsdt` leaves `USING_ACPI` set. -/
theorem acpiInit_leaves_empty :
    (∀ i < 7, bytesAt (tablesOfLength 0) 0x1000 i = literal "RSD PTR" i) ∧
      ((blankKernel.located (tablesOfLength 0) 0x1000).after
        (verifyRsdt (tablesOfLength 0))).kernFlags &&& usingAcpi ≠ 0 ∧
      ¬ WithinRsdt (tablesOfLength 0) (rsdtOf (tablesOfLength 0) 0x1000)
        (blankKernel.since (blankKernel.after (acpiInit (tablesOfLength 0) 0x1000))) := by
  have hsig : ∀ i < 7, bytesAt (tablesOfLength 0) 0x1000 i = literal "RSD PTR" i := by decide
  have hsum : rsdtChecksum (tablesOfLength 0) (rsdtOf (tablesOfLength 0) 0x1000) = 0 := by decide
  have hset : ((blankKernel.located (tablesOfLength 0) 0x1000).after
      (verifyRsdt (tablesOfLength 0))).kernFlags &&& usingAcpi ≠ 0 := by
    rw [Kernel.after, verifyRsdt_run, ne_eq, inited_stops_iff]
    exact not_or.mpr ⟨not_not.mpr hsum, by decide⟩
  have hslots := slotReads_since (acpiInit_ran (tablesOfLength 0) 0x1000 blankKernel)
  rw [slotReads_acpiReads _ (agree_of_bytes hsig),
    if_neg (not_or.mpr ⟨not_not.mpr hsum, by decide⟩)] at hslots
  exact ⟨hsig, hset, not_withinRsdt_of_scanning (rsdtOf_lt _ _) (by decide) hslots⟩

end KessOS
