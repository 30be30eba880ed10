import KessOS.Acpi.Basic
import KessOS.Video.Equiv.Console

/-!
# Runs of `acpi_init`

What each function of `acpi.c` returns and reads, and the kernel that it leaves; `acpiInit_run`
puts them together.
-/

namespace KessOS

open StateM Trace

variable {mem : PhysMem} {k : Kernel}

theorem readByte_run (mem : PhysMem) (what : Handed) (a : Addr) (k : Kernel) :
    (readByte mem what a).run k = (loadByte mem a, k.did [.read what a 1]) := rfl

theorem read32_run (mem : PhysMem) (what : Handed) (a : Addr) (k : Kernel) :
    (read32 mem what a).run k = (load32 mem a, k.did [.read what a 4]) := rfl

/-! ### `strncmp` -/

/-- What `strncmp` finds of the bytes at `a` and a literal. -/
def agree (mem : PhysMem) (a : Addr) (s : Bytes) : ℕ → Bool
  | 0 => true
  | n + 1 => a == 0 || (loadByte mem a == s 0 && agree mem (a + 1) (s.from 1) n)

/-- What it reads for that. -/
def comparing (mem : PhysMem) (what : Handed) (a : Addr) (s : Bytes) : ℕ → List Access
  | 0 => []
  | n + 1 =>
    if a = 0 then []
    else .read what a 1 ::
      if loadByte mem a = s 0 then comparing mem what (a + 1) (s.from 1) n else []

/-- A step of `strncmp` at a pointer that is not `NULL`. -/
theorem strncmp_succ (mem : PhysMem) (what : Handed) {a : Addr} (ha : a ≠ 0) (s : Bytes) (n : ℕ)
    (k : Kernel) : (strncmp mem (.handed what a) (.literal s) (n + 1)).run k =
      if loadByte mem a = s 0 then
        (strncmp mem (.handed what (a + 1)) (.literal (s.from 1)) n).run (k.did [.read what a 1])
      else (0, k.did [.read what a 1]) := by
  have hnull : (CharPtr.isNull (.handed what a) || CharPtr.isNull (.literal s)) = false := by
    simpa [CharPtr.isNull] using ha
  rw [strncmp, hnull, if_neg Bool.false_ne_true, CharPtr.deref, run_bind_of_eq (readByte_run ..)]
  show (if loadByte mem a ≠ s 0 then _ else _ : KernelM (BitVec 8)).run _ = _
  by_cases h : loadByte mem a = s 0
  · rw [if_neg (not_not.mpr h), if_pos h]
    rfl
  · rw [if_pos h, if_neg h]
    rfl

theorem strncmp_run (mem : PhysMem) (what : Handed) (a : Addr) (s : Bytes) (n : ℕ) (k : Kernel) :
    (strncmp mem (.handed what a) (.literal s) n).run k =
      (if agree mem a s n then 1 else 0, k.did (comparing mem what a s n)) := by
  induction n generalizing a s k with
  | zero =>
    rw [comparing, did_nil]
    rfl
  | succ n ih =>
    by_cases hnull : a = 0
    · subst hnull
      rw [agree, comparing, if_pos rfl, did_nil]
      rfl
    · rw [strncmp_succ mem what hnull, agree, comparing, if_neg hnull, beq_false_of_ne hnull,
        Bool.false_or]
      by_cases heq : loadByte mem a = s 0
      · rw [if_pos heq, if_pos heq, ih, did_did, beq_iff_eq.mpr heq, Bool.true_and]
        rfl
      · rw [if_neg heq, if_neg heq, beq_false_of_ne heq, Bool.false_and]
        rfl

theorem agrees_run (mem : PhysMem) (what : Handed) (a : Addr) (signature : String) (k : Kernel) :
    (agrees mem what a signature).run k =
      (agree mem a (literal signature) signature.length,
        k.did (comparing mem what a (literal signature) signature.length)) := by
  rw [agrees, run_bind_of_eq (strncmp_run ..)]
  cases agree mem a (literal signature) signature.length
  · rfl
  · rfl

/-- The null pointer agrees with every literal. -/
@[simp] theorem agree_null (s : Bytes) (n : ℕ) : agree mem 0 s n = true := by
  cases n <;> rfl

/-- A string agrees with a literal if its first byte does, and so does what follows. -/
theorem forall_bytesAt_succ {a : Addr} {s : Bytes} {n : ℕ} :
    (∀ i < n + 1, bytesAt mem a i = s i) ↔
      loadByte mem a = s 0 ∧ ∀ i < n, bytesAt mem (a + 1) i = (s.from 1) i := by
  have hfirst : bytesAt mem a 0 = loadByte mem a := congrArg (loadByte mem) (BitVec.add_zero a)
  have hnext : ∀ i, bytesAt mem (a + 1) i = bytesAt mem a (i + 1) :=
    fun i => congrArg (loadByte mem) (add_one_add_ofNat a i)
  have hrest : ∀ i, (s.from 1) i = s (i + 1) := fun i => congrArg s (Nat.add_comm 1 i)
  rw [Nat.forall_lt_succ_left, hfirst]
  simp only [hnext, hrest]

/-- No pointer on the way is `NULL`. -/
theorem forall_ptr_succ {a : Addr} {n : ℕ} : (∀ j < n + 1, a + BitVec.ofNat 64 j ≠ 0) ↔
    a ≠ 0 ∧ ∀ j < n, a + 1 + BitVec.ofNat 64 j ≠ 0 := by
  have hzero : a + BitVec.ofNat 64 0 = a := BitVec.add_zero a
  rw [Nat.forall_lt_succ_left, hzero]
  simp only [add_one_add_ofNat]

/-- The bytes of the literal agree with it. -/
theorem agree_of_bytes {a : Addr} {s : Bytes} {n : ℕ} (h : ∀ i < n, bytesAt mem a i = s i) :
    agree mem a s n = true := by
  induction n generalizing a s with
  | zero => rfl
  | succ n ih =>
    obtain ⟨hfirst, hrest⟩ := forall_bytesAt_succ.mp h
    rw [agree, beq_iff_eq.mpr hfirst, ih hrest, Bool.true_and, Bool.or_true]

/-- What holds of every read of `strncmp`: it goes on to byte `i` as long as the pointer is not
`NULL` and the bytes before agree. -/
theorem forall_mem_comparing {what : Handed} {a : Addr} {s : Bytes} {n : ℕ} {P : Access → Prop} :
    (∀ x ∈ comparing mem what a s n, P x) ↔
      ∀ i < n, (∀ j < i + 1, a + BitVec.ofNat 64 j ≠ 0) → (∀ j < i, bytesAt mem a j = s j) →
        P (.read what (a + BitVec.ofNat 64 i) 1) := by
  induction n generalizing a s with
  | zero => simp [comparing]
  | succ n ih =>
    have hzero : a + BitVec.ofNat 64 0 = a := BitVec.add_zero a
    rw [Nat.forall_lt_succ_left, comparing, hzero]
    simp only [forall_ptr_succ, forall_bytesAt_succ, ← add_one_add_ofNat]
    by_cases hnull : a = 0
    · rw [if_pos hnull]
      exact iff_of_true (fun _ h => absurd h List.not_mem_nil)
        ⟨fun h => absurd hnull h.1, fun _ _ h => absurd hnull h.1⟩
    · rw [if_neg hnull, List.forall_mem_cons]
      have hnone : ∀ {q : ℕ → Prop}, ∀ j < 0, q j := fun j hj => absurd hj (Nat.not_lt_zero j)
      refine and_congr ⟨fun h _ _ => h, fun h => h ⟨hnull, hnone⟩ hnone⟩ ?_
      by_cases heq : loadByte mem a = s 0
      · rw [if_pos heq, ih]
        simp only [forall_ptr_succ, heq, true_and, ne_eq, hnull, not_false_eq_true]
      · rw [if_neg heq]
        exact iff_of_true (fun _ h => absurd h List.not_mem_nil) fun _ _ _ h => absurd h.1 heq

/-! ### `verify_rsdt` -/

/-- The sum of the bytes of the RSDT. -/
def rsdtSum (mem : PhysMem) (rsdt : Addr) (sum : BitVec 8) (is : List ℕ) : BitVec 8 :=
  is.foldl (fun sum i => sum + loadByte mem (rsdt + BitVec.ofNat 64 i)) sum

/-- What the loop of `verify_rsdt` reads. -/
def summing (rsdt : Addr) (is : List ℕ) : List Access :=
  (is.flatMap fun i => [.read .rsdt (rsdt + 4) 4, .read .rsdt (rsdt + BitVec.ofNat 64 i) 1]) ++
    [.read .rsdt (rsdt + 4) 4]

theorem forall_mem_summing {rsdt : Addr} {is : List ℕ} {P : Access → Prop} :
    (∀ a ∈ summing rsdt is, P a) ↔ P (.read .rsdt (rsdt + 4) 4) ∧
      ∀ i ∈ is, P (.read .rsdt (rsdt + BitVec.ofNat 64 i) 1) := by
  unfold summing
  rw [List.forall_mem_append, List.forall_mem_flatMap, List.forall_mem_singleton]
  constructor
  · exact fun h => ⟨h.2, fun i hi => h.1 i hi _ (List.mem_cons_of_mem _ List.mem_cons_self)⟩
  · intro h
    refine ⟨fun i hi => ?_, h.1⟩
    rw [List.forall_mem_cons, List.forall_mem_singleton]
    exact ⟨h.1, h.2 i hi⟩

theorem rsdtLength_run (mem : PhysMem) (k : Kernel) :
    (rsdtLength mem).run k = (load32 mem (k.rsdt + 4), k.did [.read .rsdt (k.rsdt + 4) 4]) := rfl

theorem sumRsdt_run (mem : PhysMem) (sum : BitVec 8) (is : List ℕ) (k : Kernel) :
    (sumRsdt mem sum is).run k = (rsdtSum mem k.rsdt sum is, k.did (summing k.rsdt is)) := by
  induction is generalizing sum k with
  | nil => rfl
  | cons i is ih =>
    rw [sumRsdt, run_bind_of_eq (rsdtLength_run mem k), run_bind_of_eq (get_run _),
      run_bind_of_eq (readByte_run ..), ih, did_did, did_did]
    rfl

/-- The values of `i` in the loop of `verify_rsdt`. -/
def rsdtBytes (mem : PhysMem) (rsdt : Addr) : List ℕ := List.range (load32 mem (rsdt + 4)).toNat

/-- The checksum that `verify_rsdt` finds. -/
def rsdtChecksum (mem : PhysMem) (rsdt : Addr) : BitVec 8 :=
  rsdtSum mem rsdt 0 (rsdtBytes mem rsdt)

/-- The kernel after `verify_rsdt`. -/
def Kernel.verified (mem : PhysMem) (k : Kernel) : Kernel :=
  let k' := k.did (summing k.rsdt (rsdtBytes mem k.rsdt))
  if rsdtChecksum mem k.rsdt = 0 then k'
  else { k'.log mem "RSDT checksum invalid, system halted. (Continuing without ACPI)."
      .critical with
    kernFlags := k.kernFlags &&& ~~~usingAcpi }

theorem setFlags_run (f : BitVec 8 → BitVec 8) (k : Kernel) :
    (setFlags f).run k = ((), { k with kernFlags := f k.kernFlags }) := rfl

theorem verifyRsdt_run (mem : PhysMem) (k : Kernel) :
    (verifyRsdt mem).run k = ((), k.verified mem) := by
  unfold verifyRsdt Kernel.verified
  rw [run_bind_of_eq (get_run k)]
  show (sumRsdt mem 0 (rsdtBytes mem k.rsdt) >>= _).run k = _
  rw [run_bind_of_eq (sumRsdt_run ..)]
  show (if rsdtChecksum mem k.rsdt ≠ 0 then _ else _ : KernelM Unit).run _ = _
  by_cases h : rsdtChecksum mem k.rsdt = 0
  · rw [if_neg (not_not.mpr h), if_pos h]
    rfl
  · rw [if_pos h, if_neg h, run_bind_of_eq (log_run ..), setFlags_run, log_kernFlags,
      did_kernFlags]

/-! ### `find_madt` -/

/-- Where slot `i` of the RSDT lies. -/
def slotAddr (rsdt : Addr) (i : ℕ) : Addr :=
  rsdt + BitVec.ofNat 64 sizeofAcpiHeader + 4#64 * BitVec.ofNat 64 i

/-- The table that slot `i` points to. -/
def tableAt (mem : PhysMem) (rsdt : Addr) (i : ℕ) : Addr :=
  (load32 mem (slotAddr rsdt i)).setWidth 64

/-- Whether a table is taken for the MADT. -/
def isMadt (mem : PhysMem) (table : Addr) : Bool := agree mem table (literal "APIC") 4

/-- The reads of one round of the loop of `find_madt`. -/
def probing (mem : PhysMem) (rsdt : Addr) (i : ℕ) : List Access :=
  .read .rsdt (rsdt + 4) 4 :: .read (.slot i) (slotAddr rsdt i) 4 ::
    comparing mem .table (tableAt mem rsdt i) (literal "APIC") 4

/-- The reads of the loop. -/
def scanning (mem : PhysMem) (rsdt : Addr) : List ℕ → List Access
  | [] => [.read .rsdt (rsdt + 4) 4]
  | i :: is =>
    probing mem rsdt i ++ if isMadt mem (tableAt mem rsdt i) then [] else scanning mem rsdt is

/-- What holds of every read of the loop: slot `i` is read if no slot before it has the MADT. -/
theorem forall_mem_scanning {rsdt : Addr} {lo n : ℕ} {P : Access → Prop} :
    (∀ a ∈ scanning mem rsdt (List.range' lo n), P a) ↔ P (.read .rsdt (rsdt + 4) 4) ∧
      ∀ i < n, (∀ j < i, isMadt mem (tableAt mem rsdt (lo + j)) = false) →
        P (.read (.slot (lo + i)) (slotAddr rsdt (lo + i)) 4) ∧
          ∀ a ∈ comparing mem .table (tableAt mem rsdt (lo + i)) (literal "APIC") 4, P a := by
  induction n generalizing lo with
  | zero => simp [scanning]
  | succ n ih =>
    have hnext : ∀ j, lo + (j + 1) = lo + 1 + j := fun j => by omega
    rw [List.range'_succ, scanning, List.forall_mem_append, probing, List.forall_mem_cons,
      List.forall_mem_cons, Nat.forall_lt_succ_left, and_assoc]
    refine and_congr_right fun hlength => and_congr (by simp) ?_
    cases hmadt : isMadt mem (tableAt mem rsdt lo) with
    | true =>
      refine iff_of_true (fun _ h => absurd h List.not_mem_nil) fun i _ h => ?_
      exact absurd (h 0 (Nat.succ_pos i)) (by rw [Nat.add_zero, hmadt]; exact Bool.noConfusion)
    | false =>
      rw [if_neg Bool.false_ne_true, ih, and_iff_right hlength]
      refine forall₂_congr fun i _ => ?_
      rw [Nat.forall_lt_succ_left]
      simp only [Nat.add_zero, hmadt, ← hnext, true_and]

/-- The table that the loop ends with. -/
def madtIn (mem : PhysMem) (rsdt : Addr) (is : List ℕ) : Option Addr :=
  (is.map (tableAt mem rsdt)).find? (isMadt mem)

/-- The kernel after the loop. -/
def Kernel.scanned (mem : PhysMem) (is : List ℕ) (k : Kernel) : Kernel :=
  let k' := k.did (scanning mem k.rsdt is)
  match madtIn mem k.rsdt is with
  | none => k'
  | some current =>
    Kernel.log mem "MADT found!\n" .info
      { k' with apicMadt := current, kernFlags := k'.kernFlags ||| usingApic }

theorem modify_run (f : Kernel → Kernel) (k : Kernel) :
    (modify f : KernelM Unit).run k = ((), f k) := rfl

theorem rsdtEntryCount_run (mem : PhysMem) (k : Kernel) : (rsdtEntryCount mem).run k =
    (entryCount (load32 mem (k.rsdt + 4)), k.did [.read .rsdt (k.rsdt + 4) 4]) := rfl

/-- A round of the loop. -/
theorem scanTables_cons (mem : PhysMem) (i : ℕ) (is : List ℕ) (k : Kernel) :
    (scanTables mem (i :: is)).run k =
      let k' := k.did (probing mem k.rsdt i)
      if isMadt mem (tableAt mem k.rsdt i) then
        ((), Kernel.log mem "MADT found!\n" .info { k' with
          apicMadt := tableAt mem k.rsdt i, kernFlags := k'.kernFlags ||| usingApic })
      else (scanTables mem is).run k' := by
  have hprobing : ((k.did [.read .rsdt (k.rsdt + 4) 4]).did
      [.read (.slot i) (slotAddr k.rsdt i) 4]).did
        (comparing mem .table (tableAt mem k.rsdt i) (literal "APIC") 4) =
      k.did (probing mem k.rsdt i) := by
    rw [did_did, did_did]
    rfl
  rw [scanTables, run_bind_of_eq (rsdtEntryCount_run mem k), run_bind_of_eq (get_run _),
    run_bind_of_eq (read32_run ..)]
  show (agrees mem .table (tableAt mem k.rsdt i) "APIC" >>= _).run
    ((k.did _).did [.read (.slot i) (slotAddr k.rsdt i) 4]) = _
  rw [run_bind_of_eq (agrees_run ..)]
  show (if isMadt mem (tableAt mem k.rsdt i) then _ else _ : KernelM Unit).run
    (((k.did _).did [.read (.slot i) (slotAddr k.rsdt i) 4]).did
      (comparing mem .table (tableAt mem k.rsdt i) (literal "APIC") 4)) = _
  rw [hprobing]
  split_ifs with h
  · rw [run_bind_of_eq (modify_run ..), log_run]
    rfl
  · rfl

theorem scanTables_run (mem : PhysMem) (is : List ℕ) (k : Kernel) :
    (scanTables mem is).run k = ((), k.scanned mem is) := by
  induction is generalizing k with
  | nil => rfl
  | cons i is ih =>
    rw [scanTables_cons]
    unfold Kernel.scanned madtIn scanning
    rw [List.map_cons, List.find?_cons]
    cases h : isMadt mem (tableAt mem k.rsdt i)
    · rw [if_neg Bool.false_ne_true, if_neg Bool.false_ne_true, ih, Kernel.scanned, did_rsdt,
        did_did, madtIn]
    · rw [if_pos rfl, if_pos rfl, List.append_nil]

/-- The values of `i` in the loop of `find_madt`. -/
def rsdtSlots (mem : PhysMem) (rsdt : Addr) : List ℕ :=
  List.range (entryCount (load32 mem (rsdt + 4))).toNat

/-- The kernel after `find_madt`. -/
def Kernel.searched (mem : PhysMem) (k : Kernel) : Kernel :=
  let k' := k.scanned mem (rsdtSlots mem k.rsdt)
  if k'.kernFlags &&& usingApic = 0 then
    k'.log mem "MADT not found, continuing without APIC.\n" .warning
  else k'

theorem findMadt_run (mem : PhysMem) (k : Kernel) :
    (findMadt mem).run k = ((), k.searched mem) := by
  unfold findMadt Kernel.searched
  rw [run_bind_of_eq (get_run k)]
  show (scanTables mem (rsdtSlots mem k.rsdt) >>= _).run k = _
  rw [run_bind_of_eq (scanTables_run ..), run_bind_of_eq (get_run _)]
  by_cases h : (k.scanned mem (rsdtSlots mem k.rsdt)).kernFlags &&& usingApic = 0
  · rw [if_pos h, if_pos h, log_run]
  · rw [if_neg h, if_neg h]
    rfl

/-! ### `acpi_init` -/

/-- The kernel of `acpi_init` once it has the address of the RSDT. -/
def Kernel.located (mem : PhysMem) (rsdp : Addr) (k : Kernel) : Kernel :=
  let k₁ := k.log mem "Verifying RSDP signature..\n" .info
  let k₂ := k₁.did (comparing mem .rsdp rsdp (literal "RSD PTR") 7)
  let k₃ := k₂.log mem "RSDP signature is valid.\n" .info
  let k₄ := k₃.did [.read .rsdp (rsdp + 16) 4]
  Kernel.log mem "Veriying RSDT checksum..\n" .info
    { k₄ with rsdt := (load32 mem (rsdp + 16)).setWidth 64 }

/-- The kernel after `acpi_init`, of an RSDP that is taken for one. -/
def Kernel.inited (mem : PhysMem) (rsdp : Addr) (k : Kernel) : Kernel :=
  let k₁ := (k.located mem rsdp).verified mem
  if k₁.kernFlags &&& usingAcpi = 0 then k₁
  else
    let k₂ := k₁.log mem "RSDT checksum valid!\n" .info
    let k₃ := k₂.log mem "Locating MADT..\n" .info
    (k₃.searched mem).log mem "ACPI setup finished!\n" .info

/-- The kernel after `acpi_init`, of anything else. -/
def Kernel.refused (mem : PhysMem) (rsdp : Addr) (k : Kernel) : Kernel :=
  let k₁ := k.log mem "Verifying RSDP signature..\n" .info
  let k₂ := k₁.did (comparing mem .rsdp rsdp (literal "RSD PTR") 7)
  { k₂.log mem "RSDP is invalid, signature does not match! (Continuing without ACPI).\n"
      .critical with
    kernFlags := k.kernFlags &&& ~~~usingAcpi }

/-- **What `acpi_init` does.** -/
theorem acpiInit_run (mem : PhysMem) (rsdp : Addr) (k : Kernel) : (acpiInit mem rsdp).run k =
    ((), if agree mem rsdp (literal "RSD PTR") 7 then k.inited mem rsdp
      else k.refused mem rsdp) := by
  have hlen : "RSD PTR".length = 7 := rfl
  unfold acpiInit
  rw [run_bind_of_eq (log_run ..), run_bind_of_eq (agrees_run ..), hlen]
  by_cases hagree : agree mem rsdp (literal "RSD PTR") 7
  · rw [if_pos hagree, if_pos hagree, run_bind_of_eq (log_run ..), run_bind_of_eq (read32_run ..),
      run_bind_of_eq (modify_run ..), run_bind_of_eq (log_run ..),
      run_bind_of_eq (verifyRsdt_run ..), run_bind_of_eq (get_run _)]
    show (if ((k.located mem rsdp).verified mem).kernFlags &&& usingAcpi = 0 then _ else _ :
      KernelM Unit).run ((k.located mem rsdp).verified mem) = _
    unfold Kernel.inited
    by_cases hflag : ((k.located mem rsdp).verified mem).kernFlags &&& usingAcpi = 0
    · rw [if_pos hflag, if_pos hflag]
      rfl
    · rw [if_neg hflag, if_neg hflag, run_bind_of_eq (log_run ..), run_bind_of_eq (log_run ..),
        run_bind_of_eq (findMadt_run ..), log_run]
  · rw [if_neg hagree, if_neg hagree, run_bind_of_eq (log_run ..), setFlags_run,
      log_kernFlags, did_kernFlags, log_kernFlags, Kernel.refused]

end KessOS
