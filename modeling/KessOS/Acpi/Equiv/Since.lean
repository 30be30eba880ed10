import KessOS.Acpi.Equiv.Basic
import KessOS.Video.Equiv.Since

/-!
# What `acpi_init` adds to the trace

`acpi_init` types its logs and reads its tables, and does nothing else to memory
(`acpiInit_ran`).  Which of the two it does depends on the tables and on `kern_flags` only.
-/

namespace KessOS

variable {mem : PhysMem} {k k' : Kernel} {rsdp : Addr} {logs : List (String × Status)}
  {as : List Access}

/-! ### Globals -/

/-- `rsdt`, as `acpi_init` sets it. -/
def rsdtOf (mem : PhysMem) (rsdp : Addr) : Addr := (load32 mem (rsdp + 16)).setWidth 64

@[simp] theorem located_rsdt (mem : PhysMem) (rsdp : Addr) (k : Kernel) :
    (k.located mem rsdp).rsdt = rsdtOf mem rsdp := by
  rw [Kernel.located, log_rsdt, rsdtOf]

@[simp] theorem located_kernFlags (mem : PhysMem) (rsdp : Addr) (k : Kernel) :
    (k.located mem rsdp).kernFlags = k.kernFlags := by
  simp only [Kernel.located, log_kernFlags, did_kernFlags]

@[simp] theorem verified_rsdt (mem : PhysMem) (k : Kernel) : (k.verified mem).rsdt = k.rsdt := by
  unfold Kernel.verified
  dsimp only
  split_ifs
  · rfl
  · exact log_rsdt ..

theorem verified_kernFlags (h : rsdtChecksum mem k.rsdt = 0) :
    (k.verified mem).kernFlags = k.kernFlags := by
  unfold Kernel.verified
  rw [if_pos h, did_kernFlags]

/-- `verify_rsdt` leaves `USING_ACPI` set if it was, and the checksum is right. -/
theorem verified_usingAcpi (mem : PhysMem) (k : Kernel) :
    (k.verified mem).kernFlags &&& usingAcpi = 0 ↔
      rsdtChecksum mem k.rsdt ≠ 0 ∨ k.kernFlags &&& usingAcpi = 0 := by
  unfold Kernel.verified
  by_cases h : rsdtChecksum mem k.rsdt = 0
  · rw [if_pos h]
    exact (or_iff_right (not_not.mpr h)).symm
  · rw [if_neg h, BitVec.and_assoc]
    exact iff_of_true BitVec.and_zero (Or.inl h)

theorem or_usingApic (flags : BitVec 8) : (flags ||| usingApic) &&& usingApic = usingApic := by
  ext i hi
  simpa using fun h => Or.inr h

/-- Whether `find_madt` is not called. -/
theorem inited_stops_iff (mem : PhysMem) (rsdp : Addr) (k : Kernel) :
    ((k.located mem rsdp).verified mem).kernFlags &&& usingAcpi = 0 ↔
      rsdtChecksum mem (rsdtOf mem rsdp) ≠ 0 ∨ k.kernFlags &&& usingAcpi = 0 := by
  rw [verified_usingAcpi, located_rsdt, located_kernFlags]

/-! ### Logs and reads -/

/-- What `acpi_init` logs until it has the address of the RSDT. -/
def locatedLogs : List (String × Status) :=
  [("Verifying RSDP signature..\n", .info), ("RSDP signature is valid.\n", .info),
    ("Veriying RSDT checksum..\n", .info)]

/-- What it reads for that. -/
def locatedReads (mem : PhysMem) (rsdp : Addr) : List Access :=
  comparing mem .rsdp rsdp (literal "RSD PTR") 7 ++ [.read .rsdp (rsdp + 16) 4]

theorem located_ran (mem : PhysMem) (rsdp : Addr) (k : Kernel) :
    k.Ran mem locatedLogs (locatedReads mem rsdp) (k.located mem rsdp) := by
  have hvalid := (((Kernel.Ran.refl mem k).log "Verifying RSDP signature..\n" .info).did
    (comparing mem .rsdp rsdp (literal "RSD PTR") 7)).log "RSDP signature is valid.\n" .info
  have hread := hvalid.did [.read .rsdp (rsdp + 16) 4]
  unfold Kernel.located
  exact (hread.withGlobals _ (rsdtOf mem rsdp) _).log "Veriying RSDT checksum..\n" .info

/-- What `verify_rsdt` logs. -/
def verifyLogs (mem : PhysMem) (rsdt : Addr) : List (String × Status) :=
  if rsdtChecksum mem rsdt = 0 then []
  else [("RSDT checksum invalid, system halted. (Continuing without ACPI).", .critical)]

theorem Kernel.Ran.verified (h : k.Ran mem logs as k') :
    k.Ran mem (logs ++ verifyLogs mem k'.rsdt)
      (as ++ summing k'.rsdt (rsdtBytes mem k'.rsdt)) (k'.verified mem) := by
  unfold Kernel.verified verifyLogs
  dsimp only
  split_ifs
  · rw [List.append_nil]
    exact h.did _
  · exact ((h.did _).log ..).withGlobals _ _ _

/-- What `find_madt` logs. -/
def searchLogs (mem : PhysMem) (rsdt : Addr) (flags : BitVec 8) : List (String × Status) :=
  if (madtIn mem rsdt (rsdtSlots mem rsdt)).isSome then [("MADT found!\n", .info)]
  else if flags &&& usingApic = 0 then
    [("MADT not found, continuing without APIC.\n", .warning)]
  else []

theorem Kernel.Ran.searched (h : k.Ran mem logs as k') :
    k.Ran mem (logs ++ searchLogs mem k'.rsdt k'.kernFlags)
      (as ++ scanning mem k'.rsdt (rsdtSlots mem k'.rsdt)) (k'.searched mem) := by
  have hscan := h.did (scanning mem k'.rsdt (rsdtSlots mem k'.rsdt))
  unfold Kernel.searched Kernel.scanned searchLogs
  cases madtIn mem k'.rsdt (rsdtSlots mem k'.rsdt) with
  | none =>
    dsimp only [Option.isSome_none]
    rw [if_neg Bool.false_ne_true, did_kernFlags]
    by_cases hflag : k'.kernFlags &&& usingApic = 0
    · rw [if_pos hflag, if_pos hflag]
      exact hscan.log ..
    · rw [if_neg hflag, if_neg hflag, List.append_nil]
      exact hscan
  | some current =>
    have hset : ¬ (k'.kernFlags ||| usingApic) &&& usingApic = 0 := by
      rw [or_usingApic]
      decide
    dsimp only [Option.isSome_some]
    rw [if_pos rfl, log_kernFlags, did_kernFlags, if_neg hset]
    exact (hscan.withGlobals _ _ _).log ..

/-- What `acpi_init` logs. -/
def acpiLogs (mem : PhysMem) (rsdp : Addr) (flags : BitVec 8) : List (String × Status) :=
  let rsdt := rsdtOf mem rsdp
  if agree mem rsdp (literal "RSD PTR") 7 then
    locatedLogs ++ verifyLogs mem rsdt ++
      if rsdtChecksum mem rsdt ≠ 0 ∨ flags &&& usingAcpi = 0 then []
      else [("RSDT checksum valid!\n", .info), ("Locating MADT..\n", .info)] ++
        searchLogs mem rsdt flags ++ [("ACPI setup finished!\n", .info)]
  else [("Verifying RSDP signature..\n", .info),
    ("RSDP is invalid, signature does not match! (Continuing without ACPI).\n", .critical)]

/-- What it reads. -/
def acpiReads (mem : PhysMem) (rsdp : Addr) (flags : BitVec 8) : List Access :=
  let rsdt := rsdtOf mem rsdp
  if agree mem rsdp (literal "RSD PTR") 7 then
    locatedReads mem rsdp ++ summing rsdt (rsdtBytes mem rsdt) ++
      if rsdtChecksum mem rsdt ≠ 0 ∨ flags &&& usingAcpi = 0 then []
      else scanning mem rsdt (rsdtSlots mem rsdt)
  else comparing mem .rsdp rsdp (literal "RSD PTR") 7

theorem inited_ran (mem : PhysMem) {rsdp : Addr} (hsig : agree mem rsdp (literal "RSD PTR") 7)
    (k : Kernel) : k.Ran mem (acpiLogs mem rsdp k.kernFlags) (acpiReads mem rsdp k.kernFlags)
      (k.inited mem rsdp) := by
  have hverified := (located_ran mem rsdp k).verified
  rw [located_rsdt] at hverified
  unfold Kernel.inited acpiLogs acpiReads
  dsimp only
  rw [if_pos hsig, if_pos hsig]
  by_cases hstop : rsdtChecksum mem (rsdtOf mem rsdp) ≠ 0 ∨ k.kernFlags &&& usingAcpi = 0
  · rw [if_pos hstop, if_pos hstop, if_pos ((inited_stops_iff ..).mpr hstop), List.append_nil,
      List.append_nil]
    exact hverified
  · have hsearched := ((hverified.log "RSDT checksum valid!\n" .info).log "Locating MADT..\n"
      .info).searched
    have hsum : rsdtChecksum mem (rsdtOf mem rsdp) = 0 := not_not.mp (not_or.mp hstop).1
    rw [log_rsdt, log_rsdt, verified_rsdt, located_rsdt, log_kernFlags, log_kernFlags,
      verified_kernFlags (by rw [located_rsdt, hsum]), located_kernFlags] at hsearched
    rw [if_neg hstop, if_neg hstop, if_neg (mt (inited_stops_iff ..).mp hstop)]
    have hfinished := hsearched.log "ACPI setup finished!\n" .info
    simp only [List.append_assoc] at hfinished ⊢
    exact hfinished

theorem refused_ran (mem : PhysMem) {rsdp : Addr} (hsig : ¬ agree mem rsdp (literal "RSD PTR") 7)
    (k : Kernel) : k.Ran mem (acpiLogs mem rsdp k.kernFlags) (acpiReads mem rsdp k.kernFlags)
      (k.refused mem rsdp) := by
  have hcompared := ((Kernel.Ran.refl mem k).log "Verifying RSDP signature..\n" .info).did
    (comparing mem .rsdp rsdp (literal "RSD PTR") 7)
  unfold Kernel.refused acpiLogs acpiReads
  dsimp only
  rw [if_neg hsig, if_neg hsig]
  exact (hcompared.log ..).withGlobals _ _ _

/-- **What `acpi_init` adds.** -/
theorem acpiInit_ran (mem : PhysMem) (rsdp : Addr) (k : Kernel) :
    k.Ran mem (acpiLogs mem rsdp k.kernFlags) (acpiReads mem rsdp k.kernFlags)
      (k.after (acpiInit mem rsdp)) := by
  rw [Kernel.after, acpiInit_run]
  by_cases hsig : agree mem rsdp (literal "RSD PTR") 7
  · rw [if_pos hsig]
    exact inited_ran mem hsig k
  · rw [if_neg hsig]
    exact refused_ran mem hsig k

/-- The kernel as it comes to `acpi_init`, without a screen. -/
def blankKernel : Kernel where
  canvas := .initial ⟨0x3000, 0, 0, 0, 0⟩ ⟨0x4000, 0x5000, 16, 0x6000⟩
  kernFlags := usingAcpi
  rsdt := 0
  apicMadt := 0
  trace := []

end KessOS
