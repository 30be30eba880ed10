import KessOS.Acpi.Equiv.Since

/-!
# A missing RSDP

`strncmp` gives up at a null pointer and returns what it returns for strings that agree, so that
`acpi_init(NULL)` goes on with whatever lies at address 16 (`acpiInit_null`).
-/

namespace KessOS

/-- With an RSDP that is taken for one, `acpi_init` reads the address of the RSDT from it. -/
theorem rsdtaddr_mem (mem : PhysMem) {rsdp : Addr} (h : agree mem rsdp (literal "RSD PTR") 7)
    (k : Kernel) : .read .rsdp (rsdp + 16) 4 ∈ k.since (k.after (acpiInit mem rsdp)) := by
  have hlocated : .read .rsdp (rsdp + 16) 4 ∈ locatedReads mem rsdp :=
    List.mem_append_right _ List.mem_cons_self
  refine (acpiInit_ran mem rsdp k).mem_iff.mpr (Or.inr ?_)
  unfold acpiReads
  dsimp only
  rw [if_pos h]
  exact List.mem_append_left _ (List.mem_append_left _ hlocated)

/-- Without an RSDP: `acpi_init` clears `USING_ACPI`, leaves the rest, and reads nothing through the
null pointer. -/
structure GivesUpAcpi (k k' : Kernel) : Prop where
  acpi : k'.kernFlags &&& usingAcpi = 0
  apic : k'.kernFlags &&& usingApic = k.kernFlags &&& usingApic
  madt : k'.apicMadt = k.apicMadt
  unread : ∀ a n, .read .rsdp a n ∉ k.since k'

/-- **A missing RSDP is not noticed**, whatever lies in memory: `strncmp` takes the null pointer for
a match, and the address of the RSDT is read through it. -/
theorem acpiInit_null (mem : PhysMem) (k : Kernel) :
    ¬ GivesUpAcpi k (k.after (acpiInit mem 0)) := by
  intro h
  exact h.unread (0 + 16) 4 (rsdtaddr_mem mem (agree_null _ _) k)

/-- In particular with nothing but zeroes in memory. -/
theorem acpiInit_null_blank :
    ¬ GivesUpAcpi blankKernel (blankKernel.after (acpiInit (fun _ _ => 0) 0)) := by
  intro h
  exact h.unread (0 + 16) 4 (rsdtaddr_mem _ (agree_null _ _) blankKernel)

end KessOS
