import KessOS.Video.Console

/-!
# ACPI

`acpi_init` of `firmware/acpi/impl/acpi.c`, with the `strncmp` of `util/impl/string.c`, whose
result is not 0 when the strings agree.  The reads of the tables go through physical memory, and
are recorded.
-/

namespace KessOS

variable (mem : PhysMem)

/-! ### Reads -/

/-- A byte, read as part of `what`. -/
def readByte (what : Handed) (a : Addr) : KernelM (BitVec 8) := do
  access (.read what a 1)
  return loadByte mem a

/-- A `uint32_t`, read as part of `what`. -/
def read32 (what : Handed) (a : Addr) : KernelM (BitVec 32) := do
  access (.read what a 4)
  return load32 mem a

/-! ### `strncmp` -/

/-- A `char*`: to what is handed over, or to a literal of the kernel, which is never `NULL`. -/
inductive CharPtr
  | handed (what : Handed) (addr : Addr)
  | literal (rest : Bytes)

namespace CharPtr

def isNull : CharPtr → Bool
  | handed _ addr => addr == 0
  | literal _ => false

/-- `*s`. -/
def deref : CharPtr → KernelM (BitVec 8)
  | handed what addr => readByte mem what addr
  | literal rest => return rest 0

/-- `s + 1`. -/
def succ : CharPtr → CharPtr
  | handed what addr => handed what (addr + 1)
  | literal rest => literal (rest.from 1)

end CharPtr

/-- `strncmp`, with `n` for what is left of its `n`. -/
def strncmp (s1 s2 : CharPtr) : ℕ → KernelM (BitVec 8)
  | 0 => return 1
  | n + 1 => do
    if s1.isNull || s2.isNull then
      return 1
    else
      let c1 ← s1.deref mem
      let c2 ← s2.deref mem
      if c1 ≠ c2 then
        return 0
      else
        strncmp s1.succ s2.succ n

/-- `strncmp` with a literal and its `strlen`. -/
def agrees (what : Handed) (a : Addr) (signature : String) : KernelM Bool := do
  return (← strncmp mem (.handed what a) (.literal (literal signature)) signature.length) ≠ 0

/-! ### The RSDT -/

/-- `sizeof(acpi_header_t)`. -/
def sizeofAcpiHeader : ℕ := 36

/-- `rsdt->header.length`. -/
def rsdtLength : KernelM (BitVec 32) := do
  read32 mem .rsdt ((← get).rsdt + 4)

def setFlags (f : BitVec 8 → BitVec 8) : KernelM Unit :=
  modify fun k => { k with kernFlags := f k.kernFlags }

/-- The loop of `verify_rsdt`, for the values that `i` still takes. -/
def sumRsdt (sum : BitVec 8) : List ℕ → KernelM (BitVec 8)
  | [] => do
    let _ ← rsdtLength mem
    return sum
  | i :: is => do
    let _ ← rsdtLength mem
    let byte ← readByte mem .rsdt ((← get).rsdt + BitVec.ofNat 64 i)
    sumRsdt (sum + byte) is

/-- `verify_rsdt`. -/
def verifyRsdt : KernelM Unit := do
  let length := load32 mem ((← get).rsdt + 4)
  let sum ← sumRsdt mem 0 (List.range length.toNat)
  if sum ≠ 0 then
    logText mem "RSDT checksum invalid, system halted. (Continuing without ACPI)." .critical
    setFlags (· &&& ~~~usingAcpi)

/-- The value of `rsdt_entry_count`: a subtraction in 64 bits, and the low half of the result. -/
def entryCount (length : BitVec 32) : BitVec 32 :=
  ((length.setWidth 64 - BitVec.ofNat 64 sizeofAcpiHeader) / 4#64).setWidth 32

/-- `rsdt_entry_count`. -/
def rsdtEntryCount : KernelM (BitVec 32) := do
  return entryCount (← rsdtLength mem)

/-- The loop of `find_madt`, for the values that `i` still takes. -/
def scanTables : List ℕ → KernelM Unit
  | [] => do
    let _ ← rsdtEntryCount mem
  | i :: is => do
    let _ ← rsdtEntryCount mem
    let table ← read32 mem (.slot i)
      ((← get).rsdt + BitVec.ofNat 64 sizeofAcpiHeader + 4#64 * BitVec.ofNat 64 i)
    let current : Addr := table.setWidth 64
    if ← agrees mem .table current "APIC" then
      modify fun k => { k with apicMadt := current, kernFlags := k.kernFlags ||| usingApic }
      logText mem "MADT found!\n" .info
    else
      scanTables is

/-- `find_madt`. -/
def findMadt : KernelM Unit := do
  let count := entryCount (load32 mem ((← get).rsdt + 4))
  scanTables mem (List.range count.toNat)
  if (← get).kernFlags &&& usingApic = 0 then
    logText mem "MADT not found, continuing without APIC.\n" .warning

/-- `acpi_init`. -/
def acpiInit (rsdp : Addr) : KernelM Unit := do
  logText mem "Verifying RSDP signature..\n" .info
  if ← agrees mem .rsdp rsdp "RSD PTR" then
    logText mem "RSDP signature is valid.\n" .info
    let rsdtaddr ← read32 mem .rsdp (rsdp + 16)
    modify fun k => { k with rsdt := rsdtaddr.setWidth 64 }
    logText mem "Veriying RSDT checksum..\n" .info
    verifyRsdt mem
    if (← get).kernFlags &&& usingAcpi = 0 then
      return
    logText mem "RSDT checksum valid!\n" .info
    logText mem "Locating MADT..\n" .info
    findMadt mem
    logText mem "ACPI setup finished!\n" .info
  else
    logText mem "RSDP is invalid, signature does not match! (Continuing without ACPI).\n" .critical
    setFlags (· &&& ~~~usingAcpi)

end KessOS
