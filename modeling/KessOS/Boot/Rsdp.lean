import KessOS.Boot.Elf
import KessOS.Memory.Byte

/-!
# The search for the RSDP

The loop of `efi_main` over the UEFI configuration table, with the `CompareGuid` of gnu-efi.  The
pointer `configTable` is kept as the index it has in the table; which entries the loop reads is
recorded, since nothing keeps it inside.
-/

namespace KessOS

/-- `EFI_GUID`. -/
structure EfiGuid where
  data1 : BitVec 32
  data2 : BitVec 16
  data3 : BitVec 16
  data4 : Vector (BitVec 8) 8
deriving DecidableEq

/-- The words of a GUID, as seen through an `INT32*`. -/
def EfiGuid.word (g : EfiGuid) : Fin 4 → BitVec 32
  | 0 => g.data1
  | 1 => g.data3 ++ g.data2
  | 2 => g.data4[3] ++ g.data4[2] ++ g.data4[1] ++ g.data4[0]
  | 3 => g.data4[7] ++ g.data4[6] ++ g.data4[5] ++ g.data4[4]

/-- `RtCompareGuid`. -/
def rtCompareGuid (guid1 guid2 : EfiGuid) : BitVec 64 :=
  let r := guid1.word 0 - guid2.word 0
  let r := r ||| (guid1.word 1 - guid2.word 1)
  let r := r ||| (guid1.word 2 - guid2.word 2)
  let r := r ||| (guid1.word 3 - guid2.word 3)
  r.signExtend 64

/-- `CompareGuid`. -/
def compareGuid (guid1 guid2 : EfiGuid) : BitVec 64 := rtCompareGuid guid1 guid2

/-- `ACPI_20_TABLE_GUID`. -/
def acpi20TableGuid : EfiGuid where
  data1 := 0x8868e871#32
  data2 := 0xe4f1#16
  data3 := 0x11d3#16
  data4 := #v[0xbc#8, 0x22#8, 0x0#8, 0x80#8, 0xc7#8, 0x3c#8, 0x88#8, 0x81#8]

/-- `EFI_CONFIGURATION_TABLE`. -/
structure EfiConfigurationTable where
  vendorGuid : EfiGuid
  vendorTable : Addr
deriving DecidableEq

/-- What `efi_main` uses of `EFI_SYSTEM_TABLE` here.  Behind the entries there is the memory that
follows the table, whatever it holds. -/
structure EfiSystemTable where
  numberOfTableEntries : BitVec 64
  configurationTable : ℕ → EfiConfigurationTable

/-- The locals of the loop, and the indices of the entries it has read. -/
structure RsdpSearch where
  configTable : ℕ
  rsdp : Addr
  reads : List ℕ
deriving DecidableEq

variable (sysTable : EfiSystemTable) (m : PhysMem)

/-- The body of the loop. -/
def rsdpStep (s : RsdpSearch) (i : ℕ) : RsdpSearch :=
  let tested := sysTable.configurationTable (s.configTable + i)
  let s := { s with reads := s.reads ++ [s.configTable + i] }
  let s :=
    if compareGuid tested.vendorGuid acpi20TableGuid ≠ 0 then
      let taken := sysTable.configurationTable s.configTable
      let s := { s with reads := s.reads ++ [s.configTable] }
      if memcmp (literal "RSD PTR ") (bytesAt m taken.vendorTable) 8 = 0 then
        { s with rsdp := taken.vendorTable }
      else s
    else s
  { s with configTable := s.configTable + 1 }

/-- The loop up to its `n`-th turn. -/
def rsdpLoop (n : ℕ) : RsdpSearch :=
  (List.range n).foldl (rsdpStep sysTable m) ⟨0, 0, []⟩

/-- The search as a whole. -/
def rsdpSearch : RsdpSearch := rsdpLoop sysTable m sysTable.numberOfTableEntries.toNat

end KessOS
