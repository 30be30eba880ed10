import KessOS.Memory.Bytes

/-!
# ELF64 headers

The records of `elf.h` that the bootloader reads, little-endian and at the offsets of the ELF64
layout, and the bootloader's own `memcmp`.  A buffer is the function from offsets to bytes; only
the fields the loader uses are kept.
-/

namespace KessOS

/-- `Elf64_Ehdr`. -/
structure Elf64Ehdr where
  eIdent : Fin 16 → BitVec 8
  eType : BitVec 16
  eMachine : BitVec 16
  eVersion : BitVec 32
  ePhoff : BitVec 64
  ePhentsize : BitVec 16
  ePhnum : BitVec 16

/-- `sizeof(Elf64_Ehdr)`. -/
def ehdrSize : ℕ := 64

def Elf64Ehdr.ofBytes (b : Bytes) : Elf64Ehdr where
  eIdent := fun i => b i
  eType := b.u16 16
  eMachine := b.u16 18
  eVersion := b.u32 20
  ePhoff := b.u64 32
  ePhentsize := b.u16 54
  ePhnum := b.u16 56

/-- `Elf64_Phdr`. -/
structure Elf64Phdr where
  pType : BitVec 32
  pOffset : BitVec 64
  pPaddr : BitVec 64
  pFilesz : BitVec 64
  pMemsz : BitVec 64
deriving DecidableEq, Repr

/-- `sizeof(Elf64_Phdr)`. -/
def phdrSize : ℕ := 56

def Elf64Phdr.ofBytes (b : Bytes) : Elf64Phdr where
  pType := b.u32 0
  pOffset := b.u64 8
  pPaddr := b.u64 24
  pFilesz := b.u64 32
  pMemsz := b.u64 40

/-- `ELFMAG`. -/
def elfmag : Bytes := fun i => [0x7F#8, 0x45#8, 0x4C#8, 0x46#8].getD i 0#8

/-- `SELFMAG`. -/
def selfmag : ℕ := 4

/-- The index `EI_CLASS`. -/
def eiClass : Fin 16 := 4

def elfclass64 : BitVec 8 := 2
def etExec : BitVec 16 := 2
def emX8664 : BitVec 16 := 62
def evCurrent : BitVec 32 := 1
def ptLoad : BitVec 32 := 1

/-- The loop of `memcmp`, with `left` bytes to go at index `i`. -/
def memcmpFrom (a b : Bytes) : (left i : ℕ) → ℤ
  | 0, _ => 0
  | left + 1, i =>
    if a i < b i then -1
    else if a i > b i then 1
    else memcmpFrom a b left (i + 1)

/-- `memcmp`. -/
def memcmp (a b : Bytes) (n : ℕ) : ℤ := memcmpFrom a b n 0

/-- The condition under which `efi_main` prints `Kernel ELF header bad!`. -/
def headerBad (header : Elf64Ehdr) : Bool :=
  memcmp (fun i => header.eIdent (Fin.ofNat 16 i)) elfmag selfmag != 0 ||
    header.eIdent eiClass != elfclass64 ||
    header.eType != etExec ||
    header.eMachine != emX8664 || header.eVersion != evCurrent

/-! ### Reading a buffer -/

/-- The fields of a program header depend on the bytes of the header only. -/
theorem Elf64Phdr.ofBytes_congr {b b' : Bytes} (h : ∀ k < phdrSize, b k = b' k) :
    Elf64Phdr.ofBytes b = Elf64Phdr.ofBytes b' := by
  unfold phdrSize at h
  simp (disch := omega) only [ofBytes, Bytes.u64, Bytes.u32, Bytes.u16, h]

theorem Elf64Ehdr.ofBytes_congr {b b' : Bytes} (h : ∀ k < ehdrSize, b k = b' k) :
    Elf64Ehdr.ofBytes b = Elf64Ehdr.ofBytes b' := by
  unfold ehdrSize at h
  simp (disch := omega) only [ofBytes, Bytes.u64, Bytes.u32, Bytes.u16, h]

/-! ### `memcmp` -/

theorem memcmpFrom_eq_zero_iff {a b : Bytes} {left i : ℕ} :
    memcmpFrom a b left i = 0 ↔ ∀ k < left, a (i + k) = b (i + k) := by
  induction left generalizing i with
  | zero => simp [memcmpFrom]
  | succ left ih =>
    have hsplit : (∀ k < left + 1, a (i + k) = b (i + k)) ↔
        a i = b i ∧ ∀ k < left, a (i + 1 + k) = b (i + 1 + k) := by
      rw [Nat.forall_lt_succ_left]
      simp only [Nat.add_zero, Nat.add_assoc, Nat.add_comm 1]
    rw [memcmpFrom, hsplit]
    split_ifs with hlt hgt
    · have hne : a i ≠ b i := by bv_omega
      simp [hne]
    · have hne : a i ≠ b i := by bv_omega
      simp [hne]
    · have heq : a i = b i := by bv_omega
      simp [heq, ih]

/-- `memcmp` returns zero exactly on equal bytes. -/
theorem memcmp_eq_zero_iff {a b : Bytes} {n : ℕ} : memcmp a b n = 0 ↔ ∀ i < n, a i = b i := by
  simp only [memcmp, memcmpFrom_eq_zero_iff, Nat.zero_add]

end KessOS
