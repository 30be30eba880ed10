import Mathlib.Data.Nat.Bitwise
import Mathlib.Tactic.NormNum

/-!
# Page-table entries

The bit masks of `arch/memory/impl/vmm.c` and what they select in a 64-bit page-table entry.
Addresses and entries are `BitVec 64`; `pfn a` is the page frame number of the address `a`.

`entryFor a flags` is the value `(a & PAGE_ADDR_MASK) | flags` that `map_page` stores.  When the
flags are drawn from `P`, `RW`, `US`, `A` and `D` (`FlagsOk`) its address field is the page of
`a` (`pfn_target_entryFor`) and its low twelve bits are the flags (`flagBits_entryFor`).
-/

namespace KessOS

/-- A physical (or identity-mapped logical) address. -/
abbrev Addr := BitVec 64

/-- A 64-bit entry of a `struct MappingTable`. -/
abbrev Entry := BitVec 64

def pageBitPPresent : BitVec 64 := 1#64 <<< 0
def pageBitRwWritable : BitVec 64 := 1#64 <<< 1
def pageBitUsUser : BitVec 64 := 1#64 <<< 2
def pageBitAAccessed : BitVec 64 := 1#64 <<< 5
def pageBitDDirty : BitVec 64 := 1#64 <<< 6
def pageAddrMask : BitVec 64 := 0x000ffffffffff000#64

/-- `PAGE_SIZE` of `memory.h`. -/
def pageSize : ℕ := 4096

/-- `addr & ~0xFFF`: the start of the page of an address. -/
def pageStart (a : Addr) : Addr := a &&& ~~~0xFFF#64

/-- The page frame number of an address. -/
def pfn (a : Addr) : ℕ := a.toNat / pageSize

/-- The address of a page frame. -/
def frameAddr (f : ℕ) : Addr := BitVec.ofNat 64 (pageSize * f)

/-- `entry & PAGE_BIT_P_PRESENT`, as a condition. -/
def present (e : Entry) : Bool := e &&& pageBitPPresent != 0

/-- `entry & PAGE_BIT_RW_WRITABLE`, as a condition. -/
def writable (e : Entry) : Bool := e &&& pageBitRwWritable != 0

/-- `entry & PAGE_BIT_US_USER`, as a condition. -/
def user (e : Entry) : Bool := e &&& pageBitUsUser != 0

/-- `entry & PAGE_ADDR_MASK`: the table or page that the entry points to. -/
def target (e : Entry) : Addr := e &&& pageAddrMask

/-- The low twelve bits of an entry, where the flags are. -/
def flagBits (e : Entry) : BitVec 64 := e &&& 0xFFF#64

/-- `(addr & PAGE_ADDR_MASK) | flags`; the `unsigned int` flags are zero-extended. -/
def entryFor (addr : Addr) (flags : BitVec 32) : Entry :=
  (addr &&& pageAddrMask) ||| flags.setWidth 64

/-- The frame a present entry points to. -/
def child (e : Entry) : Option ℕ := if present e then some (pfn (target e)) else none

/-- `P`, `RW`, `US`, `A` and `D`. -/
def pageFlags : BitVec 32 :=
  (pageBitPPresent ||| pageBitRwWritable ||| pageBitUsUser ||| pageBitAAccessed |||
    pageBitDDirty).setWidth 32

/-- The flags are drawn from these. -/
def FlagsOk (flags : BitVec 32) : Prop := flags &&& ~~~pageFlags = 0

instance (flags : BitVec 32) : Decidable (FlagsOk flags) := inferInstanceAs (Decidable (_ = _))

/-! ### Single bits -/

theorem and_one_shiftLeft_ne_zero {w : ℕ} (e : BitVec w) {i : ℕ} (hi : i < w) :
    (e &&& 1#w <<< i != 0) = e.getLsbD i := by
  have htwo : 1#w <<< i = BitVec.twoPow w i := rfl
  have hne : BitVec.twoPow w i ≠ 0#w := by
    intro h
    have hbit := congrArg (fun x : BitVec w => x.getLsbD i) h
    simp [hi] at hbit
  rw [htwo, BitVec.and_twoPow]
  cases he : e.getLsbD i
  · rfl
  · rw [if_pos rfl]
    exact bne_iff_ne.mpr hne

theorem present_eq (e : Entry) : present e = e.getLsbD 0 :=
  and_one_shiftLeft_ne_zero e (by decide)

theorem writable_eq (e : Entry) : writable e = e.getLsbD 1 :=
  and_one_shiftLeft_ne_zero e (by decide)

theorem user_eq (e : Entry) : user e = e.getLsbD 2 :=
  and_one_shiftLeft_ne_zero e (by decide)

theorem getLsbD_pageAddrMask (i : ℕ) : pageAddrMask.getLsbD i = decide (12 ≤ i ∧ i < 52) := by
  by_cases hi : i < 64
  · have h : ∀ j : Fin 64, pageAddrMask.getLsbD j = decide (12 ≤ j.val ∧ j.val < 52) := by decide
    exact h ⟨i, hi⟩
  · rw [BitVec.getLsbD_of_ge _ _ (by omega), eq_comm, decide_eq_false_iff_not]
    omega

/-- The low bits of an entry are its flags. -/
theorem getLsbD_of_flagBits {e : Entry} {flags : BitVec 32} (h : flagBits e = flags.setWidth 64)
    {i : ℕ} (hi : i < 12) : e.getLsbD i = flags.getLsbD i := by
  have hbit := congrArg (fun x : BitVec 64 => x.getLsbD i) h
  have hmask : ∀ j : Fin 12, (0xFFF#64).getLsbD j = true := by decide
  have h64 : i < 64 := by omega
  simp only [flagBits, BitVec.getLsbD_and, hmask ⟨i, hi⟩, Bool.and_true, BitVec.getLsbD_setWidth,
    decide_eq_true h64, Bool.true_and] at hbit
  exact hbit

theorem FlagsOk.getLsbD_of_le {flags : BitVec 32} (h : FlagsOk flags) {i : ℕ} (hi : 7 ≤ i) :
    flags.getLsbD i = false := by
  by_cases hi32 : i < 32
  · have hbit := congrArg (fun x : BitVec 32 => x.getLsbD i) h
    have hmask : ∀ j : Fin 32, 7 ≤ j.val → (~~~pageFlags).getLsbD j = true := by decide
    simp only [BitVec.getLsbD_and, hmask ⟨i, hi32⟩ hi, Bool.and_true] at hbit
    rw [hbit]
    exact BitVec.getLsbD_zero
  · exact BitVec.getLsbD_of_ge _ _ (by omega)

/-! ### The address field -/

theorem pfn_eq_toNat_ushiftRight (a : Addr) : pfn a = (a >>> 12).toNat := by
  rw [BitVec.toNat_ushiftRight, Nat.shiftRight_eq_div_pow]
  rfl

theorem toNat_frameAddr {f : ℕ} (hf : f < 2 ^ 36) : (frameAddr f).toNat = pageSize * f := by
  rw [frameAddr, BitVec.toNat_ofNat]
  unfold pageSize
  omega

theorem frameAddr_lt {f : ℕ} (hf : f < 2 ^ 36) : (frameAddr f).toNat < 2 ^ 48 := by
  rw [toNat_frameAddr hf]
  unfold pageSize
  omega

theorem pfn_frameAddr {f : ℕ} (hf : f < 2 ^ 36) : pfn (frameAddr f) = f := by
  rw [pfn, toNat_frameAddr hf]
  exact Nat.mul_div_cancel_left _ (by decide)

theorem pfn_lt (a : Addr) (h : a.toNat < 2 ^ 48) : pfn a < 512 ^ 4 := by
  unfold pfn pageSize
  omega

theorem pfn_target_of_lt {a : Addr} (h : a.toNat < 2 ^ 48) : pfn (target a) = pfn a := by
  rw [pfn_eq_toNat_ushiftRight, pfn_eq_toNat_ushiftRight]
  congr 1
  apply BitVec.eq_of_getLsbD_eq
  intro i hi
  simp only [target, BitVec.getLsbD_ushiftRight, BitVec.getLsbD_and, getLsbD_pageAddrMask]
  by_cases hi52 : 12 + i < 52
  · simp [hi52]
  · have hhigh : a.getLsbD (12 + i) = false := by
      rw [BitVec.getLsbD, Nat.testBit_eq_false_of_lt]
      exact lt_of_lt_of_le h (Nat.pow_le_pow_right (by norm_num) (by omega))
    simp [hhigh]

theorem toNat_pageStart (a : Addr) : (pageStart a).toNat = pageSize * pfn a := by
  have hmask : ∀ j : Fin 64, (~~~0xFFF#64).getLsbD j = decide (12 ≤ j.val) := by decide
  have hshift : pageStart a = (a >>> 12) <<< 12 := by
    apply BitVec.eq_of_getLsbD_eq
    intro i hi
    rw [pageStart, BitVec.getLsbD_and, hmask ⟨i, hi⟩, BitVec.getLsbD_shiftLeft,
      BitVec.getLsbD_ushiftRight]
    by_cases h12 : 12 ≤ i
    · have hlt : ¬ i < 12 := by omega
      simp [h12, hi, hlt]
    · have hlt : i < 12 := by omega
      simp [h12, hlt]
  have hlt := a.isLt
  rw [hshift, BitVec.toNat_shiftLeft, ← pfn_eq_toNat_ushiftRight, Nat.shiftLeft_eq]
  unfold pfn pageSize
  omega

theorem pageStart_of_aligned {a : Addr} (h : a % 0x1000 = 0) : pageStart a = a := by
  have hmod : a.toNat % 4096 = 0 := congrArg BitVec.toNat h
  rw [← BitVec.toNat_inj, toNat_pageStart, pfn]
  unfold pageSize
  omega

/-- A frame is where its page starts. -/
theorem pageStart_frameAddr {f : ℕ} (hf : f < 2 ^ 36) : pageStart (frameAddr f) = frameAddr f := by
  rw [← BitVec.toNat_inj, toNat_pageStart, toNat_frameAddr hf, pfn_frameAddr hf]

/-- An address field is a page boundary. -/
theorem toNat_target (e : Entry) : (target e).toNat = pageSize * pfn (target e) := by
  have hlow : (target e) &&& 0xFFF#64 = 0 := by
    apply BitVec.eq_of_getLsbD_eq
    intro i hi
    have hmask : ∀ j : Fin 64, (pageAddrMask.getLsbD j && (0xFFF#64).getLsbD j) = false := by
      decide
    have := hmask ⟨i, hi⟩
    simp only [target, BitVec.getLsbD_and, Bool.and_assoc, this]
    simp
  have hmod : (target e).toNat % 2 ^ 12 = 0 := by
    have h := congrArg BitVec.toNat hlow
    rw [BitVec.toNat_and] at h
    rw [← Nat.and_two_pow_sub_one_eq_mod]
    exact h
  unfold pfn pageSize
  omega

/-! ### The entries `map_page` stores -/

theorem getLsbD_entryFor_low {flags : BitVec 32} (a : Addr) {i : ℕ} (hi : i < 12) :
    (entryFor a flags).getLsbD i = flags.getLsbD i := by
  have hmask : ¬ (12 ≤ i ∧ i < 52) := by omega
  have h64 : i < 64 := by omega
  rw [entryFor, BitVec.getLsbD_or, BitVec.getLsbD_and, getLsbD_pageAddrMask, decide_eq_false hmask,
    BitVec.getLsbD_setWidth, decide_eq_true h64, Bool.and_false, Bool.false_or, Bool.true_and]

section EntryFor

variable {flags : BitVec 32} (hf : FlagsOk flags) (a : Addr)

include hf

theorem target_entryFor : target (entryFor a flags) = target a := by
  apply BitVec.eq_of_getLsbD_eq
  intro i hi
  simp only [target, entryFor, BitVec.getLsbD_and, BitVec.getLsbD_or, getLsbD_pageAddrMask,
    BitVec.getLsbD_setWidth]
  by_cases h12 : 12 ≤ i
  · rw [hf.getLsbD_of_le (by omega)]
    simp
  · simp [h12]

theorem pfn_target_entryFor (ha : a.toNat < 2 ^ 48) : pfn (target (entryFor a flags)) = pfn a := by
  rw [target_entryFor hf, pfn_target_of_lt ha]

theorem flagBits_entryFor : flagBits (entryFor a flags) = flags.setWidth 64 := by
  apply BitVec.eq_of_getLsbD_eq
  intro i hi
  have hlow : ∀ j : Fin 64, (0xFFF#64).getLsbD j = decide (j.val < 12) := by decide
  have hmask := hlow ⟨i, hi⟩
  rw [flagBits, BitVec.getLsbD_and, hmask, BitVec.getLsbD_setWidth, decide_eq_true hi,
    Bool.true_and]
  by_cases h12 : i < 12
  · rw [getLsbD_entryFor_low a h12, decide_eq_true h12, Bool.and_true]
  · rw [decide_eq_false h12, Bool.and_false, hf.getLsbD_of_le (by omega)]

theorem child_entryFor (hp : flags.getLsbD 0) (ha : a.toNat < 2 ^ 48) :
    child (entryFor a flags) = some (pfn a) := by
  have hpres : present (entryFor a flags) = true := by
    rw [present_eq, getLsbD_entryFor_low a (by decide), hp]
  rw [child, hpres, if_pos rfl, pfn_target_entryFor hf a ha]

end EntryFor

theorem child_isSome (e : Entry) : (child e).isSome = present e := by
  unfold child
  cases present e <;> rfl

theorem child_eq_some {e : Entry} {t : ℕ} :
    child e = some t ↔ present e = true ∧ pfn (target e) = t := by
  unfold child
  cases present e <;> simp

@[simp] theorem child_zero : child 0#64 = none := by decide

end KessOS
