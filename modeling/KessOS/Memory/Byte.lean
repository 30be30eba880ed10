import KessOS.Memory.Bytes
import KessOS.Paging.Walk

/-!
# Bytes of physical memory

Physical memory is held entry by entry; this module reads and writes single bytes of it, the
way C code does through a `char*`, and assembles little-endian words.
-/

namespace KessOS

/-- The entry of its page frame that the byte at `a` belongs to. -/
def entryIdx (a : Addr) : Fin 512 := ⟨a.toNat / 8 % 512, Nat.mod_lt _ (Nat.succ_pos _)⟩

/-- The byte of physical memory at `a`. -/
def loadByte (m : PhysMem) (a : Addr) : BitVec 8 :=
  (m (pfn a) (entryIdx a)).extractLsb' (8 * (a.toNat % 8)) 8

/-- Physical memory with the byte at `a` replaced. -/
def storeByte (m : PhysMem) (a : Addr) (byte : BitVec 8) : PhysMem :=
  let shift := 8 * (a.toNat % 8)
  Radix.store m (pfn a) (entryIdx a)
    ((m (pfn a) (entryIdx a) &&& ~~~(0xFF#64 <<< shift)) ||| byte.setWidth 64 <<< shift)

def load32 (m : PhysMem) (a : Addr) : BitVec 32 :=
  loadByte m (a + 3) ++ loadByte m (a + 2) ++ loadByte m (a + 1) ++ loadByte m a

def load64 (m : PhysMem) (a : Addr) : BitVec 64 := load32 m (a + 4) ++ load32 m a

/-- The bytes of physical memory from `a` on. -/
def bytesAt (m : PhysMem) (a : Addr) : Bytes := fun i => loadByte m (a + BitVec.ofNat 64 i)

theorem storeByte_of_ne (m : PhysMem) {a : Addr} {u : ℕ} (h : u ≠ pfn a) (byte : BitVec 8) :
    storeByte m a byte u = m u :=
  Radix.store_table_ne h ..

/-- The bits of a frame after one of its bytes is cleared. -/
theorem getLsbD_storeByte_zero (m : PhysMem) (a : Addr) (i : Fin 512) {k : ℕ} (hk : k < 64) :
    (storeByte m a 0#8 (pfn a) i).getLsbD k =
      ((m (pfn a) i).getLsbD k && decide (8 * i.val + k / 8 ≠ a.toNat % pageSize)) := by
  have hidx : (entryIdx a).val = a.toNat / 8 % 512 := rfl
  have hpage : pageSize = 4096 := rfl
  by_cases hi : i = entryIdx a
  · subst hi
    have hmask : ∀ j : Fin 64, (0xFF#64).getLsbD j = decide (j.val < 8) := by decide
    rw [storeByte, Radix.store_same, BitVec.setWidth_zero, BitVec.zero_shiftLeft, BitVec.or_zero,
      BitVec.getLsbD_and, BitVec.getLsbD_not, BitVec.getLsbD_shiftLeft,
      hmask ⟨k - 8 * (a.toNat % 8), by omega⟩]
    congr 1
    simp only [hk, decide_true, Bool.true_and, ← Bool.decide_and, ← decide_not, hpage, hidx]
    apply decide_eq_decide.mpr
    omega
  · have hne : 8 * i.val + k / 8 ≠ a.toNat % pageSize := by
      intro h
      refine hi (Fin.ext ?_)
      rw [hidx]
      rw [hpage] at h
      omega
    rw [storeByte, Radix.store_of_ne _ fun h => hi h.2, decide_eq_true hne, Bool.and_true]

/-! ### Reading what was stored -/

theorem getLsbD_ff {j : ℕ} (hj : j < 64) : (0xFF#64).getLsbD j = decide (j < 8) := by
  have hmask : ∀ j : Fin 64, (0xFF#64).getLsbD j = decide (j.val < 8) := by decide
  exact hmask ⟨j, hj⟩

/-- Byte `q` of a word whose byte `p` is replaced. -/
theorem extractLsb'_replace (e : Entry) (byte : BitVec 8) {p q : ℕ} (hp : p < 8) (hq : q < 8) :
    ((e &&& ~~~(0xFF#64 <<< (8 * p))) ||| byte.setWidth 64 <<< (8 * p)).extractLsb' (8 * q) 8 =
      if p = q then byte else e.extractLsb' (8 * q) 8 := by
  apply BitVec.eq_of_getLsbD_eq
  intro i hi
  have hlt : 8 * q + i < 64 := by omega
  simp only [BitVec.getLsbD_extractLsb', BitVec.getLsbD_or, BitVec.getLsbD_and, BitVec.getLsbD_not,
    BitVec.getLsbD_shiftLeft, BitVec.getLsbD_setWidth, hi, hlt, decide_true, Bool.true_and,
    getLsbD_ff (show 8 * q + i - 8 * p < 64 by omega)]
  rcases Nat.lt_trichotomy p q with hpq | rfl | hpq
  -- The replaced byte lies below: its bits end before.
  · have hge : ¬ 8 * q + i < 8 * p := by omega
    have hge8 : ¬ 8 * q + i - 8 * p < 8 := by omega
    rw [if_neg hpq.ne, BitVec.getLsbD_of_ge byte _ (by omega)]
    simp [hge, hge8, hi]
  · have hge : ¬ 8 * p + i < 8 * p := by omega
    have heq : 8 * p + i - 8 * p = i := by omega
    rw [if_pos rfl, heq]
    simp [hi, show i < 64 by omega]
  -- It lies above: its bits start behind.
  · have hlow : 8 * q + i < 8 * p := by omega
    rw [if_neg hpq.ne']
    simp [hlow, hi]

theorem toNat_eq_byte (a : Addr) :
    a.toNat = 4096 * pfn a + 8 * (entryIdx a).val + a.toNat % 8 := by
  show a.toNat = 4096 * (a.toNat / 4096) + 8 * (a.toNat / 8 % 512) + a.toNat % 8
  omega

/-- A stored byte is read back, and every other byte is as before. -/
theorem loadByte_storeByte (m : PhysMem) (a b : Addr) (byte : BitVec 8) :
    loadByte (storeByte m a byte) b = if a = b then byte else loadByte m b := by
  by_cases hentry : pfn b = pfn a ∧ entryIdx b = entryIdx a
  · have hsame : a = b ↔ a.toNat % 8 = b.toNat % 8 := by
      rw [← BitVec.toNat_inj]
      have ha := toNat_eq_byte a
      have hb := toNat_eq_byte b
      rw [hentry.1, hentry.2] at hb
      omega
    rw [loadByte, hentry.1, hentry.2, storeByte, Radix.store_same,
      extractLsb'_replace _ _ (Nat.mod_lt _ (by decide)) (Nat.mod_lt _ (by decide)), loadByte,
      hentry.1, hentry.2]
    simp only [hsame]
  · have hne : a ≠ b := by
      rintro rfl
      exact hentry ⟨rfl, rfl⟩
    rw [if_neg hne, loadByte, storeByte, Radix.store_of_ne _ hentry, loadByte]

theorem add_one_add_ofNat (a : Addr) (i : ℕ) :
    a + 1 + BitVec.ofNat 64 i = a + BitVec.ofNat 64 (i + 1) := by
  rw [Nat.add_comm i 1, BitVec.ofNat_add, ← BitVec.add_assoc]
  rfl

theorem toNat_add_ofNat_le (a : Addr) (n : ℕ) : (a + BitVec.ofNat 64 n).toNat ≤ a.toNat + n := by
  rw [BitVec.toNat_add, BitVec.toNat_ofNat]
  exact (Nat.mod_le ..).trans (Nat.add_le_add_left (Nat.mod_le ..) _)

/-- A word below the frame `n` is made of the frames below it. -/
theorem load32_congr {m m' : PhysMem} {n : ℕ} (h : ∀ f < n, m f = m' f) {a : Addr}
    (ha : a.toNat + 3 < pageSize * n) : load32 m a = load32 m' a := by
  have hbyte : ∀ i ≤ 3,
      loadByte m (a + BitVec.ofNat 64 i) = loadByte m' (a + BitVec.ofNat 64 i) := by
    intro i hi
    have hle := toNat_add_ofNat_le a i
    have hpfn : pfn (a + BitVec.ofNat 64 i) < n := Nat.div_lt_of_lt_mul (by omega)
    rw [loadByte, loadByte, h _ hpfn]
  have hfirst : loadByte m a = loadByte m' a := by simpa using hbyte 0 (by decide)
  have hsecond : loadByte m (a + 1) = loadByte m' (a + 1) := hbyte 1 (by decide)
  have hthird : loadByte m (a + 2) = loadByte m' (a + 2) := hbyte 2 (by decide)
  have hfourth : loadByte m (a + 3) = loadByte m' (a + 3) := hbyte 3 le_rfl
  rw [load32, load32, hfirst, hsecond, hthird, hfourth]

/-- Physical memory with the bytes from `a` on replaced. -/
def storeBytes (m : PhysMem) (a : Addr) : List (BitVec 8) → PhysMem
  | [] => m
  | byte :: bytes => storeBytes (storeByte m a byte) (a + 1) bytes

/-- The bytes off the ones replaced are as before. -/
theorem loadByte_storeBytes_off {bytes : List (BitVec 8)} {m : PhysMem} {a b : Addr}
    (h : ∀ i < bytes.length, b ≠ a + BitVec.ofNat 64 i) :
    loadByte (storeBytes m a bytes) b = loadByte m b := by
  induction bytes generalizing m a with
  | nil => rfl
  | cons byte bytes ih =>
    have hfirst : a ≠ b := by
      intro heq
      refine h 0 (Nat.succ_pos _) ?_
      rw [heq]
      exact (BitVec.add_zero b).symm
    rw [storeBytes, ih, loadByte_storeByte, if_neg hfirst]
    intro i hi heq
    refine h (i + 1) (Nat.succ_lt_succ hi) ?_
    rw [heq, add_one_add_ofNat]

/-- Bytes stored are read back. -/
theorem loadByte_storeBytes {bytes : List (BitVec 8)} {m : PhysMem} {a : Addr}
    (hlen : bytes.length ≤ 2 ^ 64) {i : ℕ} (hi : i < bytes.length) :
    loadByte (storeBytes m a bytes) (a + BitVec.ofNat 64 i) = bytes[i] := by
  induction bytes generalizing m a i with
  | nil => exact absurd hi (Nat.not_lt_zero i)
  | cons byte bytes ih =>
    rw [List.length_cons] at hlen hi
    cases i with
    | zero =>
      -- No later byte lands on the first one again, as there are at most 2^64.
      rw [storeBytes, loadByte_storeBytes_off, loadByte_storeByte, if_pos]
      · rfl
      · exact (BitVec.add_zero a).symm
      · intro i hi heq
        have hone : (1 : Addr).toNat = 1 := rfl
        rw [← BitVec.toNat_inj, BitVec.toNat_add, BitVec.toNat_add, BitVec.toNat_add,
          BitVec.toNat_ofNat, BitVec.toNat_ofNat, hone] at heq
        have ha := a.isLt
        omega
    | succ i =>
      rw [storeBytes, ← add_one_add_ofNat, ih (by omega) (by omega)]
      rfl

end KessOS
