import KessOS.Paging.Entry
import KessOS.Radix.Tree
import Mathlib.Tactic.IntervalCases
import Mathlib.Tactic.Positivity

/-!
# Physical memory and the 4-level walk

Physical memory is seen as page frames of 512 entries.  `walk m pml4 a` is what the processor
does to translate `a`: four present entries in a row, or `none`.  (No flag that the kernel
passes sets the page-size bit, so an entry of the upper levels always names a table.)

The walk is a lookup in the radix tree of base 512 that `m` holds below `pml4`: `levelIdx a ℓ` is
the page number of `a` cut to its `ℓ + 1` leading digits, and `walk_eq_some_iff` reads the four
entries of a walk as the slots under these digits.
-/

namespace KessOS

/-- Physical memory: the entries of each page frame. -/
abbrev PhysMem := ℕ → Fin 512 → Entry

/-- `(addr >> shift) & 0x1FF`, an index into a table. -/
def tableIdx (addr : Addr) (shift : ℕ) : Fin 512 :=
  Fin.ofNat 512 ((addr >>> shift) &&& 0x1FF#64).toNat

/-- The entry `idx` of the table at `table`, if it is present. -/
def presentEntry (m : PhysMem) (table : Addr) (idx : Fin 512) : Option Entry :=
  if present (m (pfn table) idx) then some (m (pfn table) idx) else none

/-- The four entries a walk goes through. -/
structure Translation where
  pml4e : Entry
  pdpte : Entry
  pde : Entry
  pte : Entry
deriving DecidableEq, Repr

/-- The page-table walk of the processor for the address `a`. -/
def walk (m : PhysMem) (pml4 a : Addr) : Option Translation := do
  let pml4e ← presentEntry m pml4 (tableIdx a 39)
  let pdpte ← presentEntry m (target pml4e) (tableIdx a 30)
  let pde ← presentEntry m (target pdpte) (tableIdx a 21)
  let pte ← presentEntry m (target pde) (tableIdx a 12)
  return ⟨pml4e, pdpte, pde, pte⟩

namespace Translation

/-- The entry of the walk at depth `ℓ`. -/
def entryAt (t : Translation) : ℕ → Entry
  | 0 => t.pml4e
  | 1 => t.pdpte
  | 2 => t.pde
  | _ => t.pte

/-- The entries of the walk, outermost first. -/
def entries (t : Translation) : List Entry := [t.pml4e, t.pdpte, t.pde, t.pte]

/-- The page the walk ends at. -/
def page (t : Translation) : Addr := target t.pte

/-- The page can be written: `RW` is set in all four entries. -/
def canWrite (t : Translation) : Bool := t.entries.all writable

/-- The page is open to user mode: `US` is set in all four entries. -/
def userMode (t : Translation) : Bool := t.entries.all user

theorem all_entries {t : Translation} {p : Entry → Bool} :
    t.entries.all p = true ↔ ∀ ℓ ≤ 3, p (t.entryAt ℓ) = true := by
  simp only [entries, List.all_cons, List.all_nil, Bool.and_true, Bool.and_eq_true]
  constructor
  · rintro ⟨h₀, h₁, h₂, h₃⟩ ℓ hℓ
    interval_cases ℓ
    exacts [h₀, h₁, h₂, h₃]
  · intro h
    exact ⟨h 0 (by omega), h 1 (by omega), h 2 (by omega), h 3 le_rfl⟩

theorem mem_entries {t : Translation} {e : Entry} : e ∈ t.entries ↔ ∃ ℓ ≤ 3, t.entryAt ℓ = e := by
  simp only [entries, List.mem_cons, List.not_mem_nil, or_false]
  constructor
  · rintro (rfl | rfl | rfl | rfl)
    exacts [⟨0, by omega, rfl⟩, ⟨1, by omega, rfl⟩, ⟨2, by omega, rfl⟩, ⟨3, le_rfl, rfl⟩]
  · rintro ⟨ℓ, hℓ, rfl⟩
    interval_cases ℓ <;> simp [entryAt]

end Translation

/-! ### The walk without a look at the present bits -/

/-- The table at depth `ℓ` that the entries for `a` name, present or not. -/
def followed (m : PhysMem) (pml4 a : Addr) : ℕ → Addr
  | 0 => pml4
  | ℓ + 1 => target (m (pfn (followed m pml4 a ℓ)) (tableIdx a (39 - 9 * ℓ)))

/-- The entry for `a` in that table. -/
def foundEntry (m : PhysMem) (pml4 a : Addr) (ℓ : ℕ) : Entry :=
  m (pfn (followed m pml4 a ℓ)) (tableIdx a (39 - 9 * ℓ))

/-- The PML4, PDPT and PD entries of the page of `a` are present. -/
def UpperPresent (m : PhysMem) (pml4 a : Addr) : Prop :=
  ∀ ℓ < 3, present (foundEntry m pml4 a ℓ) = true

instance (m : PhysMem) (pml4 a : Addr) : Decidable (UpperPresent m pml4 a) :=
  inferInstanceAs (Decidable (∀ ℓ < 3, _))

/-! ### The walk in the radix tree -/

/-- The digits of page `p` that select its entry at depth `ℓ`. -/
def levelIdx (p ℓ : ℕ) : ℕ := p / 512 ^ (3 - ℓ)

/-- The present entry at depth `ℓ` under the digits `q`. -/
def slotAt (m : PhysMem) (pml4 : Addr) (ℓ q : ℕ) : Option Entry :=
  Radix.slot child m (pfn pml4) ℓ q

/-- The table at depth `ℓ` under the digits `q`. -/
def nodeAt (m : PhysMem) (pml4 : Addr) (ℓ q : ℕ) : Option ℕ :=
  Radix.node child m (pfn pml4) ℓ q

theorem tableIdx_eq (a : Addr) {ℓ : ℕ} (hℓ : ℓ ≤ 3) :
    tableIdx a (39 - 9 * ℓ) = Fin.ofNat 512 (levelIdx (pfn a) ℓ) := by
  apply Fin.ext
  have hmask : (0x1FF#64).toNat = 2 ^ 9 - 1 := rfl
  show ((a >>> (39 - 9 * ℓ)) &&& 0x1FF#64).toNat % 512 = levelIdx (pfn a) ℓ % 512
  rw [BitVec.toNat_and, hmask, Nat.and_two_pow_sub_one_eq_mod, BitVec.toNat_ushiftRight,
    Nat.shiftRight_eq_div_pow, Nat.mod_mod_of_dvd _ (by norm_num), levelIdx, pfn, pageSize,
    Nat.div_div_eq_div_mul]
  congr 2
  interval_cases ℓ <;> norm_num

theorem levelIdx_div (p : ℕ) {ℓ : ℕ} (hℓ : ℓ < 3) : levelIdx p (ℓ + 1) / 512 = levelIdx p ℓ := by
  rw [levelIdx, levelIdx, Nat.div_div_eq_div_mul, ← pow_succ]
  congr 2
  omega

theorem levelIdx_lt {p : ℕ} (hp : p < 512 ^ 4) {ℓ : ℕ} (hℓ : ℓ ≤ 3) :
    levelIdx p ℓ < 512 ^ (ℓ + 1) := by
  rw [levelIdx, Nat.div_lt_iff_lt_mul (by positivity), ← pow_add]
  rwa [show ℓ + 1 + (3 - ℓ) = 4 by omega]

@[simp] theorem levelIdx_three (p : ℕ) : levelIdx p 3 = p := by
  simp [levelIdx]

/-- An entry is read through its table: a slot in terms of the table above it. -/
theorem slotAt_eq_some {m : PhysMem} {pml4 : Addr} {ℓ q : ℕ} {e : Entry} :
    slotAt m pml4 ℓ q = some e ↔
      ∃ t, nodeAt m pml4 ℓ (q / 512) = some t ∧ m t (Fin.ofNat 512 q) = e ∧ present e = true := by
  rw [slotAt, Radix.slot_eq_some]
  simp only [nodeAt, child_isSome]

/-- An entry that is read and not present leads nowhere. -/
theorem slotAt_eq_none {m : PhysMem} {pml4 : Addr} {ℓ q t : ℕ}
    (ht : nodeAt m pml4 ℓ (q / 512) = some t) (hpres : ¬ present (m t (Fin.ofNat 512 q)) = true) :
    slotAt m pml4 ℓ q = none := by
  rw [slotAt, Radix.slot_eq_none_of_node ht, child, if_neg hpres]

theorem nodeAt_succ_eq_some {m : PhysMem} {pml4 : Addr} {ℓ q t : ℕ} :
    nodeAt m pml4 (ℓ + 1) q = some t ↔ ∃ e, slotAt m pml4 ℓ q = some e ∧ pfn (target e) = t := by
  rw [nodeAt, Radix.node_succ, Option.bind_eq_some_iff]
  refine exists_congr fun e => and_congr_right fun he => ?_
  rw [child_eq_some]
  obtain ⟨_, _, _, hp⟩ := slotAt_eq_some.mp he
  simp [hp]

/-- What the processor finds in a table is the slot below the table's digits. -/
theorem presentEntry_eq_slotAt {m : PhysMem} {pml4 table : Addr} {ℓ q : ℕ}
    (ht : nodeAt m pml4 ℓ (q / 512) = some (pfn table)) :
    presentEntry m table (Fin.ofNat 512 q) = slotAt m pml4 ℓ q := by
  unfold nodeAt at ht
  unfold presentEntry slotAt Radix.slot
  rw [ht, Option.bind_some]
  simp only [child_isSome]

theorem nodeAt_target {m : PhysMem} {pml4 : Addr} {ℓ p : ℕ} {e : Entry} (hℓ : ℓ < 3)
    (he : slotAt m pml4 ℓ (levelIdx p ℓ) = some e) :
    nodeAt m pml4 (ℓ + 1) (levelIdx p (ℓ + 1) / 512) = some (pfn (target e)) := by
  rw [levelIdx_div p hℓ]
  exact nodeAt_succ_eq_some.mpr ⟨e, he, rfl⟩

/-- The entries of a walk are the slots under the digits of its page. -/
theorem walk_eq_some_iff {m : PhysMem} {pml4 a : Addr} {t : Translation} :
    walk m pml4 a = some t ↔
      ∀ ℓ ≤ 3, slotAt m pml4 ℓ (levelIdx (pfn a) ℓ) = some (t.entryAt ℓ) := by
  have hlevel : ∀ {ℓ table}, ℓ ≤ 3 →
      nodeAt m pml4 ℓ (levelIdx (pfn a) ℓ / 512) = some (pfn table) →
      presentEntry m table (tableIdx a (39 - 9 * ℓ)) = slotAt m pml4 ℓ (levelIdx (pfn a) ℓ) := by
    intro ℓ table hℓ ht
    rw [tableIdx_eq a hℓ]
    exact presentEntry_eq_slotAt ht
  simp only [walk, Option.bind_eq_bind, Option.bind_eq_some_iff, Option.pure_def,
    Option.some.injEq]
  have hroot : presentEntry m pml4 (tableIdx a 39) = _ := hlevel (ℓ := 0) (by omega) rfl
  constructor
  · rintro ⟨e₀, h₀, e₁, h₁, e₂, h₂, e₃, h₃, rfl⟩
    have h₀' := hroot.symm.trans h₀
    have h₁' := (hlevel (ℓ := 1) (by omega) (nodeAt_target (by omega) h₀')).symm.trans h₁
    have h₂' := (hlevel (ℓ := 2) (by omega) (nodeAt_target (by omega) h₁')).symm.trans h₂
    have h₃' := (hlevel (ℓ := 3) (by omega) (nodeAt_target (by omega) h₂')).symm.trans h₃
    intro ℓ hℓ
    interval_cases ℓ
    exacts [h₀', h₁', h₂', h₃']
  · intro h
    have h₀ := h 0 (by omega)
    have h₁ := h 1 (by omega)
    have h₂ := h 2 (by omega)
    have h₃ := h 3 (by omega)
    exact ⟨_, hroot.trans h₀,
      _, (hlevel (ℓ := 1) (by omega) (nodeAt_target (by omega) h₀)).trans h₁,
      _, (hlevel (ℓ := 2) (by omega) (nodeAt_target (by omega) h₁)).trans h₂,
      _, (hlevel (ℓ := 3) (by omega) (nodeAt_target (by omega) h₂)).trans h₃, rfl⟩

section Walk

variable {m m' : PhysMem} {pml4 a : Addr}

/-- The leaf entry of a walk. -/
theorem slotAt_of_walk {t : Translation} (h : walk m pml4 a = some t) :
    slotAt m pml4 3 (pfn a) = some t.pte := by
  have hleaf := walk_eq_some_iff.mp h 3 le_rfl
  rwa [levelIdx_three] at hleaf

/-- A present page has its upper entries present. -/
theorem slotAt_isSome_of_leaf {p : ℕ} (h : (slotAt m pml4 3 p).isSome) {ℓ : ℕ} (hℓ : ℓ ≤ 3) :
    (slotAt m pml4 ℓ (levelIdx p ℓ)).isSome := by
  have hparent : ∀ k < 3, (slotAt m pml4 (k + 1) (levelIdx p (k + 1))).isSome →
      (slotAt m pml4 k (levelIdx p k)).isSome := by
    intro k hk hs
    rw [← levelIdx_div p hk]
    exact Radix.slot_isSome_parent hs
  have h₃ : (slotAt m pml4 3 (levelIdx p 3)).isSome := by rwa [levelIdx_three]
  have h₂ := hparent 2 (by omega) h₃
  have h₁ := hparent 1 (by omega) h₂
  have h₀ := hparent 0 (by omega) h₁
  interval_cases ℓ
  exacts [h₀, h₁, h₂, h₃]

/-- A page is present when its leaf entry is. -/
theorem walk_isSome_iff : (walk m pml4 a).isSome ↔ (slotAt m pml4 3 (pfn a)).isSome := by
  constructor
  · intro h
    obtain ⟨t, ht⟩ := Option.isSome_iff_exists.mp h
    rw [slotAt_of_walk ht]
    rfl
  · intro h
    obtain ⟨e₀, h₀⟩ := Option.isSome_iff_exists.mp (slotAt_isSome_of_leaf h (Nat.zero_le 3))
    obtain ⟨e₁, h₁⟩ := Option.isSome_iff_exists.mp (slotAt_isSome_of_leaf h (ℓ := 1) (by omega))
    obtain ⟨e₂, h₂⟩ := Option.isSome_iff_exists.mp (slotAt_isSome_of_leaf h (ℓ := 2) (by omega))
    obtain ⟨e₃, h₃⟩ := Option.isSome_iff_exists.mp (slotAt_isSome_of_leaf h (ℓ := 3) le_rfl)
    have ht : walk m pml4 a = some ⟨e₀, e₁, e₂, e₃⟩ := by
      refine walk_eq_some_iff.mpr fun ℓ hℓ => ?_
      interval_cases ℓ
      exacts [h₀, h₁, h₂, h₃]
    rw [ht]
    rfl

theorem walk_eq_none_iff : walk m pml4 a = none ↔ slotAt m pml4 3 (pfn a) = none := by
  rw [← Option.not_isSome_iff_eq_none, ← Option.not_isSome_iff_eq_none, walk_isSome_iff]

/-- A walk only looks at the slots under the digits of its page. -/
theorem walk_congr
    (h : ∀ ℓ ≤ 3, slotAt m' pml4 ℓ (levelIdx (pfn a) ℓ) = slotAt m pml4 ℓ (levelIdx (pfn a) ℓ)) :
    walk m' pml4 a = walk m pml4 a := by
  apply Option.ext
  intro t
  rw [walk_eq_some_iff, walk_eq_some_iff]
  exact forall₂_congr fun ℓ hℓ => by rw [h ℓ hℓ]

end Walk

end KessOS
