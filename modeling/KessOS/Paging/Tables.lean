import KessOS.Paging.Walk

/-!
# The page tables of a memory

`TableAt m pml4 ℓ t` says that the frame `t` is a table at level `ℓ` below `pml4`: the PML4
itself at level 0, a PDPT at level 1, a PD at level 2 and a PT at level 3.  A frame may be a
table in several places; `PointsTo` names the entries of the upper levels that refer to it.
-/

namespace KessOS

/-- The frame `t` is a table at level `ℓ`. -/
inductive TableAt (m : PhysMem) (pml4 : Addr) : ℕ → ℕ → Prop
  | root : TableAt m pml4 0 (pfn pml4)
  | entry {ℓ t : ℕ} {idx : Fin 512} (h : TableAt m pml4 ℓ t) (hℓ : ℓ < 3)
    (hp : present (m t idx) = true) : TableAt m pml4 (ℓ + 1) (pfn (target (m t idx)))

/-- Entry `r.2.2` of the table `r.2.1` at level `r.1` is a present non-leaf entry that points to
the frame `f`. -/
def PointsTo (m : PhysMem) (pml4 : Addr) (f : ℕ) (r : ℕ × ℕ × Fin 512) : Prop :=
  r.1 < 3 ∧ TableAt m pml4 r.1 r.2.1 ∧ present (m r.2.1 r.2.2) = true ∧
    pfn (target (m r.2.1 r.2.2)) = f

variable {m : PhysMem} {pml4 : Addr}

theorem TableAt.le {ℓ t : ℕ} (h : TableAt m pml4 ℓ t) : ℓ ≤ 3 := by
  cases h with
  | root => omega
  | entry h hℓ hp => omega

/-- The digits of an entry below the digits of its table. -/
theorem digits_snoc (q : ℕ) (idx : Fin 512) :
    (512 * q + idx.val) / 512 = q ∧ Fin.ofNat 512 (512 * q + idx.val) = idx := by
  have hlt := idx.isLt
  refine ⟨by omega, Fin.ext ?_⟩
  show (512 * q + idx.val) % 512 = idx.val
  omega

theorem digits_snoc_lt {ℓ q : ℕ} (hq : q < 512 ^ ℓ) (idx : Fin 512) :
    512 * q + idx.val < 512 ^ (ℓ + 1) := by
  have hlt := idx.isLt
  rw [pow_succ]
  omega

/-- The tables are the nodes of the radix tree. -/
theorem tableAt_iff {ℓ t : ℕ} (hℓ : ℓ ≤ 3) :
    TableAt m pml4 ℓ t ↔ ∃ q < 512 ^ ℓ, nodeAt m pml4 ℓ q = some t := by
  constructor
  · intro h
    induction h with
    | root => exact ⟨0, by norm_num, rfl⟩
    | @entry ℓ t idx h hℓ' hp ih =>
      obtain ⟨q, hq, ht⟩ := ih (by omega)
      obtain ⟨hdiv, hidx⟩ := digits_snoc q idx
      exact ⟨512 * q + idx.val, digits_snoc_lt hq idx, nodeAt_succ_eq_some.mpr ⟨m t idx,
        slotAt_eq_some.mpr ⟨t, by rw [hdiv]; exact ht, by rw [hidx], hp⟩, rfl⟩⟩
  · rintro ⟨q, hq, ht⟩
    induction ℓ generalizing q t with
    | zero =>
      obtain rfl := Option.some.inj ht
      exact .root
    | succ ℓ ih =>
      obtain ⟨e, he, rfl⟩ := nodeAt_succ_eq_some.mp ht
      obtain ⟨u, hu, rfl, hp⟩ := slotAt_eq_some.mp he
      exact .entry (ih (by omega) _ (Radix.div_lt_pow hq) hu) (by omega) hp

/-- An entry that points to `f` is a slot whose node is `f`. -/
theorem pointsTo_iff {f ℓ t : ℕ} {idx : Fin 512} :
    PointsTo m pml4 f (ℓ, t, idx) ↔ ℓ < 3 ∧ ∃ q < 512 ^ (ℓ + 1),
      nodeAt m pml4 ℓ (q / 512) = some t ∧ Fin.ofNat 512 q = idx ∧
        nodeAt m pml4 (ℓ + 1) q = some f := by
  constructor
  · rintro ⟨hℓ, htable, hp, hf⟩
    obtain ⟨q, hq, ht⟩ := (tableAt_iff hℓ.le).mp htable
    obtain ⟨hdiv, hidx⟩ := digits_snoc q idx
    have ht' : nodeAt m pml4 ℓ ((512 * q + idx.val) / 512) = some t := by rw [hdiv]; exact ht
    exact ⟨hℓ, 512 * q + idx.val, digits_snoc_lt hq idx, ht', hidx, nodeAt_succ_eq_some.mpr
      ⟨m t idx, slotAt_eq_some.mpr ⟨t, ht', by rw [hidx], hp⟩, hf⟩⟩
  · rintro ⟨hℓ, q, hq, ht, rfl, hf⟩
    obtain ⟨e, he, hf⟩ := nodeAt_succ_eq_some.mp hf
    obtain ⟨u, hu, rfl, hp⟩ := slotAt_eq_some.mp he
    rw [ht] at hu
    obtain rfl := Option.some.inj hu
    exact ⟨hℓ, (tableAt_iff hℓ.le).mpr ⟨_, Radix.div_lt_pow hq, ht⟩, hp, hf⟩

/-- Where no table is reached twice, a table is referred to by one entry. -/
theorem PointsTo.unique (hD : Radix.Distinct child m (pfn pml4) 3) {f : ℕ}
    {r r' : ℕ × ℕ × Fin 512} (h : PointsTo m pml4 f r) (h' : PointsTo m pml4 f r') : r = r' := by
  obtain ⟨ℓ, t, idx⟩ := r
  obtain ⟨ℓ', t', idx'⟩ := r'
  obtain ⟨hℓ, q, hq, ht, rfl, hf⟩ := pointsTo_iff.mp h
  obtain ⟨hℓ', q', hq', ht', rfl, hf'⟩ := pointsTo_iff.mp h'
  obtain ⟨hdepth, rfl⟩ := hD _ _ _ _ _ (by omega) (by omega) hq hq' hf hf'
  obtain rfl : ℓ = ℓ' := by omega
  rw [ht] at ht'
  obtain rfl := Option.some.inj ht'
  rfl

end KessOS
