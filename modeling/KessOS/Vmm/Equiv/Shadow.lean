import KessOS.Vmm.Equiv.Runs

/-!
# Addresses above 2^48

`map_page` takes the indices of its tables from bits 12 to 47 of the address, so an address above
2^48 is mapped in the place of the one with these bits (`lowAddr`), and its entry is the only
thing that differs.  `Shadow pml4 s t` says that two states have the same upper tables and the
same entries present; a call on `addr` in the one does what a call on `lowAddr addr` does in the
other (`mapPageNested_shadow`).  So a state that calls on any addresses lead to is `Represented` by
one with the invariant (`Fresh.represented`).
-/

namespace KessOS

open EStateM

variable {pml4 : Addr} {seg : Segment pml4} {flags : BitVec 32} {s s' t t' : Vmm} {addr : Addr}

/-! ### The low bits of an address -/

/-- The 48 bits that `map_page` looks at. -/
def lowAddr (addr : Addr) : Addr := addr &&& 0xFFFFFFFFFFFF#64

theorem toNat_lowAddr (addr : Addr) : (lowAddr addr).toNat = addr.toNat % 2 ^ 48 := by
  have hmask : (0xFFFFFFFFFFFF#64).toNat = 2 ^ 48 - 1 := rfl
  rw [lowAddr, BitVec.toNat_and, hmask, Nat.and_two_pow_sub_one_eq_mod]

theorem lowAddr_lt (addr : Addr) : (lowAddr addr).toNat < 2 ^ 48 := by
  rw [toNat_lowAddr]
  exact Nat.mod_lt _ (by decide)

theorem lowAddr_of_lt (h : addr.toNat < 2 ^ 48) : lowAddr addr = addr := by
  apply BitVec.eq_of_toNat_eq
  rw [toNat_lowAddr, Nat.mod_eq_of_lt h]

theorem pfn_lowAddr (addr : Addr) : pfn (lowAddr addr) = pageOf addr := by
  unfold pageOf pfn pageSize
  rw [toNat_lowAddr]
  omega

theorem tableIdx_lowAddr (addr : Addr) {ℓ : ℕ} (hℓ : ℓ ≤ 3) :
    tableIdx (lowAddr addr) (39 - 9 * ℓ) = tableIdx addr (39 - 9 * ℓ) := by
  apply Fin.ext
  rw [tableIdx_eq _ hℓ, tableIdx_eq _ hℓ, pfn_lowAddr, pageOf]
  show levelIdx (pfn addr % 512 ^ 4) ℓ % 512 = levelIdx (pfn addr) ℓ % 512
  unfold levelIdx
  interval_cases ℓ <;> omega

/-! ### Shadows -/

/-- The allocators stand alike, the upper tables are the same, and so are the entries that are
present. -/
structure Shadow (pml4 : Addr) (s t : Vmm) : Prop where
  placement : s.placement = t.placement
  segmentUsable : s.segmentUsable = t.segmentUsable
  upper : ∀ ℓ < 3, ∀ q < 512 ^ ℓ, ∀ u, nodeAt t.mem pml4 ℓ q = some u → s.mem u = t.mem u
  present : ∀ u i, present (s.mem u i) = present (t.mem u i)

/-- The state has the tables of one in which the invariant holds. -/
def Represented (seg : Segment pml4) (s : Vmm) : Prop := ∃ t, Inv seg t ∧ Shadow pml4 s t

namespace Shadow

theorem refl (pml4 : Addr) (s : Vmm) : Shadow pml4 s s where
  placement := rfl
  segmentUsable := rfl
  upper _ _ _ _ _ _ := rfl
  present _ _ := rfl

theorem next_eq (h : Shadow pml4 s t) : s.next = t.next := by
  rw [Vmm.next, Vmm.next, h.placement]

/-- Reading changes nothing. -/
theorem read (h : Shadow pml4 s t) (table : Addr) (idx : Fin 512) :
    Shadow pml4 (s.record (.read table idx)) (t.record (.read table idx)) := by
  obtain ⟨hplacement, husable, hupper, hpresent⟩ := h
  exact ⟨hplacement, husable, hupper, hpresent⟩

section Link

variable {table : Addr} {ℓ q : ℕ} (h : Shadow pml4 s t) (hI : Inv seg t)
  (hfree : 0 < t.segmentUsable.toNat) (hf : FlagsOk flags) (hp : flags.getLsbD 0 = true)
  (hℓ : ℓ < 3) (hq : q < 512 ^ (ℓ + 1)) (ht : nodeAt t.mem pml4 ℓ (q / 512) = some (pfn table))
  (hv : slotAt t.mem pml4 ℓ q = none)

include h hI hfree hf hp hℓ hq ht hv

/-- Both link a fresh table. -/
theorem linkFresh : Shadow pml4 (s.linkFresh table (Fin.ofNat 512 q) flags)
    (t.linkFresh table (Fin.ofNat 512 q) flags) := by
  have hsaligned : s.placement.toNat = pageSize * s.next := by
    rw [h.placement, h.next_eq]
    exact hI.aligned
  have hcleared : ∀ u, (u = t.next ∨ s.mem u = t.mem u) →
      Function.update s.mem t.next (fun _ => 0#64) u =
        Function.update t.mem t.next (fun _ => 0#64) u := by
    intro u hu
    by_cases hnext : u = t.next
    · rw [hnext, Function.update_self, Function.update_self]
    · rw [Function.update_of_ne hnext, Function.update_of_ne hnext, hu.resolve_left hnext]
  refine ⟨?placement, ?usable, ?upper, ?present⟩
  case placement =>
    show s.placement + BitVec.ofNat 64 pageSize = t.placement + BitVec.ofNat 64 pageSize
    rw [h.placement]
  case usable =>
    show s.segmentUsable - 1 = t.segmentUsable - 1
    rw [h.segmentUsable]
  case upper =>
    intro k hk r hr u hu
    rw [nodeAt_linkFresh hI hfree hf hp hℓ hq ht hv hk.le hr] at hu
    rw [linkFresh_mem hsaligned, linkFresh_mem hI.aligned, h.next_eq, h.placement, Radix.store,
      Radix.store, hcleared _ (Or.inr (h.upper ℓ hℓ _ (Radix.div_lt_pow hq) _ ht))]
    -- The table is linked in both, and off it only the fresh frame has changed.
    by_cases htable : u = pfn table
    · rw [htable, Function.update_self, Function.update_self]
    · rw [Function.update_of_ne htable, Function.update_of_ne htable]
      split_ifs at hu with hfresh
      · exact hcleared u (Or.inl (Option.some.inj hu).symm)
      · exact hcleared u (Or.inr (h.upper k hk r hr u hu))
  case present =>
    intro u i
    rw [linkFresh_mem hsaligned, linkFresh_mem hI.aligned, h.next_eq, h.placement]
    by_cases hentry : u = pfn table ∧ i = Fin.ofNat 512 q
    · obtain ⟨rfl, rfl⟩ := hentry
      rw [Radix.store_same, Radix.store_same]
    · rw [Radix.store_of_ne _ hentry, Radix.store_of_ne _ hentry]
      by_cases hnext : u = t.next
      · rw [hnext, Function.update_self, Function.update_self]
      · rw [Function.update_of_ne hnext, Function.update_of_ne hnext]
        exact h.present u i

end Link

/-- A table that `t` has at depth 3 is no upper table of `t`. -/
theorem upper_ne_leaf (hI : Inv seg t) {p u v : ℕ} (hp : p < 512 ^ 4)
    (hv : nodeAt t.mem pml4 3 (p / 512) = some v) {ℓ q : ℕ} (hℓ : ℓ < 3) (hq : q < 512 ^ ℓ)
    (hu : nodeAt t.mem pml4 ℓ q = some u) : u ≠ v := by
  rintro rfl
  have := (hI.distinct _ _ _ _ _ (by omega) le_rfl hq (Radix.div_lt_pow hp) hu hv).1
  omega

/-- An entry of a page table may be stored in both, if both are present or neither is. -/
theorem storeLeaf (h : Shadow pml4 s t) (hI : Inv seg t) {p pt : ℕ} (hp : p < 512 ^ 4)
    (hpt : nodeAt t.mem pml4 3 (p / 512) = some pt) {e e' : Entry}
    (he : KessOS.present e = KessOS.present e')
    (hs : s'.mem = Radix.store s.mem pt (Fin.ofNat 512 p) e)
    (ht : t'.mem = Radix.store t.mem pt (Fin.ofNat 512 p) e')
    (hplacement : s'.placement = t'.placement) (husable : s'.segmentUsable = t'.segmentUsable) :
    Shadow pml4 s' t' := by
  refine ⟨hplacement, husable, fun ℓ hℓ q hq u hu => ?_, fun u i => ?_⟩
  · rw [nodeAt, ht, Radix.node_store_le hI.distinct le_rfl hp hpt (by omega) hq] at hu
    have hne := upper_ne_leaf hI hp hpt hℓ hq hu
    rw [hs, ht, Radix.store_table_ne hne, Radix.store_table_ne hne, h.upper ℓ hℓ q hq u hu]
  · rw [hs, ht]
    by_cases hentry : u = pt ∧ i = Fin.ofNat 512 p
    · obtain ⟨rfl, rfl⟩ := hentry
      rw [Radix.store_same, Radix.store_same, he]
    · rw [Radix.store_of_ne _ hentry, Radix.store_of_ne _ hentry, h.present]

/-- Both store the entry of the page, and nothing above it sees what it points to. -/
theorem mapLeaf (h : Shadow pml4 s t) (hI : Inv seg t) {pt : Addr}
    (hpt : nodeAt t.mem pml4 3 (pfn (lowAddr addr) / 512) = some (pfn pt)) :
    Shadow pml4 (s.mapLeaf pt addr flags) (t.mapLeaf pt (lowAddr addr) flags) := by
  have hidx : tableIdx (lowAddr addr) 12 = tableIdx addr 12 := tableIdx_lowAddr addr le_rfl
  have hpresent : KessOS.present (entryFor addr flags) =
      KessOS.present (entryFor (lowAddr addr) flags) := by
    rw [present_eq, present_eq, getLsbD_entryFor_low _ (by decide),
      getLsbD_entryFor_low _ (by decide)]
  refine h.storeLeaf hI (pfn_lt _ (lowAddr_lt addr)) hpt hpresent ?_ ?_ h.placement h.segmentUsable
  · rw [← tableIdx_leaf, hidx]
    rfl
  · rw [← tableIdx_leaf]
    rfl

end Shadow

/-! ### `map_page` -/

section Level

variable {rec : Addr → BitVec 32 → VmmM Unit} {table : Addr} {ℓ q : ℕ}
  (hrec : ∀ s s' a, Inv seg s → a.toNat < 2 ^ 48 → (rec a flags).run s = .ok () s' →
    Maps seg flags a s s')
  (hshadow : ∀ s t a, Inv seg t → Shadow pml4 s t → a.toNat < 2 ^ 48 →
    ((rec a flags).run s).Rel (Shadow pml4) ((rec a flags).run t))
  (h : Shadow pml4 s t) (hI : Inv seg t) (hf : FlagsOk flags) (hp : flags.getLsbD 0 = true)
  (hℓ : ℓ < 3) (hq : q < 512 ^ (ℓ + 1)) (ht : nodeAt t.mem pml4 ℓ (q / 512) = some (pfn table))

include hrec hshadow h hI hf hp hℓ hq ht

theorem ensureTable_shadow :
    ((ensureTable rec table (Fin.ofNat 512 q) flags).run s).Rel (Shadow pml4)
      ((ensureTable rec table (Fin.ofNat 512 q) flags).run t) := by
  have htable := h.upper ℓ hℓ _ (Radix.div_lt_pow hq) _ ht
  have hread := h.read table (Fin.ofNat 512 q)
  rw [ensureTable_run, ensureTable_run, htable, h.segmentUsable]
  by_cases hpres : present (t.mem (pfn table) (Fin.ofNat 512 q)) = true
  · rw [if_pos hpres, if_pos hpres]
    exact ⟨rfl, hread.read table (Fin.ofNat 512 q)⟩
  · rw [if_neg hpres, if_neg hpres]
    by_cases hfree : t.segmentUsable ≤ 0
    · rw [if_pos hfree, if_pos hfree]
      exact ⟨rfl, hread⟩
    · have hfree' := usable_pos hfree
      have hvacant := slotAt_eq_none ht hpres
      have hI₁ := hI.record_read table (Fin.ofNat 512 q)
      have hlink := hread.linkFresh hI₁ hfree' hf hp hℓ hq ht hvacant
      obtain ⟨hI₂, -, h12⟩ := hI.readLink hf hp hℓ hq ht hpres hfree' rfl
      have hnested := hshadow _ _ t.placement hI₂ hlink (hI.placement_lt hfree')
      rw [if_neg hfree, if_neg hfree, h.placement]
      cases hs : (rec t.placement flags).run
          ((s.record (.read table (Fin.ofNat 512 q))).linkFresh table (Fin.ofNat 512 q) flags) with
      | ok u s₃ =>
        obtain ⟨t₃, ht₃, h₃⟩ := hnested.eq_ok hs
        have hmaps := hrec _ _ _ hI₂ (hI.placement_lt hfree') ht₃
        -- The table is still in its place, so both read the same entry of it.
        have hnode : nodeAt t₃.mem pml4 ℓ (q / 512) = some (pfn table) :=
          hmaps.2.keep.node (by omega) (Radix.div_lt_pow hq)
            (h12.keep.node (by omega) (Radix.div_lt_pow hq) ht)
        have heq := h₃.upper ℓ hℓ _ (Radix.div_lt_pow hq) _ hnode
        rw [ht₃]
        exact ⟨by rw [heq], h₃.read table (Fin.ofNat 512 q)⟩
      | error e s₃ =>
        obtain ⟨t₃, ht₃, h₃⟩ := hnested.eq_error hs
        rw [ht₃]
        exact ⟨rfl, h₃⟩

end Level

/-- A call on any address does what the call on its low bits does in the shadow. -/
theorem mapPageNested_shadow (fuel : ℕ) (hf : FlagsOk flags) (addr : Addr) (hI : Inv seg t)
    (h : Shadow pml4 s t) :
    ((mapPageNested pml4 fuel addr flags).run s).Rel (Shadow pml4)
      ((mapPageNested pml4 fuel (lowAddr addr) flags).run t) := by
  induction fuel generalizing flags addr s t with
  | zero => exact ⟨rfl, h⟩
  | succ fuel ih =>
    have hf' := hf.or_present
    have hp := or_present_getLsbD flags
    have hrec := mapPageNested_nested seg fuel hf
    have hlow := lowAddr_lt addr
    have hshadow : ∀ s t a, Inv seg t → Shadow pml4 s t → a.toNat < 2 ^ 48 →
        ((mapPageNested pml4 fuel a (flags ||| pageBitPPresentFlag)).run s).Rel (Shadow pml4)
          ((mapPageNested pml4 fuel a (flags ||| pageBitPPresentFlag)).run t) := by
      intro s t a hI h ha
      have := ih hf' a hI h
      rwa [lowAddr_of_lt ha] at this
    have hlevel : ∀ {ℓ table s₁ t₁}, ℓ < 3 → Shadow pml4 s₁ t₁ →
        Reached seg (flags ||| pageBitPPresentFlag) (lowAddr addr) ℓ table t t₁ →
        ((ensureTable (mapPageNested pml4 fuel) table (tableIdx addr (39 - 9 * ℓ))
          (flags ||| pageBitPPresentFlag)).run s₁).Rel (Shadow pml4)
          ((ensureTable (mapPageNested pml4 fuel) table (tableIdx (lowAddr addr) (39 - 9 * ℓ))
            (flags ||| pageBitPPresentFlag)).run t₁) := by
      intro ℓ table s₁ t₁ hℓ h₁ hr
      rw [← tableIdx_lowAddr addr hℓ.le, tableIdx_eq _ hℓ.le]
      exact ensureTable_shadow hrec hshadow h₁ hr.inv hf' hp hℓ
        (levelIdx_lt (pfn_lt _ hlow) hℓ.le) hr.node
    have r₀ : Reached seg (flags ||| pageBitPPresentFlag) (lowAddr addr) 0 pml4 t t :=
      Reached.start hI
    rw [mapPageNested, mapPageNested]
    have hpdpt := hlevel (by decide) h r₀
    refine rel_bind hpdpt fun pdpt s₁ t₁ _ ht₁ h₁ => ?_
    have r₁ := r₀.level hrec hf' hp (by decide) hlow ht₁
    have hpdt := hlevel (by decide) h₁ r₁
    refine rel_bind hpdt fun pdt s₂ t₂ _ ht₂ h₂ => ?_
    have r₂ := r₁.level hrec hf' hp (by decide) hlow ht₂
    have hpt := hlevel (by decide) h₂ r₂
    refine rel_bind hpt fun pt s₃ t₃ _ ht₃ h₃ => ?_
    have r₃ := r₂.level hrec hf' hp (by decide) hlow ht₃
    have hidx : tableIdx (lowAddr addr) 12 = tableIdx addr 12 := tableIdx_lowAddr addr le_rfl
    have hnode := r₃.node
    rw [levelIdx_three] at hnode
    rw [leaf_run, leaf_run, hidx, h₃.present]
    refine ⟨rfl, ?_⟩
    split_ifs
    · exact h₃.read pt _
    · exact (h₃.read pt _).mapLeaf (r₃.inv.record_read pt _) hnode

theorem mapPage_shadow (hf : FlagsOk flags) (addr : Addr) (hI : Inv seg t) (h : Shadow pml4 s t) :
    ((mapPage pml4 addr flags).run s).Rel (Shadow pml4)
      ((mapPage pml4 (lowAddr addr) flags).run t) := by
  rw [mapPage_run, mapPage_run, h.segmentUsable]
  exact mapPageNested_shadow _ hf addr hI h

/-! ### `unmap_page` -/

/-- As long as the entries are present, both follow the same tables. -/
theorem Shadow.followed_eq (h : Shadow pml4 s t) (hupper : UpperPresent s.mem pml4 addr) {ℓ : ℕ}
    (hℓ : ℓ ≤ 3) :
    followed s.mem pml4 addr ℓ = followed t.mem pml4 (lowAddr addr) ℓ ∧
      ∀ k < ℓ, KessOS.present (foundEntry t.mem pml4 (lowAddr addr) k) = true := by
  induction ℓ with
  | zero => exact ⟨rfl, fun k hk => absurd hk (Nat.not_lt_zero k)⟩
  | succ ℓ ih =>
    obtain ⟨heq, hpres⟩ := ih (by omega)
    have hnode := nodeAt_followed (by omega) hpres
    have htable := h.upper ℓ (by omega) _
      (Radix.div_lt_pow (levelIdx_lt (pfn_lt _ (lowAddr_lt addr)) (by omega))) _ hnode
    have hentry : foundEntry s.mem pml4 addr ℓ = foundEntry t.mem pml4 (lowAddr addr) ℓ := by
      rw [foundEntry, foundEntry, heq, htable, tableIdx_lowAddr addr (by omega)]
    refine ⟨congrArg target hentry, fun k hk => ?_⟩
    rcases Nat.lt_succ_iff_lt_or_eq.mp hk with hk | rfl
    · exact hpres k hk
    · rw [← hentry]
      exact hupper k (by omega)

theorem Represented.unmapPage {r : BitVec 8} (h : Represented seg s)
    (hupper : UpperPresent s.mem pml4 addr) (hrun : (unmapPage pml4 addr).run s = .ok r s') :
    Represented seg s' := by
  obtain ⟨t, hI, hshadow⟩ := h
  obtain ⟨heq, hpres⟩ := hshadow.followed_eq hupper le_rfl
  have haligned : addr % 0x1000 = lowAddr addr % 0x1000 := by
    apply BitVec.eq_of_toNat_eq
    rw [BitVec.toNat_umod, BitVec.toNat_umod, toNat_lowAddr]
    have h1000 : BitVec.toNat (0x1000 : Addr) = 0x1000 := rfl
    rw [h1000]
    omega
  have hidx : tableIdx (lowAddr addr) 12 = tableIdx addr 12 := tableIdx_lowAddr addr le_rfl
  have hfound : KessOS.present (foundEntry s.mem pml4 addr 3) =
      KessOS.present (foundEntry t.mem pml4 (lowAddr addr) 3) := by
    rw [foundEntry, foundEntry, heq, tableIdx_lowAddr addr le_rfl]
    exact hshadow.present _ _
  have hnode := nodeAt_followed le_rfl hpres
  rw [levelIdx_three] at hnode
  have ht : (KessOS.unmapPage pml4 (lowAddr addr)).run t = _ := unmapPage_run (lowAddr addr) t
  rw [unmapPage_run, haligned, hfound] at hrun
  split_ifs at hrun ht with ha hset
  -- The address is not page-aligned: nothing happens.
  · obtain ⟨-, rfl⟩ := (Result.ok.injEq ..).mp hrun
    exact ⟨t, hI, hshadow⟩
  · obtain ⟨-, rfl⟩ := (Result.ok.injEq ..).mp hrun
    have hclear : ∀ a, KessOS.present ((a &&& pageAddrMask) &&& ~~~pageBitPPresent) = false := by
      intro a
      have hone : (~~~pageBitPPresent).getLsbD 0 = false := by decide
      rw [present_eq, BitVec.getLsbD_and, hone, Bool.and_false]
    refine ⟨_, (unmapPage_clears hI.distinct hpres ht).inv hI,
      hshadow.storeLeaf hI (pfn_lt _ (lowAddr_lt addr)) hnode
        ((hclear addr).trans (hclear (lowAddr addr)).symm) ?_ ?_ hshadow.placement
        hshadow.segmentUsable⟩
    · rw [← tableIdx_leaf, hidx, ← heq]
      rfl
    · rw [← tableIdx_leaf]
      rfl
  · obtain ⟨-, rfl⟩ := (Result.ok.injEq ..).mp hrun
    obtain ⟨hplacement, husable, hup, hpr⟩ := hshadow
    exact ⟨_, (unmapPage_clears hI.distinct hpres ht).inv hI, hplacement, husable, hup, hpr⟩

/-! ### Reachable states -/

/-- One call that returns, of `map_page` on any address, or of `unmap_page` on a page whose upper
entries are present. -/
inductive Vmm.AnyStep (pml4 : Addr) : Vmm → Vmm → Prop
  | map {s s' : Vmm} {addr : Addr} {flags : BitVec 32} (hflags : FlagsOk flags)
    (h : (mapPage pml4 addr flags).run s = .ok () s') : AnyStep pml4 s s'
  | unmap {s s' : Vmm} {addr : Addr} {r : BitVec 8} (hupper : UpperPresent s.mem pml4 addr)
    (h : (unmapPage pml4 addr).run s = .ok r s') : AnyStep pml4 s s'

theorem Represented.mapPage (h : Represented seg s) (hf : FlagsOk flags)
    (hrun : (mapPage pml4 addr flags).run s = .ok () s') : Represented seg s' := by
  obtain ⟨t, hI, hshadow⟩ := h
  obtain ⟨t', ht, hshadow'⟩ := (mapPage_shadow hf addr hI hshadow).eq_ok hrun
  exact ⟨t', (mapPage_ok hI (lowAddr_lt addr) hf ht).1, hshadow'⟩

/-- Every state that calls lead to is represented. -/
theorem Fresh.represented (hs : Fresh seg s) (h : Relation.ReflTransGen (Vmm.AnyStep pml4) s s') :
    Represented seg s' := by
  induction h with
  | refl => exact ⟨s, hs.inv, Shadow.refl pml4 s⟩
  | tail _ hstep ih =>
    cases hstep with
    | map hflags h => exact ih.mapPage hflags h
    | unmap hupper h => exact ih.unmapPage hupper h

end KessOS
