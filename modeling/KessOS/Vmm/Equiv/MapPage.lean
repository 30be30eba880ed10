import KessOS.Vmm.Equiv.Steps

/-!
# Correctness of `map_page`

`pathKeys p` are the four entries that a walk of page `p` goes through and `selfKeys lo hi` those
of the frames from `lo` up to `hi`.  A call of `map_page` that returns adds exactly the path of
its page and the paths of the frames it has taken (`mapPage_ok`), whatever of them was missing.

The proof is an induction on the fuel.  The nested call on a fresh table runs on a state in which
that table is linked but not mapped; `Inv` holds there, so the induction hypothesis applies to
it, and `Extends.trans` adds up what the levels have done.
-/

namespace KessOS

open EStateM

variable {pml4 : Addr} {seg : Segment pml4} {flags : BitVec 32} {s s' : Vmm}

/-- The entries on the walk of page `p`. -/
def pathKeys (p : ℕ) : Set (ℕ × ℕ) := {κ | κ.1 ≤ 3 ∧ κ.2 = levelIdx p κ.1}

/-- The entries on the walks of the frames from `lo` up to `hi`. -/
def selfKeys (lo hi : ℕ) : Set (ℕ × ℕ) := {κ | ∃ f, lo ≤ f ∧ f < hi ∧ κ ∈ pathKeys f}

theorem mem_pathKeys {p ℓ q : ℕ} : (ℓ, q) ∈ pathKeys p ↔ ℓ ≤ 3 ∧ q = levelIdx p ℓ := Iff.rfl

theorem mem_selfKeys {lo hi : ℕ} {κ : ℕ × ℕ} :
    κ ∈ selfKeys lo hi ↔ ∃ f, lo ≤ f ∧ f < hi ∧ κ ∈ pathKeys f := Iff.rfl

@[simp] theorem selfKeys_self (lo : ℕ) : selfKeys lo lo = ∅ := by
  ext κ
  rw [mem_selfKeys]
  simp only [Set.mem_empty_iff_false, iff_false, not_exists]
  omega

theorem selfKeys_union {lo mid hi : ℕ} (h₁ : lo ≤ mid) (h₂ : mid ≤ hi) :
    selfKeys lo mid ∪ selfKeys mid hi = selfKeys lo hi := by
  ext κ
  simp only [Set.mem_union, mem_selfKeys]
  constructor
  · rintro (⟨f, hlo, hhi, hκ⟩ | ⟨f, hlo, hhi, hκ⟩)
    · exact ⟨f, hlo, by omega, hκ⟩
    · exact ⟨f, by omega, hhi, hκ⟩
  · rintro ⟨f, hlo, hhi, hκ⟩
    rcases Nat.lt_or_ge f mid with hf | hf
    · exact Or.inl ⟨f, hlo, hf, hκ⟩
    · exact Or.inr ⟨f, hf, hhi, hκ⟩

theorem selfKeys_succ (lo : ℕ) : selfKeys lo (lo + 1) = pathKeys lo := by
  ext κ
  rw [mem_selfKeys]
  constructor
  · rintro ⟨f, hlo, hhi, hκ⟩
    obtain rfl : f = lo := by omega
    exact hκ
  · exact fun hκ => ⟨lo, le_rfl, Nat.lt_succ_self lo, hκ⟩

/-- Only frames from `lo` up to `hi` are pages of `selfKeys lo hi`. -/
theorem page_mem_selfKeys {lo hi f : ℕ} (h : (3, f) ∈ selfKeys lo hi) : lo ≤ f ∧ f < hi := by
  obtain ⟨g, hlo, hhi, _, hfg⟩ := h
  rw [levelIdx_three] at hfg
  obtain rfl : f = g := hfg
  exact ⟨hlo, hhi⟩

/-! ### One level -/

theorem ensureTable_run (rec : Addr → BitVec 32 → VmmM Unit) (table : Addr) (idx : Fin 512)
    (flags : BitVec 32) (s : Vmm) :
    (ensureTable rec table idx flags).run s =
      if present (s.mem (pfn table) idx) then
        .ok (target (s.mem (pfn table) idx))
          ((s.record (.read table idx)).record (.read table idx))
      else if s.segmentUsable ≤ 0 then .error .outOfMemory (s.record (.read table idx))
      else
        match (rec s.placement flags).run
            ((s.record (.read table idx)).linkFresh table idx flags) with
        | .ok _ s₂ => .ok (target (s₂.mem (pfn table) idx)) (s₂.record (.read table idx))
        | .error e s₂ => .error e s₂ := by
  have hload := loadEntry_run table idx s
  unfold ensureTable
  rw [run_bind_of_ok hload]
  cases hpres : present (s.mem (pfn table) idx) with
  | true => rfl
  | false =>
    have halloc := internelAllocPage_run (s.record (.read table idx))
    simp only [Bool.not_false, if_true, Bool.false_eq_true, if_false]
    by_cases hfree : s.segmentUsable ≤ 0
    · rw [if_pos hfree]
      rw [if_pos (show (s.record (.read table idx)).segmentUsable ≤ 0 from hfree)] at halloc
      rw [run_bind_of_error halloc]
    · rw [if_neg hfree]
      rw [if_neg (show ¬ (s.record (.read table idx)).segmentUsable ≤ 0 from hfree)] at halloc
      rw [run_bind_of_ok halloc, run_bind_of_ok (memzero_run _ _),
        run_bind_of_ok (storeEntry_run _ _ _ _)]
      cases hrec : (rec s.placement flags).run
          ((s.record (.read table idx)).linkFresh table idx flags) with
      | ok u s₂ =>
        have hrec' : (rec (s.record (.read table idx)).placement flags).run
          ((s.record (.read table idx)).linkFresh table idx flags) = .ok u s₂ := hrec
        rw [Vmm.linkFresh] at hrec'
        rw [run_bind_of_ok hrec']
        rfl
      | error e s₂ =>
        have hrec' : (rec (s.record (.read table idx)).placement flags).run
          ((s.record (.read table idx)).linkFresh table idx flags) = .error e s₂ := hrec
        rw [Vmm.linkFresh] at hrec'
        rw [run_bind_of_error hrec']

/-- What a call of `map_page` on the page of `addr` does to the tables. -/
def Maps (seg : Segment pml4) (flags : BitVec 32) (addr : Addr) (s s' : Vmm) : Prop :=
  Inv seg s' ∧ Extends seg flags (pathKeys (pfn addr) ∪ selfKeys s.next s'.next) s s'

/-- An entry that is there anyway can be added to the new ones. -/
theorem Extends.insert {Δ : Set (ℕ × ℕ)} {κ : ℕ × ℕ} (h : Extends seg flags Δ s s')
    (hκ : (slotAt s'.mem pml4 κ.1 κ.2).isSome) (hℓ : κ.1 ≤ 3) (hq : κ.2 < 512 ^ (κ.1 + 1)) :
    Extends seg flags ({κ} ∪ Δ) s s' where
  le := h.le
  keep := h.keep
  gain ℓ q e hℓ hq hold hnew :=
    ⟨Or.inr (h.gain ℓ q e hℓ hq hold hnew).1, (h.gain ℓ q e hℓ hq hold hnew).2⟩
  full κ' hκ' := hκ'.elim (fun heq => (Set.mem_singleton_iff.mp heq) ▸ hκ) (h.full κ')
  range κ' hκ' :=
    hκ'.elim (fun heq => (Set.mem_singleton_iff.mp heq) ▸ ⟨hℓ, hq⟩) (h.range κ')
  traced := h.traced
  cr3 := h.cr3

/-- An entry that is there is read twice, and nothing changes. -/
theorem ensureTable_present {table : Addr} {ℓ q : ℕ} (hI : Inv seg s) (hℓ : ℓ < 3)
    (hq : q < 512 ^ (ℓ + 1)) (ht : nodeAt s.mem pml4 ℓ (q / 512) = some (pfn table))
    (hpres : present (s.mem (pfn table) (Fin.ofNat 512 q)) = true)
    (hs' : s' = (s.record (.read table (Fin.ofNat 512 q))).record
      (.read table (Fin.ofNat 512 q))) :
    Extends seg flags ({(ℓ, q)} ∪ selfKeys s.next s'.next) s s' ∧
      nodeAt s'.mem pml4 (ℓ + 1) q =
        some (pfn (target (s.mem (pfn table) (Fin.ofNat 512 q)))) := by
  subst hs'
  have hwithin := hI.table_within hℓ.le (Radix.div_lt_pow hq) ht
  have hread := step_read flags (Fin.ofNat 512 q) hwithin
  have hslot : slotAt s.mem pml4 ℓ q = some (s.mem (pfn table) (Fin.ofNat 512 q)) :=
    slotAt_eq_some.mpr ⟨_, ht, rfl, hpres⟩
  have hsome : (slotAt s.mem pml4 ℓ q).isSome := by
    rw [hslot]
    rfl
  have hreads := (hread.trans (step_read (s := s.record _) flags (Fin.ofNat 512 q) hwithin)
    (fun f _ _ => Set.notMem_empty _) (hI.next_le.trans seg.fits)).congr_set (Set.union_self ∅)
  refine ⟨(hreads.insert (κ := (ℓ, q)) hsome hℓ.le hq).congr_set ?_,
    nodeAt_succ_eq_some.mpr ⟨_, hslot, rfl⟩⟩
  rw [show selfKeys s.next ((s.record _).record _).next = ∅ from selfKeys_self s.next]

theorem usable_pos (h : ¬ s.segmentUsable ≤ 0) : 0 < s.segmentUsable.toNat := by
  rw [BitVec.le_def] at h
  exact Nat.pos_of_ne_zero fun h0 => h (by rw [h0]; exact Nat.zero_le _)

/-- The state in which the nested call starts: the entry was read, found not present, and linked
to a fresh table. -/
theorem Inv.readLink {table : Addr} {ℓ q : ℕ} (hI : Inv seg s) (hf : FlagsOk flags)
    (hp : flags.getLsbD 0 = true) (hℓ : ℓ < 3) (hq : q < 512 ^ (ℓ + 1))
    (ht : nodeAt s.mem pml4 ℓ (q / 512) = some (pfn table))
    (hpres : ¬ present (s.mem (pfn table) (Fin.ofNat 512 q)) = true)
    (hfree : 0 < s.segmentUsable.toNat) (hs' : s' = (s.record (.read table
      (Fin.ofNat 512 q))).linkFresh table (Fin.ofNat 512 q) flags) :
    Inv seg s' ∧ s'.next = s.next + 1 ∧ Extends seg flags {(ℓ, q)} s s' := by
  subst hs'
  have hvacant := slotAt_eq_none ht hpres
  have hread := step_read flags (Fin.ofNat 512 q)
    (hI.table_within hℓ.le (Radix.div_lt_pow hq) ht)
  have hI₁ := hI.record_read table (Fin.ofNat 512 q)
  have hI₂ := hI₁.linkFresh hfree hf hp hℓ hq ht hvacant
  have hlink := step_link hI₁ hfree hf hp hℓ hq ht hvacant
  exact ⟨hI₂, hI₁.next_linkFresh hfree table (Fin.ofNat 512 q) flags,
    (hread.trans hlink (fun f _ _ => Set.notMem_empty _) (hI₂.next_le.trans seg.fits)).congr_set
      (Set.empty_union {(ℓ, q)})⟩

section Level

variable {rec : Addr → BitVec 32 → VmmM Unit} {table : Addr} {ℓ q : ℕ}
  (hrec : ∀ s s' a, Inv seg s → a.toNat < 2 ^ 48 → (rec a flags).run s = .ok () s' →
    Maps seg flags a s s')
  (hI : Inv seg s) (hf : FlagsOk flags) (hp : flags.getLsbD 0 = true) (hℓ : ℓ < 3)
  (hq : q < 512 ^ (ℓ + 1)) (ht : nodeAt s.mem pml4 ℓ (q / 512) = some (pfn table))

include hrec hI hf hp hℓ hq ht

/-- A fresh table is linked and mapped to itself by the nested call, and then the entry is read
again. -/
theorem ensureTable_fresh {u : Unit} {s₃ : Vmm}
    (hpres : ¬ present (s.mem (pfn table) (Fin.ofNat 512 q)) = true)
    (hfree : 0 < s.segmentUsable.toNat)
    (hrun : (rec s.placement flags).run ((s.record (.read table (Fin.ofNat 512 q))).linkFresh
      table (Fin.ofNat 512 q) flags) = .ok u s₃)
    (hs' : s' = s₃.record (.read table (Fin.ofNat 512 q))) :
    Inv seg s' ∧ Extends seg flags ({(ℓ, q)} ∪ selfKeys s.next s'.next) s s' ∧
      nodeAt s'.mem pml4 (ℓ + 1) q =
        some (pfn (target (s₃.mem (pfn table) (Fin.ofNat 512 q)))) := by
  subst hs'
  -- The read and the link, then the nested call, then the second read.
  obtain ⟨hI₂, hnext₂, h12⟩ := hI.readLink hf hp hℓ hq ht hpres hfree rfl
  set s₂ := (s.record (.read table (Fin.ofNat 512 q))).linkFresh table (Fin.ofNat 512 q) flags
  obtain ⟨hI₃, hnested⟩ := hrec s₂ s₃ s.placement hI₂ (hI.placement_lt hfree) hrun
  have hle₃ := hnested.le
  have hfit := hI₃.next_le.trans seg.fits
  have h13 := h12.trans hnested (fun f _ _ hmem => by
    have := (Prod.mk.inj (Set.mem_singleton_iff.mp hmem)).1
    omega) hfit
  have hnode₃ : nodeAt s₃.mem pml4 ℓ (q / 512) = some (pfn table) :=
    h13.keep.node (by omega) (Radix.div_lt_pow hq) ht
  have hread₃ := step_read flags (Fin.ofNat 512 q)
    (hI₃.table_within hℓ.le (Radix.div_lt_pow hq) hnode₃)
  have h14 := h13.trans hread₃ (fun f h₁ h₂ => absurd (lt_of_le_of_lt h₁ h₂) (lt_irrefl _)) hfit
  obtain ⟨e, he⟩ := Option.isSome_iff_exists.mp (h13.full (ℓ, q) (Or.inl rfl))
  refine ⟨hI₃.record_read table _, h14.congr_set ?_, ?_⟩
  · -- The frame taken here comes before those that the nested call takes.
    have hself : pathKeys (pfn s.placement) ∪ selfKeys s₂.next s₃.next =
        selfKeys s.next s₃.next := by
      rw [hnext₂] at hle₃ ⊢
      rw [← selfKeys_union (Nat.le_succ s.next) hle₃, selfKeys_succ]
      rfl
    rw [Set.union_empty, hself]
    rfl
  · obtain ⟨t, ht', hentry, _⟩ := slotAt_eq_some.mp he
    rw [hnode₃] at ht'
    obtain rfl := Option.some.inj ht'
    refine nodeAt_succ_eq_some.mpr ⟨e, he, ?_⟩
    rw [hentry]

/-- One level of `map_page` adds its entry and the paths of the frames it takes, and it returns
the table behind the entry. -/
theorem ensureTable_ok {a : Addr}
    (h : (ensureTable rec table (Fin.ofNat 512 q) flags).run s = .ok a s') :
    Inv seg s' ∧ Extends seg flags ({(ℓ, q)} ∪ selfKeys s.next s'.next) s s' ∧
      nodeAt s'.mem pml4 (ℓ + 1) q = some (pfn a) := by
  rw [ensureTable_run] at h
  split_ifs at h with hpres hfree
  -- Out of memory has been ruled out: the call has returned.
  · obtain ⟨rfl, hs'⟩ := (Result.ok.injEq ..).mp h
    have hinv := (hI.record_read table (Fin.ofNat 512 q)).record_read table (Fin.ofNat 512 q)
    exact ⟨hs' ▸ hinv, ensureTable_present hI hℓ hq ht hpres hs'.symm⟩
  · have hfree' := usable_pos hfree
    cases hrun : (rec s.placement flags).run
        ((s.record (.read table (Fin.ofNat 512 q))).linkFresh table (Fin.ofNat 512 q) flags) with
    | error e s₃ =>
      rw [hrun] at h
      cases h
    | ok u s₃ =>
      rw [hrun] at h
      obtain ⟨rfl, hs'⟩ := (Result.ok.injEq ..).mp h
      exact ensureTable_fresh hrec hI hf hp hℓ hq ht hpres hfree' hrun hs'.symm

end Level

/-! ### The call -/

theorem or_present_getLsbD (flags : BitVec 32) :
    (flags ||| pageBitPPresentFlag).getLsbD 0 = true := by
  simp [pageBitPPresentFlag]

theorem FlagsOk.or_present (hf : FlagsOk flags) : FlagsOk (flags ||| pageBitPPresentFlag) := by
  have hone : pageBitPPresentFlag &&& ~~~pageFlags = 0 := by decide
  have hdist : ∀ a b c : BitVec 32, (a ||| b) &&& c = (a &&& c) ||| (b &&& c) := by
    intro a b c
    apply BitVec.eq_of_getLsbD_eq
    intro i _
    simp only [BitVec.getLsbD_and, BitVec.getLsbD_or, Bool.and_or_distrib_right]
  unfold FlagsOk at hf ⊢
  rw [hdist, hf, hone]
  rfl

theorem or_present_idem (flags : BitVec 32) :
    flags ||| pageBitPPresentFlag ||| pageBitPPresentFlag = flags ||| pageBitPPresentFlag := by
  rw [BitVec.or_assoc, BitVec.or_self]

/-- The entries on the walk of page `p` above depth `ℓ`. -/
def upperKeys (p ℓ : ℕ) : Set (ℕ × ℕ) := {κ | κ.1 < ℓ ∧ κ ∈ pathKeys p}

@[simp] theorem upperKeys_zero (p : ℕ) : upperKeys p 0 = ∅ := by
  simp [upperKeys]

theorem upperKeys_succ (p : ℕ) {ℓ : ℕ} (hℓ : ℓ ≤ 3) :
    upperKeys p (ℓ + 1) = upperKeys p ℓ ∪ {(ℓ, levelIdx p ℓ)} := by
  ext ⟨k, r⟩
  simp only [upperKeys, mem_pathKeys, Set.mem_ofPred_eq, Set.mem_union, Set.mem_singleton_iff,
    Prod.mk.injEq]
  constructor
  · rintro ⟨hlt, hk, rfl⟩
    rcases Nat.lt_succ_iff_lt_or_eq.mp hlt with hlt | rfl
    · exact Or.inl ⟨hlt, hk, rfl⟩
    · exact Or.inr ⟨rfl, rfl⟩
  · rintro (⟨hlt, hk, rfl⟩ | ⟨rfl, rfl⟩)
    · exact ⟨by omega, hk, rfl⟩
    · exact ⟨Nat.lt_succ_self k, hℓ, rfl⟩

theorem upperKeys_four (p : ℕ) : upperKeys p 4 = pathKeys p := by
  ext ⟨k, r⟩
  simp only [upperKeys, mem_pathKeys, Set.mem_ofPred_eq]
  exact ⟨fun h => h.2, fun h => ⟨by omega, h⟩⟩

/-- A call on `addr` that started in `s` has come to the table at depth `ℓ` of the walk. -/
structure Reached (seg : Segment pml4) (flags : BitVec 32) (addr : Addr) (ℓ : ℕ) (table : Addr)
    (s s₁ : Vmm) : Prop where
  inv : Inv seg s₁
  ext : Extends seg flags (upperKeys (pfn addr) ℓ ∪ selfKeys s.next s₁.next) s s₁
  node : nodeAt s₁.mem pml4 ℓ (levelIdx (pfn addr) ℓ / 512) = some (pfn table)

namespace Reached

variable {addr table : Addr} {ℓ : ℕ} {s₁ s₂ : Vmm}

theorem start (hI : Inv seg s) : Reached seg flags addr 0 pml4 s s where
  inv := hI
  ext := (Extends.refl s).congr_set (by rw [upperKeys_zero, selfKeys_self, Set.union_empty])
  node := rfl

/-- The pages mapped so far are frames taken earlier. -/
theorem page_notMem (_h : Reached seg flags addr ℓ table s s₁) (hℓ : ℓ ≤ 3) {f : ℕ}
    (hf : s₁.next ≤ f) : (3, f) ∉ upperKeys (pfn addr) ℓ ∪ selfKeys s.next s₁.next := by
  rintro (hupper | hself)
  · have : (3, f).1 < ℓ := hupper.1
    omega
  · have := (page_mem_selfKeys hself).2
    omega

theorem level (h : Reached seg flags addr ℓ table s s₁) {rec : Addr → BitVec 32 → VmmM Unit}
    (hrec : ∀ s s' a, Inv seg s → a.toNat < 2 ^ 48 → (rec a flags).run s = .ok () s' →
      Maps seg flags a s s')
    (hf : FlagsOk flags) (hp : flags.getLsbD 0 = true) (hℓ : ℓ < 3) (ha : addr.toNat < 2 ^ 48)
    {a : Addr}
    (hrun : (ensureTable rec table (tableIdx addr (39 - 9 * ℓ)) flags).run s₁ = .ok a s₂) :
    Reached seg flags addr (ℓ + 1) a s s₂ := by
  rw [tableIdx_eq addr hℓ.le] at hrun
  obtain ⟨hI₂, hE, hnode⟩ := ensureTable_ok hrec h.inv hf hp hℓ
    (levelIdx_lt (pfn_lt addr ha) hℓ.le) h.node hrun
  refine ⟨hI₂, ?_, by rw [levelIdx_div _ hℓ]; exact hnode⟩
  refine (h.ext.trans hE (fun f hf _ => h.page_notMem hℓ.le hf)
    (hI₂.next_le.trans seg.fits)).congr_set ?_
  rw [upperKeys_succ _ hℓ.le, ← selfKeys_union h.ext.le hE.le]
  exact Set.union_union_union_comm ..

/-- The end of the call: the entry of the page itself. -/
theorem leaf (h : Reached seg flags addr 3 table s s₁) (hf : FlagsOk flags)
    (hp : flags.getLsbD 0 = true) (ha : addr.toNat < 2 ^ 48) :
    Maps seg flags addr s
      (if present (s₁.mem (pfn table) (tableIdx addr 12)) then
        s₁.record (.read table (tableIdx addr 12))
      else (s₁.record (.read table (tableIdx addr 12))).mapLeaf table addr flags) := by
  have hpage := pfn_lt addr ha
  have hfit := h.inv.next_le.trans seg.fits
  have hnode := h.node
  rw [levelIdx_three] at hnode
  have hnone : ∀ f, s₁.next ≤ f → f < s₁.next → False :=
    fun f h₁ h₂ => absurd (lt_of_le_of_lt h₁ h₂) (lt_irrefl _)
  have hread := step_read flags (tableIdx addr 12)
    (h.inv.table_within le_rfl (Radix.div_lt_pow hpage) hnode)
  have hE := h.ext.trans hread (fun f h₁ h₂ => (hnone f h₁ h₂).elim) hfit
  have hI := h.inv.record_read table (tableIdx addr 12)
  have hset : ∀ t : Vmm, t.next = s₁.next →
      upperKeys (pfn addr) 3 ∪ selfKeys s.next s₁.next ∪ ∅ ∪ {(3, pfn addr)} =
        pathKeys (pfn addr) ∪ selfKeys s.next t.next := by
    intro t ht
    rw [ht, ← upperKeys_four, upperKeys_succ _ le_rfl, levelIdx_three, Set.union_empty,
      Set.union_right_comm]
  split_ifs with hpres
  -- The page may be there already, as one of the frames mapped on the way.
  · have hslot : slotAt s₁.mem pml4 3 (pfn addr) =
        some (s₁.mem (pfn table) (tableIdx addr 12)) :=
      slotAt_eq_some.mpr ⟨_, hnode, by rw [tableIdx_leaf], hpres⟩
    have hsome : (slotAt s₁.mem pml4 3 (pfn addr)).isSome := by
      rw [hslot]
      rfl
    refine ⟨hI, (hE.insert (κ := (3, pfn addr)) hsome le_rfl hpage).congr_set ?_⟩
    rw [Set.union_comm {(3, pfn addr)}]
    exact hset _ rfl
  · have hvacant : slotAt s₁.mem pml4 3 (pfn addr) = none :=
      slotAt_eq_none hnode (by rw [← tableIdx_leaf]; exact hpres)
    exact ⟨hI.mapLeaf ha hf hp hnode, (hE.trans (step_leaf hI ha hf hp hnode hvacant)
      (fun f h₁ h₂ => (hnone f h₁ h₂).elim) hfit).congr_set (hset _ rfl)⟩

end Reached

/-- The last lines of `map_page`. -/
theorem leaf_run (pt addr : Addr) (flags : BitVec 32) (s : Vmm) :
    (do
      if !present (← loadEntry pt (tableIdx addr 12)) then
        storeEntry pt (tableIdx addr 12) (entryFor addr flags) : VmmM Unit).run s =
      .ok () (if present (s.mem (pfn pt) (tableIdx addr 12)) then
        s.record (.read pt (tableIdx addr 12))
      else (s.record (.read pt (tableIdx addr 12))).mapLeaf pt addr flags) := by
  rw [run_bind_of_ok (loadEntry_run pt (tableIdx addr 12) s)]
  cases present (s.mem (pfn pt) (tableIdx addr 12)) <;> rfl

/-! ### What no call changes -/

/-- A quantity that no step of `map_page` changes. -/
structure Steady {γ : Type} (q : Vmm → γ) : Prop where
  read : ∀ s table idx, q (s.record (.read table idx)) = q s
  write : ∀ s table idx entry, q (s.record (.write table idx entry)) = q s
  link : ∀ (s : Vmm) table idx flags, 0 < s.segmentUsable.toNat →
    q (s.linkFresh table idx flags) = q s

namespace Steady

variable {γ : Type} {q : Vmm → γ} (hq : Steady q)

include hq

theorem ensureTable {rec : Addr → BitVec 32 → VmmM Unit} (hrec : ∀ a f, Conserves q (rec a f))
    (table : Addr) (idx : Fin 512) (flags : BitVec 32) :
    Conserves q (ensureTable rec table idx flags) := by
  intro s
  have hread := hq.read s table idx
  rw [ensureTable_run]
  split_ifs with hpres hfree
  · exact (hq.read _ table idx).trans hread
  · exact hread
  · have hlink := hq.link (s.record (.read table idx)) table idx flags (usable_pos hfree)
    have hnested := hrec s.placement flags ((s.record (.read table idx)).linkFresh table idx flags)
    cases hrun : (rec s.placement flags).run
        ((s.record (.read table idx)).linkFresh table idx flags) with
    | ok u s₃ =>
      rw [hrun] at hnested
      exact (hq.read s₃ table idx).trans (hnested.trans (hlink.trans hread))
    | error e s₃ =>
      rw [hrun] at hnested
      exact hnested.trans (hlink.trans hread)

theorem mapPageNested (pml4 : Addr) (fuel : ℕ) (addr : Addr) (flags : BitVec 32) :
    Conserves q (mapPageNested pml4 fuel addr flags) := by
  induction fuel generalizing addr flags with
  | zero => exact fun s => rfl
  | succ fuel ih =>
    have hlevel := hq.ensureTable ih
    rw [KessOS.mapPageNested]
    refine (hlevel _ _ _).bind fun pdpt => (hlevel _ _ _).bind fun pdt =>
      (hlevel _ _ _).bind fun pt s => ?_
    rw [leaf_run]
    split_ifs
    · exact hq.read ..
    · exact (hq.write ..).trans (hq.read ..)

theorem mapPage (pml4 addr : Addr) (flags : BitVec 32) :
    Conserves q (mapPage pml4 addr flags) := by
  have hget : Conserves q (get : VmmM Vmm) := fun s => rfl
  exact hget.bind fun s => hq.mapPageNested pml4 _ addr flags

end Steady

theorem steady_cr3 : Steady Vmm.cr3 where
  read _ _ _ := rfl
  write _ _ _ _ := rfl
  link s table idx flags _ := linkFresh_cr3 s table idx flags

/-! ### The call as a whole -/

/-- **`map_page` is correct**: a call that returns keeps the invariant, adds the path of its page
and the paths of the frames it took, and nothing else. -/
theorem mapPageNested_ok : ∀ (fuel : ℕ) (flags : BitVec 32), FlagsOk flags →
    ∀ (s s' : Vmm) (addr : Addr), Inv seg s → addr.toNat < 2 ^ 48 →
      (mapPageNested pml4 fuel addr flags).run s = .ok () s' →
      Maps seg (flags ||| pageBitPPresentFlag) addr s s' := by
  intro fuel
  induction fuel with
  | zero =>
    intro flags _ s s' addr _ _ h
    cases h
  | succ fuel ih =>
    intro flags hf s s' addr hI ha h
    have hf' := hf.or_present
    have hp := or_present_getLsbD flags
    have hrec : ∀ s s' a, Inv seg s → a.toNat < 2 ^ 48 →
        (mapPageNested pml4 fuel a (flags ||| pageBitPPresentFlag)).run s = .ok () s' →
        Maps seg (flags ||| pageBitPPresentFlag) a s s' := by
      intro s s' a hI ha h
      have := ih _ hf' s s' a hI ha h
      rwa [or_present_idem] at this
    -- Three levels, then the entry of the page table.
    rw [mapPageNested] at h
    obtain ⟨pdpt, s₁, h₁, h⟩ := run_bind_eq_ok.mp h
    obtain ⟨pdt, s₂, h₂, h⟩ := run_bind_eq_ok.mp h
    obtain ⟨pt, s₃, h₃, h⟩ := run_bind_eq_ok.mp h
    have hreached := (((Reached.start hI).level hrec hf' hp (by omega) ha h₁).level hrec hf' hp
      (by omega) ha h₂).level hrec hf' hp (by omega) ha h₃
    rw [leaf_run] at h
    obtain ⟨-, rfl⟩ := (Result.ok.injEq ..).mp h
    exact hreached.leaf hf' hp ha

/-- The nested calls, whose flags already have the present bit. -/
theorem mapPageNested_nested (seg : Segment pml4) (fuel : ℕ) (hf : FlagsOk flags) :
    ∀ s s' a, Inv seg s → a.toNat < 2 ^ 48 →
      (mapPageNested pml4 fuel a (flags ||| pageBitPPresentFlag)).run s = .ok () s' →
      Maps seg (flags ||| pageBitPPresentFlag) a s s' := by
  intro s s' a hI ha h
  have := mapPageNested_ok fuel _ hf.or_present s s' a hI ha h
  rwa [or_present_idem] at this

/-- A call that stops has stopped in one of the three levels. -/
theorem mapPageNested_error_cases {fuel : ℕ} {addr : Addr} {e : Stop} (hf : FlagsOk flags)
    (hI : Inv seg s) (ha : addr.toNat < 2 ^ 48)
    (h : (mapPageNested pml4 (fuel + 1) addr flags).run s = .error e s') :
    ∃ ℓ table s₁, ℓ < 3 ∧ Reached seg (flags ||| pageBitPPresentFlag) addr ℓ table s s₁ ∧
      (ensureTable (mapPageNested pml4 fuel) table (Fin.ofNat 512 (levelIdx (pfn addr) ℓ))
        (flags ||| pageBitPPresentFlag)).run s₁ = .error e s' := by
  have hf' := hf.or_present
  have hp := or_present_getLsbD flags
  have hrec := mapPageNested_nested seg fuel hf
  have r₀ : Reached seg (flags ||| pageBitPPresentFlag) addr 0 pml4 s s := Reached.start hI
  rw [mapPageNested] at h
  rcases run_bind_eq_error.mp h with h | ⟨pdpt, s₁, h₁, h⟩
  · exact ⟨0, pml4, s, by omega, r₀, tableIdx_eq addr (ℓ := 0) (by omega) ▸ h⟩
  have r₁ := r₀.level hrec hf' hp (by omega) ha h₁
  rcases run_bind_eq_error.mp h with h | ⟨pdt, s₂, h₂, h⟩
  · exact ⟨1, pdpt, s₁, by omega, r₁, tableIdx_eq addr (ℓ := 1) (by omega) ▸ h⟩
  have r₂ := r₁.level hrec hf' hp (by omega) ha h₂
  rcases run_bind_eq_error.mp h with h | ⟨pt, s₃, h₃, h⟩
  · exact ⟨2, pdt, s₂, by omega, r₂, tableIdx_eq addr (ℓ := 2) (by omega) ▸ h⟩
  -- The last lines always return.
  rw [leaf_run] at h
  cases h

end KessOS
