import KessOS.Trace.Path
import KessOS.Vmm.Equiv.Tlb
import KessOS.Vmm.Space

/-!
# The tables keep an address space

Whatever the operations, and whenever the TLB takes in a walk, the tables stand for a space that
the operations may lead to, and the TLB holds nothing but pages of it (`system_refines`).  So a
page has the flags of the first call that mapped it since it was last unmapped
(`system_history`), and a page whose region was mapped once can always be mapped again, without a
frame being taken (`remaps_return`).
-/

namespace KessOS

open EStateM Trace

variable {pml4 : Addr} {seg : Segment pml4} {σ σ' : System} {s s' : Vmm} {addr : Addr}
  {flags : BitVec 32} {op : Op} {ops : List Op} {p : Page}

/-! ### Pages -/

theorem pfn_frameAddr_page (p : Page) : pfn (frameAddr p) = p := pfn_frameAddr p.isLt

/-- A page is translated if its leaf entry is present, and the flags are in this entry. -/
theorem map_walkPage {α : Type} (f : Entry → α) (m : PhysMem) (p : Page) :
    (walkPage pml4 m p).map (fun t => f t.pte) = (slotAt m pml4 3 p).map f := by
  cases hwalk : walkPage pml4 m p with
  | none =>
    have hslot := walk_eq_none_iff.mp hwalk
    rw [pfn_frameAddr_page] at hslot
    rw [hslot]
    rfl
  | some t =>
    have hslot := slotAt_of_walk hwalk
    rw [pfn_frameAddr_page] at hslot
    rw [hslot]
    rfl

theorem space_flags (σ : System) (p : Page) :
    (σ.space pml4).flags p = (slotAt σ.vmm.mem pml4 3 p).map flagBits := map_walkPage _ _ p

@[simp] theorem space_next (σ : System) : (σ.space pml4).next = σ.vmm.next := rfl

/-! ### Steps -/

/-- A call of `map_page` that returns maps its page, and the frames that it takes. -/
theorem Maps.leaf (h : Maps seg (flags ||| pageBitPPresentFlag) addr s s') (p : Page) :
    (slotAt s'.mem pml4 3 p).map flagBits = ((slotAt s.mem pml4 3 p).map flagBits).or
      (if Claims addr s.next s'.next p then some (leafFlags flags) else none) := by
  have hkey : (3, p.val) ∈ pathKeys (pfn addr) ∪ selfKeys s.next s'.next ↔
      Claims addr s.next s'.next p := by
    constructor
    · rintro (hpath | hself)
      · exact Or.inl (hpath.2.trans (levelIdx_three _))
      · exact Or.inr (page_mem_selfKeys hself)
    · rintro (hpage | ⟨hlo, hhi⟩)
      · exact Or.inl ⟨le_rfl, hpage.trans (levelIdx_three _).symm⟩
      · exact Or.inr ⟨p, hlo, hhi, le_rfl, (levelIdx_three _).symm⟩
  cases hold : slotAt s.mem pml4 3 p with
  | some e =>
    rw [h.2.keep 3 p e le_rfl p.isLt hold]
    rfl
  | none =>
    rw [Option.map_none, Option.none_or]
    split_ifs with hclaims
    · obtain ⟨e, he⟩ := Option.isSome_iff_exists.mp (h.2.full _ (hkey.mpr hclaims))
      rw [he, Option.map_some, (h.2.gain 3 p e le_rfl p.isLt hold he).2]
      rfl
    · rw [h.2.slotAt_eq le_rfl p.isLt fun hmem => hclaims (hkey.mp hmem), hold]
      rfl

/-- A step of the system is one of its space. -/
theorem System.Step.space (h : System.Step pml4 op σ σ') (hσ : σ.Ok seg) :
    Space.Step op (σ.space pml4) (σ'.space pml4) := by
  cases op with
  | mapPage addr flags =>
    obtain ⟨haddr, hflags⟩ := h.allowed
    have hmaps := mapPage_ok hσ.inv haddr hflags h.runs
    have hspace : σ'.space pml4 =
        (σ.space pml4).map addr flags (σ'.vmm.next - σ.vmm.next) := by
      have hnext : σ.vmm.next + (σ'.vmm.next - σ.vmm.next) = σ'.vmm.next :=
        Nat.add_sub_cancel' hmaps.2.le
      apply Space.ext
      · exact hnext.symm
      · funext p
        show (σ'.space pml4).flags p = ((σ.space pml4).flags p).or _
        rw [space_flags, space_flags, space_next, hnext]
        exact hmaps.leaf p
    rw [hspace]
    exact .map addr flags _
  | unmapPage addr ret =>
    obtain ⟨haddr, haligned, hupper⟩ := h.allowed
    have hruns : (unmapPage pml4 addr).run σ.vmm = .ok ret σ'.vmm := h.runs
    obtain ⟨rfl, -⟩ := (unmapPage_cases hruns).resolve_left fun h => h.2.2 haligned
    have hclears := unmapPage_clears hσ.inv.distinct hupper hruns
    have hspace : σ'.space pml4 = (σ.space pml4).unmap addr := by
      apply Space.ext
      · exact congrArg pfn hclears.placement
      · funext p
        show (σ'.space pml4).flags p = if p.val = pfn addr then none else (σ.space pml4).flags p
        rw [space_flags, space_flags, hclears.slots 3 p le_rfl p.isLt, pageOf_of_lt haddr]
        by_cases hp : p.val = pfn addr
        · rw [if_pos (by rw [hp]), if_pos hp]
          rfl
        · rw [if_neg fun heq => hp (Prod.mk.inj heq).2, if_neg hp]
    rw [hspace]
    exact .unmap addr
  | idle =>
    have hvmm : σ'.vmm = σ.vmm := h.runs
    have hspace : σ'.space pml4 = σ.space pml4 := by
      unfold System.space
      rw [hvmm]
    rw [hspace]
    exact .idle

theorem Fresh.space (hs : Fresh seg s) (T : Set (Page × Translation)) :
    System.space pml4 ⟨s, T⟩ = .empty seg.base := by
  apply Space.ext
  · exact hs.next_eq
  · funext p
    rw [space_flags, slotAt_of_zeroed hs.zeroed]
    rfl

section Run

variable {s₀ : Vmm} (hs₀ : Fresh seg s₀) (h : Path (System.Step pml4) ops ⟨s₀, ∅⟩ σ)

include hs₀ h

theorem Fresh.path_ok : σ.Ok seg := h.invariant (fun _ _ _ hok hstep => hstep.ok hok) hs₀.ok

theorem Fresh.path_space : Path Space.Step ops (.empty seg.base) (σ.space pml4) := by
  rw [← hs₀.space ∅]
  exact h.map (fun _ _ _ hok hstep => System.Step.ok hstep hok)
    (fun _ _ _ hok hstep => System.Step.space hstep hok) hs₀.ok

/-- **The tables keep an address space.**  Whatever the operations and the moments at which the TLB
takes in a walk, the space behind the run is one to which the operations lead, every page of it
goes to itself, and what the TLB holds are pages of it with their flags. -/
theorem system_refines :
    Path Space.Step ops (.empty seg.base) (σ.space pml4) ∧
      (∀ p t, walkPage pml4 σ.vmm.mem p = some t → t.page = frameAddr p) ∧
      ∀ p t, (p, t) ∈ σ.tlb →
        t.page = frameAddr p ∧ (σ.space pml4).flags p = some (flagBits t.pte) := by
  have hσ := hs₀.path_ok h
  have hpage : ∀ p t, walkPage pml4 σ.vmm.mem p = some t → t.page = frameAddr p := by
    intro p t ht
    have hwalk : walk σ.vmm.mem pml4 (frameAddr p) = some t := ht
    obtain ⟨t', ht', hself⟩ := hσ.inv.walk_frame (f := p) p.isLt (by
      rw [← pfn_frameAddr_page p, slotAt_of_walk hwalk]
      rfl)
    rw [hwalk] at ht'
    obtain rfl := Option.some.inj ht'
    exact hself
  refine ⟨hs₀.path_space h, hpage, fun p t hcached => ?_⟩
  have hwalk : walkPage pml4 σ.vmm.mem p = some t := hσ.coherent (p, t) hcached
  refine ⟨hpage p t hwalk, ?_⟩
  show (walkPage pml4 σ.vmm.mem p).map _ = _
  rw [hwalk]
  rfl

end Run

/-- A call that can return is a step. -/
theorem System.exists_mapPage_step {s' : Vmm} (hσ : σ.Ok seg) (haddr : addr.toNat < 2 ^ 48)
    (hflags : FlagsOk flags) (hrun : (mapPage pml4 addr flags).run σ.vmm = .ok () s') :
    ∃ T, System.Step pml4 (.mapPage addr flags) σ ⟨s', T⟩ := by
  obtain ⟨es, htraced⟩ := (mapPage_ok hσ.inv haddr hflags hrun).2.traced
  exact System.Step.of_runs (.mapPage addr flags) ⟨haddr, hflags⟩ hrun htraced.trace

/-- Page 1 is mapped in the small segment, unmapped, and mapped again with other flags. -/
def smallOps : List Op :=
  [.mapPage 0x1000#64 pageBitRwWritableFlag, .unmapPage 0x1000#64 1,
    .mapPage 0x1000#64 pageBitUsUserFlag]

/-- The run, at its second call of `map_page`. -/
theorem smallOps_run : ∃ σ₁ σ₂,
    Path (System.Step 0x200000#64) (smallOps.take 2) ⟨smallState, ∅⟩ σ₁ ∧
      walkPage 0x200000#64 σ₁.vmm.mem 1 = none ∧
      System.Step 0x200000#64 (.mapPage 0x1000#64 pageBitUsUserFlag) σ₁ σ₂ ∧
      Path (System.Step 0x200000#64) smallOps ⟨smallState, ∅⟩ σ₂ := by
  have hstart := fresh_smallState.ok
  obtain ⟨s₁, s₂, hmap, hupper, hunmap, hnext⟩ := small_map_unmap
  obtain ⟨T₁, hstep₁⟩ := System.exists_mapPage_step hstart (by decide) (by decide) hmap
  have hok₁ := hstep₁.ok hstart
  obtain ⟨es, htrace⟩ := unmapPage_trace hunmap
  obtain ⟨T₂, hstep₂⟩ := System.Step.of_runs (σ := ⟨s₁, T₁⟩) (.unmapPage 0x1000#64 1)
    ⟨by decide, by decide, hupper⟩ hunmap htrace
  have hok₂ := hstep₂.ok hok₁
  have haddr : (0x1000#64).toNat < 2 ^ 48 := by decide
  have hflags : FlagsOk pageBitUsUserFlag := by decide
  obtain ⟨s₃, hagain, -⟩ := small_mapPage_returns hok₂.inv (by show s₂.next + 6 ≤ _; omega) haddr
    hflags
  obtain ⟨T₃, hstep₃⟩ := System.exists_mapPage_step hok₂ haddr hflags hagain
  have hpath : Path (System.Step 0x200000#64) (smallOps.take 2) ⟨smallState, ∅⟩ ⟨s₂, T₂⟩ :=
    .snoc (.single hstep₁) hstep₂
  refine ⟨_, _, hpath, ?_, hstep₃, .snoc hpath hstep₃⟩
  exact (unmapPage_clears hok₁.inv.distinct hupper hunmap).walk_none haddr

theorem system_refines_small : ∃ σ, Path (System.Step 0x200000#64) smallOps ⟨smallState, ∅⟩ σ ∧
    Path Space.Step smallOps (.empty 0x400) (σ.space 0x200000#64) := by
  obtain ⟨σ₁, σ, -, -, -, hrun⟩ := smallOps_run
  exact ⟨σ, hrun, (system_refines fresh_smallState hrun).1⟩

/-! ### The history of a page -/

namespace Space

variable {A B : Space} {v : BitVec 64}

/-- A page that gets its flags is mapped by the step, and had none. -/
theorem Step.gain (h : Step op A B) (hA : A.flags p ≠ some v) (hB : B.flags p = some v) :
    ∃ addr flags, op = .mapPage addr flags ∧ A.flags p = none ∧ Claims addr A.next B.next p ∧
      leafFlags flags = v := by
  cases h with
  | map addr flags taken =>
    rcases Option.or_eq_some_iff.mp hB with hsome | ⟨hnone, hnew⟩
    · exact absurd hsome hA
    · obtain ⟨hclaims, hv⟩ := Option.ite_none_right_eq_some.mp hnew
      exact ⟨addr, flags, rfl, hnone, hclaims, Option.some.inj hv⟩
  | unmap addr =>
    have hB : (if p.val = pfn addr then none else A.flags p) = some v := hB
    split_ifs at hB
    exact absurd hB hA
  | idle => exact absurd hB hA

/-- A page that a step maps has the flags of the step if it had none. -/
theorem Step.flags_of_claims (h : Step (.mapPage addr flags) A B) (hA : A.flags p = none)
    (hclaims : Claims addr A.next B.next p) : B.flags p = some (leafFlags flags) := by
  cases h with
  | map _ _ taken =>
    show (A.flags p).or _ = _
    rw [hA, Option.none_or]
    exact if_pos hclaims

/-- A page keeps its flags unless it is unmapped. -/
theorem Step.keep (h : Step op A B) (hA : A.flags p = some v) :
    B.flags p = some v ↔ ∀ addr r, op = .unmapPage addr r → pfn addr ≠ p := by
  cases h with
  | map addr flags taken =>
    refine iff_of_true ?_ fun addr r heq => by cases heq
    show (A.flags p).or _ = _
    rw [hA, Option.some_or]
  | unmap addr =>
    show (if p.val = pfn addr then none else A.flags p) = some v ↔ _
    by_cases hp : p.val = pfn addr
    · rw [if_pos hp]
      exact iff_of_false (by simp) fun h => h addr 1 rfl hp.symm
    · rw [if_neg hp]
      refine iff_of_true hA fun addr' r heq => ?_
      obtain ⟨rfl, -⟩ := (Op.unmapPage.injEq ..).mp heq
      exact fun heq => hp heq.symm
  | idle => exact iff_of_true hA fun addr r heq => by cases heq

/-- Behind a call that unmaps it a page has no flags. -/
theorem Step.ne_of_flags {r : BitVec 8} (h : Step (.unmapPage addr r) A B)
    (hB : B.flags p = some v) : pfn addr ≠ p := by
  cases h with
  | unmap =>
    rintro heq
    have hB : (if p.val = pfn addr then none else A.flags p) = some v := hB
    rw [if_pos heq.symm] at hB
    cases hB

theorem keep_run (h : Path Step ops A B) (hA : A.flags p = some v)
    (hops : ∀ addr r, .unmapPage addr r ∈ ops → pfn addr ≠ p) : B.flags p = some v := by
  induction h with
  | nil => exact hA
  | snoc _ hstep ih =>
    have hbefore := ih hA fun addr r hmem => hops addr r (List.mem_append_left _ hmem)
    refine (hstep.keep hbefore).mpr fun addr r heq => hops addr r ?_
    rw [heq]
    simp

end Space

/-- **Where the flags of a page come from.**  After any run a page has the flags of a call of
`map_page` that found it without any, on the page or taking it as a frame, and behind which it was
not unmapped. -/
theorem system_history {s₀ : Vmm} (hs₀ : Fresh seg s₀)
    (h : Path (System.Step pml4) ops ⟨s₀, ∅⟩ σ) (p : Page) (v : BitVec 64) :
    (walkPage pml4 σ.vmm.mem p).map (fun t => flagBits t.pte) = some v ↔
      ∃ pre addr flags post σ₁ σ₂, ops = pre ++ .mapPage addr flags :: post ∧
        Path (System.Step pml4) pre ⟨s₀, ∅⟩ σ₁ ∧
        System.Step pml4 (.mapPage addr flags) σ₁ σ₂ ∧ Path (System.Step pml4) post σ₂ σ ∧
        walkPage pml4 σ₁.vmm.mem p = none ∧ Claims addr σ₁.vmm.next σ₂.vmm.next p ∧
        leafFlags flags = v ∧ ∀ addr' r, .unmapPage addr' r ∈ post → pfn addr' ≠ p := by
  have hnone_iff : ∀ σ : System, (σ.space pml4).flags p = none ↔
      walkPage pml4 σ.vmm.mem p = none := fun σ => Option.map_eq_none_iff
  constructor
  · intro hv
    have hstart : ¬ (System.space pml4 ⟨s₀, ∅⟩).flags p = some v := by
      rw [hs₀.space]
      simp [Space.empty]
    obtain ⟨pre, op, post, σ₁, σ₂, rfl, hpre, hσ₁, hstep, hσ₂, hpost⟩ :=
      h.since (P := fun σ => (σ.space pml4).flags p = some v) hstart hv
    have hok₁ := hs₀.path_ok hpre
    obtain ⟨addr, flags, rfl, hnone, hclaims, hflags⟩ := (hstep.space hok₁).gain hσ₁ hσ₂
    refine ⟨pre, addr, flags, post, σ₁, σ₂, rfl, hpre, hstep, hpost.mono fun _ _ _ h => h.1,
      (hnone_iff σ₁).mp hnone, hclaims, hflags, fun addr' r hmem heq => ?_⟩
    have hflagged : Path (fun op A B => Space.Step op A B ∧ B.flags p = some (leafFlags flags))
        post (σ₂.space pml4) (σ.space pml4) :=
      hpost.map (I := System.Ok seg) (fun _ _ _ hok h => h.1.ok hok)
        (fun _ _ _ hok h => ⟨h.1.space hok, hflags ▸ h.2⟩) (hstep.ok hok₁)
    have hops := hflagged.forall_mem (P := fun op => ∀ addr r, op = .unmapPage addr r →
      pfn addr ≠ p) (fun _ _ _ h _ _ hop => (hop ▸ h.1 : Space.Step _ _ _).ne_of_flags h.2)
    exact hops _ hmem addr' r rfl heq
  · rintro ⟨pre, addr, flags, post, σ₁, σ₂, rfl, hpre, hstep, hpost, hnone, hclaims, rfl, hops⟩
    have hok₁ := hs₀.path_ok hpre
    have hok₂ := hstep.ok hok₁
    have hnew := (hstep.space hok₁).flags_of_claims ((hnone_iff σ₁).mpr hnone) hclaims
    exact Space.keep_run (hpost.map (fun _ _ _ hok hstep => System.Step.ok hstep hok)
      (fun _ _ _ hok hstep => System.Step.space hstep hok) hok₂) hnew hops

/-- Page 1 has the flags of the second call. -/
theorem system_history_small : ∃ σ,
    Path (System.Step 0x200000#64) smallOps ⟨smallState, ∅⟩ σ ∧
      (walkPage 0x200000#64 σ.vmm.mem 1).map (fun t => flagBits t.pte) = some 5#64 := by
  obtain ⟨σ₁, σ, hpre, hnone, hstep, hrun⟩ := smallOps_run
  exact ⟨σ, hrun, (system_history fresh_smallState hrun 1 5#64).mpr
    ⟨_, 0x1000#64, pageBitUsUserFlag, [], σ₁, σ, rfl, hpre, hstep, .nil _, hnone,
      Or.inl rfl, by decide, fun _ _ hmem => absurd hmem List.not_mem_nil⟩⟩

/-! ### Mapping a page again -/

/-- The tables of the page of `addr` are there. -/
def HasTables (pml4 : Addr) (m : PhysMem) (addr : Addr) : Prop :=
  ∀ ℓ < 3, (slotAt m pml4 ℓ (levelIdx (pfn addr) ℓ)).isSome

/-- Pages of the same 2 MiB have the same tables. -/
theorem HasTables.of_region {m : PhysMem} {addr' : Addr} (h : HasTables pml4 m addr)
    (hregion : addr.toNat / 2 ^ 21 = addr'.toNat / 2 ^ 21) : HasTables pml4 m addr' := by
  have hpages : ∀ a : Addr, levelIdx (pfn a) 2 = a.toNat / 2 ^ 21 := by
    intro a
    show a.toNat / 4096 / 512 = _
    omega
  have htables : ∀ ℓ < 3, levelIdx (pfn addr') ℓ = levelIdx (pfn addr) ℓ := by
    have htwo : levelIdx (pfn addr') 2 = levelIdx (pfn addr) 2 := by
      rw [hpages, hpages, hregion]
    intro ℓ hℓ
    interval_cases ℓ
    · rw [← levelIdx_div _ (by decide : 0 < 3), ← levelIdx_div _ (by decide : 0 < 3),
        ← levelIdx_div _ (by decide : 0 + 1 < 3), ← levelIdx_div _ (by decide : 0 + 1 < 3), htwo]
    · rw [← levelIdx_div _ (by decide : 1 < 3), ← levelIdx_div _ (by decide : 1 < 3), htwo]
    · exact htwo
  intro ℓ hℓ
  rw [htables ℓ hℓ]
  exact h ℓ hℓ

/-- Where the tables are there, a call takes no frame, and so it returns. -/
theorem HasTables.mapPage_returns (h : HasTables pml4 s.mem addr) (hI : Inv seg s)
    (ha : addr.toNat < 2 ^ 48) (hf : FlagsOk flags) :
    ∃ s', (mapPage pml4 addr flags).run s = .ok () s' ∧ s'.next = s.next := by
  have hmissing : missing pml4 s (pfn addr) 0 = 0 := by
    refine Finset.card_eq_zero.mpr (Finset.filter_eq_empty_iff.mpr fun {κ} hκ hnone => ?_)
    obtain ⟨hℓ, hpath | hself⟩ := mem_neededTables.mp hκ
    · have hsome := h κ.1 hℓ
      rw [← hpath.2, hnone] at hsome
      cases hsome
    · rw [Nat.add_zero, selfKeys_self] at hself
      exact hself
  obtain ⟨s', hrun, hnext⟩ := KessOS.mapPage_returns hI ha hf hmissing.le hI.next_le
  exact ⟨s', hrun, le_antisymm hnext (mapPage_ok hI ha hf hrun).2.le⟩

/-- No operation takes a table away. -/
theorem System.Step.tables (h : System.Step pml4 op σ σ') (hσ : σ.Ok seg) {ℓ q : ℕ} (hℓ : ℓ < 3)
    (hq : q < 512 ^ (ℓ + 1)) (hsome : (slotAt σ.vmm.mem pml4 ℓ q).isSome) :
    (slotAt σ'.vmm.mem pml4 ℓ q).isSome := by
  cases op with
  | mapPage addr flags =>
    obtain ⟨e, he⟩ := Option.isSome_iff_exists.mp hsome
    have hmaps := mapPage_ok hσ.inv h.allowed.1 h.allowed.2 h.runs
    rw [hmaps.2.keep ℓ q e hℓ.le hq he]
    rfl
  | unmapPage addr ret =>
    obtain ⟨-, haligned, hupper⟩ := h.allowed
    have hruns : (unmapPage pml4 addr).run σ.vmm = .ok ret σ'.vmm := h.runs
    obtain ⟨rfl, -⟩ := (unmapPage_cases hruns).resolve_left fun h => h.2.2 haligned
    rw [(unmapPage_clears hσ.inv.distinct hupper hruns).slots ℓ q hℓ.le hq, if_neg]
    · exact hsome
    · exact fun heq => hℓ.ne (Prod.mk.inj heq).1
  | idle =>
    have hvmm : σ'.vmm = σ.vmm := h.runs
    rwa [hvmm]

/-- A page that was mapped once has its tables for good. -/
theorem Fresh.hasTables {s₀ : Vmm} (hs₀ : Fresh seg s₀)
    (h : Path (System.Step pml4) ops ⟨s₀, ∅⟩ σ) (hmem : .mapPage addr flags ∈ ops) :
    HasTables pml4 σ.vmm.mem addr := by
  obtain ⟨pre, post, rfl⟩ := List.append_of_mem hmem
  obtain ⟨σ₁, σ₂, hpre, hstep, hpost⟩ := path_append_cons_iff.mp h
  have hok₁ := hs₀.path_ok hpre
  have hmaps := mapPage_ok hok₁.inv hstep.allowed.1 hstep.allowed.2 hstep.runs
  have hq : ∀ ℓ < 3, levelIdx (pfn addr) ℓ < 512 ^ (ℓ + 1) :=
    fun ℓ hℓ => levelIdx_lt (pfn_lt addr hstep.allowed.1) hℓ.le
  refine (hpost.invariant (I := fun σ => σ.Ok seg ∧ HasTables pml4 σ.vmm.mem addr)
    (fun _ _ _ hI hstep => ⟨hstep.ok hI.1, fun ℓ hℓ => ?_⟩)
    ⟨hstep.ok hok₁, fun ℓ hℓ => hmaps.2.full (ℓ, _) (Or.inl ⟨hℓ.le, rfl⟩)⟩).2
  exact hstep.tables hI.1 hℓ (hq ℓ hℓ) (hI.2 ℓ hℓ)

/-- **Mapping again costs nothing.**  Behind any run, pages of regions of 2 MiB in which some page
was mapped before can be mapped, whether or not they were unmapped since and with no frame left:
every call returns, and none takes a frame. -/
theorem remaps_return {s₀ : Vmm} (hs₀ : Fresh seg s₀)
    (h : Path (System.Step pml4) ops ⟨s₀, ∅⟩ σ) {calls : List (Addr × BitVec 32)}
    (hcalls : CallsOk calls)
    (hregion : ∀ call ∈ calls, ∃ addr flags, .mapPage addr flags ∈ ops ∧
      addr.toNat / 2 ^ 21 = call.1.toNat / 2 ^ 21) :
    ∃ s', (mapPages pml4 calls).run σ.vmm = .ok () s' ∧ s'.placement = σ.vmm.placement ∧
      s'.segmentUsable = σ.vmm.segmentUsable := by
  have htables : ∀ call ∈ calls, HasTables pml4 σ.vmm.mem call.1 := by
    intro call hcall
    obtain ⟨addr, flags, hmem, hregion⟩ := hregion call hcall
    exact (hs₀.hasTables h hmem).of_region hregion
  have hI := (hs₀.path_ok h).inv
  suffices hnext : ∃ s', (mapPages pml4 calls).run σ.vmm = .ok () s' ∧ Inv seg s' ∧
      s'.next = σ.vmm.next by
    obtain ⟨s', hrun, hI', hnext⟩ := hnext
    have hcount := hI.count
    have hcount' := hI'.count
    refine ⟨s', hrun, BitVec.eq_of_toNat_eq ?_, BitVec.eq_of_toNat_eq (by omega)⟩
    rw [hI'.aligned, hI.aligned, hnext]
  clear hs₀ h hregion
  generalize σ.vmm = s at htables hI ⊢
  induction calls generalizing s with
  | nil => exact ⟨s, rfl, hI, rfl⟩
  | cons call calls ih =>
    obtain ⟨⟨ha, hf⟩, hrest⟩ := List.forall_mem_cons.mp hcalls
    obtain ⟨htable, htables⟩ := List.forall_mem_cons.mp htables
    obtain ⟨s₁, hrun, hnext⟩ := htable.mapPage_returns hI ha hf
    have hmaps := mapPage_ok hI ha hf hrun
    have hkept : ∀ c ∈ calls, HasTables pml4 s₁.mem c.1 := by
      intro c hc ℓ hℓ
      obtain ⟨e, he⟩ := Option.isSome_iff_exists.mp (htables c hc ℓ hℓ)
      rw [hmaps.2.keep ℓ _ e hℓ.le (levelIdx_lt (pfn_lt c.1 (hrest c hc).1) hℓ.le) he]
      rfl
    obtain ⟨s', hrun', hI', hnext'⟩ := ih hrest s₁ hkept hmaps.1
    refine ⟨s', ?_, hI', hnext'.trans hnext⟩
    rw [mapPages_cons, run_bind_of_ok hrun]
    exact hrun'

/-- Pages 1 and 2, after page 1 was unmapped. -/
theorem remaps_return_small : ∃ σ s',
    Path (System.Step 0x200000#64) (smallOps.take 2) ⟨smallState, ∅⟩ σ ∧
      (mapPages 0x200000#64 [(0x1000#64, pageBitUsUserFlag), (0x2000#64, 0#32)]).run σ.vmm =
        .ok () s' ∧
      s'.segmentUsable = σ.vmm.segmentUsable := by
  obtain ⟨σ, -, hrun, -⟩ := smallOps_run
  have hcalls : CallsOk [(0x1000#64, pageBitUsUserFlag), (0x2000#64, 0#32)] :=
    List.forall_mem_cons.mpr ⟨by decide, List.forall_mem_singleton.mpr (by decide)⟩
  have hfirst : .mapPage 0x1000#64 pageBitRwWritableFlag ∈ smallOps.take 2 := List.mem_cons_self
  obtain ⟨s', hreturns, -, husable⟩ := remaps_return fresh_smallState hrun hcalls
    (List.forall_mem_cons.mpr ⟨⟨_, _, hfirst, by decide⟩,
      List.forall_mem_singleton.mpr ⟨_, _, hfirst, by decide⟩⟩)
  exact ⟨σ, s', hrun, hreturns, husable⟩

end KessOS
