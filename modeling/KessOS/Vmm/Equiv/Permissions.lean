import KessOS.Vmm.Equiv.Tree

/-!
# Permissions

An entry keeps the flags of the call that made it.  So a page gets the rights it is mapped with
only if the tables above it that are there already have them (`mapPage_grants_iff`), and a page
table is open to user mode only if the call that mapped it asked for that (`mapPages_exposes`).
-/

namespace KessOS

open EStateM

variable {pml4 : Addr} {seg : Segment pml4} {flags : BitVec 32} {s s' : Vmm} {addr : Addr}
  {calls : List (Addr × BitVec 32)}

/-- The flags are drawn from `RW` and `US`. -/
def RwUs (flags : BitVec 32) : Prop := flags &&& ~~~0x6#32 = 0

instance (flags : BitVec 32) : Decidable (RwUs flags) := inferInstanceAs (Decidable (_ = _))

theorem RwUs.flagsOk (h : RwUs flags) : FlagsOk flags := by
  have hmask : ~~~pageFlags = ~~~0x6#32 &&& ~~~pageFlags := by decide
  unfold RwUs at h
  rw [FlagsOk, hmask, ← BitVec.and_assoc, h]
  exact BitVec.zero_and

theorem callsOk_of_rwUs {calls : List (Addr × BitVec 32)}
    (h : ∀ call ∈ calls, call.1.toNat < 2 ^ 48 ∧ RwUs call.2) : CallsOk calls :=
  fun call hcall => ⟨(h call hcall).1, (h call hcall).2.flagsOk⟩

/-- `flags & PAGE_BIT_RW_WRITABLE`, as a condition. -/
def asksWrite (flags : BitVec 32) : Bool := flags &&& pageBitRwWritableFlag != 0

/-- `flags & PAGE_BIT_US_USER`, as a condition. -/
def asksUser (flags : BitVec 32) : Bool := flags &&& pageBitUsUserFlag != 0

theorem asksWrite_eq (flags : BitVec 32) : asksWrite flags = flags.getLsbD 1 :=
  and_one_shiftLeft_ne_zero flags (by decide)

theorem asksUser_eq (flags : BitVec 32) : asksUser flags = flags.getLsbD 2 :=
  and_one_shiftLeft_ne_zero flags (by decide)

/-- `P` is none of the other flags. -/
theorem getLsbD_or_present (flags : BitVec 32) {i : ℕ} (hi : i ≠ 0) :
    (flags ||| pageBitPPresentFlag).getLsbD i = flags.getLsbD i := by
  have hone : pageBitPPresentFlag.getLsbD i = false := by
    rw [pageBitPPresentFlag, BitVec.shiftLeft_zero]
    simp [hi]
  rw [BitVec.getLsbD_or, hone, Bool.or_false]

/-! ### What a page is granted -/

/-- The entries of the new walk: an old one is kept, a new one has the flags of the call. -/
theorem Maps.entryAt (h : Maps seg (flags ||| pageBitPPresentFlag) addr s s')
    (haddr : addr.toNat < 2 ^ 48) {t : Translation} (ht : walk s'.mem pml4 addr = some t) {ℓ : ℕ}
    (hℓ : ℓ ≤ 3) {i : ℕ} (hi : i ≠ 0) (hi' : i < 12) :
    (∀ e, slotAt s.mem pml4 ℓ (levelIdx (pfn addr) ℓ) = some e → t.entryAt ℓ = e) ∧
      (slotAt s.mem pml4 ℓ (levelIdx (pfn addr) ℓ) = none →
        (t.entryAt ℓ).getLsbD i = flags.getLsbD i) := by
  have hq := levelIdx_lt (pfn_lt addr haddr) hℓ
  have hnew := walk_eq_some_iff.mp ht ℓ hℓ
  constructor
  · intro e he
    have hkept := h.2.keep ℓ _ e hℓ hq he
    rw [hnew] at hkept
    exact Option.some.inj hkept
  · intro hnone
    rw [getLsbD_of_flagBits (h.2.gain ℓ _ _ hℓ hq hnone hnew).2 hi', getLsbD_or_present flags hi]

/-- One right of a page that was not present: it is granted as asked for, unless it is asked for
and an upper entry that was there lacks it. -/
theorem Maps.grants_iff (h : Maps seg (flags ||| pageBitPPresentFlag) addr s s')
    (haddr : addr.toNat < 2 ^ 48) (hnone : walk s.mem pml4 addr = none) {t : Translation}
    (ht : walk s'.mem pml4 addr = some t) {i : ℕ} (hi : i ≠ 0) (hi' : i < 12) :
    t.entries.all (fun e => e.getLsbD i) = flags.getLsbD i ↔
      ∀ ℓ < 3, ∀ e, slotAt s.mem pml4 ℓ (levelIdx (pfn addr) ℓ) = some e →
        flags.getLsbD i = true → e.getLsbD i = true := by
  have hleaf : (t.entryAt 3).getLsbD i = flags.getLsbD i := by
    refine (h.entryAt haddr ht le_rfl hi hi').2 ?_
    rw [levelIdx_three]
    exact walk_eq_none_iff.mp hnone
  rw [Bool.eq_iff_iff, Translation.all_entries]
  constructor
  · intro hall ℓ hℓ e he hflag
    rw [← (h.entryAt haddr ht hℓ.le hi hi').1 e he]
    exact hall.mpr hflag ℓ hℓ.le
  -- The leaf is always new, so only an old upper entry can lack what was asked for.
  · intro hupper
    refine ⟨fun hall => hleaf ▸ hall 3 le_rfl, fun hflag ℓ hℓ => ?_⟩
    obtain ⟨hold, hnew⟩ := h.entryAt haddr ht hℓ hi hi'
    cases hs : slotAt s.mem pml4 ℓ (levelIdx (pfn addr) ℓ) with
    | none => exact (hnew hs).trans hflag
    | some e =>
      rcases Nat.lt_or_ge ℓ 3 with hlt | hge
      · rw [hold e hs]
        exact hupper ℓ hlt e hs hflag
      · obtain rfl : ℓ = 3 := by omega
        exact hleaf.trans hflag

/-- **The rights that `map_page` grants.**  After any run of calls, a page that was not present is
mapped with exactly the rights asked for if and only if the PML4, PDPT and PD entries of its walk
that are present before the call have these rights. -/
theorem mapPage_grants_iff {s₀ : Vmm} (hs₀ : Fresh seg s₀)
    (hcalls : ∀ call ∈ calls, call.1.toNat < 2 ^ 48 ∧ RwUs call.2)
    (hreach : (mapPages pml4 calls).run s₀ = .ok () s) (haddr : addr.toNat < 2 ^ 48)
    (hflags : RwUs flags) (hnone : walk s.mem pml4 addr = none)
    (hrun : (mapPage pml4 addr flags).run s = .ok () s') :
    ∃ t, walk s'.mem pml4 addr = some t ∧
      ((t.canWrite = asksWrite flags ∧ t.userMode = asksUser flags) ↔
        ∀ ℓ < 3, ∀ e, slotAt s.mem pml4 ℓ (levelIdx (pfn addr) ℓ) = some e →
          (asksWrite flags = true → writable e = true) ∧
            (asksUser flags = true → user e = true)) := by
  have hok := callsOk_of_rwUs hcalls
  obtain ⟨hsettled, -⟩ := mapPages_allocs hok hs₀.settled hreach
  have hmaps := mapPage_ok hsettled.toInv haddr hflags.flagsOk hrun
  obtain ⟨t, ht, -⟩ := hmaps.walk_addr haddr
  refine ⟨t, ht, ?_⟩
  have hwrite := hmaps.grants_iff haddr hnone ht (i := 1) (by decide) (by decide)
  have huser := hmaps.grants_iff haddr hnone ht (i := 2) (by decide) (by decide)
  rw [asksWrite_eq, asksUser_eq, Translation.canWrite, Translation.userMode,
    funext writable_eq, funext user_eq, hwrite, huser]
  exact ⟨fun h ℓ hℓ e he => ⟨h.1 ℓ hℓ e he, h.2 ℓ hℓ e he⟩,
    fun h => ⟨fun ℓ hℓ e he => (h ℓ hℓ e he).1, fun ℓ hℓ e he => (h ℓ hℓ e he).2⟩⟩

theorem readOnlyCall_spec : ∀ call ∈ [(0x0#64, 0#32)], call.1.toNat < 2 ^ 48 ∧ RwUs call.2 :=
  List.forall_mem_singleton.mpr (by decide)

theorem callsOk_readOnlyCall : CallsOk [(0x0#64, 0#32)] := callsOk_of_rwUs readOnlyCall_spec

/-- A read-only page at 0, and then a writable one next to it. -/
theorem smallState_returns :
    ∃ s s', (mapPages 0x200000#64 [(0x0#64, 0#32)]).run smallState = .ok () s ∧
      walk s.mem 0x200000#64 0x1000#64 = none ∧
      (mapPage 0x200000#64 0x1000#64 pageBitRwWritableFlag).run s = .ok () s' := by
  have hfresh := fresh_smallState
  have hcalls : CallsOk [(0x0#64, 0#32), (0x1000#64, pageBitRwWritableFlag)] :=
    List.forall_iff_forall_mem.mp (by decide)
  have hbelow : ∀ call ∈ [(0x0#64, 0#32), (0x1000#64, pageBitRwWritableFlag)],
      pfn call.1 < 1040 := List.forall_iff_forall_mem.mp (by decide)
  obtain ⟨s', h⟩ := mapPages_returns hcalls hbelow
    hfresh.settled (by decide) (hfresh.within _) (by rw [card_tablesBelow]; decide)
  rw [mapPages_cons] at h
  obtain ⟨u, s, h₁, h₂⟩ := run_bind_eq_ok.mp h
  obtain ⟨u', s'', h₂, -⟩ := run_bind_eq_ok.mp h₂
  have hfirst : (mapPages 0x200000#64 [(0x0#64, 0#32)]).run smallState = .ok () s := by
    rw [mapPages_cons, run_bind_of_ok h₁]
    rfl
  refine ⟨s, s'', hfirst, ?_, h₂⟩
  have hpage : ∀ call ∈ [(0x0#64, 0#32)], pfn call.1 < 1 :=
    List.forall_mem_singleton.mpr (by decide)
  have hW := within_mapPages callsOk_readOnlyCall hpage hfresh.settled subset_rfl
    (hfresh.within _) hfirst
  rw [walk_eq_none_iff, ← Option.not_isSome_iff_eq_none]
  intro hpres
  rcases hW 3 (pfn 0x1000#64) le_rfl (by decide) hpres with hmem | hmem
  · have := (page_mem_selfKeys hmem).2
    exact absurd this (by decide)
  · have := (page_mem_selfKeys hmem).1
    exact absurd this (by decide)

theorem mapPage_grants_small :
    ∃ s s' t, (mapPages 0x200000#64 [(0x0#64, 0#32)]).run smallState = .ok () s ∧
      (mapPage 0x200000#64 0x1000#64 pageBitRwWritableFlag).run s = .ok () s' ∧
      walk s'.mem 0x200000#64 0x1000#64 = some t ∧
      ((t.canWrite = asksWrite pageBitRwWritableFlag ∧
        t.userMode = asksUser pageBitRwWritableFlag) ↔
        ∀ ℓ < 3, ∀ e, slotAt s.mem 0x200000#64 ℓ (levelIdx (pfn 0x1000#64) ℓ) = some e →
          (asksWrite pageBitRwWritableFlag = true → writable e = true) ∧
            (asksUser pageBitRwWritableFlag = true → user e = true)) := by
  obtain ⟨s, s', hs, hnone, hs'⟩ := smallState_returns
  obtain ⟨t, ht, hiff⟩ := mapPage_grants_iff fresh_smallState readOnlyCall_spec hs (by decide)
    (by decide) hnone hs'
  exact ⟨s, s', t, hs, hs', ht, hiff⟩

/-- The second page cannot be written, although it was mapped to be. -/
theorem mapPage_denies_small :
    ∃ s s' t, (mapPages 0x200000#64 [(0x0#64, 0#32)]).run smallState = .ok () s ∧
      walk s.mem 0x200000#64 0x1000#64 = none ∧
      (mapPage 0x200000#64 0x1000#64 pageBitRwWritableFlag).run s = .ok () s' ∧
      walk s'.mem 0x200000#64 0x1000#64 = some t ∧ t.canWrite = false ∧
      asksWrite pageBitRwWritableFlag = true := by
  have hfresh := fresh_smallState
  obtain ⟨s, s', hs, hnone, hs'⟩ := smallState_returns
  obtain ⟨hsettled, -⟩ := mapPages_allocs callsOk_readOnlyCall hfresh.settled hs
  have hmaps := mapPage_ok hsettled.toInv (by decide) (by decide) hs'
  obtain ⟨t, ht, -⟩ := hmaps.walk_addr (by decide)
  refine ⟨s, s', t, hs, hnone, hs', ht, ?_, by decide⟩
  -- The PML4 entry was made by the first call, without `RW`.
  have hpage := mapPages_present callsOk_readOnlyCall hfresh.settled hs _
    (List.mem_singleton_self _)
  obtain ⟨e, he⟩ := Option.isSome_iff_exists.mp (slotAt_isSome_of_leaf hpage (Nat.zero_le 3))
  have hzero : ∀ call ∈ [(0x0#64, 0#32)], call.2 = 0#32 := List.forall_mem_singleton.mpr rfl
  have hflags := flagged_mapPages callsOk_readOnlyCall hzero hfresh.settled (hfresh.flagged _) hs
    0 _ e (by omega) (by decide) he
  have hold : t.entryAt 0 = e :=
    (hmaps.entryAt (by decide) ht (Nat.zero_le 3) (i := 1) (by decide) (by decide)).1 e he
  rw [← Bool.not_eq_true, Translation.canWrite, Translation.all_entries]
  intro hall
  have hwrite := hall 0 (by omega)
  rw [hold, writable_eq, getLsbD_of_flagBits hflags (by omega)] at hwrite
  exact absurd hwrite (by decide)

/-! ### Page tables and user mode -/

/-- Where the leaf entry of a page comes from: it was there, or one of the calls made it. -/
theorem leaf_made_by_call (hcalls : CallsOk calls) (h : Settled seg s)
    (hrun : (mapPages pml4 calls).run s = .ok () s') {p : ℕ} (hp : p < 512 ^ 4) {e : Entry}
    (he : slotAt s'.mem pml4 3 p = some e) :
    slotAt s.mem pml4 3 p = some e ∨
      ∃ pre call post t t', calls = pre ++ call :: post ∧
        (mapPages pml4 pre).run s = .ok () t ∧ (mapPage pml4 call.1 call.2).run t = .ok () t' ∧
        Settled seg t ∧ (pfn call.1 = p ∨ t.next ≤ p ∧ p < t'.next) ∧
        flagBits e = (call.2 ||| pageBitPPresentFlag).setWidth 64 := by
  -- An entry that is there after the first call was kept or made by it.
  induction calls generalizing s with
  | nil =>
    obtain ⟨-, rfl⟩ := (Result.ok.injEq ..).mp hrun
    exact Or.inl he
  | cons call calls ih =>
    rw [mapPages_cons] at hrun
    obtain ⟨u, s₁, h₁, hrest⟩ := run_bind_eq_ok.mp hrun
    obtain ⟨haddr, hflags⟩ := hcalls call (List.mem_cons_self ..)
    rcases ih (fun c hc => hcalls c (List.mem_cons_of_mem _ hc)) (h.step haddr hflags h₁) hrest with
      he₁ | ⟨pre, c, post, t, t', hsplit, hpre, hc, ht, hpage, hbits⟩
    · cases hs : slotAt s.mem pml4 3 p with
      | some e' =>
        have hmaps := mapPage_ok h.toInv haddr hflags h₁
        exact Or.inl ((hmaps.2.keep 3 p e' le_rfl hp hs).symm.trans he₁)
      | none =>
        have hmaps := mapPage_ok h.toInv haddr hflags h₁
        obtain ⟨hΔ, hbits⟩ := hmaps.2.gain 3 p e le_rfl hp hs he₁
        refine Or.inr ⟨[], call, calls, s, s₁, rfl, rfl, h₁, h, ?_, hbits⟩
        rcases hΔ with hpath | hself
        · exact Or.inl (hpath.2.trans (levelIdx_three _)).symm
        · exact Or.inr (page_mem_selfKeys hself)
    · refine Or.inr ⟨call :: pre, c, post, t, t', by rw [hsplit]; rfl, ?_, hc, ht, hpage, hbits⟩
      rw [mapPages_cons, run_bind_of_ok h₁]
      exact hpre

/-- **How a page table comes to be open to user mode.**  In any run whose calls are not on page
tables, a frame that `map_page` has taken is reached by a walk with `US` in all four entries only
if the call that mapped the frame asked for `US`.  That is the call that took the frame, or an
earlier one on its page, while the frame was still free. -/
theorem mapPages_exposes {s₀ : Vmm} (hs₀ : Fresh seg s₀)
    (hcalls : ∀ call ∈ calls, call.1.toNat < 2 ^ 48 ∧ RwUs call.2)
    (hexplicit : ∀ pre call post t, calls = pre ++ call :: post →
      (mapPages pml4 pre).run s₀ = .ok () t → ∀ ℓ, ¬ TableAt t.mem pml4 ℓ (pfn call.1))
    (hrun : (mapPages pml4 calls).run s₀ = .ok () s) {ℓ f : ℕ}
    (htable : TableAt s.mem pml4 (ℓ + 1) f) {a : Addr} (ha : a.toNat < 2 ^ 48) {w : Translation}
    (hwalk : walk s.mem pml4 a = some w) (hpage : pfn w.page = f) (huser : w.userMode = true) :
    ∃ pre call post t t', calls = pre ++ call :: post ∧
      (mapPages pml4 pre).run s₀ = .ok () t ∧ (mapPage pml4 call.1 call.2).run t = .ok () t' ∧
      t.next ≤ f ∧ (f < t'.next ∨ pfn call.1 = f) ∧ asksUser call.2 = true := by
  have hok := callsOk_of_rwUs hcalls
  obtain ⟨hsettled, -⟩ := mapPages_allocs hok hs₀.settled hrun
  have hI := hsettled.toInv
  -- A page is only mapped to itself, so the walk ends in the leaf entry of the frame.
  have hleaf := slotAt_of_walk hwalk
  have hself : pfn a = f := (hI.identity _ (pfn_lt a ha) _ hleaf).symm.trans hpage
  have hfit : f < 512 ^ 4 := hself ▸ pfn_lt a ha
  rw [hself] at hleaf
  have hus : w.pte.getLsbD 2 = true := by
    rw [← user_eq]
    exact Translation.all_entries.mp huser 3 le_rfl
  obtain ⟨q, hq, hnode⟩ := (tableAt_iff htable.le).mp htable
  have hlow := (hI.inside ℓ (by have := htable.le; omega) q hq f hnode).1
  rcases leaf_made_by_call hok hs₀.settled hrun hfit hleaf with
    hold | ⟨pre, call, post, t, t', hsplit, hpre, hcall, ht, hwhere, hbits⟩
  · rw [slotAt_of_zeroed hs₀.zeroed] at hold
    cases hold
  · have hask : asksUser call.2 = true := by
      rw [asksUser_eq, ← getLsbD_or_present call.2 (by decide), ← getLsbD_of_flagBits hbits
        (by omega), hus]
    refine ⟨pre, call, post, t, t', hsplit, hpre, hcall, ?_, ?_, hask⟩
    · rcases hwhere with hexp | ⟨hlo, -⟩
      · -- A frame below `t.next` would be a table, and the call would be on it.
        by_contra hlt
        obtain ⟨k, hk, r, hr, hnode'⟩ := ht.covered f hlow (by omega)
        have htab : TableAt t.mem pml4 (k + 1) f := (tableAt_iff (by omega)).mpr ⟨r, hr, hnode'⟩
        exact hexplicit pre call post t hsplit hpre (k + 1) (hexp ▸ htab)
      · exact hlo
    · exact hwhere.symm.imp (fun h => h.2) id

/-- A first call with `US`. -/
def userCall : List (Addr × BitVec 32) := [(0x0#64, pageBitUsUserFlag)]

theorem userCall_explicit (pre : List (Addr × BitVec 32)) (call : Addr × BitVec 32)
    (post : List (Addr × BitVec 32)) (t : Vmm) (hsplit : userCall = pre ++ call :: post)
    (hpre : (mapPages 0x200000#64 pre).run smallState = .ok () t) (ℓ : ℕ) :
    ¬ TableAt t.mem 0x200000#64 ℓ (pfn call.1) := by
  obtain ⟨rfl, rfl, rfl⟩ : pre = [] ∧ call = (0x0#64, pageBitUsUserFlag) ∧ post = [] := by
    cases pre with
    | nil =>
      obtain ⟨rfl, rfl⟩ := List.cons.inj hsplit
      exact ⟨rfl, rfl, rfl⟩
    | cons c pre =>
      have := congrArg List.length hsplit
      simp [userCall] at this
  obtain ⟨-, rfl⟩ := (Result.ok.injEq ..).mp hpre
  intro htable
  exact absurd (htable.eq_root fresh_smallState.zeroed) (by decide)

theorem userCall_spec : ∀ call ∈ userCall, call.1.toNat < 2 ^ 48 ∧ RwUs call.2 :=
  List.forall_mem_singleton.mpr (by decide)

theorem callsOk_userCall : CallsOk userCall := callsOk_of_rwUs userCall_spec

/-- The frame at 4 MiB becomes a table that user mode can reach. -/
theorem userCall_returns :
    ∃ s ℓ w, (mapPages 0x200000#64 userCall).run smallState = .ok () s ∧
      TableAt s.mem 0x200000#64 (ℓ + 1) 0x400 ∧
      walk s.mem 0x200000#64 (frameAddr 0x400) = some w ∧ w.page = frameAddr 0x400 ∧
      w.userMode = true := by
  have hfresh := fresh_smallState
  have hus : ∀ call ∈ userCall, call.2 = pageBitUsUserFlag := List.forall_mem_singleton.mpr rfl
  have hbelow : ∀ call ∈ userCall, pfn call.1 < 1040 := List.forall_mem_singleton.mpr (by decide)
  obtain ⟨s, h⟩ := mapPages_returns callsOk_userCall hbelow hfresh.settled (by decide)
    (hfresh.within _) (by rw [card_tablesBelow]; decide)
  obtain ⟨hsettled, -⟩ := mapPages_allocs callsOk_userCall hfresh.settled h
  have hF := flagged_mapPages callsOk_userCall hus hfresh.settled (hfresh.flagged _) h
  -- Page 0 needs a PDPT, so a frame was taken.
  have hpage := mapPages_present callsOk_userCall hfresh.settled h _ (List.mem_singleton_self _)
  obtain ⟨e, he⟩ := Option.isSome_iff_exists.mp (slotAt_isSome_of_leaf hpage (Nat.zero_le 3))
  obtain ⟨hlo, hhi⟩ := hsettled.inside 0 (by omega) _ (by decide) _
    (nodeAt_succ_eq_some.mpr ⟨e, he, rfl⟩)
  have hlo : 0x400 ≤ pfn (target e) := hlo
  obtain ⟨ℓ, hℓ, q, hq, hnode⟩ := hsettled.covered 0x400 le_rfl (by omega)
  obtain ⟨w, hw, hwpage⟩ := hsettled.walk_frame (by norm_num)
    (hsettled.mapped 0x400 le_rfl (by omega))
  refine ⟨s, ℓ, w, h, (tableAt_iff (by omega)).mpr ⟨q, hq, hnode⟩, hw, hwpage,
    Translation.all_entries.mpr fun k hk => ?_⟩
  have hflags := hF k _ _ hk (levelIdx_lt (by decide) hk) (walk_eq_some_iff.mp hw k hk)
  rw [user_eq, getLsbD_of_flagBits hflags (by omega)]
  decide

theorem mapPages_exposes_small :
    ∃ pre call post t t', userCall = pre ++ call :: post ∧
      (mapPages 0x200000#64 pre).run smallState = .ok () t ∧
      (mapPage 0x200000#64 call.1 call.2).run t = .ok () t' ∧
      t.next ≤ 0x400 ∧ (0x400 < t'.next ∨ pfn call.1 = 0x400) ∧ asksUser call.2 = true := by
  obtain ⟨s, ℓ, w, hs, htable, hw, hpage, huser⟩ := userCall_returns
  exact mapPages_exposes fresh_smallState userCall_spec userCall_explicit hs htable (by decide)
    hw (by rw [hpage]; decide) huser

/-- So a page table is open to user mode, although no call was on it. -/
theorem pageTable_open_small :
    (∀ call ∈ userCall, call.1.toNat < 2 ^ 48 ∧ RwUs call.2) ∧
      (∀ pre call post t, userCall = pre ++ call :: post →
        (mapPages 0x200000#64 pre).run smallState = .ok () t →
        ∀ ℓ, ¬ TableAt t.mem 0x200000#64 ℓ (pfn call.1)) ∧
      ∃ s ℓ w, (mapPages 0x200000#64 userCall).run smallState = .ok () s ∧
        TableAt s.mem 0x200000#64 (ℓ + 1) 0x400 ∧
        walk s.mem 0x200000#64 (frameAddr 0x400) = some w ∧ w.page = frameAddr 0x400 ∧
        w.userMode = true :=
  ⟨userCall_spec, userCall_explicit, userCall_returns⟩

end KessOS
