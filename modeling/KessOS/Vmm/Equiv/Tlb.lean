import KessOS.Vmm.Equiv.Below
import KessOS.Vmm.Tlb

/-!
# TLB coherence

`map_page` only ever adds entries, so nothing that the TLB has taken in gets wrong.  `unmap_page`
clears one entry and flushes its page afterwards; what the TLB takes in meanwhile is right for
all the other pages.  So between two operations every cached translation is the current walk,
however the fills are interleaved with them (`tlb_coherent`).
-/

namespace KessOS

open EStateM Trace Cache

variable {pml4 : Addr} {seg : Segment pml4} {σ σ' : System} {s s' : Vmm} {addr : Addr}

/-- The state of the system between two operations. -/
structure System.Ok (seg : Segment pml4) (σ : System) : Prop where
  inv : Inv seg σ.vmm
  coherent : Coherent (walkPage pml4) (σ.vmm.mem, σ.tlb)

theorem Keeps.walkPage {m m' : PhysMem} (h : Keeps pml4 m m') (p : Page) {t : Translation}
    (ht : KessOS.walkPage pml4 m p = some t) : KessOS.walkPage pml4 m' p = some t :=
  h.walk (frameAddr_lt p.isLt) ht

/-- What an operation does leaves the cache coherent, if no entry is lost at any moment. -/
theorem coherent_of_keeps {T : Set (Page × Translation)} {τ : List (Tick Event Page)}
    {m : PhysMem} (h : Coherent (walkPage pml4) (m, T))
    (hkeeps : Along Event.act (fun m ev => Keeps pml4 m (ev.act m)) m (codes τ)) :
    Coherent (walkPage pml4) (replay (tick (walkPage pml4) Event.act Event.flushes) τ (m, T)) :=
  h.run (hkeeps.mono fun _ _ _ hk p _ => hk.walkPage p)

theorem coherent_congr {T : Set (Page × Translation)} {τ : List (Tick Event Page)} {m m' : PhysMem}
    (hm : m' = replay Event.act (codes τ) m)
    (h : Coherent (walkPage pml4)
      (replay (tick (walkPage pml4) Event.act Event.flushes) τ (m, T))) :
    Coherent (walkPage pml4)
      (m', (replay (tick (walkPage pml4) Event.act Event.flushes) τ (m, T)).2) := by
  have hfst : (replay (tick (walkPage pml4) Event.act Event.flushes) τ (m, T)).1 =
      replay Event.act (codes τ) m := replay_tick_fst τ (m, T)
  rw [hm, ← hfst]
  exact h

/-! ### `unmap_page` -/

/-- Page `b` is translated as before. -/
theorem Clears.walk_other (h : Clears pml4 addr s s') {b : Addr} (hb : b.toNat < 2 ^ 48)
    (haddr : addr.toNat < 2 ^ 48) (hne : pfn b ≠ pfn addr) :
    walk s'.mem pml4 b = walk s.mem pml4 b := by
  refine walk_congr fun ℓ hℓ => ?_
  rw [h.slots ℓ _ hℓ (levelIdx_lt (pfn_lt b hb) hℓ), if_neg]
  rintro heq
  obtain ⟨rfl, hpage⟩ := Prod.mk.inj heq
  rw [levelIdx_three, pageOf_of_lt haddr] at hpage
  exact hne hpage

theorem Clears.walk_none (h : Clears pml4 addr s s') (haddr : addr.toNat < 2 ^ 48) :
    walk s'.mem pml4 addr = none := by
  rw [walk_eq_none_iff, h.slots 3 _ le_rfl (pfn_lt addr haddr), pageOf_of_lt haddr, if_pos rfl]

/-- The reads of `unmap_page` change nothing. -/
theorem along_unmapReads (m m' : PhysMem) :
    Along Event.act (fun m ev => Keeps pml4 m (ev.act m)) m' (unmapReads m pml4 addr) := by
  rw [along_iff_split]
  rintro pre ev post hsplit
  have hev : ev ∈ unmapReads m pml4 addr := by
    rw [hsplit]
    simp
  obtain ⟨ℓ, -, rfl⟩ := List.mem_map.mp hev
  exact Keeps.refl _

/-- Clearing an entry and flushing its page keeps the cache coherent, whatever is filled in
between. -/
theorem coherent_unmapPage {T : Set (Page × Translation)} {τ : List (Tick Event Page)}
    (haddr : addr.toNat < 2 ^ 48) (h : Coherent (walkPage pml4) (s.mem, T))
    (hclears : Clears pml4 addr s s')
    (hmem : s'.mem = replay Event.act (unmapWrites s.mem pml4 addr) s.mem)
    (hτ : codes τ = unmapReads s.mem pml4 addr ++ unmapWrites s.mem pml4 addr) :
    Coherent (walkPage pml4)
      (replay (tick (walkPage pml4) Event.act Event.flushes) τ (s.mem, T)) := by
  obtain ⟨τ₁, τ₂, rfl, h₁, h₂⟩ := codes_eq_append hτ
  obtain ⟨τ₂, τ₃, rfl, h₂, h₃⟩ := codes_eq_append (show codes τ₂ = [_] ++ [_] from h₂)
  have hpage : pfn addr < 512 ^ 4 := pfn_lt addr haddr
  have hfst : (replay (tick (walkPage pml4) Event.act Event.flushes) τ₁ (s.mem, T)).1 = s.mem := by
    rw [replay_tick_fst, h₁]
    rfl
  have hcoh := coherent_of_keeps h (by rw [h₁]; exact along_unmapReads _ _)
  rw [replay_append, replay_append]
  refine CoherentOff.drop (k := ⟨pfn addr, hpage⟩) ?_ ?_ (fun _ => rfl) h₃
  · -- The store loses the translation of the page and no other.
    refine (CoherentOff.of_coherent hcoh _).run ?_
    rw [h₂, hfst]
    refine .cons (fun p t hne ht => ?_) (.nil _)
    have hother : walk s'.mem pml4 (frameAddr p) = walk s.mem pml4 (frameAddr p) := by
      refine hclears.walk_other (frameAddr_lt p.isLt) haddr ?_
      rw [pfn_frameAddr p.isLt]
      exact fun heq => hne (Fin.ext heq)
    rw [hmem] at hother
    exact hother.trans ht
  · exact congrArg some (Fin.ext (Nat.mod_eq_of_lt hpage))

/-! ### The system -/

theorem System.Step.ok {op : Op} (h : System.Step pml4 op σ σ') (hσ : σ.Ok seg) : σ'.Ok seg := by
  obtain ⟨hallowed, hruns, τ, htrace, htlb⟩ := h
  obtain ⟨s', T'⟩ := σ'
  subst htlb
  cases op with
  | mapPage addr flags =>
    have hmaps := mapPage_ok hσ.inv hallowed.1 hallowed.2 hruns
    obtain ⟨es, htraced⟩ := hmaps.2.traced
    obtain rfl : es = codes τ := List.append_cancel_left (htraced.trace.symm.trans htrace)
    exact ⟨hmaps.1, coherent_congr htraced.mem (coherent_of_keeps hσ.coherent htraced.keeps)⟩
  | unmapPage addr ret =>
    obtain ⟨haddr, haligned, hupper⟩ := hallowed
    have hruns : (unmapPage pml4 addr).run σ.vmm = .ok ret s' := hruns
    obtain ⟨rfl, -⟩ := (unmapPage_cases hruns).resolve_left fun h => h.2.2 haligned
    have hclears := unmapPage_clears hσ.inv.distinct hupper hruns
    refine ⟨hclears.inv hσ.inv, ?_⟩
    rw [unmapPage_run, if_neg (not_not.mpr haligned)] at hruns
    split_ifs at hruns with hfound
    · obtain ⟨-, rfl⟩ := (Result.ok.injEq ..).mp hruns
      have hcodes := (List.append_cancel_left (htrace.symm : _ = σ.vmm.trace ++ _))
      refine coherent_congr ?_ (coherent_unmapPage haddr hσ.coherent hclears ?_ hcodes)
      · rw [hcodes]
        rfl
      · rfl
    · obtain ⟨-, rfl⟩ := (Result.ok.injEq ..).mp hruns
      have hcodes := (List.append_cancel_left (htrace.symm : _ = σ.vmm.trace ++ _))
      rw [List.append_nil] at hcodes
      refine coherent_congr ?_ (coherent_of_keeps hσ.coherent ?_)
      · rw [hcodes]
        rfl
      · rw [hcodes]
        exact along_unmapReads _ _
  | idle =>
    obtain rfl : s' = σ.vmm := hruns
    have hcodes : codes τ = [] := List.append_right_eq_self.mp htrace.symm
    refine ⟨hσ.inv, coherent_congr ?_ (hσ.coherent.fills hcodes)⟩
    rw [hcodes]
    rfl

/-- An operation with no fill in it. -/
theorem System.Step.of_runs (op : Op) {es : List Event} (hallowed : op.Allowed pml4 σ.vmm.mem)
    (hruns : op.Runs pml4 σ.vmm s') (htrace : s'.trace = σ.vmm.trace ++ es) :
    ∃ T, System.Step pml4 op σ ⟨s', T⟩ :=
  ⟨_, hallowed, hruns, es.map .code, by rw [codes_map_code, htrace], rfl⟩

theorem System.Run.ok (h : System.Run pml4 σ σ') (hσ : σ.Ok seg) : σ'.Ok seg := by
  induction h with
  | refl => exact hσ
  | tail _ hstep ih =>
    obtain ⟨op, hstep⟩ := hstep
    exact hstep.ok ih

theorem Fresh.ok (h : Fresh seg s) : System.Ok seg ⟨s, ∅⟩ where
  inv := h.inv
  coherent c hc := absurd hc (Set.notMem_empty c)

/-- **Unmapping and the TLB.**  Whatever the operations, and whenever the TLB takes in a walk, every
cached translation is the current walk between two operations.  After `unmap_page` returns 1 its
page is not present and every other page is translated as before, and a later `map_page` makes
the page walk to itself again. -/
theorem tlb_coherent {s₀ : Vmm} (hs₀ : Fresh seg s₀) (h : System.Run pml4 ⟨s₀, ∅⟩ σ) :
    (∀ p t, (p, t) ∈ σ.tlb → walk σ.vmm.mem pml4 (frameAddr p) = some t) ∧
      ∀ addr σ', System.Step pml4 (.unmapPage addr 1) σ σ' →
        walk σ'.vmm.mem pml4 addr = none ∧
        (∀ b, b.toNat < 2 ^ 48 → pfn b ≠ pfn addr →
          walk σ'.vmm.mem pml4 b = walk σ.vmm.mem pml4 b) ∧
        ∀ σ₁ σ₂ flags, System.Run pml4 σ' σ₁ → System.Step pml4 (.mapPage addr flags) σ₁ σ₂ →
          ∃ t, walk σ₂.vmm.mem pml4 addr = some t ∧ t.page = addr := by
  have hσ := h.ok hs₀.ok
  refine ⟨fun p t hpt => hσ.coherent (p, t) hpt, fun addr σ' hunmap => ?_⟩
  obtain ⟨haddr, haligned, hupper⟩ := hunmap.allowed
  have hclears := unmapPage_clears hσ.inv.distinct hupper hunmap.runs
  refine ⟨hclears.walk_none haddr, fun b hb hne => hclears.walk_other hb haddr hne,
    fun σ₁ σ₂ flags hrun hmap => ?_⟩
  have hσ₁ := hrun.ok (hunmap.ok hσ)
  have hmaps := mapPage_ok hσ₁.inv haddr hmap.allowed.2 hmap.runs
  obtain ⟨t, ht, hpage⟩ := hmaps.walk_addr haddr
  exact ⟨t, ht, hpage.trans (pageStart_of_aligned haligned)⟩

/-- A page that is mapped, taken in by the TLB and unmapped. -/
theorem smallSystem_runs :
    ∃ (σ σ' : System) (t : Translation), System.Run 0x200000#64 ⟨smallState, ∅⟩ σ ∧
      (1, t) ∈ σ.tlb ∧ System.Step 0x200000#64 (.unmapPage 0x1000#64 1) σ σ' := by
  obtain ⟨s₁, s₂, hrun, hupper, hunmap, -⟩ := small_map_unmap
  have hmaps := mapPage_ok fresh_smallState.inv (by decide) (by decide) hrun
  obtain ⟨t, ht, -⟩ := hmaps.walk_addr (by decide)
  obtain ⟨es, htraced⟩ := hmaps.2.traced
  -- The walk of page 1 is taken in when the call is over.
  have hcodes : codes (es.map .code ++ [.fill (1 : Page)]) = es := by
    rw [codes_append, codes_map_code]
    exact List.append_nil es
  have hmem : (1, t) ∈ (replay (tick (walkPage 0x200000#64) Event.act Event.flushes)
      (es.map .code ++ [.fill 1]) (smallState.mem, ∅)).2 := by
    refine mem_replay_fill _ _ ?_
    rw [codes_map_code, ← htraced.mem]
    exact ht
  have hmap : System.Step 0x200000#64 (.mapPage 0x1000#64 pageBitRwWritableFlag) ⟨smallState, ∅⟩
      ⟨s₁, _⟩ := ⟨⟨by decide, by decide⟩, hrun, _, by rw [hcodes, htraced.trace], rfl⟩
  obtain ⟨es', htrace'⟩ := unmapPage_trace hunmap
  obtain ⟨T, hstep⟩ := System.Step.of_runs (σ := ⟨s₁, _⟩) (.unmapPage 0x1000#64 1)
    ⟨by decide, by decide, hupper⟩ hunmap htrace'
  exact ⟨_, _, t, .single ⟨_, hmap⟩, hmem, hstep⟩

theorem tlb_coherent_small :
    ∃ (σ σ' : System) (t : Translation), System.Run 0x200000#64 ⟨smallState, ∅⟩ σ ∧
      (1, t) ∈ σ.tlb ∧ walk σ.vmm.mem 0x200000#64 0x1000#64 = some t ∧
      System.Step 0x200000#64 (.unmapPage 0x1000#64 1) σ σ' ∧
      walk σ'.vmm.mem 0x200000#64 0x1000#64 = none ∧
      ∀ b, b.toNat < 2 ^ 48 → pfn b ≠ 1 →
        walk σ'.vmm.mem 0x200000#64 b = walk σ.vmm.mem 0x200000#64 b := by
  obtain ⟨σ, σ', t, hrun, hmem, hstep⟩ := smallSystem_runs
  obtain ⟨hcached, hunmap⟩ := tlb_coherent fresh_smallState hrun
  obtain ⟨hnone, hothers, -⟩ := hunmap _ _ hstep
  exact ⟨σ, σ', t, hrun, hmem, hcached 1 t hmem, hstep, hnone, hothers⟩

end KessOS
