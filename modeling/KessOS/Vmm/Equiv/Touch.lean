import KessOS.Vmm.Equiv.Init

/-!
# What `map_page` touches once paging is live

After `vmm_init` has loaded `CR3`, `map_page` runs behind the tables that it changes.  It clears
and fills a fresh table before it maps it, so a call only stays on mapped memory if every frame
that it is going to take is mapped beforehand (`Live.safe_iff`).  Frames of the first 6 GiB are
(`framesMapped_of_below`); those of a segment that lies higher are not.
-/

namespace KessOS

open EStateM Trace

variable {pml4 : Addr} {seg : Segment pml4} {s s' : Vmm} {meminfo : MemInfo} {es : List Event}
  {calls : List (Addr × BitVec 32)}

/-- The tables map the frame `f` to itself, present and writable. -/
def MapsRw (m : PhysMem) (pml4 : Addr) (f : ℕ) : Prop :=
  ∃ t, walk m pml4 (frameAddr f) = some t ∧ t.page = frameAddr f ∧ t.canWrite = true

/-- An access to memory other than the static `pml4` is to a page that the tables map. -/
def SafeAccess (pml4 : Addr) (m : PhysMem) (ev : Event) : Prop :=
  ∀ f, ev.frame? = some f → f ≠ pfn pml4 → MapsRw m pml4 f

/-- The frames that a call on page `p` needs are mapped. -/
def FramesMapped (pml4 : Addr) (s : Vmm) (p : ℕ) : Prop :=
  ∀ j < demand pml4 s p, MapsRw s.mem pml4 (s.next + j)

/-- Before each of the calls, the frames that it needs are mapped. -/
def EachMapped (pml4 : Addr) : List (Addr × BitVec 32) → Vmm → Prop
  | [], _ => True
  | call :: calls, s => FramesMapped pml4 s (pfn call.1) ∧
    ∀ s₁, (mapPage pml4 call.1 call.2).run s = .ok () s₁ → EachMapped pml4 calls s₁

/-- With the flags of `vmm_init` everywhere, a page is writable as soon as it is present. -/
theorem Live.mapsRw_iff (h : Live seg s) {f : ℕ} (hf : f < 2 ^ 36) :
    MapsRw s.mem pml4 f ↔ (slotAt s.mem pml4 3 f).isSome := by
  constructor
  · rintro ⟨t, ht, -⟩
    have hslot := slotAt_of_walk ht
    rw [pfn_frameAddr hf] at hslot
    rw [hslot]
    rfl
  · intro hpres
    obtain ⟨t, ht, hpage⟩ := h.walk_frame hf hpres
    refine ⟨t, ht, hpage, Translation.all_entries.mpr fun ℓ hℓ => ?_⟩
    have hflags := h.flagged ℓ _ _ hℓ (levelIdx_lt (by rwa [pfn_frameAddr hf]) hℓ)
      (walk_eq_some_iff.mp ht ℓ hℓ)
    rw [writable_eq, getLsbD_of_flagBits hflags (by omega)]
    decide

/-- A frame that is mapped stays mapped. -/
theorem MapsRw.keeps {m m' : PhysMem} {f : ℕ} (h : MapsRw m pml4 f) (hf : f < 2 ^ 36)
    (hkeep : Keeps pml4 m m') : MapsRw m' pml4 f := by
  obtain ⟨t, ht, hpage, hwrite⟩ := h
  exact ⟨t, hkeep.walk (frameAddr_lt hf) ht, hpage, hwrite⟩

/-- **One call**: all accesses are to mapped pages exactly when all frames that the call takes
are mapped before it starts. -/
theorem Live.safe_iff (h : Live seg s) {addr : Addr} (haddr : addr.toNat < 2 ^ 48)
    (hrun : (mapPage pml4 addr initFlags).run s = .ok () s') (hes : s'.trace = s.trace ++ es) :
    Along Event.act (SafeAccess pml4) s.mem es ↔ FramesMapped pml4 s (pfn addr) := by
  have hmaps := mapPage_ok h.toInv haddr (by decide) hrun
  have hnext := mapPage_takes h.toInv haddr (by decide) hrun
  obtain ⟨es', htraced⟩ := hmaps.2.traced
  obtain rfl : es' = es := List.append_cancel_left (htraced.trace.symm.trans hes)
  have hfit : ∀ {f}, f < s'.next → f < 2 ^ 36 := fun hf => hmaps.frame_lt hf
  constructor
  · -- Each frame is touched once before it is mapped, unless it was mapped from the start.
    intro hsafe j hj
    obtain ⟨pre, ev, post, hsplit, hframe, hslot⟩ :=
      htraced.touched (s.next + j) (Nat.le_add_right _ _) (by omega)
    have hf : s.next + j < 2 ^ 36 := hfit (by omega)
    have hne : s.next + j ≠ pfn pml4 := by
      intro heq
      have hlow := h.low
      have hend := hmaps.1.next_le
      exact seg.apart ⟨by omega, by omega⟩
    obtain ⟨t, ht, -⟩ := along_iff_split.mp hsafe pre ev post hsplit _ hframe hne
    have hleaf := slotAt_of_walk ht
    rw [pfn_frameAddr hf, hslot] at hleaf
    exact (h.mapsRw_iff hf).mpr (Option.isSome_of_eq_some hleaf)
  · -- Frames taken earlier are mapped since, and no entry is lost on the way.
    intro hmapped
    have hstart := htraced.keeps.rel_start (R := Keeps pml4) Keeps.refl
      fun _ _ _ => Keeps.trans
    refine hstart.mono fun m ev hev hkeep f hframe hne => ?_
    obtain ⟨hlo, hhi⟩ := (htraced.tables ev hev f hframe).resolve_left hne
    refine MapsRw.keeps ?_ (hfit hhi) hkeep
    rcases Nat.lt_or_ge f s.next with hlt | hge
    · exact (h.mapsRw_iff (hfit hhi)).mpr (h.mapped f hlo hlt)
    · have := hmapped (f - s.next) (by omega)
      rwa [Nat.add_sub_cancel' hge] at this

/-- Frames of the first 6 GiB are mapped. -/
theorem Live.framesMapped_of_below (h : Live seg s) {addr : Addr} (haddr : addr.toNat < 2 ^ 48)
    (hseg : seg.base + seg.pages ≤ initPages)
    (hrun : (mapPage pml4 addr initFlags).run s = .ok () s') :
    FramesMapped pml4 s (pfn addr) := by
  have hmaps := mapPage_ok h.toInv haddr (by decide) hrun
  have hnext := mapPage_takes h.toInv haddr (by decide) hrun
  have hend := hmaps.1.next_le
  intro j hj
  have hlt : s.next + j < initPages := by omega
  exact (h.mapsRw_iff (initPages_lt hlt)).mpr (h.first _ hlt)

/-- A page that lacks a table needs a frame, so the next free frame has to be mapped. -/
theorem Live.not_framesMapped (h : Live seg s) {addr : Addr} (haddr : addr.toNat < 2 ^ 48)
    (hrun : (mapPage pml4 addr initFlags).run s = .ok () s') {ℓ : ℕ} (hℓ : ℓ < 3)
    (hnone : slotAt s.mem pml4 ℓ (levelIdx (pfn addr) ℓ) = none)
    (hnext : s.next < 2 ^ 36 → slotAt s.mem pml4 3 s.next = none) :
    ¬ FramesMapped pml4 s (pfn addr) := by
  intro hmapped
  have hmaps := mapPage_ok h.toInv haddr (by decide) hrun
  have htakes := mapPage_takes h.toInv haddr (by decide) hrun
  -- The call takes at least the frame for the missing table, and the first it takes is `next`.
  have hpos := demand_pos hℓ hnone ⟨_, hmaps.missing_le h.toInv⟩
  have hfit : s.next < 2 ^ 36 := hmaps.frame_lt (by omega)
  have hpres := (h.mapsRw_iff hfit).mp (hmapped 0 hpos)
  rw [hnext hfit] at hpres
  cases hpres

theorem Live.mapPages_safe_iff (h : Live seg s)
    (hcalls : ∀ call ∈ calls, call.1.toNat < 2 ^ 48 ∧ call.2 = initFlags)
    (hrun : (mapPages pml4 calls).run s = .ok () s') (hes : s'.trace = s.trace ++ es) :
    Live seg s' ∧
      (Along Event.act (SafeAccess pml4) s.mem es ↔ EachMapped pml4 calls s) := by
  -- `Live` is what the first call hands on to the rest of the run.
  induction calls generalizing s es with
  | nil =>
    obtain ⟨-, rfl⟩ := (Result.ok.injEq ..).mp hrun
    obtain rfl : es = [] := (List.append_right_eq_self.mp hes.symm)
    exact ⟨h, iff_of_true (.nil _) trivial⟩
  | cons call calls ih =>
    rw [mapPages_cons] at hrun
    obtain ⟨u, s₁, h₁, hrest⟩ := run_bind_eq_ok.mp hrun
    obtain ⟨haddr, hflags⟩ := hcalls call (List.mem_cons_self ..)
    have h₁' := h₁
    rw [hflags] at h₁'
    have hlive := h.step haddr h₁'
    obtain ⟨es₁, htraced⟩ := (mapPage_ok h.toInv haddr (by decide) h₁').2.traced
    have hcalls' : CallsOk calls := by
      intro c hc
      obtain ⟨hc₁, hc₂⟩ := hcalls c (List.mem_cons_of_mem _ hc)
      exact ⟨hc₁, hc₂ ▸ by decide⟩
    obtain ⟨-, -, es₂, htrace₂, -⟩ := mapPages_allocs hcalls' hlive.toSettled hrest
    obtain ⟨hlive', hiff⟩ :=
      ih hlive (fun c hc => hcalls c (List.mem_cons_of_mem _ hc)) hrest htrace₂
    obtain rfl : es₁ ++ es₂ = es := by
      have hcat : s.trace ++ (es₁ ++ es₂) = s.trace ++ es := by
        rw [← hes, htrace₂, htraced.trace, List.append_assoc]
      exact List.append_cancel_left hcat
    refine ⟨hlive', ?_⟩
    rw [along_append, ← htraced.mem, h.safe_iff haddr h₁' htraced.trace, hiff]
    refine and_congr_right fun _ => ⟨fun hr s₂ h₂ => ?_, fun hr => hr s₁ h₁⟩
    rw [h₁] at h₂
    obtain ⟨-, rfl⟩ := (Result.ok.injEq ..).mp h₂
    exact hr

/-- **Memory that `map_page` touches once paging is live.**  In any run of `map_page` after
`vmm_init`, with its flags, all accesses to page tables and fresh frames are to pages that the
active tables map, if and only if each call finds the frames that it takes already mapped. -/
theorem mapPages_touches_mapped_iff {s₀ : Vmm} (hpml4 : pml4.toNat % pageSize = 0)
    (haligned : (chosenSegment s₀ meminfo).physAddr.toNat % pageSize = 0)
    (hbelow : (chosenSegment s₀ meminfo).stop ≤ 2 ^ 48)
    (hapart : ∀ x, (chosenSegment s₀ meminfo).Contains x → ¬ InPml4 pml4 x)
    (hinit : (vmmInit pml4 meminfo).run s₀ = .ok () s)
    (hcalls : ∀ call ∈ calls, call.1.toNat < 2 ^ 48 ∧ call.2 = initFlags)
    (hrun : (mapPages pml4 calls).run s = .ok () s') (hes : s'.trace = s.trace ++ es) :
    s.cr3 = some pml4 ∧ s'.cr3 = some pml4 ∧
      (Along Event.act (SafeAccess pml4) s.mem es ↔ EachMapped pml4 calls s) := by
  obtain ⟨hlive, -⟩ := vmmInit_ok hpml4 haligned hbelow hapart hinit
  obtain ⟨hlive', hiff⟩ := hlive.mapPages_safe_iff hcalls hrun hes
  exact ⟨hlive.cr3, hlive'.cr3, hiff⟩

/-! ### Two machines -/

/-- A call on the page at 7 GiB, which `vmm_init` does not map. -/
def highCall : List (Addr × BitVec 32) := [(0x1C0000000#64, initFlags)]

theorem highCall_spec : ∀ call ∈ highCall, call.1.toNat < 2 ^ 48 ∧ call.2 = initFlags :=
  List.forall_mem_singleton.mpr (by decide)

theorem callsOk_highCall : CallsOk highCall := List.forall_mem_singleton.mpr (by decide)

/-- The state after `vmm_init` and after the call, on a machine with one usable segment. -/
theorem highCall_returns {physAddr nPages : BitVec 64} {d : MemDesc}
    (hchosen : chosenSegment (bootState (oneSegmentMem physAddr nPages)) oneSegmentInfo = d)
    (haligned : d.physAddr.toNat % pageSize = 0) (hbelow : d.stop ≤ 2 ^ 48)
    (hapart : ∀ x, d.Contains x → ¬ InPml4 0x200000#64 x) (hi : ℕ) (hinit : 1835009 ≤ hi)
    (hend : pfn d.physAddr + d.nPages.toNat ≤ hi)
    (henough : (tablesBelow hi).card ≤ d.nPages.toNat) :
    ∃ s s' es, (vmmInit 0x200000#64 oneSegmentInfo).run
        (bootState (oneSegmentMem physAddr nPages)) = .ok () s ∧
      (mapPages 0x200000#64 highCall).run s = .ok () s' ∧ s'.trace = s.trace ++ es := by
  subst hchosen
  obtain ⟨s, hs⟩ := vmmInit_returns (by decide) haligned hbelow hapart
    (show initPages ≤ hi by rw [initPages_eq]; omega) hend henough
  obtain ⟨hlive, hW⟩ := vmmInit_ok (by decide) haligned hbelow hapart hs
  have hnext : s.next ≤ hi := hlive.next_le.trans hend
  have hW' : Within 0x200000#64 (selfKeys 0 hi) s.mem := by
    refine hW.mono (Set.union_subset ?_ ?_)
    · rintro κ ⟨f, hlo, hf, hκ⟩
      rw [initPages_eq] at hf
      exact ⟨f, hlo, by omega, hκ⟩
    · rintro κ ⟨f, -, hf, hκ⟩
      exact ⟨f, Nat.zero_le f, by omega, hκ⟩
  have hpage : ∀ call ∈ highCall, pfn call.1 < hi := by
    intro call hcall
    obtain rfl := List.mem_singleton.mp hcall
    exact lt_of_lt_of_le (by decide) hinit
  obtain ⟨s', hs'⟩ := mapPages_returns callsOk_highCall hpage hlive.toSettled hend
    hW' henough
  obtain ⟨-, -, es, hes, -⟩ := mapPages_allocs callsOk_highCall hlive.toSettled hs'
  exact ⟨s, s', es, hs, hs', hes⟩

theorem highCall_returns_low :
    ∃ s s' es, (vmmInit 0x200000#64 oneSegmentInfo).run
        (bootState (oneSegmentMem 0x400000#64 4096#64)) = .ok () s ∧
      (mapPages 0x200000#64 highCall).run s = .ok () s' ∧ s'.trace = s.trace ++ es := by
  refine highCall_returns chosenSegment_lowMachine (by decide) (by decide)
    (MemDesc.not_inPml4 (by decide)) 1835009 le_rfl (by decide) ?_
  rw [card_tablesBelow]
  decide

/-- With the segment at 4 MiB the call stays on mapped memory. -/
theorem mapPages_touches_mapped_low :
    ∃ s s' es, (vmmInit 0x200000#64 oneSegmentInfo).run
        (bootState (oneSegmentMem 0x400000#64 4096#64)) = .ok () s ∧
      (mapPages 0x200000#64 highCall).run s = .ok () s' ∧ s'.trace = s.trace ++ es ∧
      s.cr3 = some 0x200000#64 ∧ s'.cr3 = some 0x200000#64 ∧
      (Along Event.act (SafeAccess 0x200000#64) s.mem es ↔
        EachMapped 0x200000#64 highCall s) := by
  obtain ⟨s, s', es, hs, hs', hes⟩ := highCall_returns_low
  exact ⟨s, s', es, hs, hs', hes, mapPages_touches_mapped_iff (by decide) lowMachine_aligned
    lowMachine_below lowMachine_apart hs highCall_spec hs' hes⟩

/-- With the segment at 8 GiB it does not: the frame for the new PD is not mapped when it is
cleared. -/
theorem mapPages_touches_unmapped_high :
    chosenSegment (bootState (oneSegmentMem 0x200000000#64 8192#64)) oneSegmentInfo =
        ⟨7, 0x200000000#64, 0, 8192#64, 0⟩ ∧
      ∃ s s' es, (vmmInit 0x200000#64 oneSegmentInfo).run
          (bootState (oneSegmentMem 0x200000000#64 8192#64)) = .ok () s ∧
        (mapPages 0x200000#64 [(0x1C0000000#64, initFlags)]).run s = .ok () s' ∧
        s'.trace = s.trace ++ es ∧
        ¬ Along Event.act (SafeAccess 0x200000#64) s.mem es := by
  have hchosen : chosenSegment (bootState (oneSegmentMem 0x200000000#64 8192#64)) oneSegmentInfo =
      ⟨7, 0x200000000#64, 0, 8192#64, 0⟩ := by decide
  have hapart : ∀ x, (⟨7, 0x200000000#64, 0, 8192#64, 0⟩ : MemDesc).Contains x →
      ¬ InPml4 0x200000#64 x := MemDesc.not_inPml4 (by decide)
  obtain ⟨s, s', es, hs, hs', hes⟩ := highCall_returns hchosen (by decide) (by decide) hapart
    2105344 (by decide) (by decide) (by rw [card_tablesBelow]; decide)
  refine ⟨hchosen, s, s', es, hs, hs', hes, fun hsafe => ?_⟩
  obtain ⟨hlive, hW⟩ := vmmInit_ok (by decide) (by rw [hchosen]; decide) (by rw [hchosen]; decide)
    (by rw [hchosen]; exact hapart) hs
  -- If the call were safe, the frames that it takes would be mapped after `vmm_init`.
  obtain ⟨hframes, -⟩ := (hlive.mapPages_safe_iff highCall_spec hs' hes).2.mp hsafe
  obtain ⟨u, s₁, h₁, -⟩ := run_bind_eq_ok.mp hs'
  have hlow : 2097152 ≤ s.next := by
    have hbase : pfn (chosenSegment (bootState (oneSegmentMem 0x200000000#64 8192#64))
        oneSegmentInfo).physAddr = 2097152 := by
      rw [hchosen]
      decide
    exact hbase ▸ hlive.low
  have hkeys : Within 0x200000#64 (selfKeys 0 1572864 ∪ selfKeys 2097152 s.next) s.mem := by
    rw [hchosen, initPages_eq] at hW
    exact hW
  -- But it needs a new PD for entry 7 of the PDPT, and the frame for it is above 8 GiB.
  have hpage : levelIdx (pfn 0x1C0000000#64) 1 = 7 := by decide
  refine hlive.not_framesMapped (by decide) h₁ (ℓ := 1) (by omega) ?_ ?_ hframes
  · rw [hpage, ← Option.not_isSome_iff_eq_none]
    intro hs
    rcases hkeys 1 7 (by omega) (by omega) hs with ⟨f, -, hf, -, hq⟩ | ⟨f, hf, -, -, hq⟩
    · have hq : 7 = f / 512 ^ 2 := hq
      omega
    · have hq : 7 = f / 512 ^ 2 := hq
      omega
  · intro hfit
    rw [← Option.not_isSome_iff_eq_none]
    intro hs
    rcases hkeys 3 s.next le_rfl hfit hs with hmem | hmem
    · have := page_mem_selfKeys hmem
      omega
    · have := page_mem_selfKeys hmem
      omega

end KessOS
