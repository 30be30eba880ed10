import KessOS.Vmm.Equiv.Shadow

/-!
# What a call costs

The frames that a call takes lie side by side, so they fall into at most two regions of 2 MiB, and
at every level they and the page need at most three tables: nine in all
(`card_neededTables_le`).  A nested call is made only after a frame was taken, so a call nests at
most nine deep below the top (`mapPageNested_outOfFuel`).  Neither bound depends on how many frames
there are, nor on what was mapped before (`mapPage_cost`).
-/

namespace KessOS

open EStateM Finset

variable {pml4 : Addr} {seg : Segment pml4} {flags : BitVec 32} {s s' : Vmm} {addr : Addr} {p : ℕ}

/-! ### The tables that a call needs -/

/-- Side by side, pages fall into few regions. -/
theorem levelIdx_le_add (lo j : ℕ) {ℓ : ℕ} (hℓ : ℓ < 3) :
    levelIdx (lo + j) ℓ ≤ levelIdx lo ℓ + j / 512 + 1 := by
  unfold levelIdx
  interval_cases ℓ <;> omega

theorem levelIdx_mono {p p' : ℕ} (h : p ≤ p') (ℓ : ℕ) : levelIdx p ℓ ≤ levelIdx p' ℓ :=
  Nat.div_le_div_right h

/-- The digits, at one level, of page `p` and of the `j + 1` frames from `lo` on. -/
def regions (p lo j ℓ : ℕ) : Finset ℕ :=
  insert (levelIdx p ℓ) (Icc (levelIdx lo ℓ) (levelIdx (lo + j) ℓ))

theorem card_regions_le (p lo j : ℕ) {ℓ : ℕ} (hℓ : ℓ < 3) :
    (regions p lo j ℓ).card ≤ j / 512 + 3 := by
  have hle := levelIdx_le_add lo j hℓ
  have hinsert := card_insert_le (levelIdx p ℓ) (Icc (levelIdx lo ℓ) (levelIdx (lo + j) ℓ))
  rw [Nat.card_Icc] at hinsert
  rw [regions]
  omega

theorem neededTables_subset (p lo j : ℕ) :
    neededTables p lo (j + 1) ⊆
      (range 3).biUnion fun ℓ => (regions p lo j ℓ).image (Prod.mk ℓ) := by
  rintro ⟨ℓ, q⟩ hκ
  obtain ⟨hℓ, hκ⟩ := mem_neededTables.mp hκ
  refine mem_biUnion.mpr ⟨ℓ, mem_range.mpr hℓ, mem_image.mpr ⟨q, ?_, rfl⟩⟩
  rw [regions, mem_insert, mem_Icc]
  rcases hκ with ⟨-, hq⟩ | ⟨f, hlo, hhi, -, hq⟩
  · exact Or.inl hq
  · obtain rfl : q = levelIdx f ℓ := hq
    exact Or.inr ⟨levelIdx_mono hlo ℓ, levelIdx_mono (by omega) ℓ⟩

/-- **Nine tables**, as long as the frames lie within 2 MiB. -/
theorem card_neededTables_le (p lo j : ℕ) :
    (neededTables p lo (j + 1)).card ≤ 9 + 3 * (j / 512) := by
  calc (neededTables p lo (j + 1)).card
      ≤ ((range 3).biUnion fun ℓ => (regions p lo j ℓ).image (Prod.mk ℓ)).card :=
        card_le_card (neededTables_subset p lo j)
    _ ≤ ∑ ℓ ∈ range 3, ((regions p lo j ℓ).image (Prod.mk ℓ)).card := card_biUnion_le
    _ ≤ ∑ _ ∈ range 3, (j / 512 + 3) :=
        sum_le_sum fun ℓ hℓ => card_image_le.trans (card_regions_le p lo j (mem_range.mp hℓ))
    _ = 9 + 3 * (j / 512) := by
        rw [sum_const, card_range, Nat.nsmul_eq_mul]
        omega

/-- Nine frames or more make up for the tables lacking. -/
theorem missing_le_self (pml4 : Addr) (s : Vmm) (p : ℕ) {j : ℕ} (hj : 9 ≤ j) :
    missing pml4 s p j ≤ j := by
  obtain ⟨j, rfl⟩ : ∃ i, j = i + 1 := ⟨j - 1, by omega⟩
  have hcard := card_neededTables_le p s.next j
  have hfilter := card_filter_le (neededTables p s.next (j + 1))
    fun κ => slotAt s.mem pml4 κ.1 κ.2 = none
  rw [missing]
  omega

/-- A table is missing only within the first nine frames. -/
theorem ShortAt.lt_nine {m : ℕ} (hI : Inv seg s) (h : ShortAt seg flags p s m)
    (hm : s.next ≤ m) : m < s.next + 9 := by
  by_contra hge
  obtain ⟨j, rfl⟩ := Nat.exists_eq_add_of_le hm
  have hlt := h.lt_missing hI
  have hle := missing_le_self pml4 s p (j := j) (by omega)
  omega

/-! ### Fuel -/

theorem ensureTable_agrees {rec rec' : Addr → BitVec 32 → VmmM Unit}
    (hrec : ∀ a f, AgreesUnless .outOfFuel (rec a f) (rec' a f)) (table : Addr) (idx : Fin 512)
    (flags : BitVec 32) :
    AgreesUnless .outOfFuel (ensureTable rec table idx flags)
      (ensureTable rec' table idx flags) := by
  intro s
  rw [ensureTable_run, ensureTable_run]
  by_cases hpres : present (s.mem (pfn table) idx)
  · rw [if_pos hpres, if_pos hpres]
    exact Or.inl rfl
  · rw [if_neg hpres, if_neg hpres]
    by_cases hfree : s.segmentUsable ≤ 0
    · rw [if_pos hfree, if_pos hfree]
      exact Or.inl rfl
    · rw [if_neg hfree, if_neg hfree]
      rcases hrec s.placement flags ((s.record (.read table idx)).linkFresh table idx flags) with
        heq | ⟨s', herr⟩
      · rw [heq]
        exact Or.inl rfl
      · rw [herr]
        exact Or.inr ⟨s', rfl⟩

/-- More fuel does not change a call that has enough. -/
theorem mapPageNested_agrees (pml4 : Addr) (fuel : ℕ) (addr : Addr) (flags : BitVec 32) :
    AgreesUnless .outOfFuel (mapPageNested pml4 fuel addr flags)
      (mapPageNested pml4 (fuel + 1) addr flags) := by
  induction fuel generalizing addr flags with
  | zero => exact fun s => Or.inr ⟨s, rfl⟩
  | succ fuel ih =>
    have hlevel := ensureTable_agrees ih
    rw [mapPageNested, mapPageNested]
    exact (hlevel _ _ _).bind fun pdpt => (hlevel _ _ _).bind fun pdt =>
      (hlevel _ _ _).bind fun pt => AgreesUnless.refl _ _

theorem mapPageNested_agrees_of_le (pml4 : Addr) {fuel fuel' : ℕ} (h : fuel ≤ fuel') (addr : Addr)
    (flags : BitVec 32) :
    AgreesUnless .outOfFuel (mapPageNested pml4 fuel addr flags)
      (mapPageNested pml4 fuel' addr flags) := by
  induction h with
  | refl => exact AgreesUnless.refl _ _
  | step _ ih => exact ih.trans (mapPageNested_agrees pml4 _ addr flags)

section Level

variable {rec : Addr → BitVec 32 → VmmM Unit} {table : Addr} {ℓ q fuel : ℕ}
  (hI : Inv seg s) (hf : FlagsOk flags) (hp : flags.getLsbD 0 = true) (hℓ : ℓ < 3)
  (hq : q < 512 ^ (ℓ + 1)) (ht : nodeAt s.mem pml4 ℓ (q / 512) = some (pfn table))

include hI hf hp hℓ hq ht

/-- If a nested call runs out of fuel, so many frames have been taken as there was fuel, and a
table is still missing. -/
theorem ensureTable_outOfFuel
    (hrec : ∀ s s' a, Inv seg s → a.toNat < 2 ^ 48 →
      (rec a flags).run s = .error .outOfFuel s' → 0 < fuel →
      ∃ m, s.next + fuel ≤ m + 1 ∧ ShortAt seg flags (pfn a) s m)
    (hpath : (ℓ, q) ∈ pathKeys p)
    (h : (ensureTable rec table (Fin.ofNat 512 q) flags).run s = .error .outOfFuel s') :
    ∃ m, s.next + fuel ≤ m ∧ ShortAt seg flags p s m := by
  rw [ensureTable_run] at h
  split_ifs at h with hpres hfree
  · cases h
  · have hfree' := usable_pos hfree
    obtain ⟨hI₂, hnext, -⟩ := hI.readLink hf hp hℓ hq ht hpres hfree' rfl
    rcases Nat.eq_zero_or_pos fuel with rfl | hpos
    · exact ⟨s.next, le_rfl, shortAt_before hI hℓ hq ht hpath hpres⟩
    · cases hrun : (rec s.placement flags).run
          ((s.record (.read table (Fin.ofNat 512 q))).linkFresh table (Fin.ofNat 512 q) flags) with
      | ok u s₃ =>
        rw [hrun] at h
        cases h
      | error e s₃ =>
        rw [hrun] at h
        obtain ⟨rfl, rfl⟩ := (Result.error.injEq ..).mp h
        obtain ⟨m, hm, hshort⟩ := hrec _ _ _ hI₂ (hI.placement_lt hfree') hrun hpos
        exact ⟨m, by omega, shortAt_after hI hf hp hℓ hq ht hpath hpres hfree' hshort⟩

end Level

theorem mapPageNested_outOfFuel (fuel : ℕ) (hf : FlagsOk flags) (addr : Addr) (hI : Inv seg s)
    (ha : addr.toNat < 2 ^ 48)
    (h : (mapPageNested pml4 fuel addr flags).run s = .error .outOfFuel s') (hpos : 0 < fuel) :
    ∃ m, s.next + fuel ≤ m + 1 ∧
      ShortAt seg (flags ||| pageBitPPresentFlag) (pfn addr) s m := by
  induction fuel generalizing flags addr s s' with
  | zero => exact absurd hpos (Nat.not_lt_zero 0)
  | succ fuel ih =>
    have hnested : ∀ s s' a, Inv seg s → a.toNat < 2 ^ 48 →
        (mapPageNested pml4 fuel a (flags ||| pageBitPPresentFlag)).run s =
          .error .outOfFuel s' → 0 < fuel →
        ∃ m, s.next + fuel ≤ m + 1 ∧
          ShortAt seg (flags ||| pageBitPPresentFlag) (pfn a) s m := by
      intro s s' a hI ha h hpos
      have := ih hf.or_present a hI ha h hpos
      rwa [or_present_idem] at this
    obtain ⟨ℓ, table, s₁, hℓ, hr, h⟩ := mapPageNested_error_cases hf hI ha h
    obtain ⟨m, hm, hshort⟩ := ensureTable_outOfFuel hr.inv hf.or_present
      (or_present_getLsbD flags) hℓ (levelIdx_lt (pfn_lt addr ha) hℓ.le) hr.node hnested
      ⟨hℓ.le, rfl⟩ h
    have hle := hr.ext.le
    exact ⟨m, by omega, hr.short hℓ.le hshort⟩

/-- Ten calls are enough. -/
theorem mapPageNested_ten_ne_outOfFuel (hf : FlagsOk flags) (hI : Inv seg s)
    (ha : addr.toNat < 2 ^ 48) :
    (mapPageNested pml4 10 addr flags).run s ≠ .error .outOfFuel s' := by
  intro h
  obtain ⟨m, hm, hshort⟩ := mapPageNested_outOfFuel 10 hf addr hI ha h (by decide)
  have hlt := hshort.lt_nine hI (by omega)
  omega

/-! ### Frames -/

/-- The frames taken so far and the free ones. -/
def Vmm.frames (s : Vmm) : ℕ := (allocated s.trace).length + s.segmentUsable.toNat

theorem frames_record (s : Vmm) {ev : Event} (hev : ∀ frame, ev ≠ .alloc frame) :
    (s.record ev).frames = s.frames := by
  have hnone : allocated [ev] = [] := by
    cases ev with
    | alloc frame => exact absurd rfl (hev frame)
    | _ => rfl
  show (allocated (s.trace ++ [ev])).length + s.segmentUsable.toNat = _
  rw [allocated_append, hnone, List.append_nil]
  rfl

theorem frames_linkFresh (hfree : 0 < s.segmentUsable.toNat) (table : Addr) (idx : Fin 512)
    (flags : BitVec 32) : (s.linkFresh table idx flags).frames = s.frames := by
  have husable := segmentUsable_takeFrame hfree
  have htrace : (s.takeFrame.recordAll (zeroing s.placement)).trace =
      s.trace ++ [.alloc s.placement] ++ zeroing s.placement := rfl
  have hone : (allocated [.alloc s.placement]).length = 1 := rfl
  rw [Vmm.linkFresh, frames_record _ fun _ => Event.noConfusion]
  show (allocated (s.takeFrame.recordAll (zeroing s.placement)).trace).length +
    s.takeFrame.segmentUsable.toNat = _
  rw [htrace, allocated_append, allocated_append, allocated_zeroing, List.append_nil,
    List.length_append, hone, husable, Vmm.frames]
  omega

/-- A frame that is taken was free. -/
theorem steady_frames : Steady Vmm.frames where
  read s _ _ := frames_record s fun _ => Event.noConfusion
  write s _ _ _ := frames_record s fun _ => Event.noConfusion
  link _ table idx flags hfree := frames_linkFresh hfree table idx flags

/-- A call takes no more than nine frames, whether it returns or not. -/
theorem mapPage_usable (hf : FlagsOk flags) (hI : Inv seg s) (ha : addr.toNat < 2 ^ 48) :
    s.segmentUsable.toNat ≤
      ((mapPage pml4 addr flags).run s).state.segmentUsable.toNat + 9 := by
  by_contra hlt
  have hcount := hI.count
  have hbelow : ¬ Takes ((mapPage pml4 addr flags).run s) (s.next + 9) := by
    intro htakes
    have hshort := mapPage_short hI ha hf (Nat.le_add_right _ _) htakes
    exact absurd (hshort.lt_nine hI (Nat.le_add_right _ _)) (lt_irrefl _)
  cases hrun : (mapPage pml4 addr flags).run s with
  | ok u s' =>
    rw [hrun] at hlt hbelow
    have hcount' := (mapPage_ok hI ha hf hrun).1.count
    have hlast : ¬ s.next + 9 < s'.next := hbelow
    change ¬ s.segmentUsable.toNat ≤ s'.segmentUsable.toNat + 9 at hlt
    omega
  | error e s' =>
    obtain ⟨rfl, hnext, -⟩ := mapPage_error hI ha hf hrun
    rw [hrun] at hlt hbelow
    have hlast : ¬ s.next + 9 ≤ s'.next := fun h => hbelow ⟨rfl, h⟩
    change ¬ s.segmentUsable.toNat ≤ s'.segmentUsable.toNat + 9 at hlt
    omega

/-- **The cost of a call is bounded**, whatever was mapped before and however many frames are
free: it nests at most ten deep, returns or stops for want of frames, and takes at most nine. -/
theorem mapPage_cost (h : Represented seg s) (hf : FlagsOk flags) (addr : Addr) :
    (mapPage pml4 addr flags).run s = (mapPageNested pml4 10 addr flags).run s ∧
      (∀ s', (mapPage pml4 addr flags).run s ≠ .error .outOfFuel s') ∧
      (allocated ((mapPage pml4 addr flags).run s).state.trace).length ≤
        (allocated s.trace).length + 9 := by
  obtain ⟨t, hI, hshadow⟩ := h
  have hlow := lowAddr_lt addr
  have hrel := mapPage_shadow hf addr hI hshadow
  have hfuel : ∀ s', (mapPage pml4 addr flags).run s ≠ .error .outOfFuel s' := by
    intro s' hrun
    obtain ⟨t', ht, -⟩ := hrel.eq_error hrun
    exact absurd (mapPage_error hI hlow hf ht).1 (by decide)
  have hten : ∀ s', (mapPageNested pml4 10 addr flags).run s ≠ .error .outOfFuel s' := by
    intro s' hrun
    obtain ⟨t', ht, -⟩ := (mapPageNested_shadow 10 hf addr hI hshadow).eq_error hrun
    exact mapPageNested_ten_ne_outOfFuel hf hI hlow ht
  refine ⟨?_, hfuel, ?_⟩
  · rw [mapPage_run] at hfuel ⊢
    rcases Nat.le_total (s.segmentUsable.toNat + 1) 10 with hle | hle
    · exact (mapPageNested_agrees_of_le pml4 hle addr flags).run_eq hfuel
    · exact ((mapPageNested_agrees_of_le pml4 hle addr flags).run_eq hten).symm
  · have hconserved := steady_frames.mapPage pml4 addr flags s
    have husable := mapPage_usable hf hI hlow
    have hstate : ((mapPage pml4 addr flags).run s).state.segmentUsable =
        ((mapPage pml4 (lowAddr addr) flags).run t).state.segmentUsable :=
      hrel.state.segmentUsable
    rw [← hstate, ← hshadow.segmentUsable] at husable
    rw [Vmm.frames, Vmm.frames] at hconserved
    omega

theorem mapPage_cost_small :
    (mapPage 0x200000#64 0x1000#64 3#32).run smallState =
        (mapPageNested 0x200000#64 10 0x1000#64 3#32).run smallState ∧
      (∀ s', (mapPage 0x200000#64 0x1000#64 3#32).run smallState ≠ .error .outOfFuel s') ∧
      (allocated ((mapPage 0x200000#64 0x1000#64 3#32).run smallState).state.trace).length ≤
        (allocated smallState.trace).length + 9 :=
  mapPage_cost (fresh_smallState.represented .refl) (by decide) 0x1000#64

end KessOS
