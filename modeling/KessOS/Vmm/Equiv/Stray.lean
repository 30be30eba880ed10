import KessOS.Vmm.Equiv.Runs

/-!
# `unmap_page` on pages that are not mapped

`unmap_page` does not look at the present bits of the upper entries, so on a page without tables
it goes on through the address fields that it finds, whatever frames they name.  For a page that
is not mapped the call is only harmless if the three upper entries are present, or if those
frames happen to be page tables and the entry at the end happens not to be present
(`unmapPage_harmless_iff`).
-/

namespace KessOS

open EStateM

variable {pml4 : Addr} {s s' : Vmm} {a : Addr}

/-- The frame is `pml4` or another page table. -/
def IsTable (m : PhysMem) (pml4 : Addr) (f : ℕ) : Prop := ∃ ℓ, TableAt m pml4 ℓ f

/-- The call has changed no memory, and all that it has read or written are page tables. -/
def Harmless (pml4 : Addr) (s s' : Vmm) : Prop :=
  s'.mem = s.mem ∧ ∃ es, s'.trace = s.trace ++ es ∧
    ∀ ev ∈ es, ∀ f, ev.frame? = some f → IsTable s.mem pml4 f

/-- The frames that the call follows are page tables. -/
def FollowsTables (m : PhysMem) (pml4 a : Addr) : Prop :=
  ∀ ℓ ≤ 3, IsTable m pml4 (pfn (followed m pml4 a ℓ))

/-- Present entries lead from table to table. -/
theorem tableAt_followed {m : PhysMem} {ℓ : ℕ} (hℓ : ℓ ≤ 3)
    (h : ∀ k < ℓ, present (foundEntry m pml4 a k) = true) :
    TableAt m pml4 ℓ (pfn (followed m pml4 a ℓ)) := by
  induction ℓ with
  | zero => exact .root
  | succ ℓ ih =>
    exact .entry (ih (by omega) fun k hk => h k (by omega)) (by omega) (h ℓ (Nat.lt_succ_self ℓ))

theorem UpperPresent.followsTables {m : PhysMem} (h : UpperPresent m pml4 a) :
    FollowsTables m pml4 a :=
  fun ℓ hℓ => ⟨ℓ, tableAt_followed hℓ fun k hk => h k (by omega)⟩

/-- Where the three upper entries are present, the page is not mapped because its own entry is
not present. -/
theorem UpperPresent.not_present {m : PhysMem} (h : UpperPresent m pml4 a)
    (hwalk : walk m pml4 a = none) : ¬ present (foundEntry m pml4 a 3) = true := by
  intro hleaf
  have hsome : (walk m pml4 a).isSome := by
    rw [walk_isSome_iff_found]
    intro ℓ hℓ
    rcases Nat.lt_or_ge ℓ 3 with hlt | hge
    · exact h ℓ hlt
    · obtain rfl : ℓ = 3 := by omega
      exact hleaf
  rw [hwalk] at hsome
  cases hsome

theorem frames_unmapReads {m : PhysMem} :
    (∀ ev ∈ unmapReads m pml4 a, ∀ f, ev.frame? = some f → IsTable m pml4 f) ↔
      FollowsTables m pml4 a := by
  constructor
  · intro h ℓ hℓ
    exact h _ (List.mem_map.mpr ⟨ℓ, List.mem_range.mpr (by omega), rfl⟩) _ rfl
  · intro h ev hev f hf
    obtain ⟨ℓ, hℓ, rfl⟩ := List.mem_map.mp hev
    obtain rfl := Option.some.inj hf
    exact h ℓ (Nat.le_of_lt_succ (List.mem_range.mp hℓ))

/-- The stored entry is not present, so it is not the one that was found. -/
theorem stored_ne_found {m : PhysMem} (hfound : present (foundEntry m pml4 a 3) = true) :
    Radix.store m (pfn (followed m pml4 a 3)) (tableIdx a 12)
      ((a &&& pageAddrMask) &&& ~~~pageBitPPresent) ≠ m := by
  intro heq
  have hentry : _ = foundEntry m pml4 a 3 :=
    congrFun (congrFun heq (pfn (followed m pml4 a 3))) (tableIdx a 12)
  rw [Radix.store_same] at hentry
  have hchild := child_cleared_entry a
  rw [hentry, child, if_pos hfound] at hchild
  cases hchild

/-- What a call on a page-aligned address does, whatever it finds. -/
theorem harmless_iff (ha : a % 0x1000 = 0) (hrun : (unmapPage pml4 a).run s = .ok 1 s') :
    Harmless pml4 s s' ↔
      FollowsTables s.mem pml4 a ∧ ¬ present (foundEntry s.mem pml4 a 3) = true := by
  rw [unmapPage_run, if_neg (not_not.mpr ha)] at hrun
  -- A present entry is overwritten with one that is not; otherwise the call only reads.
  split_ifs at hrun with hfound
  · obtain ⟨-, rfl⟩ := (Result.ok.injEq ..).mp hrun
    refine iff_of_false (fun h => ?_) fun h => h.2 hfound
    exact stored_ne_found hfound h.1
  · obtain ⟨-, rfl⟩ := (Result.ok.injEq ..).mp hrun
    rw [List.append_nil]
    constructor
    · rintro ⟨-, es, hes, hframes⟩
      obtain rfl : unmapReads s.mem pml4 a = es := List.append_cancel_left hes
      exact ⟨frames_unmapReads.mp hframes, hfound⟩
    · rintro ⟨htables, -⟩
      exact ⟨rfl, _, rfl, frames_unmapReads.mpr htables⟩

/-- In an ordered state the call strays to frame 0 as soon as an upper entry is missing. -/
theorem Inv.upperPresent {seg : Segment pml4} (hI : Inv seg s) (hroot : pfn pml4 ≠ 0)
    (hbase : seg.base ≠ 0) (h : FollowsTables s.mem pml4 a) : UpperPresent s.mem pml4 a := by
  intro ℓ
  induction ℓ using Nat.strong_induction_on with
  | _ ℓ ih =>
    intro hℓ
    have htable := tableAt_followed hℓ.le fun k hk => ih k hk (by omega)
    obtain ⟨q, hq, ht⟩ := (tableAt_iff hℓ.le).mp htable
    refine (hI.clean ℓ hℓ q hq _ ht (tableIdx a (39 - 9 * ℓ))).resolve_right fun hzero => ?_
    -- An entry that is not present is zero, so the next table would be frame 0.
    have hnext : followed s.mem pml4 a (ℓ + 1) = 0#64 := by
      rw [followed, hzero]
      decide
    obtain ⟨k, hk⟩ := h (ℓ + 1) (by omega)
    rw [hnext] at hk
    obtain ⟨r, hr, hk'⟩ := (tableAt_iff hk.le).mp hk
    have hpfn : pfn 0#64 = 0 := by decide
    rcases hI.table_within hk.le hr hk' with hfirst | ⟨hlow, -⟩
    · exact hroot (hfirst.symm.trans hpfn)
    · exact hbase (Nat.le_zero.mp (hpfn ▸ hlow))

/-- **`unmap_page` on a page that is not mapped** returns 1, and in any state it leaves memory
unchanged and reads page tables only if and only if the three upper entries are present, or the
frames it strays to are page tables and the entry it ends at is not present.  In the states that
`map_page`, and `unmap_page` where the upper entries are present, lead to, it strays to frame 0,
so unless that is a page table only the first can be. -/
theorem unmapPage_harmless_iff (ha : a % 0x1000 = 0) (hwalk : walk s.mem pml4 a = none) :
    ∃ s', (unmapPage pml4 a).run s = .ok 1 s' ∧
      (Harmless pml4 s s' ↔ UpperPresent s.mem pml4 a ∨
        FollowsTables s.mem pml4 a ∧ ¬ present (foundEntry s.mem pml4 a 3) = true) ∧
      ∀ (seg : Segment pml4) (s₀ : Vmm), Fresh seg s₀ →
        Relation.ReflTransGen (Vmm.Step pml4) s₀ s → pfn pml4 ≠ 0 → seg.base ≠ 0 →
        (Harmless pml4 s s' ↔ UpperPresent s.mem pml4 a) := by
  have hrun : ∃ s', (unmapPage pml4 a).run s = .ok 1 s' := by
    rw [unmapPage_run, if_neg (not_not.mpr ha)]
    split_ifs
    · exact ⟨_, rfl⟩
    · exact ⟨_, rfl⟩
  obtain ⟨s', hs'⟩ := hrun
  have hupper : UpperPresent s.mem pml4 a →
      FollowsTables s.mem pml4 a ∧ ¬ present (foundEntry s.mem pml4 a 3) = true :=
    fun h => ⟨h.followsTables, h.not_present hwalk⟩
  refine ⟨s', hs', ?_, fun seg s₀ hs₀ hreach hroot hbase => ?_⟩
  · rw [harmless_iff ha hs']
    exact ⟨Or.inr, fun h => h.elim hupper id⟩
  · rw [harmless_iff ha hs']
    exact ⟨fun h => (hs₀.reach hreach).upperPresent hroot hbase h.1, hupper⟩

/-- Empty tables, and an entry at address 0 that looks present. -/
def strayState : Vmm :=
  { smallState with mem := fun f idx => if f = 0 ∧ idx.val = 0 then 1#64 else 0#64 }

theorem unmapPage_harmless_stray :
    ∃ s', (unmapPage 0x200000#64 0x0#64).run strayState = .ok 1 s' ∧
      (Harmless 0x200000#64 strayState s' ↔ UpperPresent strayState.mem 0x200000#64 0x0#64 ∨
        FollowsTables strayState.mem 0x200000#64 0x0#64 ∧
          ¬ present (foundEntry strayState.mem 0x200000#64 0x0#64 3) = true) ∧
      ∀ (seg : Segment 0x200000#64) (s₀ : Vmm), Fresh seg s₀ →
        Relation.ReflTransGen (Vmm.Step 0x200000#64) s₀ strayState → pfn 0x200000#64 ≠ 0 →
        seg.base ≠ 0 →
        (Harmless 0x200000#64 strayState s' ↔ UpperPresent strayState.mem 0x200000#64 0x0#64) :=
  unmapPage_harmless_iff (by decide) (by decide)

/-- Page 0 is not mapped, and yet the call on it overwrites the entry at address 0. -/
theorem unmapPage_overwrites_stray :
    Fresh smallSegment strayState ∧ walk strayState.mem 0x200000#64 0x0#64 = none ∧
      ∃ s', (unmapPage 0x200000#64 0x0#64).run strayState = .ok 1 s' ∧
        s'.mem 0 0 ≠ strayState.mem 0 0 := by
  have hfound : present (foundEntry strayState.mem 0x200000#64 0x0#64 3) = true := by decide
  refine ⟨⟨fun _ => rfl, rfl, rfl⟩, by decide, ?_⟩
  rw [unmapPage_run, if_neg (by decide), if_pos hfound]
  exact ⟨_, rfl, by decide⟩

end KessOS
