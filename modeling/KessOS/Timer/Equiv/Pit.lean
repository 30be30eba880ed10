import KessOS.Timer.Pit
import Mathlib.Data.Nat.Nth

/-!
# How long `pit_sleep` waits

The deadline is computed in 32 bits and the counter wraps at 16.  As long as the deadline fits in
16 bits the loop is left after exactly `nticks` ticks; a deadline beyond is never reached, and the
loop is never left (`pitSleep_stuck`).
-/

namespace KessOS

variable {schedule : ℕ → PitEvent} {ticks nticks : BitVec 16}

/-- Any value of the counter is reached from 0. -/
theorem pitTick_iterate (k : ℕ) : pitTick^[k] 0 = BitVec.ofNat 16 k := by
  induction k with
  | zero => rfl
  | succ k ih =>
    rw [Function.iterate_succ_apply', ih, pitTick, BitVec.ofNat_add]
    rfl

/-! ### The state after some events -/

theorem ticksBefore_succ (schedule : ℕ → PitEvent) (n : ℕ) : ticksBefore schedule (n + 1) =
    ticksBefore schedule n + if schedule n = .tick then 1 else 0 := Nat.count_succ _ n

/-- Ticks move the counter, and nothing moves the deadline. -/
theorem after_pitSleep (schedule : ℕ → PitEvent) (n : ℕ) :
    (((pitSleep ticks nticks).after schedule n).ticks =
      ticks + BitVec.ofNat 16 (ticksBefore schedule n)) ∧
      ((pitSleep ticks nticks).after schedule n).eticks =
        ticks.setWidth 32 + nticks.setWidth 32 := by
  induction n with
  | zero => simp [PitSleep.after, pitSleep, ticksBefore]
  | succ n ih =>
    obtain ⟨hticks, heticks⟩ := ih
    rw [PitSleep.after, ticksBefore_succ]
    cases hev : schedule n with
    | tick =>
      refine ⟨?_, heticks⟩
      show pitTick _ = _
      rw [hticks, pitTick, if_pos rfl, BitVec.ofNat_add, BitVec.add_assoc]
      rfl
    | test => exact ⟨by simpa [PitSleep.step] using hticks, heticks⟩

/-- The condition of the loop, in numbers. -/
theorem waits_after (schedule : ℕ → PitEvent) (n : ℕ) :
    ((pitSleep ticks nticks).after schedule n).waits = true ↔
      (ticks.toNat + ticksBefore schedule n) % 2 ^ 16 < ticks.toNat + nticks.toNat := by
  obtain ⟨hticks, heticks⟩ := @after_pitSleep ticks nticks schedule n
  have ht := ticks.isLt
  have hn := nticks.isLt
  rw [PitSleep.waits, hticks, heticks, decide_eq_true_iff, BitVec.lt_def]
  simp only [BitVec.toNat_setWidth, BitVec.toNat_add, BitVec.toNat_ofNat]
  omega

/-- The loop is still being run if every test so far has found the condition true. -/
theorem left_after (p : PitSleep) (hleft : p.left = false) {n : ℕ}
    (hwaits : ∀ i < n, schedule i = .test → (p.after schedule i).waits = true) :
    (p.after schedule n).left = false := by
  induction n with
  | zero => exact hleft
  | succ n ih =>
    have hn := ih fun i hi => hwaits i (by omega)
    rw [PitSleep.after]
    cases hev : schedule n with
    | tick => exact hn
    | test =>
      show ((p.after schedule n).left || !(p.after schedule n).waits) = false
      rw [hn, hwaits n (Nat.lt_succ_self n) hev]
      rfl

/-- Once left, the loop is not entered again. -/
theorem left_mono (p : PitSleep) {n m : ℕ} (h : n ≤ m) (hleft : (p.after schedule n).left = true) :
    (p.after schedule m).left = true := by
  induction m, h using Nat.le_induction with
  | base => exact hleft
  | succ m _ ih =>
    rw [PitSleep.after]
    cases schedule m with
    | tick => exact ih
    | test =>
      show ((p.after schedule m).left || !(p.after schedule m).waits) = true
      rw [ih, Bool.true_or]

/-- The loop is left once. -/
theorem PitSleep.LeavesAfter.unique {p : PitSleep} {k k' : ℕ} (h : p.LeavesAfter schedule k)
    (h' : p.LeavesAfter schedule k') : k = k' := by
  obtain ⟨n, hin, hout, rfl⟩ := h
  obtain ⟨n', hin', hout', rfl⟩ := h'
  rcases Nat.lt_trichotomy n n' with hlt | rfl | hgt
  · rw [left_mono p hlt hout] at hin'
    cases hin'
  · rfl
  · rw [left_mono p hgt hout'] at hin
    cases hin

/-! ### Schedules -/

/-- Some test comes right when `k` ticks have passed, and only fewer have passed before it. -/
theorem Interleaved.exists_test (h : Interleaved schedule) (k : ℕ) :
    ∃ n, schedule n = .test ∧ ticksBefore schedule n = k ∧
      ∀ i < n, ticksBefore schedule i < k := by
  have hinfinite : {n | schedule n = .tick}.Infinite :=
    Set.infinite_of_forall_exists_gt fun n => by
      obtain ⟨m, hm, htick⟩ := h.endless (n + 1)
      exact ⟨m, htick, hm⟩
  have hreach : ∃ n, ticksBefore schedule n = k :=
    Nat.surjective_count_of_infinite_setOfPred hinfinite k
  have hbefore : ∀ i < Nat.find hreach, ticksBefore schedule i < k := by
    intro i hi
    have hle : ticksBefore schedule i ≤ ticksBefore schedule (Nat.find hreach) :=
      Nat.count_monotone _ hi.le
    rw [Nat.find_spec hreach] at hle
    exact lt_of_le_of_ne hle (Nat.find_min hreach hi)
  refine ⟨Nat.find hreach, ?_, Nat.find_spec hreach, hbefore⟩
  -- The first moment with `k` ticks is the start or comes right after a tick.
  cases hn : Nat.find hreach with
  | zero => exact h.first
  | succ n =>
    refine h.between n ?_
    have hlt := hbefore n (by omega)
    have heq := Nat.find_spec hreach
    rw [hn, ticksBefore_succ] at heq
    by_contra htick
    rw [if_neg htick] at heq
    omega

/-! ### The loop -/

/-- With a deadline that does not fit in 16 bits the loop is never left. -/
theorem pitSleep_stuck (hlate : 2 ^ 16 ≤ ticks.toNat + nticks.toNat) (n : ℕ) :
    ((pitSleep ticks nticks).after schedule n).left = false := by
  refine left_after _ rfl fun i _ _ => (waits_after schedule i).mpr ?_
  have hlt : (ticks.toNat + ticksBefore schedule i) % 2 ^ 16 < 2 ^ 16 :=
    Nat.mod_lt _ (Nat.two_pow_pos 16)
  omega

/-- Otherwise it is left after exactly `nticks` ticks. -/
theorem pitSleep_leaves (h : Interleaved schedule) (hfits : ticks.toNat + nticks.toNat < 2 ^ 16) :
    (pitSleep ticks nticks).LeavesAfter schedule nticks.toNat := by
  obtain ⟨n, htest, hcount, hbefore⟩ := h.exists_test nticks.toNat
  have hleft : ((pitSleep ticks nticks).after schedule n).left = false := by
    refine left_after _ rfl fun i hi _ => (waits_after schedule i).mpr ?_
    have hlt := hbefore i hi
    rw [Nat.mod_eq_of_lt (by omega)]
    omega
  have hpast : ((pitSleep ticks nticks).after schedule n).waits = false := by
    rw [← Bool.not_eq_true, waits_after, hcount, Nat.mod_eq_of_lt hfits]
    exact lt_irrefl _
  refine ⟨n, hleft, ?_, hcount⟩
  rw [PitSleep.after, htest]
  show (_ || !((pitSleep ticks nticks).after schedule n).waits) = true
  rw [hpast]
  exact Bool.or_true _

/-- **How long `pit_sleep` waits**: exactly `nticks` ticks, whatever the schedule, if and only if
the deadline fits in 16 bits. -/
theorem pitSleep_leavesAfter_iff (h : Interleaved schedule) (ticks nticks : BitVec 16) :
    (pitSleep ticks nticks).LeavesAfter schedule nticks.toNat ↔
      ticks.toNat + nticks.toNat < 2 ^ 16 := by
  constructor
  · rintro ⟨n, -, hleft, -⟩
    by_contra hlate
    rw [pitSleep_stuck (not_lt.mp hlate)] at hleft
    cases hleft
  · exact pitSleep_leaves h

/-- A test, a tick, a test, a tick, and so on. -/
def alternating (n : ℕ) : PitEvent := if n % 2 = 0 then .test else .tick

theorem interleaved_alternating : Interleaved alternating where
  first := rfl
  between n htick := by
    have hodd : ¬ n % 2 = 0 := fun heven => by simp [alternating, heven] at htick
    exact if_pos (by omega)
  endless n := ⟨2 * n + 1, by omega, if_neg (by omega)⟩

theorem pitSleep_leavesAfter_small :
    (pitSleep 100#16 5#16).LeavesAfter alternating 5 ↔ 100 + 5 < 2 ^ 16 :=
  pitSleep_leavesAfter_iff interleaved_alternating 100#16 5#16

/-- Ten ticks, some eleven minutes after boot. -/
theorem pitSleep_stuck_late : Interleaved alternating ∧ pitTick^[65530] 0 = 65530#16 ∧
    ¬ (pitSleep 65530#16 10#16).LeavesAfter alternating 10 := by
  refine ⟨interleaved_alternating, pitTick_iterate 65530, ?_⟩
  rintro ⟨n, -, hleft, -⟩
  rw [pitSleep_stuck (by decide)] at hleft
  cases hleft

end KessOS
