import KessOS.Io.Equiv.Port
import KessOS.Timer.Freq

/-!
# What the timer is programmed to

`pit_set_freq` starts counter 0 anew in mode 3, from whatever state the timer is in.  The count is
the quotient by the frequency as long as it fits into two bytes, which is from 19 Hz on.
-/

namespace KessOS

open Interaction

variable {b b' : Board} {freqHz : BitVec 16} {flags : BitVec 8} {r : Option Unit}

/-- Counter 0 in mode 3, which makes a square wave, with a count. -/
def squareWave (count : BitVec 16) : I8254.Counter where
  access := 3
  mode := 3
  bcd := false
  low := none
  count := some count

/-- The count that `pit_set_freq` writes. -/
def countFor (freqHz : BitVec 16) : BitVec 16 := (1193180#32 / freqHz.setWidth 32).setWidth 16

/-- The two bytes of the divisor that are written. -/
theorem append_divisor (divisor : BitVec 32) :
    (divisor.sshiftRight 8).setWidth 8 ++ (divisor &&& 0xFF#32).setWidth 8 =
      divisor.setWidth 16 := by
  have hmask : ∀ i : Fin 8, (0xFF#32).getLsbD i = true := by decide
  refine BitVec.eq_of_getLsbD_eq fun i hi => ?_
  rw [BitVec.getLsbD_append]
  by_cases hlow : i < 8
  · have hbit : (0xFF#32).getLsbD i = true := hmask ⟨i, hlow⟩
    simp only [hlow, BitVec.getLsbD_setWidth, BitVec.getLsbD_and, hbit]
    simp [hi]
  · have hback : 8 + (i - 8) = i := by omega
    simp [hlow, hi, BitVec.getLsbD_sshiftRight, hback, show i - 8 < 8 by omega,
      show i < 32 by omega]
    omega

/-- The timer after a control word for counter 0, square wave, and a count of two bytes. -/
theorem control_data_data (t : I8254.Timer) (low high : BitVec 8) :
    I8254.Timer.data (I8254.Timer.data (I8254.Timer.control t 0x36) 0 low) 0 high =
      Function.update t 0 (squareWave (high ++ low)) := by
  have hcontrol : I8254.Timer.control t 0x36 = Function.update t 0 (.ofControl 0x36) := rfl
  rw [hcontrol, I8254.Timer.data, I8254.Timer.data]
  simp only [Function.update_self, Function.update_idem]
  rfl

/-- What was in the timer before does not matter, be it the first byte of a count. -/
theorem pitSetFreq_eval (freqHz : BitVec 16) (c : Settings) :
    (pitSetFreq freqHz).eval settingsAct c =
      if freqHz = 0 then some (none, c)
      else some (some (),
        { c with pit := Function.update c.pit 0 (squareWave (countFor freqHz)) }) := by
  unfold pitSetFreq
  split_ifs with hfreq
  · rfl
  · rw [countFor, ← append_divisor, ← control_data_data]
    rfl

theorem toNat_countFor (freqHz : BitVec 16) :
    (countFor freqHz).toNat = 1193180 / freqHz.toNat % 2 ^ 16 := by
  rw [countFor, BitVec.toNat_setWidth, BitVec.toNat_udiv, BitVec.toNat_setWidth]
  have hlt := freqHz.isLt
  rw [Nat.mod_eq_of_lt (show freqHz.toNat < 2 ^ 32 by omega)]
  rfl

/-- A round of the counter lasts the quotient of the clock by the frequency exactly if that fits
into two bytes. -/
theorem period_countFor_iff (hfreq : freqHz ≠ 0) :
    (squareWave (countFor freqHz)).period = some (1193180 / freqHz.toNat) ↔
      19 ≤ freqHz.toNat := by
  have hpos : 0 < freqHz.toNat := by
    rw [Nat.pos_iff_ne_zero]
    exact fun h => hfreq (BitVec.eq_of_toNat_eq h)
  have hcount := toNat_countFor freqHz
  have hlt := (countFor freqHz).isLt
  have hperiod : (squareWave (countFor freqHz)).period =
      some (if countFor freqHz = 0 then 2 ^ 16 else (countFor freqHz).toNat) := rfl
  rw [hperiod, Option.some.injEq]
  constructor
  · intro heq
    by_contra hsmall
    have hquotient : 1193180 / 18 ≤ 1193180 / freqHz.toNat :=
      Nat.div_le_div_left (by omega) hpos
    split_ifs at heq <;> omega
  · intro hlarge
    have hle : 1193180 / freqHz.toNat ≤ 1193180 / 19 := Nat.div_le_div_left hlarge (by decide)
    have hone : 0 < 1193180 / freqHz.toNat := by
      have hlt := freqHz.isLt
      exact Nat.div_pos (by omega) hpos
    rw [Nat.mod_eq_of_lt (by omega)] at hcount
    rw [if_neg fun h => ?_, hcount]
    rw [h] at hcount
    simp at hcount
    omega

/-- **What `pit_set_freq` leaves**, whatever the timer is in the middle of and whatever the lines
do: the controllers and the other counters as they were and, unless the frequency is 0, counter 0
with a square wave, whose round is the quotient of the clock exactly from 19 Hz on. -/
theorem pitSetFreq_programs (h : Runs ports (pitSetFreq freqHz) b r b') :
    (r = none ↔ freqHz = 0) ∧ (∀ i ≠ 0, b'.pit i = b.pit i) ∧
    b'.settings.master = b.settings.master ∧ b'.settings.slave = b.settings.slave ∧
    (freqHz = 0 → b'.pit 0 = b.pit 0) ∧
    (freqHz ≠ 0 → b'.pit 0 = squareWave (countFor freqHz) ∧
      ((b'.pit 0).period = some (1193180 / freqHz.toNat) ↔ 19 ≤ freqHz.toNat)) := by
  have heval := pitSetFreq_eval freqHz b.settings
  by_cases hfreq : freqHz = 0
  · rw [if_pos hfreq] at heval
    obtain ⟨rfl, hsame⟩ := Prod.ext_iff.mp (runs_settings h heval)
    have hpit : b.pit = b'.pit := congrArg Settings.pit hsame
    exact ⟨⟨fun _ => hfreq, fun _ => rfl⟩, fun i _ => (congrFun hpit i).symm,
      (congrArg Settings.master hsame :).symm, (congrArg Settings.slave hsame :).symm,
      fun _ => (congrFun hpit 0).symm, fun hne => absurd hfreq hne⟩
  · rw [if_neg hfreq] at heval
    obtain ⟨rfl, hset⟩ := Prod.ext_iff.mp (runs_settings h heval)
    have hpit : Function.update b.pit 0 (squareWave (countFor freqHz)) = b'.pit :=
      congrArg Settings.pit hset
    have hcounter : b'.pit 0 = squareWave (countFor freqHz) := by
      rw [← hpit, Function.update_self]
    refine ⟨⟨nofun, fun h => absurd h hfreq⟩, fun i hi => ?_,
      (congrArg Settings.master hset :).symm, (congrArg Settings.slave hset :).symm,
      fun h => absurd h hfreq, fun _ => ⟨hcounter, ?_⟩⟩
    · rw [← hpit, Function.update_of_ne hi]
    · rw [hcounter]
      exact period_countFor_iff hfreq

/-- At 100 Hz. -/
theorem pitSetFreq_programs_100 :
    ∃ r b', Runs ports (pitSetFreq 100) idleBoard r b' ∧ (b'.pit 0).period = some 11931 := by
  have hrun : Runs ports (pitSetFreq 100) idleBoard _ _ := runs_of_portsAct rfl
  obtain ⟨-, -, -, -, -, hset⟩ := pitSetFreq_programs hrun
  exact ⟨_, _, hrun, (hset (by decide)).2.mpr (by decide)⟩

/-! ### `pit_init` -/

/-- The mask of the master is read, and written again without the bit of the timer. -/
theorem pitInit_eval (flags : BitVec 8) (c : Settings) :
    (pitInit flags).eval settingsAct c = some (some (), { c with
      master := if flags &&& usingApic = 0 then c.master.data (c.master.imr &&& ~~~1) else c.master
      pit := Function.update c.pit 0 (squareWave 11931) }) := by
  have hfreq : (pitSetFreq 100).eval settingsAct c =
      some (some (), { c with pit := Function.update c.pit 0 (squareWave 11931) }) :=
    pitSetFreq_eval 100 c
  rw [pitInit, Prog.eval_bind, hfreq]
  show (if flags &&& usingApic = 0 then _ else _ : PortM (Option Unit)).eval settingsAct _ = _
  split_ifs <;> rfl

end KessOS
