import KessOS.Interrupt.Irq

/-!
# What the timer interrupt leaves behind

`irq0_handler` returns with `retq`, which takes the pushed `RIP` off the stack and nothing else.
The interrupted code goes on where it was, but its stack pointer is the aligned one less the four
words that stay behind (`irq0_spec`).  That is never the old stack pointer, so no interrupt is
transparent (`irq0_not_transparent`), and over a run the loss adds up (`IrqRun.rsp`).
-/

namespace KessOS

variable {pitTick : Machine → Machine} {handler : BitVec 64} {m m' : Machine}

/-! ### The stack -/

theorem toNat_alignedRsp (m : Machine) :
    m.alignedRsp.toNat = m.rsp.toNat - m.rsp.toNat % 16 := by
  have hmask : ∀ i : Fin 64, (~~~15#64).getLsbD i = decide (4 ≤ i.val) := by decide
  -- Clearing the low four bits is shifting them out and back.
  have hshift : m.alignedRsp = (m.rsp >>> 4) <<< 4 := by
    refine BitVec.eq_of_getLsbD_eq fun i hi => ?_
    rw [Machine.alignedRsp, BitVec.getLsbD_and, hmask ⟨i, hi⟩, BitVec.getLsbD_shiftLeft,
      BitVec.getLsbD_ushiftRight]
    by_cases hlow : i < 4
    · simp [hlow, not_le.mpr hlow]
    · simp [hlow, hi, not_lt.mp hlow]
  have hlt := m.rsp.isLt
  rw [hshift, BitVec.toNat_shiftLeft, BitVec.toNat_ushiftRight, Nat.shiftRight_eq_div_pow,
    Nat.shiftLeft_eq]
  omega

/-- Four words below the aligned stack pointer is not where the stack was. -/
theorem alignedRsp_sub_ne (m : Machine) : m.alignedRsp - 32#64 ≠ m.rsp := by
  intro heq
  have htoNat := congrArg BitVec.toNat heq
  have haligned := toNat_alignedRsp m
  have hlt := m.rsp.isLt
  rw [BitVec.toNat_sub, haligned] at htoNat
  simp only [BitVec.toNat_ofNat, Nat.reducePow, Nat.reduceMod] at htoNat
  omega

@[simp] theorem Machine.push_mem_rsp (m : Machine) (word : BitVec 64) :
    (m.push word).mem (m.rsp - 8#64) = word := Function.update_self ..

theorem Machine.deliver_rsp (m : Machine) (handler : BitVec 64) :
    (m.deliver handler).rsp = m.alignedRsp - 40#64 := by
  show m.alignedRsp - 8#64 - 8#64 - 8#64 - 8#64 - 8#64 = m.alignedRsp - 40#64
  bv_omega

/-- The last word pushed is `RIP`. -/
theorem Machine.deliver_mem_rsp (m : Machine) (handler : BitVec 64) :
    (m.deliver handler).mem (m.deliver handler).rsp = m.rip := Function.update_self ..

/-- The stack of the handler is one word off alignment, so that the return address of its call
lies below without wrapping around. -/
theorem Machine.deliver_rsp_pred (m : Machine) (handler : BitVec 64) :
    ((m.deliver handler).rsp - 8#64).toNat < (m.deliver handler).rsp.toNat := by
  have haligned := toNat_alignedRsp m
  rw [deliver_rsp]
  bv_omega

/-! ### The handler -/

/-- The instruction that `RIP` points to is executed. -/
theorem runUntilRet_of_fetch {code : List Instr} {base : BitVec 64} (fuel : ℕ) {off : ℕ}
    {i : Instr} (hrip : m.rip = base + BitVec.ofNat 64 off) (hoff : off < 2 ^ 64)
    (hfetch : fetch code off = some i) :
    runUntilRet code base (fuel + 1) m =
      if i.isRet then some (i.exec m) else runUntilRet code base fuel (i.exec m) := by
  have hdiff : (m.rip - base).toNat = off := by
    rw [hrip, BitVec.add_comm, BitVec.add_sub_cancel, BitVec.toNat_ofNat, Nat.mod_eq_of_lt hoff]
  rw [runUntilRet, hdiff, hfetch]
  rfl

theorem interruptible_sti (m : Machine) : (Instr.sti.act m).Interruptible := by
  have hset : (m.rflags ||| interruptFlag) &&& interruptFlag = interruptFlag := by
    refine BitVec.eq_of_getLsbD_eq fun i _ => ?_
    rw [BitVec.getLsbD_and, BitVec.getLsbD_or]
    cases interruptFlag.getLsbD i <;> simp
  show (m.rflags ||| interruptFlag) &&& interruptFlag ≠ 0
  rw [hset]
  decide

/-- The machine behind the handler's `call pit_tick`. -/
def afterTick (pitTick : Machine → Machine) (handler : BitVec 64) (m : Machine) : Machine :=
  (Instr.call pitTick).exec (Instr.cli.exec (m.deliver handler))

/-- The machine behind the handler's `retq`. -/
def afterIrq0 (pitTick : Machine → Machine) (handler : BitVec 64) (m : Machine) : Machine :=
  Instr.retq.exec (Instr.sti.exec ((Instr.outAl 0x20).exec ((Instr.movAl 0x20).exec
    (afterTick pitTick handler m))))

namespace PitTick

variable (hpit : PitTick pitTick) (handler : BitVec 64) (m : Machine)

include hpit

theorem afterTick_rip : (afterTick pitTick handler m).rip = handler + 6#64 := by
  have hpush := Machine.push_mem_rsp (m.deliver handler) (handler + 1#64 + 5#64)
  show (pitTick _).rip = _
  rw [hpit.rip]
  refine hpush.trans ?_
  bv_omega

theorem afterTick_rsp : (afterTick pitTick handler m).rsp = (m.deliver handler).rsp := by
  show (pitTick _).rsp = _
  rw [hpit.rsp]
  exact BitVec.sub_add_cancel ..

/-- The words that the interrupt pushed are still there when `pit_tick` is back. -/
theorem afterTick_mem {a : BitVec 64} (ha : (m.deliver handler).rsp.toNat ≤ a.toNat) :
    (afterTick pitTick handler m).mem a = (m.deliver handler).mem a := by
  have hpred := m.deliver_rsp_pred handler
  show (pitTick _).mem a = _
  rw [hpit.mem _ _ (hpred.trans_le ha)]
  refine Function.update_of_ne ?_ ..
  rintro rfl
  exact absurd ha (not_le.mpr hpred)

/-- The handler runs from its first instruction to its `retq`. -/
theorem irq0_eq : irq0 pitTick handler m = some (afterIrq0 pitTick handler m) := by
  -- Where `RIP` is before each of the six instructions.
  have hcli : (m.deliver handler).rip = handler + BitVec.ofNat 64 0 := (BitVec.add_zero _).symm
  have hcall : (Instr.cli.exec (m.deliver handler)).rip = handler + BitVec.ofNat 64 1 := rfl
  have hmov : (afterTick pitTick handler m).rip = handler + BitVec.ofNat 64 6 :=
    hpit.afterTick_rip handler m
  have hout : ((Instr.movAl 0x20).exec (afterTick pitTick handler m)).rip =
      handler + BitVec.ofNat 64 8 := by
    refine (congrArg (· + 2#64) hmov).trans ?_
    bv_omega
  have hsti : ((Instr.outAl 0x20).exec ((Instr.movAl 0x20).exec
      (afterTick pitTick handler m))).rip = handler + BitVec.ofNat 64 10 := by
    refine (congrArg (· + 2#64) hout).trans ?_
    bv_omega
  have hret : (Instr.sti.exec ((Instr.outAl 0x20).exec ((Instr.movAl 0x20).exec
      (afterTick pitTick handler m)))).rip = handler + BitVec.ofNat 64 11 := by
    refine (congrArg (· + 1#64) hsti).trans ?_
    bv_omega
  have hfuel : irq0 pitTick handler m =
      runUntilRet (irq0Handler pitTick) handler 6 (m.deliver handler) := rfl
  calc irq0 pitTick handler m
      = runUntilRet (irq0Handler pitTick) handler 5 (Instr.cli.exec (m.deliver handler)) :=
        hfuel.trans (runUntilRet_of_fetch (i := .cli) 5 hcli (by decide) rfl)
    _ = runUntilRet (irq0Handler pitTick) handler 4 (afterTick pitTick handler m) :=
        runUntilRet_of_fetch (i := .call pitTick) 4 hcall (by decide) rfl
    _ = runUntilRet (irq0Handler pitTick) handler 3
          ((Instr.movAl 0x20).exec (afterTick pitTick handler m)) :=
        runUntilRet_of_fetch (i := .movAl 0x20) 3 hmov (by decide) rfl
    _ = runUntilRet (irq0Handler pitTick) handler 2
          ((Instr.outAl 0x20).exec ((Instr.movAl 0x20).exec (afterTick pitTick handler m))) :=
        runUntilRet_of_fetch (i := .outAl 0x20) 2 hout (by decide) rfl
    _ = runUntilRet (irq0Handler pitTick) handler 1 (Instr.sti.exec
          ((Instr.outAl 0x20).exec ((Instr.movAl 0x20).exec (afterTick pitTick handler m)))) :=
        runUntilRet_of_fetch (i := .sti) 1 hsti (by decide) rfl
    _ = some (afterIrq0 pitTick handler m) :=
        runUntilRet_of_fetch (i := .retq) 0 hret (by decide) rfl

/-- What the interrupted code finds: it goes on where it was, with the flag `IF` set, four words
further down the stack. -/
theorem irq0_spec :
    ∃ m', irq0 pitTick handler m = some m' ∧
      m'.rip = m.rip ∧ m'.rsp = m.alignedRsp - 32#64 ∧ m'.cs = gateCs ∧ m'.ss = m.ss ∧
      m'.ticks = m.ticks + 1 ∧ m'.Interruptible ∧ ∀ r ∈ calleeSaved, m'.regs r = m.regs r := by
  have hrsp := hpit.afterTick_rsp handler m
  refine ⟨_, hpit.irq0_eq handler m, ?_, ?_, ?_, ?_, ?_, ?_, fun r hr => ?_⟩
  · show (afterTick pitTick handler m).mem (afterTick pitTick handler m).rsp = _
    rw [hrsp, hpit.afterTick_mem handler m le_rfl, m.deliver_mem_rsp]
  · show (afterTick pitTick handler m).rsp + 8#64 = _
    rw [hrsp, m.deliver_rsp]
    bv_omega
  · exact hpit.cs _
  · exact hpit.ss _
  · exact hpit.ticks _
  · exact interruptible_sti _
  · have hne : r ≠ .rax := by
      rintro rfl
      exact absurd hr (by decide)
    exact (Function.update_of_ne hne ..).trans (hpit.regs _ r hr)

end PitTick

/-- No timer interrupt is transparent: the stack pointer is another. -/
theorem PitTick.not_transparent (hpit : PitTick pitTick) (h : irq0 pitTick handler m = some m') :
    ¬ Transparent m m' := by
  obtain ⟨m₁, hirq, -, hrsp, -⟩ := hpit.irq0_spec handler m
  rw [h] at hirq
  cases hirq
  intro htrans
  exact alignedRsp_sub_ne m (hrsp.symm.trans htrans.rsp)

/-! ### Runs -/

/-- Every interrupt of a run is one that the handler came back from. -/
theorem IrqRun.irq_of_mem {code : Machine → Machine → Prop} {irqs : List (Machine × Machine)}
    (h : IrqRun code pitTick handler m irqs m') {d : Machine × Machine} (hd : d ∈ irqs) :
    irq0 pitTick handler d.1 = some d.2 := by
  induction h with
  | refl => exact absurd hd List.not_mem_nil
  | code _ _ ih => exact ih hd
  | irq _ _ hirq ih =>
    rcases List.mem_append.mp hd with hmem | hmem
    · exact ih hmem
    · rw [List.mem_singleton.mp hmem]
      exact hirq

/-- The stack pointer that is left after `n` interrupts. -/
def rspAfter (m : Machine) : ℕ → BitVec 64
  | 0 => m.rsp
  | n + 1 => m.alignedRsp - BitVec.ofNat 64 (32 * (n + 1))

/-- One more interrupt takes 32 bytes more. -/
theorem alignedRsp_sub_rspAfter {n : ℕ} (h : m'.rsp = rspAfter m n) :
    m'.alignedRsp - 32#64 = rspAfter m (n + 1) := by
  -- The first interrupt aligns the stack; from then on it stays aligned.
  cases n with
  | zero =>
    have haligned : m'.alignedRsp = m.alignedRsp := congrArg (· &&& ~~~15#64) h
    rw [haligned]
    rfl
  | succ n =>
    have hm := toNat_alignedRsp m
    have hm' := toNat_alignedRsp m'
    have haligned : m'.alignedRsp = m'.rsp := by
      refine BitVec.eq_of_toNat_eq ?_
      rw [hm', h, rspAfter, BitVec.toNat_sub, BitVec.toNat_ofNat, hm]
      omega
    rw [haligned, h, rspAfter, rspAfter, BitVec.sub_sub, ← BitVec.ofNat_add,
      Nat.mul_succ 32 (n + 1)]

/-- The stack of code that leaves its stack pointer alone, such as the loop around `hlt`, shrinks
by 32 bytes with every interrupt. -/
theorem IrqRun.rsp (hpit : PitTick pitTick) {code : Machine → Machine → Prop}
    (hcode : ∀ m₁ m₂, code m₁ m₂ → m₂.rsp = m₁.rsp) {irqs : List (Machine × Machine)}
    (h : IrqRun code pitTick handler m irqs m') : m'.rsp = rspAfter m irqs.length := by
  induction h with
  | refl => rfl
  | code _ hstep ih => rw [hcode _ _ hstep, ih]
  | @irq m₁ m₂ irqs _ _ hirq ih =>
    obtain ⟨_, hspec, -, hrsp, -⟩ := hpit.irq0_spec handler m₁
    rw [hirq] at hspec
    cases hspec
    rw [hrsp, List.length_append, List.length_singleton]
    exact alignedRsp_sub_rspAfter ih

/-- The counter moves by one with every interrupt, when the code does not move it. -/
theorem IrqRun.ticks (hpit : PitTick pitTick) {code : Machine → Machine → Prop}
    (hcode : ∀ m₁ m₂, code m₁ m₂ → m₂.ticks = m₁.ticks) {irqs : List (Machine × Machine)}
    (h : IrqRun code pitTick handler m irqs m') :
    m'.ticks = m.ticks + BitVec.ofNat 16 irqs.length := by
  induction h with
  | refl => simp
  | code _ hstep ih => rw [hcode _ _ hstep, ih]
  | @irq m₁ m₂ irqs _ _ hirq ih =>
    obtain ⟨_, hspec, -, -, -, -, hticks, -⟩ := hpit.irq0_spec handler m₁
    rw [hirq] at hspec
    cases hspec
    rw [hticks, ih, List.length_append, List.length_singleton, BitVec.ofNat_add, BitVec.add_assoc]
    rfl

/-- A timer interrupt is never transparent: from every machine that accepts it the handler comes
back, and the code does not go on as before; so a run is undisturbed exactly when there is no
interrupt in it. -/
theorem irq0_not_transparent (hpit : PitTick pitTick) (handler : BitVec 64) :
    (∀ m : Machine, m.Interruptible →
      ∃ m', irq0 pitTick handler m = some m' ∧ ¬ Transparent m m') ∧
    ∀ (code : Machine → Machine → Prop) (m m' : Machine) (irqs : List (Machine × Machine)),
      IrqRun code pitTick handler m irqs m' →
      ((∀ d ∈ irqs, Transparent d.1 d.2) ↔ irqs = []) := by
  refine ⟨fun m _ => ⟨_, hpit.irq0_eq handler m, ?_⟩, fun code m m' irqs hrun => ⟨?_, ?_⟩⟩
  · exact hpit.not_transparent (hpit.irq0_eq handler m)
  · intro htrans
    refine List.eq_nil_iff_forall_not_mem.mpr fun d hd => ?_
    exact hpit.not_transparent (hrun.irq_of_mem hd) (htrans d hd)
  · rintro rfl d hd
    exact absurd hd List.not_mem_nil

/-! ### One interrupt -/

/-- `inc word [ticks]` and `ret`. -/
def incTicks (m : Machine) : Machine :=
  { m with rip := m.mem m.rsp, rsp := m.rsp + 8#64, ticks := m.ticks + 1 }

theorem pitTick_incTicks : PitTick incTicks := by
  constructor <;> intros <;> rfl

/-- A machine in the loop around `hlt`, with an aligned stack. -/
def idleMachine : Machine where
  regs := fun _ => 0
  rsp := 0x8000
  rip := 0x101000
  cs := 0x08
  ss := 0x10
  rflags := 0x202
  mem := fun _ => 0
  ticks := 0
  outputs := []

/-- The first interrupt of an idle machine, and a run with two of them. -/
theorem irq0_not_transparent_idle :
    (∃ m', irq0 incTicks 0x102000 idleMachine = some m' ∧ ¬ Transparent idleMachine m') ∧
    ∀ (m' : Machine) (irqs : List (Machine × Machine)),
      IrqRun (fun _ _ => False) incTicks 0x102000 idleMachine irqs m' → irqs ≠ [] →
      ¬ ∀ d ∈ irqs, Transparent d.1 d.2 := by
  obtain ⟨hone, hruns⟩ := irq0_not_transparent pitTick_incTicks 0x102000
  refine ⟨hone idleMachine (by decide), fun m' irqs hrun hne htrans => ?_⟩
  exact hne ((hruns _ _ _ _ hrun).mp htrans)

/-- The idle machine's stack pointer is 32 bytes down after one interrupt. -/
theorem irq0_moves_rsp_idle :
    PitTick incTicks ∧ idleMachine.Interruptible ∧
    ∃ m', irq0 incTicks 0x102000 idleMachine = some m' ∧ m'.rsp = 0x7FE0 ∧
      ¬ Transparent idleMachine m' := by
  refine ⟨pitTick_incTicks, by decide, _, pitTick_incTicks.irq0_eq _ _, by decide, ?_⟩
  exact pitTick_incTicks.not_transparent (pitTick_incTicks.irq0_eq _ _)

end KessOS
