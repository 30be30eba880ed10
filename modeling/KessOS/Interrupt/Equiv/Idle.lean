import KessOS.Interrupt.Equiv.Atomic

/-!
# What the timer does to the stack of an idle kernel

`irq0_handler` leaves four of the words behind that the interrupt pushed.  In the loop at the end
of `_start` nothing takes them away again, so the stack grows by 32 bytes with every interrupt,
over whatever lies below it (`idle_overwrites`).
-/

namespace KessOS

open Interaction I8259

variable {pitTick : Machine → Machine} {handler : BitVec 64} {m m' : Machine}
  {irqs : List (Machine × Machine)}

/-! ### One interrupt -/

/-- The words that are pushed, from the top down. -/
theorem Machine.deliver_mem (m : Machine) (handler : BitVec 64) :
    (m.deliver handler).mem (m.alignedRsp - 8#64) = m.ss.setWidth 64 ∧
      (m.deliver handler).mem (m.alignedRsp - 16#64) = m.rsp ∧
      (m.deliver handler).mem (m.alignedRsp - 24#64) = m.rflags ∧
      (m.deliver handler).mem (m.alignedRsp - 32#64) = m.cs.setWidth 64 := by
  have hne : ∀ i j : BitVec 64, i ≠ j → m.alignedRsp - i ≠ m.alignedRsp - j := by
    intro i j hij heq
    exact hij (by bv_omega)
  simp only [Machine.deliver, Machine.push, BitVec.sub_sub]
  simp [hne]

/-- What is above the aligned stack pointer is left alone. -/
theorem Machine.deliver_mem_above (m : Machine) (handler : BitVec 64) {w : BitVec 64}
    (hroom : 40 ≤ m.alignedRsp.toNat) (hw : m.alignedRsp.toNat ≤ w.toNat) :
    (m.deliver handler).mem w = m.mem w := by
  have hne : ∀ i : BitVec 64, 0 < i.toNat → i.toNat ≤ 40 → w ≠ m.alignedRsp - i := by
    rintro i hi hle rfl
    rw [BitVec.toNat_sub_of_le (hle.trans hroom)] at hw
    omega
  simp only [Machine.deliver, Machine.push, BitVec.sub_sub]
  simp [hne]

/-- The handler leaves the frame as it is, and what is above it. -/
theorem PitTick.afterIrq0_mem (hpit : PitTick pitTick) (handler : BitVec 64) (m : Machine)
    {w : BitVec 64} (hw : (m.deliver handler).rsp.toNat ≤ w.toNat) :
    (afterIrq0 pitTick handler m).mem w = (m.deliver handler).mem w :=
  hpit.afterTick_mem handler m hw

/-- Of the interrupt after `i` others in a run from `m`, all that was pushed is still there but for
`RIP`. -/
structure Left (m : Machine) (mem : BitVec 64 → BitVec 64) (i : ℕ) : Prop where
  ss : mem (m.alignedRsp - BitVec.ofNat 64 (32 * i + 8)) = m.ss.setWidth 64
  rsp : mem (m.alignedRsp - BitVec.ofNat 64 (32 * i + 16)) = rspAfter m i
  rflags : mem (m.alignedRsp - BitVec.ofNat 64 (32 * i + 24)) &&& interruptFlag ≠ 0
  cs : mem (m.alignedRsp - BitVec.ofNat 64 (32 * i + 32)) =
    (if i = 0 then m.cs else gateCs).setWidth 64

/-- Memory may change below the frame. -/
theorem Left.congr {mem mem' : BitVec 64 → BitVec 64} {i : ℕ} (h : Left m mem i)
    (hroom : 32 * i + 32 ≤ m.alignedRsp.toNat)
    (hmem : ∀ w : BitVec 64, m.alignedRsp.toNat - (32 * i + 32) ≤ w.toNat → mem' w = mem w) :
    Left m mem' i := by
  have habove : ∀ d ≤ 32, mem' (m.alignedRsp - BitVec.ofNat 64 (32 * i + d)) =
      mem (m.alignedRsp - BitVec.ofNat 64 (32 * i + d)) := by
    intro d hd
    refine hmem _ ?_
    bv_omega
  refine ⟨?_, ?_, ?_, ?_⟩
  · rw [habove 8 (by decide), h.ss]
  · rw [habove 16 (by decide), h.rsp]
  · rw [habove 24 (by decide)]
    exact h.rflags
  · rw [habove 32 (by decide), h.cs]

/-! ### Runs -/

/-- A machine of the loop after `n` interrupts. -/
structure Idled (m m' : Machine) (n : ℕ) : Prop where
  rsp : m'.rsp = rspAfter m n
  ss : m'.ss = m.ss
  cs : m'.cs = if n = 0 then m.cs else gateCs
  left : ∀ i < n, Left m m'.mem i
  above : ∀ w : BitVec 64, m.alignedRsp.toNat ≤ w.toNat → m'.mem w = m.mem w

theorem Idled.refl (m : Machine) : Idled m m 0 :=
  ⟨rfl, rfl, rfl, fun _ hi => absurd hi (Nat.not_lt_zero _), fun _ _ => rfl⟩

theorem Idled.idle {n : ℕ} (h : Idled m m' n) (rip : BitVec 64) :
    Idled m { m' with rip := rip } n :=
  ⟨h.rsp, h.ss, h.cs, h.left, h.above⟩

/-- The stack is aligned from the first interrupt on. -/
theorem Idled.alignedRsp {n : ℕ} (h : Idled m m' n) :
    m'.alignedRsp = m.alignedRsp - BitVec.ofNat 64 (32 * n) := by
  have hnext : m'.alignedRsp - 32#64 = m.alignedRsp - BitVec.ofNat 64 (32 * (n + 1)) :=
    alignedRsp_sub_rspAfter h.rsp
  bv_omega

/-- One more interrupt leaves one more frame. -/
theorem Idled.irq {n : ℕ} (h : Idled m m' n) (hpit : PitTick pitTick) (handler : BitVec 64)
    (hopen : m'.Interruptible) (hroom : 32 * (n + 1) + 16 ≤ m.alignedRsp.toNat) :
    Idled m (afterIrq0 pitTick handler m') (n + 1) := by
  obtain ⟨m₁, hirq, -, hrsp, hcs, hss, -⟩ := hpit.irq0_spec handler m'
  rw [hpit.irq0_eq, Option.some.injEq] at hirq
  subst hirq
  have haligned := h.alignedRsp
  have hdeliver := m'.deliver_rsp handler
  obtain ⟨hss', hrsp', hrflags', hcs'⟩ := m'.deliver_mem handler
  have hframe : ∀ d ≤ 40, (afterIrq0 pitTick handler m').mem
      (m.alignedRsp - BitVec.ofNat 64 (32 * n + d)) =
        (m'.deliver handler).mem (m'.alignedRsp - BitVec.ofNat 64 d) := by
    intro d hd
    rw [hpit.afterIrq0_mem handler m' (by bv_omega), haligned, BitVec.sub_sub, ← BitVec.ofNat_add]
  have habove : ∀ w : BitVec 64, m.alignedRsp.toNat - 32 * n ≤ w.toNat →
      (afterIrq0 pitTick handler m').mem w = m'.mem w := by
    intro w hw
    rw [hpit.afterIrq0_mem handler m' (by bv_omega)]
    exact m'.deliver_mem_above handler (by bv_omega) (by bv_omega)
  refine ⟨?_, hss.trans h.ss, ?_, fun i hi => ?_, fun w hw => ?_⟩
  · rw [hrsp]
    exact alignedRsp_sub_rspAfter h.rsp
  · rw [hcs, if_neg (Nat.succ_ne_zero n)]
  · rcases Nat.lt_succ_iff_lt_or_eq.mp hi with hlt | rfl
    · exact (h.left i hlt).congr (by omega) fun w hw => habove w (by omega)
    · refine ⟨?_, ?_, ?_, ?_⟩
      · rw [hframe 8 (by decide), ← h.ss]
        exact hss'
      · rw [hframe 16 (by decide), ← h.rsp]
        exact hrsp'
      · rw [hframe 24 (by decide)]
        exact hrflags'.symm ▸ hopen
      · rw [hframe 32 (by decide), ← h.cs]
        exact hcs'
  · rw [habove w (by omega), h.above w hw]

theorem IrqRun.idled (hpit : PitTick pitTick) (h : IrqRun idle pitTick handler m irqs m')
    (hroom : 32 * irqs.length + 16 ≤ m.alignedRsp.toNat) : Idled m m' irqs.length := by
  induction h with
  | refl => exact .refl m
  | code _ hstep ih =>
    obtain ⟨rip, rfl⟩ := hstep
    exact (ih hroom).idle rip
  | irq _ hopen hirq ih =>
    rw [List.length_append, List.length_singleton] at hroom ⊢
    rw [hpit.irq0_eq, Option.some.injEq] at hirq
    subst hirq
    exact (ih (by omega)).irq hpit handler hopen hroom

/-- Interrupts may come one after the other. -/
theorem exists_irqRun_idle (hpit : PitTick pitTick) (handler : BitVec 64)
    (hopen : m.Interruptible) (n : ℕ) :
    ∃ irqs m', IrqRun idle pitTick handler m irqs m' ∧ irqs.length = n ∧ m'.Interruptible := by
  induction n with
  | zero => exact ⟨[], m, .refl m, rfl, hopen⟩
  | succ n ih =>
    obtain ⟨irqs, m', hirqs, hlength, hopen'⟩ := ih
    obtain ⟨m'', hirq, -, -, -, -, -, hopen'', -⟩ := hpit.irq0_spec handler m'
    refine ⟨_, m'', .irq hirqs hopen' hirq, ?_, hopen''⟩
    rw [List.length_append, hlength, List.length_singleton]

/-- **The stack of the idle kernel grows until there is no room.**  In every order of the loop's
instructions, lines and interrupts, the `n` interrupts that were taken have moved the stack pointer
down by 32 bytes each, counted from where it is aligned, and left `n` frames behind, one below the
other, over what was there before; and every `n` is reached. -/
theorem idle_overwrites {b b₀ : Board} {flags : BitVec 8} {r : Option Unit} {cpu : Cpu}
    (hpit : PitTick pitTick) (hout : ∀ m, (pitTick m).outputs = m.outputs)
    (hflags : flags &&& usingApic = 0)
    (hinit : Runs ports (initPic >>= fun _ => pitInit flags) b r b₀)
    (hgdtr : cpu.gdtr = gdtPointer) (hopen : cpu.Interruptible) (isr : Handler → BitVec 64)
    (idt : BitVec 64) :
    (∀ s, Relation.ReflTransGen (TimerSystem.Step idle pitTick isr idt)
        ⟨cpu, b₀, .code, ⟨0, 0, 0⟩⟩ s → s.phase = .code →
      32 * s.tally.taken + 16 ≤ cpu.alignedRsp.toNat →
      Idled cpu.toMachine s.cpu.toMachine s.tally.taken) ∧
    ∀ n, ∃ s, Relation.ReflTransGen (TimerSystem.Step idle pitTick isr idt)
        ⟨cpu, b₀, .code, ⟨0, 0, 0⟩⟩ s ∧ s.phase = .code ∧ s.tally.taken = n := by
  constructor
  · intro s hrun hphase hroom
    obtain ⟨irqs, hirqs, hlength⟩ :=
      exists_irqRun hpit hout idle_quiet hflags hinit hgdtr hrun hphase
    rw [← hlength] at hroom ⊢
    exact hirqs.idled hpit hroom
  · intro n
    obtain ⟨irqs, m', hirqs, rfl, -⟩ := exists_irqRun_idle hpit (isr .irq0Handler) hopen n
    obtain ⟨s, hrun, hphase, -, htaken⟩ :=
      exists_run hpit hout idle_quiet hflags hinit hgdtr idt hirqs
    exact ⟨s, hrun, hphase, htaken⟩

/-- After 1000 interrupts the stack is 32,000 bytes down. -/
theorem idle_overwrites_thousand :
    ∃ s, Relation.ReflTransGen
        (TimerSystem.Step idle incTicks (fun _ => 0x102000) 0x103000) idleSystem s ∧
      s.tally.taken = 1000 ∧ s.cpu.rsp = 0x300 ∧ s.cpu.mem 0x310 = 0x320 := by
  have hinit : Runs ports (initPic >>= fun _ => pitInit 0) idleBoard (some ()) idleSystem.board :=
    runs_of_portsAct rfl
  have hgdtr : kernelCpu.gdtr = gdtPointer := rfl
  obtain ⟨hruns, hreached⟩ := idle_overwrites pitTick_incTicks (fun _ => rfl) rfl hinit hgdtr
    (by decide) (fun _ => 0x102000) 0x103000
  obtain ⟨s, hrun, hphase, htaken⟩ := hreached 1000
  have hidled := hruns s hrun hphase (by rw [htaken]; decide)
  rw [htaken] at hidled
  have hrsp := hidled.rsp
  have hleft := (hidled.left 999 (by decide)).rsp
  exact ⟨s, hrun, htaken, hrsp, hleft⟩

end KessOS
