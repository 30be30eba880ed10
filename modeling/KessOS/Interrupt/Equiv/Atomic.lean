import KessOS.Interrupt.Equiv.Timer

/-!
# Interrupts as single steps

The runs of the processor with the timer, instruction by instruction and with lines that change at
any time, are the runs in which an interrupt is one step, as far as the kernel's code can tell
(`timerSystem_irqRun_iff`).
-/

namespace KessOS

open Interaction I8259

variable {code : Machine → Machine → Prop} {pitTick : Machine → Machine}
  {isr : Handler → BitVec 64} {idt : BitVec 64} {handler : BitVec 64} {m₀ : Machine}
  {ticks : BitVec 16} {start : ℕ}

namespace TimerSystem

variable {s s' : TimerSystem}

/-! ### From instructions to interrupts -/

/-- The interrupts so far, where the one whose handler is in progress does not count yet. -/
inductive Whole (code : Machine → Machine → Prop) (pitTick : Machine → Machine)
    (handler : BitVec 64) (m₀ : Machine) (s : TimerSystem) : Phase → Prop
  | code (irqs : List (Machine × Machine)) :
      IrqRun code pitTick handler m₀ irqs s.cpu.toMachine → irqs.length = s.tally.taken →
      Whole code pitTick handler m₀ s .code
  | asked (irqs : List (Machine × Machine)) :
      IrqRun code pitTick handler m₀ irqs s.cpu.toMachine → irqs.length = s.tally.taken →
      s.cpu.Interruptible → Whole code pitTick handler m₀ s .asked
  | handler (irqs : List (Machine × Machine)) (m : Machine) (k : ℕ) :
      IrqRun code pitTick handler m₀ irqs m → irqs.length + 1 = s.tally.taken →
      m.Interruptible → k < 6 → s.cpu.toMachine = irq0Trace pitTick handler m k →
      Whole code pitTick handler m₀ s (.handler 0x20)
  | exception (vec : BitVec 8) : Whole code pitTick handler m₀ s (.exception vec)

/-- The phase does not depend on the lines. -/
theorem Whole.setLine (h : s.Whole code pitTick handler m₀ s.phase) (irq : Fin 16) (high : Bool) :
    (s.setLine irq high).Whole code pitTick handler m₀ (s.setLine irq high).phase := by
  have htaken : (s.setLine irq high).tally.taken = s.tally.taken := by
    simp only [TimerSystem.setLine]
    split_ifs <;> rfl
  show Whole _ _ _ _ _ s.phase
  generalize s.phase = phase at h
  cases h with
  | code irqs hrun hlength => exact .code irqs hrun (hlength.trans htaken.symm)
  | asked irqs hrun hlength hopen => exact .asked irqs hrun (hlength.trans htaken.symm) hopen
  | handler irqs m k hrun hlength hopen hk hcpu =>
    exact .handler irqs m k hrun (hlength.trans htaken.symm) hopen hk hcpu
  | exception vec => exact .exception vec

theorem Whole.take (hinv : s.Inv pitTick (isr .irq0Handler) ticks start)
    (h : s.Whole code pitTick (isr .irq0Handler) m₀ s.phase) {t : Taken}
    (hphase : s.phase = .asked) (ht : s.board.pics.taken = some t) :
    (s.take isr idt t).Whole code pitTick (isr .irq0Handler) m₀ (s.take isr idt t).phase := by
  obtain ⟨hgdtr, -, -, hprogress⟩ := hinv
  rw [hphase] at h hprogress
  cases hprogress with
  | asked hmasked =>
    cases h with
    | asked irqs hrun hlength hopen =>
      rw [hmasked.timerOnly.taken_eq, Option.some.injEq] at ht
      split_ifs at ht with hedge
      · subst ht
        obtain ⟨hmachine, hhandler⟩ := take_request isr idt hgdtr hmasked
        rw [hhandler]
        refine .handler irqs s.cpu.toMachine 0 hrun ?_ hopen (by decide) ?_
        · rw [hlength]
          rfl
        · rw [hmachine]
          rfl
      · subst ht
        rw [(take_spurious isr idt hgdtr hmasked).2]
        exact .exception 0x27

/-- The handler's `retq` ends the interrupt. -/
theorem Whole.exec (hpit : PitTick pitTick) (h : s.Whole code pitTick handler m₀ s.phase)
    {i : Instr} (hphase : s.phase = .handler 0x20)
    (hfetch : fetch (irq0Handler pitTick) (s.cpu.rip - handler).toNat = some i) (b : Board) :
    { s with
      cpu := { s.cpu with toMachine := i.exec s.cpu.toMachine }
      board := b
      phase := if i.isRet then .code else s.phase : TimerSystem }.Whole code pitTick handler m₀
        (if i.isRet then .code else s.phase) := by
  rw [hphase] at h ⊢
  cases h with
  | handler irqs m k hrun hlength hopen hk hcpu =>
    rw [hcpu, hpit.irq0Trace_fetch handler m hk] at hfetch
    have hnext : i.exec s.cpu.toMachine = irq0Trace pitTick handler m (k + 1) := by
      rw [hcpu, irq0Trace_succ m hfetch]
    rw [isRet_irq0Handler hfetch hk]
    by_cases hlast : k = 5
    · subst hlast
      rw [if_pos (by decide)]
      refine .code (irqs ++ [(m, afterIrq0 pitTick handler m)]) ?_ ?_
      · show IrqRun _ _ _ _ _ (i.exec s.cpu.toMachine)
        rw [hnext]
        exact .irq hrun hopen (hpit.irq0_eq handler m)
      · rw [List.length_append, List.length_singleton]
        exact hlength
    · rw [if_neg (by simpa using hlast)]
      exact .handler irqs m (k + 1) hrun hlength hopen (by omega) hnext

theorem Whole.step (hpit : PitTick pitTick)
    (hinv : s.Inv pitTick (isr .irq0Handler) ticks start)
    (h : s.Whole code pitTick (isr .irq0Handler) m₀ s.phase)
    (hstep : Step code pitTick isr idt s s') :
    s'.Whole code pitTick (isr .irq0Handler) m₀ s'.phase := by
  cases hstep with
  | line irq high => exact h.setLine irq high
  | code m hphase hm =>
    show Whole _ _ _ _ _ s.phase
    rw [hphase] at h ⊢
    cases h with
    | code irqs hrun hlength => exact .code irqs (hrun.code hm) hlength
  | ask hphase hopen =>
    rw [hphase] at h
    cases h with
    | code irqs hrun hlength => exact .asked irqs hrun hlength hopen
  | take t hphase ht => exact h.take hinv hphase ht
  | exec i hphase hfetch => exact h.exec hpit hphase hfetch _

theorem Whole.run (hpit : PitTick pitTick) (hout : ∀ m, (pitTick m).outputs = m.outputs)
    (hcode : ∀ m m', code m m' → m'.ticks = m.ticks ∧ m'.outputs = m.outputs)
    (hinv : s.Inv pitTick (isr .irq0Handler) ticks start)
    (h : s.Whole code pitTick (isr .irq0Handler) m₀ s.phase)
    (hrun : Relation.ReflTransGen (Step code pitTick isr idt) s s') :
    s'.Whole code pitTick (isr .irq0Handler) m₀ s'.phase := by
  induction hrun with
  | refl => exact h
  | tail hrun hstep ih => exact ih.step hpit (hinv.run hpit hout hcode hrun) hstep

/-! ### From interrupts to instructions -/

/-- The next instruction of the handler can be executed. -/
theorem handler_step (code : Machine → Machine → Prop) (hpit : PitTick pitTick) (idt : BitVec 64)
    {m : Machine} {k : ℕ} (hk : k < 6) (hphase : s.phase = .handler 0x20)
    (hcpu : s.cpu.toMachine = irq0Trace pitTick (isr .irq0Handler) m k) :
    ∃ s', Step code pitTick isr idt s s' ∧
      s'.phase = (if k = 5 then .code else .handler 0x20) ∧
      s'.cpu.toMachine = irq0Trace pitTick (isr .irq0Handler) m (k + 1) ∧ s'.tally = s.tally := by
  have hlength : (irq0Handler pitTick).length = 6 := rfl
  obtain ⟨i, hi⟩ : ∃ i, (irq0Handler pitTick)[k]? = some i :=
    ⟨_, List.getElem?_eq_getElem (hlength.symm ▸ hk)⟩
  have hfetch : fetch (irq0Handler pitTick) (s.cpu.rip - isr .irq0Handler).toNat = some i := by
    rw [hcpu, hpit.irq0Trace_fetch _ m hk, hi]
  refine ⟨_, .exec s i hphase hfetch, ?_, ?_, rfl⟩
  · show (if i.isRet then Phase.code else s.phase) = _
    rw [isRet_irq0Handler hi hk, hphase]
    simp only [decide_eq_true_eq]
  · rw [irq0Trace_succ m hi, ← hcpu]

/-- The handler comes to its `retq`. -/
theorem handler_returns (code : Machine → Machine → Prop) (hpit : PitTick pitTick)
    (idt : BitVec 64) {m : Machine} {k n : ℕ} (hk : k + n = 5) (hphase : s.phase = .handler 0x20)
    (hcpu : s.cpu.toMachine = irq0Trace pitTick (isr .irq0Handler) m k) :
    ∃ s', Relation.ReflTransGen (Step code pitTick isr idt) s s' ∧ s'.phase = .code ∧
      s'.cpu.toMachine = afterIrq0 pitTick (isr .irq0Handler) m ∧ s'.tally = s.tally := by
  obtain ⟨s₁, hstep, hphase₁, hcpu₁, htally₁⟩ :=
    handler_step code hpit idt (by omega) hphase hcpu
  induction n generalizing s s₁ k with
  | zero =>
    obtain rfl : k = 5 := hk
    exact ⟨s₁, .single hstep, hphase₁, hcpu₁, htally₁⟩
  | succ n ih =>
    rw [if_neg (by omega)] at hphase₁
    obtain ⟨s₂, hstep₂, hphase₂, hcpu₂, htally₂⟩ :=
      handler_step code hpit idt (by omega) hphase₁ hcpu₁
    obtain ⟨s', hrun, hphase', hcpu', htally'⟩ :=
      ih (by omega) hphase₁ hcpu₁ s₂ hstep₂ hphase₂ hcpu₂ htally₂
    exact ⟨s', .head hstep hrun, hphase', hcpu', htally'.trans htally₁⟩

/-- The line of the timer rises, and the processor is interrupted at once. -/
theorem Inv.serve (h : s.Inv pitTick (isr .irq0Handler) ticks start) (hpit : PitTick pitTick)
    (code : Machine → Machine → Prop) (idt : BitVec 64) (hphase : s.phase = .code)
    (hopen : s.cpu.Interruptible) :
    ∃ s', Relation.ReflTransGen (Step code pitTick isr idt) s s' ∧ s'.phase = .code ∧
      s'.cpu.toMachine = afterIrq0 pitTick (isr .irq0Handler) s.cpu.toMachine ∧
      s'.tally.taken = s.tally.taken + 1 := by
  let s₁ := s.setLine 0 false
  let s₂ := s₁.setLine 0 true
  have hedge : s₂.board.pics.master.edges.getLsbD 0 = true := by
    rw [setLine_edges, if_pos rfl, setLine_lines, if_pos rfl]
    simp
  have hinv : s₂.Inv pitTick (isr .irq0Handler) ticks start := (h.setLine 0 false).setLine 0 true
  obtain ⟨hgdtr, -, -, hprogress⟩ := hinv
  rw [show s₂.phase = .code from hphase] at hprogress
  cases hprogress with
  | code hmasked =>
    have hint : s₂.board.pics.int = true := (int_eq hmasked).mpr (congrArg Bool.toNat hedge)
    have htaken : s₂.board.pics.taken = some (.request 0) := by
      rw [hmasked.timerOnly.taken_eq, if_pos hedge]
    obtain ⟨hmachine, hhandler⟩ :=
      take_request (s := { s₂ with phase := .asked }) isr idt hgdtr hmasked
    obtain ⟨s', hrun, hphase', hcpu', htally'⟩ :=
      handler_returns code hpit idt (m := s.cpu.toMachine) (k := 0) (n := 5) rfl hhandler
        (congrArg Cpu.toMachine hmachine)
    refine ⟨s', ?_, hphase', hcpu', ?_⟩
    · refine .head (.line s 0 false) (.head (.line s₁ 0 true) ?_)
      exact .head (.ask s₂ hphase hopen hint) (.head (.take _ (.request 0) rfl htaken) hrun)
    · rw [htally']
      rfl

end TimerSystem

/-! ### Runs -/

section

variable {b b₀ : Board} {flags : BitVec 8} {r : Option Unit} {cpu : Cpu}
  (hpit : PitTick pitTick) (hout : ∀ m, (pitTick m).outputs = m.outputs)
  (hcode : ∀ m m', code m m' → m'.ticks = m.ticks ∧ m'.outputs = m.outputs)
  (hflags : flags &&& usingApic = 0)
  (hinit : Runs ports (initPic >>= fun _ => pitInit flags) b r b₀) (hgdtr : cpu.gdtr = gdtPointer)

include hpit hout hcode hflags hinit hgdtr

/-- What the kernel's code finds is a run of whole interrupts. -/
theorem exists_irqRun {s : TimerSystem}
    (hrun : Relation.ReflTransGen (TimerSystem.Step code pitTick isr idt)
      ⟨cpu, b₀, .code, ⟨0, 0, 0⟩⟩ s) (hphase : s.phase = .code) :
    ∃ irqs, IrqRun code pitTick (isr .irq0Handler) cpu.toMachine irqs s.cpu.toMachine ∧
      irqs.length = s.tally.taken := by
  have hwhole := TimerSystem.Whole.run hpit hout hcode (.init hflags hinit hgdtr)
    (.code [] (.refl _) rfl) hrun
  rw [hphase] at hwhole
  cases hwhole with
  | code irqs hirqs hlength => exact ⟨irqs, hirqs, hlength⟩

/-- A run of whole interrupts is a run of the system, in which the line rises when it has to. -/
theorem exists_run (idt : BitVec 64) {irqs : List (Machine × Machine)} {m : Machine}
    (h : IrqRun code pitTick (isr .irq0Handler) cpu.toMachine irqs m) :
    ∃ s, Relation.ReflTransGen (TimerSystem.Step code pitTick isr idt)
        ⟨cpu, b₀, .code, ⟨0, 0, 0⟩⟩ s ∧
      s.phase = .code ∧ s.cpu.toMachine = m ∧ s.tally.taken = irqs.length := by
  induction h with
  | refl => exact ⟨_, .refl, rfl, rfl, rfl⟩
  | code _ hm ih =>
    obtain ⟨s, hrun, hphase, rfl, htaken⟩ := ih
    exact ⟨_, hrun.tail (.code s _ hphase hm), hphase, rfl, htaken⟩
  | irq _ hopen hirq ih =>
    obtain ⟨s, hrun, hphase, rfl, htaken⟩ := ih
    rw [hpit.irq0_eq, Option.some.injEq] at hirq
    have hinv := (TimerSystem.Inv.init hflags hinit hgdtr).run hpit hout hcode hrun
    obtain ⟨s', hrun', hphase', hcpu', htaken'⟩ := hinv.serve hpit code idt hphase hopen
    refine ⟨s', hrun.trans hrun', hphase', hcpu'.trans hirq, ?_⟩
    rw [htaken', htaken, List.length_append, List.length_singleton]

/-- **Interrupts are single steps** for the kernel's code.  In every order of instructions, lines
and requests, the processor with the timer comes to the same machines of the kernel's code, with
the same number of requests taken, as when an interrupt is one step that may come whenever `IF` is
set. -/
theorem timerSystem_irqRun_iff (isr : Handler → BitVec 64) (idt : BitVec 64) (m : Machine)
    (n : ℕ) :
    (∃ s, Relation.ReflTransGen (TimerSystem.Step code pitTick isr idt)
        ⟨cpu, b₀, .code, ⟨0, 0, 0⟩⟩ s ∧
      s.phase = .code ∧ s.cpu.toMachine = m ∧ s.tally.taken = n) ↔
    ∃ irqs, IrqRun code pitTick (isr .irq0Handler) cpu.toMachine irqs m ∧ irqs.length = n := by
  constructor
  · rintro ⟨s, hrun, hphase, rfl, rfl⟩
    exact exists_irqRun hpit hout hcode hflags hinit hgdtr hrun hphase
  · rintro ⟨irqs, hirqs, rfl⟩
    exact exists_run hpit hout hcode hflags hinit hgdtr idt hirqs

end

/-- The loop neither counts nor writes to ports. -/
theorem idle_quiet (m m' : Machine) (h : idle m m') :
    m'.ticks = m.ticks ∧ m'.outputs = m.outputs := by
  obtain ⟨rip, rfl⟩ := h
  exact ⟨rfl, rfl⟩

/-- The loop is interrupted once. -/
theorem timerSystem_irqRun_iff_idle :
    ∃ s, Relation.ReflTransGen
        (TimerSystem.Step idle incTicks (fun _ => 0x102000) 0x103000) idleSystem s ∧
      s.phase = .code ∧ s.cpu.rsp = 0x7FE0 ∧ s.tally.taken = 1 := by
  have hinit : Runs ports (initPic >>= fun _ => pitInit 0) idleBoard (some ()) idleSystem.board :=
    runs_of_portsAct rfl
  have hirq := pitTick_incTicks.irq0_eq 0x102000 kernelCpu.toMachine
  obtain ⟨s, hrun, hphase, hcpu, htaken⟩ := (timerSystem_irqRun_iff pitTick_incTicks
    (fun _ => rfl) idle_quiet rfl hinit rfl (fun _ => 0x102000) 0x103000 _ 1).mpr
    ⟨_, .irq (.refl _) (by decide) hirq, rfl⟩
  refine ⟨s, hrun, hphase, ?_, htaken⟩
  rw [hcpu]
  decide

end KessOS
