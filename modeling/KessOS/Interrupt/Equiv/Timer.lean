import KessOS.Interrupt.Equiv.Irq
import KessOS.Interrupt.Equiv.Vectors
import KessOS.Interrupt.Timer
import KessOS.Timer.Equiv.Init

/-!
# Every request of the timer is counted once

Between `STI` and the timer, in every order of what happens: a request that is taken is one tick,
and a request that is not is one whose line fell before (`timerSystem_counts`).  If the line falls
after the processor has seen the request, the controllers give the vector of their level 7, which
`init` does not set.
-/

namespace KessOS

open Interaction I8259

variable {pitTick : Machine → Machine} {handler : BitVec 64}

/-! ### The handler, instruction by instruction -/

/-- The machine behind the first instructions of the handler, from an interrupt of `m`. -/
def irq0Trace (pitTick : Machine → Machine) (handler : BitVec 64) (m : Machine) (k : ℕ) :
    Machine :=
  ((irq0Handler pitTick).take k).foldl (fun m i => i.exec m) (m.deliver handler)

theorem irq0Trace_succ (m : Machine) {k : ℕ} {i : Instr} (hi : (irq0Handler pitTick)[k]? = some i) :
    irq0Trace pitTick handler m (k + 1) = i.exec (irq0Trace pitTick handler m k) := by
  rw [irq0Trace, List.take_add_one, hi, List.foldl_append]
  rfl

/-- Where the instructions lie. -/
def irq0Offset (k : ℕ) : ℕ := [0, 1, 6, 8, 10, 11].getD k 0

/-- `RIP` goes through the handler. -/
theorem PitTick.irq0Trace_rip (hpit : PitTick pitTick) (handler : BitVec 64) (m : Machine) {k : ℕ}
    (hk : k < 6) :
    (irq0Trace pitTick handler m k).rip = handler + BitVec.ofNat 64 (irq0Offset k) := by
  have htick : (irq0Trace pitTick handler m 2).rip = handler + 6#64 := hpit.afterTick_rip handler m
  have hmov : (irq0Trace pitTick handler m 3).rip = handler + 8#64 := by
    refine (congrArg (· + 2#64) htick).trans ?_
    bv_omega
  have hout : (irq0Trace pitTick handler m 4).rip = handler + 10#64 := by
    refine (congrArg (· + 2#64) hmov).trans ?_
    bv_omega
  match k, hk with
  | 0, _ => exact (BitVec.add_zero _).symm
  | 1, _ => rfl
  | 2, _ => exact htick
  | 3, _ => exact hmov
  | 4, _ => exact hout
  | 5, _ =>
    refine (congrArg (· + 1#64) hout).trans ?_
    show _ = handler + 11#64
    bv_omega

/-- The next instruction is fetched. -/
theorem PitTick.irq0Trace_fetch (hpit : PitTick pitTick) (handler : BitVec 64) (m : Machine)
    {k : ℕ} (hk : k < 6) :
    fetch (irq0Handler pitTick) ((irq0Trace pitTick handler m k).rip - handler).toNat =
      (irq0Handler pitTick)[k]? := by
  have hfetch : ∀ k < 6,
      fetch (irq0Handler pitTick) (irq0Offset k) = (irq0Handler pitTick)[k]? := by
    intro k hk
    match k, hk with
    | 0, _ | 1, _ | 2, _ | 3, _ | 4, _ | 5, _ => rfl
  have hlt : ∀ k < 6, irq0Offset k < 2 ^ 64 := by decide
  rw [hpit.irq0Trace_rip handler m hk, BitVec.add_comm, BitVec.add_sub_cancel, BitVec.toNat_ofNat,
    Nat.mod_eq_of_lt (hlt k hk)]
  exact hfetch k hk

/-- The second instruction counts. -/
theorem PitTick.irq0Trace_ticks (hpit : PitTick pitTick) (handler : BitVec 64) (m : Machine)
    {k : ℕ} (hk : k < 6) :
    (irq0Trace pitTick handler m k).ticks = m.ticks + if k < 2 then 0 else 1 := by
  have htick : (irq0Trace pitTick handler m 2).ticks = m.ticks + 1 := hpit.ticks _
  match k, hk with
  | 0, _ | 1, _ => exact (BitVec.add_zero _).symm
  | 2, _ | 3, _ | 4, _ | 5, _ => exact htick

/-- Only the last instruction returns. -/
theorem isRet_irq0Handler {k : ℕ} {i : Instr} (hi : (irq0Handler pitTick)[k]? = some i)
    (hk : k < 6) : i.isRet = decide (k = 5) := by
  match k, hk with
  | 0, _ | 1, _ | 2, _ | 3, _ | 4, _ | 5, _ =>
    cases hi
    rfl

/-- The low byte that was moved is the one that is written. -/
theorem setWidth_setAl (r : BitVec 64) (imm : BitVec 8) :
    (r &&& ~~~0xFF#64 ||| imm.setWidth 64).setWidth 8 = imm := by
  have hmask : ∀ i : Fin 8, (~~~0xFF#64).getLsbD i = false := by decide
  refine BitVec.eq_of_getLsbD_eq fun i hi => ?_
  rw [BitVec.getLsbD_setWidth, BitVec.getLsbD_or, BitVec.getLsbD_and, hmask ⟨i, hi⟩,
    BitVec.getLsbD_setWidth]
  simp [hi]
  omega

/-- The fourth instruction is the only one that writes to a port, and writes the end of the
interrupt. -/
theorem irq0Trace_receive (hout : ∀ m, (pitTick m).outputs = m.outputs) (handler : BitVec 64)
    (m : Machine) {k : ℕ} (hk : k < 6) (b : Board) :
    b.receive (irq0Trace pitTick handler m k) (irq0Trace pitTick handler m (k + 1)) =
      if k = 3 then b.write pic1Command picEoi else b := by
  have hsame : ∀ m₁ m₂ : Machine, m₂.outputs = m₁.outputs → b.receive m₁ m₂ = b := by
    intro m₁ m₂ h
    rw [Board.receive, h, List.drop_length]
    rfl
  match k, hk with
  | 0, _ | 2, _ | 4, _ | 5, _ => exact hsame _ _ rfl
  | 1, _ => exact hsame _ _ (hout _)
  | 3, _ =>
    have hal : ((irq0Trace pitTick handler m 3).regs .rax).setWidth 8 = 0x20#8 :=
      setWidth_setAl ((irq0Trace pitTick handler m 2).regs .rax) 0x20
    have houtputs : (irq0Trace pitTick handler m 4).outputs =
        (irq0Trace pitTick handler m 3).outputs ++
          [(0x20, ((irq0Trace pitTick handler m 3).regs .rax).setWidth 8)] := rfl
    rw [Board.receive, houtputs, List.drop_left, hal]
    rfl

/-! ### The controllers -/

/-- The controllers with the timer in service, or not. -/
structure TimerMasked (c : Settings) (isr : BitVec 8) : Prop where
  master : c.master = { initialised 0x20 4 with imr := ~~~BitVec.twoPow 8 0, isr := isr }
  slave : c.slave = initialised 0x28 2

namespace TimerMasked

variable {b : Board} {isr : BitVec 8}

theorem timerOnly (h : TimerMasked b.settings 0) : TimerOnly b.settings := ⟨h.master, h.slave⟩

/-- The handler's end of interrupt. -/
theorem eoi (h : TimerMasked b.settings 1) :
    TimerMasked (b.write pic1Command picEoi).settings 0 := by
  rw [settings_write]
  refine ⟨?_, h.slave⟩
  show b.settings.master.command picEoi = _
  rw [h.master]
  decide

/-- The master in an acknowledge cycle. -/
theorem acknowledge_master (h : TimerMasked b.settings 0) :
    b.pics.master.acknowledge =
      if b.pics.master.edges.getLsbD 0 then
        { b.pics.master with isr := 1, edges := clearLevel b.pics.master.edges 0 : Chip }
      else b.pics.master := by
  have hend : b.pics.master.icw4.getLsbD 1 = false := by
    rw [show b.pics.master.icw4 = 1 from congrArg Programmed.icw4 h.master]
    rfl
  have hisr : setLevel b.pics.master.isr 0 = 1 := by
    rw [show b.pics.master.isr = 0 from congrArg Programmed.isr h.master]
    rfl
  have hpending := h.timerOnly.master_pending
  by_cases hedge : b.pics.master.edges.getLsbD 0 = true
  · rw [if_pos hedge] at hpending ⊢
    rw [Chip.acknowledge_of_some hpending hend, hisr]
  · rw [if_neg hedge] at hpending ⊢
    exact Chip.acknowledge_of_none hpending

/-- The request of the timer is in service from now on. -/
theorem acknowledge (h : TimerMasked b.settings 0) :
    TimerMasked { b with pics := b.pics.acknowledge : Board }.settings
      (if b.pics.master.edges.getLsbD 0 then 1 else 0) := by
  have hpending := h.timerOnly.master_pending
  have hasked : b.pics.master.pending ≠ some slaveLine := by
    rw [hpending]
    split_ifs <;> decide
  constructor
  · refine (Pair.rewire_master_toProgrammed _).trans ?_
    show b.pics.master.acknowledge.toProgrammed = _
    rw [h.acknowledge_master]
    by_cases hedge : b.pics.master.edges.getLsbD 0 = true
    · rw [if_pos hedge, if_pos hedge]
      show { b.settings.master with isr := 1 } = _
      rw [h.master]
    · rw [if_neg hedge, if_neg hedge]
      exact h.master
  · show b.pics.acknowledge.slave.toProgrammed = _
    rw [Pair.acknowledge, Pair.rewire_slave, if_neg fun h => hasked h.1]
    exact h.slave

/-- The edge that is acknowledged is gone. -/
theorem acknowledge_edges (h : TimerMasked b.settings 0) :
    b.pics.acknowledge.master.edges.getLsbD 0 = false := by
  refine (Pair.rewire_edges (i := 0) (by decide)).trans ?_
  show b.pics.master.acknowledge.edges.getLsbD (0 : Fin 8) = false
  rw [h.acknowledge_master]
  by_cases hedge : b.pics.master.edges.getLsbD 0 = true
  · rw [if_pos hedge]
    exact (getLsbD_clearLevel _ 0 0).trans (Bool.and_false _)
  · rw [if_neg hedge]
    exact Bool.eq_false_of_not_eq_true hedge

end TimerMasked

/-- The timer's edge waits only while its line is high. -/
def Latched (b : Board) : Prop :=
  b.pics.master.edges.getLsbD 0 = true → b.pics.master.lines.getLsbD 0 = true

theorem Latched.setLine {b : Board} (h : Latched b) (irq : Fin 16) (high : Bool) :
    Latched (b.setLine irq high) := by
  have hedges := Pair.setLine_edges (p := b.pics) (i := 0) (by decide) irq high
  have hlines := Pair.setLine_lines (p := b.pics) (i := 0) (by decide) irq high
  intro hedge
  refine hlines.trans ?_
  rw [Fin.val_zero, show b.pics.setLine irq high = (b.setLine irq high).pics from rfl,
    hedge] at hedges
  split_ifs at hedges ⊢ with hirq
  · exact (Bool.and_eq_true_iff.mp hedges.symm).1
  · exact h hedges.symm

/-- A byte at a port may make the controllers forget an edge, and does not touch the lines. -/
theorem Latched.write {b : Board} (h : Latched b) (port : BitVec 16) (data : BitVec 8) :
    Latched (b.write port data) := by
  have hedges (p : Pair) : p.rewire.master.edges.getLsbD 0 = p.master.edges.getLsbD 0 :=
    Pair.rewire_edges (i := 0) (by decide)
  have hlines (p : Pair) : p.rewire.master.lines.getLsbD 0 = p.master.lines.getLsbD 0 :=
    Pair.rewire_lines (i := 0) (by decide)
  unfold Board.write
  split_ifs
  · intro hedge
    refine h ?_
    by_cases hstart : data.getLsbD 4 = true
    · rw [show (b.pics.command data).master.edges = 0 from if_pos hstart] at hedge
      cases hedge
    · rwa [show (b.pics.command data).master.edges = _ from if_neg hstart] at hedge
  · exact h
  · exact fun hedge => (hlines { b.pics with slave := _ }).trans
      (h ((hedges { b.pics with slave := b.pics.slave.command data }).symm.trans hedge))
  · exact fun hedge => (hlines { b.pics with slave := _ }).trans
      (h ((hedges { b.pics with slave := b.pics.slave.data data }).symm.trans hedge))
  all_goals exact h

/-- An ICW1 makes them forget all edges. -/
theorem latched_write_icw1 (b : Board) {data : BitVec 8} (hstart : data.getLsbD 4 = true) :
    Latched (b.write pic1Command data) := by
  intro hedge
  rw [show (b.write pic1Command data).pics.master.edges = 0 from if_pos hstart] at hedge
  cases hedge

theorem latched_initPic {b b' : Board} {flags : BitVec 8} {r : Option Unit}
    (h : Runs ports (initPic >>= fun _ => pitInit flags) b r b') : Latched b' := by
  refine Runs.establishes (o := PortOp.outb pic1Command (icw1Init ||| icw1Icw4)) ?_ ?_ ?_ h
  · rintro b _ b' rfl
    exact latched_write_icw1 b rfl
  · intro o b x b' hans hb
    cases o with
    | inb port =>
      obtain ⟨-, rfl⟩ := hans
      exact hb
    | outb port data =>
      cases hans
      exact hb.write port data
  · rintro b _ ⟨irq, high, rfl⟩ hb
    exact hb.setLine irq high

/-! ### The invariant -/

namespace TimerSystem

variable {code : Machine → Machine → Prop} {isr : Handler → BitVec 64} {idt : BitVec 64}
  {s s' : TimerSystem} {ticks : BitVec 16} {start : ℕ}

/-- How far the processor is, and what the controllers have in service meanwhile.  In the handler,
`ticks` is what the counter comes to. -/
inductive Progress (pitTick : Machine → Machine) (handler : BitVec 64) (ticks : BitVec 16)
    (s : TimerSystem) : Phase → Prop
  | code : TimerMasked s.board.settings 0 → s.cpu.ticks = ticks →
      Progress pitTick handler ticks s .code
  | asked : TimerMasked s.board.settings 0 → s.cpu.ticks = ticks →
      s.waiting = 1 ∨ 0 < s.tally.withdrawn → Progress pitTick handler ticks s .asked
  | handler (m : Machine) (k : ℕ) : k < 6 → s.cpu.toMachine = irq0Trace pitTick handler m k →
      TimerMasked s.board.settings (if k < 4 then 1 else 0) → m.ticks + 1 = ticks →
      Progress pitTick handler ticks s (.handler 0x20)
  | exception : 0 < s.tally.withdrawn → Progress pitTick handler ticks s (.exception 0x27)

/-- Every edge of the timer is accounted for; `start` waited at the start. -/
structure Inv (pitTick : Machine → Machine) (handler : BitVec 64) (ticks : BitVec 16) (start : ℕ)
    (s : TimerSystem) : Prop where
  gdtr : s.cpu.gdtr = gdtPointer
  latched : Latched s.board
  balance : s.tally.rises + start = s.tally.taken + s.tally.withdrawn + s.waiting
  progress : s.Progress pitTick handler (ticks + BitVec.ofNat 16 s.tally.taken) s.phase

/-! ### The lines -/

theorem setLine_edges (s : TimerSystem) (irq : Fin 16) (high : Bool) :
    (s.setLine irq high).board.pics.master.edges.getLsbD 0 =
      if irq = 0 then
        high && (s.board.pics.master.edges.getLsbD 0 || !s.board.pics.master.lines.getLsbD 0)
      else s.board.pics.master.edges.getLsbD 0 :=
  Pair.setLine_edges (i := 0) (by decide) irq high

theorem setLine_lines (s : TimerSystem) (irq : Fin 16) (high : Bool) :
    (s.setLine irq high).board.pics.master.lines.getLsbD 0 =
      if irq = 0 then high else s.board.pics.master.lines.getLsbD 0 :=
  Pair.setLine_lines (i := 0) (by decide) irq high

theorem setLine_tally (s : TimerSystem) (irq : Fin 16) (high : Bool) :
    (s.setLine irq high).tally =
      if irq = 0 then
        if high then
          { s.tally with
            rises := s.tally.rises + (!s.board.pics.master.lines.getLsbD 0).toNat }
        else
          { s.tally with
            withdrawn := s.tally.withdrawn + (s.board.pics.master.edges.getLsbD 0).toNat }
      else s.tally := rfl

/-- What rises waits or has waited already, and what falls is withdrawn if it waited. -/
theorem balance_setLine (h : Latched s.board)
    (hbalance : s.tally.rises + start = s.tally.taken + s.tally.withdrawn + s.waiting)
    (irq : Fin 16) (high : Bool) :
    (s.setLine irq high).tally.rises + start = (s.setLine irq high).tally.taken +
      (s.setLine irq high).tally.withdrawn + (s.setLine irq high).waiting := by
  rw [waiting] at hbalance ⊢
  rw [setLine_edges]
  rw [Latched] at h
  by_cases hirq : irq = 0
  · simp only [setLine_tally, if_pos hirq]
    generalize s.board.pics.master.edges.getLsbD 0 = edge at *
    generalize s.board.pics.master.lines.getLsbD 0 = line at *
    cases high <;> cases edge <;> cases line <;> simp at * <;> omega
  · simp only [setLine_tally, if_neg hirq]
    exact hbalance

theorem taken_setLine (s : TimerSystem) (irq : Fin 16) (high : Bool) :
    (s.setLine irq high).tally.taken = s.tally.taken := by
  rw [setLine_tally]
  split_ifs <;> rfl

theorem withdrawn_le_setLine (s : TimerSystem) (irq : Fin 16) (high : Bool) :
    s.tally.withdrawn ≤ (s.setLine irq high).tally.withdrawn := by
  rw [setLine_tally]
  split_ifs
  · exact le_rfl
  · exact Nat.le_add_right ..
  · exact le_rfl

/-- A request that was seen waits, or its line fell. -/
theorem seen_setLine (h : s.waiting = 1 ∨ 0 < s.tally.withdrawn) (irq : Fin 16) (high : Bool) :
    (s.setLine irq high).waiting = 1 ∨ 0 < (s.setLine irq high).tally.withdrawn := by
  rcases h with hwaits | hlost
  · rw [waiting, setLine_edges, setLine_tally]
    have hedge : s.board.pics.master.edges.getLsbD 0 = true := Bool.toNat_eq_one.mp hwaits
    split_ifs with hirq hhigh
    -- The line is high, and the edge waits on.
    · simp [hedge, hhigh]
    -- The line falls before the edge was taken.
    · right
      rw [hedge]
      exact Nat.succ_pos _
    · exact Or.inl hwaits
  · exact Or.inr (hlost.trans_le (withdrawn_le_setLine s irq high))

theorem Inv.setLine (h : s.Inv pitTick handler ticks start) (irq : Fin 16) (high : Bool) :
    (s.setLine irq high).Inv pitTick handler ticks start where
  gdtr := h.gdtr
  latched := h.latched.setLine irq high
  balance := balance_setLine h.latched h.balance irq high
  progress := by
    have hsettings : (s.setLine irq high).board.settings = s.board.settings :=
      settings_setLine s.board irq high
    have hprogress := h.progress
    rw [taken_setLine]
    show Progress _ _ _ _ s.phase
    generalize s.phase = phase at hprogress ⊢
    cases hprogress with
    | code hmasked hticks => exact .code (hsettings ▸ hmasked) hticks
    | asked hmasked hticks hseen =>
      exact .asked (hsettings ▸ hmasked) hticks (seen_setLine hseen irq high)
    | handler m k hk hcpu hmasked hticks =>
      exact .handler m k hk hcpu (hsettings ▸ hmasked) hticks
    | exception hlost => exact .exception (hlost.trans_le (withdrawn_le_setLine s irq high))

/-! ### The processor -/

/-- The masters' request is that of the timer. -/
theorem int_eq (h : TimerMasked s.board.settings 0) : s.board.pics.int = true ↔ s.waiting = 1 := by
  rw [h.timerOnly.int_eq, waiting]
  cases s.board.pics.master.edges.getLsbD 0 <;> decide

/-- The vector of the timer is set, that of a spurious request is not. -/
theorem handlerOf_timer : handlerOf 0x20 = some (.irq0Handler, intGateFlags) := rfl

theorem handlerOf_spurious : handlerOf 0x27 = none := rfl

section

variable (isr idt) (hgdtr : s.cpu.gdtr = gdtPointer) (hmasked : TimerMasked s.board.settings 0)

include hgdtr hmasked

/-- The handler of the timer is entered. -/
theorem take_request : (s.take isr idt (.request 0)).cpu =
      s.cpu.enter (isr .irq0Handler) intGateFlags ∧
    (s.take isr idt (.request 0)).phase = .handler 0x20 := by
  have hvector := hmasked.timerOnly.remapped.vector
  have hcpu : s.cpu.take (idtInstall idt) (initIdt isr)
      (s.board.pics.vector (Taken.request 0).irq) =
        some (s.cpu.enter (isr .irq0Handler) intGateFlags) := by
    rw [take_initIdt hgdtr, hvector]
    exact congrArg _ handlerOf_timer
  refine ⟨congrArg (·.getD s.cpu) hcpu, ?_⟩
  show (if _ then Phase.handler (s.board.pics.vector (Taken.request 0).irq) else _) = _
  rw [hcpu, if_pos Option.isSome_some, hvector]
  rfl

/-- No handler is entered for the vector of a spurious request. -/
theorem take_spurious : (s.take isr idt (.spurious 7)).cpu = s.cpu ∧
    (s.take isr idt (.spurious 7)).phase = .exception 0x27 := by
  have hvector := hmasked.timerOnly.remapped.vector
  have hcpu : s.cpu.take (idtInstall idt) (initIdt isr)
      (s.board.pics.vector (Taken.spurious 7).irq) = none := by
    rw [take_initIdt hgdtr, hvector]
    exact congrArg _ handlerOf_spurious
  refine ⟨congrArg (·.getD s.cpu) hcpu, ?_⟩
  show (if _ then _ else Phase.exception (s.board.pics.vector (Taken.spurious 7).irq)) = _
  rw [hcpu, if_neg (by decide), hvector]
  rfl

end

/-- The processor asks for the vector. -/
theorem Inv.take (h : s.Inv pitTick (isr .irq0Handler) ticks start) {t : Taken}
    (hphase : s.phase = .asked) (ht : s.board.pics.taken = some t) :
    (s.take isr idt t).Inv pitTick (isr .irq0Handler) ticks start := by
  obtain ⟨hgdtr, -, hbalance, hprogress⟩ := h
  rw [hphase] at hprogress
  cases hprogress with
  | asked hmasked hticks hseen =>
    have hgone : (s.take isr idt t).waiting = 0 := congrArg Bool.toNat hmasked.acknowledge_edges
    have hlatched : Latched (s.take isr idt t).board := fun hedge =>
      absurd (hedge.symm.trans hmasked.acknowledge_edges) (by decide)
    have hacknowledge := hmasked.acknowledge
    rw [hmasked.timerOnly.taken_eq, Option.some.injEq] at ht
    rw [waiting] at hbalance hseen
    by_cases hedge : s.board.pics.master.edges.getLsbD 0 = true
    · rw [if_pos hedge] at ht hacknowledge
      subst ht
      obtain ⟨hmachine, hhandler⟩ := take_request isr idt hgdtr hmasked
      refine ⟨hmachine ▸ hgdtr, hlatched, ?_, ?_⟩
      · rw [hgone]
        show s.tally.rises + start = s.tally.taken + 1 + s.tally.withdrawn + 0
        rw [hedge, Bool.toNat_true] at hbalance
        omega
      · rw [hhandler]
        refine .handler s.cpu.toMachine 0 (by decide) ?_ hacknowledge ?_
        · rw [hmachine]
          rfl
        · show _ = ticks + BitVec.ofNat 16 (s.tally.taken + 1)
          rw [hticks, BitVec.ofNat_add, BitVec.add_assoc]
          rfl
    · rw [if_neg hedge] at ht
      subst ht
      obtain ⟨hmachine, hexception⟩ := take_spurious isr idt hgdtr hmasked
      rw [Bool.eq_false_of_not_eq_true hedge] at hbalance hseen
      refine ⟨hmachine ▸ hgdtr, hlatched, ?_, ?_⟩
      · rw [hgone]
        exact hbalance
      · rw [hexception]
        exact .exception (hseen.resolve_left (by decide))

/-- The next instruction of the handler. -/
theorem Inv.exec (hpit : PitTick pitTick) (hout : ∀ m, (pitTick m).outputs = m.outputs)
    (h : s.Inv pitTick handler ticks start) {i : Instr} (hphase : s.phase = .handler 0x20)
    (hfetch : fetch (irq0Handler pitTick) (s.cpu.rip - handler).toNat = some i) :
    { s with
      cpu := { s.cpu with toMachine := i.exec s.cpu.toMachine }
      board := s.board.receive s.cpu.toMachine (i.exec s.cpu.toMachine)
      phase := if i.isRet then .code else s.phase : TimerSystem }.Inv pitTick handler ticks
        start := by
  obtain ⟨hgdtr, hlatched, hbalance, hprogress⟩ := h
  rw [hphase] at hprogress
  cases hprogress with
  | handler m k hk hcpu hmasked hticks =>
    rw [hcpu, hpit.irq0Trace_fetch handler m hk] at hfetch
    have hreceive : s.board.receive s.cpu.toMachine (i.exec s.cpu.toMachine) =
        if k = 3 then s.board.write pic1Command picEoi else s.board := by
      rw [hcpu, ← irq0Trace_succ m hfetch, irq0Trace_receive hout handler m hk]
    have hmaster : (s.board.receive s.cpu.toMachine (i.exec s.cpu.toMachine)).pics.master.edges =
          s.board.pics.master.edges ∧
        (s.board.receive s.cpu.toMachine (i.exec s.cpu.toMachine)).pics.master.lines =
          s.board.pics.master.lines := by
      rw [hreceive]
      split_ifs <;> exact ⟨rfl, rfl⟩
    refine ⟨hgdtr, ?_, ?_, ?_⟩
    · rw [Latched, hmaster.1, hmaster.2]
      exact hlatched
    · rw [waiting, hmaster.1]
      exact hbalance
    · have hmasked' : TimerMasked
          (s.board.receive s.cpu.toMachine (i.exec s.cpu.toMachine)).settings
          (if k + 1 < 4 then 1 else 0) := by
        rw [hreceive]
        by_cases heoi : k = 3
        · subst heoi
          exact hmasked.eoi
        · rw [if_neg heoi]
          have hsame : k + 1 < 4 ↔ k < 4 := by omega
          simpa only [hsame] using hmasked
      have hnext : i.exec s.cpu.toMachine = irq0Trace pitTick handler m (k + 1) := by
        rw [hcpu, irq0Trace_succ m hfetch]
      have hret := isRet_irq0Handler hfetch hk
      show Progress _ _ _ _ (if i.isRet then Phase.code else s.phase)
      by_cases hlast : k = 5
      · subst hlast
        rw [hret, if_pos (by decide)]
        refine .code hmasked' ?_
        show (i.exec s.cpu.toMachine).ticks = _
        cases hfetch
        rw [hcpu, ← hticks]
        exact hpit.irq0Trace_ticks handler m hk
      · rw [hret, if_neg (by simpa using hlast), hphase]
        exact .handler m (k + 1) (by omega) hnext hmasked' hticks

theorem Inv.step (hpit : PitTick pitTick) (hout : ∀ m, (pitTick m).outputs = m.outputs)
    (hcode : ∀ m m', code m m' → m'.ticks = m.ticks ∧ m'.outputs = m.outputs)
    (h : s.Inv pitTick (isr .irq0Handler) ticks start) (hstep : Step code pitTick isr idt s s') :
    s'.Inv pitTick (isr .irq0Handler) ticks start := by
  cases hstep with
  | line irq high => exact h.setLine irq high
  | code m hphase hm =>
    obtain ⟨hgdtr, hlatched, hbalance, hprogress⟩ := h
    obtain ⟨hticks, houtputs⟩ := hcode _ _ hm
    have hreceive : s.board.receive s.cpu.toMachine m = s.board := by
      rw [Board.receive, houtputs, List.drop_length]
      rfl
    rw [hphase] at hprogress
    rw [hreceive]
    refine ⟨hgdtr, hlatched, hbalance, ?_⟩
    show Progress _ _ _ _ s.phase
    rw [hphase]
    cases hprogress with
    | code hmasked hcount => exact .code hmasked (hticks.trans hcount)
  | ask hphase _ hint =>
    obtain ⟨hgdtr, hlatched, hbalance, hprogress⟩ := h
    rw [hphase] at hprogress
    refine ⟨hgdtr, hlatched, hbalance, ?_⟩
    cases hprogress with
    | code hmasked hcount => exact .asked hmasked hcount (.inl ((int_eq hmasked).mp hint))
  | take t hphase ht => exact h.take hphase ht
  | exec i hphase hfetch => exact h.exec hpit hout hphase hfetch

theorem Inv.run (hpit : PitTick pitTick) (hout : ∀ m, (pitTick m).outputs = m.outputs)
    (hcode : ∀ m m', code m m' → m'.ticks = m.ticks ∧ m'.outputs = m.outputs)
    (h : s.Inv pitTick (isr .irq0Handler) ticks start)
    (hrun : Relation.ReflTransGen (Step code pitTick isr idt) s s') :
    s'.Inv pitTick (isr .irq0Handler) ticks start := by
  induction hrun with
  | refl => exact h
  | tail _ hstep ih => exact ih.step hpit hout hcode hstep

end TimerSystem

/-! ### Runs -/

theorem TimerSystem.Inv.init {b b₀ : Board} {flags : BitVec 8} {r : Option Unit} {cpu : Cpu}
    (hflags : flags &&& usingApic = 0)
    (hinit : Runs ports (initPic >>= fun _ => pitInit flags) b r b₀)
    (hgdtr : cpu.gdtr = gdtPointer) :
    Inv pitTick handler cpu.ticks (b₀.pics.master.edges.getLsbD 0).toNat
      ⟨cpu, b₀, .code, ⟨0, 0, 0⟩⟩ where
  gdtr := hgdtr
  latched := latched_initPic hinit
  balance := rfl
  progress := by
    obtain ⟨-, honly, -⟩ := initPic_pitInit_settings hflags hinit
    exact .code ⟨honly.master, honly.slave⟩ (BitVec.add_zero _).symm

/-- **Every request of the timer is counted once.**  After `init_pic` and `pit_init`, in every
order of code, lines and interrupts: each edge of the timer is taken, is withdrawn by the fall of
its line or still waits; while the kernel's code runs, `ticks` has counted what was taken, and the
processor is asked exactly while an edge waits; no handler is entered but that of the timer; and an
exception comes instead only if an edge was withdrawn. -/
theorem timerSystem_counts {code : Machine → Machine → Prop} {isr : Handler → BitVec 64}
    {idt : BitVec 64} {b b₀ : Board} {flags : BitVec 8} {r : Option Unit} {cpu : Cpu}
    {s : TimerSystem} (hpit : PitTick pitTick) (hout : ∀ m, (pitTick m).outputs = m.outputs)
    (hcode : ∀ m m', code m m' → m'.ticks = m.ticks ∧ m'.outputs = m.outputs)
    (hflags : flags &&& usingApic = 0)
    (hinit : Runs ports (initPic >>= fun _ => pitInit flags) b r b₀)
    (hgdtr : cpu.gdtr = gdtPointer)
    (hrun : Relation.ReflTransGen (TimerSystem.Step code pitTick isr idt)
      ⟨cpu, b₀, .code, ⟨0, 0, 0⟩⟩ s) :
    s.tally.rises + (b₀.pics.master.edges.getLsbD 0).toNat =
      s.tally.taken + s.tally.withdrawn + s.waiting ∧
    (s.phase = .code → s.cpu.ticks = cpu.ticks + BitVec.ofNat 16 s.tally.taken ∧
      (s.board.pics.int = true ↔ s.waiting = 1)) ∧
    (∀ vec, s.phase = .handler vec → vec = 0x20) ∧
    ∀ vec, s.phase = .exception vec → vec = 0x27 ∧ 0 < s.tally.withdrawn := by
  obtain ⟨-, -, hbalance, hprogress⟩ :=
    (TimerSystem.Inv.init hflags hinit hgdtr).run hpit hout hcode hrun
  refine ⟨hbalance, fun hphase => ?_, fun vec hphase => ?_, fun vec hphase => ?_⟩
  all_goals
    rw [hphase] at hprogress
    cases hprogress
  case code hmasked hticks => exact ⟨hticks, TimerSystem.int_eq hmasked⟩
  case handler => rfl
  case exception hlost => exact ⟨rfl, hlost⟩

/-- An idle processor behind the initialisation of an idle board. -/
def idleSystem : TimerSystem where
  cpu := kernelCpu
  board := (((initPic >>= fun _ => pitInit 0).eval portsAct idleBoard).getD (none, idleBoard)).2
  phase := .code
  tally := ⟨0, 0, 0⟩

/-- The line falls behind the back of the processor. -/
theorem timerSystem_counts_spurious :
    ∃ s, Relation.ReflTransGen
        (TimerSystem.Step (fun _ _ => False) incTicks (fun _ => 0x102000) 0x103000) idleSystem s ∧
      s.phase = .exception 0x27 ∧ 0 < s.tally.withdrawn := by
  have hinit : Runs ports (initPic >>= fun _ => pitInit 0) idleBoard (some ()) idleSystem.board :=
    runs_of_portsAct rfl
  have hrun : Relation.ReflTransGen
      (TimerSystem.Step (fun _ _ => False) incTicks (fun _ => 0x102000) 0x103000) idleSystem
      (({ idleSystem.setLine 0 true with phase := .asked }.setLine 0 false).take
        (fun _ => 0x102000) 0x103000 (.spurious 7)) :=
    .tail (.tail (.tail (.tail .refl (.line _ 0 true)) (.ask _ rfl (by decide) (by decide +kernel)))
      (.line _ 0 false)) (.take _ (.spurious 7) rfl (by decide +kernel))
  obtain ⟨-, -, -, hexception⟩ := timerSystem_counts pitTick_incTicks (fun _ => rfl)
    (fun _ _ h => h.elim) rfl hinit rfl hrun
  have hphase : (({ idleSystem.setLine 0 true with phase := .asked }.setLine 0 false).take
      (fun _ => 0x102000) 0x103000 (.spurious 7)).phase = .exception 0x27 := by decide +kernel
  exact ⟨_, hrun, hphase, (hexception _ hphase).2⟩

end KessOS
