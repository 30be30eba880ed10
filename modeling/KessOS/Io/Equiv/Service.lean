import KessOS.Io.Equiv.Pic
import KessOS.Io.Service

/-!
# `PIC_sendEOI` ends the right interrupt

After `init_pic`, in any order of requests, masks and handlers, what the controllers have in
service is what the handlers in progress were taken for (`serving_inService`).
-/

namespace KessOS

open Interaction I8259

variable {b b' b₀ : Board} {s s' : Serving} {u : Unit} {t : Taken} {handlers : List Taken}

/-- The controllers as `init_pic` leaves them, but for the masks and what is in service. -/
structure Remapped (c : Settings) : Prop where
  master : c.master.setup = (initialised 0x20 4).setup
  slave : c.slave.setup = (initialised 0x28 2).setup

namespace Remapped

theorem cascaded (h : Remapped b.settings) : b.pics.Cascaded where
  icw3 := congrArg Programmed.icw3 h.master
  answers := by
    have hicw3 : b.pics.slave.icw3 = 2 := congrArg Programmed.icw3 h.slave
    rw [Pair.answers, hicw3]
    rfl
  masterEnd := by
    have hicw4 : b.pics.master.icw4 = 1 := congrArg Programmed.icw4 h.master
    rw [hicw4]
    rfl
  slaveEnd := by
    have hicw4 : b.pics.slave.icw4 = 1 := congrArg Programmed.icw4 h.slave
    rw [hicw4]
    rfl

/-- The vectors are those from `0x20` on. -/
theorem vector (h : Remapped b.settings) (irq : Fin 16) :
    b.pics.vector irq = 0x20 + BitVec.ofNat 8 irq := by
  have hmaster : b.pics.master.icw2 = 0x20 := congrArg Programmed.icw2 h.master
  have hslave : b.pics.slave.icw2 = 0x28 := congrArg Programmed.icw2 h.slave
  rw [Pair.vector]
  simp only [Chip.vector, hmaster, hslave]
  revert irq
  decide

theorem writeMaster (h : Remapped b.settings) (data : BitVec 8) :
    b.settings.write pic1Data data =
      { b.settings with master := { b.settings.master with imr := data } } := by
  have hexpects : b.settings.master.expects = .ocw1 := congrArg Programmed.expects h.master
  rw [← Programmed.data_ocw1 hexpects]
  rfl

theorem writeSlave (h : Remapped b.settings) (data : BitVec 8) :
    b.settings.write pic2Data data =
      { b.settings with slave := { b.settings.slave with imr := data } } := by
  have hexpects : b.settings.slave.expects = .ocw1 := congrArg Programmed.expects h.slave
  rw [← Programmed.data_ocw1 hexpects]
  rfl

/-- A byte for a mask changes nothing else. -/
theorem writeMask (h : Remapped b.settings) {port : BitVec 16}
    (hport : port = pic1Data ∨ port = pic2Data) (data : BitVec 8) :
    Remapped (b.settings.write port data) ∧
      (b.settings.write port data).master.isr = b.settings.master.isr ∧
      (b.settings.write port data).slave.isr = b.settings.slave.isr := by
  rcases hport with rfl | rfl
  · rw [h.writeMaster]
    exact ⟨⟨h.master, h.slave⟩, rfl, rfl⟩
  · rw [h.writeSlave]
    exact ⟨⟨h.master, h.slave⟩, rfl, rfl⟩

end Remapped

theorem remapped_initPic (h : Runs ports initPic b u b') : Remapped b'.settings := by
  rw [initPic_settings h]
  exact ⟨rfl, rfl⟩

/-! ### Runs -/

/-- What is in service is what the handlers were taken for. -/
structure Serving.Inv (s : Serving) : Prop where
  remapped : Remapped s.board.settings
  inService : s.board.pics.InService s.handlers

namespace Serving

/-- The registers are part of the settings. -/
theorem inService_congr (hmaster : b'.settings.master.isr = b.settings.master.isr)
    (hslave : b'.settings.slave.isr = b.settings.slave.isr) (h : b.pics.InService handlers) :
    b'.pics.InService handlers := by
  refine ⟨?_, ?_⟩
  · rw [show b'.pics.master.isr = b.pics.master.isr from hmaster]
    exact h.master
  · rw [show b'.pics.slave.isr = b.pics.slave.isr from hslave]
    exact h.slave

theorem Inv.init (h : Runs ports initPic b u b') : Inv ⟨b', []⟩ where
  remapped := remapped_initPic h
  inService := by
    have hmaster := congrArg Settings.master (initPic_settings h)
    have hslave := congrArg Settings.slave (initPic_settings h)
    refine ⟨?_, ?_⟩
    · rw [show b'.pics.master.isr = 0 from congrArg Programmed.isr hmaster]
      exact .nil
    · rw [show b'.pics.slave.isr = 0 from congrArg Programmed.isr hslave]
      exact .nil

theorem remapped_acknowledge (h : Remapped b.settings) :
    Remapped { b with pics := b.pics.acknowledge : Board }.settings where
  master := b.pics.acknowledge_master_setup.trans h.master
  slave := b.pics.acknowledge_slave_setup.trans h.slave

/-- The innermost handler returns. -/
theorem Inv.finish {b : Board} (h : Inv ⟨b, t :: handlers⟩)
    (ht : t.level = none → handlers.filterMap Taken.level = [])
    (hrun : Runs ports (picSendEoi (BitVec.ofNat 8 t.irq)) b u b') : Inv ⟨b', handlers⟩ := by
  have hirq : BitVec.ofNat 8 t.irq ≥ 8 ↔ 8 ≤ t.irq.val := by
    generalize t.irq = irq
    revert irq
    decide
  have hsettings := picSendEoi_settings hrun
  have hmaster : b'.pics.master.toProgrammed = b.pics.master.eoi :=
    congrArg Settings.master hsettings
  have hslave : b'.pics.slave.toProgrammed =
      if 8 ≤ t.irq.val then b.pics.slave.eoi else b.pics.slave.toProgrammed := by
    refine (congrArg Settings.slave hsettings).trans ?_
    simp only [hirq]
  obtain ⟨hmasterEnd, hslaveEnd⟩ := h.inService.finish ht
  refine ⟨⟨?_, ?_⟩, ⟨?_, ?_⟩⟩
  · exact (congrArg Programmed.setup hmaster).trans h.remapped.master
  · refine (congrArg Programmed.setup hslave).trans ?_
    split_ifs <;> exact h.remapped.slave
  · rw [hmaster]
    exact hmasterEnd
  · rw [hslave, apply_ite Programmed.isr]
    exact hslaveEnd

/-- A handler that has nothing in service returns. -/
theorem Inv.dismiss {b : Board} (h : Inv ⟨b, t :: handlers⟩) (ht : t.level = none) :
    Inv ⟨b, handlers⟩ := by
  have hslaveLevel : t.slaveLevel = none := by
    rw [Option.eq_none_iff_forall_ne_some]
    intro j hj
    rw [Taken.level_of_slaveLevel hj] at ht
    cases ht
  have hmaster := h.inService.master
  have hslave := h.inService.slave
  rw [List.filterMap_cons_none ht] at hmaster
  rw [List.filterMap_cons_none hslaveLevel] at hslave
  exact ⟨h.remapped, hmaster, hslave⟩

theorem Inv.step (h : s.Inv) (hstep : Step s s') : s'.Inv := by
  cases hstep with
  | line _ irq high =>
    have hsettings := settings_setLine s.board irq high
    exact ⟨hsettings ▸ h.remapped,
      inService_congr (by rw [hsettings]) (by rw [hsettings]) h.inService⟩
  | mask _ port data hport =>
    obtain ⟨hremapped, hmaster, hslave⟩ := h.remapped.writeMask hport data
    rw [← settings_write] at hremapped hmaster hslave
    exact ⟨hremapped, inService_congr hmaster hslave h.inService⟩
  | take _ t ht =>
    exact ⟨remapped_acknowledge h.remapped, h.inService.take h.remapped.cascaded ht⟩
  | finish b b' t handlers ht hrun => exact h.finish ht hrun
  | dismiss b t handlers ht => exact h.dismiss ht

theorem Inv.run (h : s.Inv) (hrun : Relation.ReflTransGen Step s s') : s'.Inv := by
  induction hrun with
  | refl => exact h
  | tail _ hstep ih => exact ih.step hstep

end Serving

/-- **Whose interrupt `PIC_sendEOI` ends.**  After `init_pic`, in every order of requests, masks
and handlers, the controllers have in service what the handlers in progress were taken for, and a
handler is only interrupted by a level that comes before all of them.  The handler of a spurious
request that holds no level must send an end of interrupt exactly if no other handler holds one. -/
theorem serving_inService (hinit : Runs ports initPic b u b₀)
    (hrun : Relation.ReflTransGen Serving.Step ⟨b₀, []⟩ s) :
    (∀ i : Fin 8, s.board.pics.master.isr.getLsbD i = true ↔
      ∃ t ∈ s.handlers, t.level = some i) ∧
    (∀ j : Fin 8, s.board.pics.slave.isr.getLsbD j = true ↔
      .request (j.natAdd 8) ∈ s.handlers) ∧
    (s.handlers.filterMap Taken.level).Pairwise (· < ·) ∧
    (∀ irq, s.board.pics.vector irq = 0x20 + BitVec.ofNat 8 irq) ∧
    ∀ t rest b', s.handlers = t :: rest → t.level = none →
      Runs ports (picSendEoi (BitVec.ofNat 8 t.irq)) s.board () b' →
      ((∀ i : Fin 8, b'.pics.master.isr.getLsbD i = true ↔ ∃ t ∈ rest, t.level = some i) ↔
        rest.filterMap Taken.level = []) := by
  have hinv := (Serving.Inv.init hinit).run hrun
  refine ⟨fun i => ?_, fun j => ?_, hinv.inService.master.sorted, hinv.remapped.vector, ?_⟩
  · rw [hinv.inService.master.mem, List.mem_filterMap]
  · rw [hinv.inService.slave.mem, List.mem_filterMap]
    simp only [Taken.slaveLevel_eq_some, exists_eq_right]
  · intro t rest b' hhandlers ht heoi
    have hmaster : b'.pics.master.toProgrammed = s.board.pics.master.eoi :=
      congrArg Settings.master (picSendEoi_settings heoi)
    have hlevels : s.handlers.filterMap Taken.level = rest.filterMap Taken.level := by
      rw [hhandlers, List.filterMap_cons_none ht]
    have hnested := hinv.inService.eoi_nested_iff
    rw [hlevels, ← hmaster] at hnested
    rw [← hnested]
    have hsorted := hlevels ▸ hinv.inService.master.sorted
    constructor
    · exact fun hmem => ⟨fun i => by rw [hmem, List.mem_filterMap], hsorted⟩
    · exact fun hend i => by rw [hend.mem, List.mem_filterMap]

/-- The controllers of an idle board after `init_pic`, with every line unmasked, while the handler
of request 9 is interrupted by request 1. -/
def nestedServing : Serving where
  board :=
    let b := ((initPic.eval portsAct idleBoard).getD ((), idleBoard)).2
    let b := (b.write pic1Data 0).write pic2Data 0
    let taken := (b.setLine ⟨9, by decide⟩ true).pics.acknowledge
    { b with pics := (taken.setLine ⟨1, by decide⟩ true).acknowledge }
  handlers := [.request ⟨1, by decide⟩, .request ⟨9, by decide⟩]

theorem serving_inService_nested :
    ∃ b₀, Runs ports initPic idleBoard () b₀ ∧
      Relation.ReflTransGen Serving.Step ⟨b₀, []⟩ nestedServing ∧
      ∀ i : Fin 8, nestedServing.board.pics.master.isr.getLsbD i = true ↔ i = 1 ∨ i = 2 := by
  have hinit : Runs ports initPic idleBoard ()
      ((initPic.eval portsAct idleBoard).getD ((), idleBoard)).2 := runs_of_portsAct rfl
  have hrun : Relation.ReflTransGen Serving.Step
      ⟨((initPic.eval portsAct idleBoard).getD ((), idleBoard)).2, []⟩ nestedServing :=
    .tail (.tail (.tail (.tail (.tail (.tail .refl
      (.mask _ pic1Data 0 (.inl rfl))) (.mask _ pic2Data 0 (.inr rfl))) (.line _ 9 true))
      (.take _ (.request 9) (by decide +kernel))) (.line _ 1 true))
      (.take _ (.request 1) (by decide +kernel))
  obtain ⟨hmaster, -⟩ := serving_inService hinit hrun
  refine ⟨_, hinit, hrun, fun i => (hmaster i).trans ?_⟩
  revert i
  decide

end KessOS
