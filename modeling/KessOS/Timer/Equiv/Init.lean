import KessOS.Io.Equiv.Service
import KessOS.Timer.Equiv.Freq

/-!
# Only the timer interrupts

After `init_pic` and `pit_init` the one line that reaches the processor is that of the timer, on
vector `0x20` (`initPic_pitInit_only`).
-/

namespace KessOS

open Interaction I8259

variable {b b' : Board} {flags : BitVec 8} {r : Option Unit}

/-- Everything is masked but the timer, and nothing is in service. -/
structure TimerOnly (c : Settings) : Prop where
  master : c.master = { initialised 0x20 4 with imr := ~~~BitVec.twoPow 8 0 }
  slave : c.slave = initialised 0x28 2

namespace TimerOnly

variable (h : TimerOnly b.settings)

include h

theorem remapped : Remapped b.settings := by
  constructor
  · rw [h.master]
    rfl
  · rw [h.slave]

theorem master_pending :
    b.pics.master.pending = if b.pics.master.edges.getLsbD 0 then some 0 else none := by
  refine Chip.pending_of_only (i := 0) ?_ (congrArg Programmed.imr h.master)
    (congrArg Programmed.isr h.master)
  rw [show b.pics.master.icw1 = 0x11 from congrArg Programmed.icw1 h.master]
  rfl

/-- The processor is asked exactly while an edge of the timer waits. -/
theorem int_eq : b.pics.int = b.pics.master.edges.getLsbD 0 := by
  rw [Pair.int, Chip.int, h.master_pending]
  split_ifs with hedge
  · exact hedge.symm
  · simpa using hedge

/-- It finds the request of the timer, or that there is none any more. -/
theorem taken_eq : b.pics.taken =
    some (if b.pics.master.edges.getLsbD 0 then .request 0 else .spurious 7) := by
  have hicw3 := h.remapped.cascaded.getLsbD_icw3 0
  rw [Pair.taken, h.master_pending]
  split_ifs with hedge
  · show (if b.pics.master.icw3.getLsbD (0 : Fin 8) then _ else _) = _
    rw [hicw3]
    rfl
  · rfl

end TimerOnly

/-- `pit_init` takes the timer's bit out of the mask that `init_pic` leaves. -/
theorem initialised_unmask :
    (initialised 0x20 4).data ((initialised 0x20 4).imr &&& ~~~1) =
      { initialised 0x20 4 with imr := ~~~BitVec.twoPow 8 0 } := by
  decide

theorem initPic_pitInit_settings (hflags : flags &&& usingApic = 0)
    (h : Runs ports (initPic >>= fun _ => pitInit flags) b r b') :
    r = some () ∧ TimerOnly b'.settings ∧ b'.pit = Function.update b.pit 0 (squareWave 11931) := by
  obtain ⟨u, b₁, hpic, hpit⟩ := runs_bind.mp h
  have hpicSettings := initPic_settings hpic
  have hset := runs_settings hpit (pitInit_eval flags b₁.settings)
  rw [if_pos hflags, hpicSettings, initialised_unmask] at hset
  have hsettings := congrArg Prod.snd hset
  exact ⟨(congrArg Prod.fst hset).symm, ⟨(congrArg Settings.master hsettings).symm,
    (congrArg Settings.slave hsettings).symm⟩, (congrArg Settings.pit hsettings).symm⟩

/-- **Only the timer interrupts.**  The start of the interrupts leaves, from every state of the
controllers and the timer and whatever the lines do, a timer of 100 Hz; from then on the processor
is asked exactly while an edge of the timer waits, and finds vector `0x20` if it still does. -/
theorem initPic_pitInit_only (hflags : flags &&& usingApic = 0)
    (h : Runs ports (initPic >>= fun _ => pitInit flags) b r b') :
    r = some () ∧ (b'.pit 0).period = some 11931 ∧ (∀ i ≠ 0, b'.pit i = b.pit i) ∧
    ∀ b'', Relation.ReflTransGen ports.moves b' b'' →
      b''.pics.int = b''.pics.master.edges.getLsbD 0 ∧
      (b''.pics.int = true → b''.pics.taken = some (.request 0) ∧ b''.pics.vector 0 = 0x20) := by
  obtain ⟨rfl, honly, hpit⟩ := initPic_pitInit_settings hflags h
  refine ⟨rfl, ?_, fun i hi => ?_, fun b'' hmoves => ?_⟩
  · rw [hpit, Function.update_self]
    rfl
  · rw [hpit, Function.update_of_ne hi]
  · have hsettings : b''.settings = b'.settings := by
      induction hmoves with
      | refl => rfl
      | tail _ hmove ih =>
        obtain ⟨irq, high, rfl⟩ := hmove
        rw [settings_setLine, ih]
    rw [← hsettings] at honly
    refine ⟨honly.int_eq, fun hint => ⟨?_, honly.remapped.vector 0⟩⟩
    rw [honly.taken_eq, if_pos (honly.int_eq ▸ hint)]

/-- On an idle board. -/
theorem initPic_pitInit_only_idle :
    usingAcpi &&& usingApic = 0 ∧ ∃ r b',
      Runs ports (initPic >>= fun _ => pitInit usingAcpi) idleBoard r b' ∧
      (b'.pit 0).period = some 11931 := by
  have hrun : Runs ports (initPic >>= fun _ => pitInit usingAcpi) idleBoard _ _ :=
    runs_of_portsAct rfl
  exact ⟨by decide, _, _, hrun, (initPic_pitInit_only (by decide) hrun).2.1⟩

end KessOS
