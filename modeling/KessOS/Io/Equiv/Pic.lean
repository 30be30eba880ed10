import KessOS.Io.Equiv.Port
import KessOS.Io.Pic

/-!
# What the interrupt controllers are programmed to

`init_pic` leaves the two controllers in one state, whatever state it finds them in and whatever
the lines do in the meantime (`initPic_settings`).  `PIC_sendEOI` ends what has the highest
priority (`picSendEoi_settings`).
-/

namespace KessOS

open Interaction I8259

variable {b b' : Board} {u : Unit} {irq : BitVec 8}

/-- A controller in the 8086 mode, with edges for requests, that masks them all. -/
def initialised (vector cascade : BitVec 8) : Programmed where
  expects := .ocw1
  icw1 := 0x11
  icw2 := vector
  icw3 := cascade
  icw4 := 1
  imr := 0xFF
  isr := 0

/-- The state of the controllers before does not matter, be it in the middle of an
initialisation. -/
theorem initPic_settings (h : Runs ports initPic b u b') :
    b'.settings =
      { b.settings with master := initialised 0x20 4, slave := initialised 0x28 2 } := by
  have heval : initPic.eval settingsAct b.settings =
      some ((), { b.settings with master := initialised 0x20 4, slave := initialised 0x28 2 }) := by
    with_unfolding_all rfl
  exact (congrArg Prod.snd (runs_settings h heval)).symm

/-- The slave gets an end of interrupt if the request was its own, the master in any case. -/
theorem picSendEoi_settings (h : Runs ports (picSendEoi irq) b u b') :
    b'.settings = { b.settings with
      master := b.pics.master.eoi
      slave := if irq ≥ 8 then b.pics.slave.eoi else b.pics.slave.toProgrammed } := by
  have heval : (picSendEoi irq).eval settingsAct b.settings = some ((), { b.settings with
      master := b.pics.master.eoi
      slave := if irq ≥ 8 then b.pics.slave.eoi else b.pics.slave.toProgrammed }) := by
    unfold picSendEoi
    split_ifs <;> rfl
  exact (congrArg Prod.snd (runs_settings h heval)).symm

end KessOS
