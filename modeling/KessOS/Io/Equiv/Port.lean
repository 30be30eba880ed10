import KessOS.Device.Equiv.I8259
import KessOS.Io.Port

/-!
# What is programmed through the ports

The lines of the devices do not touch what is programmed into the controllers and the timer, so a
program that reads nothing but the masks does to it what an evaluation with `settingsAct` says,
whatever the lines do in the meantime (`runs_settings`).
-/

namespace KessOS

open Interaction I8259

variable {b b' : Board}

/-- What is programmed into the devices. -/
structure Settings where
  master : Programmed
  slave : Programmed
  pit : I8254.Timer

def Board.settings (b : Board) : Settings where
  master := b.pics.master.toProgrammed
  slave := b.pics.slave.toProgrammed
  pit := b.pit

/-- What a byte at a port does to it. -/
def Settings.write (c : Settings) (port : BitVec 16) (data : BitVec 8) : Settings :=
  if port = pic1Command then { c with master := c.master.command data }
  else if port = pic1Data then { c with master := c.master.data data }
  else if port = pic2Command then { c with slave := c.slave.command data }
  else if port = pic2Data then { c with slave := c.slave.data data }
  else if port = channel0 then { c with pit := I8254.Timer.data c.pit I8254.counter0 data }
  else if port = channel1 then { c with pit := I8254.Timer.data c.pit I8254.counter1 data }
  else if port = channel2 then { c with pit := I8254.Timer.data c.pit I8254.counter2 data }
  else if port = channel3 then { c with pit := I8254.Timer.control c.pit data }
  else c

/-- What a call does to it, and the answer; of the registers only the masks are known. -/
def settingsAct : (o : PortOp) → Settings → Option (o.Ans × Settings)
  | .inb port, c =>
    if port = pic1Data then some (c.master.imr, c)
    else if port = pic2Data then some (c.slave.imr, c)
    else none
  | .outb port data, c => some ((), c.write port data)

@[simp] theorem settings_setLine (b : Board) (irq : Fin 16) (high : Bool) :
    (b.setLine irq high).settings = b.settings := by
  obtain ⟨hmaster, hslave⟩ := b.pics.setLine_toProgrammed irq high
  simp [Board.settings, Board.setLine, hmaster, hslave]

@[simp] theorem settings_write (b : Board) (port : BitVec 16) (data : BitVec 8) :
    (b.write port data).settings = b.settings.write port data := by
  unfold Board.write Settings.write
  split_ifs
  · rfl
  · rfl
  · simp [Board.settings, Pair.slaveCommand, Chip.command]
  · simp [Board.settings, Pair.slaveData, Chip.data]
  all_goals rfl

/-- **What a program leaves in the devices.** -/
theorem runs_settings {α : Type} {p : PortM α} {a : α} (h : Runs ports p b a b')
    {r : α × Settings} (hr : p.eval settingsAct b.settings = some r) : r = (a, b'.settings) := by
  have hans : ∀ (o : PortOp) (b : Board) (x : o.Ans) (b' : Board) (r : o.Ans × Settings),
      ports.answers o b x b' → settingsAct o b.settings = some r → r = (x, b'.settings) := by
    intro o b x b' r hans hr
    cases o with
    | inb port =>
      obtain ⟨hread, rfl⟩ := hans
      simp only [settingsAct] at hr
      split_ifs at hr with hmaster hslave
      · cases hr
        rw [hread.1 hmaster]
        rfl
      · cases hr
        rw [hread.2 hslave]
        rfl
    | outb port data =>
      cases hr
      rw [show b' = b.write port data from hans, settings_write]
  have hmoves : ∀ b b' : Board, ports.moves b b' → b'.settings = b.settings := by
    rintro b b' ⟨irq, high, rfl⟩
    exact settings_setLine b irq high
  exact h.eval hans hmoves hr

/-! ### A run without interruption -/

/-- The answers of the devices, with one choice for the bytes of which nothing is said. -/
def portsAct : (o : PortOp) → Board → Option (o.Ans × Board)
  | .inb port, b => some (if port = pic2Data then b.pics.slave.imr else b.pics.master.imr, b)
  | .outb port data, b => some ((), b.write port data)

/-- The masks are at two ports. -/
theorem reads_mask (b : Board) (port : BitVec 16) :
    b.Reads port (if port = pic2Data then b.pics.slave.imr else b.pics.master.imr) :=
  ⟨fun hport => if_neg (hport ▸ by decide), fun hport => if_pos hport⟩

theorem runs_of_portsAct {α : Type} {p : PortM α} {a : α}
    (h : p.eval portsAct b = some (a, b')) : Runs ports p b a b' := by
  refine runs_of_eval (fun o b r hr => ?_) h
  cases o with
  | inb port =>
    cases hr
    exact ⟨reads_mask b port, rfl⟩
  | outb port data =>
    cases hr
    rfl

/-- A board that nothing has been programmed into. -/
def idleBoard : Board where
  pics := ⟨⟨⟨.ocw1, 0, 0, 0, 0, 0, 0⟩, 0, 0⟩, ⟨⟨.ocw1, 0, 0, 0, 0, 0, 0⟩, 0, 0⟩⟩
  pit := fun _ => ⟨0, 0, false, none, none⟩

end KessOS
