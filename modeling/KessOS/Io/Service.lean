import KessOS.Io.Pic
import Mathlib.Logic.Relation

/-!
# Interrupts in service

Handlers that end with `PIC_sendEOI`, one inside the other: while a handler is in progress another
request may be taken, and the one that was taken last is the first to return.  All the while lines
go up and down and masks are written.
-/

namespace KessOS

open Interaction I8259

/-- The controllers, and what the handlers in progress were taken for, the innermost first. -/
structure Serving where
  board : Board
  handlers : List Taken

/-- A handler of a spurious request 7 must not send an end of interrupt into a handler that holds a
level: it returns without one (`dismiss`), or no other handler holds a level. -/
inductive Serving.Step : Serving → Serving → Prop
  | line (s : Serving) (irq : Fin 16) (high : Bool) :
      Step s { s with board := s.board.setLine irq high }
  | mask (s : Serving) (port : BitVec 16) (data : BitVec 8) :
      port = pic1Data ∨ port = pic2Data → Step s { s with board := s.board.write port data }
  | take (s : Serving) (t : Taken) : s.board.pics.taken = some t →
      Step s ⟨{ s.board with pics := s.board.pics.acknowledge }, t :: s.handlers⟩
  | finish (b b' : Board) (t : Taken) (handlers : List Taken) :
      (t.level = none → handlers.filterMap Taken.level = []) →
      Runs ports (picSendEoi (BitVec.ofNat 8 t.irq)) b () b' →
      Step ⟨b, t :: handlers⟩ ⟨b', handlers⟩
  | dismiss (b : Board) (t : Taken) (handlers : List Taken) :
      t.level = none → Step ⟨b, t :: handlers⟩ ⟨b, handlers⟩

end KessOS
