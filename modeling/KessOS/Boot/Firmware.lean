import KessOS.Copy.Blocks
import KessOS.Memory.Byte
import KessOS.Memory.Bytes

/-!
# Firmware that may fail

What the services of the firmware answer to the calls of the bootloader, and `loadFile`, which
opens a file.  A call that fails leaves its out-pointer `NULL` or unset, which is `none` here, and
following such a pointer is the end of the run, with a `Fault`.  That holds for the calls of the
firmware too: `Read` follows the pointer to the buffer if it has bytes to put there.

`SetPosition` may fail and leave the position anywhere.  `Read` may fail and leave anything in the
buffer; if it succeeds, it has put there what the file holds from the position on, up to the size.
-/

namespace KessOS

/-- A pointer that is `NULL`, or was never set, is followed; or a loop goes on for too long. -/
inductive Fault
  | badPointer
  | outOfFuel
deriving DecidableEq, Repr

abbrev BootM := Except Fault

/-- `*p` -/
def follow {α : Type} : Option α → BootM α
  | some a => pure a
  | none => throw .badPointer

/-- What a `Read` answers; one that fails may have put some bytes into the buffer. -/
inductive ReadAnswer
  | success
  | failure (left : List (BitVec 8))
deriving DecidableEq, Repr

/-- The bytes that a `Read` puts into the buffer. -/
def ReadAnswer.bytes (answer : ReadAnswer) (file : List (BitVec 8)) (position : ℕ)
    (size : BitVec 64) : List (BitVec 8) :=
  match answer with
  | success => (file.drop position).take size.toNat
  | failure left => left.take size.toNat

/-- What a `SetPosition` answers; one that fails leaves the position somewhere. -/
inductive SeekAnswer
  | success
  | failure (position : ℕ)
deriving DecidableEq, Repr

/-- The position after a `SetPosition`. -/
def SeekAnswer.position (answer : SeekAnswer) (asked : BitVec 64) : ℕ :=
  match answer with
  | success => asked.toNat
  | failure position => position

/-- A buffer that `AllocatePool` hands out, with what it holds. -/
structure Pool where
  addr : Addr
  bytes : Bytes

/-- `Read` into a buffer. -/
def Pool.fill (pool : Option Pool) (bytes : List (BitVec 8)) : BootM (Option Pool) :=
  match pool with
  | some pool => pure (some { pool with bytes := Copy.Block.put pool.bytes ⟨0, bytes⟩ })
  | none => if bytes = [] then pure none else throw .badPointer

/-- What the calls of `loadFile` answer: `HandleProtocol` of the image and of its volume,
`OpenVolume`, and `Open`. -/
structure FileAnswers where
  loadedImage : Option Addr
  fs : Option Addr
  dir : Option Addr
  file : Option Addr

/-- `loadFile` of a file with the contents `file`, and `NULL` for `dir`. -/
def loadFile (fw : FileAnswers) (file : List (BitVec 8)) : BootM (Option (List (BitVec 8))) := do
  let _ ← follow fw.loadedImage
  let _ ← follow fw.fs
  let _ ← follow fw.dir
  return fw.file.map fun _ => file

end KessOS
