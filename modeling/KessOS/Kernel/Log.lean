import KessOS.Util.Strings

/-!
# The formats of `log`

`log` of `kernel.c`, with its variable arguments.  The format, and the strings among the arguments,
lie in memory that `log` does not write to, but a string may also lie in the static buffer of
`dec2str` or of `hex2str`, which both return a pointer to it.
-/

namespace KessOS

/-- A `char*`, to a string that nobody writes to or into one of the static buffers. -/
inductive StringPtr
  | constant (str : List (BitVec 8))
  | decString (offset : Fin stringSize)
  | hexString (offset : Fin stringSize)
deriving DecidableEq, Repr

/-- The string at a pointer, with `dec` and `hex` in the buffers. -/
def StringPtr.text (dec hex : Bytes) : StringPtr → List (BitVec 8)
  | constant str => cString str
  | decString offset => StaticString.textFrom ⟨dec, []⟩ offset
  | hexString offset => StaticString.textFrom ⟨hex, []⟩ offset

/-- A variable argument. -/
inductive Arg
  | string (ptr : StringPtr)
  | int (value : BitVec 32)
deriving DecidableEq, Repr

/-- What `va_arg` has no result for: there is no argument left, or it is of another type. -/
inductive VaError
  | missing
  | mismatch
deriving DecidableEq, Repr

/-- The globals that `log` uses, and the arguments that are left. -/
structure Logger where
  kernel : Kernel
  decString : StaticString
  hexString : StaticString
  args : List Arg

abbrev LogM := EStateM VaError Logger

def onKernel (x : KernelM Unit) : LogM Unit := modify fun s => { s with kernel := s.kernel.after x }

/-- `va_start`, whose second argument the compiler only looks at for a warning. -/
def vaStart (_status : BitVec 32) : LogM Unit := return

/-- `va_arg`. -/
def vaArg : LogM Arg := do
  match (← get).args with
  | [] => throw .missing
  | arg :: args =>
    modify fun s => { s with args := args }
    return arg

/-- `va_arg(ptr, const char*)`. -/
def vaString : LogM StringPtr := do
  match ← vaArg with
  | .string ptr => return ptr
  | .int _ => throw .mismatch

/-- `va_arg(ptr, int)`. -/
def vaInt : LogM (BitVec 32) := do
  match ← vaArg with
  | .int value => return value
  | .string _ => throw .mismatch

/-- The ASCII codes. -/
def percent : BitVec 8 := 0x25
def asciiS : BitVec 8 := 0x73
def asciiD : BitVec 8 := 0x64

/-- The first loop of `log`: it steps over a conversion and over the character behind it, and
`%x` is not counted. -/
def countArgs : List (BitVec 8) → ℕ
  | [] => 0
  | [_] => 0
  | [c, c'] => if c = percent ∧ (c' = asciiS ∨ c' = asciiD) then 1 else 0
  | c :: c' :: c'' :: rest =>
    if c = percent ∧ (c' = asciiS ∨ c' = asciiD) then countArgs rest + 1
    else countArgs (c' :: c'' :: rest)

variable (mem : PhysMem) (color : BitVec 32)

/-- `char terminated[2] = {c, 0x0}`, and its `kwrite`. -/
def logChar (c : BitVec 8) : LogM Unit := onKernel (kwrite mem [c, 0] color)

/-- `case 's'`. -/
def logString : LogM Unit := do
  let arg ← vaString
  let s ← get
  (arg.text s.decString.bytes s.hexString.bytes).forM (logChar mem color)

/-- `case 'd'`. -/
def logDec : LogM Unit := do
  let arg ← vaInt
  modify fun s => { s with decString := ((dec2str arg).run s.decString).2 }
  onKernel (kwrite mem (← get).decString.text color)

/-- `case 'x'`. -/
def logHex : LogM Unit := do
  let arg ← vaInt
  modify fun s => { s with hexString := ((hex2str arg).run s.hexString).2 }
  onKernel (kwrite mem (← get).hexString.text color)

/-- The second loop of `log`, on the rest of the format. -/
def logLoop : List (BitVec 8) → LogM Unit
  | [] => return
  | [c] => logChar mem color c
  | c :: c' :: rest => do
    if c = percent then
      if c' = asciiS then
        logString mem color
        logLoop rest
      else if c' = asciiD then
        logDec mem color
        logLoop rest
      else if c' = asciiX then
        logHex mem color
        logLoop rest
      else
        logChar mem color c
        logLoop (c' :: rest)
    else
      logChar mem color c
      logLoop (c' :: rest)

/-- `switch (s)`, which has no `default`. -/
def logLabel (status : Status) : LogM Unit :=
  unless status = .other do
    onKernel (kwrite mem status.label status.color)

/-- `log`. -/
def log (format : List (BitVec 8)) (status : Status) : LogM Unit := do
  vaStart (BitVec.ofNat 32 (countArgs (cString format)))
  logLabel mem status
  logLoop mem status.color (cString format)

end KessOS
