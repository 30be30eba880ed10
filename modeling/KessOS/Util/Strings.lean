import KessOS.Video.Console

/-!
# Strings of numbers

`dec2str`, `hex2str` and `strncpy` of `util/impl/string.c`.  Each of the first two has a static
buffer of 80 bytes, writes the digits of its number into it from the last one on, and reverses the
string in place.

Arithmetic is done exactly and then cut to the width of the type, as the compiled code does it.
What is done is recorded, to tell afterwards whether anything was cut off, and where in the buffer
the accesses were.
-/

namespace KessOS

/-- What the functions do: arithmetic in `int` and in `uint8_t`, with its exact result, and
accesses to the buffer. -/
inductive StringStep
  | int (exact : ℤ)
  | byte (exact : ℤ)
  | index (i : ℕ)
deriving DecidableEq, Repr

/-- The size of `dec_string`, and of `hex_string`. -/
def stringSize : ℕ := 80

/-- Nothing is cut off, and the access is to the buffer. -/
def StringStep.InRange : StringStep → Prop
  | .int exact => -2 ^ 31 ≤ exact ∧ exact < 2 ^ 31
  | .byte exact => 0 ≤ exact ∧ exact < 2 ^ 8
  | .index i => i < stringSize

/-- A static buffer, with the memory behind it, and what has been done so far. -/
structure StaticString where
  bytes : Bytes
  steps : List StringStep

abbrev StringM := StateM StaticString

namespace StaticString

/-- The string at `offset` of the buffer, up to its `NUL`. -/
def textFrom (s : StaticString) (offset : ℕ) : List (BitVec 8) :=
  cString ((List.range' offset (stringSize - offset)).map s.bytes)

/-- The string in the buffer. -/
def text (s : StaticString) : List (BitVec 8) := s.textFrom 0

end StaticString

def note (step : StringStep) : StringM Unit := modify fun s => { s with steps := s.steps ++ [step] }

/-- An `int` with the exact result of an operation. -/
def int (exact : ℤ) : StringM (BitVec 32) := do
  note (.int exact)
  return BitVec.ofInt 32 exact

/-- A `uint8_t` that gets the exact result of an operation. -/
def uint8 (exact : ℤ) : StringM (BitVec 8) := do
  note (.byte exact)
  return BitVec.ofInt 8 exact

def loadAt (i : BitVec 8) : StringM (BitVec 8) := do
  note (.index i.toNat)
  return (← get).bytes i.toNat

def storeAt (i c : BitVec 8) : StringM Unit := do
  note (.index i.toNat)
  modify fun s => { s with bytes := Function.update s.bytes i.toNat c }

/-- `buffer[i++] = c`; returns the new `i`. -/
def storeNext (i c : BitVec 8) : StringM (BitVec 8) := do
  storeAt i c
  uint8 (i.toNat + 1)

/-- `if (p) buffer[i++] = c`. -/
def storeNextIf (p : Prop) [Decidable p] (i c : BitVec 8) : StringM (BitVec 8) :=
  if p then storeNext i c else return i

/-- The ASCII codes. -/
def asciiZero : BitVec 8 := 0x30
def asciiMinus : BitVec 8 := 0x2D
def asciiX : BitVec 8 := 0x78

/-- `for (j = 0; j < i; j++, i--)`, with `j` and `i` for where they are. -/
def swapEnds (j i : BitVec 8) : StringM Unit :=
  if h : j < i then do
    let temp ← loadAt j
    storeAt j (← loadAt i)
    storeAt i temp
    note (.byte (j.toNat + 1))
    note (.byte (i.toNat - 1))
    swapEnds (j + 1) (i - 1)
  else
    return
termination_by i.toNat - j.toNat
decreasing_by
  have hlt := BitVec.lt_def.mp h
  have hone : (1 : BitVec 8).toNat = 1 := rfl
  rw [BitVec.toNat_add, BitVec.toNat_sub, hone]
  omega

/-- The `NUL`, and the reversal, with which both functions end. -/
def finish (i : BitVec 8) : StringM Unit := do
  storeAt i 0
  swapEnds 0 (← uint8 (i.toNat - 1))

/-! ### `dec2str` -/

theorem toInt_tdiv_ten {number : BitVec 32} (h : 0 < number.toInt) :
    (BitVec.ofInt 32 (number.toInt.tdiv 10)).toInt = number.toInt / 10 := by
  have hlt := BitVec.toInt_lt (x := number)
  rw [Int.tdiv_eq_ediv_of_nonneg h.le]
  exact BitVec.toInt_ofInt_eq_self (by decide) (by omega) (by omega)

/-- `while (number > 0)`; returns the value of `i` at its end. -/
def decDigits (number : BitVec 32) (i : BitVec 8) : StringM (BitVec 8) :=
  if h : 0 < number.toInt then do
    let digit ← int (number.toInt.tmod 10 + asciiZero.toNat)
    storeAt i (← uint8 digit.toInt)
    note (.int (number.toInt.tdiv 10))
    decDigits (BitVec.ofInt 32 (number.toInt.tdiv 10)) (← uint8 (i.toNat + 1))
  else
    return i
termination_by number.toInt.toNat
decreasing_by
  rw [toInt_tdiv_ten h]
  omega

/-- `if (number == 0)`, `else if (number < 0)`; returns `number` and `i`. -/
def decStart (number : BitVec 32) : StringM (BitVec 32 × BitVec 8) :=
  if number = 0 then
    return (number, ← storeNext 0 asciiZero)
  else if number.toInt < 0 then
    return (← int (-number.toInt), 0)
  else
    return (number, 0)

/-- `dec2str`. -/
def dec2str (number : BitVec 32) : StringM Unit := do
  let negative := number.toInt < 0
  let (number, i) ← decStart number
  let i ← decDigits number i
  let i ← storeNextIf negative i asciiMinus
  finish i

/-! ### `hex2str` -/

/-- `ascii_numbers`. -/
def asciiNumbers : Bytes := literal "0123456789ABCDEF"

/-- `while (hex_num > 0)`; returns the value of `i` at its end. -/
def hexDigits (hexNum : BitVec 32) (i : BitVec 8) : StringM (BitVec 8) :=
  if 0 < hexNum then do
    let nibble := hexNum.setWidth 8 &&& 0x0F
    storeAt i (asciiNumbers nibble.toNat)
    hexDigits (hexNum >>> 4) (← uint8 (i.toNat + 1))
  else
    return i
termination_by hexNum.toNat
decreasing_by
  have hpos : 0 < hexNum.toNat := BitVec.lt_def.mp ‹0 < hexNum›
  rw [BitVec.toNat_ushiftRight, Nat.shiftRight_eq_div_pow]
  omega

/-- `strncpy` to the start of the buffer, from `i` on. -/
def strncpy (src : Bytes) (len : BitVec 8) (i : BitVec 8) : StringM Unit :=
  if h : src i.toNat ≠ 0 ∧ i < len then do
    storeAt i (src i.toNat)
    note (.byte (i.toNat + 1))
    strncpy src len (i + 1)
  else
    return
termination_by len.toNat - i.toNat
decreasing_by
  have hlt := BitVec.lt_def.mp h.2
  have hone : (1 : BitVec 8).toNat = 1 := rfl
  rw [BitVec.toNat_add, hone]
  omega

/-- `if (hex_num == 0)`; returns `i`. -/
def hexStart (hexNum : BitVec 32) : StringM (BitVec 8) :=
  if hexNum = 0 then do
    strncpy (literal "0\x00") 2 0
    return 1
  else
    return 0

/-- `hex2str`. -/
def hex2str (hexNum : BitVec 32) : StringM Unit := do
  let i ← hexStart hexNum
  let pad := hexNum < 0x10
  let i ← hexDigits hexNum i
  let i ← storeNextIf pad i asciiZero
  let i ← storeNext i asciiX
  let i ← storeNext i asciiZero
  finish i

end KessOS
