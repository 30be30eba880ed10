import KessOS.Interrupt.Vectors
import KessOS.Kernel.Log

/-!
# The handlers of the exceptions

The macro `panic` of `exceptions.asm`, from its `cli` to its `hlt`, and the handlers that are made
with it, and `get_page_fault_code` of `exception_handling.c`.

The string of `hex2str` is a format of `log` here.  As it has no conversion in it, the buffer in
which it lies stays as it is.
-/

namespace KessOS

variable (mem : PhysMem)

/-- A call of `log` with no arguments for its format. -/
def logPlain (format : List (BitVec 8)) (status : Status) : LogM Unit := do
  modify fun s => { s with args := [] }
  log mem format status

/-- `call hex2str`, which returns a pointer to its buffer. -/
def callHex2str (hexNum : BitVec 32) : LogM (List (BitVec 8)) := do
  modify fun s => { s with hexString := ((hex2str hexNum).run s.hexString).2 }
  return (← get).hexString.text

def vectorFiredMsg : List (BitVec 8) := chars "VECTOR FIRED: "

def notice : List (BitVec 8) :=
  chars "System is now halted. When you are done debugging, push the power button." ++ [newline]

/-- The macro `panic`. -/
def panic (vec : BitVec 32) : LogM Unit := do
  onKernel (clearScreen 0x212E52)
  logPlain mem vectorFiredMsg .panic
  logPlain mem (← callHex2str vec) .other
  logPlain mem [newline] .other
  logPlain mem [newline] .other
  logPlain mem notice .other

/-! ### The handlers -/

def div0Handler : LogM Unit := panic mem 0x0
def debugException : LogM Unit := panic mem 0x1
def breakpointException : LogM Unit := panic mem 0x3
def overflowException : LogM Unit := panic mem 0x4
def boundrangeExceededException : LogM Unit := panic mem 0x5
def invalidOpcodeException : LogM Unit := panic mem 0x6
def devNotAvailException : LogM Unit := panic mem 0x7
def doubleFault : LogM Unit := panic mem 0x8
def invalidTssException : LogM Unit := panic mem 0xA
def segmentNotPresent : LogM Unit := panic mem 0xB
def stackSegmentFault : LogM Unit := panic mem 0xC
def generalProtectionFault : LogM Unit := panic mem 0xD
def pageFault : LogM Unit := panic mem 0xE

/-- What a handler of `exceptions.asm` runs; `irq0_handler` is not one of them. -/
def Handler.exception : Handler → Option (LogM Unit)
  | .div0Handler => some (KessOS.div0Handler mem)
  | .debugException => some (KessOS.debugException mem)
  | .breakpointException => some (KessOS.breakpointException mem)
  | .overflowException => some (KessOS.overflowException mem)
  | .boundrangeExceededException => some (KessOS.boundrangeExceededException mem)
  | .invalidOpcodeException => some (KessOS.invalidOpcodeException mem)
  | .devNotAvailException => some (KessOS.devNotAvailException mem)
  | .doubleFault => some (KessOS.doubleFault mem)
  | .invalidTssException => some (KessOS.invalidTssException mem)
  | .segmentNotPresent => some (KessOS.segmentNotPresent mem)
  | .stackSegmentFault => some (KessOS.stackSegmentFault mem)
  | .generalProtectionFault => some (KessOS.generalProtectionFault mem)
  | .pageFault => some (KessOS.pageFault mem)
  | .irq0Handler => none

/-! ### `get_page_fault_code` -/

/-- The flags, with what is logged for each. -/
def faultFlags : List (BitVec 16 × List (BitVec 8)) :=
  [(1 <<< 0, chars "P|"), (1 <<< 1, chars "W|"), (1 <<< 2, chars "U|"), (1 <<< 3, chars "R|"),
    (1 <<< 4, chars "I|"), (1 <<< 5, chars "PK|"), (1 <<< 6, chars "SS|")]

def faultNotice : List (BitVec 8) :=
  chars "\nBelow are error flags, take a photo of this screen and send it to " ++
    chars "[HSC] Spurious#0070 on Discord.\n\n"

/-- `get_page_fault_code`. -/
def getPageFaultCode (errorCode : BitVec 16) : LogM Unit := do
  logPlain mem faultNotice .other
  logPlain mem (chars "-|") .other
  faultFlags.forM fun flag => do
    if errorCode &&& flag.1 ≠ 0 then
      logPlain mem flag.2 .other
  logPlain mem (chars "-\n\n") .other

end KessOS
