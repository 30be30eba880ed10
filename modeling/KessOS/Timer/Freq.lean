import KessOS.Io.Port
import KessOS.Kernel.Basic

/-!
# Programming the interval timer

`pit_set_freq` and `pit_init` of `arch/timer/impl/pit.c`.
-/

namespace KessOS

/-- `pit_set_freq`; nothing is returned where the division by `freq_hz` is an exception. -/
def pitSetFreq (freqHz : BitVec 16) : PortM (Option Unit) := do
  if freqHz = 0 then return none
  let divisor : BitVec 32 := 1193180#32 / freqHz.setWidth 32
  outportb channel3 0x36
  outportb channel0 ((divisor &&& 0xFF#32).setWidth 8)
  ioWait
  outportb channel0 ((divisor.sshiftRight 8).setWidth 8)
  return some ()

/-- `pit_init`. -/
def pitInit (kernFlags : BitVec 8) : PortM (Option Unit) := do
  match ← pitSetFreq 100 with
  | none => return none
  | some () =>
    if kernFlags &&& usingApic = 0 then
      outportb pic1Data ((← inportb pic1Data) &&& ~~~1)
    return some ()

end KessOS
