import KessOS.Acpi.Basic

/-!
# The start of the kernel

`init` and `_start` of `kernel.c` from the moment on that `vmm_init` has loaded `CR3`.  What they
do to ports and to the flags of the processor is left out, as is the time that `pit_sleep` takes.
-/

namespace KessOS

variable (mem : PhysMem)

/-- The end of `vmm_init` and of `init`. -/
def initAfterPaging (rsdp : Addr) : KernelM Unit := do
  logText mem "Finished setting up VMM.\n" .info
  logText mem "Setting IOPL of EFLAGS to 0 (ring 0 access only).\n" .info
  logText mem "Setting up ACPI..\n" .info
  acpiInit mem rsdp
  setFlags (· &&& ~~~usingApic)

/-- `UNGLITCH_ARG` of `pit_sleep`, which logs nothing with a status of -1. -/
def unglitchArg : KernelM Unit := logText mem "" .other

/-- The end of `_start`, up to its loop. -/
def startAfterPaging (rsdp : Addr) : KernelM Unit := do
  initAfterPaging mem rsdp
  unglitchArg mem
  clearScreen 0x000000
  logText mem "Hello, World!\n" .info

end KessOS
