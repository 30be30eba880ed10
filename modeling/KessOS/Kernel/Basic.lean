import KessOS.Memory.Byte

/-!
# The state of the kernel

The globals of `kernel.c` and `acpi.c`, and what the kernel does to memory by way of the things
that the bootloader hands over.  Its own image, with its code, its statics and its string
literals, is left out: no access to it is recorded.

What is handed over lies in physical memory, which stays as it is: the only memory that is
written is that of the framebuffer, which is apart.
-/

namespace KessOS

/-- What an access is to. -/
inductive Handed
  | framebuffer
  | font
  | fontHeader
  | glyph
  | rsdp
  | rsdt
  | slot (i : ℕ)
  | table
deriving DecidableEq, Repr

/-- What the kernel does: it reads, it calls `putChar`, which colours pixels, and it clears. -/
inductive Access
  | read (what : Handed) (addr : Addr) (size : ℕ)
  | putChar (chr : BitVec 8) (xOff yOff : BitVec 32)
  | pixel (x y : ℕ) (addr : Addr) (color : BitVec 32)
  | clear (addr : Addr) (color : BitVec 32)
deriving DecidableEq, Repr

/-- The bytes that an access is to. -/
def Access.Touches (b : Addr) : Access → Prop
  | .read _ addr size => ∃ i < size, b = addr + BitVec.ofNat 64 i
  | .putChar .. => False
  | .pixel _ _ addr _ => ∃ i < 4, b = addr + BitVec.ofNat 64 i
  | .clear addr _ => ∃ i < 4, b = addr + BitVec.ofNat 64 i

/-- The bytes that an access is to are in `C`. -/
def Access.Within (C : Addr → Prop) (a : Access) : Prop := ∀ b, a.Touches b → C b

/-- `framebuffer_t`, and where it lies. -/
structure Framebuffer where
  addr : Addr
  baseAddr : Addr
  width : BitVec 32
  height : BitVec 32
  ppsl : BitVec 32
deriving DecidableEq, Repr

/-- `psf1_font_t` with the header that it points to, and where it lies. -/
structure Psf1Font where
  addr : Addr
  header : Addr
  chsize : BitVec 8
  glyphBuffer : Addr
deriving DecidableEq, Repr

/-- `canvas_t`. -/
structure Canvas where
  x : BitVec 32
  y : BitVec 32
  prevX : BitVec 32
  lfb : Framebuffer
  font : Psf1Font
deriving DecidableEq, Repr

/-- The bits of `kern_flags`. -/
def usingApic : BitVec 8 := 1#8 <<< 0
def usingAcpi : BitVec 8 := 1#8 <<< 1

/-- The globals, and what has been done so far. -/
structure Kernel where
  canvas : Canvas
  kernFlags : BitVec 8
  rsdt : Addr
  apicMadt : Addr
  trace : List Access

abbrev KernelM := StateM Kernel

def access (a : Access) : KernelM Unit := modify fun k => { k with trace := k.trace ++ [a] }

def modifyCanvas (f : Canvas → Canvas) : KernelM Unit :=
  modify fun k => { k with canvas := f k.canvas }

/-- `canvas`, as it is initialised. -/
def Canvas.initial (lfb : Framebuffer) (font : Psf1Font) : Canvas where
  x := 0
  y := 55
  prevX := 0
  lfb := lfb
  font := font

/-- The globals as `_start` finds them, with the framebuffer and the font that it gets. -/
def Kernel.start (lfb : Framebuffer) (font : Psf1Font) : Kernel where
  canvas := .initial lfb font
  kernFlags := 0x0#8 ||| usingAcpi
  rsdt := 0
  apicMadt := 0
  trace := []

/-- The kernel after more accesses. -/
def Kernel.did (k : Kernel) (as : List Access) : Kernel := { k with trace := k.trace ++ as }

/-- The kernel after `x`. -/
def Kernel.after (k : Kernel) (x : KernelM Unit) : Kernel := (x.run k).2

/-- What the kernel did from `k` to `k'`. -/
def Kernel.since (k k' : Kernel) : List Access := k'.trace.drop k.trace.length

end KessOS
