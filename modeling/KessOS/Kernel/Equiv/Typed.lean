import KessOS.Kernel.Equiv.Log
import KessOS.Kernel.Init
import KessOS.Video.Equiv.Since

/-!
# What is typed until paging is on

`_start` types a fixed text until `CR3` is loaded, but for the number that `vmm_init` logs
(`startTexts`).  Where the console stands then is found by `Kernel.Typed`, which follows the
canvas and `kern_flags` from one log to the next.
-/

namespace KessOS

open Trace

variable {mem : PhysMem} {k k' k'' : Kernel} {ts ts' : List (BitVec 32 × BitVec 8)}

/-- From `k` to `k'` the console has typed `ts`, and `kern_flags` is as it was. -/
structure Kernel.Typed (ts : List (BitVec 32 × BitVec 8)) (k k' : Kernel) : Prop where
  canvas : k'.canvas = replay Canvas.act ts k.canvas
  kernFlags : k'.kernFlags = k.kernFlags

namespace Kernel.Typed

theorem refl (k : Kernel) : k.Typed [] k := ⟨rfl, rfl⟩

theorem trans (h : k.Typed ts k') (h' : k'.Typed ts' k'') : k.Typed (ts ++ ts') k'' where
  canvas := by rw [h'.canvas, h.canvas, replay_append]
  kernFlags := h'.kernFlags.trans h.kernFlags

theorem typeAll (h : k.Typed ts k') (mem : PhysMem) (ts' : List (BitVec 32 × BitVec 8)) :
    k.Typed (ts ++ ts') (k'.typeAll mem ts') := h.trans ⟨rfl, rfl⟩

theorem log (h : k.Typed ts k') (mem : PhysMem) (format : String) :
    k.Typed (ts ++ logged format .info) (k'.log mem format .info) :=
  h.trans ⟨log_canvas .., log_kernFlags ..⟩

end Kernel.Typed

theorem after_logText (mem : PhysMem) (format : String) (status : Status) (k : Kernel) :
    k.after (logText mem format status) = k.log mem format status :=
  congrArg Prod.snd (log_run mem format status k)

/-! ### The number -/

/-- What `vmm_init` types of `placement`. -/
def placementText (placement : BitVec 64) : List (BitVec 32 × BitVec 8) :=
  (Status.info.label ++ (chars "Allocation base set at " ++
    (hexText (placement.setWidth 32) ++ [newline]))).map (Prod.mk Status.info.color)

theorem expand_append (dec hex : Bytes) (str : List (BitVec 8)) (ps : List Piece)
    (args : List Arg) : expand dec hex (str.map .char ++ ps) args = str ++ expand dec hex ps args := by
  induction str with
  | nil => rfl
  | cons c str ih =>
    rw [List.map_cons, List.cons_append, expand, ih]
    rfl

/-- `log` with `%x`: the number is in the text, whatever is in the buffer of `hex2str`. -/
theorem logPlacement_run (mem : PhysMem) (s : Logger) (placement : BitVec 64) :
    ∃ s', (log mem (chars "Allocation base set at %x\n") .info).run
        { s with args := [.int (placement.setWidth 32)] } = .ok () s' ∧
      s'.kernel = s.kernel.typeAll mem (placementText placement) := by
  have hpieces : pieces (cString (chars "Allocation base set at %x\n")) =
      (chars "Allocation base set at ").map .char ++ [.hex, .char newline] := by decide
  have hmatches : Matches (pieces (cString (chars "Allocation base set at %x\n")))
      [.int (placement.setWidth 32)] := rfl
  obtain ⟨s', hrun, hkernel, -⟩ := log_run_kernel mem .info
    (s := { s with args := [.int (placement.setWidth 32)] }) hmatches
  refine ⟨s', hrun, ?_⟩
  have hprinted : Logger.printed { s with args := [.int (placement.setWidth 32)] }
      (chars "Allocation base set at %x\n") = chars "Allocation base set at " ++
        (hexText (placement.setWidth 32) ++ [newline]) := by
    rw [Logger.printed, Logger.expansion, hpieces, expand_append,
      ← text_hex2strFrom (placement.setWidth 32) s.hexString.bytes]
    rfl
  rw [hkernel, Kernel.after, kwrite_run, cString_label_append, hprinted]
  rfl

/-! ### The text -/

/-- What `vmm_init` types until `CR3` is loaded. -/
def vmmTexts (placement : BitVec 64) : List (BitVec 32 × BitVec 8) :=
  logged "Setting allocation base..\n" .info ++ placementText placement ++
    logged "Zeroing PML4..\n" .info ++
    logged "Identity mapping some address space for KessKernel..\n" .info ++
    logged "Finished mapping..\n" .info ++ logged "Loading PML4 into CR3 register..\n" .info

/-- What `init` types until then. -/
def initTexts (placement : BitVec 64) : List (BitVec 32 × BitVec 8) :=
  logged "Setting up Global Descriptor Table..\n" .info ++
    logged "Setting up exceptions..\n" .info ++ logged "Setting up IRQs..\n" .info ++
    logged "Loading IDTR with Interrupt Descriptor Table Pointer..\n" .info ++
    logged "Setting up L4 paging..\n" .info ++ vmmTexts placement

/-- What `_start` types until then. -/
def startTexts (placement : BitVec 64) : List (BitVec 32 × BitVec 8) :=
  logged "Welcome to KessOS Paranoid Edition!\n" .info ++ initTexts placement

/-- The console when `CR3` is loaded. -/
def pagedCanvas (lfb : Framebuffer) (font : Psf1Font) (placement : BitVec 64) (c : Canvas) :
    Canvas :=
  replay Canvas.act (startTexts placement) { c with lfb, font }

end KessOS
