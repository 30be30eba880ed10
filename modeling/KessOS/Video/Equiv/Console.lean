import Mathlib.Data.List.TakeWhile
import KessOS.Monad.State
import KessOS.Trace.Output
import KessOS.Video.Console

/-!
# Runs of the console

Typing a character takes the canvas from one state to the next and makes some accesses, so a run
of `kwrite` is a replay of the characters on the canvas (`kwrites_run`), and what it does to memory
is what the characters put out.
-/

namespace KessOS

open StateM Trace

variable {mem : PhysMem} {color : BitVec 32} {chr : BitVec 8} {k : Kernel}

/-! ### Accesses -/

@[simp] theorem did_nil (k : Kernel) : k.did [] = k := by
  simp [Kernel.did]

@[simp] theorem did_did (k : Kernel) (as as' : List Access) :
    (k.did as).did as' = k.did (as ++ as') := by
  simp [Kernel.did]

@[simp] theorem did_canvas (k : Kernel) (as : List Access) : (k.did as).canvas = k.canvas := rfl

@[simp] theorem did_kernFlags (k : Kernel) (as : List Access) :
    (k.did as).kernFlags = k.kernFlags := rfl

@[simp] theorem did_rsdt (k : Kernel) (as : List Access) : (k.did as).rsdt = k.rsdt := rfl

@[simp] theorem did_apicMadt (k : Kernel) (as : List Access) :
    (k.did as).apicMadt = k.apicMadt := rfl

@[simp] theorem did_trace (k : Kernel) (as : List Access) : (k.did as).trace = k.trace ++ as := rfl

theorem access_run (a : Access) (k : Kernel) : (access a).run k = ((), k.did [a]) := rfl

theorem forM_access_run (as : List Access) (k : Kernel) :
    (as.forM access).run k = ((), k.did as) := by
  rw [run_forM_of_eq access_run]
  congr 1
  induction as generalizing k with
  | nil => simp
  | cons a as ih =>
    rw [List.foldl_cons, ih, did_did]
    rfl

/-- What holds of every access of `putChar`. -/
theorem forall_mem_putChar {fb : Framebuffer} {font : Psf1Font} {xOff yOff : BitVec 32}
    {P : Access → Prop} : (∀ a ∈ putChar mem fb font color chr xOff yOff, P a) ↔
      (P (.putChar chr xOff yOff) ∧ P (.read .framebuffer fb.addr 8) ∧
        P (.read .font (font.addr + 8) 8) ∧ P (.read .font font.addr 8) ∧
        P (.read .fontHeader (font.header + 3) 1)) ∧
      ∀ y ∈ span yOff (yOff + 16), ∀ x ∈ span xOff (xOff + 8),
        let row := fontPtr font chr + BitVec.ofNat 64 (y - yOff.toNat)
        P (.read .glyph row 1) ∧
          (BitVec.slt 0 (glyphBit (loadByte mem row) (x - xOff.toNat)) →
            P (.read .framebuffer (fb.addr + 24) 4) ∧ P (.pixel x y (pixelAddr fb x y) color)) := by
  unfold putChar
  rw [List.forall_mem_append]
  refine and_congr (by simp) ?_
  rw [List.forall_mem_flatMap]
  refine forall₂_congr fun y _ => ?_
  rw [List.forall_mem_flatMap]
  refine forall₂_congr fun x _ => ?_
  rw [List.forall_mem_cons]
  refine and_congr_right fun _ => ?_
  split_ifs with hbit
  · rw [List.forall_mem_cons, List.forall_mem_singleton]
    exact ⟨fun h _ => h, fun h => h hbit⟩
  · exact ⟨fun _ h => absurd h hbit, fun _ a ha => absurd ha List.not_mem_nil⟩

/-! ### Typing -/

namespace Canvas

/-- The canvas after a character. -/
def type (chr : BitVec 8) (c : Canvas) : Canvas :=
  if chr = newline then { c with x := c.prevX, y := c.y + 20 }
  else { c.wrapped with x := c.x + 8 }

/-- The accesses that a character makes. -/
def typing (mem : PhysMem) (color : BitVec 32) (chr : BitVec 8) (c : Canvas) : List Access :=
  if chr = newline then []
  else .read .framebuffer (c.lfb.addr + 20) 4 ::
    putChar mem c.lfb c.font color chr c.x c.wrapped.y

@[simp] theorem wrapped_x (c : Canvas) : c.wrapped.x = c.x := by
  unfold wrapped
  split_ifs <;> rfl

@[simp] theorem wrapped_lfb (c : Canvas) : c.wrapped.lfb = c.lfb := by
  unfold wrapped
  split_ifs <;> rfl

@[simp] theorem wrapped_font (c : Canvas) : c.wrapped.font = c.font := by
  unfold wrapped
  split_ifs <;> rfl

@[simp] theorem type_lfb (chr : BitVec 8) (c : Canvas) : (c.type chr).lfb = c.lfb := by
  unfold type
  split_ifs
  · rfl
  · exact wrapped_lfb c

@[simp] theorem type_font (chr : BitVec 8) (c : Canvas) : (c.type chr).font = c.font := by
  unfold type
  split_ifs
  · rfl
  · exact wrapped_font c

end Canvas

/-- The kernel after a character. -/
def Kernel.type (mem : PhysMem) (color : BitVec 32) (chr : BitVec 8) (k : Kernel) : Kernel :=
  { k.did (k.canvas.typing mem color chr) with canvas := k.canvas.type chr }

theorem get_run (k : Kernel) : (get : KernelM Kernel).run k = (k, k) := rfl

theorem modifyCanvas_run (f : Canvas → Canvas) (k : Kernel) :
    (modifyCanvas f).run k = ((), { k with canvas := f k.canvas }) := rfl

theorem kwriteChar_run (mem : PhysMem) (color : BitVec 32) (chr : BitVec 8) (k : Kernel) :
    (kwriteChar mem color chr).run k = ((), k.type mem color chr) := by
  unfold kwriteChar Kernel.type Canvas.type Canvas.typing
  by_cases hnewline : chr = newline
  · rw [if_pos hnewline, if_pos hnewline, if_pos hnewline, did_nil]
    rfl
  · rw [if_neg hnewline, if_neg hnewline, if_neg hnewline, run_bind_of_eq (get_run k),
      run_bind_of_eq (access_run _ _), run_bind_of_eq (modifyCanvas_run _ _),
      run_bind_of_eq (get_run _), run_bind_of_eq (forM_access_run _ _), modifyCanvas_run]
    simp [Kernel.did]

/-! ### Runs -/

namespace Canvas

/-- A character in its colour, as an event of the canvas. -/
def act (t : BitVec 32 × BitVec 8) (c : Canvas) : Canvas := c.type t.2

/-- What such an event does to memory. -/
def out (mem : PhysMem) (c : Canvas) (t : BitVec 32 × BitVec 8) : List Access :=
  c.typing mem t.1 t.2

theorem act_newline (color : BitVec 32) (c : Canvas) :
    c.act (color, newline) = { c with x := c.prevX, y := c.y + 20 } := by
  rw [act, type, if_pos rfl]

theorem act_of_ne {t : BitVec 32 × BitVec 8} (h : t.2 ≠ newline) (c : Canvas) :
    c.act t = { c.wrapped with x := c.x + 8 } := if_neg h

theorem out_newline (mem : PhysMem) (c : Canvas) (color : BitVec 32) :
    c.out mem (color, newline) = [] := by
  rw [out, typing, if_pos rfl]

theorem out_of_ne {t : BitVec 32 × BitVec 8} (h : t.2 ≠ newline) (mem : PhysMem) (c : Canvas) :
    c.out mem t = .read .framebuffer (c.lfb.addr + 20) 4 ::
      putChar mem c.lfb c.font t.1 t.2 c.x c.wrapped.y := if_neg h

end Canvas

/-- The kernel after some characters. -/
def Kernel.typeAll (mem : PhysMem) (ts : List (BitVec 32 × BitVec 8)) (k : Kernel) : Kernel :=
  { k.did (outputs Canvas.act (Canvas.out mem) k.canvas ts) with
    canvas := replay Canvas.act ts k.canvas }

@[simp] theorem typeAll_canvas (ts : List (BitVec 32 × BitVec 8)) (k : Kernel) :
    (k.typeAll mem ts).canvas = replay Canvas.act ts k.canvas := rfl

@[simp] theorem typeAll_trace (ts : List (BitVec 32 × BitVec 8)) (k : Kernel) :
    (k.typeAll mem ts).trace =
      k.trace ++ outputs Canvas.act (Canvas.out mem) k.canvas ts := rfl

theorem typeAll_cons (t : BitVec 32 × BitVec 8) (ts : List (BitVec 32 × BitVec 8)) (k : Kernel) :
    k.typeAll mem (t :: ts) = (k.type mem t.1 t.2).typeAll mem ts := by
  simp [Kernel.typeAll, Kernel.type, Kernel.did, Canvas.out, Canvas.act]

theorem typeAll_append (ts ts' : List (BitVec 32 × BitVec 8)) (k : Kernel) :
    k.typeAll mem (ts ++ ts') = (k.typeAll mem ts).typeAll mem ts' := by
  simp [Kernel.typeAll, Kernel.did, outputs_append]

theorem kwrite_run (mem : PhysMem) (str : List (BitVec 8)) (color : BitVec 32) (k : Kernel) :
    (kwrite mem str color).run k = ((), k.typeAll mem ((cString str).map (Prod.mk color))) := by
  rw [kwrite, run_forM_of_eq fun chr k => kwriteChar_run mem color chr k]
  congr 1
  induction cString str generalizing k with
  | nil => simp [Kernel.typeAll]
  | cons chr str ih => rw [List.foldl_cons, ih, List.map_cons, typeAll_cons]

/-- A run of calls of `kwrite`, each with its string and its colour. -/
def kwrites (mem : PhysMem) (calls : List (List (BitVec 8) × BitVec 32)) : KernelM Unit :=
  calls.forM fun call => kwrite mem call.1 call.2

/-- The characters that calls type. -/
def typed (calls : List (List (BitVec 8) × BitVec 32)) : List (BitVec 32 × BitVec 8) :=
  calls.flatMap fun call => (cString call.1).map (Prod.mk call.2)

/-- **What a run of `kwrite` does.** -/
theorem kwrites_run (mem : PhysMem) (calls : List (List (BitVec 8) × BitVec 32)) (k : Kernel) :
    (kwrites mem calls).run k = ((), k.typeAll mem (typed calls)) := by
  have hcall : ∀ (call : List (BitVec 8) × BitVec 32) (k : Kernel),
      (kwrite mem call.1 call.2).run k =
        ((), k.typeAll mem ((cString call.1).map (Prod.mk call.2))) :=
    fun call k => kwrite_run mem call.1 call.2 k
  rw [kwrites, run_forM_of_eq hcall]
  congr 1
  induction calls generalizing k with
  | nil => simp [Kernel.typeAll, typed]
  | cons call calls ih =>
    rw [List.foldl_cons, ih, ← typeAll_append]
    rfl

/-- What `log` types. -/
def logged (format : String) (status : Status) : List (BitVec 32 × BitVec 8) :=
  (cString status.label ++ cString (chars format)).map (Prod.mk status.color)

/-- The kernel after `log`. -/
def Kernel.log (mem : PhysMem) (format : String) (status : Status) (k : Kernel) : Kernel :=
  k.typeAll mem (logged format status)

@[simp] theorem log_canvas (format : String) (status : Status) (k : Kernel) :
    (k.log mem format status).canvas = replay Canvas.act (logged format status) k.canvas := rfl

@[simp] theorem log_trace (format : String) (status : Status) (k : Kernel) :
    (k.log mem format status).trace = k.trace ++
      outputs Canvas.act (Canvas.out mem) k.canvas (logged format status) := rfl

@[simp] theorem log_kernFlags (format : String) (status : Status) (k : Kernel) :
    (k.log mem format status).kernFlags = k.kernFlags := rfl

@[simp] theorem log_rsdt (format : String) (status : Status) (k : Kernel) :
    (k.log mem format status).rsdt = k.rsdt := rfl

@[simp] theorem log_apicMadt (format : String) (status : Status) (k : Kernel) :
    (k.log mem format status).apicMadt = k.apicMadt := rfl

theorem ne_zero_of_mem_cString {str : List (BitVec 8)} {c : BitVec 8} (h : c ∈ cString str) :
    c ≠ 0 := by
  simpa using List.mem_takeWhile_imp h

/-- A string of one character is that character. -/
theorem cString_singleton {c : BitVec 8} (h : c ≠ 0) : cString [c, 0] = [c] := by
  unfold cString
  rw [List.takeWhile_cons_of_pos (by simpa using h)]
  rfl

/-- `log` types its label and its format, character by character. -/
theorem log_run (mem : PhysMem) (format : String) (status : Status) (k : Kernel) :
    (logText mem format status).run k = ((), k.log mem format status) := by
  have hchar : ∀ (c : BitVec 8) (k : Kernel), (kwrite mem [c, 0] status.color).run k =
      ((), k.typeAll mem ((cString [c, 0]).map (Prod.mk status.color))) :=
    fun c k => kwrite_run mem [c, 0] status.color k
  have hne : ∀ c ∈ cString (chars format), c ≠ 0 := fun c hc => ne_zero_of_mem_cString hc
  rw [logText, run_bind_of_eq (kwrite_run ..), run_forM_of_eq hchar, Kernel.log, logged,
    List.map_append, typeAll_append]
  congr 1
  generalize k.typeAll mem _ = k
  generalize cString (chars format) = str at hne ⊢
  induction str generalizing k with
  | nil => simp [Kernel.typeAll]
  | cons c str ih =>
    rw [List.foldl_cons, cString_singleton (hne c (List.mem_cons_self ..)),
      ih _ (fun c hc => hne c (List.mem_cons_of_mem _ hc)), ← typeAll_append]
    rfl

-- What is logged is long, and never evaluated.
attribute [irreducible] Kernel.log

/-! ### `clearScreen` -/

/-- The accesses of a line of `clearScreen`. -/
def lineClearing (fb : Framebuffer) (color : BitVec 32) (bytesPerScanline : BitVec 64) (vsl : ℕ) :
    List Access :=
  let pixPtrBase := fb.baseAddr + bytesPerScanline * BitVec.ofNat 64 vsl
  .read .framebuffer (fb.addr + 20) 4 :: .read .framebuffer fb.addr 8 ::
    (pointers pixPtrBase (pixPtrBase + bytesPerScanline)).map fun p => .clear p color

/-- The accesses of `clearScreen`. -/
def clearing (fb : Framebuffer) (color : BitVec 32) : List Access :=
  .read .framebuffer (fb.addr + 24) 4 ::
    ((List.range fb.height.toNat).flatMap
      (lineClearing fb color ((fb.ppsl * 4#32).setWidth 64)) ++
    [.read .framebuffer (fb.addr + 20) 4])

/-- The canvas after `clearScreen`. -/
def Canvas.cleared (c : Canvas) : Canvas := { c with prevX := 10, x := 10, y := 10 }

/-- A loop whose body only makes accesses makes them all. -/
theorem forM_did_run {ι : Type} {f : ι → KernelM Unit} {as : ι → List Access}
    (h : ∀ i k, (f i).run k = ((), k.did (as i))) (l : List ι) (k : Kernel) :
    (l.forM f).run k = ((), k.did (l.flatMap as)) := by
  rw [run_forM_of_eq h]
  congr 1
  induction l generalizing k with
  | nil => simp
  | cons i l ih => rw [List.foldl_cons, ih, did_did, List.flatMap_cons]

theorem clearLine_run (lfb : Framebuffer) (color : BitVec 32) (bytesPerScanline : BitVec 64)
    (vsl : ℕ) (k : Kernel) : (clearLine lfb color bytesPerScanline vsl).run k =
      ((), k.did (lineClearing lfb color bytesPerScanline vsl)) := by
  unfold clearLine lineClearing
  rw [run_bind_of_eq (access_run _ _), run_bind_of_eq (access_run _ _),
    forM_did_run fun p k => access_run (.clear p color) k]
  rw [did_did, did_did]
  simp only [List.map_eq_flatMap]
  rfl

/-- **What `clearScreen` does.** -/
theorem clearScreen_run (color : BitVec 32) (k : Kernel) : (clearScreen color).run k =
    ((), { k.did (clearing k.canvas.lfb color) with canvas := k.canvas.cleared }) := by
  unfold clearScreen clearing
  rw [run_bind_of_eq (get_run k), run_bind_of_eq (access_run _ _),
    run_bind_of_eq (forM_did_run (clearLine_run _ _ _) _ _), run_bind_of_eq (access_run _ _),
    modifyCanvas_run]
  simp only [did_did, did_canvas]
  rfl

end KessOS
