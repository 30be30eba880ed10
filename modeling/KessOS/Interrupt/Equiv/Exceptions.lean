import KessOS.Interrupt.Equiv.Vectors
import KessOS.Interrupt.Exceptions
import KessOS.Kernel.Equiv.Log
import KessOS.Video.Equiv.Page

/-!
# What the handlers of the exceptions show

The handler of every exception shows a page that names the vector for which `init` sets it, on the
whole screen and whatever was there before (`exception_page`).
-/

namespace KessOS

open Copy Numeral StateM Text Trace

variable {mem : PhysMem} {s : Logger} {vec : BitVec 8} {α β : Type}
  {ts ts' : List (BitVec 32 × BitVec 8)}

/-! ### Calls of `log` with nothing to expand -/

/-- The characters that `log` types, all in one colour. -/
def labelled (status : Status) (text : List (BitVec 8)) : List (BitVec 32 × BitVec 8) :=
  (status.label ++ text).map (Prod.mk status.color)

/-- In any state, `x` returns `a` and types `ts`. -/
def Prints (mem : PhysMem) (ts : List (BitVec 32 × BitVec 8)) (x : LogM α) (a : α) : Prop :=
  ∀ s : Logger, ∃ s', x.run s = .ok a s' ∧ s'.kernel = s.kernel.typeAll mem ts

theorem Prints.bind {x : LogM α} {a : α} {f : α → LogM β} {b : β} (hx : Prints mem ts x a)
    (hf : Prints mem ts' (f a) b) : Prints mem (ts ++ ts') (x >>= f) b := by
  intro s
  obtain ⟨s', hrun, hkernel⟩ := hx s
  obtain ⟨s'', hrun', hkernel'⟩ := hf s'
  refine ⟨s'', ?_, ?_⟩
  · rw [EStateM.run_bind_of_ok hrun, hrun']
  · rw [hkernel', hkernel, typeAll_append]

theorem prints_pure (a : α) : Prints mem [] (pure a : LogM α) a := by
  intro s
  refine ⟨s, rfl, ?_⟩
  simp [Kernel.typeAll]

/-- A text without a `NUL` and without a `%` is printed as it is. -/
theorem prints_logPlain {text : List (BitVec 8)} (h : ∀ c ∈ text, c ≠ 0 ∧ c ≠ percent)
    (status : Status) : Prints mem (labelled status text) (logPlain mem text status) () := by
  intro s
  have hcString : cString text = text :=
    List.takeWhile_eq_self_iff.mpr fun c hc => by simpa using (h c hc).1
  have hpieces : pieces (cString text) = text.map .char := by
    rw [hcString]
    exact pieces_of_notMem fun hmem => (h percent hmem).2 rfl
  have hmatches : Matches (pieces (cString text)) ([] : List Arg) := by
    rw [Matches, hpieces, List.map_nil, List.filterMap_map]
    exact List.filterMap_eq_nil_iff.mpr fun _ _ => rfl
  obtain ⟨s', hrun, hkernel, -⟩ :=
    log_run_kernel mem status (s := { s with args := [] }) hmatches
  refine ⟨s', hrun, ?_⟩
  rw [hkernel, Kernel.after, kwrite_run, cString_label_append, Logger.printed, Logger.expansion,
    hpieces, expand_char, labelled]

/-- `hex2str` returns the numeral, whatever its buffer held. -/
theorem prints_callHex2str (hexNum : BitVec 32) :
    Prints mem [] (callHex2str hexNum) (hexText hexNum) := by
  intro s
  have htext : ((hex2str hexNum).run s.hexString).2.text = hexText hexNum :=
    (text_eq_of_bytes (bytes_hex2str hexNum s.hexString)).trans
      (text_hex2strFrom hexNum s.hexString.bytes)
  refine ⟨{ s with hexString := ((hex2str hexNum).run s.hexString).2 }, ?_, ?_⟩
  · rw [← htext]
    rfl
  · simp [Kernel.typeAll]

/-! ### The page of a panic -/

/-- The text stays in its line, and `log` prints it as it is. -/
def PlainLine (text : List (BitVec 8)) : Prop :=
  ∀ c ∈ text, 32 ≤ c.toNat ∧ c.toNat < 128 ∧ c ≠ percent

/-- The literal has no control characters and no `%`. -/
theorem plainLine_chars {text : String}
    (h : (text.toList.all fun c => c.toNat < 128 && (32 ≤ c.toNat && c.toNat != 37)) = true) :
    PlainLine (chars text) := by
  intro c hc
  obtain ⟨hascii, hplain⟩ := forall_mem_chars (p := fun n => 32 ≤ n && n != 37) h c hc
  simp only [Bool.and_eq_true, decide_eq_true_eq, bne_iff_ne] at hplain
  refine ⟨hplain.1, hascii, ?_⟩
  rintro rfl
  exact hplain.2 rfl

theorem PlainLine.plain {text : List (BitVec 8)} (h : PlainLine text) :
    ∀ c ∈ text, c ≠ 0 ∧ c ≠ percent := by
  refine fun c hc => ⟨?_, (h c hc).2.2⟩
  rintro rfl
  exact absurd (h 0 hc).1 (by decide)

theorem PlainLine.not_isNewline {text : List (BitVec 8)} (h : PlainLine text)
    (color : BitVec 32) : ∀ t ∈ text.map (Prod.mk color), ¬ isNewline t := by
  intro t ht hnewline
  obtain ⟨c, hc, rfl⟩ := List.mem_map.mp ht
  obtain rfl : c = newline := beq_iff_eq.mp hnewline
  exact absurd (h newline hc).1 (by decide)

theorem plainLine_hexText (hexNum : BitVec 32) : PlainLine (hexText hexNum) := by
  intro c hc
  unfold hexText at hc
  rw [List.mem_append, List.mem_append] at hc
  rcases hc with (hx | hpad) | hdigit
  · have hchars : PlainLine (chars "0x") := plainLine_chars (by simp)
    exact hchars c hx
  · split_ifs at hpad
    · obtain rfl := List.mem_singleton.mp hpad
      decide
    · exact absurd hpad List.not_mem_nil
  · obtain ⟨d, hd, rfl⟩ := exists_of_mem_numeral (by decide) hdigit
    have hdigits : ∀ d : Fin 16, 32 ≤ (asciiNumbers d).toNat ∧ (asciiNumbers d).toNat < 128 ∧
        asciiNumbers d ≠ percent := by decide
    exact hdigits ⟨d, hd⟩

theorem length_hexText_le (hexNum : BitVec 32) : (hexText hexNum).length ≤ 12 := by
  have hpadded := length_hexPadded hexNum
  rw [← hexWritten_reverse, List.length_reverse, hexWritten, List.length_append,
    List.length_append, List.length_singleton, List.length_singleton]
  omega

/-- The lines of a panic, but for the number of the vector. -/
def panicLine : List (BitVec 8) := chars "** KERNEL PANIC **"
def noticeLine : List (BitVec 8) :=
  chars "System is now halted. When you are done debugging, push the power button."

theorem plainLine_panicLine : PlainLine panicLine ∧ panicLine.length = 18 :=
  ⟨plainLine_chars (by simp), by simp [panicLine, chars]⟩

theorem plainLine_vectorFiredMsg : PlainLine vectorFiredMsg ∧ vectorFiredMsg.length = 14 :=
  ⟨plainLine_chars (by simp), by simp [vectorFiredMsg, chars]⟩

theorem plainLine_noticeLine : PlainLine noticeLine ∧ noticeLine.length = 73 :=
  ⟨plainLine_chars (by simp), by simp [noticeLine, chars]⟩

/-- What `panic` types. -/
def panicText (vec : BitVec 32) : List (BitVec 32 × BitVec 8) :=
  let red := Prod.mk Status.panic.color
  let white := Prod.mk Status.other.color
  panicLine.map red ++ red newline :: ((vectorFiredMsg.map red ++ (hexText vec).map white) ++
    white newline :: ([] ++ white newline :: (noticeLine.map white ++ [white newline])))

/-- What is printed once the screen is clear. -/
theorem prints_panicMessages (vec : BitVec 32) : Prints mem (panicText vec)
    (do
      logPlain mem vectorFiredMsg .panic
      logPlain mem (← callHex2str vec) .other
      logPlain mem [newline] .other
      logPlain mem [newline] .other
      logPlain mem notice .other) () := by
  have hnewline : ∀ c ∈ [newline], c ≠ 0 ∧ c ≠ percent := by decide
  have hnotice : ∀ c ∈ notice, c ≠ 0 ∧ c ≠ percent :=
    List.forall_mem_append.mpr ⟨plainLine_noticeLine.1.plain, hnewline⟩
  have htext : panicText vec = labelled .panic vectorFiredMsg ++ ([] ++
      (labelled .other (hexText vec) ++ (labelled .other [newline] ++
        (labelled .other [newline] ++ labelled .other notice)))) := by
    have hlabel : Status.panic.label = panicLine ++ [newline] := by decide
    have hother : Status.other.label = [] := rfl
    simp only [panicText, labelled, hlabel, hother, notice, noticeLine, List.map_append,
      List.append_assoc, List.nil_append, List.map_cons, List.map_nil, List.cons_append]
  rw [htext]
  refine (prints_logPlain plainLine_vectorFiredMsg.1.plain .panic).bind ?_
  refine (prints_callHex2str vec).bind ?_
  refine (prints_logPlain (plainLine_hexText vec).plain .other).bind ?_
  refine (prints_logPlain hnewline .other).bind ?_
  refine (prints_logPlain hnewline .other).bind ?_
  exact prints_logPlain hnotice .other

variable (mem) in
theorem panic_run (vec : BitVec 32) (s : Logger) : ∃ s', (panic mem vec).run s = .ok () s' ∧
    s'.kernel = (s.kernel.after (clearScreen 0x212E52)).typeAll mem (panicText vec) := by
  have hclear : (onKernel (clearScreen 0x212E52)).run s =
      .ok () { s with kernel := s.kernel.after (clearScreen 0x212E52) } := rfl
  rw [panic, EStateM.run_bind_of_ok hclear]
  exact prints_panicMessages vec _

/-- The page has four lines, of at most 73 characters. -/
theorem fitsText_panicText {fb : Framebuffer} (hwidth : 602 ≤ fb.ppsl.toNat)
    (hheight : 70 < fb.height.toNat) (vec : BitVec 32) : fb.FitsText (panicText vec) := by
  have hpanic := plainLine_panicLine
  have hmsg := plainLine_vectorFiredMsg
  have hhex := plainLine_hexText vec
  have hlength := length_hexText_le vec
  have hlines : ∀ P : ℕ × ℕ → Prop, (∀ k ≤ 3, ∀ j < 73, P (k, j)) →
      ∀ p ∈ cells isNewline 0 0 (panicText vec), P p := by
    intro P hP
    have hline1 : ∀ t ∈ vectorFiredMsg.map (Prod.mk Status.panic.color) ++
        (hexText vec).map (Prod.mk Status.other.color), ¬ isNewline t :=
      List.forall_mem_append.mpr ⟨hmsg.1.not_isNewline _, hhex.not_isNewline _⟩
    unfold panicText
    rw [forall_mem_cells_line (hpanic.1.not_isNewline _) rfl, forall_mem_cells_line hline1 rfl,
      forall_mem_cells_line (fun _ h => absurd h List.not_mem_nil) rfl,
      forall_mem_cells_line (plainLine_noticeLine.1.not_isNewline _) rfl]
    simp only [List.length_map, List.length_append, List.length_nil, hpanic.2, hmsg.2,
      plainLine_noticeLine.2, Nat.zero_add]
    refine ⟨fun i hi => hP _ (by omega) _ (by omega), fun i hi => hP _ (by omega) _ (by omega),
      fun i hi => absurd hi (Nat.not_lt_zero i), fun i hi => hP _ (by omega) _ (by omega), ?_⟩
    exact fun p hp => absurd hp List.not_mem_nil
  refine ⟨hlines _ fun k hk j hj => ?_, hlines _ fun k hk j hj => ?_, fun t ht => ?_⟩
  · show 10 + 8 * (j + 1) ≤ _
    omega
  · show 10 + 20 * k < _
    omega
  · have hascii : ∀ c ∈ (panicText vec).map Prod.snd, c.toNat < 128 := by
      have hnewline : newline.toNat < 128 := by decide
      simp only [panicText, List.map_append, List.map_cons, List.map_map, Function.comp_def,
        List.map_id', List.map_nil, List.forall_mem_append, List.forall_mem_cons]
      exact ⟨fun c hc => (hpanic.1 c hc).2.1, hnewline,
        ⟨fun c hc => (hmsg.1 c hc).2.1, fun c hc => (hhex c hc).2.1⟩, hnewline,
        fun _ h => absurd h List.not_mem_nil, hnewline,
        fun c hc => (plainLine_noticeLine.1 c hc).2.1, hnewline,
        fun _ h => absurd h List.not_mem_nil⟩
    exact hascii t.2 (List.mem_map_of_mem ht)

/-! ### The handlers -/

/-- The number that a handler names is that of the vector for which it is set. -/
theorem exception_of_handlerOf {h : Handler} {flags : GateAttr}
    (hvec : handlerOf vec = some (h, flags)) (hne : h ≠ .irq0Handler) :
    h.exception mem = some (panic mem (vec.setWidth 32)) := by
  have hvectors : ∀ v ∈ vectors, v.2.1 ≠ .irq0Handler →
      v.2.1.exception mem = some (panic mem (v.1.setWidth 32)) := by
    unfold vectors
    simp only [List.forall_mem_cons]
    refine ⟨?_, ?_, ?_, ?_, ?_, ?_, ?_, ?_, ?_, ?_, ?_, ?_, ?_, ?_, ?_⟩
    iterate 13 exact fun _ => rfl
    · exact fun hirq => absurd rfl hirq
    · exact fun _ h => absurd h List.not_mem_nil
  obtain ⟨v, hv, hhandler⟩ := Option.map_eq_some_iff.mp hvec
  have hkey : v.1 = vec := by simpa using List.find?_some hv
  have hexception := hvectors v (List.mem_of_find?_eq_some hv)
  rw [hhandler, hkey] at hexception
  exact hexception hne

/-- **What the handlers of the exceptions show.**  Whatever the state of the console and of the
buffers, the handler of every vector that `init` sets, but for that of the timer, ends with the
page of its own vector on the whole screen. -/
theorem exception_page {h : Handler} {flags : GateAttr} (hvec : handlerOf vec = some (h, flags))
    (hne : h ≠ .irq0Handler) (mem : PhysMem) (s : Logger)
    (hfb : s.kernel.canvas.lfb.Addressable) (hchsize : s.kernel.canvas.font.chsize = 16)
    (hwidth : 602 ≤ s.kernel.canvas.lfb.ppsl.toNat)
    (hheight : 70 < s.kernel.canvas.lfb.height.toNat) (pixels : ℕ → BitVec 32) :
    ∃ code s', h.exception mem = some code ∧ code.run s = .ok () s' ∧
      ∀ x < s.kernel.canvas.lfb.ppsl.toNat, ∀ y < s.kernel.canvas.lfb.height.toNat,
        s.kernel.canvas.lfb.painted pixels (s.kernel.since s'.kernel)
            (s.kernel.canvas.lfb.index x y) =
          pageColor mem s.kernel.canvas.font 0x212E52 (panicText (vec.setWidth 32)) x y := by
  obtain ⟨s', hrun, hkernel⟩ := panic_run mem (vec.setWidth 32) s
  refine ⟨_, s', exception_of_handlerOf hvec hne, hrun, fun x hx y hy => ?_⟩
  have hsince : s.kernel.since s'.kernel = clearing s.kernel.canvas.lfb 0x212E52 ++
      outputs Canvas.act (Canvas.out mem) s.kernel.canvas.cleared
        (panicText (vec.setWidth 32)) := by
    refine since_of_trace ?_
    rw [hkernel, Kernel.after, clearScreen_run]
    simp [Kernel.did]
  rw [hsince]
  exact painted_page hfb hchsize (fitsText_panicText hwidth hheight _) hx hy pixels

/-- The small screen, before anything is logged. -/
def smallLogger : Logger where
  kernel := smallStart
  decString := ⟨fun _ => 0, []⟩
  hexString := ⟨fun _ => 0, []⟩
  args := []

/-- A page fault on the small screen. -/
theorem exception_page_small :
    (handlerOf 0xE = some (.pageFault, trapGateFlags) ∧ smallScreen.Addressable) ∧
      ∃ code s', Handler.pageFault.exception solid = some code ∧ code.run smallLogger = .ok () s' ∧
        ∀ x < 640, ∀ y < 480,
          smallScreen.painted (fun _ => 0) (smallStart.since s'.kernel) (smallScreen.index x y) =
            pageColor solid plainFont 0x212E52 (panicText 0xE) x y := by
  have hvec : handlerOf 0xE = some (.pageFault, trapGateFlags) := rfl
  have hfb : smallScreen.Addressable := ⟨by decide, by decide, by decide⟩
  exact ⟨⟨hvec, hfb⟩, exception_page hvec (by decide) solid smallLogger hfb rfl (by decide)
    (by decide) fun _ => 0⟩

end KessOS
