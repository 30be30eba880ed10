import KessOS.Acpi.Equiv.Since
import KessOS.Kernel.Start

/-!
# What the kernel touches

The bytes that the kernel accesses once paging is on lie in a set if, and only if, the framebuffer,
the font and the tables that it was handed do, as far as it looks at them
(`startAfterPaging_within_iff`).
-/

namespace KessOS

open StateM Trace

variable {mem : PhysMem} {k : Kernel} {C : Addr → Prop} {rsdp rsdt : Addr}

/-- The bytes from `addr` on are in `C`. -/
def Covers (C : Addr → Prop) (addr : Addr) (size : ℕ) : Prop :=
  ∀ i < size, C (addr + BitVec.ofNat 64 i)

theorem forall_touches {addr : Addr} {size : ℕ} :
    (∀ b, (∃ i < size, b = addr + BitVec.ofNat 64 i) → C b) ↔ Covers C addr size := by
  constructor
  · exact fun h i hi => h _ ⟨i, hi, rfl⟩
  · rintro h b ⟨i, hi, rfl⟩
    exact h i hi

@[simp] theorem within_read {what : Handed} {addr : Addr} {size : ℕ} :
    (Access.read what addr size).Within C ↔ Covers C addr size := forall_touches

@[simp] theorem within_putChar {chr : BitVec 8} {x y : BitVec 32} :
    (Access.putChar chr x y).Within C ↔ True := iff_true_intro fun _ h => h.elim

@[simp] theorem within_pixel {x y : ℕ} {addr : Addr} {color : BitVec 32} :
    (Access.pixel x y addr color).Within C ↔ Covers C addr 4 := forall_touches

@[simp] theorem within_clear {addr : Addr} {color : BitVec 32} :
    (Access.clear addr color).Within C ↔ Covers C addr 4 := forall_touches

@[simp] theorem covers_one {addr : Addr} : Covers C addr 1 ↔ C addr := by
  simp [Covers]

/-! ### The console -/

/-- A character is drawn with what is in `C`: the fields of the framebuffer and of the font, the
rows of its glyph, and the pixels that are set in it. -/
structure Canvas.DrawnIn (C : Addr → Prop) (mem : PhysMem) (c : Canvas) (chr : BitVec 8) :
    Prop where
  height : Covers C (c.lfb.addr + 20) 4
  base : Covers C c.lfb.addr 8
  glyphBuffer : Covers C (c.font.addr + 8) 8
  header : Covers C c.font.addr 8
  chsize : C (c.font.header + 3)
  pixels : ∀ y ∈ span c.wrapped.y (c.wrapped.y + 16), ∀ x ∈ span c.x (c.x + 8),
    let row := fontPtr c.font chr + BitVec.ofNat 64 (y - c.wrapped.y.toNat)
    C row ∧ (BitVec.slt 0 (glyphBit (loadByte mem row) (x - c.x.toNat)) →
      Covers C (c.lfb.addr + 24) 4 ∧ Covers C (pixelAddr c.lfb x y) 4)

theorem out_within_iff {c : Canvas} {t : BitVec 32 × BitVec 8} :
    (∀ a ∈ c.out mem t, a.Within C) ↔ (t.2 ≠ newline → c.DrawnIn C mem t.2) := by
  obtain ⟨color, chr⟩ := t
  by_cases hnewline : chr = newline
  · subst hnewline
    rw [Canvas.out_newline]
    exact iff_of_true (fun _ h => absurd h List.not_mem_nil) fun h => absurd rfl h
  · rw [Canvas.out_of_ne hnewline, List.forall_mem_cons, forall_mem_putChar]
    simp only [within_read, within_putChar, within_pixel, covers_one, true_and]
    constructor
    · rintro ⟨hheight, ⟨hbase, hbuffer, hheader, hsize⟩, hpixels⟩ -
      exact ⟨hheight, hbase, hbuffer, hheader, hsize, hpixels⟩
    · intro h
      obtain ⟨hheight, hbase, hbuffer, hheader, hsize, hpixels⟩ := h hnewline
      exact ⟨hheight, ⟨hbase, hbuffer, hheader, hsize⟩, hpixels⟩

/-- Characters are drawn, one after the other, with what is in `C`. -/
def TypedIn (C : Addr → Prop) (mem : PhysMem) (c : Canvas) (ts : List (BitVec 32 × BitVec 8)) :
    Prop :=
  Along Canvas.act (fun c t => t.2 ≠ newline → c.DrawnIn C mem t.2) c ts

theorem outputs_within_iff {c : Canvas} {ts : List (BitVec 32 × BitVec 8)} :
    (∀ a ∈ outputs Canvas.act (Canvas.out mem) c ts, a.Within C) ↔ TypedIn C mem c ts := by
  simp only [forall_mem_outputs, out_within_iff, TypedIn]

/-- The screen is cleared with what is in `C`. -/
structure ScreenIn (C : Addr → Prop) (fb : Framebuffer) : Prop where
  ppsl : Covers C (fb.addr + 24) 4
  height : Covers C (fb.addr + 20) 4
  lines : ∀ vsl < fb.height.toNat,
    let bytesPerScanline := (fb.ppsl * 4#32).setWidth 64
    let pixPtrBase := fb.baseAddr + bytesPerScanline * BitVec.ofNat 64 vsl
    Covers C fb.addr 8 ∧ ∀ p ∈ pointers pixPtrBase (pixPtrBase + bytesPerScanline), Covers C p 4

theorem clearing_within_iff {fb : Framebuffer} {color : BitVec 32} :
    (∀ a ∈ clearing fb color, a.Within C) ↔ ScreenIn C fb := by
  unfold clearing lineClearing
  rw [List.forall_mem_cons, List.forall_mem_append, List.forall_mem_flatMap,
    List.forall_mem_singleton]
  simp only [List.forall_mem_cons, List.forall_mem_map, List.mem_range, within_read, within_clear]
  constructor
  · rintro ⟨hppsl, hlines, hheight⟩
    exact ⟨hppsl, hheight, fun vsl hvsl => (hlines vsl hvsl).2⟩
  · intro h
    exact ⟨h.ppsl, fun vsl hvsl => ⟨h.height, h.lines vsl hvsl⟩, h.height⟩

/-! ### The tables -/

/-- The bytes at which `strncmp` looks are in `C`: it goes on as long as they agree. -/
def SignatureIn (C : Addr → Prop) (mem : PhysMem) (a : Addr) (s : Bytes) (n : ℕ) : Prop :=
  ∀ i < n, (∀ j < i + 1, a + BitVec.ofNat 64 j ≠ 0) → (∀ j < i, bytesAt mem a j = s j) →
    C (a + BitVec.ofNat 64 i)

theorem comparing_within_iff {what : Handed} {a : Addr} {s : Bytes} {n : ℕ} :
    (∀ x ∈ comparing mem what a s n, x.Within C) ↔ SignatureIn C mem a s n := by
  simp only [forall_mem_comparing, within_read, covers_one, SignatureIn]

/-- The RSDT is in `C`, as far as its length goes, with the tables up to the MADT if they are
searched. -/
structure RsdtIn (C : Addr → Prop) (mem : PhysMem) (rsdt : Addr) (flags : BitVec 8) : Prop where
  length : Covers C (rsdt + 4) 4
  bytes : Covers C rsdt (load32 mem (rsdt + 4)).toNat
  tables : rsdtChecksum mem rsdt = 0 → flags &&& usingAcpi ≠ 0 →
    ∀ i < (entryCount (load32 mem (rsdt + 4))).toNat,
      (∀ j < i, isMadt mem (tableAt mem rsdt j) = false) →
        Covers C (slotAddr rsdt i) 4 ∧
          SignatureIn C mem (tableAt mem rsdt i) (literal "APIC") 4

/-- The RSDP is in `C`, and so is what it leads to. -/
structure TablesIn (C : Addr → Prop) (mem : PhysMem) (rsdp : Addr) (flags : BitVec 8) : Prop where
  signature : SignatureIn C mem rsdp (literal "RSD PTR") 7
  found : agree mem rsdp (literal "RSD PTR") 7 →
    Covers C (rsdp + 16) 4 ∧ RsdtIn C mem (rsdtOf mem rsdp) flags

theorem summing_within_iff : (∀ a ∈ summing rsdt (rsdtBytes mem rsdt), a.Within C) ↔
    Covers C (rsdt + 4) 4 ∧ Covers C rsdt (load32 mem (rsdt + 4)).toNat := by
  rw [forall_mem_summing, rsdtBytes, within_read]
  simp only [List.mem_range, within_read, covers_one]
  rfl

theorem scanning_within_iff :
    (∀ a ∈ scanning mem rsdt (rsdtSlots mem rsdt), a.Within C) ↔ Covers C (rsdt + 4) 4 ∧
      ∀ i < (entryCount (load32 mem (rsdt + 4))).toNat,
        (∀ j < i, isMadt mem (tableAt mem rsdt j) = false) →
          Covers C (slotAddr rsdt i) 4 ∧
            SignatureIn C mem (tableAt mem rsdt i) (literal "APIC") 4 := by
  rw [rsdtSlots, List.range_eq_range', forall_mem_scanning]
  simp only [Nat.zero_add, within_read, comparing_within_iff]

theorem acpiReads_within_iff {flags : BitVec 8} :
    (∀ a ∈ acpiReads mem rsdp flags, a.Within C) ↔ TablesIn C mem rsdp flags := by
  unfold acpiReads locatedReads
  dsimp only
  by_cases hsig : agree mem rsdp (literal "RSD PTR") 7
  · rw [if_pos hsig]
    simp only [List.forall_mem_append, List.forall_mem_singleton, comparing_within_iff,
      summing_within_iff, within_read]
    by_cases hstop : rsdtChecksum mem (rsdtOf mem rsdp) ≠ 0 ∨ flags &&& usingAcpi = 0
    · rw [if_pos hstop]
      constructor
      · rintro ⟨⟨⟨hname, haddr⟩, hlength, hbytes⟩, -⟩
        exact ⟨hname, fun _ => ⟨haddr, hlength, hbytes, fun hsum hflag =>
          absurd hstop (not_or.mpr ⟨not_not.mpr hsum, hflag⟩)⟩⟩
      · intro h
        obtain ⟨haddr, hrsdt⟩ := h.found hsig
        exact ⟨⟨⟨h.signature, haddr⟩, hrsdt.length, hrsdt.bytes⟩,
          fun _ ha => absurd ha List.not_mem_nil⟩
    · rw [if_neg hstop, scanning_within_iff]
      obtain ⟨hsum, hflag⟩ := not_or.mp hstop
      constructor
      · rintro ⟨⟨⟨hname, haddr⟩, hlength, hbytes⟩, -, htables⟩
        exact ⟨hname, fun _ => ⟨haddr, hlength, hbytes, fun _ _ => htables⟩⟩
      · intro h
        obtain ⟨haddr, hrsdt⟩ := h.found hsig
        exact ⟨⟨⟨h.signature, haddr⟩, hrsdt.length, hrsdt.bytes⟩, hrsdt.length,
          hrsdt.tables (not_not.mp hsum) hflag⟩
  · rw [if_neg hsig, comparing_within_iff]
    exact ⟨fun h => ⟨h, fun hagree => absurd hagree hsig⟩, fun h => h.signature⟩

/-! ### The run -/

/-- The kernel when it comes to `acpi_init`. -/
def Kernel.announced (mem : PhysMem) (k : Kernel) : Kernel :=
  ((k.log mem "Finished setting up VMM.\n" .info).log mem
    "Setting IOPL of EFLAGS to 0 (ring 0 access only).\n" .info).log mem "Setting up ACPI..\n" .info

/-- The kernel after `init`. -/
def Kernel.afterInit (mem : PhysMem) (rsdp : Addr) (k : Kernel) : Kernel :=
  let k' := (k.announced mem).after (acpiInit mem rsdp)
  { k' with kernFlags := k'.kernFlags &&& ~~~usingApic }

/-- The kernel after `clearScreen`. -/
def Kernel.cleared (k : Kernel) : Kernel :=
  { k.did (clearing k.canvas.lfb 0) with canvas := k.canvas.cleared }

theorem run_eq_after (x : KernelM Unit) (k : Kernel) : x.run k = ((), k.after x) := rfl

theorem initAfterPaging_run (mem : PhysMem) (rsdp : Addr) (k : Kernel) :
    (initAfterPaging mem rsdp).run k = ((), k.afterInit mem rsdp) := by
  unfold initAfterPaging Kernel.afterInit Kernel.announced
  rw [run_bind_of_eq (log_run ..), run_bind_of_eq (log_run ..), run_bind_of_eq (log_run ..),
    run_bind_of_eq (run_eq_after ..), setFlags_run]

theorem startAfterPaging_run (mem : PhysMem) (rsdp : Addr) (k : Kernel) :
    (startAfterPaging mem rsdp).run k = ((), Kernel.log mem "Hello, World!\n" .info
      ((k.afterInit mem rsdp).log mem "" .other).cleared) := by
  rw [startAfterPaging, run_bind_of_eq (initAfterPaging_run ..), unglitchArg,
    run_bind_of_eq (log_run ..), run_bind_of_eq (clearScreen_run ..), log_run]
  rfl

/-- What is logged until the screen is cleared. -/
def initLogs (mem : PhysMem) (rsdp : Addr) (flags : BitVec 8) : List (String × Status) :=
  [("Finished setting up VMM.\n", .info),
    ("Setting IOPL of EFLAGS to 0 (ring 0 access only).\n", .info),
    ("Setting up ACPI..\n", .info)] ++ acpiLogs mem rsdp flags ++ [("", .other)]

theorem afterInit_ran (mem : PhysMem) (rsdp : Addr) (k : Kernel) :
    k.Ran mem (initLogs mem rsdp k.kernFlags) (acpiReads mem rsdp k.kernFlags)
      ((k.afterInit mem rsdp).log mem "" .other) := by
  have hannounced := (((Kernel.Ran.refl mem k).log "Finished setting up VMM.\n" .info).log
    "Setting IOPL of EFLAGS to 0 (ring 0 access only).\n" .info).log "Setting up ACPI..\n" .info
  have hflags : (k.announced mem).kernFlags = k.kernFlags := by
    rw [Kernel.announced, log_kernFlags, log_kernFlags, log_kernFlags]
  have hinit := hannounced.trans (acpiInit_ran mem rsdp (k.announced mem))
  rw [hflags, List.nil_append] at hinit
  exact (hinit.withGlobals _ _ _).log ..

/-- What was handed over lies in `C`, as far as `init` uses it from the load of `CR3` on, with the
console at `c`. -/
structure InitIn (C : Addr → Prop) (mem : PhysMem) (rsdp : Addr) (c : Canvas) (flags : BitVec 8) :
    Prop where
  console : TypedIn C mem c (typedLogs (initLogs mem rsdp flags))
  tables : TablesIn C mem rsdp flags

/-- **What `init` touches** from then on. -/
theorem initAfterPaging_within_iff : (∀ a ∈ k.since (k.after (initAfterPaging mem rsdp)),
    a.Within C) ↔ InitIn C mem rsdp k.canvas k.kernFlags := by
  have hinit := afterInit_ran mem rsdp k
  -- Nothing is typed behind it.
  have hnothing : ((k.afterInit mem rsdp).log mem "" .other).trace =
      (k.afterInit mem rsdp).trace := by
    rw [log_trace, show logged "" .other = [] by decide, outputs_nil, List.append_nil]
  have hsince : k.since ((k.afterInit mem rsdp).log mem "" .other) =
      k.since (k.after (initAfterPaging mem rsdp)) := by
    rw [Kernel.since, Kernel.since, hnothing, Kernel.after, initAfterPaging_run]
  rw [← hsince]
  simp only [hinit.mem_iff, or_imp, forall_and, outputs_within_iff, acpiReads_within_iff]
  constructor
  · rintro ⟨hconsole, htables⟩
    exact ⟨hconsole, htables⟩
  · exact fun h => ⟨h.console, h.tables⟩

/-- What `init` does from then on, step by step. -/
theorem forall_since_initAfterPaging {P : Access → Prop} :
    (∀ a ∈ k.since (k.after (initAfterPaging mem rsdp)), P a) ↔
      let k₁ := k.log mem "Finished setting up VMM.\n" .info
      let k₂ := k₁.log mem "Setting IOPL of EFLAGS to 0 (ring 0 access only).\n" .info
      let k₃ := k₂.log mem "Setting up ACPI..\n" .info
      (∀ a ∈ k.since k₁, P a) ∧ (∀ a ∈ k₁.since k₂, P a) ∧ (∀ a ∈ k₂.since k₃, P a) ∧
        ∀ a ∈ k₃.since (k₃.after (acpiInit mem rsdp)), P a := by
  have hlog (format : String) (k : Kernel) : k.trace <+: (k.log mem format .info).trace := by
    rw [log_trace]
    exact List.prefix_append ..
  have hsince : k.since (k.after (initAfterPaging mem rsdp)) =
      k.since ((k.announced mem).after (acpiInit mem rsdp)) := by
    rw [Kernel.since, Kernel.since, Kernel.after, initAfterPaging_run]
    simp only [Kernel.afterInit]
  have hfirst := hlog "Finished setting up VMM.\n" k
  have hsecond := hlog "Setting IOPL of EFLAGS to 0 (ring 0 access only).\n"
    (k.log mem "Finished setting up VMM.\n" .info)
  have hthird := hlog "Setting up ACPI..\n" ((k.log mem "Finished setting up VMM.\n" .info).log mem
    "Setting IOPL of EFLAGS to 0 (ring 0 access only).\n" .info)
  have hacpi := (acpiInit_ran mem rsdp (k.announced mem)).before
  rw [Kernel.announced] at hacpi
  rw [hsince, Kernel.announced, since_append hfirst (hsecond.trans (hthird.trans hacpi)),
    since_append hsecond (hthird.trans hacpi), since_append hthird hacpi]
  simp only [List.forall_mem_append]

/-- Typing leaves the framebuffer and the font of the canvas. -/
theorem cleared_replay (c : Canvas) (ts : List (BitVec 32 × BitVec 8)) :
    (replay Canvas.act ts c).lfb = c.lfb ∧ (replay Canvas.act ts c).cleared = c.cleared := by
  have hkept : (replay Canvas.act ts c).lfb = c.lfb ∧ (replay Canvas.act ts c).font = c.font :=
    replay_invariant (I := fun c' => c'.lfb = c.lfb ∧ c'.font = c.font) ts ⟨rfl, rfl⟩
      fun c' t h => ⟨(Canvas.type_lfb t.2 c').trans h.1, (Canvas.type_font t.2 c').trans h.2⟩
  refine ⟨hkept.1, ?_⟩
  rw [Canvas.cleared, Canvas.cleared, hkept.1, hkept.2]

/-- What was handed over lies in `C`, as far as the kernel uses it: what the console types, before
and after the screen is cleared, the screen, and the tables of the firmware. -/
structure HandOffIn (C : Addr → Prop) (mem : PhysMem) (rsdp : Addr) (k : Kernel) : Prop where
  console : TypedIn C mem k.canvas (typedLogs (initLogs mem rsdp k.kernFlags))
  tables : TablesIn C mem rsdp k.kernFlags
  screen : ScreenIn C k.canvas.lfb
  hello : TypedIn C mem k.canvas.cleared (logged "Hello, World!\n" .info)

/-- **What the kernel touches**, from the moment on that paging is on. -/
theorem startAfterPaging_within_iff : (∀ a ∈ k.since (k.after (startAfterPaging mem rsdp)),
    a.Within C) ↔ HandOffIn C mem rsdp k := by
  have hinit := afterInit_ran mem rsdp k
  rw [Kernel.after, startAfterPaging_run]
  generalize Kernel.log mem "" .other _ = k' at hinit ⊢
  obtain ⟨hlfb, hcleared⟩ := cleared_replay k.canvas (typedLogs (initLogs mem rsdp k.kernFlags))
  rw [← hinit.canvas] at hlfb hcleared
  have htrace : (k'.cleared.log mem "Hello, World!\n" .info).trace = k'.trace ++
      (clearing k.canvas.lfb 0 ++ outputs Canvas.act (Canvas.out mem) k.canvas.cleared
        (logged "Hello, World!\n" .info)) := by
    rw [log_trace, Kernel.cleared, hcleared, hlfb, ← List.append_assoc]
    rfl
  rw [since_append hinit.before ⟨_, htrace.symm⟩, since_of_trace htrace]
  simp only [List.forall_mem_append, hinit.mem_iff, or_imp, forall_and, outputs_within_iff,
    acpiReads_within_iff, clearing_within_iff]
  constructor
  · rintro ⟨⟨hconsole, htables⟩, hscreen, hhello⟩
    exact ⟨hconsole, htables, hscreen, hhello⟩
  · intro h
    exact ⟨⟨h.console, h.tables⟩, h.screen, h.hello⟩

end KessOS
