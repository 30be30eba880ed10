import KessOS.Interrupt.Equiv.Cpu
import KessOS.Interrupt.Equiv.Idt
import KessOS.Interrupt.Equiv.Irq
import KessOS.Interrupt.Vectors

/-!
# Which interrupts are handled

The two tables fit together: the processor finds a handler for the vectors that `init` sets and
for no other, and each gate's selector is the code segment of the table that `gdt_load` loads
(`take_initIdt_iff`).
-/

namespace KessOS

variable {isr : Handler → BitVec 64} {vec : BitVec 8} {c c' : Cpu}

/-- If at most one element is looked for, the search may start at either end. -/
theorem find?_reverse_of_unique {α : Type*} {p : α → Bool} {l : List α}
    (h : l.Pairwise fun a b => ¬ (p a = true ∧ p b = true)) :
    l.reverse.find? p = l.find? p := by
  induction l with
  | nil => rfl
  | cons a l ih =>
    obtain ⟨ha, hl⟩ := List.pairwise_cons.mp h
    rw [List.reverse_cons, List.find?_append, ih hl, List.find?_cons]
    cases hp : p a with
    | true =>
      have hnone : l.find? p = none :=
        List.find?_eq_none.mpr fun b hb hpb => ha b hb ⟨hp, hpb⟩
      simp [hnone, hp]
    | false => simp [hp]

/-- No vector is set twice. -/
theorem lastCall_initVectors (isr : Handler → BitVec 64) (vec : BitVec 8) :
    lastCall vec (initVectors isr) = (handlerOf vec).map fun h => ⟨vec, isr h.1, h.2⟩ := by
  have hkeys : vectors.Pairwise fun a b => a.1 ≠ b.1 := by
    rw [← List.pairwise_map]
    decide
  have hunique : vectors.Pairwise fun a b =>
      ¬ ((a.1 = vec : Bool) = true ∧ (b.1 = vec : Bool) = true) := by
    refine hkeys.imp fun hne h => hne ?_
    simp only [decide_eq_true_eq] at h
    exact h.1.trans h.2.symm
  rw [lastCall, initVectors, ← List.map_reverse, List.find?_map, handlerOf, Option.map_map]
  simp only [Function.comp_def]
  rw [find?_reverse_of_unique hunique]
  cases hfind : vectors.find? fun v => v.1 = vec with
  | none => rfl
  | some v =>
    have hvec : v.1 = vec := by simpa using List.find?_some hfind
    simp [hvec]

/-- What the processor reads in a vector. -/
theorem decode_initIdt (isr : Handler → BitVec 64) (vec : BitVec 8) :
    Gate.decode (initIdt isr vec) =
      (handlerOf vec).elim (Gate.decode 0) fun h => gateFor (isr h.1) h.2 := by
  have hdpl : ∀ v ∈ vectors, v.2.2.dpl = 0 := by decide
  have hlast := lastCall_initVectors isr vec
  cases hhandler : handlerOf vec with
  | none =>
    rw [hhandler] at hlast
    rw [initIdt, setVecs_of_none hlast]
    rfl
  | some h =>
    rw [hhandler] at hlast
    obtain ⟨v, hv, rfl⟩ := Option.map_eq_some_iff.mp hhandler
    obtain ⟨earlier, hearlier⟩ := setVecs_of_some (fun _ => 0) hlast
    obtain ⟨hist, hpadding⟩ := untouched_setVecs (fun _ => 0) earlier vec
    rw [initIdt, hearlier, Option.elim_some]
    refine (decode_setGate_eq_iff ..).mpr ⟨hdpl v (List.mem_of_find?_eq_some hv), ?_, ?_⟩
    · rw [hist]
      rfl
    · rw [hpadding]
      rfl

/-- The gates that `init` sets are valid, and a gate that was never set is not. -/
theorem valid_decode_initIdt (isr : Handler → BitVec 64) (vec : BitVec 8) :
    (Gate.decode (initIdt isr vec)).valid = (handlerOf vec).isSome := by
  have hvalid : ∀ v ∈ vectors, ∀ isr, (gateFor isr v.2.2).valid = true := by
    intro v hv isr
    have hbyte : ∀ v ∈ vectors,
        (v.2.2.byte.getLsbD 7 && !v.2.2.byte.getLsbD 4 &&
          v.2.2.byte.extractLsb' 1 3 == 7) = true := by decide
    exact hbyte v hv
  rw [decode_initIdt]
  cases hhandler : handlerOf vec with
  | none =>
    show (Gate.decode 0).valid = false
    decide
  | some h =>
    obtain ⟨v, hv, rfl⟩ := Option.map_eq_some_iff.mp hhandler
    exact hvalid v (List.mem_of_find?_eq_some hv) _

/-- The selector of the gates stands for the code of the kernel. -/
theorem isCode_gateCs : (gdtPointer.fetch gateCs).any (Descriptor.isCode 0) = true := by decide

/-- The processor behind the delivery to a handler by a gate with these attributes. -/
def Cpu.enter (c : Cpu) (isr : BitVec 64) (flags : GateAttr) : Cpu :=
  { c with
    toMachine :=
      { c.deliver isr with
        rflags :=
          if flags.byte.getLsbD 0 then c.rflags &&& ~~~(gateFlags &&& ~~~interruptFlag)
          else c.rflags &&& ~~~gateFlags } }

/-- What is delivered with the two tables loaded. -/
theorem take_initIdt (hgdtr : c.gdtr = gdtPointer) (idt : BitVec 64) :
    c.take (idtInstall idt) (initIdt isr) vec =
      (handlerOf vec).map fun h => c.enter (isr h.1) h.2 := by
  have hlimit : 16 * vec.toNat + 15 ≤ (idtInstall idt).limit.toNat := by
    show _ ≤ 4095
    omega
  have hvalid := valid_decode_initIdt isr vec
  have hdecode := decode_initIdt isr vec
  rw [Cpu.take, hvalid]
  cases hhandler : handlerOf vec with
  | none => simp
  | some h =>
    obtain ⟨h, flags⟩ := h
    rw [hhandler, Option.elim_some] at hdecode
    have hcode : (c.gdtr.fetch (gateFor (isr h) flags).selector).any (Descriptor.isCode 0) := by
      rw [hgdtr]
      exact isCode_gateCs
    rw [hdecode, if_pos ⟨hlimit, rfl, hcode⟩]
    rfl

/-- **The tables fit together**: with the two tables loaded, an interrupt is delivered exactly if
`init` sets its vector, and then it goes to the handler of this vector, in the code segment of the
kernel, with `IF` cleared by an interrupt gate and kept by a trap gate. -/
theorem take_initIdt_iff (hgdtr : c.gdtr = gdtPointer) (idt : BitVec 64) :
    c.take (idtInstall idt) (initIdt isr) vec = some c' ↔
      ∃ h flags, handlerOf vec = some (h, flags) ∧ c' = c.enter (isr h) flags := by
  rw [take_initIdt hgdtr, Option.map_eq_some_iff]
  constructor
  · rintro ⟨⟨h, flags⟩, hhandler, rfl⟩
    exact ⟨h, flags, hhandler, rfl⟩
  · rintro ⟨h, flags, hhandler, rfl⟩
    exact ⟨⟨h, flags⟩, hhandler, rfl⟩

/-- A processor of the kernel's ring, with the kernel's segments. -/
def kernelCpu : Cpu :=
  { idleMachine with ds := 0x10, es := 0x10, fs := 0x10, gs := 0x10, gdtr := gdtPointer }

/-- The timer interrupts it, and the keyboard does not. -/
theorem take_initIdt_iff_irqs :
    (kernelCpu.take (idtInstall 0x103000) (initIdt fun _ => 0x102000) 0x20 =
      some (kernelCpu.enter 0x102000 intGateFlags)) ∧
    ∀ c', kernelCpu.take (idtInstall 0x103000) (initIdt fun _ => 0x102000) 0x21 ≠ some c' := by
  refine ⟨(take_initIdt_iff rfl _).mpr ⟨.irq0Handler, intGateFlags, rfl, rfl⟩, fun c' htake => ?_⟩
  obtain ⟨h, flags, hhandler, -⟩ := (take_initIdt_iff rfl _).mp htake
  have hnone : handlerOf 0x21 = none := rfl
  rw [hnone] at hhandler
  cases hhandler

end KessOS
