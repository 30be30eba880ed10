import KessOS.Interrupt.Idt

/-!
# The gates of the descriptor table

`idt_set_vec` writes every field but `ist` and the bit of byte 4 that has no field, and it writes
zero to `dpl` whatever the flags say (`decode_setGate`).  A vector therefore decodes to what its
last call asked for exactly when that call asked for privilege level 0 and the bits that are never
written were zero from the start (`roundTrips_iff`).
-/

namespace KessOS

open Word Word.Field

/-- Every vector that was set decodes to the gate of its last call, every other is unchanged. -/
def RoundTrips (idt : Idt) (calls : List SetVec) : Prop :=
  ∀ vec, match lastCall vec calls with
    | some call => Gate.decode (setVecs idt calls vec) = gateFor call.isr call.flags
    | none => setVecs idt calls vec = idt vec

/-! ### One call -/

/-- The three parts of an address make up the address. -/
theorem offset_parts (addr : BitVec 64) :
    (addr >>> 32 &&& 0xFFFFFFFF#64).setWidth 32 ++ (addr >>> 16 &&& 0xFFFF#64).setWidth 16 ++
      (addr &&& 0xFFFF#64).setWidth 16 = addr := by
  have hlow : ∀ x : BitVec 64, (x &&& 0xFFFF#64).setWidth 16 = x.setWidth 16 := by
    intro x
    rw [BitVec.setWidth_and]
    exact BitVec.and_allOnes
  have hhigh : ∀ x : BitVec 64, (x &&& 0xFFFFFFFF#64).setWidth 32 = x.setWidth 32 := by
    intro x
    rw [BitVec.setWidth_and]
    exact BitVec.and_allOnes
  rw [hlow, hlow, hhigh]
  refine BitVec.eq_of_getLsbD_eq fun i hi => ?_
  simp only [BitVec.getLsbD_append, BitVec.getLsbD_setWidth, BitVec.getLsbD_ushiftRight]
  grind

/-- The processor's fields, in the fields of the structure. -/
theorem decode_eq (gate : GateBits) :
    Gate.decode gate =
      { offset := IdtVector.isrHigh32.get gate ++ IdtVector.isrMid16.get gate ++
          IdtVector.isrLow16.get gate
        selector := IdtVector.cs.get gate
        ist := IdtVector.ist.get gate
        zeros := IdtVector.padding.get gate ++
          (IdtVector.zero1.get gate ++ IdtVector.zero.get gate)
        attributes := IdtVector.p.get gate ++
          (IdtVector.dpl.get gate ++ (IdtVector.zero2.get gate ++ IdtVector.attr.get gate))
        reserved := IdtVector.reserved.get gate } := by
  let zeros : Field 128 (3 + 1) := ⟨35, by decide⟩
  let low : Field 128 (1 + 4) := ⟨40, by decide⟩
  let middle : Field 128 (2 + (1 + 4)) := ⟨40, by decide⟩
  rw [Gate.decode, Gate.mk.injEq]
  refine ⟨rfl, rfl, rfl, ?_, ?_, rfl⟩
  · rw [← get_append (h := zeros) rfl rfl]
    exact get_append (f := zeros) (h := Gate.zerosField) rfl rfl gate
  · rw [← get_append (h := low) rfl rfl, ← get_append (h := middle) rfl rfl]
    exact get_append (f := middle) (h := Gate.attributesField) rfl rfl gate

/-- What a call of `idt_set_vec` makes of a gate. -/
theorem decode_setGate (isr : BitVec 64) (flags : BitVec 32) (gate : GateBits) :
    Gate.decode (setGate isr flags gate) =
      { offset := isr
        selector := gateCs
        ist := IdtVector.ist.get gate
        zeros := IdtVector.padding.get gate ++ 0#4
        attributes := 1#1 ++ (0#2 ++ (0#1 ++ flags.setWidth 4))
        reserved := 0 } := by
  rw [decode_eq, Gate.mk.injEq]
  simp (disch := decide) only [setGate, get_set, get_set_of_disjoint, true_and, and_true]
  refine ⟨offset_parts isr, rfl, rfl⟩

/-- A call leaves the bits that it never writes. -/
theorem untouched_setGate (isr : BitVec 64) (flags : BitVec 32) (gate : GateBits) :
    IdtVector.ist.get (setGate isr flags gate) = IdtVector.ist.get gate ∧
      IdtVector.padding.get (setGate isr flags gate) = IdtVector.padding.get gate := by
  simp (disch := decide) only [setGate, get_set_of_disjoint, and_self]

/-- An attribute byte is made of its type, its privilege level and two fixed bits. -/
theorem attributes_eq_iff (flags : GateAttr) :
    1#1 ++ (0#2 ++ (0#1 ++ (flags.byte.setWidth 32).setWidth 4)) = flags.byte ↔
      flags.dpl = 0 := by
  obtain ⟨byte, hpresent, hsystem⟩ := flags
  show _ = byte ↔ byte.extractLsb' 5 2 = 0
  revert hpresent hsystem
  revert byte
  decide

/-- A gate decodes to what the call asks for exactly when the call asks for level 0 and the bits
that it does not write are zero. -/
theorem decode_setGate_eq_iff (isr : BitVec 64) (flags : GateAttr) (gate : GateBits) :
    Gate.decode (setGate isr (flags.byte.setWidth 32) gate) = gateFor isr flags ↔
      flags.dpl = 0 ∧ IdtVector.ist.get gate = 0 ∧ IdtVector.padding.get gate = 0 := by
  have hzeros : IdtVector.padding.get gate ++ 0#4 = (0 : BitVec 5) ↔
      IdtVector.padding.get gate = 0 := by
    generalize IdtVector.padding.get gate = bit
    revert bit
    decide
  rw [decode_setGate, gateFor, Gate.mk.injEq, attributes_eq_iff, hzeros]
  tauto

/-! ### Sequences of calls -/

theorem setVecs_append (idt : Idt) (calls : List SetVec) (call : SetVec) :
    setVecs idt (calls ++ [call]) = call.run (setVecs idt calls) :=
  List.foldl_append

theorem lastCall_append (vec : BitVec 8) (calls : List SetVec) (call : SetVec) :
    lastCall vec (calls ++ [call]) =
      if call.vec = vec then some call else lastCall vec calls := by
  rw [lastCall, List.reverse_append, List.reverse_singleton, List.singleton_append,
    List.find?_cons]
  by_cases h : call.vec = vec
  · rw [if_pos h]
    simp [h]
  · rw [if_neg h]
    simp [h, lastCall]

/-- A vector that no call is about is unchanged. -/
theorem setVecs_of_none {idt : Idt} {calls : List SetVec} {vec : BitVec 8}
    (h : lastCall vec calls = none) : setVecs idt calls vec = idt vec := by
  induction calls using List.reverseRecOn with
  | nil => rfl
  | append_singleton calls call ih =>
    rw [lastCall_append] at h
    split_ifs at h with hvec
    rw [setVecs_append, SetVec.run, idtSetVec, Function.update_of_ne (Ne.symm hvec), ih h]

/-- The bits that `idt_set_vec` never writes are those of the start. -/
theorem untouched_setVecs (idt : Idt) (calls : List SetVec) (vec : BitVec 8) :
    IdtVector.ist.get (setVecs idt calls vec) = IdtVector.ist.get (idt vec) ∧
      IdtVector.padding.get (setVecs idt calls vec) = IdtVector.padding.get (idt vec) := by
  induction calls using List.reverseRecOn with
  | nil => exact ⟨rfl, rfl⟩
  | append_singleton calls call ih =>
    rw [setVecs_append, SetVec.run, idtSetVec]
    by_cases hvec : vec = call.vec
    · subst hvec
      rw [Function.update_self, (untouched_setGate ..).1, (untouched_setGate ..).2]
      exact ih
    · rw [Function.update_of_ne hvec]
      exact ih

/-- A vector that was set holds the gate that its last call wrote over an earlier one. -/
theorem setVecs_of_some (idt : Idt) {calls : List SetVec} {vec : BitVec 8} {call : SetVec}
    (h : lastCall vec calls = some call) :
    ∃ earlier, setVecs idt calls vec = setGate call.isr (call.flags.byte.setWidth 32)
      (setVecs idt earlier vec) := by
  induction calls using List.reverseRecOn with
  | nil => cases h
  | append_singleton calls last ih =>
    rw [lastCall_append] at h
    rw [setVecs_append, SetVec.run, idtSetVec]
    split_ifs at h with hvec
    · obtain rfl := Option.some.inj h
      subst hvec
      exact ⟨calls, Function.update_self ..⟩
    · rw [Function.update_of_ne (Ne.symm hvec)]
      exact ih h

/-- The table round-trips exactly when the last call about each vector asks for privilege level 0
and the bits of the vector that are never written were zero. -/
theorem roundTrips_iff (idt : Idt) (calls : List SetVec) :
    RoundTrips idt calls ↔ ∀ vec call, lastCall vec calls = some call →
      call.flags.dpl = 0 ∧ IdtVector.ist.get (idt vec) = 0 ∧
        IdtVector.padding.get (idt vec) = 0 := by
  have hset : ∀ vec call, lastCall vec calls = some call →
      (Gate.decode (setVecs idt calls vec) = gateFor call.isr call.flags ↔
        call.flags.dpl = 0 ∧ IdtVector.ist.get (idt vec) = 0 ∧
          IdtVector.padding.get (idt vec) = 0) := by
    intro vec call hcall
    obtain ⟨earlier, hearlier⟩ := setVecs_of_some idt hcall
    rw [hearlier, decode_setGate_eq_iff, (untouched_setVecs ..).1, (untouched_setVecs ..).2]
  constructor
  · intro htrips vec call hcall
    have hvec := htrips vec
    rw [hcall] at hvec
    exact (hset vec call hcall).mp hvec
  · intro hall vec
    cases hcall : lastCall vec calls with
    | none => exact setVecs_of_none hcall
    | some call => exact (hset vec call hcall).mpr (hall vec call hcall)

/-- The flags that the kernel passes ask for level 0. -/
example : trapGateFlags.dpl = 0 ∧ intGateFlags.dpl = 0 := by decide

/-- The level of a user gate is lost. -/
theorem not_roundTrips_userGate :
    ¬ RoundTrips (fun _ => 0) [⟨0x80, 0x1000, idtIntGateUser⟩] := by
  intro htrips
  have hdecode : Gate.decode (setVecs (fun _ => 0) [⟨0x80, 0x1000, idtIntGateUser⟩] 0x80) =
      gateFor 0x1000 idtIntGateUser := htrips 0x80
  exact absurd hdecode (by decide)

end KessOS
