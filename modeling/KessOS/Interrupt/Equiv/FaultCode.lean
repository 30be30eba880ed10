import KessOS.Interrupt.Equiv.Exceptions
import KessOS.Text.Optional

/-!
# What is printed of an error code

The text of `get_page_fault_code` tells the low seven bits of the code, and nothing else of it
(`getPageFaultCode_tells`).
-/

namespace KessOS

open Copy Text

variable {mem : PhysMem} {code code' : BitVec 16}

/-! ### The text -/

/-- The flag is set in the code. -/
def flagged (code : BitVec 16) (flag : BitVec 16 × List (BitVec 8)) : Bool :=
  code &&& flag.1 ≠ 0

/-- What is typed behind the notice. -/
def flagsText (code : BitVec 16) : List (BitVec 8) :=
  chars "-|" ++ (chosen (flagged code) Prod.snd faultFlags ++ chars "-\n\n")

/-- What is typed. -/
def faultText (code : BitVec 16) : List (BitVec 8) := faultNotice ++ flagsText code

/-- Reads the flags off the text. -/
def readFaultCode (text : List (BitVec 8)) : BitVec 16 :=
  (found Prod.snd faultFlags (text.drop (faultNotice ++ chars "-|").length)).foldr
    (fun flag bits => flag.1 ||| bits) 0

/-! ### The calls of `log` -/

theorem labelled_other_append (text text' : List (BitVec 8)) :
    labelled .other (text ++ text') = labelled .other text ++ labelled .other text' := by
  simp [labelled, Status.label]

/-- A literal without a `%` is printed as it is. -/
theorem plain_chars {text : String}
    (h : (text.toList.all fun c => c.toNat < 128 && (c.toNat != 0 && c.toNat != 37)) = true) :
    ∀ c ∈ chars text, c ≠ 0 ∧ c ≠ percent := by
  intro c hc
  obtain ⟨-, hplain⟩ := forall_mem_chars (p := fun n => n != 0 && n != 37) h c hc
  simp only [Bool.and_eq_true, bne_iff_ne] at hplain
  constructor
  · rintro rfl
    exact hplain.1 rfl
  · rintro rfl
    exact hplain.2 rfl

theorem plain_faultNotice : ∀ c ∈ faultNotice, c ≠ 0 ∧ c ≠ percent :=
  List.forall_mem_append.mpr ⟨plain_chars (by simp), plain_chars (by simp)⟩

theorem plain_faultFlags : ∀ flag ∈ faultFlags, ∀ c ∈ flag.2, c ≠ 0 ∧ c ≠ percent := by
  unfold faultFlags
  simp only [List.forall_mem_cons]
  refine ⟨?_, ?_, ?_, ?_, ?_, ?_, ?_, fun _ h => absurd h List.not_mem_nil⟩
  all_goals exact plain_chars (by simp)

/-- A text is printed for every element of a list. -/
theorem Prints.forM {ι : Type} {f : ι → LogM Unit} {text : ι → List (BitVec 8)} {is : List ι}
    (h : ∀ i ∈ is, Prints mem (labelled .other (text i)) (f i) ()) :
    Prints mem (labelled .other (is.flatMap text)) (is.forM f) () := by
  induction is with
  | nil => exact prints_pure ()
  | cons i is ih =>
    obtain ⟨hi, his⟩ := List.forall_mem_cons.mp h
    rw [List.flatMap_cons, labelled_other_append]
    exact hi.bind (ih his)

/-- The words of the flags that are set. -/
theorem prints_faultFlags (code : BitVec 16) :
    Prints mem (labelled .other (chosen (flagged code) Prod.snd faultFlags))
      (faultFlags.forM fun flag => do
        if code &&& flag.1 ≠ 0 then
          logPlain mem flag.2 .other) () := by
  refine Prints.forM fun flag hflag => ?_
  by_cases hset : code &&& flag.1 ≠ 0
  · have hflagged : flagged code flag = true := decide_eq_true hset
    rw [if_pos hset, if_pos hflagged]
    exact prints_logPlain (plain_faultFlags flag hflag) .other
  · rw [if_neg hset, if_neg (by simpa [flagged] using hset)]
    exact prints_pure ()

theorem prints_getPageFaultCode (mem : PhysMem) (code : BitVec 16) :
    Prints mem (labelled .other (faultText code)) (getPageFaultCode mem code) () := by
  simp only [faultText, flagsText, labelled_other_append]
  refine (prints_logPlain plain_faultNotice .other).bind ?_
  refine (prints_logPlain (plain_chars (by simp)) .other).bind ?_
  refine (prints_faultFlags code).bind ?_
  exact prints_logPlain (plain_chars (by simp)) .other

/-! ### Reading it back -/

/-- No flag's word is taken for another one, or for the end of the text. -/
theorem distinct_faultFlags : Distinct (faultFlags.map Prod.snd ++ [chars "-\n\n"]) := by decide

/-- The flags are single bits. -/
theorem faultFlags_twoPow : ∀ flag ∈ faultFlags, ∃ i : Fin 16, flag.1 = BitVec.twoPow 16 i := by
  decide

theorem and_flag {flag : BitVec 16 × List (BitVec 8)} (hflag : flag ∈ faultFlags)
    (code : BitVec 16) : code &&& flag.1 = if flagged code flag then flag.1 else 0 := by
  obtain ⟨i, hi⟩ := faultFlags_twoPow flag hflag
  have hbit := BitVec.and_twoPow code i
  rw [← hi] at hbit
  by_cases hset : code &&& flag.1 = 0
  · rw [hset, if_neg (by simpa [flagged] using hset)]
  · rw [if_pos (by simpa [flagged] using hset)]
    rw [hbit] at hset ⊢
    exact if_pos (by_contra fun hclear => hset (if_neg hclear))

/-- The flags that are set are the bits of the code. -/
theorem foldr_flagged (code : BitVec 16) {flags : List (BitVec 16 × List (BitVec 8))}
    (hflags : ∀ flag ∈ flags, flag ∈ faultFlags) :
    (flags.filter (flagged code)).foldr (fun flag bits => flag.1 ||| bits) 0 =
      code &&& flags.foldr (fun flag bits => flag.1 ||| bits) 0 := by
  induction flags with
  | nil => exact BitVec.and_zero.symm
  | cons flag flags ih =>
    obtain ⟨hflag, hrest⟩ := List.forall_mem_cons.mp hflags
    rw [List.foldr_cons, BitVec.and_or_distrib_left, and_flag hflag, ← ih hrest]
    by_cases hset : flagged code flag
    · rw [List.filter_cons_of_pos hset, List.foldr_cons, if_pos hset]
    · rw [List.filter_cons_of_neg hset, if_neg hset]
      exact BitVec.zero_or.symm

theorem readFaultCode_faultText (code : BitVec 16) :
    readFaultCode (faultText code) = code &&& 0x7F := by
  rw [readFaultCode, faultText, flagsText, ← List.append_assoc, List.drop_left,
    found_chosen distinct_faultFlags, foldr_flagged code fun _ h => h]
  rfl

/-- The text depends on these bits only. -/
theorem faultText_congr (h : code &&& 0x7F = code' &&& 0x7F) :
    faultText code = faultText code' := by
  have hmask : ∀ flag ∈ faultFlags, 0x7F &&& flag.1 = flag.1 := by decide
  have hflagged : ∀ flag ∈ faultFlags, flagged code flag = flagged code' flag := by
    intro flag hflag
    rw [flagged, flagged, ← hmask flag hflag, ← BitVec.and_assoc, h, BitVec.and_assoc]
  have hchosen : chosen (flagged code) Prod.snd faultFlags =
      chosen (flagged code') Prod.snd faultFlags :=
    List.flatMap_congr fun flag hflag => by rw [hflagged flag hflag]
  rw [faultText, faultText, flagsText, flagsText, hchosen]

/-- **What is printed of an error code.**  In any state, `get_page_fault_code` prints a text from
which the low seven bits of the code are read back, and codes that agree in these are printed
alike. -/
theorem getPageFaultCode_tells (mem : PhysMem) (s : Logger) (code : BitVec 16) :
    (∃ s', (getPageFaultCode mem code).run s = .ok () s' ∧
      s'.kernel = s.kernel.typeAll mem (labelled .other (faultText code))) ∧
    readFaultCode (faultText code) = code &&& 0x7F ∧
    ∀ code', faultText code = faultText code' ↔ code &&& 0x7F = code' &&& 0x7F := by
  refine ⟨prints_getPageFaultCode mem code s, readFaultCode_faultText code, fun code' =>
    ⟨fun h => ?_, faultText_congr⟩⟩
  rw [← readFaultCode_faultText, h, readFaultCode_faultText]

end KessOS
