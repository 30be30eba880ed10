import KessOS.Util.Equiv.Strings

/-!
# Correctness of `dec2str`

The string is the numeral of the number, and nothing is cut off on the way, unless the number is the
least one, whose opposite is not an `int` (`dec2str_faithful_iff`).  The string of that number is a
sign without a digit.
-/

namespace KessOS

open StateM Copy Numeral

variable {P : StringStep → Prop} {before : Bytes} {number : BitVec 32}

/-! ### Numerals -/

/-- `d + '0'`. -/
def decSymbol (d : ℕ) : BitVec 8 := BitVec.ofNat 8 (asciiZero.toNat + d)

/-- The digit that a character stands for. -/
def decDigit (c : BitVec 8) : Option ℕ :=
  if asciiZero.toNat ≤ c.toNat ∧ c.toNat < asciiZero.toNat + 10 then
    some (c.toNat - asciiZero.toNat)
  else none

/-- The signed decimal numeral of an integer. -/
def decimal (z : ℤ) : List (BitVec 8) :=
  if z < 0 then asciiMinus :: numeral 10 decSymbol z.natAbs else numeral 10 decSymbol z.natAbs

/-- The integer that a signed decimal numeral stands for. -/
def readDecimal (str : List (BitVec 8)) : Option ℤ :=
  if str.head? = some asciiMinus then (read 10 decDigit str.tail).map fun v : ℕ => -(v : ℤ)
  else (read 10 decDigit str).map fun v : ℕ => (v : ℤ)

theorem decDigit_decSymbol {d : ℕ} (h : d < 10) : decDigit (decSymbol d) = some d := by
  have hsymbols : ∀ d : Fin 10, decDigit (decSymbol d) = some d.val := by decide
  exact hsymbols ⟨d, h⟩

theorem decSymbol_ne {d : ℕ} (h : d < 10) : decSymbol d ≠ 0 ∧ decSymbol d ≠ asciiMinus := by
  have hsymbols : ∀ d : Fin 10, decSymbol d ≠ 0 ∧ decSymbol d ≠ asciiMinus := by decide
  exact hsymbols ⟨d, h⟩

/-- No digit is a sign. -/
theorem head_numeral_ne (n : ℕ) : (numeral 10 decSymbol n).head? ≠ some asciiMinus := by
  intro hhead
  obtain ⟨d, hd, hsym⟩ := exists_of_mem_numeral (by decide) (List.mem_of_head? hhead)
  exact (decSymbol_ne hd).2 hsym

/-- Every integer is read back from its numeral. -/
theorem readDecimal_decimal (z : ℤ) : readDecimal (decimal z) = some z := by
  have hread : read 10 decDigit (numeral 10 decSymbol z.natAbs) = some z.natAbs :=
    read_numeral (by decide) fun d hd => decDigit_decSymbol hd
  unfold readDecimal decimal
  split_ifs with hneg hhead hhead
  · have hopposite : -(z.natAbs : ℤ) = z := by omega
    rw [List.tail_cons, hread]
    exact congrArg some hopposite
  · exact absurd rfl hhead
  · exact absurd hhead (head_numeral_ne _)
  · have hself : (z.natAbs : ℤ) = z := by omega
    rw [hread]
    exact congrArg some hself

/-! ### What is written -/

/-- What the loop takes apart: the opposite of the least number is that number again. -/
def magnitude (number : BitVec 32) : ℕ :=
  if number.toInt < 0 then (BitVec.ofInt 32 (-number.toInt)).toInt.toNat else number.toInt.toNat

/-- The characters in the order in which they are written: a zero, digits, and a sign. -/
def decZero (number : BitVec 32) : List (BitVec 8) := if number = 0 then [asciiZero] else []
def decUnsigned (number : BitVec 32) : List (BitVec 8) :=
  decZero number ++ (Nat.digits 10 (magnitude number)).map decSymbol
def decWritten (number : BitVec 32) : List (BitVec 8) :=
  decUnsigned number ++ if number.toInt < 0 then [asciiMinus] else []

/-- The string that `dec2str` returns. -/
def decText (number : BitVec 32) : List (BitVec 8) := (decWritten number).reverse

theorem decDigits_zero {w : BitVec 32} (i : BitVec 8) (h : w.toInt.toNat = 0) :
    decDigits w i = Pure.pure i := by
  rw [decDigits, dif_neg (by omega)]

/-- A round of the loop. -/
theorem decDigits_step (w : BitVec 32) (h : 0 < w.toInt.toNat) :
    ∃ w' : BitVec 32, w'.toInt.toNat = w.toInt.toNat / 10 ∧ ∀ {k before a after}, k < stringSize →
      Does StringStep.InRange (decDigits w' (BitVec.ofNat 8 (k + 1)))
        (Function.update before k (decSymbol (w.toInt.toNat % 10))) a after →
      Does StringStep.InRange (decDigits w (BitVec.ofNat 8 k)) before a after := by
  have hpos : 0 < w.toInt := by omega
  have hlt := BitVec.toInt_lt (x := w)
  have hdiv := toInt_tdiv_ten hpos
  refine ⟨_, by rw [hdiv]; omega, fun {k before a after} hk hrest => ?_⟩
  have hsize : stringSize = 80 := rfl
  have hmod : w.toInt.tmod 10 = w.toInt % 10 := Int.tmod_eq_emod_of_nonneg hpos.le
  have hzero : (asciiZero.toNat : ℤ) = 48 := rfl
  have hdigit : (BitVec.ofInt 32 (w.toInt.tmod 10 + asciiZero.toNat)).toInt =
      w.toInt % 10 + 48 := by
    rw [hmod, hzero]
    exact BitVec.toInt_ofInt_eq_self (by decide) (by omega) (by omega)
  have hsymbol : BitVec.ofInt 8 (w.toInt % 10 + 48) = decSymbol (w.toInt.toNat % 10) := by
    rw [show w.toInt % 10 + 48 = ((asciiZero.toNat + w.toInt.toNat % 10 : ℕ) : ℤ) by
      show _ = ((48 + w.toInt.toNat % 10 : ℕ) : ℤ)
      omega]
    exact BitVec.ofInt_natCast ..
  rw [decDigits, dif_pos hpos]
  refine (does_int ?_).bind ((does_uint8 ?_).bind ?_)
  · rw [hmod, hzero]
    unfold StringStep.InRange
    omega
  · rw [hdigit]
    unfold StringStep.InRange
    omega
  · rw [hdigit, hsymbol]
    refine (does_storeIndex _ _ hk).bind ((does_note ?_).bind ((does_succ (by omega)).bind hrest))
    rw [Int.tdiv_eq_ediv_of_nonneg hpos.le]
    unfold StringStep.InRange
    omega

theorem magnitude_lt (number : BitVec 32) : magnitude number < 2 ^ 31 := by
  unfold magnitude
  split_ifs
  · have hlt := BitVec.toInt_lt (x := BitVec.ofInt 32 (-number.toInt))
    omega
  · have hlt := BitVec.toInt_lt (x := number)
    omega

theorem length_digits_magnitude (number : BitVec 32) :
    (Nat.digits 10 (magnitude number)).length ≤ 10 := by
  refine (Nat.digits_length_le_iff (by decide) _).mpr ?_
  have hlt := magnitude_lt number
  omega

theorem length_decUnsigned (number : BitVec 32) : (decUnsigned number).length ≤ 11 := by
  have hzero : (decZero number).length ≤ 1 := length_ite_singleton_le
  have hdigits := length_digits_magnitude number
  rw [decUnsigned, List.length_append, List.length_map]
  omega

theorem length_decWritten (number : BitVec 32) : (decWritten number).length ≤ 12 := by
  have hunsigned := length_decUnsigned number
  have hsign : (if number.toInt < 0 then [asciiMinus] else []).length ≤ 1 :=
    length_ite_singleton_le
  rw [decWritten, List.length_append]
  omega

theorem decWritten_ne_nil (number : BitVec 32) : decWritten number ≠ [] := by
  unfold decWritten decUnsigned decZero
  by_cases hzero : number = 0
  · rw [if_pos hzero]
    simp
  by_cases hneg : number.toInt < 0
  · rw [if_pos hneg]
    simp
  · have hne : number.toInt ≠ 0 := fun h => hzero (BitVec.toInt_inj.mp h)
    have hpos : magnitude number ≠ 0 := by
      rw [magnitude, if_neg hneg]
      omega
    simp [Nat.digits_eq_nil_iff_eq_zero, hpos]

section Run

variable (hP : ∀ step : StringStep, step.InRange → P step)

include hP

theorem does_decStart (before : Bytes) (hneg : number.toInt < 0 → P (.int (-number.toInt))) :
    ∃ w : BitVec 32, w.toInt.toNat = magnitude number ∧
      Does P (decStart number) before (w, BitVec.ofNat 8 (decZero number).length)
        (Block.put before ⟨0, decZero number⟩) := by
  unfold decStart magnitude decZero
  by_cases hzero : number = 0
  · have hstore := does_storeNext before [] asciiZero (by decide)
    rw [put_nil] at hstore
    rw [if_pos hzero, if_pos hzero, if_neg (by rw [hzero]; decide)]
    exact ⟨number, rfl, (hstore.mono hP).bind (.pure _)⟩
  rw [if_neg hzero, if_neg hzero, put_nil]
  split_ifs with hminus
  · exact ⟨_, rfl, (does_int (hneg hminus)).bind (.pure _)⟩
  · exact ⟨number, rfl, .pure _⟩

theorem does_decDigits {w : BitVec 32} (hw : w.toInt.toNat = magnitude number) :
    Does P (decDigits w (BitVec.ofNat 8 (decZero number).length))
      (Block.put before ⟨0, decZero number⟩) (BitVec.ofNat 8 (decUnsigned number).length)
      (Block.put before ⟨0, decUnsigned number⟩) := by
  have hsize : stringSize = 80 := rfl
  have hlen := length_decUnsigned number
  rw [decUnsigned, List.length_append, List.length_map] at hlen ⊢
  have hdoes := does_digits (fun w : BitVec 32 => w.toInt.toNat) (b := 10)
    (Block.put before ⟨0, decZero number⟩) (by decide) (fun w i => decDigits_zero i) decDigits_step
    (w := w) (k := (decZero number).length) (by rw [hw]; omega)
  rw [hw] at hdoes
  rw [← put_append, Nat.zero_add]
  exact hdoes.mono hP

/-- **What `dec2str` does**: all of it is in range, but perhaps the sign change. -/
theorem does_dec2str (before : Bytes) (hneg : number.toInt < 0 → P (.int (-number.toInt))) :
    Does P (dec2str number) before () (Block.put before ⟨0, decText number ++ [0]⟩) := by
  have hsize : stringSize = 80 := rfl
  have hunsigned := length_decUnsigned number
  have hwritten := length_decWritten number
  obtain ⟨w, hw, hstart⟩ := does_decStart hP before hneg
  have hsign := does_storeNextIf before (decUnsigned number) (number.toInt < 0) asciiMinus
    (by omega)
  have hfinish := does_finish before (decWritten_ne_nil number) (by omega)
  exact hstart.bind ((does_decDigits hP hw).bind ((hsign.mono hP).bind (hfinish.mono hP)))

end Run

/-! ### The string -/

theorem decText_zero : decText 0 = [asciiZero] := by
  have hmagnitude : magnitude 0 = 0 := rfl
  rw [decText, decWritten, decUnsigned, hmagnitude, Nat.digits_zero]
  rfl

/-- The least number gets a sign only. -/
theorem decText_intMin : decText (BitVec.intMin 32) = [asciiMinus] := by
  have hmagnitude : magnitude (BitVec.intMin 32) = 0 := by decide
  rw [decText, decWritten, decUnsigned, hmagnitude, Nat.digits_zero]
  decide

/-- The opposite of any other number is an `int`. -/
theorem magnitude_of_ne (h : number ≠ BitVec.intMin 32) :
    magnitude number = number.toInt.natAbs := by
  have hlt := BitVec.toInt_lt (x := number)
  have hle := BitVec.le_toInt number
  have hmin : number.toInt ≠ -2 ^ 31 := fun heq => h (BitVec.toInt_inj.mp heq)
  unfold magnitude
  split_ifs with hneg
  · rw [BitVec.toInt_ofInt_eq_self (by decide) (by omega) (by omega)]
    omega
  · omega

theorem decText_of_ne (h : number ≠ BitVec.intMin 32) : decText number = decimal number.toInt := by
  by_cases hzero : number = 0
  · rw [hzero, decText_zero]
    rfl
  have hne : number.toInt ≠ 0 := fun h => hzero (BitVec.toInt_inj.mp h)
  rw [decText, decWritten, decUnsigned, decZero, if_neg hzero, List.nil_append,
    magnitude_of_ne h, decimal, numeral, if_neg (Int.natAbs_ne_zero.mpr hne)]
  split_ifs
  · rw [List.reverse_append]
    rfl
  · rw [List.append_nil]

theorem ne_zero_of_mem_decText {c : BitVec 8} (h : c ∈ decText number) : c ≠ 0 := by
  unfold decText decWritten decUnsigned decZero at h
  simp only [List.mem_reverse, List.mem_append, List.mem_map] at h
  rcases h with (hzero | ⟨d, hd, rfl⟩) | hsign
  · exact ne_zero_of_mem_ite (by decide) hzero
  · exact (decSymbol_ne (Nat.digits_lt_base (by decide) hd)).1
  · exact ne_zero_of_mem_ite (by decide) hsign

theorem length_decText (number : BitVec 32) : (decText number).length < stringSize := by
  have hlen := length_decWritten number
  rw [decText, List.length_reverse]
  exact Nat.lt_of_le_of_lt hlen (by decide)

/-! ### The law -/

/-- The string is the decimal numeral of the number, it ends in the buffer, and all arithmetic and
all accesses are in range. -/
structure Dec2strFaithful (number : BitVec 32) (after : StaticString) : Prop where
  numeral : after.text = decimal number.toInt
  reads : readDecimal after.text = some number.toInt
  nul : after.bytes after.text.length = 0
  inRange : ∀ step ∈ after.steps, step.InRange

/-- The static buffer after a call that finds it with the content `before`. -/
def dec2strFrom (number : BitVec 32) (before : Bytes) : StaticString :=
  ((dec2str number).run ⟨before, []⟩).2

/-- The string does not depend on what was in the buffer. -/
theorem text_dec2strFrom (number : BitVec 32) (before : Bytes) :
    (dec2strFrom number before).text = decText number := by
  obtain ⟨more, hrun, -⟩ := does_dec2str (P := fun _ => True) (fun _ _ => trivial) before
    (fun _ => trivial) []
  rw [dec2strFrom, hrun]
  exact text_put (length_decText number) (fun c hc => ne_zero_of_mem_decText hc) before _

theorem not_faithful_intMin (before : Bytes) :
    ¬ Dec2strFaithful (BitVec.intMin 32) (dec2strFrom (BitVec.intMin 32) before) := by
  intro h
  have hreads := h.reads
  rw [text_dec2strFrom, decText_intMin] at hreads
  exact absurd hreads (by decide)

/-- **Whether `dec2str` is faithful**: for all numbers but the least, whatever was in the buffer. -/
theorem dec2str_faithful_iff (number : BitVec 32) (before : Bytes) :
    Dec2strFaithful number (dec2strFrom number before) ↔ number ≠ BitVec.intMin 32 := by
  constructor
  · rintro hfaithful rfl
    exact not_faithful_intMin before hfaithful
  · intro hne
    have htext := text_dec2strFrom number before
    have hmin : number.toInt ≠ -2 ^ 31 := fun heq => hne (BitVec.toInt_inj.mp heq)
    obtain ⟨more, hrun, hmore⟩ := does_dec2str (P := StringStep.InRange) (fun _ h => h) before
      (fun hneg : number.toInt < 0 => by
        have hle := BitVec.le_toInt number
        unfold StringStep.InRange
        omega) []
    refine ⟨?_, ?_, ?_, ?_⟩
    · rw [htext, decText_of_ne hne]
    · rw [htext, decText_of_ne hne, readDecimal_decimal]
    · rw [htext, dec2strFrom, hrun]
      exact nul_put _ _
    · rw [dec2strFrom, hrun]
      exact hmore

/-- The string of -2147483648 is no numeral. -/
theorem not_dec2str_faithful_least :
    ¬ Dec2strFaithful (BitVec.intMin 32) (dec2strFrom (BitVec.intMin 32) fun _ => 0) :=
  not_faithful_intMin _

end KessOS
