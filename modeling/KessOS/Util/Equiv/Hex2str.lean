import KessOS.Util.Equiv.Strings

/-!
# Correctness of `hex2str`

The string is `0x` with the hexadecimal numeral of the number behind it, padded to two digits, for
every number (`hex2str_faithful`).
-/

namespace KessOS

open StateM Copy Numeral

variable {before : Bytes} {hexNum : BitVec 32}

/-! ### Numerals -/

/-- The digit that a character stands for. -/
def hexDigit (c : BitVec 8) : Option ℕ :=
  if 0x30 ≤ c.toNat ∧ c.toNat ≤ 0x39 then some (c.toNat - 0x30)
  else if 0x41 ≤ c.toNat ∧ c.toNat ≤ 0x46 then some (c.toNat - 0x41 + 10)
  else none

/-- `0x`, a zero if there is one digit only, and the digits. -/
def hexText (hexNum : BitVec 32) : List (BitVec 8) :=
  chars "0x" ++ (if hexNum < 0x10 then [asciiZero] else []) ++ numeral 16 asciiNumbers hexNum.toNat

/-- The number that a string with `0x` in front stands for. -/
def readHex (str : List (BitVec 8)) : Option ℕ :=
  if str.take 2 = chars "0x" then read 16 hexDigit (str.drop 2) else none

theorem hexDigit_asciiNumbers {d : ℕ} (h : d < 16) : hexDigit (asciiNumbers d) = some d := by
  have hsymbols : ∀ d : Fin 16, hexDigit (asciiNumbers d) = some d.val := by decide
  exact hsymbols ⟨d, h⟩

theorem asciiNumbers_ne {d : ℕ} (h : d < 16) : asciiNumbers d ≠ 0 := by
  have hsymbols : ∀ d : Fin 16, asciiNumbers d ≠ 0 := by decide
  exact hsymbols ⟨d, h⟩

/-- Every number is read back from its string. -/
theorem readHex_hexText (hexNum : BitVec 32) : readHex (hexText hexNum) = some hexNum.toNat := by
  have hdigit : ∀ d < 16, hexDigit (asciiNumbers d) = some d := fun d hd => hexDigit_asciiNumbers hd
  have htake : (hexText hexNum).take 2 = chars "0x" := by
    rw [hexText, List.append_assoc]
    rfl
  have hdrop : (hexText hexNum).drop 2 =
      (if hexNum < 0x10 then [asciiZero] else []) ++ numeral 16 asciiNumbers hexNum.toNat := by
    rw [hexText, List.append_assoc]
    rfl
  rw [readHex, if_pos htake, hdrop]
  split_ifs
  · show value 16 hexDigit (asciiZero :: numeral 16 asciiNumbers hexNum.toNat) = _
    rw [value_cons_zero (by decide), value_numeral (by decide) hdigit]
  · exact read_numeral (by decide) hdigit

/-! ### What is written -/

/-- The characters in the order in which they are written: a zero, digits, a pad, and `0x`. -/
def hexZero (hexNum : BitVec 32) : List (BitVec 8) := if hexNum = 0 then [asciiZero] else []
def hexUnpadded (hexNum : BitVec 32) : List (BitVec 8) :=
  hexZero hexNum ++ (Nat.digits 16 hexNum.toNat).map asciiNumbers
def hexPadded (hexNum : BitVec 32) : List (BitVec 8) :=
  hexUnpadded hexNum ++ if hexNum < 0x10 then [asciiZero] else []
def hexWritten (hexNum : BitVec 32) : List (BitVec 8) := hexPadded hexNum ++ [asciiX] ++ [asciiZero]

theorem length_digits_hexNum (hexNum : BitVec 32) : (Nat.digits 16 hexNum.toNat).length ≤ 8 := by
  refine (Nat.digits_length_le_iff (by decide) _).mpr ?_
  have hlt := hexNum.isLt
  omega

theorem length_hexUnpadded (hexNum : BitVec 32) : (hexUnpadded hexNum).length ≤ 9 := by
  have hdigits := length_digits_hexNum hexNum
  have hzero : (hexZero hexNum).length ≤ 1 := length_ite_singleton_le
  rw [hexUnpadded, List.length_append, List.length_map]
  omega

theorem length_hexPadded (hexNum : BitVec 32) : (hexPadded hexNum).length ≤ 10 := by
  have hunpadded := length_hexUnpadded hexNum
  have hpad : (if hexNum < 0x10 then [asciiZero] else []).length ≤ 1 := length_ite_singleton_le
  rw [hexPadded, List.length_append]
  omega

/-- The string is that of the numeral, and it is written backwards. -/
theorem hexWritten_reverse (hexNum : BitVec 32) : (hexWritten hexNum).reverse = hexText hexNum := by
  have hnumeral : (hexUnpadded hexNum).reverse = numeral 16 asciiNumbers hexNum.toNat := by
    unfold hexUnpadded hexZero numeral
    by_cases hzero : hexNum = 0
    · have hnat : hexNum.toNat = 0 := congrArg BitVec.toNat hzero
      rw [if_pos hzero, hnat, if_pos rfl, Nat.digits_zero]
      rfl
    · have hnat : hexNum.toNat ≠ 0 := fun h => hzero (BitVec.toNat_inj.mp h)
      rw [if_neg hzero, if_neg hnat, List.nil_append]
  rw [hexWritten, hexPadded, hexText, ← hnumeral, List.reverse_append, List.reverse_append,
    List.reverse_append]
  split_ifs
  · rfl
  · rfl

/-- `strncpy` copies up to the `NUL`, and no more than it should. -/
theorem does_strncpy (src before : Bytes) {k n : ℕ} (hk : k + n ≤ stringSize) :
    Does StringStep.InRange (strncpy src (BitVec.ofNat 8 (k + n)) (BitVec.ofNat 8 k)) before ()
      (Block.put before ⟨k, cString ((List.range' k n).map src)⟩) := by
  have hsize : stringSize = 80 := rfl
  induction n generalizing k before with
  | zero =>
    have hge : ¬ BitVec.ofNat 8 k < BitVec.ofNat 8 (k + 0) := BitVec.lt_irrefl _
    rw [strncpy, dif_neg fun h => hge h.2]
    show Does _ _ _ _ (Block.put before ⟨k, []⟩)
    rw [put_nil]
    exact .pure ()
  | succ n ih =>
    have hindex : (BitVec.ofNat 8 k).toNat = k := toNat_index (by omega)
    have hlt : BitVec.ofNat 8 k < BitVec.ofNat 8 (k + (n + 1)) := by
      rw [BitVec.lt_def, hindex, toNat_index (by omega)]
      omega
    have hcells : cString ((List.range' k (n + 1)).map src) =
        if src k ≠ 0 then src k :: cString ((List.range' (k + 1) n).map src) else [] := by
      rw [List.range'_succ, List.map_cons, cString, List.takeWhile_cons]
      simp only [decide_eq_true_eq]
      rfl
    rw [strncpy, hindex, hcells]
    by_cases hnul : src k = 0
    · rw [dif_neg fun h => h.1 hnul, if_neg (not_not.mpr hnul), put_nil]
      exact .pure ()
    · have hsucc : BitVec.ofNat 8 k + 1 = BitVec.ofNat 8 (k + 1) := (BitVec.ofNat_add k 1).symm
      rw [dif_pos ⟨hnul, hlt⟩, if_pos hnul, hsucc, ← put_update]
      have hrest := ih (Function.update before k (src k)) (k := k + 1) (by omega)
      rw [Nat.add_right_comm] at hrest
      refine (does_storeIndex _ _ (by omega)).bind ((does_note ?_).bind hrest)
      unfold StringStep.InRange
      omega

theorem does_hexStart (hexNum : BitVec 32) :
    Does StringStep.InRange (hexStart hexNum) before (BitVec.ofNat 8 (hexZero hexNum).length)
      (Block.put before ⟨0, hexZero hexNum⟩) := by
  unfold hexStart hexZero
  split_ifs
  · have hcells : cString ((List.range' 0 2).map (literal "0\x00")) = [asciiZero] := by decide
    have hcopy := does_strncpy (literal "0\x00") before (k := 0) (n := 2) (by decide)
    rw [hcells] at hcopy
    exact hcopy.bind (.pure _)
  · rw [put_nil]
    exact .pure _

theorem hexDigits_zero {w : BitVec 32} (i : BitVec 8) (h : w.toNat = 0) :
    hexDigits w i = Pure.pure i := by
  rw [hexDigits, if_neg (by rw [BitVec.lt_def, h]; exact Nat.lt_irrefl 0)]

/-- A round of the loop. -/
theorem hexDigits_step (w : BitVec 32) (h : 0 < w.toNat) :
    ∃ w' : BitVec 32, w'.toNat = w.toNat / 16 ∧ ∀ {k before a after}, k < stringSize →
      Does StringStep.InRange (hexDigits w' (BitVec.ofNat 8 (k + 1)))
        (Function.update before k (asciiNumbers (w.toNat % 16))) a after →
      Does StringStep.InRange (hexDigits w (BitVec.ofNat 8 k)) before a after := by
  have hsize : stringSize = 80 := rfl
  have hshift : (w >>> 4).toNat = w.toNat / 16 := by
    rw [BitVec.toNat_ushiftRight, Nat.shiftRight_eq_div_pow]
  have hnibble : (w.setWidth 8 &&& 0x0F).toNat = w.toNat % 16 := by
    rw [BitVec.toNat_and, BitVec.toNat_setWidth]
    show w.toNat % 2 ^ 8 &&& 2 ^ 4 - 1 = _
    rw [Nat.and_two_pow_sub_one_eq_mod]
    omega
  refine ⟨w >>> 4, hshift, fun {k before a after} hk hrest => ?_⟩
  have hpos : (0 : BitVec 32) < w := BitVec.lt_def.mpr h
  rw [hexDigits, if_pos hpos]
  dsimp only
  rw [hnibble]
  exact (does_storeIndex _ _ hk).bind ((does_succ (by omega)).bind hrest)

theorem does_hexDigits (hexNum : BitVec 32) :
    Does StringStep.InRange (hexDigits hexNum (BitVec.ofNat 8 (hexZero hexNum).length))
      (Block.put before ⟨0, hexZero hexNum⟩) (BitVec.ofNat 8 (hexUnpadded hexNum).length)
      (Block.put before ⟨0, hexUnpadded hexNum⟩) := by
  have hsize : stringSize = 80 := rfl
  have hlen := length_hexUnpadded hexNum
  rw [hexUnpadded, List.length_append, List.length_map] at hlen ⊢
  rw [← put_append, Nat.zero_add]
  exact does_digits BitVec.toNat _ (by decide) (fun w i => hexDigits_zero i) hexDigits_step
    (by omega)

/-- **What `hex2str` does**: all of it is in range. -/
theorem does_hex2str (hexNum : BitVec 32) (before : Bytes) :
    Does StringStep.InRange (hex2str hexNum) before ()
      (Block.put before ⟨0, hexText hexNum ++ [0]⟩) := by
  have hsize : stringSize = 80 := rfl
  have hunpadded := length_hexUnpadded hexNum
  have hpadded := length_hexPadded hexNum
  have hpad := does_storeNextIf before (hexUnpadded hexNum) (hexNum < 0x10)
    asciiZero (by omega)
  have hx := does_storeNext before (hexPadded hexNum) asciiX (by omega)
  have hzero := does_storeNext before (hexPadded hexNum ++ [asciiX]) asciiZero
    (by rw [List.length_append, List.length_singleton]; omega)
  have hne : hexWritten hexNum ≠ [] :=
    List.append_ne_nil_of_right_ne_nil _ (List.cons_ne_nil _ _)
  have hfinish := does_finish before hne
    (by
      rw [hexWritten, List.length_append, List.length_append, List.length_singleton,
        List.length_singleton]
      omega)
  rw [hexWritten_reverse] at hfinish
  exact (does_hexStart hexNum).bind ((does_hexDigits hexNum).bind (hpad.bind (hx.bind
    (hzero.bind hfinish))))

/-! ### The string -/

theorem ne_zero_of_mem_hexText {c : BitVec 8} (h : c ∈ hexText hexNum) : c ≠ 0 := by
  unfold hexText at h
  rw [List.mem_append, List.mem_append] at h
  rcases h with (hx | hpad) | hdigit
  · have hchars : ∀ c ∈ chars "0x", c ≠ 0 := by decide
    exact hchars c hx
  · exact ne_zero_of_mem_ite (by decide) hpad
  · obtain ⟨d, hd, rfl⟩ := exists_of_mem_numeral (by decide) hdigit
    exact asciiNumbers_ne hd

theorem length_hexText (hexNum : BitVec 32) : (hexText hexNum).length < stringSize := by
  have hsize : stringSize = 80 := rfl
  have hpadded := length_hexPadded hexNum
  rw [← hexWritten_reverse, List.length_reverse, hexWritten, List.length_append, List.length_append,
    List.length_singleton, List.length_singleton]
  omega

/-- The static buffer after a call that finds it with the content `before`. -/
def hex2strFrom (hexNum : BitVec 32) (before : Bytes) : StaticString :=
  ((hex2str hexNum).run ⟨before, []⟩).2

/-- The string does not depend on what was in the buffer. -/
theorem text_hex2strFrom (hexNum : BitVec 32) (before : Bytes) :
    (hex2strFrom hexNum before).text = hexText hexNum := by
  obtain ⟨more, hrun, -⟩ := does_hex2str hexNum before []
  rw [hex2strFrom, hrun]
  exact text_put (length_hexText hexNum) (fun c hc => ne_zero_of_mem_hexText hc) before _

/-- Numbers with the same string are the same. -/
theorem hexText_inj {other : BitVec 32} : hexText other = hexText hexNum ↔ other = hexNum := by
  constructor
  · intro h
    have hread := congrArg readHex h
    rw [readHex_hexText, readHex_hexText] at hread
    exact BitVec.toNat_inj.mp (Option.some.inj hread)
  · rintro rfl
    rfl

/-- **`hex2str` is faithful**, whatever was in the buffer: the string is `0x` and the numeral, it
ends in the buffer, it is that of no other number, and all accesses are to the buffer. -/
theorem hex2str_faithful (hexNum : BitVec 32) (before : Bytes) :
    (hex2strFrom hexNum before).text = hexText hexNum ∧
      (hex2strFrom hexNum before).bytes (hexText hexNum).length = 0 ∧
      readHex (hex2strFrom hexNum before).text = some hexNum.toNat ∧
      (∀ other before', (hex2strFrom other before').text = (hex2strFrom hexNum before).text ↔
        other = hexNum) ∧
      ∀ step ∈ (hex2strFrom hexNum before).steps, step.InRange := by
  have htext := text_hex2strFrom hexNum before
  obtain ⟨more, hrun, hmore⟩ := does_hex2str hexNum before []
  refine ⟨htext, ?_, ?_, fun other before' => ?_, ?_⟩
  · rw [hex2strFrom, hrun]
    exact nul_put _ _
  · rw [htext, readHex_hexText]
  · rw [htext, text_hex2strFrom, hexText_inj]
  · rw [hex2strFrom, hrun]
    exact hmore

end KessOS
