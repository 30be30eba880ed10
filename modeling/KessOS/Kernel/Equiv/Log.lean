import KessOS.Acpi.Equiv.Since
import KessOS.Kernel.Log
import KessOS.Monad.EState
import KessOS.Util.Equiv.Dec2str
import KessOS.Util.Equiv.Hex2str

/-!
# Correctness of `log`

A format is a sequence of pieces.  `log` prints them one after the other, which is the same as a
single `kwrite` of all that they expand to (`log_prints`).

Every `%d` makes `dec2str` write to its buffer again, and every `%x` `hex2str`.  A string in one of
the buffers is printed as it is when its turn comes, which may not be as it was at the call.
-/

namespace KessOS

open Copy

variable {mem : PhysMem} {color : BitVec 32}

/-! ### Formats -/

/-- A piece of a format: a character, `%s`, `%d` or `%x`. -/
inductive Piece
  | char (c : BitVec 8)
  | string
  | dec
  | hex
deriving DecidableEq, Repr

inductive ArgType
  | string
  | int
deriving DecidableEq, Repr

def Arg.type : Arg → ArgType
  | string _ => .string
  | int _ => .int

/-- The type of the argument that a piece takes, if it takes one. -/
def Piece.takes : Piece → Option ArgType
  | char _ => none
  | string => some .string
  | dec => some .int
  | hex => some .int

/-- The conversion that two characters make. -/
def conversion (c c' : BitVec 8) : Option Piece :=
  if c ≠ percent then none
  else if c' = asciiS then some .string
  else if c' = asciiD then some .dec
  else if c' = asciiX then some .hex
  else none

/-- The pieces of a format: a `%` that makes no conversion is a character. -/
def pieces : List (BitVec 8) → List Piece
  | [] => []
  | [c] => [.char c]
  | c :: c' :: rest =>
    match conversion c c' with
    | some piece => piece :: pieces rest
    | none => .char c :: pieces (c' :: rest)

/-- The arguments are those that the conversions take. -/
def Matches (ps : List Piece) (args : List Arg) : Prop :=
  ps.filterMap Piece.takes = args.map Arg.type

instance (ps : List Piece) (args : List Arg) : Decidable (Matches ps args) :=
  inferInstanceAs (Decidable (_ = _))

/-- What is printed, with `dec` and `hex` in the static buffers at first. -/
def expand (dec hex : Bytes) : List Piece → List Arg → List (BitVec 8)
  | .char c :: ps, args => c :: expand dec hex ps args
  | .string :: ps, .string ptr :: args => ptr.text dec hex ++ expand dec hex ps args
  | .dec :: ps, .int n :: args =>
    let after := dec2strFrom n dec
    after.text ++ expand after.bytes hex ps args
  | .hex :: ps, .int n :: args =>
    let after := hex2strFrom n hex
    after.text ++ expand dec after.bytes ps args
  | _, _ => []

/-! ### Printing -/

/-- What `log` does for a piece. -/
def logPiece (mem : PhysMem) (color : BitVec 32) : Piece → LogM Unit
  | .char c => logChar mem color c
  | .string => logString mem color
  | .dec => logDec mem color
  | .hex => logHex mem color

/-- A round of the second loop. -/
theorem logLoop_cons (c c' : BitVec 8) (rest : List (BitVec 8)) :
    logLoop mem color (c :: c' :: rest) =
      match conversion c c' with
      | some piece => logPiece mem color piece >>= fun _ => logLoop mem color rest
      | none => logChar mem color c >>= fun _ => logLoop mem color (c' :: rest) := by
  rw [logLoop, conversion]
  by_cases hpercent : c = percent
  · rw [if_pos hpercent, if_neg (not_not.mpr hpercent)]
    split_ifs
    · rfl
    · rfl
    · rfl
    · rfl
  · rw [if_neg hpercent, if_pos hpercent]

/-- The second loop goes through the pieces. -/
theorem logLoop_eq (format : List (BitVec 8)) :
    logLoop mem color format = (pieces format).forM (logPiece mem color) := by
  induction format using pieces.induct with
  | case1 => rfl
  | case2 c => rfl
  | case3 c c' rest piece hconversion ih =>
    rw [logLoop_cons, pieces, hconversion]
    show (logPiece mem color piece >>= fun _ => logLoop mem color rest) = _
    rw [ih]
    rfl
  | case4 c c' rest hconversion ih =>
    rw [logLoop_cons, pieces, hconversion]
    show (logChar mem color c >>= fun _ => logLoop mem color (c' :: rest)) = _
    rw [ih]
    rfl

namespace Logger

/-- The state after printing a text. -/
def print (mem : PhysMem) (color : BitVec 32) (text : List (BitVec 8)) (s : Logger) : Logger :=
  { s with kernel := s.kernel.typeAll mem (text.map (Prod.mk color)) }

theorem print_nil (s : Logger) : s.print mem color [] = s := by
  simp [print, Kernel.typeAll]

theorem print_print (s : Logger) (text text' : List (BitVec 8)) :
    (s.print mem color text).print mem color text' = s.print mem color (text ++ text') := by
  unfold print
  rw [List.map_append, typeAll_append]

end Logger

variable {s : Logger}

theorem kwrite_logs (str : List (BitVec 8)) (s : Logger) :
    (onKernel (kwrite mem str color)).run s = .ok () (s.print mem color (cString str)) := by
  show EStateM.Result.ok () { s with kernel := s.kernel.after (kwrite mem str color) } = _
  rw [Kernel.after, kwrite_run]
  rfl

theorem logChar_run {c : BitVec 8} (hc : c ≠ 0) (s : Logger) :
    (logChar mem color c).run s = .ok () (s.print mem color [c]) := by
  rw [logChar, kwrite_logs, cString_singleton hc]

theorem logChars_run {str : List (BitVec 8)} (hne : ∀ c ∈ str, c ≠ 0) (s : Logger) :
    (str.forM (logChar mem color)).run s = .ok () (s.print mem color str) := by
  induction str generalizing s with
  | nil =>
    rw [Logger.print_nil]
    rfl
  | cons c str ih =>
    rw [EStateM.run_forM_cons_of_ok (logChar_run (hne c List.mem_cons_self) s),
      ih fun c hc => hne c (List.mem_cons_of_mem _ hc), Logger.print_print]
    rfl

theorem vaString_run {ptr : StringPtr} {args : List Arg} (h : s.args = .string ptr :: args) :
    vaString.run s = .ok ptr { s with args := args } := by
  obtain ⟨kernel, dec, hex, args'⟩ := s
  obtain rfl : args' = .string ptr :: args := h
  rfl

theorem vaInt_run {n : BitVec 32} {args : List Arg} (h : s.args = .int n :: args) :
    vaInt.run s = .ok n { s with args := args } := by
  obtain ⟨kernel, dec, hex, args'⟩ := s
  obtain rfl : args' = .int n :: args := h
  rfl

/-- What is in the buffer after `dec2str` does not depend on what was done before. -/
theorem bytes_dec2str (n : BitVec 32) (before : StaticString) :
    ((dec2str n).run before).2.bytes = (dec2strFrom n before.bytes).bytes := by
  have hdoes : Does (fun _ => True) (dec2str n) before.bytes ()
      (Block.put before.bytes ⟨0, decText n ++ [0]⟩) :=
    does_dec2str (fun _ _ => trivial) _ fun _ => trivial
  exact (hdoes.run_bytes before.steps).trans (hdoes.run_bytes []).symm

theorem bytes_hex2str (n : BitVec 32) (before : StaticString) :
    ((hex2str n).run before).2.bytes = (hex2strFrom n before.bytes).bytes := by
  have hdoes := does_hex2str n before.bytes
  exact (hdoes.run_bytes before.steps).trans (hdoes.run_bytes []).symm

theorem cString_cString (str : List (BitVec 8)) : cString (cString str) = cString str :=
  List.takeWhile_idem

/-- No string has a `NUL` in it. -/
theorem ne_zero_of_mem_text {dec hex : Bytes} {ptr : StringPtr} {c : BitVec 8}
    (h : c ∈ ptr.text dec hex) : c ≠ 0 := by
  cases ptr with
  | constant str => exact ne_zero_of_mem_cString h
  | decString offset => exact ne_zero_of_mem_cString h
  | hexString offset => exact ne_zero_of_mem_cString h

/-- The string in a buffer depends on its bytes only. -/
theorem text_eq_of_bytes {b b' : StaticString} (h : b.bytes = b'.bytes) : b.text = b'.text := by
  unfold StaticString.text StaticString.textFrom
  rw [h]

theorem kwrite_text_logs (b : StaticString) (s : Logger) :
    (onKernel (kwrite mem b.text color)).run s = .ok () (s.print mem color b.text) := by
  rw [kwrite_logs, StaticString.text, StaticString.textFrom, cString_cString]

section Conversions

variable {args : List Arg}

theorem logString_run {ptr : StringPtr} (h : s.args = .string ptr :: args) :
    (logString mem color).run s = .ok () (({ s with args := args } : Logger).print mem color
      (ptr.text s.decString.bytes s.hexString.bytes)) := by
  rw [logString, EStateM.run_bind_of_ok (vaString_run h)]
  exact logChars_run (fun c hc => ne_zero_of_mem_text hc) { s with args := args }

theorem logDec_run {n : BitVec 32} (h : s.args = .int n :: args) :
    let after := ((dec2str n).run s.decString).2
    (logDec mem color).run s = .ok ()
      (({ s with args := args, decString := after } : Logger).print mem color after.text) := by
  rw [logDec, EStateM.run_bind_of_ok (vaInt_run h)]
  -- The rest does not depend on what was done to the buffer.
  generalize dec2str n = x
  exact kwrite_text_logs _ _

theorem logHex_run {n : BitVec 32} (h : s.args = .int n :: args) :
    let after := ((hex2str n).run s.hexString).2
    (logHex mem color).run s = .ok ()
      (({ s with args := args, hexString := after } : Logger).print mem color after.text) := by
  rw [logHex, EStateM.run_bind_of_ok (vaInt_run h)]
  generalize hex2str n = x
  exact kwrite_text_logs _ _

end Conversions

/-! ### Pieces -/

/-- What is printed of some pieces, as things are. -/
def Logger.expansion (s : Logger) (ps : List Piece) : List (BitVec 8) :=
  expand s.decString.bytes s.hexString.bytes ps s.args

theorem Matches.cons_string {ps : List Piece} {args : List Arg}
    (h : Matches (.string :: ps) args) :
    ∃ ptr rest, args = .string ptr :: rest ∧ Matches ps rest := by
  cases args with
  | nil => cases h
  | cons arg rest =>
    cases arg with
    | string ptr => exact ⟨ptr, rest, rfl, (List.cons.inj h).2⟩
    | int n => cases h

theorem Matches.cons_int {piece : Piece} (hpiece : piece.takes = some .int) {ps : List Piece}
    {args : List Arg} (h : Matches (piece :: ps) args) :
    ∃ n rest, args = .int n :: rest ∧ Matches ps rest := by
  unfold Matches at h
  rw [List.filterMap_cons_some hpiece] at h
  cases args with
  | nil => cases h
  | cons arg rest =>
    cases arg with
    | string ptr => cases h
    | int n => exact ⟨n, rest, rfl, (List.cons.inj h).2⟩

/-- **Printing a piece**: it takes the argument that it needs, and what is left is as expected. -/
theorem logPiece_run (mem : PhysMem) (color : BitVec 32) {piece : Piece} {ps : List Piece}
    (hchar : ∀ c, piece = .char c → c ≠ 0) (h : Matches (piece :: ps) s.args) :
    ∃ text s', (logPiece mem color piece).run s = .ok () s' ∧
      s'.kernel = (s.print mem color text).kernel ∧ Matches ps s'.args ∧
      s.expansion (piece :: ps) = text ++ s'.expansion ps := by
  cases piece with
  | char c => exact ⟨[c], _, logChar_run (hchar c rfl) s, rfl, h, rfl⟩
  | string =>
    obtain ⟨ptr, rest, hargs, hrest⟩ := h.cons_string
    refine ⟨_, _, logString_run hargs, rfl, hrest, ?_⟩
    rw [Logger.expansion, hargs]
    rfl
  | dec =>
    obtain ⟨n, rest, hargs, hrest⟩ := h.cons_int rfl
    have hbytes := bytes_dec2str n s.decString
    refine ⟨_, _, logDec_run hargs, rfl, hrest, ?_⟩
    rw [Logger.expansion, hargs, text_eq_of_bytes hbytes]
    show _ ++ expand (dec2strFrom n s.decString.bytes).bytes s.hexString.bytes ps rest =
      _ ++ expand ((dec2str n).run s.decString).2.bytes s.hexString.bytes ps rest
    rw [hbytes]
  | hex =>
    obtain ⟨n, rest, hargs, hrest⟩ := h.cons_int rfl
    have hbytes := bytes_hex2str n s.hexString
    refine ⟨_, _, logHex_run hargs, rfl, hrest, ?_⟩
    rw [Logger.expansion, hargs, text_eq_of_bytes hbytes]
    show _ ++ expand s.decString.bytes (hex2strFrom n s.hexString.bytes).bytes ps rest =
      _ ++ expand s.decString.bytes ((hex2str n).run s.hexString).2.bytes ps rest
    rw [hbytes]

/-- **Printing some pieces.** -/
theorem logPieces_run (mem : PhysMem) (color : BitVec 32) {ps : List Piece}
    (hchars : ∀ c, .char c ∈ ps → c ≠ 0) (h : Matches ps s.args) :
    ∃ s', (ps.forM (logPiece mem color)).run s = .ok () s' ∧
      s'.kernel = (s.print mem color (s.expansion ps)).kernel ∧ s'.args = [] := by
  induction ps generalizing s with
  | nil =>
    have hargs : s.args = [] := List.map_eq_nil_iff.mp h.symm
    refine ⟨s, rfl, ?_, hargs⟩
    show _ = (s.print mem color []).kernel
    rw [Logger.print_nil]
  | cons piece ps ih =>
    obtain ⟨text, s₁, hrun, hkernel, hmatches, hexpansion⟩ := logPiece_run mem color
      (fun c hc => hchars c (hc ▸ List.mem_cons_self)) h
    obtain ⟨s', hrun', hkernel', hargs⟩ := ih (fun c hc => hchars c (List.mem_cons_of_mem _ hc))
      hmatches
    refine ⟨s', ?_, ?_, hargs⟩
    · rw [EStateM.run_forM_cons_of_ok hrun, hrun']
    · rw [hkernel', hexpansion, ← Logger.print_print]
      unfold Logger.print at hkernel ⊢
      rw [hkernel]

/-- The characters that are printed as they are come from the format. -/
theorem mem_of_char_mem_pieces {format : List (BitVec 8)} {c : BitVec 8}
    (h : .char c ∈ pieces format) : c ∈ format := by
  induction format using pieces.induct with
  | case1 => exact absurd h List.not_mem_nil
  | case2 d =>
    obtain rfl := Piece.char.inj (List.mem_singleton.mp h)
    exact List.mem_cons_self
  | case3 d d' rest piece hconversion ih =>
    rw [pieces, hconversion] at h
    have hpiece : piece ≠ .char c := by
      rintro rfl
      unfold conversion at hconversion
      split_ifs at hconversion
      all_goals cases hconversion
    rcases List.mem_cons.mp h with heq | hmem
    · exact absurd heq.symm hpiece
    · exact List.mem_cons_of_mem _ (List.mem_cons_of_mem _ (ih hmem))
  | case4 d d' rest hconversion ih =>
    rw [pieces, hconversion] at h
    rcases List.mem_cons.mp h with heq | hmem
    · obtain rfl := Piece.char.inj heq
      exact List.mem_cons_self
    · exact List.mem_cons_of_mem _ (ih hmem)

theorem ne_zero_of_mem_expand {dec hex : Bytes} {ps : List Piece} {args : List Arg}
    (hchars : ∀ c, .char c ∈ ps → c ≠ 0) {c : BitVec 8} (h : c ∈ expand dec hex ps args) :
    c ≠ 0 := by
  induction ps generalizing dec hex args with
  | nil => exact absurd h List.not_mem_nil
  | cons piece ps ih =>
    have hrest : ∀ c, .char c ∈ ps → c ≠ 0 := fun c hc => hchars c (List.mem_cons_of_mem _ hc)
    cases piece with
    | char d =>
      rcases List.mem_cons.mp h with rfl | hmem
      · exact hchars c List.mem_cons_self
      · exact ih hrest hmem
    | string =>
      rcases args with _ | ⟨ptr | n, args⟩
      · exact absurd h List.not_mem_nil
      · rcases List.mem_append.mp h with htext | hmem
        · exact ne_zero_of_mem_text htext
        · exact ih hrest hmem
      · exact absurd h List.not_mem_nil
    | dec =>
      rcases args with _ | ⟨ptr | n, args⟩
      · exact absurd h List.not_mem_nil
      · exact absurd h List.not_mem_nil
      · rcases List.mem_append.mp h with htext | hmem
        · exact ne_zero_of_mem_cString htext
        · exact ih hrest hmem
    | hex =>
      rcases args with _ | ⟨ptr | n, args⟩
      · exact absurd h List.not_mem_nil
      · exact absurd h List.not_mem_nil
      · rcases List.mem_append.mp h with htext | hmem
        · exact ne_zero_of_mem_cString htext
        · exact ih hrest hmem

/-! ### `log` -/

theorem cString_label (status : Status) : cString status.label = status.label := by
  cases status
  all_goals decide

theorem logLabel_run (status : Status) (s : Logger) :
    (logLabel mem status).run s = .ok () (s.print mem status.color status.label) := by
  unfold logLabel
  by_cases hother : status = .other
  · rw [if_pos hother, hother, Status.label, Logger.print_nil]
    rfl
  · rw [if_neg hother, kwrite_logs, cString_label]

/-- What `log` prints behind its label. -/
def Logger.printed (s : Logger) (format : List (BitVec 8)) : List (BitVec 8) :=
  s.expansion (pieces (cString format))

theorem cString_label_append (s : Logger) (status : Status) (format : List (BitVec 8)) :
    cString (status.label ++ s.printed format) = status.label ++ s.printed format := by
  refine List.takeWhile_eq_self_iff.mpr fun c hc => ?_
  have hne : c ≠ 0 := by
    rcases List.mem_append.mp hc with hmem | hmem
    · exact ne_zero_of_mem_cString (cString_label status ▸ hmem)
    · exact ne_zero_of_mem_expand
        (fun d hd => ne_zero_of_mem_cString (mem_of_char_mem_pieces hd)) hmem
  simpa using hne

/-- **What `log` does**: a single `kwrite`. -/
theorem log_run_kernel (mem : PhysMem) (status : Status) {format : List (BitVec 8)}
    (h : Matches (pieces (cString format)) s.args) :
    ∃ s', (log mem format status).run s = .ok () s' ∧
      s'.kernel = s.kernel.after (kwrite mem (status.label ++ s.printed format) status.color) ∧
      s'.args = [] := by
  obtain ⟨s', hrun, hkernel, hargs⟩ := logPieces_run mem status.color
    (s := s.print mem status.color status.label)
    (fun c hc => ne_zero_of_mem_cString (mem_of_char_mem_pieces hc)) h
  refine ⟨s', ?_, ?_, hargs⟩
  · show (logLabel mem status >>= fun _ => logLoop mem status.color (cString format)).run s = _
    rw [EStateM.run_bind_of_ok (logLabel_run status s), logLoop_eq, hrun]
  · rw [hkernel, Logger.print_print, Kernel.after, kwrite_run, cString_label_append]
    rfl

theorem pieces_of_notMem {format : List (BitVec 8)} (h : percent ∉ format) :
    pieces format = format.map .char := by
  induction format using pieces.induct with
  | case1 => rfl
  | case2 c => rfl
  | case3 c c' rest piece hconversion ih =>
    have hne : c ≠ percent := fun heq => h (heq ▸ List.mem_cons_self)
    rw [conversion, if_pos hne] at hconversion
    cases hconversion
  | case4 c c' rest hconversion ih =>
    rw [pieces, hconversion, List.map_cons]
    exact congrArg _ (ih fun hmem => h (List.mem_cons_of_mem _ hmem))

theorem expand_char (dec hex : Bytes) (str : List (BitVec 8)) (args : List Arg) :
    expand dec hex (str.map .char) args = str := by
  induction str with
  | nil => cases args <;> rfl
  | cons c str ih => exact congrArg (c :: ·) ih

/-- Without a `%` it does what `logText` does. -/
theorem log_eq_logText {format : String} (h : percent ∉ cString (chars format)) (status : Status)
    (hargs : s.args = []) :
    ∃ s', (log mem (chars format) status).run s = .ok () s' ∧
      s'.kernel = s.kernel.after (logText mem format status) := by
  have hpieces := pieces_of_notMem h
  have hmatches : Matches (pieces (cString (chars format))) s.args := by
    rw [Matches, hpieces, hargs, List.map_nil, List.filterMap_map]
    exact List.filterMap_eq_nil_iff.mpr fun _ _ => rfl
  obtain ⟨s', hrun, hkernel, -⟩ := log_run_kernel mem status hmatches
  have hprinted : s.printed (chars format) = cString (chars format) := by
    rw [Logger.printed, Logger.expansion, hpieces, expand_char]
  refine ⟨s', hrun, ?_⟩
  rw [hkernel, Kernel.after, Kernel.after, log_run, kwrite_run, cString_label_append, hprinted,
    Kernel.log, logged, cString_label]

/-! ### Strings in the buffers -/

/-- The argument, with the string to which it points now. -/
def Arg.now (dec hex : Bytes) : Arg → Arg
  | string ptr => string (.constant (ptr.text dec hex))
  | int n => int n

/-- What `log` prints behind its label if every string is taken as it is at the call. -/
def Logger.printedAtCall (s : Logger) (format : List (BitVec 8)) : List (BitVec 8) :=
  expand s.decString.bytes s.hexString.bytes (pieces (cString format))
    (s.args.map (Arg.now s.decString.bytes s.hexString.bytes))

/-- A conversion that writes to the buffer in which an argument lies. -/
def Piece.overwrites : Piece → Arg → Bool
  | dec, .string (.decString _) => true
  | hex, .string (.hexString _) => true
  | _, _ => false

/-- The conversions, each with its argument. -/
def conversions (ps : List Piece) (args : List Arg) : List (Piece × Arg) :=
  (ps.filter fun piece => piece.takes.isSome).zip args

/-- No conversion writes to the buffer of a string that is printed later. -/
def Undisturbed (ps : List Piece) (args : List Arg) : Prop :=
  (conversions ps args).Pairwise fun earlier later => ¬ earlier.1.overwrites later.2

instance (ps : List Piece) (args : List Arg) : Decidable (Undisturbed ps args) :=
  inferInstanceAs (Decidable (List.Pairwise _ _))

/-- Every argument has a conversion. -/
theorem conversions_snd {ps : List Piece} {args : List Arg} (h : Matches ps args) :
    (conversions ps args).map Prod.snd = args := by
  have hlen := congrArg List.length h
  have hfilter : (ps.filter fun piece => piece.takes.isSome).length =
      (ps.filterMap Piece.takes).length := by
    rw [List.length_filterMap_eq_countP, List.countP_eq_length_filter]
  rw [List.length_map] at hlen
  exact List.map_snd_zip (hlen ▸ hfilter.ge)

theorem Undisturbed.cons {piece : Piece} {ps : List Piece} {arg : Arg} {args : List Arg}
    (hpiece : piece.takes.isSome) (h : Matches ps args)
    (hkept : Undisturbed (piece :: ps) (arg :: args)) :
    (∀ later ∈ args, ¬ piece.overwrites later) ∧ Undisturbed ps args := by
  have hconversions : conversions (piece :: ps) (arg :: args) =
      (piece, arg) :: conversions ps args := by
    unfold conversions
    rw [List.filter_cons_of_pos (by exact hpiece)]
    rfl
  rw [Undisturbed, hconversions, List.pairwise_cons] at hkept
  refine ⟨fun later hlater => ?_, hkept.2⟩
  rw [← conversions_snd h] at hlater
  obtain ⟨pair, hpair, rfl⟩ := List.mem_map.mp hlater
  exact hkept.1 pair hpair

theorem text_of_not_dec {ptr : StringPtr} (h : ¬ Piece.dec.overwrites (.string ptr))
    (dec dec' hex : Bytes) : ptr.text dec hex = ptr.text dec' hex := by
  cases ptr with
  | constant str => rfl
  | decString offset => exact absurd rfl h
  | hexString offset => rfl

theorem text_of_not_hex {ptr : StringPtr} (h : ¬ Piece.hex.overwrites (.string ptr))
    (dec hex hex' : Bytes) : ptr.text dec hex = ptr.text dec hex' := by
  cases ptr with
  | constant str => rfl
  | decString offset => rfl
  | hexString offset => exact absurd rfl h

/-- Strings that are not written to on the way are printed as they are at the call. -/
theorem expand_eq_now (dec' hex' : Bytes) {ps : List Piece} {args : List Arg}
    {dec hex dec₀ hex₀ : Bytes} (h : Matches ps args) (hkept : Undisturbed ps args)
    (hsame : ∀ ptr, .string ptr ∈ args → ptr.text dec hex = ptr.text dec₀ hex₀) :
    expand dec hex ps args = expand dec' hex' ps (args.map (Arg.now dec₀ hex₀)) := by
  induction ps generalizing args dec hex dec' hex' with
  | nil => cases args <;> rfl
  | cons piece ps ih =>
    cases piece with
    | char c =>
      have hrest := ih dec' hex' h hkept hsame
      exact congrArg (c :: ·) hrest
    | string =>
      obtain ⟨ptr, rest, rfl, hrest⟩ := h.cons_string
      obtain ⟨-, hkept'⟩ := Undisturbed.cons rfl hrest hkept
      have htext : ptr.text dec hex = cString (ptr.text dec₀ hex₀) := by
        rw [hsame ptr List.mem_cons_self]
        cases ptr <;> exact (cString_cString _).symm
      show ptr.text dec hex ++ _ = cString (ptr.text dec₀ hex₀) ++ _
      rw [htext]
      exact congrArg _ (ih _ _ hrest hkept' fun ptr' hptr' =>
        hsame ptr' (List.mem_cons_of_mem _ hptr'))
    | dec =>
      obtain ⟨n, rest, rfl, hrest⟩ := h.cons_int rfl
      obtain ⟨hother, hkept'⟩ := Undisturbed.cons rfl hrest hkept
      show (dec2strFrom n dec).text ++ _ = (dec2strFrom n dec').text ++ _
      rw [text_dec2strFrom, text_dec2strFrom]
      refine congrArg _ (ih _ _ hrest hkept' fun ptr hptr => ?_)
      rw [text_of_not_dec (hother _ hptr) _ dec, hsame ptr (List.mem_cons_of_mem _ hptr)]
    | hex =>
      obtain ⟨n, rest, rfl, hrest⟩ := h.cons_int rfl
      obtain ⟨hother, hkept'⟩ := Undisturbed.cons rfl hrest hkept
      show (hex2strFrom n hex).text ++ _ = (hex2strFrom n hex').text ++ _
      rw [text_hex2strFrom, text_hex2strFrom]
      refine congrArg _ (ih _ _ hrest hkept' fun ptr hptr => ?_)
      rw [text_of_not_hex (hother _ hptr) _ _ hex, hsame ptr (List.mem_cons_of_mem _ hptr)]

/-! ### The law -/

/-- From `s` to `s'` the canvas and the framebuffer change as by a single `kwrite` of the text, and
every argument is taken. -/
structure PrintsAs (mem : PhysMem) (text : List (BitVec 8)) (color : BitVec 32) (s s' : Logger) :
    Prop where
  canvas : s'.kernel.canvas = (s.kernel.after (kwrite mem text color)).canvas
  pixels : ∀ pixels, s.kernel.canvas.lfb.painted pixels (s.kernel.since s'.kernel) =
    s.kernel.canvas.lfb.painted pixels (s.kernel.since (s.kernel.after (kwrite mem text color)))
  args : s'.args = []

/-- **`log` is a single `kwrite`** of its label and of what the format expands to, with each string
as it is when its turn comes; that is as it is at the call, unless it lies in a buffer that an
earlier conversion writes to. -/
theorem log_prints {format : List (BitVec 8)} {status : Status}
    (h : Matches (pieces (cString format)) s.args) :
    (∃ s', (log mem format status).run s = .ok () s' ∧
      PrintsAs mem (status.label ++ s.printed format) status.color s s') ∧
      (Undisturbed (pieces (cString format)) s.args →
        s.printed format = s.printedAtCall format) := by
  obtain ⟨s', hrun, hkernel, hargs⟩ := log_run_kernel mem status h
  refine ⟨⟨s', hrun, ⟨?_, fun pixels => ?_, hargs⟩⟩, fun hkept => ?_⟩
  · rw [hkernel]
  · rw [hkernel]
  · exact expand_eq_now _ _ h hkept fun _ _ => rfl

/-- The state at a call with -1 for the status and `dec2str(77)` among the arguments. -/
def afterSeventySeven (args : List Arg) : Logger where
  kernel := blankKernel
  decString := dec2strFrom 77 fun _ => 0
  hexString := ⟨fun _ => 0, []⟩
  args := args

/-- The value of `dec2str(77)`. -/
def seventySeven : Arg := .string (.decString ⟨0, by decide⟩)

/-- `log("%s%d", -1, dec2str(77), 5)`. -/
theorem log_prints_stringFirst :
    let s := afterSeventySeven [seventySeven, .int 5]
    (∃ s', (log (fun _ _ => 0) (chars "%s%d") .other).run s = .ok () s' ∧
      PrintsAs (fun _ _ => 0) (Status.other.label ++ s.printed (chars "%s%d")) Status.other.color
        s s') ∧
      s.printed (chars "%s%d") = s.printedAtCall (chars "%s%d") :=
  have hlaw := log_prints (s := afterSeventySeven [seventySeven, .int 5]) (by decide)
  ⟨hlaw.1, hlaw.2 (by decide)⟩

/-- The strings of 5 and of 77. -/
theorem decText_five : decText 5 = [0x35] := by
  have hmagnitude : magnitude 5 = 5 := by decide
  rw [decText, decWritten, decUnsigned, hmagnitude, Nat.digits_of_lt 10 5 (by decide) (by decide)]
  decide

theorem decText_seventySeven : decText 77 = [0x37, 0x37] := by
  have hmagnitude : magnitude 77 = 77 := by decide
  rw [decText, decWritten, decUnsigned, hmagnitude, Nat.digits_def' (by decide) (by decide),
    Nat.digits_of_lt 10 7 (by decide) (by decide)]
  decide

/-- `log("%d%s", -1, 5, dec2str(77))` prints `55`. -/
theorem not_log_prints_atCall :
    let s := afterSeventySeven [.int 5, seventySeven]
    Matches (pieces (cString (chars "%d%s"))) s.args ∧
      ¬ ∃ s', (log (fun _ _ => 0) (chars "%d%s") .other).run s = .ok () s' ∧
        PrintsAs (fun _ _ => 0) (Status.other.label ++ s.printedAtCall (chars "%d%s"))
          Status.other.color s s' := by
  intro s
  have hmatches : Matches (pieces (cString (chars "%d%s"))) s.args := by decide
  have hfive : ∀ before, (dec2strFrom 5 before).text = [0x35] := fun before => by
    rw [text_dec2strFrom, decText_five]
  have hseventySeven : s.decString.text = [0x37, 0x37] := by
    rw [← decText_seventySeven]
    exact text_dec2strFrom 77 _
  have hprinted : s.printed (chars "%d%s") = [0x35, 0x35] := by
    show (dec2strFrom 5 s.decString.bytes).text ++
      ((dec2strFrom 5 s.decString.bytes).text ++ []) = _
    rw [hfive]
    rfl
  have hatCall : s.printedAtCall (chars "%d%s") = [0x35, 0x37, 0x37] := by
    show (dec2strFrom 5 s.decString.bytes).text ++ (cString s.decString.text ++ []) = _
    rw [hfive, hseventySeven]
    decide
  refine ⟨hmatches, fun ⟨s', hrun, hprints⟩ => ?_⟩
  obtain ⟨s'', hrun', hkernel, -⟩ := log_run_kernel (fun _ _ => 0) .other hmatches
  obtain rfl : s' = s'' := by
    rw [hrun] at hrun'
    cases hrun'
    rfl
  have hcanvas := hprints.canvas
  rw [hkernel, hprinted, hatCall, Kernel.after, kwrite_run, Kernel.after, kwrite_run,
    typeAll_canvas, typeAll_canvas] at hcanvas
  exact absurd (congrArg Canvas.x hcanvas) (by decide)

end KessOS
