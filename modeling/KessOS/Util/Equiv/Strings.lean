import KessOS.Copy.Reverse
import KessOS.Monad.State
import KessOS.Text.Numeral
import KessOS.Util.Strings
import KessOS.Video.Equiv.Console

/-!
# Writing a number into a static buffer

`Does P x before a after` says that `x` returns `a`, takes the buffer from `before` to `after`, and
that `P` holds of all it does.  The loop that writes digits writes those of a number, the least
significant first (`does_digits`), and the loop that swaps the ends reverses them (`does_swapEnds`).
-/

namespace KessOS

open StateM Copy

variable {α β : Type} {P Q : StringStep → Prop} {before after : Bytes}

/-- `x` takes the buffer from `before` to `after` and returns `a`; `P` holds of what it does. -/
def Does (P : StringStep → Prop) (x : StringM α) (before : Bytes) (a : α) (after : Bytes) : Prop :=
  ∀ steps, ∃ more, x.run ⟨before, steps⟩ = (a, ⟨after, steps ++ more⟩) ∧ ∀ step ∈ more, P step

namespace Does

variable {x : StringM α} {a : α}

theorem mono (h : Does P x before a after) (hPQ : ∀ step, P step → Q step) :
    Does Q x before a after := by
  intro steps
  obtain ⟨more, hrun, hmore⟩ := h steps
  exact ⟨more, hrun, fun step hstep => hPQ step (hmore step hstep)⟩

/-- What is in the buffer does not depend on what was done before. -/
theorem run_bytes (h : Does P x before a after) (steps : List StringStep) :
    (x.run ⟨before, steps⟩).2.bytes = after := by
  obtain ⟨more, hrun, -⟩ := h steps
  rw [hrun]

theorem pure (a : α) : Does P (Pure.pure a) before a before :=
  fun steps => ⟨[], by rw [List.append_nil]; rfl, fun _ h => absurd h List.not_mem_nil⟩

theorem bind {f : α → StringM β} {b : β} {between : Bytes} (hx : Does P x before a between)
    (hf : Does P (f a) between b after) : Does P (x >>= f) before b after := by
  intro steps
  obtain ⟨more, hrun, hmore⟩ := hx steps
  obtain ⟨more', hrun', hmore'⟩ := hf (steps ++ more)
  refine ⟨more ++ more', ?_, List.forall_mem_append.mpr ⟨hmore, hmore'⟩⟩
  rw [run_bind_of_eq hrun, hrun', List.append_assoc]

end Does

theorem does_note {step : StringStep} (h : P step) : Does P (note step) before () before :=
  fun _ => ⟨[step], rfl, List.forall_mem_singleton.mpr h⟩

theorem does_int {exact : ℤ} (h : P (.int exact)) :
    Does P (int exact) before (BitVec.ofInt 32 exact) before :=
  (does_note h).bind (.pure _)

theorem does_uint8 {exact : ℤ} (h : P (.byte exact)) :
    Does P (uint8 exact) before (BitVec.ofInt 8 exact) before :=
  (does_note h).bind (.pure _)

theorem does_loadAt {i : BitVec 8} (h : P (.index i.toNat)) :
    Does P (loadAt i) before (before i.toNat) before :=
  fun _ => ⟨[.index i.toNat], rfl, List.forall_mem_singleton.mpr h⟩

theorem does_storeAt {i : BitVec 8} (c : BitVec 8) (h : P (.index i.toNat)) :
    Does P (storeAt i c) before () (Function.update before i.toNat c) :=
  fun _ => ⟨[.index i.toNat], rfl, List.forall_mem_singleton.mpr h⟩

/-! ### Indices -/

theorem toNat_index {k : ℕ} (hk : k < 256) : (BitVec.ofNat 8 k).toNat = k := by
  rw [BitVec.toNat_ofNat, Nat.mod_eq_of_lt hk]

/-- `i++`. -/
theorem does_succ {k : ℕ} (hk : k < 255) :
    Does StringStep.InRange (uint8 ((BitVec.ofNat 8 k).toNat + 1)) before (BitVec.ofNat 8 (k + 1))
      before := by
  rw [toNat_index (by omega)]
  exact does_uint8 (by unfold StringStep.InRange; omega)

/-- `i--`. -/
theorem does_pred {k : ℕ} (hk : k < 255) :
    Does StringStep.InRange (uint8 ((BitVec.ofNat 8 (k + 1)).toNat - 1)) before (BitVec.ofNat 8 k)
      before := by
  have hpred : ((k + 1 : ℕ) : ℤ) - 1 = (k : ℕ) := by omega
  rw [toNat_index (by omega), hpred]
  exact does_uint8 (by unfold StringStep.InRange; omega)

theorem does_storeIndex (before : Bytes) {k : ℕ} (c : BitVec 8) (hk : k < stringSize) :
    Does StringStep.InRange (storeAt (BitVec.ofNat 8 k) c) before ()
      (Function.update before k c) := by
  have hindex : (BitVec.ofNat 8 k).toNat = k := toNat_index (by unfold stringSize at hk; omega)
  have hstore : Does StringStep.InRange (storeAt (BitVec.ofNat 8 k) c) before ()
      (Function.update before (BitVec.ofNat 8 k).toNat c) :=
    does_storeAt c (by rw [hindex]; exact hk)
  rwa [hindex] at hstore

theorem does_loadIndex {k : ℕ} (hk : k < stringSize) :
    Does StringStep.InRange (loadAt (BitVec.ofNat 8 k)) before (before k) before := by
  have hindex : (BitVec.ofNat 8 k).toNat = k := toNat_index (by unfold stringSize at hk; omega)
  have hload : Does StringStep.InRange (loadAt (BitVec.ofNat 8 k)) before
      (before (BitVec.ofNat 8 k).toNat) before := does_loadAt (by rw [hindex]; exact hk)
  rwa [hindex] at hload

/-! ### The loops -/

/-- Exchanging the ends reverses the string in place. -/
theorem does_swapEnds (before : Bytes) {j i : ℕ} (hj : j < stringSize) (hi : i < stringSize) :
    Does StringStep.InRange (swapEnds (BitVec.ofNat 8 j) (BitVec.ofNat 8 i)) before ()
      (reversed before j i) := by
  have hsize : stringSize = 80 := rfl
  induction hgap : i - j using Nat.strong_induction_on generalizing j i before with
  | _ gap ih =>
  have hji : BitVec.ofNat 8 j < BitVec.ofNat 8 i ↔ j < i := by
    rw [BitVec.lt_def, toNat_index (by omega), toNat_index (by omega)]
  rw [swapEnds]
  split_ifs with hlt
  · have hlt' := hji.mp hlt
    have hsucc : BitVec.ofNat 8 j + 1 = BitVec.ofNat 8 (j + 1) := (BitVec.ofNat_add j 1).symm
    have hpred : BitVec.ofNat 8 i - 1 = BitVec.ofNat 8 (i - 1) := by
      rw [← BitVec.toNat_inj, BitVec.toNat_sub, toNat_index (by omega), toNat_index (by omega)]
      show (2 ^ 8 - 1 + i) % 2 ^ 8 = i - 1
      omega
    rw [hsucc, hpred]
    have hrest := ih (i - 1 - (j + 1)) (by omega) (exchange before j i) (j := j + 1) (i := i - 1)
      (by omega) (by omega) rfl
    rw [reversed_exchange hlt'] at hrest
    refine (does_loadIndex hj).bind ((does_loadIndex hi).bind ((does_storeIndex _ _ hj).bind
      ((does_storeIndex _ _ hi).bind ((does_note ?_).bind ((does_note ?_).bind hrest)))))
    · rw [toNat_index (by omega)]
      unfold StringStep.InRange
      omega
    · rw [toNat_index (by omega)]
      unfold StringStep.InRange
      omega
  · rw [reversed_of_le (Nat.not_lt.mp (mt hji.mpr hlt))]
    exact .pure ()

/-- A loop that takes a number apart in base `b` and writes a symbol for each of its digits. -/
theorem does_digits {W : Type} {loop : W → BitVec 8 → StringM (BitVec 8)} (val : W → ℕ) {b : ℕ}
    {sym : ℕ → BitVec 8} (before : Bytes) (hb : 1 < b)
    (hzero : ∀ w i, val w = 0 → loop w i = Pure.pure i)
    (hstep : ∀ w, 0 < val w → ∃ w', val w' = val w / b ∧ ∀ {k before a after}, k < stringSize →
      Does StringStep.InRange (loop w' (BitVec.ofNat 8 (k + 1)))
        (Function.update before k (sym (val w % b))) a after →
      Does StringStep.InRange (loop w (BitVec.ofNat 8 k)) before a after)
    {w : W} {k : ℕ} (hk : k + (Nat.digits b (val w)).length ≤ stringSize) :
    Does StringStep.InRange (loop w (BitVec.ofNat 8 k)) before
      (BitVec.ofNat 8 (k + (Nat.digits b (val w)).length))
      (Block.put before ⟨k, (Nat.digits b (val w)).map sym⟩) := by
  induction hval : val w using Nat.strong_induction_on generalizing w k before with
  | _ n ih =>
  rw [hval] at hk
  rcases Nat.eq_zero_or_pos n with rfl | hpos
  · rw [hzero w _ hval, Nat.digits_zero, List.map_nil, put_nil]
    exact .pure _
  · obtain ⟨w', hval', hdoes⟩ := hstep w (hval ▸ hpos)
    rw [hval] at hval' hdoes
    rw [Nat.digits_def' hb hpos, List.length_cons] at hk ⊢
    rw [List.map_cons, ← put_update]
    refine hdoes (by omega) ?_
    have hrest := ih (n / b) (Nat.div_lt_self hpos hb) (Function.update before k (sym (n % b)))
      (w := w') (k := k + 1) (by rw [hval']; omega) hval'
    rwa [Nat.add_right_comm] at hrest

/-! ### Appending, and the end -/

section Block

variable (before : Bytes) (cells : List (BitVec 8))

/-- A character is appended. -/
theorem does_storeNext (c : BitVec 8) (hlen : cells.length < stringSize) :
    Does StringStep.InRange (storeNext (BitVec.ofNat 8 cells.length) c)
      (Block.put before ⟨0, cells⟩) (BitVec.ofNat 8 (cells ++ [c]).length)
      (Block.put before ⟨0, cells ++ [c]⟩) := by
  have hsize : stringSize = 80 := rfl
  have hstore := does_storeIndex (Block.put before ⟨0, cells⟩) c hlen
  rw [← put_singleton, ← Nat.zero_add cells.length, put_append, Nat.zero_add] at hstore
  rw [List.length_append]
  exact hstore.bind (does_succ (by omega))

theorem does_storeNextIf (p : Prop) [Decidable p] (c : BitVec 8)
    (hlen : cells.length < stringSize) :
    Does StringStep.InRange (storeNextIf p (BitVec.ofNat 8 cells.length) c)
      (Block.put before ⟨0, cells⟩) (BitVec.ofNat 8 (cells ++ if p then [c] else []).length)
      (Block.put before ⟨0, cells ++ if p then [c] else []⟩) := by
  unfold storeNextIf
  split_ifs
  · exact does_storeNext before cells c hlen
  · rw [List.append_nil]
    exact .pure _

variable {cells}

/-- The string is terminated and reversed. -/
theorem does_finish (hne : cells ≠ []) (hlen : cells.length < stringSize) :
    Does StringStep.InRange (finish (BitVec.ofNat 8 cells.length))
      (Block.put before ⟨0, cells⟩) () (Block.put before ⟨0, cells.reverse ++ [0]⟩) := by
  have hsize : stringSize = 80 := rfl
  have hpos := List.length_pos_iff.mpr hne
  obtain ⟨last, hlast⟩ := Nat.exists_eq_add_of_lt hpos
  rw [Nat.zero_add] at hlast
  have hstore := does_storeIndex (Block.put before ⟨0, cells⟩) 0 hlen
  rw [← put_singleton, ← Nat.zero_add cells.length, put_append, Nat.zero_add] at hstore
  have hswap := does_swapEnds (Block.put before ⟨0, cells ++ [0]⟩) (j := 0) (i := last)
    (by omega) (by omega)
  have hreversed := reversed_put before 0 cells [0]
  rw [hlast, Nat.zero_add, Nat.add_sub_cancel] at hreversed
  rw [hreversed] at hswap
  refine hstore.bind (Does.bind ?_ hswap)
  rw [hlast]
  exact does_pred (by omega)

end Block

/-! ### A character that may be left out -/

section Optional

variable {p : Prop} [Decidable p] {c d : BitVec 8}

theorem length_ite_singleton_le : (if p then [c] else []).length ≤ 1 := by
  split_ifs
  · exact le_rfl
  · exact Nat.zero_le 1

theorem ne_zero_of_mem_ite (hc : c ≠ 0) (h : d ∈ if p then [c] else []) : d ≠ 0 := by
  split_ifs at h
  · rwa [List.mem_singleton.mp h]
  · exact absurd h List.not_mem_nil

end Optional

/-! ### Reading the string -/

theorem cString_append {str : List (BitVec 8)} (hne : ∀ c ∈ str, c ≠ 0) (rest : List (BitVec 8)) :
    cString (str ++ 0 :: rest) = str := by
  unfold cString
  rw [List.takeWhile_append_of_pos fun c hc => by simpa using hne c hc]
  simp

theorem nul_put (str : List (BitVec 8)) (before : Bytes) :
    Block.put before ⟨0, str ++ [0]⟩ str.length = 0 := by
  rw [← put_append, put_singleton, Nat.zero_add, Function.update_self]

/-- A string in the buffer, with its `NUL`, is read back. -/
theorem text_put {str : List (BitVec 8)} (hlen : str.length < stringSize) (hne : ∀ c ∈ str, c ≠ 0)
    (before : Bytes) (steps : List StringStep) :
    StaticString.text ⟨Block.put before ⟨0, str ++ [0]⟩, steps⟩ = str := by
  have hsplit : List.range' 0 stringSize = List.range' 0 str.length ++
      str.length :: List.range' (str.length + 1) (stringSize - (str.length + 1)) := by
    have happend := List.range'_append_1 (s := 0) (m := str.length) (n := stringSize - str.length)
    rw [Nat.zero_add] at happend
    rw [← List.range'_succ,
      show stringSize - (str.length + 1) + 1 = stringSize - str.length by omega, happend,
      Nat.add_sub_cancel' hlen.le]
  have hat : ∀ i (hi : i < (str ++ [0]).length),
      Block.put before ⟨0, str ++ [0]⟩ i = (str ++ [0])[i] := by
    intro i hi
    have hput := Block.put_at before ⟨0, str ++ [0]⟩ hi
    rwa [Nat.zero_add] at hput
  have hchars : (List.range' 0 str.length).map (Block.put before ⟨0, str ++ [0]⟩) = str := by
    apply List.ext_getElem
    · rw [List.length_map, List.length_range']
    · intro i hi hi'
      rw [List.getElem_map, List.getElem_range', Nat.zero_add, Nat.one_mul,
        hat i (by rw [List.length_append]; omega), List.getElem_append_left hi']
  unfold StaticString.text StaticString.textFrom
  dsimp only
  rw [Nat.sub_zero, hsplit, List.map_append, List.map_cons, hchars, nul_put, cString_append hne]

end KessOS
