import Mathlib.Data.Nat.Digits.Lemmas

/-!
# Numerals

A numeral is written with a symbol for each digit, the most significant first, and read with a
value for each symbol.  What is written is read back (`read_numeral`), and so it is behind zeros
(`value_cons_zero`).
-/

namespace Numeral

variable {α : Type*} {b n : ℕ} {sym : ℕ → α} {dig : α → Option ℕ}

/-- The numeral of `n` to base `b`: no zero comes first, but that of the numeral of zero. -/
def numeral (b : ℕ) (sym : ℕ → α) (n : ℕ) : List α :=
  if n = 0 then [sym 0] else ((Nat.digits b n).map sym).reverse

/-- The value of a row of symbols, if each of them is that of a digit. -/
def value (b : ℕ) (dig : α → Option ℕ) (as : List α) : Option ℕ :=
  as.foldl (fun v a => v.bind fun v => (dig a).map fun d => v * b + d) (some 0)

/-- The number that a numeral stands for. -/
def read (b : ℕ) (dig : α → Option ℕ) (as : List α) : Option ℕ :=
  if as.isEmpty then none else value b dig as

theorem value_append_singleton (as : List α) (a : α) :
    value b dig (as ++ [a]) =
      (value b dig as).bind fun v => (dig a).map fun d => v * b + d := by
  rw [value, List.foldl_append]
  rfl

theorem value_cons_zero {a : α} (ha : dig a = some 0) (as : List α) :
    value b dig (a :: as) = value b dig as := by
  rw [value, List.foldl_cons, ha]
  simp [value]

/-- Symbols of digits, least significant first. -/
theorem value_reverse_map {ds : List ℕ} (h : ∀ d ∈ ds, dig (sym d) = some d) :
    value b dig (ds.map sym).reverse = some (Nat.ofDigits b ds) := by
  induction ds with
  | nil => rfl
  | cons d ds ih =>
    rw [List.map_cons, List.reverse_cons, value_append_singleton,
      ih fun d' hd' => h d' (List.mem_cons_of_mem _ hd'), h d List.mem_cons_self,
      Nat.ofDigits_cons]
    show some (Nat.ofDigits b ds * b + d) = _
    rw [Nat.mul_comm, Nat.add_comm]

theorem numeral_ne_nil (b : ℕ) (sym : ℕ → α) (n : ℕ) : numeral b sym n ≠ [] := by
  unfold numeral
  split_ifs with hn
  · exact List.cons_ne_nil _ _
  · simpa [Nat.digits_eq_nil_iff_eq_zero] using hn

theorem exists_of_mem_numeral (hb : 1 < b) {a : α} (h : a ∈ numeral b sym n) :
    ∃ d < b, sym d = a := by
  unfold numeral at h
  split_ifs at h with hn
  · exact ⟨0, by omega, (List.mem_singleton.mp h).symm⟩
  · obtain ⟨d, hd, hsym⟩ := List.mem_map.mp (List.mem_reverse.mp h)
    exact ⟨d, Nat.digits_lt_base hb hd, hsym⟩

theorem value_numeral (hb : 1 < b) (h : ∀ d < b, dig (sym d) = some d) :
    value b dig (numeral b sym n) = some n := by
  unfold numeral
  split_ifs with hn
  · rw [value, List.foldl_cons, h 0 (by omega), hn]
    simp
  · rw [value_reverse_map fun d hd => h d (Nat.digits_lt_base hb hd), Nat.ofDigits_digits]

/-- **A numeral is read back.** -/
theorem read_numeral (hb : 1 < b) (h : ∀ d < b, dig (sym d) = some d) :
    read b dig (numeral b sym n) = some n := by
  rw [read, if_neg (by simpa using numeral_ne_nil b sym n), value_numeral hb h]

end Numeral
