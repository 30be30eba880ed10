import KessOS.Copy.Blocks

/-!
# Reversing a part of a store in place

Exchanging the two ends of a part of a store, and going on with what lies between them, reverses
the part (`reversed_exchange`).  A block in the store is then a reversed one (`reversed_put`).
-/

namespace Copy

variable {α : Type*} {m : ℕ → α} {lo hi : ℕ}

/-- The store `m` with the cells from `lo` to `hi` in reverse order. -/
def reversed (m : ℕ → α) (lo hi : ℕ) : ℕ → α := fun a =>
  if lo ≤ a ∧ a ≤ hi then m (lo + hi - a) else m a

/-- The store `m` with the cells at `lo` and `hi` exchanged. -/
def exchange (m : ℕ → α) (lo hi : ℕ) : ℕ → α :=
  Function.update (Function.update m lo (m hi)) hi (m lo)

theorem reversed_of_le (h : hi ≤ lo) : reversed m lo hi = m := by
  funext a
  unfold reversed
  split_ifs with ha
  · rw [show lo + hi - a = a by omega]
  · rfl

/-- One step of a reversal in place. -/
theorem reversed_exchange (h : lo < hi) :
    reversed (exchange m lo hi) (lo + 1) (hi - 1) = reversed m lo hi := by
  funext a
  unfold reversed exchange
  by_cases hinside : lo + 1 ≤ a ∧ a ≤ hi - 1
  · rw [if_pos hinside, if_pos (by omega), Function.update_of_ne (by omega),
      Function.update_of_ne (by omega), show lo + 1 + (hi - 1) - a = lo + hi - a by omega]
  · rw [if_neg hinside]
    by_cases hend : lo ≤ a ∧ a ≤ hi
    · rw [if_pos hend]
      -- Only the two ends are left.
      rcases (by omega : a = lo ∨ a = hi) with rfl | rfl
      · rw [Function.update_of_ne (by omega), Function.update_self, Nat.add_sub_cancel_left]
      · rw [Function.update_self, Nat.add_sub_cancel]
    · rw [if_neg hend, Function.update_of_ne (by omega), Function.update_of_ne (by omega)]

/-- A block grows by a cell at its start. -/
theorem put_update (m : ℕ → α) (dst : ℕ) (c : α) (cells : List α) :
    Block.put (Function.update m dst c) ⟨dst + 1, cells⟩ = Block.put m ⟨dst, c :: cells⟩ := by
  funext a
  unfold Block.put
  dsimp only
  rcases Nat.lt_trichotomy a dst with hlt | rfl | hgt
  · rw [if_neg (by omega), if_neg (by omega), Function.update_of_ne (by omega)]
  · rw [if_neg (by omega), if_pos le_rfl, Nat.sub_self, Function.update_self]
    rfl
  · rw [if_pos (by omega), if_pos (by omega), Function.update_of_ne (by omega),
      show a - dst = (a - (dst + 1)) + 1 by omega]
    rfl

@[simp] theorem put_nil (m : ℕ → α) (dst : ℕ) : Block.put m ⟨dst, []⟩ = m := by
  funext a
  unfold Block.put
  split_ifs
  · rfl
  · rfl

@[simp] theorem put_singleton (m : ℕ → α) (dst : ℕ) (c : α) :
    Block.put m ⟨dst, [c]⟩ = Function.update m dst c := by
  rw [← put_update, put_nil]

/-- Blocks side by side are one block. -/
theorem put_append (m : ℕ → α) (dst : ℕ) (cells cells' : List α) :
    Block.put (Block.put m ⟨dst, cells⟩) ⟨dst + cells.length, cells'⟩ =
      Block.put m ⟨dst, cells ++ cells'⟩ := by
  induction cells generalizing m dst with
  | nil => rw [put_nil, List.length_nil, Nat.add_zero, List.nil_append]
  | cons c cells ih =>
    have hlen : dst + (c :: cells).length = dst + 1 + cells.length := by
      rw [List.length_cons]
      omega
    rw [← put_update, hlen, ih, put_update]
    rfl

/-- The first cells of a block, reversed in place. -/
theorem reversed_put (m : ℕ → α) (dst : ℕ) (cells rest : List α) :
    reversed (Block.put m ⟨dst, cells ++ rest⟩) dst (dst + cells.length - 1) =
      Block.put m ⟨dst, cells.reverse ++ rest⟩ := by
  have hlen := cells.length_reverse
  rcases Nat.eq_zero_or_pos cells.length with hnil | hpos
  · obtain rfl := List.eq_nil_of_length_eq_zero hnil
    exact reversed_of_le (Nat.sub_le _ _)
  funext a
  unfold reversed Block.put
  dsimp only
  by_cases hinside : dst ≤ a ∧ a ≤ dst + cells.length - 1
  · have hmirror : dst + (dst + cells.length - 1) - a - dst = cells.length - 1 - (a - dst) := by
      omega
    rw [if_pos hinside, if_pos (by omega), if_pos hinside.1, hmirror,
      List.getD_append _ _ _ _ (by omega), List.getD_append _ _ _ _ (by omega),
      List.getD_eq_getElem _ _ (by omega), List.getD_eq_getElem _ _ (by omega),
      List.getElem_reverse]
  · rw [if_neg hinside]
    split_ifs with ha
    · rw [List.getD_append_right _ _ _ _ (by omega), List.getD_append_right _ _ _ _ (by omega),
        hlen]
    · rfl

end Copy
