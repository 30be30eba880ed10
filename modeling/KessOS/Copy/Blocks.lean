import Mathlib.Data.List.GetD
import Mathlib.Data.List.Pairwise
import Mathlib.Order.Interval.Set.Basic
import Mathlib.Data.Set.Lattice
import Mathlib.Order.CompletePartialOrder

/-!
# Copying blocks into a store

A `Block` is a list of cells with the address they go to.  Copying blocks one after the other
into a store puts every block in place when their ranges are disjoint (`copy_at`), and changes
no cell outside of them (`copy_of_notMem`).  Single cells may be written more than once, and are
what was written if it was the same every time (`writes_of_mem`).
-/

namespace Copy

variable {α : Type*}

/-- The cells `cells`, to be copied to the addresses from `dst` on. -/
structure Block (α : Type*) where
  dst : ℕ
  cells : List α

def Block.range (b : Block α) : Set ℕ := Set.Ico b.dst (b.dst + b.cells.length)

/-- The store `m` with the block `b` copied into it. -/
def Block.put (m : ℕ → α) (b : Block α) : ℕ → α := fun a =>
  if b.dst ≤ a then b.cells.getD (a - b.dst) (m a) else m a

/-- The store `m` with the blocks copied into it, first block first. -/
def copy (m : ℕ → α) (bs : List (Block α)) : ℕ → α := bs.foldl Block.put m

/-! ### One block -/

theorem Block.put_at (m : ℕ → α) (b : Block α) {k : ℕ} (hk : k < b.cells.length) :
    b.put m (b.dst + k) = b.cells[k] := by
  rw [put, if_pos (Nat.le_add_right ..), Nat.add_sub_cancel_left]
  exact List.getD_eq_getElem _ _ hk

theorem Block.put_of_notMem (m : ℕ → α) (b : Block α) {a : ℕ} (h : a ∉ b.range) :
    b.put m a = m a := by
  unfold put
  split
  · next hle =>
    rw [range, Set.mem_Ico, not_and, not_lt] at h
    have hlen := h hle
    exact List.getD_eq_default _ _ (by omega)
  · rfl

/-! ### Many blocks -/

@[simp] theorem copy_nil (m : ℕ → α) : copy m [] = m := rfl

@[simp] theorem copy_cons (m : ℕ → α) (b : Block α) (bs : List (Block α)) :
    copy m (b :: bs) = copy (b.put m) bs := rfl

theorem copy_of_notMem {bs : List (Block α)} (m : ℕ → α) {a : ℕ} (h : ∀ b ∈ bs, a ∉ b.range) :
    copy m bs a = m a := by
  induction bs generalizing m with
  | nil => rfl
  | cons b bs ih =>
    rw [copy_cons, ih _ fun b' hb' => h b' (List.mem_cons_of_mem _ hb')]
    exact b.put_of_notMem m (h b List.mem_cons_self)

/-- Of blocks with disjoint ranges each is in place after all are copied: the later ones do not
touch it. -/
theorem copy_at {bs : List (Block α)} (m : ℕ → α)
    (hdisj : bs.Pairwise fun b b' => Disjoint b.range b'.range) {b : Block α} (hb : b ∈ bs)
    {k : ℕ} (hk : k < b.cells.length) : copy m bs (b.dst + k) = b.cells[k] := by
  induction bs generalizing m with
  | nil => exact absurd hb List.not_mem_nil
  | cons b' bs ih =>
    obtain ⟨hfirst, hrest⟩ := List.pairwise_cons.mp hdisj
    rw [copy_cons]
    rcases List.mem_cons.mp hb with rfl | hmem
    · have hmem : b.dst + k ∈ b.range := ⟨Nat.le_add_right .., Nat.add_lt_add_left hk _⟩
      rw [copy_of_notMem _ fun b' hb' => Set.disjoint_left.mp (hfirst b' hb') hmem]
      exact b.put_at m hk
    · exact ih _ hrest hmem

/-! ### Single cells -/

section Writes

variable {κ : Type*} [DecidableEq κ] {ws : List (κ × α)} {a : κ}

/-- The store `m` after writes of single cells, first write first. -/
def writes (m : κ → α) (ws : List (κ × α)) : κ → α :=
  ws.foldl (fun m w => Function.update m w.1 w.2) m

theorem writes_of_notMem (m : κ → α) (h : ∀ w ∈ ws, w.1 ≠ a) : writes m ws a = m a := by
  induction ws generalizing m with
  | nil => rfl
  | cons w ws ih =>
    rw [writes, List.foldl_cons]
    show writes _ ws a = m a
    rw [ih _ fun w' hw' => h w' (List.mem_cons_of_mem _ hw'),
      Function.update_of_ne (h w List.mem_cons_self).symm]

/-- Where the same is written every time, it is there afterwards. -/
theorem writes_of_mem (m : κ → α) {v : α} (h : ∀ w ∈ ws, w.1 = a → w.2 = v) (hmem : (a, v) ∈ ws) :
    writes m ws a = v := by
  induction ws generalizing m with
  | nil => exact absurd hmem List.not_mem_nil
  | cons w ws ih =>
    have hrest : ∀ w' ∈ ws, w'.1 = a → w'.2 = v := fun w' hw' => h w' (List.mem_cons_of_mem _ hw')
    rw [writes, List.foldl_cons]
    show writes _ ws a = v
    by_cases hlater : (a, v) ∈ ws
    · exact ih _ hrest hlater
    · obtain rfl := (List.mem_cons.mp hmem).resolve_right hlater
      rw [writes_of_notMem _ fun w' hw' heq => hlater ?_, Function.update_self]
      rwa [← heq, ← hrest w' hw' heq]

theorem writes_append (m : κ → α) (ws ws' : List (κ × α)) :
    writes m (ws ++ ws') = writes (writes m ws) ws' := List.foldl_append

/-- What a cell is after the writes depends on no other cell. -/
theorem writes_congr {m m' : κ → α} (h : m a = m' a) : writes m ws a = writes m' ws a := by
  induction ws generalizing m m' with
  | nil => exact h
  | cons w ws ih =>
    rw [writes, writes, List.foldl_cons, List.foldl_cons]
    refine ih ?_
    by_cases heq : a = w.1
    · rw [heq, Function.update_self, Function.update_self]
    · rw [Function.update_of_ne heq, Function.update_of_ne heq, h]

/-- Of many groups of writes only one matters for a cell that the others leave alone. -/
theorem writes_flatMap {ι : Type*} {l : List ι} {f : ι → List (κ × α)} {i : ι} (m : κ → α)
    (hnodup : l.Nodup) (hi : i ∈ l) (hothers : ∀ j ∈ l, j ≠ i → ∀ w ∈ f j, w.1 ≠ a) :
    writes m (l.flatMap f) a = writes m (f i) a := by
  obtain ⟨before, behind, rfl⟩ := List.append_of_mem hi
  obtain ⟨-, hbehind, hbefore⟩ := List.nodup_append.mp hnodup
  have hbefore : ∀ w ∈ before.flatMap f, w.1 ≠ a := by
    intro w hw
    obtain ⟨j, hj, hw⟩ := List.mem_flatMap.mp hw
    exact hothers j (List.mem_append_left _ hj) (hbefore j hj i List.mem_cons_self) w hw
  have hbehind : ∀ w ∈ behind.flatMap f, w.1 ≠ a := by
    intro w hw
    obtain ⟨j, hj, hw⟩ := List.mem_flatMap.mp hw
    refine hothers j (List.mem_append_right _ (List.mem_cons_of_mem _ hj)) ?_ w hw
    rintro rfl
    exact (List.nodup_cons.mp hbehind).1 hj
  rw [List.flatMap_append, List.flatMap_cons, writes_append, writes_append,
    writes_of_notMem _ hbehind]
  exact writes_congr (writes_of_notMem m hbefore)

end Writes

end Copy
