import Mathlib.Data.List.Infix
import Mathlib.Data.List.Pairwise

/-!
# Texts with optional words

A text that lists some of the words of a table, in the order of the table, tells which ones they
are if no two words begin alike (`found_chosen`).
-/

namespace Text

variable {ι α : Type*} {p : ι → Bool} {word : ι → List α} {i : ι} {is : List ι}
  {rest : List α}

/-- The words of the items that `p` chooses. -/
def chosen (p : ι → Bool) (word : ι → List α) (is : List ι) : List α :=
  is.flatMap fun i => if p i then word i else []

/-- The items whose words are found when the table is gone through once. -/
def found [DecidableEq α] (word : ι → List α) : List ι → List α → List ι
  | [], _ => []
  | i :: is, text =>
    if word i <+: text then i :: found word is (text.drop (word i).length) else found word is text

/-- None of the words begins with another. -/
def Distinct (words : List (List α)) : Prop :=
  words.Pairwise fun v w => ¬ v <+: w ∧ ¬ w <+: v

instance [DecidableEq α] (words : List (List α)) : Decidable (Distinct words) :=
  inferInstanceAs (Decidable (words.Pairwise _))

theorem chosen_cons_of_pos (h : p i) : chosen p word (i :: is) = word i ++ chosen p word is := by
  simp [chosen, h]

theorem chosen_cons_of_neg (h : ¬ p i) : chosen p word (i :: is) = chosen p word is := by
  simp [chosen, h]

/-- The text begins with a word of the table or with what comes behind. -/
theorem exists_prefix_chosen (p : ι → Bool) (word : ι → List α) (is : List ι) (rest : List α) :
    ∃ w ∈ is.map word ++ [rest], w <+: chosen p word is ++ rest := by
  induction is with
  | nil => exact ⟨rest, by simp, by simp [chosen]⟩
  | cons i is ih =>
    by_cases hi : p i
    · refine ⟨word i, by simp, ?_⟩
      rw [chosen_cons_of_pos hi, List.append_assoc]
      exact List.prefix_append ..
    · obtain ⟨w, hw, hprefix⟩ := ih
      refine ⟨w, List.mem_cons_of_mem _ hw, ?_⟩
      rwa [chosen_cons_of_neg hi]

/-- A word that is not there is not mistaken for the one that is. -/
theorem not_prefix_chosen (h : Distinct ((i :: is).map word ++ [rest])) :
    ¬ word i <+: chosen p word is ++ rest := by
  intro hprefix
  obtain ⟨w, hw, hprefix'⟩ := exists_prefix_chosen p word is rest
  obtain ⟨hne, hne'⟩ := List.rel_of_pairwise_cons h hw
  rcases List.prefix_or_prefix_of_prefix hprefix hprefix' with h | h
  · exact hne h
  · exact hne' h

/-- **The chosen items are found.** -/
theorem found_chosen [DecidableEq α] (h : Distinct (is.map word ++ [rest])) :
    found word is (chosen p word is ++ rest) = is.filter p := by
  induction is with
  | nil => rfl
  | cons i is ih =>
    have hrest : Distinct (is.map word ++ [rest]) := List.Pairwise.of_cons h
    by_cases hi : p i
    · rw [chosen_cons_of_pos hi, List.append_assoc, found, if_pos (List.prefix_append ..),
        List.drop_left, ih hrest, List.filter_cons_of_pos hi]
    · rw [chosen_cons_of_neg hi, found, if_neg (not_prefix_chosen h), ih hrest,
        List.filter_cons_of_neg hi]

end Text
