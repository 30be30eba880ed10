import Mathlib.Data.Nat.Basic
import Mathlib.Data.Finset.Card
import Mathlib.Data.Finset.Prod
import Mathlib.Order.Interval.Finset.Nat
import Mathlib.Tactic.Ring

/-!
# Radix trees held in a table memory

A table memory `m : F → Fin b → E` gives every table `t` its `b` entries, and `child e` is the
table a present entry points to (`none` for an entry that is not present).  Read from a root
`r`, the memory is a radix tree in base `b`: `node child m r ℓ q` is the table at depth `ℓ`
that the `ℓ` leading digits `q` lead to, and `slot child m r ℓ q` is the present entry at depth
`ℓ` that the `ℓ + 1` leading digits `q` select.

`Distinct d` says that no table is reached twice down to depth `d`.  Under it a store into one
slot changes that slot only: `slot_store_ne` at the depth of the slot and above,
`slot_store_link` below it when the stored entry points to an empty table.  `Distinct.store_link`
and `Distinct.store_leaf` carry the property over a store, and `card_le_of_present` /
`card_le_of_covers` count tables by the slots that point to them.
-/

namespace Radix

variable {F E : Type*} {b : ℕ} [NeZero b] (child : E → Option F)

/-- The table at depth `ℓ` under the digits `q`, if every entry on the way is present. -/
def node (m : F → Fin b → E) (r : F) : ℕ → ℕ → Option F
  | 0, _ => some r
  | ℓ + 1, q => (node m r ℓ (q / b)).bind fun t => child (m t (Fin.ofNat b q))

/-- The present entry at depth `ℓ` selected by the digits `q`. -/
def slot (m : F → Fin b → E) (r : F) (ℓ q : ℕ) : Option E :=
  (node child m r ℓ (q / b)).bind fun t =>
    if (child (m t (Fin.ofNat b q))).isSome then some (m t (Fin.ofNat b q)) else none

/-- Store `e` in entry `i` of table `t`. -/
def store [DecidableEq F] (m : F → Fin b → E) (t : F) (i : Fin b) (e : E) : F → Fin b → E :=
  Function.update m t (Function.update (m t) i e)

/-- No table is reached by two different digit strings of length at most `d`. -/
def Distinct (m : F → Fin b → E) (r : F) (d : ℕ) : Prop :=
  ∀ ℓ ℓ' q q' t, ℓ ≤ d → ℓ' ≤ d → q < b ^ ℓ → q' < b ^ ℓ' →
    node child m r ℓ q = some t → node child m r ℓ' q' = some t → ℓ = ℓ' ∧ q = q'

variable {child} {m m' : F → Fin b → E} {r t : F}

/-! ### Digits -/

theorem div_lt_pow {ℓ q : ℕ} (hq : q < b ^ (ℓ + 1)) : q / b < b ^ ℓ := by
  rw [Nat.div_lt_iff_lt_mul (Nat.pos_of_ne_zero (NeZero.ne b)), ← pow_succ]
  exact hq

/-- Two digit strings with the same leading digits are told apart by the last one. -/
theorem ofNat_eq_iff {q p : ℕ} (h : q / b = p / b) : Fin.ofNat b q = Fin.ofNat b p ↔ q = p := by
  refine ⟨fun hi => ?_, fun hq => by rw [hq]⟩
  have hmod : q % b = p % b := congrArg Fin.val hi
  rw [← Nat.div_add_mod q b, ← Nat.div_add_mod p b, h, hmod]

/-! ### Nodes and slots -/

@[simp] theorem node_zero (q : ℕ) : node child m r 0 q = some r := rfl

theorem slot_eq_some {ℓ q : ℕ} {e : E} :
    slot child m r ℓ q = some e ↔
      ∃ t, node child m r ℓ (q / b) = some t ∧ m t (Fin.ofNat b q) = e ∧ (child e).isSome := by
  unfold slot
  rw [Option.bind_eq_some_iff]
  refine exists_congr fun t => and_congr_right fun _ => ?_
  split_ifs with h
  · exact ⟨fun he => by obtain rfl := Option.some.inj he; exact ⟨rfl, h⟩, fun he => by rw [he.1]⟩
  · refine ⟨fun he => by simp at he, fun he => ?_⟩
    rw [he.1] at h
    exact absurd he.2 h

/-- A node below the root is what the slot above it points to. -/
theorem node_succ (ℓ q : ℕ) : node child m r (ℓ + 1) q = (slot child m r ℓ q).bind child := by
  rw [node, slot, Option.bind_assoc]
  congr 1
  funext t
  split_ifs with h
  · rfl
  · rw [Option.not_isSome_iff_eq_none] at h
    rw [h]
    rfl

theorem slot_eq_none_of_node {ℓ q : ℕ} (ht : node child m r ℓ (q / b) = some t) :
    slot child m r ℓ q = none ↔ child (m t (Fin.ofNat b q)) = none := by
  unfold slot
  rw [ht, Option.bind_some]
  split_ifs with h
  · exact ⟨fun he => by simp at he, fun he => by rw [he] at h; simp at h⟩
  · exact ⟨fun _ => Option.not_isSome_iff_eq_none.mp h, fun _ => rfl⟩

/-- A slot under a present slot is only there if its parent slot is. -/
theorem slot_isSome_parent {ℓ q : ℕ} (h : (slot child m r (ℓ + 1) q).isSome) :
    (slot child m r ℓ (q / b)).isSome := by
  obtain ⟨e, he⟩ := Option.isSome_iff_exists.mp h
  obtain ⟨t, ht, _, _⟩ := slot_eq_some.mp he
  rw [node_succ, Option.bind_eq_some_iff] at ht
  obtain ⟨e', he', _⟩ := ht
  rw [he']
  rfl

theorem node_succ_isSome {ℓ q : ℕ} :
    (node child m r (ℓ + 1) q).isSome ↔ (slot child m r ℓ q).isSome := by
  rw [node_succ]
  constructor
  · intro h
    cases hs : slot child m r ℓ q with
    | none => rw [hs] at h; exact h
    | some e => rfl
  · intro h
    obtain ⟨e, he⟩ := Option.isSome_iff_exists.mp h
    obtain ⟨_, _, _, hc⟩ := slot_eq_some.mp he
    rw [he, Option.bind_some]
    exact hc

/-- Digits beyond the depth of a node play no part. -/
theorem node_mod : ∀ (ℓ q : ℕ), node child m r ℓ (q % b ^ ℓ) = node child m r ℓ q := by
  intro ℓ
  induction ℓ with
  | zero => exact fun _ => rfl
  | succ ℓ ih =>
    intro q
    have hlast : Fin.ofNat b (q % b ^ (ℓ + 1)) = Fin.ofNat b q := by
      apply Fin.ext
      show q % b ^ (ℓ + 1) % b = q % b
      exact Nat.mod_mod_of_dvd q (Dvd.intro_left (b ^ ℓ) (pow_succ b ℓ).symm)
    have hlead : q % b ^ (ℓ + 1) / b = q / b % b ^ ℓ := by
      rw [pow_succ']
      exact Nat.mod_mul_right_div_self ..
    rw [node, node, hlast, hlead, ih]

/-! ### Stores -/

section Store

variable [DecidableEq F]

omit [NeZero b] in
theorem store_same (t : F) (i : Fin b) (e : E) : store m t i e t i = e := by
  simp [store]

omit [NeZero b] in
theorem store_table_ne {u : F} (h : u ≠ t) (i : Fin b) (e : E) : store m t i e u = m u := by
  simp [store, h]

omit [NeZero b] in
theorem store_of_ne {u : F} {i j : Fin b} (e : E) (h : ¬ (u = t ∧ j = i)) :
    store m t i e u j = m u j := by
  by_cases hu : u = t
  · subst hu
    have hj : j ≠ i := fun hj => h ⟨rfl, hj⟩
    simp [store, hj]
  · rw [store_table_ne hu]

/-- A store into an entry that is not present keeps every node. -/
theorem node_store_of_vacant {i : Fin b} (e : E) (hv : child (m t i) = none) :
    ∀ {ℓ q : ℕ} {u : F}, node child m r ℓ q = some u →
      node child (store m t i e) r ℓ q = some u := by
  intro ℓ
  -- The walk down never steps through the stored entry, which was not present.
  induction ℓ with
  | zero => exact fun h => h
  | succ ℓ ih =>
    intro q u h
    rw [node, Option.bind_eq_some_iff] at h ⊢
    obtain ⟨v, hv1, hv2⟩ := h
    refine ⟨v, ih hv1, ?_⟩
    rw [store_of_ne]
    · exact hv2
    · rintro ⟨rfl, hi⟩
      rw [hi, hv] at hv2
      simp at hv2

/-- A store into an entry that is not present keeps every slot. -/
theorem slot_store_of_vacant {i : Fin b} (e : E) (hv : child (m t i) = none) {ℓ q : ℕ} {e' : E}
    (h : slot child m r ℓ q = some e') : slot child (store m t i e) r ℓ q = some e' := by
  obtain ⟨u, hu, he, hs⟩ := slot_eq_some.mp h
  refine slot_eq_some.mpr ⟨u, node_store_of_vacant e hv hu, ?_, hs⟩
  rw [store_of_ne _ ?_, he]
  rintro ⟨rfl, hi⟩
  rw [hi] at he
  rw [← he, hv] at hs
  simp at hs

omit [DecidableEq F] in
/-- Memories that agree off a table have the same nodes as long as the table is not met. -/
theorem node_congr_off (h : ∀ u, u ≠ t → m' u = m u) :
    ∀ {ℓ q : ℕ}, q < b ^ ℓ → (∀ k < ℓ, ∀ p < b ^ k, node child m r k p ≠ some t) →
      node child m' r ℓ q = node child m r ℓ q := by
  intro ℓ
  induction ℓ with
  | zero => exact fun _ _ => rfl
  | succ ℓ ih =>
    intro q hq ht
    have hpre := ih (div_lt_pow hq) fun k hk => ht k (Nat.lt_succ_of_lt hk)
    rw [node, node, hpre]
    -- With the parents equal, only the entry read in the parent is left to compare.
    cases hn : node child m r ℓ (q / b) with
    | none => rfl
    | some u =>
      have hu : u ≠ t := fun hu => ht ℓ (Nat.lt_succ_self ℓ) _ (div_lt_pow hq) (hu ▸ hn)
      rw [Option.bind_some, Option.bind_some, h u hu]

omit [DecidableEq F] in
/-- Memories that agree off a table have the same slots as long as the table is not met. -/
theorem slot_congr_off (h : ∀ u, u ≠ t → m' u = m u) {ℓ q : ℕ} (hq : q < b ^ (ℓ + 1))
    (ht : ∀ k ≤ ℓ, ∀ p < b ^ k, node child m r k p ≠ some t) :
    slot child m' r ℓ q = slot child m r ℓ q := by
  have hn := node_congr_off h (div_lt_pow hq) fun k hk => ht k hk.le
  unfold slot
  rw [hn]
  cases hu : node child m r ℓ (q / b) with
  | none => rfl
  | some u =>
    have hne : u ≠ t := fun he => ht ℓ le_rfl _ (div_lt_pow hq) (he ▸ hu)
    rw [Option.bind_some, Option.bind_some, h u hne]

variable {d k p : ℕ} {e : E} {g : F}

/-- A store into a table at depth `k` keeps the nodes down to depth `k`. -/
theorem node_store_le (hD : Distinct child m r d) (hk : k ≤ d) (hp : p < b ^ (k + 1))
    (ht : node child m r k (p / b) = some t) {i : Fin b} {ℓ q : ℕ} (hℓ : ℓ ≤ k)
    (hq : q < b ^ ℓ) : node child (store m t i e) r ℓ q = node child m r ℓ q := by
  refine node_congr_off (fun u hu => store_table_ne hu i e) hq fun j hj p' hp' hn => ?_
  -- `t` sits at depth `k` only, and the walk down to `ℓ ≤ k` passes depths below `k`.
  have := (hD j k p' _ t (by omega) hk hp' (div_lt_pow hp) hn ht).1
  omega

theorem slot_store_self (hD : Distinct child m r d) (hk : k ≤ d) (hp : p < b ^ (k + 1))
    (ht : node child m r k (p / b) = some t) :
    slot child (store m t (Fin.ofNat b p) e) r k p =
      if (child e).isSome then some e else none := by
  have hn := node_store_le (i := Fin.ofNat b p) (e := e) hD hk hp ht le_rfl (div_lt_pow hp)
  unfold slot
  rw [hn, ht, Option.bind_some, store_same]

/-- A store into a table at depth `k` changes no other slot down to depth `k`. -/
theorem slot_store_ne (hD : Distinct child m r d) (hk : k ≤ d) (hp : p < b ^ (k + 1))
    (ht : node child m r k (p / b) = some t) {ℓ q : ℕ} (hℓ : ℓ ≤ k) (hq : q < b ^ (ℓ + 1))
    (hne : (ℓ, q) ≠ (k, p)) :
    slot child (store m t (Fin.ofNat b p) e) r ℓ q = slot child m r ℓ q := by
  have hn := node_store_le (i := Fin.ofNat b p) (e := e) hD hk hp ht hℓ (div_lt_pow hq)
  unfold slot
  rw [hn]
  cases hu : node child m r ℓ (q / b) with
  | none => rfl
  | some u =>
    rw [Option.bind_some, Option.bind_some, store_of_ne]
    rintro ⟨rfl, hi⟩
    obtain ⟨rfl, hqp⟩ := hD ℓ k _ _ u (hℓ.trans hk) hk (div_lt_pow hq) (div_lt_pow hp) hu ht
    exact hne (by rw [(ofNat_eq_iff hqp).mp hi])

section Link

variable (hD : Distinct child m r d) (hk : k ≤ d) (hp : p < b ^ (k + 1))
  (ht : node child m r k (p / b) = some t) (hv : child (m t (Fin.ofNat b p)) = none)
  (he : child e = some g) (hgt : g ≠ t) (hg : ∀ j, child (m g j) = none)

include hD hk hp ht hv he hgt hg

/-- Linking an empty table `g` into a vacant entry adds the node `g` and no other. -/
theorem node_store_link : ∀ {ℓ q : ℕ}, ℓ ≤ d → q < b ^ ℓ →
    node child (store m t (Fin.ofNat b p) e) r ℓ q =
      if ℓ = k + 1 ∧ q = p then some g else node child m r ℓ q := by
  have habs : node child m r (k + 1) p = none := by rw [node, ht, Option.bind_some, hv]
  intro ℓ
  induction ℓ with
  | zero => intro q _ _; simp
  | succ ℓ ih =>
    intro q hℓ hq
    have hpre := ih (by omega) (div_lt_pow hq)
    by_cases hnew : ℓ = k + 1 ∧ q / b = p
    · -- The parent is the new table, which is empty; in `m` the parent is absent.
      rw [if_pos hnew] at hpre
      have hright : ¬ (ℓ + 1 = k + 1 ∧ q = p) := by omega
      rw [if_neg hright, node, node, hpre, hnew.1, hnew.2, habs, Option.bind_some,
        Option.bind_none, store_table_ne hgt, hg]
    · rw [if_neg hnew] at hpre
      rw [node, hpre]
      -- An old parent: either absent as before, or one whose entry may be the stored one.
      cases hu : node child m r ℓ (q / b) with
      | none =>
        have hright : ¬ (ℓ + 1 = k + 1 ∧ q = p) := by
          rintro ⟨h1, rfl⟩
          obtain rfl : ℓ = k := by omega
          rw [ht] at hu
          simp at hu
        rw [if_neg hright, node, hu]
        rfl
      | some u =>
        rw [Option.bind_some]
        by_cases hslot : u = t ∧ Fin.ofNat b q = Fin.ofNat b p
        -- Reading the stored entry of `t` means being at depth `k` and index `p`.
        · obtain ⟨rfl, hi⟩ := hslot
          obtain ⟨rfl, hqp⟩ :=
            hD ℓ k _ _ u (by omega) hk (div_lt_pow hq) (div_lt_pow hp) hu ht
          rw [hi, store_same, he, if_pos ⟨rfl, (ofNat_eq_iff hqp).mp hi⟩]
        · have hright : ¬ (ℓ + 1 = k + 1 ∧ q = p) := by
            rintro ⟨h1, rfl⟩
            obtain rfl : ℓ = k := by omega
            rw [ht] at hu
            exact hslot ⟨(Option.some.inj hu).symm, rfl⟩
          rw [store_of_ne _ hslot, if_neg hright, node, hu, Option.bind_some]

/-- Linking an empty table into a vacant entry adds that one slot, at every depth. -/
theorem slot_store_link {ℓ q : ℕ} (hℓ : ℓ ≤ d) (hq : q < b ^ (ℓ + 1)) :
    slot child (store m t (Fin.ofNat b p) e) r ℓ q =
      if (ℓ, q) = (k, p) then some e else slot child m r ℓ q := by
  split_ifs with heq
  · obtain ⟨rfl, rfl⟩ := Prod.mk.inj heq
    rw [slot_store_self hD hk hp ht, he]
    rfl
  · have hn := node_store_link hD hk hp ht hv he hgt hg hℓ (div_lt_pow hq)
    unfold slot
    by_cases hnew : ℓ = k + 1 ∧ q / b = p
    -- Below the new table: it is empty, and before the link there was no table here.
    · have habs : node child m r (k + 1) p = none := by rw [node, ht, Option.bind_some, hv]
      rw [if_pos hnew] at hn
      rw [hn, hnew.1, hnew.2, habs, Option.bind_some, Option.bind_none, store_table_ne hgt]
      simp [hg]
    · rw [if_neg hnew] at hn
      rw [hn]
      cases hu : node child m r ℓ (q / b) with
      | none => rfl
      | some u =>
        rw [Option.bind_some, Option.bind_some, store_of_ne]
        rintro ⟨rfl, hi⟩
        obtain ⟨rfl, hqp⟩ := hD ℓ k _ _ u hℓ hk (div_lt_pow hq) (div_lt_pow hp) hu ht
        exact heq (by rw [(ofNat_eq_iff hqp).mp hi])

end Link

/-! ### Keeping tables distinct -/

omit [DecidableEq F] in
theorem Distinct.congr (hD : Distinct child m r d)
    (h : ∀ ℓ ≤ d, ∀ q < b ^ ℓ, node child m' r ℓ q = node child m r ℓ q) :
    Distinct child m' r d := by
  intro ℓ ℓ' q q' t hℓ hℓ' hq hq' ht ht'
  rw [h ℓ hℓ q hq] at ht
  rw [h ℓ' hℓ' q' hq'] at ht'
  exact hD ℓ ℓ' q q' t hℓ hℓ' hq hq' ht ht'

/-- Linking an empty table that was not in the tree keeps the tables distinct. -/
theorem Distinct.store_link (hD : Distinct child m r d) (hk : k ≤ d) (hp : p < b ^ (k + 1))
    (ht : node child m r k (p / b) = some t) (hv : child (m t (Fin.ofNat b p)) = none)
    (he : child e = some g) (hg : ∀ j, child (m g j) = none)
    (hfresh : ∀ ℓ ≤ d, ∀ q < b ^ ℓ, node child m r ℓ q ≠ some g) :
    Distinct child (store m t (Fin.ofNat b p) e) r d := by
  have hgt : g ≠ t := fun h => hfresh k hk _ (div_lt_pow hp) (h ▸ ht)
  intro ℓ ℓ' q q' u hℓ hℓ' hq hq' hu hu'
  rw [node_store_link hD hk hp ht hv he hgt hg hℓ hq] at hu
  rw [node_store_link hD hk hp ht hv he hgt hg hℓ' hq'] at hu'
  -- `g` was nowhere in the tree, so an old node and the new node never share a table.
  split_ifs at hu hu' with h1 h2 h2
  · exact ⟨h1.1.trans h2.1.symm, h1.2.trans h2.2.symm⟩
  · exact absurd (hu'.trans hu.symm) (hfresh ℓ' hℓ' q' hq')
  · exact absurd (hu.trans hu'.symm) (hfresh ℓ hℓ q hq)
  · exact hD ℓ ℓ' q q' u hℓ hℓ' hq hq' hu hu'

/-- A store into a table at the last depth keeps the tables distinct. -/
theorem Distinct.store_leaf (hD : Distinct child m r d) (hp : p < b ^ (d + 1))
    (ht : node child m r d (p / b) = some t) (i : Fin b) :
    Distinct child (store m t i e) r d :=
  hD.congr fun _ hℓ _ hq => node_store_le hD le_rfl hp ht hℓ hq

omit [DecidableEq F] in
/-- Memories that agree off a table outside the tree have the same tables. -/
theorem Distinct.congr_off (hD : Distinct child m r d) (h : ∀ u, u ≠ t → m' u = m u)
    (ht : ∀ ℓ ≤ d, ∀ q < b ^ ℓ, node child m r ℓ q ≠ some t) : Distinct child m' r d :=
  hD.congr fun _ hℓ _ hq =>
    node_congr_off h hq fun k hk => ht k (by omega)

end Store

/-! ### Counting tables

A table below the root is counted by the slot that points to it, so `d` levels of slots over
a set `S` of tables number at most `S.card` when the tables are distinct, and at least
`S.card` when every table of `S` is pointed to. -/

variable {d : ℕ} {S : Finset F} {U : Finset (ℕ × ℕ)}

theorem card_le_of_present (hD : Distinct child m r d)
    (hU : ∀ κ ∈ U, κ.1 < d ∧ κ.2 < b ^ (κ.1 + 1) ∧ (slot child m r κ.1 κ.2).isSome)
    (hS : ∀ κ ∈ U, ∀ t, node child m r (κ.1 + 1) κ.2 = some t → t ∈ S) :
    U.card ≤ S.card := by
  have htable : ∀ κ ∈ U, node child m r (κ.1 + 1) κ.2 =
      some ((node child m r (κ.1 + 1) κ.2).getD r) := by
    intro κ hκ
    obtain ⟨t, ht⟩ := Option.isSome_iff_exists.mp (node_succ_isSome.mpr (hU κ hκ).2.2)
    rw [ht]
    rfl
  refine Finset.card_le_card_of_injOn (fun κ => (node child m r (κ.1 + 1) κ.2).getD r)
    (fun κ hκ => hS κ hκ _ (htable κ hκ)) ?_
  -- Two slots that point to one table are one slot, as the tables are distinct.
  intro κ hκ κ' hκ' heq
  have h1 := htable κ hκ
  have h2 := htable κ' hκ'
  rw [← show (node child m r (κ.1 + 1) κ.2).getD r = (node child m r (κ'.1 + 1) κ'.2).getD r
    from heq] at h2
  obtain ⟨hd1, hr1, _⟩ := hU κ hκ
  obtain ⟨hd2, hr2, _⟩ := hU κ' hκ'
  obtain ⟨hℓ, hq⟩ := hD _ _ _ _ _ hd1 hd2 hr1 hr2 h1 h2
  exact Prod.ext (by omega) hq

theorem card_le_of_covers (child : E → Option F) [DecidableEq F]
    (hS : ∀ t ∈ S, ∃ κ ∈ U, node child m r (κ.1 + 1) κ.2 = some t) : S.card ≤ U.card := by
  have hsub : S ⊆ U.image fun κ => (node child m r (κ.1 + 1) κ.2).getD r := by
    intro t ht
    obtain ⟨κ, hκ, hn⟩ := hS t ht
    exact Finset.mem_image.mpr ⟨κ, hκ, by rw [hn]; rfl⟩
  exact (Finset.card_le_card hsub).trans Finset.card_image_le

end Radix
