import KessOS.Device.I8259

/-!
# The 8259A at work

In the fully nested mode the levels in service are a stack: `Nested isr levels` says that the
register holds the levels of a list, the one that came last and has the highest priority first.
An acknowledge cycle pushes the pending level (`Nested.acknowledge`), and a non-specific end of
interrupt pops the first one (`Nested.pop`).
-/

namespace I8259

variable {r isr : BitVec 8} {i j : Fin 8} {levels : List (Fin 8)} {c : Chip} {p : Pair}

/-! ### Levels -/

@[simp] theorem getLsbD_setLevel (r : BitVec 8) (i j : Fin 8) :
    (setLevel r i).getLsbD j = (r.getLsbD j || decide (j = i)) := by
  rw [setLevel, BitVec.getLsbD_or, BitVec.getLsbD_twoPow]
  simp [Fin.ext_iff, eq_comm]

@[simp] theorem getLsbD_clearLevel (r : BitVec 8) (i j : Fin 8) :
    (clearLevel r i).getLsbD j = (r.getLsbD j && decide (j ≠ i)) := by
  rw [clearLevel, BitVec.getLsbD_and, BitVec.getLsbD_not, BitVec.getLsbD_twoPow]
  simp [Fin.ext_iff, eq_comm]

theorem eq_of_levels {r r' : BitVec 8} (h : ∀ i : Fin 8, r.getLsbD i = r'.getLsbD i) : r = r' :=
  BitVec.eq_of_getLsbD_eq fun i hi => h ⟨i, hi⟩

theorem highest_eq_none : highest r = none ↔ ∀ i : Fin 8, r.getLsbD i = false := by
  simp [highest]

/-- The first level is in the register, and none before it is. -/
theorem highest_eq_some :
    highest r = some i ↔ r.getLsbD i = true ∧ ∀ j < i, r.getLsbD j = false := by
  rw [highest, List.find?_eq_some_iff_getElem]
  simp only [List.getElem_finRange, Fin.val_cast, List.length_finRange, Bool.not_eq_true']
  constructor
  · rintro ⟨hi, k, hk, rfl, hlt⟩
    refine ⟨hi, fun j hj => ?_⟩
    exact hlt j hj
  · rintro ⟨hi, hlt⟩
    exact ⟨hi, i, i.isLt, rfl, fun j hj => hlt ⟨j, by omega⟩ hj⟩

/-! ### What a step leaves alone -/

theorem Programmed.data_ocw1 {c : Programmed} (h : c.expects = .ocw1) (data : BitVec 8) :
    c.data data = { c with imr := data } := by
  unfold Programmed.data
  rw [h]

@[simp] theorem Chip.setLine_toProgrammed (c : Chip) (i : Fin 8) (high : Bool) :
    (c.setLine i high).toProgrammed = c.toProgrammed := by
  unfold setLine
  split <;> rfl

@[simp] theorem Pair.rewire_slave (p : Pair) : p.rewire.slave = p.slave := rfl

@[simp] theorem Pair.rewire_master_toProgrammed (p : Pair) :
    p.rewire.master.toProgrammed = p.master.toProgrammed := Chip.setLine_toProgrammed ..

theorem Pair.setLine_toProgrammed (p : Pair) (irq : Fin 16) (high : Bool) :
    (p.setLine irq high).master.toProgrammed = p.master.toProgrammed ∧
      (p.setLine irq high).slave.toProgrammed = p.slave.toProgrammed := by
  unfold setLine
  split_ifs
  · exact ⟨rfl, rfl⟩
  · exact ⟨Chip.setLine_toProgrammed .., rfl⟩
  · exact ⟨Pair.rewire_master_toProgrammed _, Chip.setLine_toProgrammed ..⟩

/-- What the initialisation sets up. -/
def Programmed.setup (c : Programmed) : Programmed := { c with imr := 0, isr := 0 }

@[simp] theorem Chip.acknowledge_setup (c : Chip) : c.acknowledge.setup = c.setup := by
  unfold acknowledge
  cases c.pending <;> rfl

@[simp] theorem Pair.acknowledge_master_setup (p : Pair) :
    p.acknowledge.master.setup = p.master.setup := by
  rw [acknowledge, rewire_master_toProgrammed]
  exact p.master.acknowledge_setup

@[simp] theorem Pair.acknowledge_slave_setup (p : Pair) :
    p.acknowledge.slave.setup = p.slave.setup := by
  rw [acknowledge, rewire_slave]
  split_ifs
  · exact p.slave.acknowledge_setup
  · rfl

/-! ### Lines and edges -/

/-- A rising line leaves an edge, and the edge is gone when the line falls. -/
theorem Chip.setLine_edges (c : Chip) (i j : Fin 8) (high : Bool) :
    (c.setLine i high).edges.getLsbD j =
      if j = i then high && (c.edges.getLsbD i || !c.lines.getLsbD i) else c.edges.getLsbD j := by
  have hfall : (clearLevel c.edges i).getLsbD j = if j = i then false else c.edges.getLsbD j := by
    rw [getLsbD_clearLevel]
    by_cases hj : j = i <;> simp [hj]
  have hrise : (setLevel c.edges i).getLsbD j = if j = i then true else c.edges.getLsbD j := by
    rw [getLsbD_setLevel]
    by_cases hj : j = i <;> simp [hj]
  unfold setLine
  cases high with
  | false => exact hfall
  | true =>
    simp only [if_true, Bool.true_and]
    by_cases hline : c.lines.getLsbD i = true
    · by_cases hj : j = i <;> simp [hj, hline]
    · have hline : c.lines.getLsbD i = false := by simpa using hline
      rw [hline, if_neg Bool.false_ne_true, hrise, Bool.not_false, Bool.or_true]

theorem Chip.setLine_lines (c : Chip) (i j : Fin 8) (high : Bool) :
    (c.setLine i high).lines.getLsbD j = if j = i then high else c.lines.getLsbD j := by
  unfold setLine
  cases high with
  | false =>
    refine (getLsbD_clearLevel ..).trans ?_
    by_cases hj : j = i <;> simp [hj]
  | true =>
    refine (getLsbD_setLevel ..).trans ?_
    by_cases hj : j = i <;> simp [hj]

namespace Pair

variable (hi : i ≠ slaveLine)

include hi

theorem rewire_edges : p.rewire.master.edges.getLsbD i = p.master.edges.getLsbD i := by
  rw [rewire, Chip.setLine_edges, if_neg hi]

theorem rewire_lines : p.rewire.master.lines.getLsbD i = p.master.lines.getLsbD i := by
  rw [rewire, Chip.setLine_lines, if_neg hi]

theorem setLine_edges (irq : Fin 16) (high : Bool) :
    (p.setLine irq high).master.edges.getLsbD i =
      if irq = i.castAdd 8 then high && (p.master.edges.getLsbD i || !p.master.lines.getLsbD i)
      else p.master.edges.getLsbD i := by
  unfold setLine
  split_ifs with hslave hirq hlow hirq hirq
  · subst hirq
    exact absurd (Fin.ext hslave) hi
  · rfl
  · subst hirq
    exact (Chip.setLine_edges ..).trans (if_pos rfl)
  · simp only [Chip.setLine_edges]
    exact if_neg fun h => hirq (by subst h; rfl)
  · subst hirq
    exact absurd i.isLt hlow
  · exact rewire_edges hi

theorem setLine_lines (irq : Fin 16) (high : Bool) :
    (p.setLine irq high).master.lines.getLsbD i =
      if irq = i.castAdd 8 then high else p.master.lines.getLsbD i := by
  unfold setLine
  split_ifs with hslave hirq hlow hirq hirq
  · subst hirq
    exact absurd (Fin.ext hslave) hi
  · rfl
  · subst hirq
    exact (Chip.setLine_lines ..).trans (if_pos rfl)
  · simp only [Chip.setLine_lines]
    exact if_neg fun h => hirq (by subst h; rfl)
  · subst hirq
    exact absurd i.isLt hlow
  · exact rewire_lines hi

end Pair

/-! ### Requests -/

/-- The pending level is requested, is not masked, and comes before all that is in service. -/
theorem Chip.pending_eq_some : c.pending = some i ↔
    highest c.requests = some i ∧ ∀ j, highest c.isr = some j → i < j := by
  rw [pending, Option.filter_eq_some_iff, Option.all_eq_true]
  simp

/-- Nothing in service comes before the pending level. -/
theorem Chip.lt_of_pending (h : c.pending = some i) {j : Fin 8} (hj : c.isr.getLsbD j = true) :
    i < j := by
  obtain ⟨-, hlt⟩ := pending_eq_some.mp h
  cases hfirst : highest c.isr with
  | none => rw [highest_eq_none.mp hfirst j] at hj; cases hj
  | some k =>
    obtain ⟨-, hbefore⟩ := highest_eq_some.mp hfirst
    refine (hlt k hfirst).trans_le (not_lt.mp fun hjk => ?_)
    rw [hbefore j hjk] at hj
    cases hj

/-- With nothing in service, every request is pending or comes after one that is. -/
theorem Chip.pending_of_idle (h : c.isr = 0) : c.pending = highest c.requests := by
  have hnone : highest c.isr = none := by
    rw [h]
    rfl
  rw [pending, hnone]
  cases highest c.requests <;> rfl

/-- With all levels masked but one and nothing in service, the edge of this one is pending. -/
theorem Chip.pending_of_only (hmode : c.icw1.getLsbD 3 = false)
    (himr : c.imr = ~~~BitVec.twoPow 8 i) (hisr : c.isr = 0) :
    c.pending = if c.edges.getLsbD i then some i else none := by
  have hone : ∀ i : Fin 8, highest (BitVec.twoPow 8 i) = some i := by decide
  have hrequests : c.requests = c.edges &&& BitVec.twoPow 8 i := by
    rw [requests, hmode, himr, BitVec.not_not]
    rfl
  rw [pending_of_idle hisr, hrequests, BitVec.and_twoPow]
  split_ifs
  · exact hone i
  · rfl

theorem Chip.acknowledge_of_none (h : c.pending = none) : c.acknowledge = c := by
  rw [acknowledge, h]
  rfl

theorem Chip.acknowledge_of_some (h : c.pending = some i) (hend : c.icw4.getLsbD 1 = false) :
    c.acknowledge =
      { c with isr := setLevel c.isr i, edges := clearLevel c.edges i : Chip } := by
  rw [acknowledge, h, Option.elim_some, hend]
  rfl

/-! ### The stack of the levels in service -/

/-- The register holds the levels of the list, which come in the order of their priority. -/
structure Nested (isr : BitVec 8) (levels : List (Fin 8)) : Prop where
  mem : ∀ i : Fin 8, isr.getLsbD i = true ↔ i ∈ levels
  sorted : levels.Pairwise (· < ·)

namespace Nested

theorem nil : Nested 0 [] := ⟨by simp, .nil⟩

theorem eq_zero (h : Nested isr []) : isr = 0 := by
  refine eq_of_levels fun i => ?_
  have hi := h.mem i
  simpa using hi

/-- The first level is the one that came last. -/
theorem highest_eq (h : Nested isr levels) : highest isr = levels.head? := by
  cases levels with
  | nil => rw [h.eq_zero]; rfl
  | cons i levels =>
    refine highest_eq_some.mpr ⟨(h.mem i).mpr List.mem_cons_self, fun j hj => ?_⟩
    by_contra hset
    rcases List.mem_cons.mp ((h.mem j).mp (by simpa using hset)) with rfl | hmem
    · exact lt_irrefl _ hj
    · exact lt_asymm hj (List.rel_of_pairwise_cons h.sorted hmem)

theorem push (h : Nested isr levels) (hi : ∀ j ∈ levels, i < j) :
    Nested (setLevel isr i) (i :: levels) where
  mem j := by
    rw [getLsbD_setLevel, Bool.or_eq_true, h.mem, List.mem_cons, decide_eq_true_iff, or_comm]
  sorted := List.pairwise_cons.mpr ⟨hi, h.sorted⟩

theorem pop (h : Nested isr (i :: levels)) : Nested (clearLevel isr i) levels where
  mem j := by
    have hne : ∀ j ∈ levels, j ≠ i := fun j hj => (List.rel_of_pairwise_cons h.sorted hj).ne'
    rw [getLsbD_clearLevel, Bool.and_eq_true, h.mem, List.mem_cons, decide_eq_true_iff]
    constructor
    · rintro ⟨rfl | hj, hji⟩
      · exact absurd rfl hji
      · exact hj
    · exact fun hj => ⟨.inr hj, hne j hj⟩
  sorted := h.sorted.of_cons

/-- A stack of levels is read off the register. -/
theorem unique {levels' : List (Fin 8)} (h : Nested isr levels) (h' : Nested isr levels') :
    levels = levels' := by
  have hmem : ∀ i, i ∈ levels ↔ i ∈ levels' := fun i => (h.mem i).symm.trans (h'.mem i)
  have hperm := (List.perm_ext_iff_of_nodup (h.sorted.imp fun h => h.ne)
    (h'.sorted.imp fun h => h.ne)).mpr hmem
  exact hperm.eq_of_pairwise (fun _ _ _ _ hlt hgt => absurd hgt (lt_asymm hlt)) h.sorted h'.sorted

/-- The first level ends, if there is one. -/
theorem eoi (h : Nested isr levels) :
    Nested ((highest isr).elim isr (clearLevel isr)) levels.tail := by
  rw [h.highest_eq]
  cases levels with
  | nil => exact h
  | cons i levels => exact h.pop

/-- The pending level is in service from now on. -/
theorem acknowledge (h : Nested c.isr levels) (hend : c.icw4.getLsbD 1 = false) :
    Nested c.acknowledge.isr (c.pending.toList ++ levels) := by
  unfold Chip.acknowledge
  cases hpending : c.pending with
  | none => exact h
  | some i =>
    rw [Option.elim_some, hend]
    exact h.push fun j hj => Chip.lt_of_pending hpending ((h.mem j).mpr hj)

end Nested

/-! ### Two chips -/

/-- The slave is where the master expects it, and the end of an interrupt is not automatic. -/
structure Pair.Cascaded (p : Pair) : Prop where
  icw3 : p.master.icw3 = BitVec.twoPow 8 slaveLine
  answers : p.answers = true
  masterEnd : p.master.icw4.getLsbD 1 = false
  slaveEnd : p.slave.icw4.getLsbD 1 = false

/-- What is in service is what was taken and has not ended, the last first. -/
structure Pair.InService (p : Pair) (handlers : List Taken) : Prop where
  master : Nested p.master.isr (handlers.filterMap Taken.level)
  slave : Nested p.slave.isr (handlers.filterMap Taken.slaveLevel)

theorem Taken.slaveLevel_eq_some {t : Taken} {j : Fin 8} :
    t.slaveLevel = some j ↔ t = .request (j.natAdd 8) := by
  cases t with
  | request i =>
    simp only [Taken.slaveLevel, Taken.request.injEq, Fin.ext_iff, Fin.val_natAdd]
    split_ifs with hi
    · simp only [Option.some.injEq, Fin.ext_iff]
      omega
    · simp only [false_iff]
      omega
  | spurious i => simp [Taken.slaveLevel]

/-- A request of the slave is one of the master on its line. -/
theorem Taken.level_of_slaveLevel {t : Taken} {j : Fin 8} (h : t.slaveLevel = some j) :
    t.level = some slaveLine := by
  cases t with
  | request i =>
    by_cases hi : i.val < 8
    · simp [Taken.slaveLevel, not_le.mpr hi] at h
    · simp [Taken.level, hi]
  | spurious i => cases h

namespace Pair

variable {handlers : List Taken} {t : Taken}

@[simp] theorem acknowledge_master_isr (p : Pair) :
    p.acknowledge.master.isr = p.master.acknowledge.isr :=
  congrArg Programmed.isr (rewire_master_toProgrammed _)

theorem Cascaded.getLsbD_icw3 (h : p.Cascaded) (i : Fin 8) :
    p.master.icw3.getLsbD i = decide (i = slaveLine) := by
  rw [h.icw3, BitVec.getLsbD_twoPow]
  simp [Fin.ext_iff, eq_comm]

/-- The levels of what is taken are those that were pending. -/
theorem Cascaded.taken_levels (hp : p.Cascaded) (ht : p.taken = some t) :
    t.level = p.master.pending ∧
      t.slaveLevel = if p.master.pending = some slaveLine then p.slave.pending else none := by
  unfold taken at ht
  cases hpending : p.master.pending with
  | none =>
    rw [hpending] at ht
    cases ht
    exact ⟨rfl, rfl⟩
  | some i =>
    rw [hpending] at ht
    simp only [hp.getLsbD_icw3, hp.answers, and_true, decide_eq_true_eq] at ht
    by_cases hi : i = slaveLine
    · subst hi
      rw [if_pos rfl, if_pos rfl] at ht
      rw [if_pos rfl]
      cases hslave : p.slave.pending with
      | none =>
        rw [hslave] at ht
        cases ht
        exact ⟨rfl, rfl⟩
      | some j =>
        rw [hslave] at ht
        cases ht
        simp [Taken.level, Taken.slaveLevel]
    · rw [if_neg hi] at ht
      cases ht
      rw [if_neg (by simpa using hi)]
      simp [Taken.level, Taken.slaveLevel]

/-- What an acknowledge cycle takes comes on top. -/
theorem InService.take (h : p.InService handlers) (hp : p.Cascaded) (ht : p.taken = some t) :
    p.acknowledge.InService (t :: handlers) := by
  obtain ⟨hlevel, hslaveLevel⟩ := hp.taken_levels ht
  refine ⟨?_, ?_⟩
  · have hmaster := h.master.acknowledge hp.masterEnd
    rw [acknowledge_master_isr, List.filterMap_cons, hlevel]
    cases hpending : p.master.pending <;> simpa [hpending] using hmaster
  · have hslave := h.slave.acknowledge hp.slaveEnd
    have hicw3 := hp.getLsbD_icw3 slaveLine
    rw [List.filterMap_cons, hslaveLevel]
    by_cases hasked : p.master.pending = some slaveLine
    · have hchip : p.acknowledge.slave = p.slave.acknowledge :=
        if_pos ⟨hasked, by simpa using hicw3, hp.answers⟩
      rw [if_pos hasked, hchip]
      cases hpending : p.slave.pending <;> simpa [hpending] using hslave
    · have hchip : p.acknowledge.slave = p.slave := if_neg fun h => hasked h.1
      rw [if_neg hasked, hchip]
      exact h.slave

/-- With no request of the slave in service at the master, there is none at the slave. -/
theorem slaveLevels_eq_nil (h : slaveLine ∉ handlers.filterMap Taken.level) :
    handlers.filterMap Taken.slaveLevel = [] := by
  rw [List.filterMap_eq_nil_iff]
  intro t ht
  rw [Option.eq_none_iff_forall_ne_some]
  intro j hj
  exact h (List.mem_filterMap.mpr ⟨t, ht, Taken.level_of_slaveLevel hj⟩)

/-- The end of the interrupt that came last, at the chips that it is in service at. -/
theorem InService.finish (h : p.InService (t :: handlers))
    (ht : t.level = none → handlers.filterMap Taken.level = []) :
    Nested p.master.eoi.isr (handlers.filterMap Taken.level) ∧
      Nested (if 8 ≤ t.irq.val then p.slave.eoi.isr else p.slave.isr)
        (handlers.filterMap Taken.slaveLevel) := by
  have hmaster := h.master
  have hslave := h.slave
  rw [List.filterMap_cons] at hmaster hslave
  have hend := hmaster.eoi
  have hslaveEnd := hslave.eoi
  cases t with
  | request i =>
    refine ⟨hend, ?_⟩
    by_cases hi : 8 ≤ i.val
    · simp only [Taken.slaveLevel, dif_pos hi] at hslaveEnd
      exact (if_pos hi).symm ▸ hslaveEnd
    · simp only [Taken.slaveLevel, dif_neg hi] at hslave
      exact (if_neg hi).symm ▸ hslave
  | spurious i =>
    by_cases hi : i.val < 8
    · have hlevel : (Taken.spurious i).level = none := if_pos hi
      rw [hlevel] at hmaster hend
      have hnil := ht hlevel
      rw [hnil] at hend ⊢
      exact ⟨hend, (if_neg (not_le.mpr hi)).symm ▸ hslave⟩
    · have hlevel : (Taken.spurious i).level = some slaveLine := if_neg hi
      rw [hlevel] at hmaster hend
      -- The slave has nothing in service whose level at the master were there twice.
      have hnil := slaveLevels_eq_nil fun hmem =>
        lt_irrefl _ (List.rel_of_pairwise_cons hmaster.sorted hmem)
      refine ⟨hend, ?_⟩
      have hslave' : Nested p.slave.eoi.isr (handlers.filterMap Taken.slaveLevel).tail :=
        hslaveEnd
      rw [hnil] at hslave' ⊢
      exact (if_pos (not_lt.mp hi)).symm ▸ hslave'

/-- A non-specific end that stands for no level ends the first one. -/
theorem InService.eoi_nested_iff (h : p.InService handlers) :
    Nested p.master.eoi.isr (handlers.filterMap Taken.level) ↔
      handlers.filterMap Taken.level = [] := by
  constructor
  · intro hend
    have htail := h.master.eoi.unique hend
    cases hlevels : handlers.filterMap Taken.level with
    | nil => rfl
    | cons i levels =>
      rw [hlevels] at htail
      simp at htail
  · intro hnil
    have hend := h.master.eoi
    rwa [hnil] at hend ⊢

end Pair

end I8259
