import KessOS.Acpi.Equiv.Since

/-!
# Correctness of `strncmp`

The loop of `strncmp` looks at the pointers and not at the characters, so it goes on behind the
`NUL` of two strings that are the same.  It compares prefixes, and stays within the strings, unless
that happens (`strncmp_comparesPrefix_iff`).
-/

namespace KessOS

open StateM

variable {mem : PhysMem}

/-! ### The comparison of C -/

/-- `strncmp` of the C library. -/
def cStrncmp : List (BitVec 8) → List (BitVec 8) → ℕ → ℤ
  | _, _, 0 => 0
  | [], [], _ + 1 => 0
  | [], d :: _, _ + 1 => -(d.toNat : ℤ)
  | c :: _, [], _ + 1 => c.toNat
  | c :: s, d :: t, n + 1 => if c = d then cStrncmp s t n else c.toNat - d.toNat

/-- It finds no difference if the strings agree up to their first `n` characters. -/
theorem cStrncmp_eq_zero {s t : List (BitVec 8)} (hs : ∀ c ∈ s, c ≠ 0) (ht : ∀ c ∈ t, c ≠ 0)
    {n : ℕ} : cStrncmp s t n = 0 ↔ s.take n = t.take n := by
  induction n generalizing s t with
  | zero => cases s <;> cases t <;> simp [cStrncmp]
  | succ n ih =>
    have hpos : ∀ {c : BitVec 8}, c ≠ 0 → c.toNat ≠ 0 := fun hc h => hc (BitVec.toNat_inj.mp h)
    cases s with
    | nil =>
      cases t with
      | nil => simp [cStrncmp]
      | cons d t =>
        have hd := hpos (ht d List.mem_cons_self)
        simp [cStrncmp, hd]
    | cons c s =>
      cases t with
      | nil =>
        have hc := hpos (hs c List.mem_cons_self)
        simp [cStrncmp, hc]
      | cons d t =>
        have hrest := ih (fun c hc => hs c (List.mem_cons_of_mem _ hc))
          (fun c hc => ht c (List.mem_cons_of_mem _ hc))
        rw [cStrncmp, List.take_succ_cons, List.take_succ_cons, List.cons.injEq]
        split_ifs with hcd
        · rw [hrest]
          exact ⟨fun h => ⟨hcd, h⟩, fun h => h.2⟩
        · have hne : c.toNat ≠ d.toNat := fun h => hcd (BitVec.toNat_inj.mp h)
          exact iff_of_false (by omega) fun h => hcd h.1

/-- Two strings that are not the same differ somewhere, perhaps at the end of one of them. -/
theorem exists_difference {s t : List (BitVec 8)} (hs : ∀ c ∈ s, c ≠ 0) (ht : ∀ c ∈ t, c ≠ 0)
    (h : s ≠ t) : ∃ d, d ≤ s.length ∧ d ≤ t.length ∧ (∀ j < d, s.getD j 0 = t.getD j 0) ∧
      s.getD d 0 ≠ t.getD d 0 ∧ ∀ n, s.take n = t.take n ↔ n ≤ d := by
  induction s generalizing t with
  | nil =>
    cases t with
    | nil => exact absurd rfl h
    | cons d t =>
      refine ⟨0, le_rfl, Nat.zero_le _, fun j hj => absurd hj (Nat.not_lt_zero j),
        (ht d List.mem_cons_self).symm, fun n => ?_⟩
      cases n <;> simp
  | cons c s ih =>
    cases t with
    | nil =>
      refine ⟨0, Nat.zero_le _, le_rfl, fun j hj => absurd hj (Nat.not_lt_zero j),
        hs c List.mem_cons_self, fun n => ?_⟩
      cases n <;> simp
    | cons d t =>
      by_cases hcd : c = d
      · obtain ⟨i, his, hit, hsame, hdiffer, htake⟩ := ih
          (fun c hc => hs c (List.mem_cons_of_mem _ hc))
          (fun c hc => ht c (List.mem_cons_of_mem _ hc)) fun heq => h (by rw [hcd, heq])
        refine ⟨i + 1, Nat.succ_le_succ his, Nat.succ_le_succ hit, fun j hj => ?_, hdiffer,
          fun n => ?_⟩
        · cases j with
          | zero => exact hcd
          | succ j => exact hsame j (Nat.lt_of_succ_lt_succ hj)
        · cases n with
          | zero => simp
          | succ n => simp [hcd, htake n]
      · refine ⟨0, Nat.zero_le _, Nat.zero_le _, fun j hj => absurd hj (Nat.not_lt_zero j), hcd,
          fun n => ?_⟩
        cases n <;> simp [hcd]

/-! ### The loop -/

/-- The loop gets to compare the characters at `i`. -/
def Reaches (mem : PhysMem) (a₁ a₂ : Addr) (i : ℕ) : Prop :=
  (∀ j < i + 1, a₁ + BitVec.ofNat 64 j ≠ 0) ∧ (∀ j < i + 1, a₂ + BitVec.ofNat 64 j ≠ 0) ∧
    ∀ j < i, bytesAt mem a₁ j = bytesAt mem a₂ j

section Loop

variable {a₁ a₂ : Addr} {w₁ w₂ : Handed}

theorem reaches_zero : Reaches mem a₁ a₂ 0 ↔ a₁ ≠ 0 ∧ a₂ ≠ 0 := by
  unfold Reaches
  rw [forall_ptr_succ, forall_ptr_succ]
  simp

theorem bytesAt_zero (a : Addr) : bytesAt mem a 0 = loadByte mem a :=
  congrArg (loadByte mem) (BitVec.add_zero a)

theorem bytesAt_succ (a : Addr) (i : ℕ) : bytesAt mem a (i + 1) = bytesAt mem (a + 1) i :=
  congrArg (loadByte mem) (add_one_add_ofNat a i).symm

theorem bytesAt_from (a : Addr) : (bytesAt mem a).from 1 = bytesAt mem (a + 1) := by
  funext i
  rw [← bytesAt_succ, Nat.add_comm]
  rfl

theorem reaches_succ {i : ℕ} : Reaches mem a₁ a₂ (i + 1) ↔
    (a₁ ≠ 0 ∧ a₂ ≠ 0) ∧ loadByte mem a₁ = loadByte mem a₂ ∧ Reaches mem (a₁ + 1) (a₂ + 1) i := by
  unfold Reaches
  rw [forall_ptr_succ (a := a₁), forall_ptr_succ (a := a₂), forall_bytesAt_succ, bytesAt_zero,
    bytesAt_from]
  tauto

/-- A round of the loop. -/
theorem strncmp_handed_succ (mem : PhysMem) (w₁ w₂ : Handed) (h₁ : a₁ ≠ 0) (h₂ : a₂ ≠ 0) (n : ℕ)
    (k : Kernel) :
    (strncmp mem (.handed w₁ a₁) (.handed w₂ a₂) (n + 1)).run k =
      if loadByte mem a₁ = loadByte mem a₂ then
        (strncmp mem (.handed w₁ (a₁ + 1)) (.handed w₂ (a₂ + 1)) n).run
          (k.did [.read w₁ a₁ 1, .read w₂ a₂ 1])
      else (0, k.did [.read w₁ a₁ 1, .read w₂ a₂ 1]) := by
  have hnull : (CharPtr.isNull (.handed w₁ a₁) || CharPtr.isNull (.handed w₂ a₂)) = false := by
    simpa [CharPtr.isNull] using ⟨h₁, h₂⟩
  rw [strncmp, hnull, if_neg Bool.false_ne_true, CharPtr.deref, run_bind_of_eq (readByte_run ..),
    CharPtr.deref, run_bind_of_eq (readByte_run ..), did_did]
  by_cases h : loadByte mem a₁ = loadByte mem a₂
  · rw [if_neg (not_not.mpr h), if_pos h]
    rfl
  · rw [if_pos h, if_neg h]
    rfl

/-- A null pointer ends the loop. -/
theorem strncmp_handed_null (h : ¬ (a₁ ≠ 0 ∧ a₂ ≠ 0)) (n : ℕ) (k : Kernel) :
    (strncmp mem (.handed w₁ a₁) (.handed w₂ a₂) (n + 1)).run k = (1, k) := by
  have hnull : (CharPtr.isNull (.handed w₁ a₁) || CharPtr.isNull (.handed w₂ a₂)) = true := by
    by_contra hne
    exact h (by simpa [CharPtr.isNull] using hne)
  rw [strncmp, hnull, if_pos rfl]
  rfl

/-- **What `strncmp` does**: it compares the characters that it reaches, and reads no others. -/
theorem strncmp_handed_run (mem : PhysMem) (w₁ w₂ : Handed) (a₁ a₂ : Addr) (n : ℕ) (k : Kernel) :
    ∃ r reads, (strncmp mem (.handed w₁ a₁) (.handed w₂ a₂) n).run k = (r, k.did reads) ∧
      (r = 1 ↔ ∀ i < n, Reaches mem a₁ a₂ i → bytesAt mem a₁ i = bytesAt mem a₂ i) ∧
      ∀ x, x ∈ reads ↔ ∃ i < n, Reaches mem a₁ a₂ i ∧
        (x = .read w₁ (a₁ + BitVec.ofNat 64 i) 1 ∨ x = .read w₂ (a₂ + BitVec.ofNat 64 i) 1) := by
  induction n generalizing a₁ a₂ k with
  | zero => exact ⟨1, [], by rw [did_nil]; rfl, by simp, by simp⟩
  | succ n ih =>
    have hzero : ∀ a : Addr, a + BitVec.ofNat 64 0 = a := fun a => BitVec.add_zero a
    simp only [Nat.forall_lt_succ_left, Nat.exists_lt_succ_left, reaches_zero, reaches_succ,
      bytesAt_zero, bytesAt_succ, hzero, ← add_one_add_ofNat]
    by_cases hnull : a₁ ≠ 0 ∧ a₂ ≠ 0
    · have hstep := strncmp_handed_succ mem w₁ w₂ hnull.1 hnull.2 n k
      have htrue := eq_true hnull
      by_cases hsame : loadByte mem a₁ = loadByte mem a₂
      · rw [if_pos hsame] at hstep
        obtain ⟨r, reads, hrun, hresult, hreads⟩ := ih (a₁ + 1) (a₂ + 1)
          (k.did [.read w₁ a₁ 1, .read w₂ a₂ 1])
        refine ⟨r, _, by rw [hstep, hrun, did_did], ?_, fun x => ?_⟩
        · simp only [hresult, htrue, hsame, true_and, implies_true]
        · simp only [List.mem_append, hreads, htrue, hsame, true_and, List.mem_cons,
            List.not_mem_nil, or_false]
      · rw [if_neg hsame] at hstep
        refine ⟨0, _, hstep, iff_of_false (by decide) fun h => hsame (h.1 hnull), fun x => ?_⟩
        simp only [htrue, hsame, true_and, false_and, and_false, exists_false, List.mem_cons,
          List.not_mem_nil, or_false]
    · have hfalse := eq_false hnull
      refine ⟨1, [], by rw [strncmp_handed_null hnull, did_nil], ?_, fun x => ?_⟩
      · simp only [hfalse, false_and, false_implies, implies_true, and_self]
      · simp only [hfalse, false_and, and_false, exists_false, or_self, List.not_mem_nil]

end Loop

/-! ### Strings -/

/-- A string with its `NUL`, in memory from `a` on. -/
structure StringAt (mem : PhysMem) (a : Addr) (s : List (BitVec 8)) : Prop where
  nonNull : a ≠ 0
  fits : a.toNat + s.length < 2 ^ 64
  byte : ∀ i (hi : i < s.length), bytesAt mem a i = s[i]
  nul : bytesAt mem a s.length = 0
  chars : ∀ c ∈ s, c ≠ 0

namespace StringAt

variable {a : Addr} {s : List (BitVec 8)}

theorem bytesAt_eq (h : StringAt mem a s) {i : ℕ} (hi : i ≤ s.length) :
    bytesAt mem a i = s.getD i 0 := by
  rcases Nat.lt_or_eq_of_le hi with hlt | rfl
  · rw [h.byte i hlt, List.getD_eq_getElem _ _ hlt]
  · rw [h.nul, List.getD_eq_default _ _ le_rfl]

/-- No pointer into the string is `NULL`. -/
theorem ptr_ne (h : StringAt mem a s) {i : ℕ} (hi : a.toNat + i < 2 ^ 64) :
    a + BitVec.ofNat 64 i ≠ 0 := by
  intro hnull
  have hzero := congrArg BitVec.toNat hnull
  have hne : a.toNat ≠ 0 := fun h0 => h.nonNull (BitVec.toNat_inj.mp h0)
  rw [BitVec.toNat_add, BitVec.toNat_ofNat] at hzero
  change (a.toNat + i % 2 ^ 64) % 2 ^ 64 = 0 at hzero
  omega

/-- The pointer behind the string may be. -/
theorem ptr_behind (hend : a.toNat + s.length + 1 = 2 ^ 64) :
    a + BitVec.ofNat 64 (s.length + 1) = 0 := by
  rw [← BitVec.toNat_inj, BitVec.toNat_add, BitVec.toNat_ofNat]
  show (a.toNat + (s.length + 1) % 2 ^ 64) % 2 ^ 64 = 0
  omega

end StringAt

/-- What a call returns says whether the strings agree up to their first `n` characters, and it
reads no byte behind the `NUL` of either. -/
structure ComparesPrefix (s₁ s₂ : List (BitVec 8)) (w₁ w₂ : Handed) (a₁ a₂ : Addr) (n : ℕ)
    (result : BitVec 8) (reads : List Access) : Prop where
  result : result = 1 ↔ cStrncmp s₁ s₂ n = 0
  first : ∀ a size, .read w₁ a size ∈ reads → ∃ i ≤ s₁.length, a = a₁ + BitVec.ofNat 64 i
  second : ∀ a size, .read w₂ a size ∈ reads → ∃ i ≤ s₂.length, a = a₂ + BitVec.ofNat 64 i

section Law

variable {s₁ s₂ : List (BitVec 8)} {w₁ w₂ : Handed} {a₁ a₂ : Addr} {n : ℕ}

/-- It is enough that the rounds that are reached are rounds within both strings. -/
theorem comparesPrefix_of_within (hw : w₁ ≠ w₂) {r : BitVec 8} {reads : List Access}
    (hresult : r = 1 ↔ cStrncmp s₁ s₂ n = 0)
    (hreads : ∀ x, x ∈ reads ↔ ∃ i < n, Reaches mem a₁ a₂ i ∧
      (x = .read w₁ (a₁ + BitVec.ofNat 64 i) 1 ∨ x = .read w₂ (a₂ + BitVec.ofNat 64 i) 1))
    (hwithin : ∀ i < n, Reaches mem a₁ a₂ i → i ≤ s₁.length ∧ i ≤ s₂.length) :
    ComparesPrefix s₁ s₂ w₁ w₂ a₁ a₂ n r reads where
  result := hresult
  first a size hread := by
    obtain ⟨i, hi, hreach, heq | heq⟩ := (hreads _).mp hread
    · exact ⟨i, (hwithin i hi hreach).1, (Access.read.inj heq).2.1⟩
    · exact absurd (Access.read.inj heq).1 hw
  second a size hread := by
    obtain ⟨i, hi, hreach, heq | heq⟩ := (hreads _).mp hread
    · exact absurd (Access.read.inj heq).1.symm hw
    · exact ⟨i, (hwithin i hi hreach).2, (Access.read.inj heq).2.1⟩

variable (h₁ : StringAt mem a₁ s₁) (h₂ : StringAt mem a₂ s₂)

include h₁ h₂

/-- Within the strings a round is reached if the characters before agree. -/
theorem reaches_iff_of_le {i : ℕ} (hi₁ : i ≤ s₁.length) (hi₂ : i ≤ s₂.length) :
    Reaches mem a₁ a₂ i ↔ ∀ j < i, s₁.getD j 0 = s₂.getD j 0 := by
  have hfits₁ := h₁.fits
  have hfits₂ := h₂.fits
  have hbytes : (∀ j < i, bytesAt mem a₁ j = bytesAt mem a₂ j) ↔
      ∀ j < i, s₁.getD j 0 = s₂.getD j 0 := by
    refine forall₂_congr fun j hj => ?_
    rw [h₁.bytesAt_eq (by omega), h₂.bytesAt_eq (by omega)]
  unfold Reaches
  rw [hbytes]
  exact ⟨fun h => h.2.2, fun h => ⟨fun j hj => h₁.ptr_ne (by omega),
    fun j hj => h₂.ptr_ne (by omega), h⟩⟩

/-- Two different strings: the loop ends where they differ. -/
theorem comparesPrefix_of_ne (hw : w₁ ≠ w₂) (hne : s₁ ≠ s₂) (k : Kernel) :
    ∃ r reads, (strncmp mem (.handed w₁ a₁) (.handed w₂ a₂) n).run k = (r, k.did reads) ∧
      ComparesPrefix s₁ s₂ w₁ w₂ a₁ a₂ n r reads := by
  obtain ⟨r, reads, hrun, hresult, hreads⟩ := strncmp_handed_run mem w₁ w₂ a₁ a₂ n k
  obtain ⟨d, hd₁, hd₂, hsame, hdiffer, htake⟩ := exists_difference h₁.chars h₂.chars hne
  have hdiffer' : bytesAt mem a₁ d ≠ bytesAt mem a₂ d := by
    rwa [h₁.bytesAt_eq hd₁, h₂.bytesAt_eq hd₂]
  have hstop : ∀ i, Reaches mem a₁ a₂ i → i ≤ d := by
    intro i hreach
    by_contra hgt
    exact hdiffer' (hreach.2.2 d (by omega))
  refine ⟨r, reads, hrun, comparesPrefix_of_within hw ?_ hreads fun i _ hreach => ?_⟩
  · rw [hresult, cStrncmp_eq_zero h₁.chars h₂.chars, htake]
    constructor
    · intro h
      by_contra hlt
      exact hdiffer' (h d (by omega) ((reaches_iff_of_le h₁ h₂ hd₁ hd₂).mpr hsame))
    · intro hn i hi hreach
      rw [h₁.bytesAt_eq (by omega), h₂.bytesAt_eq (by omega)]
      exact hsame i (by omega)
  · have hle := hstop i hreach
    exact ⟨by omega, by omega⟩

end Law

/-! ### The same string twice -/

section Same

variable {s : List (BitVec 8)} {w₁ w₂ : Handed} {a₁ a₂ : Addr} {n : ℕ}

/-- The loop does not get behind two strings that are the same: it has done its rounds, or there is
a null pointer behind one of them. -/
def Stops (s : List (BitVec 8)) (a₁ a₂ : Addr) (n : ℕ) : Prop :=
  n ≤ s.length + 1 ∨ a₁.toNat + s.length + 1 = 2 ^ 64 ∨ a₂.toNat + s.length + 1 = 2 ^ 64

theorem le_of_reaches (hstops : Stops s a₁ a₂ n) {i : ℕ} (hi : i < n)
    (hreach : Reaches mem a₁ a₂ i) : i ≤ s.length := by
  by_contra hgt
  rcases hstops with hn | hend | hend
  · omega
  · exact hreach.1 (s.length + 1) (by omega) (StringAt.ptr_behind hend)
  · exact hreach.2.1 (s.length + 1) (by omega) (StringAt.ptr_behind hend)

variable (h₁ : StringAt mem a₁ s) (h₂ : StringAt mem a₂ s)

include h₁ h₂

/-- The round behind the `NUL` is reached if there is no null pointer. -/
theorem reaches_behind (hend₁ : a₁.toNat + s.length + 1 ≠ 2 ^ 64)
    (hend₂ : a₂.toNat + s.length + 1 ≠ 2 ^ 64) : Reaches mem a₁ a₂ (s.length + 1) := by
  have hfits₁ := h₁.fits
  have hfits₂ := h₂.fits
  refine ⟨fun j hj => h₁.ptr_ne (by omega), fun j hj => h₂.ptr_ne (by omega), fun j hj => ?_⟩
  rw [h₁.bytesAt_eq (by omega), h₂.bytesAt_eq (by omega)]

/-- The same string twice: the loop goes on behind it unless it has a reason to stop. -/
theorem comparesPrefix_self (hw : w₁ ≠ w₂) (k : Kernel) :
    ∃ r reads, (strncmp mem (.handed w₁ a₁) (.handed w₂ a₂) n).run k = (r, k.did reads) ∧
      (ComparesPrefix s s w₁ w₂ a₁ a₂ n r reads ↔ Stops s a₁ a₂ n) := by
  obtain ⟨r, reads, hrun, hresult, hreads⟩ := strncmp_handed_run mem w₁ w₂ a₁ a₂ n k
  refine ⟨r, reads, hrun, fun hcompares => ?_, fun hstops => ?_⟩
  · by_contra hgoes
    unfold Stops at hgoes
    push Not at hgoes
    obtain ⟨hn, hend₁, hend₂⟩ := hgoes
    have hfits := h₁.fits
    obtain ⟨i, hi, haddr⟩ := hcompares.first _ 1 ((hreads _).mpr
      ⟨s.length + 1, hn, reaches_behind h₁ h₂ hend₁ hend₂, Or.inl rfl⟩)
    have hoffset := congrArg BitVec.toNat (BitVec.add_right_inj a₁ |>.mp haddr)
    rw [BitVec.toNat_ofNat, BitVec.toNat_ofNat, Nat.mod_eq_of_lt (by omega),
      Nat.mod_eq_of_lt (by omega)] at hoffset
    omega
  · have hwithin : ∀ i < n, Reaches mem a₁ a₂ i → i ≤ s.length :=
      fun i hi hreach => le_of_reaches hstops hi hreach
    refine comparesPrefix_of_within hw ?_ hreads fun i hi hreach =>
      ⟨hwithin i hi hreach, hwithin i hi hreach⟩
    rw [hresult, cStrncmp_eq_zero h₁.chars h₂.chars]
    refine iff_of_true (fun i hi hreach => ?_) rfl
    rw [h₁.bytesAt_eq (hwithin i hi hreach), h₂.bytesAt_eq (hwithin i hi hreach)]

end Same

/-! ### The law -/

/-- **Whether `strncmp` compares prefixes**: unless the strings are the same, `n` goes behind their
`NUL`, and what lies behind is not the end of the address space. -/
theorem strncmp_comparesPrefix_iff {s₁ s₂ : List (BitVec 8)} {w₁ w₂ : Handed} {a₁ a₂ : Addr}
    (hw : w₁ ≠ w₂) (h₁ : StringAt mem a₁ s₁) (h₂ : StringAt mem a₂ s₂) (n : BitVec 32)
    (k : Kernel) :
    let ran := (strncmp mem (.handed w₁ a₁) (.handed w₂ a₂) n.toNat).run k
    ComparesPrefix s₁ s₂ w₁ w₂ a₁ a₂ n.toNat ran.1 (k.since ran.2) ↔
      s₁ ≠ s₂ ∨ n.toNat ≤ s₁.length + 1 ∨ a₁.toNat + s₁.length + 1 = 2 ^ 64 ∨
        a₂.toNat + s₂.length + 1 = 2 ^ 64 := by
  intro ran
  have hsince : ∀ reads, k.since (k.did reads) = reads := fun reads => since_of_trace rfl
  by_cases hsame : s₁ = s₂
  · subst hsame
    obtain ⟨r, reads, hrun, hiff⟩ := comparesPrefix_self (n := n.toNat) h₁ h₂ hw k
    rw [show ran = (r, k.did reads) from hrun, hsince, hiff, or_iff_right (not_not.mpr rfl)]
    rfl
  · obtain ⟨r, reads, hrun, hcompares⟩ := comparesPrefix_of_ne (n := n.toNat) h₁ h₂ hw hsame k
    rw [show ran = (r, k.did reads) from hrun, hsince]
    exact iff_of_true hcompares (Or.inl hsame)

/-- `"A"` at `0x1000` and at `0x2000`, with an `X` and a `Y` behind the `NUL`. -/
def twoStrings : PhysMem :=
  storeBytes (storeBytes (fun _ _ => 0) 0x1000 [0x41, 0, 0x58]) 0x2000 [0x41, 0, 0x59]

theorem twoStrings_first : StringAt twoStrings 0x1000 [0x41] :=
  ⟨by decide, by decide, by decide, by decide, by decide⟩

theorem twoStrings_second : StringAt twoStrings 0x2000 [0x41] :=
  ⟨by decide, by decide, by decide, by decide, by decide⟩

/-- Two characters of each are compared rightly. -/
theorem strncmp_comparesPrefix_two :
    let ran := (strncmp twoStrings (.handed .table 0x1000) (.handed .rsdp 0x2000) 2).run blankKernel
    ComparesPrefix [0x41] [0x41] .table .rsdp 0x1000 0x2000 2 ran.1 (blankKernel.since ran.2) :=
  (strncmp_comparesPrefix_iff (by decide) twoStrings_first twoStrings_second 2 blankKernel).mpr
    (Or.inr (Or.inl (by decide)))

/-- With three, the strings differ in what lies behind them. -/
theorem not_strncmp_comparesPrefix_three :
    let ran := (strncmp twoStrings (.handed .table 0x1000) (.handed .rsdp 0x2000) 3).run blankKernel
    ran.1 = 0 ∧ cStrncmp [0x41] [0x41] 3 = 0 ∧
      ¬ ComparesPrefix [0x41] [0x41] .table .rsdp 0x1000 0x2000 3 ran.1
        (blankKernel.since ran.2) := by
  intro ran
  have hresult : ran.1 = 0 := by decide
  have hequal : cStrncmp [0x41] [0x41] 3 = 0 := by decide
  refine ⟨hresult, hequal, fun hcompares => ?_⟩
  rw [hresult] at hcompares
  exact absurd (hcompares.result.mpr hequal) (by decide)

end KessOS
