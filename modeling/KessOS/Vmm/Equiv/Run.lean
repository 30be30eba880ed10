import KessOS.Monad.EState
import KessOS.Vmm.Basic

/-!
# Runs of the primitives

What each primitive of the memory manager does to the state, as equations.  `Vmm.recordAll` is the
state after a list of events; its memory is `Trace.replay` of the list.
-/

namespace KessOS

open Trace

/-! ### Recording events -/

/-- The state after the events `es`. -/
def Vmm.recordAll (s : Vmm) (es : List Event) : Vmm :=
  { s with mem := replay Event.act es s.mem, trace := s.trace ++ es }

@[simp] theorem recordAll_mem (s : Vmm) (es : List Event) :
    (s.recordAll es).mem = replay Event.act es s.mem := rfl

@[simp] theorem recordAll_trace (s : Vmm) (es : List Event) :
    (s.recordAll es).trace = s.trace ++ es := rfl

@[simp] theorem recordAll_cr3 (s : Vmm) (es : List Event) : (s.recordAll es).cr3 = s.cr3 := rfl

@[simp] theorem recordAll_placement (s : Vmm) (es : List Event) :
    (s.recordAll es).placement = s.placement := rfl

@[simp] theorem recordAll_segmentUsable (s : Vmm) (es : List Event) :
    (s.recordAll es).segmentUsable = s.segmentUsable := rfl

@[simp] theorem recordAll_nil (s : Vmm) : s.recordAll [] = s := by
  simp [Vmm.recordAll]

theorem record_recordAll (s : Vmm) (ev : Event) (es : List Event) :
    (s.record ev).recordAll es = s.recordAll (ev :: es) := by
  simp [Vmm.record, Vmm.recordAll]

theorem forM_perform {ι : Type} (f : ι → Event) (l : List ι) (s : Vmm) :
    (l.forM fun i => perform (f i) : VmmM Unit).run s = .ok () (s.recordAll (l.map f)) := by
  induction l generalizing s with
  | nil =>
    rw [List.map_nil, recordAll_nil]
    rfl
  | cons i l ih =>
    have hstep : (perform (f i)).run s = .ok () (s.record (f i)) := rfl
    rw [EStateM.run_forM_cons_of_ok (f := fun i => perform (f i)) hstep, ih, record_recordAll,
      List.map_cons]

/-! ### The primitives -/

theorem loadEntry_run (table : Addr) (idx : Fin 512) (s : Vmm) :
    (loadEntry table idx).run s = .ok (s.mem (pfn table) idx) (s.record (.read table idx)) := rfl

theorem storeEntry_run (table : Addr) (idx : Fin 512) (e : Entry) (s : Vmm) :
    (storeEntry table idx e).run s = .ok () (s.record (.write table idx e)) := rfl

/-- The events of `memzero(table, PAGE_SIZE)`. -/
def zeroing (table : Addr) : List Event :=
  (List.range pageSize).map fun i => .writeByte (table + BitVec.ofNat 64 i) 0

theorem memzero_run (table : Addr) (s : Vmm) :
    (memzero table pageSize).run s = .ok () (s.recordAll (zeroing table)) :=
  forM_perform _ _ s

section Zeroing

variable {table : Addr} (haligned : table.toNat = pageSize * pfn table)

include haligned

/-- The bytes that `memzero` goes through lie in one frame. -/
theorem toNat_add_offset {i : ℕ} (hi : i < pageSize) :
    (table + BitVec.ofNat 64 i).toNat = pageSize * pfn table + i := by
  have hlt := table.isLt
  rw [BitVec.toNat_add, BitVec.toNat_ofNat]
  unfold pageSize at haligned hi ⊢
  omega

theorem pfn_add_offset {i : ℕ} (hi : i < pageSize) :
    pfn (table + BitVec.ofNat 64 i) = pfn table := by
  rw [pfn, toNat_add_offset haligned hi, Nat.mul_add_div (by decide), Nat.div_eq_of_lt hi,
    Nat.add_zero]

theorem getLsbD_replay_zeroing (m : PhysMem) (i : Fin 512) {k : ℕ} (hk : k < 64) {n : ℕ}
    (hn : n ≤ pageSize) :
    (replay Event.act ((List.range n).map fun j => .writeByte (table + BitVec.ofNat 64 j) 0) m
        (pfn table) i).getLsbD k =
      ((m (pfn table) i).getLsbD k && decide (n ≤ 8 * i.val + k / 8)) := by
  -- The `n`-th store clears byte `n`, which is byte `n % 8` of entry `n / 8`.
  induction n with
  | zero => simp
  | succ n ih =>
    have hn' : n < pageSize := hn
    have hmod : (table + BitVec.ofNat 64 n).toNat % pageSize = n := by
      rw [toNat_add_offset haligned hn', Nat.mul_add_mod, Nat.mod_eq_of_lt hn']
    have hbyte := getLsbD_storeByte_zero (replay Event.act ((List.range n).map fun j =>
      .writeByte (table + BitVec.ofNat 64 j) 0) m) (table + BitVec.ofNat 64 n) i hk
    rw [pfn_add_offset haligned hn', hmod, ih hn'.le] at hbyte
    rw [List.range_succ, List.map_append, replay_append]
    refine hbyte.trans ?_
    rw [Bool.and_assoc, ← Bool.decide_and]
    congr 1
    apply decide_eq_decide.mpr
    omega

theorem replay_zeroing_off (m : PhysMem) {u : ℕ} (hu : u ≠ pfn table) {n : ℕ}
    (hn : n ≤ pageSize) :
    replay Event.act ((List.range n).map fun j => .writeByte (table + BitVec.ofNat 64 j) 0) m u =
      m u := by
  induction n with
  | zero => rfl
  | succ n ih =>
    have hpfn := pfn_add_offset haligned (Nat.lt_of_succ_le hn)
    rw [List.range_succ, List.map_append, replay_append]
    refine (storeByte_of_ne _ ?_ _).trans (ih (by omega))
    rwa [hpfn]

/-- After `memzero` the frame is zero and the other frames are as before. -/
theorem replay_zeroing (m : PhysMem) :
    replay Event.act (zeroing table) m = Function.update m (pfn table) fun _ => 0#64 := by
  have hpage : pageSize = 4096 := rfl
  funext u
  by_cases hu : u = pfn table
  · subst hu
    funext i
    rw [Function.update_self]
    apply BitVec.eq_of_getLsbD_eq
    intro k hk
    have hlt : ¬ pageSize ≤ 8 * i.val + k / 8 := by omega
    rw [zeroing, getLsbD_replay_zeroing haligned m i hk le_rfl, decide_eq_false hlt, Bool.and_false]
    exact BitVec.getLsbD_zero.symm
  · rw [Function.update_of_ne hu]
    exact replay_zeroing_off haligned m hu le_rfl

end Zeroing

/-- The state after `internel_alloc_page` takes a frame. -/
def Vmm.takeFrame (s : Vmm) : Vmm :=
  { s with
    segmentUsable := s.segmentUsable - 1
    placement := s.placement + BitVec.ofNat 64 pageSize
    trace := s.trace ++ [.alloc s.placement] }

@[simp] theorem takeFrame_mem (s : Vmm) : s.takeFrame.mem = s.mem := by
  rw [Vmm.takeFrame]

@[simp] theorem takeFrame_trace (s : Vmm) :
    s.takeFrame.trace = s.trace ++ [.alloc s.placement] := by
  rw [Vmm.takeFrame]

@[simp] theorem takeFrame_cr3 (s : Vmm) : s.takeFrame.cr3 = s.cr3 := by
  rw [Vmm.takeFrame]

theorem internelAllocPage_run (s : Vmm) :
    internelAllocPage.run s =
      if s.segmentUsable ≤ 0 then .error .outOfMemory s else .ok s.placement s.takeFrame := by
  unfold internelAllocPage
  have hget : (get : VmmM Vmm).run s = .ok s s := rfl
  rw [EStateM.run_bind_of_ok hget]
  split_ifs with h
  · rfl
  · rfl

end KessOS
