import KessOS.Video.Equiv.Console

/-!
# What is added to the trace

The kernel only ever adds to its trace: what its logs type, and the accesses it makes besides.
`Kernel.Ran` follows both from one kernel to the next, up to the order in which they come.
-/

namespace KessOS

open Trace

variable {mem : PhysMem} {k k' k'' : Kernel} {as as' : List Access} {a : Access}
  {logs logs' : List (String × Status)}

theorem since_of_trace (h : k'.trace = k.trace ++ as) : k.since k' = as := by
  rw [Kernel.since, h, List.drop_left]

theorem trace_eq_since (h : k.trace <+: k'.trace) : k'.trace = k.trace ++ k.since k' := by
  obtain ⟨as, has⟩ := h
  rw [since_of_trace has.symm, has]

/-- What was done, in two parts. -/
theorem since_append (h : k.trace <+: k'.trace) (h' : k'.trace <+: k''.trace) :
    k.since k'' = k.since k' ++ k'.since k'' := by
  refine since_of_trace ?_
  rw [trace_eq_since h', trace_eq_since h, List.append_assoc]

/-- What logs type, each with its status. -/
def typedLogs (logs : List (String × Status)) : List (BitVec 32 × BitVec 8) :=
  logs.flatMap fun l => logged l.1 l.2

theorem typedLogs_append (logs logs' : List (String × Status)) :
    typedLogs (logs ++ logs') = typedLogs logs ++ typedLogs logs' := List.flatMap_append

/-- From `k` to `k'` there were these logs, and these accesses besides. -/
structure Kernel.Ran (mem : PhysMem) (logs : List (String × Status)) (as : List Access)
    (k k' : Kernel) : Prop where
  before : k.trace <+: k'.trace
  perm : (k.since k').Perm
    (outputs Canvas.act (Canvas.out mem) k.canvas (typedLogs logs) ++ as)
  canvas : k'.canvas = replay Canvas.act (typedLogs logs) k.canvas

namespace Kernel.Ran

theorem refl (mem : PhysMem) (k : Kernel) : k.Ran mem [] [] k where
  before := List.prefix_refl _
  perm := by
    rw [since_of_trace (List.append_nil _).symm]
    exact List.Perm.refl _
  canvas := rfl

/-- The other globals may change. -/
theorem withGlobals (h : k.Ran mem logs as k') (flags : BitVec 8) (rsdt madt : Addr) :
    k.Ran mem logs as { k' with kernFlags := flags, rsdt := rsdt, apicMadt := madt } :=
  ⟨h.before, h.perm, h.canvas⟩

/-- One run after another. -/
theorem trans (h : k.Ran mem logs as k') (h' : k'.Ran mem logs' as' k'') :
    k.Ran mem (logs ++ logs') (as ++ as') k'' where
  before := h.before.trans h'.before
  perm := by
    rw [since_append h.before h'.before, typedLogs_append, outputs_append, ← h.canvas]
    refine (h.perm.append h'.perm).trans ?_
    simp only [List.append_assoc]
    exact List.perm_append_comm_assoc .. |>.append_left _
  canvas := by rw [h'.canvas, h.canvas, typedLogs_append, replay_append]

theorem did (h : k.Ran mem logs as k') (as' : List Access) :
    k.Ran mem logs (as ++ as') (k'.did as') := by
  have hdid : k'.Ran mem [] as' (k'.did as') := by
    refine ⟨List.prefix_append .., ?_, rfl⟩
    rw [since_of_trace (did_trace k' as')]
    exact List.Perm.refl _
  simpa using h.trans hdid

theorem log (h : k.Ran mem logs as k') (format : String) (status : Status) :
    k.Ran mem (logs ++ [(format, status)]) as (k'.log mem format status) := by
  have hlogged : typedLogs [(format, status)] = logged format status := List.append_nil _
  have hlog : k'.Ran mem [(format, status)] [] (k'.log mem format status) := by
    refine ⟨⟨_, (log_trace ..).symm⟩, ?_, by rw [log_canvas, hlogged]⟩
    rw [since_of_trace (log_trace ..), hlogged, List.append_nil]
  simpa using h.trans hlog

theorem mem_iff (h : k.Ran mem logs as k') : a ∈ k.since k' ↔
    a ∈ outputs Canvas.act (Canvas.out mem) k.canvas (typedLogs logs) ∨ a ∈ as := by
  rw [h.perm.mem_iff, List.mem_append]

end Kernel.Ran

end KessOS
