import KessOS.Cache.Coherence
import KessOS.Vmm.Basic
import Mathlib.Logic.Relation

/-!
# The memory manager beside the TLB

The TLB holds translations, and at any moment the processor may add the one that the current walk
of a page gives.  A step of the system is one operation of the memory manager with such fills
between its single accesses to memory.
-/

namespace KessOS

open Trace

/-- A page of the 2^48 bytes that the tables translate. -/
abbrev Page := Fin (512 ^ 4)

/-- The translation that the tables give for a page. -/
def walkPage (pml4 : Addr) (m : PhysMem) (page : Page) : Option Translation :=
  walk m pml4 (frameAddr page)

/-- The page whose translation an event drops from the TLB. -/
def Event.flushes : Event → Option Page
  | .invlpg addr => some (Fin.ofNat _ (pfn addr))
  | _ => none

/-- The memory manager, and the translations that the TLB holds. -/
structure System where
  vmm : Vmm
  tlb : Set (Page × Translation)

/-- An operation that returns; `idle` is none at all. -/
inductive Op
  | mapPage (addr : Addr) (flags : BitVec 32)
  | unmapPage (addr : Addr) (ret : BitVec 8)
  | idle

/-- The operations under consideration. -/
def Op.Allowed (pml4 : Addr) (m : PhysMem) : Op → Prop
  | .mapPage addr flags => addr.toNat < 2 ^ 48 ∧ FlagsOk flags
  | .unmapPage addr _ => addr.toNat < 2 ^ 48 ∧ addr % 0x1000 = 0 ∧ UpperPresent m pml4 addr
  | .idle => True

/-- The operation takes the memory manager from `s` to `s'`. -/
def Op.Runs (pml4 : Addr) (s s' : Vmm) : Op → Prop
  | .mapPage addr flags => (KessOS.mapPage pml4 addr flags).run s = .ok () s'
  | .unmapPage addr ret => (KessOS.unmapPage pml4 addr).run s = .ok ret s'
  | .idle => s' = s

/-- One operation, with fills of the TLB at any moments before, during and after it. -/
structure System.Step (pml4 : Addr) (op : Op) (σ σ' : System) : Prop where
  allowed : op.Allowed pml4 σ.vmm.mem
  runs : op.Runs pml4 σ.vmm σ'.vmm
  ticks : ∃ τ, σ'.vmm.trace = σ.vmm.trace ++ Cache.codes τ ∧
    σ'.tlb = (replay (Cache.tick (walkPage pml4) Event.act Event.flushes) τ
      (σ.vmm.mem, σ.tlb)).2

/-- Any number of operations. -/
def System.Run (pml4 : Addr) (σ σ' : System) : Prop :=
  Relation.ReflTransGen (fun σ σ' => ∃ op, System.Step pml4 op σ σ') σ σ'

end KessOS
