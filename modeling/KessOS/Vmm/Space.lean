import KessOS.Vmm.Tlb

/-!
# The address space that the memory manager keeps

What `map_page` and `unmap_page` are for, with nothing said of tables: a space has pages that are
mapped to themselves with some flags.  To map a page grants its flags to it, and to the frames that
this takes, unless they are mapped already; to unmap a page takes its flags from it.
-/

namespace KessOS

/-- The first frame that is not taken, and the flags of the pages that are mapped. -/
@[ext] structure Space where
  next : ℕ
  flags : Page → Option (BitVec 64)

/-- Nothing is mapped, and the frames from `base` on are free. -/
def Space.empty (base : ℕ) : Space := ⟨base, fun _ => none⟩

/-- The flags in the entry of a page that a call maps. -/
def leafFlags (flags : BitVec 32) : BitVec 64 := (flags ||| pageBitPPresentFlag).setWidth 64

/-- The page is one that a call on `addr` maps when it takes the frames from `lo` up to `hi`. -/
def Claims (addr : Addr) (lo hi : ℕ) (p : Page) : Prop := p.val = pfn addr ∨ lo ≤ p ∧ p < hi

instance (addr : Addr) (lo hi : ℕ) (p : Page) : Decidable (Claims addr lo hi p) :=
  inferInstanceAs (Decidable (_ ∨ _))

namespace Space

/-- The space after a call of `map_page` that takes some frames. -/
def map (A : Space) (addr : Addr) (flags : BitVec 32) (taken : ℕ) : Space where
  next := A.next + taken
  flags p := (A.flags p).or
    (if Claims addr A.next (A.next + taken) p then some (leafFlags flags) else none)

/-- The space after a call of `unmap_page`. -/
def unmap (A : Space) (addr : Addr) : Space where
  next := A.next
  flags p := if p.val = pfn addr then none else A.flags p

/-- What an operation may do to a space. -/
inductive Step : Op → Space → Space → Prop
  | map {A : Space} (addr : Addr) (flags : BitVec 32) (taken : ℕ) :
    Step (.mapPage addr flags) A (A.map addr flags taken)
  | unmap {A : Space} (addr : Addr) : Step (.unmapPage addr 1) A (A.unmap addr)
  | idle {A : Space} : Step .idle A A

end Space

/-- The space that the tables of a system stand for. -/
def System.space (pml4 : Addr) (σ : System) : Space where
  next := pfn σ.vmm.placement
  flags p := (walkPage pml4 σ.vmm.mem p).map fun t => flagBits t.pte

end KessOS
