import KessOS.Boot.Equiv.Loader
import Mathlib.Data.List.Pairwise
import Mathlib.Order.Interval.Set.Disjoint

/-!
# The image that the loader builds

`ImageBuilt` says that the image in memory is the one the file describes.  The loader never
writes the tail of a segment, it counts pages as if every segment started on a page, and it
computes the length of the table and the number of pages in an `int`; it builds the image exactly
when none of this shows (`LoadsWhole`, `loadKernel_builds_iff`).  A page that is not counted for
its own segment may still be counted for another one: among segments of an ordinary size, for one
that starts in it (`pagesMeet_iff_of_ordinary`).
-/

namespace KessOS

variable {file : List (BitVec 8)} {pool : Bytes}

/-- A file with an accepted header that the reads deliver whole: its `PT_LOAD` ranges are disjoint,
and none is shorter in memory than in the file. -/
structure KernelFile (file : List (BitVec 8)) (pool : Bytes) : Prop where
  accepted : headerBad (fileHeader file) = false
  header : ehdrSize ≤ file.length
  table : (fileHeader file).ePhoff.toNat +
    (fileHeader file).ePhnum.toNat * (fileHeader file).ePhentsize.toNat ≤ file.length
  segment : ∀ phdr ∈ loadHeaders file pool, phdr.pOffset.toNat + phdr.pFilesz.toNat ≤ file.length
  filesz : ∀ phdr ∈ loadHeaders file pool, phdr.pFilesz.toNat ≤ phdr.pMemsz.toNat
  disjoint : (loadHeaders file pool).Pairwise fun p q => Disjoint p.memory q.memory

/-- The loop has looked at the program headers and no other, and memory and the requests are what
the `PT_LOAD` headers ask for. -/
structure ImageBuilt (file : List (BitVec 8)) (pool : Bytes) (l : Loader) : Prop where
  visited : l.visited =
    List.range' 0 (fileHeader file).ePhnum.toNat (fileHeader file).ePhentsize.toNat
  bytes : ∀ phdr ∈ loadHeaders file pool, ∀ k < phdr.pFilesz.toNat,
    file[phdr.pOffset.toNat + k]? = some (l.mem (phdr.pPaddr.toNat + k))
  tail : ∀ phdr ∈ loadHeaders file pool, ∀ k, phdr.pFilesz.toNat ≤ k → k < phdr.pMemsz.toNat →
    l.mem (phdr.pPaddr.toNat + k) = 0
  pages : ∀ phdr ∈ loadHeaders file pool, ∀ a ∈ phdr.memory, ∃ r ∈ l.requests, r.Covers a

/-- The length of the table is not cut off by `int`, and its entries have a length. -/
def TableFits (header : Elf64Ehdr) : Prop :=
  header.ePhnum.toNat = 0 ∨
    0 < header.ePhentsize.toNat ∧ header.ePhnum.toNat * header.ePhentsize.toNat < 2 ^ 31

/-- The number of pages requested for a segment: that of its size alone.  It is an `int`, and a
negative one asks for nearly all of the address space. -/
def Elf64Phdr.pageCount (phdr : Elf64Phdr) : ℕ :=
  let pages := (phdr.pMemsz.toNat + 0xFFF) / 0x1000 % 2 ^ 32
  if pages < 2 ^ 31 then pages else pages + (2 ^ 64 - 2 ^ 32)

/-- The page is among those requested for the segment. -/
def Elf64Phdr.Requests (phdr : Elf64Phdr) (page : ℕ) : Prop :=
  phdr.pPaddr.toNat / 0x1000 ≤ page ∧ page < phdr.pPaddr.toNat / 0x1000 + phdr.pageCount

/-- The page with the last byte of a segment. -/
def Elf64Phdr.lastPage (phdr : Elf64Phdr) : ℕ :=
  (phdr.pPaddr.toNat + phdr.pMemsz.toNat - 1) / 0x1000

/-- The page belongs to the segment and lies behind the pages requested for it. -/
def Elf64Phdr.Lacks (phdr : Elf64Phdr) (page : ℕ) : Prop :=
  phdr.pMemsz.toNat ≠ 0 ∧ phdr.pPaddr.toNat / 0x1000 + phdr.pageCount ≤ page ∧
    page ≤ phdr.lastPage

/-- What is not requested for a segment itself is requested for some other. -/
def PagesMeet (file : List (BitVec 8)) (pool : Bytes) : Prop :=
  ∀ phdr ∈ loadHeaders file pool, ∀ page, phdr.Lacks page →
    ∃ phdr' ∈ loadHeaders file pool, phdr'.Requests page

/-- When the loader builds the image: the tail of every segment is zero before. -/
structure LoadsWhole (file : List (BitVec 8)) (pool : Bytes) (mem : ℕ → BitVec 8) : Prop where
  table : TableFits (fileHeader file)
  tail : ∀ phdr ∈ loadHeaders file pool, ∀ k, phdr.pFilesz.toNat ≤ k → k < phdr.pMemsz.toNat →
    mem (phdr.pPaddr.toNat + k) = 0
  pages : PagesMeet file pool

/-- An `int` that becomes a `UINTN`. -/
theorem toNat_signExtend_int (n : BitVec 32) :
    (n.signExtend 64).toNat =
      if n.toNat < 2 ^ 31 then n.toNat else n.toNat + (2 ^ 64 - 2 ^ 32) := by
  have hlt := n.isLt
  rw [BitVec.toNat_signExtend, BitVec.toNat_setWidth, Nat.mod_eq_of_lt (by omega),
    BitVec.msb_eq_decide]
  by_cases hneg : 2 ^ (32 - 1) ≤ n.toNat
  · rw [decide_eq_true hneg, if_pos rfl, if_neg (by omega)]
  · rw [decide_eq_false hneg, if_neg (by simp), if_pos (by omega), Nat.add_zero]

/-! ### The table -/

theorem tableSize_toNat (header : Elf64Ehdr) :
    (tableSize header).toNat = header.ePhnum.toNat * header.ePhentsize.toNat := by
  have hlt : header.ePhnum.toNat * header.ePhentsize.toNat < 2 ^ 16 * 2 ^ 16 :=
    Nat.mul_lt_mul'' header.ePhnum.isLt header.ePhentsize.isLt
  rw [tableSize, BitVec.toNat_mul, BitVec.toNat_setWidth, BitVec.toNat_setWidth,
    Nat.mod_eq_of_lt (a := header.ePhnum.toNat) (by omega),
    Nat.mod_eq_of_lt (a := header.ePhentsize.toNat) (by omega), Nat.mod_eq_of_lt (by omega)]

theorem TableFits.lt {header : Elf64Ehdr} (h : TableFits header) :
    header.ePhnum.toNat * header.ePhentsize.toNat < 2 ^ 31 := by
  rcases h with hzero | ⟨-, hlt⟩
  · simp [hzero]
  · exact hlt

/-- A table that fits is as long as its entries. -/
theorem TableFits.toInt {header : Elf64Ehdr} (h : TableFits header) :
    (tableSize header).toInt =
      (header.ePhnum.toNat * header.ePhentsize.toNat : ℕ) := by
  have hlt := h.lt
  rw [BitVec.toInt_eq_toNat_of_lt (by rw [tableSize_toNat]; omega), tableSize_toNat]

/-- Of a table that does not fit the loop sees nothing. -/
theorem toInt_nonpos_of_not_fits {header : Elf64Ehdr} (h : ¬ TableFits header) :
    (tableSize header).toInt ≤ 0 := by
  rw [TableFits, not_or, not_and_or, not_lt, not_lt] at h
  obtain ⟨-, hzero | hle⟩ := h
  · have hsize : (tableSize header).toNat = 0 := by
      rw [tableSize_toNat, Nat.le_zero.mp hzero, Nat.mul_zero]
    rw [BitVec.toInt_eq_toNat_cond, hsize]
    simp
  · rw [BitVec.toInt_eq_toNat_cond, tableSize_toNat]
    have hlt := (tableSize header).isLt
    rw [tableSize_toNat] at hlt
    split <;> omega

/-- A table that fits is read whole. -/
theorem TableFits.phdrAt (hfits : TableFits (fileHeader file)) (hfile : KernelFile file pool)
    (header : Bytes) (mem : ℕ → BitVec 8) {i : ℕ} :
    (tableRead file header pool mem).phdrAt (i * (fileHeader file).ePhentsize.toNat) =
      programHeader file pool i := by
  have hsize : ((tableSize (fileHeader file)).signExtend 64).toNat =
      (fileHeader file).ePhnum.toNat * (fileHeader file).ePhentsize.toNat := by
    have hlt := hfits.lt
    rw [toNat_signExtend_int, tableSize_toNat, if_pos hlt]
  have hlen : (tableBlock file).cells.length =
      (fileHeader file).ePhnum.toNat * (fileHeader file).ePhentsize.toNat := by
    have hend := hfile.table
    rw [tableBlock, List.length_take, List.length_drop, hsize]
    omega
  -- Within the table the bytes are the file's, behind it still those of the pool.
  have htable : (tableBlock file).put pool = tableBytes file pool := by
    funext k
    rw [tableBytes]
    split
    · next hk =>
      have hput := (tableBlock file).put_at pool (k := k) (by omega)
      rw [show (tableBlock file).dst = 0 from rfl, Nat.zero_add] at hput
      rw [hput, byteOf, List.getD_eq_getElem _ _ (by have := hfile.table; omega)]
      simp [tableBlock]
    · next hk =>
      refine (tableBlock file).put_of_notMem pool ?_
      rw [Copy.Block.range, hlen, Set.mem_Ico, not_and, not_lt]
      intro
      exact (Nat.zero_add _).trans_le (not_lt.mp hk)
  exact congrArg (fun b : Bytes => Elf64Phdr.ofBytes (b.from _)) htable

/-! ### The pages -/

/-- The number of pages of a segment, as far as `int` holds it. -/
theorem pagesFor_toNat (phdr : Elf64Phdr) :
    (pagesFor phdr).toNat = (phdr.pMemsz.toNat + 0xFFF) / 0x1000 % 2 ^ 32 := by
  have hlt := phdr.pMemsz.isLt
  rw [pagesFor, BitVec.toNat_setWidth, BitVec.toNat_udiv, BitVec.toNat_sub, BitVec.toNat_add]
  simp only [BitVec.toNat_ofNat, Nat.reducePow, Nat.reduceMod, Nat.reduceSub] at hlt ⊢
  omega

theorem requestFor_pages (phdr : Elf64Phdr) : (requestFor phdr).pages = phdr.pageCount := by
  rw [show (requestFor phdr).pages = ((pagesFor phdr).signExtend 64).toNat from rfl,
    toNat_signExtend_int, pagesFor_toNat, Elf64Phdr.pageCount]

theorem requestFor_covers_iff (phdr : Elf64Phdr) (a : ℕ) :
    (requestFor phdr).Covers a ↔ phdr.Requests (a / 0x1000) := by
  rw [PageRequest.Covers, requestFor_pages, Elf64Phdr.Requests]
  rfl

/-- A page that a segment lacks holds one of its bytes. -/
theorem Elf64Phdr.Lacks.exists_mem {phdr : Elf64Phdr} {page : ℕ} (h : phdr.Lacks page) :
    ∃ a ∈ phdr.memory, a / 0x1000 = page := by
  obtain ⟨hpos, hfirst, hlast⟩ := h
  rw [lastPage] at hlast
  -- It is the first byte of the page, or of the segment.
  refine ⟨max phdr.pPaddr.toNat (page * 0x1000), Set.mem_Ico.mpr ⟨le_max_left .., ?_⟩, ?_⟩
  · omega
  · omega

/-- The size of a segment whose number of pages is not cut off: less than 8 TiB. -/
def Elf64Phdr.Ordinary (phdr : Elf64Phdr) : Prop :=
  (phdr.pMemsz.toNat + 0xFFF) / 0x1000 < 2 ^ 31

instance (phdr : Elf64Phdr) : Decidable phdr.Ordinary := inferInstanceAs (Decidable (_ < _))

/-- The segment needs a page more for where it starts. -/
def Elf64Phdr.Overhangs (phdr : Elf64Phdr) : Prop :=
  phdr.pMemsz.toNat ≠ 0 ∧
    0x1000 * ((phdr.pMemsz.toNat + 0xFFF) / 0x1000) <
      phdr.pPaddr.toNat % 0x1000 + phdr.pMemsz.toNat

theorem pageCount_of_ordinary {phdr : Elf64Phdr} (h : phdr.Ordinary) :
    phdr.pageCount = (phdr.pMemsz.toNat + 0xFFF) / 0x1000 := by
  unfold Elf64Phdr.Ordinary at h
  rw [Elf64Phdr.pageCount, Nat.mod_eq_of_lt (by omega), if_pos h]

/-- It is only the last page that a segment of an ordinary size can lack. -/
theorem lacks_iff_of_ordinary {phdr : Elf64Phdr} (h : phdr.Ordinary) {page : ℕ} :
    phdr.Lacks page ↔ phdr.Overhangs ∧ page = phdr.lastPage := by
  rw [Elf64Phdr.Lacks, Elf64Phdr.Overhangs, Elf64Phdr.lastPage, pageCount_of_ordinary h]
  omega

theorem not_lacks_of_aligned {phdr : Elf64Phdr} (h : phdr.Ordinary)
    (haligned : phdr.pPaddr.toNat % 0x1000 = 0) {page : ℕ} : ¬ phdr.Lacks page := by
  rw [lacks_iff_of_ordinary h, Elf64Phdr.Overhangs, haligned]
  omega

/-- The requests together cover every segment exactly when each gets what it lacks from others. -/
theorem requests_cover_iff :
    (∀ phdr ∈ loadHeaders file pool, ∀ a ∈ phdr.memory,
      ∃ r ∈ (loadHeaders file pool).map requestFor, r.Covers a) ↔ PagesMeet file pool := by
  simp only [List.mem_map, exists_exists_and_eq_and, requestFor_covers_iff]
  constructor
  · intro hcovers phdr hphdr page hlacks
    obtain ⟨a, ha, rfl⟩ := hlacks.exists_mem
    exact hcovers phdr hphdr a ha
  · intro hmeet phdr hphdr a ha
    obtain ⟨hle, hlt⟩ := Set.mem_Ico.mp ha
    by_cases hown : a / 0x1000 < phdr.pPaddr.toNat / 0x1000 + phdr.pageCount
    · exact ⟨phdr, hphdr, Nat.div_le_div_right hle, hown⟩
    · refine hmeet phdr hphdr _ ⟨by omega, not_lt.mp hown, ?_⟩
      exact Nat.div_le_div_right (by omega)

/-! ### The segments -/

/-- The headers that the loop finds are those of the file. -/
theorem TableFits.loadsAt (hfits : TableFits (fileHeader file)) (hfile : KernelFile file pool)
    (header : Bytes) (mem : ℕ → BitVec 8) :
    (tableRead file header pool mem).loadsAt
      (List.range' 0 (fileHeader file).ePhnum.toNat (fileHeader file).ePhentsize.toNat) =
      loadHeaders file pool := by
  have hmap : (List.range' 0 (fileHeader file).ePhnum.toNat
      (fileHeader file).ePhentsize.toNat).map (tableRead file header pool mem).phdrAt =
      (List.range (fileHeader file).ePhnum.toNat).map (programHeader file pool) := by
    refine List.ext_getElem (by simp) fun i _ _ => ?_
    rw [List.getElem_map, List.getElem_map, List.getElem_range', List.getElem_range, Nat.zero_add,
      Nat.mul_comm]
    exact hfits.phdrAt hfile header mem
  rw [Loader.loadsAt, hmap, loadHeaders]

/-- When the loop sees the whole table, it requests the pages and copies the bytes of every
`PT_LOAD` header. -/
theorem TableFits.loadKernel (hfits : TableFits (fileHeader file)) (hfile : KernelFile file pool)
    (header : Bytes) (mem : ℕ → BitVec 8) :
    ∃ l, (loadKernel file).run (opened header pool mem) = .ok () l ∧
      l.visited =
        List.range' 0 (fileHeader file).ePhnum.toNat (fileHeader file).ePhentsize.toNat ∧
      l.requests = (loadHeaders file pool).map requestFor ∧
      l.mem = Copy.copy mem ((loadHeaders file pool).map (segmentBlock file)) := by
  have hloads := hfits.loadsAt hfile header mem
  have hstride : 0 < (fileHeader file).ePhnum.toNat → 0 < (fileHeader file).ePhentsize.toNat := by
    intro hpos
    rcases hfits with hzero | ⟨hstride, -⟩
    · omega
    · exact hstride
  have hrun : (KessOS.loadKernel file).run (opened header pool mem) = _ :=
    loadKernel_run hfile.header hfile.accepted header mem
  rw [loadSegments_run _ hstride (by rw [hfits.toInt, Nat.zero_add]) (Nat.lt_succ_self _)] at hrun
  obtain ⟨hvisited, hrequests, hmem⟩ := visits_spec file
    (tableRead file header pool mem)
    (List.range' 0 (fileHeader file).ePhnum.toNat (fileHeader file).ePhentsize.toNat)
  rw [hloads] at hrequests hmem
  exact ⟨_, hrun, hvisited, hrequests, hmem⟩

/-- When the table does not fit, the loop sees no header at all. -/
theorem loadKernel_of_not_fits (hfits : ¬ TableFits (fileHeader file))
    (hfile : KernelFile file pool) (header : Bytes) (mem : ℕ → BitVec 8) :
    (loadKernel file).run (opened header pool mem) =
      .ok () (tableRead file header pool mem) := by
  have hstop : ¬ ((0 : ℕ) : ℤ) < (tableSize (fileHeader file)).toInt :=
    not_lt.mpr (toInt_nonpos_of_not_fits hfits)
  rw [loadKernel_run hfile.header hfile.accepted, loadSegments, if_neg hstop]
  rfl

namespace KernelFile

variable (hfile : KernelFile file pool) {phdr : Elf64Phdr} (hphdr : phdr ∈ loadHeaders file pool)

include hfile hphdr

theorem length_cells : (segmentBlock file phdr).cells.length = phdr.pFilesz.toNat := by
  have hend := hfile.segment phdr hphdr
  rw [segmentBlock, List.length_take, List.length_drop]
  omega

/-- The bytes of a segment go to its memory. -/
theorem range_subset : (segmentBlock file phdr).range ⊆ phdr.memory := by
  have hle := hfile.filesz phdr hphdr
  rw [Copy.Block.range, hfile.length_cells hphdr]
  exact Set.Ico_subset_Ico_right (Nat.add_le_add_left hle _)

/-- Another `PT_LOAD` header has another range. -/
theorem disjoint_of_ne {phdr' : Elf64Phdr} (hphdr' : phdr' ∈ loadHeaders file pool)
    (hne : phdr ≠ phdr') : Disjoint phdr.memory phdr'.memory := by
  have hsymm : Std.Symm fun p q : Elf64Phdr => Disjoint p.memory q.memory :=
    ⟨fun _ _ h => h.symm⟩
  exact hfile.disjoint.forall hphdr hphdr' hne

/-- After all copies the bytes of the segment are the file's. -/
theorem copy_bytes (mem : ℕ → BitVec 8) {k : ℕ} (hk : k < phdr.pFilesz.toNat) :
    file[phdr.pOffset.toNat + k]? = some
      (Copy.copy mem ((loadHeaders file pool).map (segmentBlock file))
        (phdr.pPaddr.toNat + k)) := by
  have hdisj : ((loadHeaders file pool).map (segmentBlock file)).Pairwise
      fun b b' => Disjoint b.range b'.range := by
    rw [List.pairwise_map]
    refine hfile.disjoint.imp_of_mem fun hp hq hpq => ?_
    exact hpq.mono (hfile.range_subset hp) (hfile.range_subset hq)
  have hat := Copy.copy_at mem hdisj (List.mem_map_of_mem hphdr)
    (hk.trans_eq (hfile.length_cells hphdr).symm)
  have hend := hfile.segment phdr hphdr
  rw [show (segmentBlock file phdr).dst = phdr.pPaddr.toNat from rfl] at hat
  rw [hat, List.getElem?_eq_getElem (by omega)]
  simp [segmentBlock]

/-- No copy touches the tail of the segment. -/
theorem copy_tail (mem : ℕ → BitVec 8) {k : ℕ} (hk : phdr.pFilesz.toNat ≤ k)
    (hlt : k < phdr.pMemsz.toNat) :
    Copy.copy mem ((loadHeaders file pool).map (segmentBlock file)) (phdr.pPaddr.toNat + k) =
      mem (phdr.pPaddr.toNat + k) := by
  refine Copy.copy_of_notMem mem fun b hb hmem => ?_
  obtain ⟨phdr', hphdr', rfl⟩ := List.mem_map.mp hb
  -- Its own copy stops before the tail, and the others stay in their own segments.
  by_cases heq : phdr = phdr'
  · subst heq
    rw [Copy.Block.range, hfile.length_cells hphdr, Set.mem_Ico] at hmem
    have hdst : (segmentBlock file phdr).dst = phdr.pPaddr.toNat := rfl
    omega
  · have hself : phdr.pPaddr.toNat + k ∈ phdr.memory :=
      ⟨Nat.le_add_right .., Nat.add_lt_add_left hlt _⟩
    exact Set.disjoint_left.mp (hfile.disjoint_of_ne hphdr hphdr' heq) hself
      (hfile.range_subset hphdr' hmem)

/-- A header that asks for the last page of a segment that lacks it starts in that page. -/
theorem start_of_requests (hsmall : phdr.Ordinary) (hover : phdr.Overhangs) {phdr' : Elf64Phdr}
    (hphdr' : phdr' ∈ loadHeaders file pool) (hsmall' : phdr'.Ordinary)
    (hrequests : phdr'.Requests phdr.lastPage) :
    phdr'.pMemsz.toNat ≠ 0 ∧ phdr'.pPaddr.toNat / 0x1000 = phdr.lastPage := by
  have hlacks : phdr.Lacks phdr.lastPage := (lacks_iff_of_ordinary hsmall).mpr ⟨hover, rfl⟩
  obtain ⟨hle, hlt⟩ := hrequests
  have hne : phdr ≠ phdr' := by
    rintro rfl
    exact absurd hlt (not_lt.mpr hlacks.2.1)
  have hdisjoint := hfile.disjoint_of_ne hphdr hphdr' hne
  rw [Elf64Phdr.memory, Elf64Phdr.memory, Set.Ico_disjoint_Ico] at hdisjoint
  rw [pageCount_of_ordinary hsmall'] at hlt
  obtain ⟨hpos, hover⟩ := hover
  rw [Elf64Phdr.lastPage] at hle hlt ⊢
  -- What ends before the segment starts has its pages before the last one.
  omega

end KernelFile

/-- Among segments of an ordinary size the pages meet exactly when in the last page of each that
needs a page more another one starts. -/
theorem pagesMeet_iff_of_ordinary (hfile : KernelFile file pool)
    (hsmall : ∀ phdr ∈ loadHeaders file pool, phdr.Ordinary) :
    PagesMeet file pool ↔
      ∀ phdr ∈ loadHeaders file pool, phdr.Overhangs →
        ∃ phdr' ∈ loadHeaders file pool, phdr'.pMemsz.toNat ≠ 0 ∧
          phdr'.pPaddr.toNat / 0x1000 = phdr.lastPage := by
  constructor
  · intro hmeet phdr hphdr hover
    obtain ⟨phdr', hphdr', hrequests⟩ :=
      hmeet phdr hphdr _ ((lacks_iff_of_ordinary (hsmall phdr hphdr)).mpr ⟨hover, rfl⟩)
    exact ⟨phdr', hphdr', hfile.start_of_requests hphdr (hsmall phdr hphdr) hover hphdr'
      (hsmall phdr' hphdr') hrequests⟩
  · intro hstarts phdr hphdr page hlacks
    obtain ⟨hover, rfl⟩ := (lacks_iff_of_ordinary (hsmall phdr hphdr)).mp hlacks
    obtain ⟨phdr', hphdr', hpos, hstart⟩ := hstarts phdr hphdr hover
    refine ⟨phdr', hphdr', hstart.le, ?_⟩
    rw [pageCount_of_ordinary (hsmall phdr' hphdr'), hstart]
    omega

/-- With the whole table in view, the image is built exactly when memory and the pages allow. -/
theorem TableFits.builds_iff (hfits : TableFits (fileHeader file)) (hfile : KernelFile file pool)
    (header : Bytes) (mem : ℕ → BitVec 8) :
    ∃ l, (KessOS.loadKernel file).run (opened header pool mem) = .ok () l ∧
      (ImageBuilt file pool l ↔ LoadsWhole file pool mem) := by
  obtain ⟨l, hrun, hvisited, hrequests, hmem⟩ := hfits.loadKernel hfile header mem
  refine ⟨l, hrun, ?_, ?_⟩
  · intro hbuilt
    refine ⟨hfits, fun phdr hphdr k hk hlt => ?_, requests_cover_iff.mp ?_⟩
    · rw [← hfile.copy_tail hphdr mem hk hlt, ← hmem]
      exact hbuilt.tail phdr hphdr k hk hlt
    · rw [← hrequests]
      exact hbuilt.pages
  · intro hwhole
    refine ⟨hvisited, fun phdr hphdr k hk => ?_, fun phdr hphdr k hk hlt => ?_, ?_⟩
    · rw [hmem]
      exact hfile.copy_bytes hphdr mem hk
    · rw [hmem, hfile.copy_tail hphdr mem hk hlt]
      exact hwhole.tail phdr hphdr k hk hlt
    · rw [hrequests]
      exact requests_cover_iff.mpr hwhole.pages

/-- On every file that the header check accepts the loader comes back, and the image is built
exactly when the length of the table fits its `int`, the pages that a segment needs beyond those
of its size are requested for others, and the tails were zero before. -/
theorem loadKernel_builds_iff (hfile : KernelFile file pool) (header : Bytes)
    (mem : ℕ → BitVec 8) :
    ∃ l, (loadKernel file).run (opened header pool mem) = .ok () l ∧
      (ImageBuilt file pool l ↔ LoadsWhole file pool mem) := by
  by_cases hfits : TableFits (fileHeader file)
  · exact hfits.builds_iff hfile header mem
  · refine ⟨_, loadKernel_of_not_fits hfits hfile header mem, ?_, fun h => absurd h.table hfits⟩
    intro hbuilt
    -- No header was seen, but then the file has none and its table fits.
    have hvisited := congrArg List.length hbuilt.visited
    rw [List.length_range'] at hvisited
    exact absurd (Or.inl hvisited.symm) hfits

/-! ### A kernel with a `.bss` -/

/-- `x` in `n` little-endian bytes. -/
def littleEndian (n x : ℕ) : List (BitVec 8) :=
  (List.range n).map fun i => BitVec.ofNat 8 (x / 256 ^ i)

/-- An executable with one segment at 1 MiB, of four bytes in the file and eight in memory. -/
def bssKernel : List (BitVec 8) :=
  -- the ELF header
  [0x7F, 0x45, 0x4C, 0x46, 2, 1, 1] ++ littleEndian 9 0 ++ littleEndian 2 2 ++
  littleEndian 2 62 ++ littleEndian 4 1 ++ littleEndian 8 0x100000 ++ littleEndian 8 64 ++
  littleEndian 8 0 ++ littleEndian 4 0 ++ littleEndian 2 64 ++ littleEndian 2 56 ++
  littleEndian 2 1 ++ littleEndian 6 0 ++
  -- the program header
  littleEndian 4 1 ++ littleEndian 4 6 ++ littleEndian 8 120 ++ littleEndian 8 0x100000 ++
  littleEndian 8 0x100000 ++ littleEndian 8 4 ++ littleEndian 8 8 ++ littleEndian 8 0x1000 ++
  -- the segment
  [0xEB, 0xFE, 0x90, 0x90]

theorem length_bssKernel : bssKernel.length = 124 := by decide +kernel

theorem loadHeaders_bssKernel :
    loadHeaders bssKernel (fun _ => 0) = [⟨1, 120, 0x100000, 4, 8⟩] := by
  decide

theorem kernelFile_bssKernel : KernelFile bssKernel fun _ => 0 where
  accepted := by decide
  header := by rw [length_bssKernel]; decide
  table := by rw [length_bssKernel]; decide
  segment := by rw [loadHeaders_bssKernel, length_bssKernel]; decide
  filesz := by rw [loadHeaders_bssKernel]; decide
  disjoint := by
    rw [loadHeaders_bssKernel]
    exact List.pairwise_singleton ..

theorem tableFits_bssKernel : TableFits (fileHeader bssKernel) := Or.inr (by decide)

/-- In memory that is zero the image is built. -/
theorem loadKernel_builds_bssKernel :
    ∃ l, (loadKernel bssKernel).run (opened (fun _ => 0) (fun _ => 0) fun _ => 0) = .ok () l ∧
      ImageBuilt bssKernel (fun _ => 0) l := by
  obtain ⟨l, hrun, hiff⟩ :=
    loadKernel_builds_iff kernelFile_bssKernel (fun _ => 0) fun _ => 0
  refine ⟨l, hrun, hiff.mpr ⟨tableFits_bssKernel, fun _ _ _ _ _ => rfl, ?_⟩⟩
  intro phdr hphdr page hlacks
  rw [loadHeaders_bssKernel, List.mem_singleton] at hphdr
  subst hphdr
  -- The one page that the segment needs is requested for it.
  exact absurd hlacks (not_lacks_of_aligned (by decide) (by decide))

/-- In memory that holds ones the tail of the segment stays as it is. -/
theorem loadKernel_keeps_bssKernel :
    KernelFile bssKernel (fun _ => 0) ∧
    ¬ ∃ l, (loadKernel bssKernel).run (opened (fun _ => 0) (fun _ => 0) fun _ => 0xFF) =
        .ok () l ∧ ImageBuilt bssKernel (fun _ => 0) l := by
  refine ⟨kernelFile_bssKernel, ?_⟩
  rintro ⟨l, hrun, hbuilt⟩
  obtain ⟨l', hrun', hiff⟩ :=
    tableFits_bssKernel.builds_iff kernelFile_bssKernel (fun _ => 0) fun _ => 0xFF
  rw [hrun] at hrun'
  cases hrun'
  have htail := (hiff.mp hbuilt).tail ⟨1, 120, 0x100000, 4, 8⟩
    (by rw [loadHeaders_bssKernel]; exact List.mem_singleton_self _) 4 (by decide) (by decide)
  exact absurd htail (by decide)

end KessOS
