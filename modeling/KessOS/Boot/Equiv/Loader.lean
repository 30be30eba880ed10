import KessOS.Boot.Loader
import KessOS.Monad.EState
import Mathlib.Data.List.Range

/-!
# The run of the ELF loader

The loop of `efi_main` is the fold of `Loader.visit` over the offsets of the program headers
(`loadSegments_run`), and over any list of offsets that fold makes one page request and copies
one block for each `PT_LOAD` header (`visits_spec`).  `loadKernel_run` puts the two reads before
the loop in front of it; a file whose header is not accepted changes no memory
(`loadKernel_bad`).
-/

namespace KessOS

variable {file : List (BitVec 8)} {pool : Bytes}

/-! ### The loop -/

/-- The bytes that the file delivers for a segment, with the address they go to. -/
def segmentBlock (file : List (BitVec 8)) (phdr : Elf64Phdr) : Copy.Block (BitVec 8) where
  dst := phdr.pPaddr.toNat
  cells := (file.drop phdr.pOffset.toNat).take phdr.pFilesz.toNat

/-- The request made for a segment. -/
def requestFor (phdr : Elf64Phdr) : PageRequest where
  segment := phdr.pPaddr.toNat
  pages := ((pagesFor phdr).signExtend 64).toNat

/-- The state after the body of the loop for a `PT_LOAD` header. -/
def Loader.loaded (l : Loader) (file : List (BitVec 8)) (phdr : Elf64Phdr) : Loader :=
  { l with
    position := phdr.pOffset.toNat + (segmentBlock file phdr).cells.length
    requests := l.requests ++ [requestFor phdr]
    mem := (segmentBlock file phdr).put l.mem }

/-- The state after the loop has looked at the header at `off`. -/
def Loader.visit (file : List (BitVec 8)) (l : Loader) (off : ℕ) : Loader :=
  if (l.phdrAt off).pType = ptLoad
  then { l with visited := l.visited ++ [off] }.loaded file (l.phdrAt off)
  else { l with visited := l.visited ++ [off] }

theorem loadSegment_run (l : Loader) (phdr : Elf64Phdr) :
    (loadSegment file phdr).run l = .ok () (l.loaded file phdr) := rfl

theorem loadHeader_run (l : Loader) (off : ℕ) :
    (loadHeader file off).run l = .ok () (l.visit file off) := by
  show (if (l.phdrAt off).pType = ptLoad then loadSegment file (l.phdrAt off) else pure ()).run
    { l with visited := l.visited ++ [off] } = _
  unfold Loader.visit
  split
  · exact loadSegment_run _ _
  · rfl

/-- The loop goes over `n` offsets and stops, when the length of the table is that of `n` more
entries. -/
theorem loadSegments_run {header : Elf64Ehdr} {n off fuel : ℕ} (l : Loader)
    (hstride : 0 < n → 0 < header.ePhentsize.toNat)
    (hend : (tableSize header).toInt = (off + n * header.ePhentsize.toNat : ℕ))
    (hfuel : n < fuel) :
    (loadSegments file header fuel off).run l =
      .ok () ((List.range' off n header.ePhentsize.toNat).foldl (Loader.visit file) l) := by
  induction n generalizing off fuel l with
  | zero =>
    obtain ⟨fuel, rfl⟩ := Nat.exists_eq_succ_of_ne_zero hfuel.ne'
    have hstop : ¬ (off : ℤ) < (tableSize header).toInt := by omega
    rw [loadSegments, if_neg hstop]
    rfl
  | succ n ih =>
    obtain ⟨fuel, rfl⟩ := Nat.exists_eq_succ_of_ne_zero (Nat.ne_zero_of_lt hfuel)
    have hpos := hstride n.succ_pos
    rw [Nat.succ_mul] at hend
    have hgo : (off : ℤ) < (tableSize header).toInt := by omega
    rw [loadSegments, if_pos hgo, EStateM.run_bind_of_ok (loadHeader_run l off)]
    exact ih (l.visit file off) (fun _ => hpos) (by omega) (by omega)

/-- The `PT_LOAD` headers at the given offsets. -/
def Loader.loadsAt (l : Loader) (offs : List ℕ) : List Elf64Phdr :=
  (offs.map l.phdrAt).filter fun phdr => phdr.pType = ptLoad

theorem Loader.phdrAt_visit (l : Loader) (off : ℕ) : (l.visit file off).phdrAt = l.phdrAt := by
  unfold visit
  split <;> rfl

theorem Loader.loadsAt_visit (l : Loader) (off : ℕ) (offs : List ℕ) :
    (l.visit file off).loadsAt offs = l.loadsAt offs := by
  rw [loadsAt, phdrAt_visit, loadsAt]

/-- What going over the offsets `offs` does: each is looked at once, and for each `PT_LOAD` header
there is one request and one block, in order. -/
theorem visits_spec (file : List (BitVec 8)) (l : Loader) (offs : List ℕ) :
    (offs.foldl (Loader.visit file) l).visited = l.visited ++ offs ∧
    (offs.foldl (Loader.visit file) l).requests = l.requests ++ (l.loadsAt offs).map requestFor ∧
    (offs.foldl (Loader.visit file) l).mem =
      Copy.copy l.mem ((l.loadsAt offs).map (segmentBlock file)) := by
  induction offs generalizing l with
  | nil => simp [Loader.loadsAt]
  | cons off offs ih =>
    obtain ⟨hvisited, hrequests, hmem⟩ := ih (l.visit file off)
    rw [List.foldl_cons, hvisited, hrequests, hmem, Loader.loadsAt_visit]
    by_cases hload : (l.phdrAt off).pType = ptLoad
    · have hloads : l.loadsAt (off :: offs) = l.phdrAt off :: l.loadsAt offs := by
        simp [Loader.loadsAt, hload]
      simp [Loader.visit, hload, hloads, Loader.loaded]
    · have hloads : l.loadsAt (off :: offs) = l.loadsAt offs := by
        simp [Loader.loadsAt, hload]
      simp [Loader.visit, hload, hloads]

/-! ### Before the loop -/

/-- The state in which the header is checked. -/
def headerRead (file : List (BitVec 8)) (header pool : Bytes) (mem : ℕ → BitVec 8) : Loader :=
  { opened (Copy.Block.put header ⟨0, file.take ehdrSize⟩) pool mem with
    position := (file.take ehdrSize).length }

/-- The bytes that the second `Read` delivers. -/
def tableBlock (file : List (BitVec 8)) : Copy.Block (BitVec 8) where
  dst := 0
  cells := (file.drop (fileHeader file).ePhoff.toNat).take
    ((tableSize (fileHeader file)).signExtend 64).toNat

/-- The state in which the loop starts. -/
def tableRead (file : List (BitVec 8)) (header pool : Bytes) (mem : ℕ → BitVec 8) : Loader :=
  { headerRead file header pool mem with
    progHeaders := (tableBlock file).put pool
    position := (fileHeader file).ePhoff.toNat + (tableBlock file).cells.length }

/-- The local `header` is the file's ELF header once it is read. -/
theorem readHeader_run (hlen : ehdrSize ≤ file.length) (header : Bytes) (mem : ℕ → BitVec 8) :
    (readHeader file).run (opened header pool mem) =
      .ok (fileHeader file) (headerRead file header pool mem) := by
  have hheader : Elf64Ehdr.ofBytes (headerRead file header pool mem).header = fileHeader file := by
    refine Elf64Ehdr.ofBytes_congr fun k hk => ?_
    have hput := Copy.Block.put_at header ⟨0, file.take ehdrSize⟩ (k := k)
      (by rw [List.length_take]; omega)
    rw [Nat.zero_add, List.getElem_take] at hput
    rw [byteOf, List.getD_eq_getElem _ _ (by omega), ← hput]
    rfl
  have hrun : (readHeader file).run (opened header pool mem) =
      .ok (Elf64Ehdr.ofBytes (headerRead file header pool mem).header)
        { headerRead file header pool mem with
          position := 0 + (file.take ehdrSize).length } := rfl
  rw [hrun, hheader, Nat.zero_add]
  rfl

theorem readProgHeaders_run (header : Bytes) (mem : ℕ → BitVec 8) :
    (readProgHeaders file (fileHeader file)).run (headerRead file header pool mem) =
      .ok () (tableRead file header pool mem) := rfl

/-- On a file whose header is accepted the loader reads the table and goes through it. -/
theorem loadKernel_run (hlen : ehdrSize ≤ file.length)
    (hok : headerBad (fileHeader file) = false) (header : Bytes) (mem : ℕ → BitVec 8) :
    (loadKernel file).run (opened header pool mem) =
      (loadSegments file (fileHeader file) ((fileHeader file).ePhnum.toNat + 1) 0).run
        (tableRead file header pool mem) := by
  rw [loadKernel, EStateM.run_bind_of_ok (readHeader_run hlen header mem), hok]
  exact EStateM.run_bind_of_ok (readProgHeaders_run header mem)

/-- A file whose header is not accepted leaves memory as it is, and no page is requested. -/
theorem loadKernel_bad (hlen : ehdrSize ≤ file.length)
    (hbad : headerBad (fileHeader file) = true) (header : Bytes) (mem : ℕ → BitVec 8) :
    (loadKernel file).run (opened header pool mem) =
      .error .headerBad (headerRead file header pool mem) := by
  rw [loadKernel, EStateM.run_bind_of_ok (readHeader_run hlen header mem), hbad]
  rfl

end KessOS
