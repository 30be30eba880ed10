import KessOS.Boot.HandOff
import KessOS.Monad.State

/-!
# When the hand-off is safe

The first call of `GetMemoryMap` must fail, since it gets an uninitialised size and the pointer
`NULL`; the second must not, since nothing looks at its status.  So everything depends on what was
on the stack, and on whether the map still fits once its buffer has been allocated
(`handOff_safe_iff`).
-/

namespace KessOS

open StateM

variable {uefi : Uefi} {s : HandOff} {fw : Firmware} {mem : PhysMem} {map font : Addr}
  {mapSize mapKey descriptorSize : BitVec 64}

/-! ### The calls -/

namespace HandOff

/-- The size on the way in does not suffice for the map. -/
def TooSmall (s : HandOff) : Prop := s.mapSize < s.firmware.size

instance (s : HandOff) : Decidable s.TooSmall := inferInstanceAs (Decidable (_ < _))

/-- The state after `GetMemoryMap`. -/
def gotMap (s : HandOff) : HandOff where
  firmware := s.firmware
  mem := if s.TooSmall then s.mem else storeBytes s.mem s.map s.firmware.bytes
  map := s.map
  mapSize := s.firmware.size
  mapKey := if s.TooSmall then s.mapKey else s.firmware.key
  descriptorSize := s.firmware.descriptorSize
  buffers := s.buffers
  writes := if s.TooSmall then s.writes else s.writes ++ [(s.map, s.firmware.size)]
  exited := s.exited

/-- The state after `AllocatePool`. -/
def pooled (uefi : Uefi) (s : HandOff) : HandOff :=
  { s with
    firmware := (uefi.allocatePool s.firmware s.mapSize).2
    map := (uefi.allocatePool s.firmware s.mapSize).1
    buffers := s.buffers ++ [((uefi.allocatePool s.firmware s.mapSize).1, s.mapSize)] }

/-- `ExitBootServices` would succeed. -/
def Accepted (uefi : Uefi) (s : HandOff) : Prop :=
  s.mapKey = s.firmware.key ∧ uefi.exitBootServices s.firmware = true

instance (uefi : Uefi) (s : HandOff) : Decidable (s.Accepted uefi) :=
  inferInstanceAs (Decidable (_ ∧ _))

/-- The state after `ExitBootServices`. -/
def left (uefi : Uefi) (s : HandOff) : HandOff :=
  { s with exited := if s.Accepted uefi then true else s.exited }

end HandOff

theorem getMemoryMap_run (s : HandOff) : getMemoryMap.run s =
    (if s.TooSmall then .bufferTooSmall else .success, s.gotMap) := by
  unfold getMemoryMap HandOff.gotMap HandOff.TooSmall
  by_cases hsmall : s.mapSize < s.firmware.size
  · simp [hsmall]
    rfl
  · simp [hsmall]
    rfl

theorem allocatePool_run (s : HandOff) :
    (allocatePool uefi).run s = (.success, s.pooled uefi) := rfl

theorem exitBootServices_run (s : HandOff) : (exitBootServices uefi).run s =
    (if s.Accepted uefi then .success else .invalidParameter, s.left uefi) := by
  unfold exitBootServices HandOff.left HandOff.Accepted
  by_cases hok : s.mapKey = s.firmware.key ∧ uefi.exitBootServices s.firmware = true
  · simp [hok]
    rfl
  · simp [hok]
    rfl

/-! ### The three calls in a row -/

/-- The state after the first call, with `map` set to `NULL`. -/
def HandOff.sized (s : HandOff) : HandOff := { s with map := 0 }.gotMap

/-- The state once the three calls are done. -/
def HandOff.prepared (uefi : Uefi) (s : HandOff) : HandOff := (s.sized.pooled uefi).gotMap

/-- The `meminfo_t` that the locals make. -/
def HandOff.memInfo (s : HandOff) : MemInfo := ⟨s.map, s.mapSize, s.descriptorSize⟩

theorem handOff_run (s : HandOff) : (handOff uefi font).run s =
    if font = 0 then (none, s.prepared uefi)
    else (some (s.prepared uefi).memInfo, (s.prepared uefi).left uefi) := by
  have hnull : (modify fun s => { s with map := 0 } : HandOffM Unit).run s =
      ((), { s with map := 0 }) := rfl
  unfold handOff
  rw [run_bind_of_eq hnull, run_bind_of_eq (getMemoryMap_run _),
    run_bind_of_eq (allocatePool_run _), run_bind_of_eq (getMemoryMap_run _)]
  by_cases hfont : font = 0
  · rw [if_pos hfont, hfont]
    rfl
  · have hget : (get : HandOffM HandOff).run (s.prepared uefi) = (s.prepared uefi, _) := rfl
    refine (run_bind_of_eq hget).trans ?_
    rw [if_neg hfont]
    simp only [ne_eq, hfont, not_false_eq_true, if_true]
    exact run_bind_of_eq (exitBootServices_run _)

/-! ### Safety -/

/-- What the kernel is entered with: a buffer for the whole of the current map, which holds it. -/
structure HandsMap (s : HandOff) (memInfo : MemInfo) : Prop where
  exited : s.exited = true
  buffer : ∃ size, (memInfo.mMap, size) ∈ s.buffers ∧ memInfo.mSize ≤ size
  mSize : memInfo.mSize = s.firmware.size
  mDescriptorSize : memInfo.mDescriptorSize = s.firmware.descriptorSize
  contents : ∀ i (hi : i < s.firmware.bytes.length),
    loadByte s.mem (memInfo.mMap + BitVec.ofNat 64 i) = s.firmware.bytes[i]

/-- The kernel is only entered with the map, and nothing is written through `NULL`. -/
structure SafeHandOff (memInfo : Option MemInfo) (s : HandOff) : Prop where
  entered : ∀ info, memInfo = some info → HandsMap s info
  noNull : ∀ w ∈ s.writes, w.1 = 0 → w.2 = 0

/-- The firmware once the buffer is allocated. -/
def Uefi.later (uefi : Uefi) (fw : Firmware) : Firmware := (uefi.allocatePool fw fw.size).2

/-- The buffer. -/
def Uefi.buffer (uefi : Uefi) (fw : Firmware) : Addr := (uefi.allocatePool fw fw.size).1

section Prepared

variable (uefi : Uefi) (s : HandOff)

@[simp] theorem prepared_firmware : (s.prepared uefi).firmware = uefi.later s.firmware := rfl

@[simp] theorem prepared_exited : (s.prepared uefi).exited = s.exited := rfl

@[simp] theorem prepared_memInfo : (s.prepared uefi).memInfo =
    ⟨uefi.buffer s.firmware, (uefi.later s.firmware).size,
      (uefi.later s.firmware).descriptorSize⟩ := rfl

@[simp] theorem prepared_buffers : (s.prepared uefi).buffers =
    s.buffers ++ [(uefi.buffer s.firmware, s.firmware.size)] := rfl

/-- The map fits in its buffer, so the second call gets it. -/
theorem prepared_of_fits (hfits : (uefi.later s.firmware).size ≤ s.firmware.size) :
    (s.prepared uefi).mapKey = (uefi.later s.firmware).key ∧
      (s.prepared uefi).mem = storeBytes s.sized.mem (uefi.buffer s.firmware)
        (uefi.later s.firmware).bytes ∧
      (s.prepared uefi).writes = s.sized.writes ++
        [(uefi.buffer s.firmware, (uefi.later s.firmware).size)] := by
  have hsmall : ¬ (s.sized.pooled uefi).TooSmall := BitVec.not_lt.mpr hfits
  exact ⟨if_neg hsmall, if_neg hsmall, if_neg hsmall⟩

/-- The map has outgrown its buffer, so the second call fails as the first one did. -/
theorem prepared_of_grown (hgrown : s.firmware.size < (uefi.later s.firmware).size) :
    (s.prepared uefi).writes = s.sized.writes :=
  if_pos hgrown

end Prepared

/-- What the first call writes through `NULL`. -/
theorem sized_noNull (s : HandOff) (hempty : s.writes = []) :
    (∀ w ∈ s.sized.writes, w.1 = 0 → w.2 = 0) ↔
      s.mapSize < s.firmware.size ∨ s.firmware.size = 0 := by
  by_cases hsmall : s.mapSize < s.firmware.size
  · have hwrites : s.sized.writes = s.writes := if_pos hsmall
    rw [hwrites, hempty]
    simp [hsmall]
  · have hwrites : s.sized.writes = s.writes ++ [(0, s.firmware.size)] := if_neg hsmall
    rw [hwrites, hempty]
    simp [hsmall]

/-- The second call writes through the buffer, if at all. -/
theorem prepared_noNull (uefi : Uefi) (s : HandOff) :
    (∀ w ∈ (s.prepared uefi).writes, w.1 = 0 → w.2 = 0) ↔
      ∀ w ∈ s.sized.writes, w.1 = 0 → w.2 = 0 := by
  have hbuffer : uefi.buffer s.firmware ≠ 0 := uefi.buffer_ne _ _
  by_cases hgrown : s.firmware.size < (uefi.later s.firmware).size
  · rw [prepared_of_grown uefi s hgrown]
  · have hfits := BitVec.not_lt.mp hgrown
    rw [(prepared_of_fits uefi s hfits).2.2, List.forall_mem_append, List.forall_mem_singleton]
    exact and_iff_left fun hnull => absurd hnull hbuffer

/-- The kernel gets the map if and only if it fits in its buffer and the firmware lets go. -/
theorem left_handsMap_iff (uefi : Uefi) (s : HandOff) (hexited : s.exited = false)
    (hempty : s.buffers = []) :
    HandsMap ((s.prepared uefi).left uefi) (s.prepared uefi).memInfo ↔
      (uefi.later s.firmware).size ≤ s.firmware.size ∧
        uefi.exitBootServices (uefi.later s.firmware) = true := by
  constructor
  · intro h
    have hfits : (uefi.later s.firmware).size ≤ s.firmware.size := by
      obtain ⟨size, hmem, hle⟩ := h.buffer
      have hmem : (uefi.buffer s.firmware, size) ∈ (s.prepared uefi).buffers := hmem
      rw [prepared_buffers, hempty, List.nil_append, List.mem_singleton] at hmem
      rw [(Prod.mk.inj hmem).2] at hle
      exact hle
    have haccepted : (s.prepared uefi).Accepted uefi := by
      have hleft : (if (s.prepared uefi).Accepted uefi then true else s.exited) = true := h.exited
      by_contra hno
      rw [if_neg hno, hexited] at hleft
      cases hleft
    exact ⟨hfits, haccepted.2⟩
  · rintro ⟨hfits, haccepts⟩
    obtain ⟨hkey, hmem, -⟩ := prepared_of_fits uefi s hfits
    have haccepted : (s.prepared uefi).Accepted uefi := ⟨hkey, haccepts⟩
    refine ⟨if_pos haccepted, ⟨s.firmware.size, ?_, hfits⟩, rfl, rfl, fun i hi => ?_⟩
    · show _ ∈ (s.prepared uefi).buffers
      rw [prepared_buffers, prepared_memInfo]
      exact List.mem_append_right _ (List.mem_singleton_self _)
    · show loadByte (s.prepared uefi).mem _ = _
      rw [hmem]
      exact loadByte_storeBytes (uefi.later s.firmware).fits.le hi

/-- **When the hand-off is safe**: what is on the stack must make the first call fail, unless the
map is empty, and if there is a font the map must not outgrow its buffer and the firmware must
let go. -/
theorem handOff_safe_iff (uefi : Uefi) (fw : Firmware) (mem : PhysMem)
    (map mapSize mapKey descriptorSize : BitVec 64) (font : Addr) :
    SafeHandOff ((handOff uefi font).run (.start fw mem map mapSize mapKey descriptorSize)).1
        ((handOff uefi font).run (.start fw mem map mapSize mapKey descriptorSize)).2 ↔
      (mapSize < fw.size ∨ fw.size = 0) ∧ (font = 0 ∨
        ((uefi.later fw).size ≤ fw.size ∧ uefi.exitBootServices (uefi.later fw) = true)) := by
  set s := HandOff.start fw mem map mapSize mapKey descriptorSize with hs
  have hnull := (prepared_noNull uefi s).trans (sized_noNull s rfl)
  have hmap := left_handsMap_iff uefi s rfl rfl
  have hnull : (∀ w ∈ (s.prepared uefi).writes, w.1 = 0 → w.2 = 0) ↔
      mapSize < fw.size ∨ fw.size = 0 := hnull
  rw [handOff_run]
  by_cases hfont : font = 0
  · rw [if_pos hfont, ← hnull]
    constructor
    · exact fun h => ⟨h.noNull, Or.inl hfont⟩
    · rintro ⟨hwrites, -⟩
      refine ⟨fun info hinfo => ?_, hwrites⟩
      cases hinfo
  · rw [if_neg hfont, ← hnull]
    have hleft : ((s.prepared uefi).left uefi).writes = (s.prepared uefi).writes := rfl
    constructor
    · intro h
      exact ⟨h.noNull, Or.inr (hmap.mp (h.entered _ rfl))⟩
    · rintro ⟨hwrites, hfits⟩
      refine ⟨fun info hinfo => ?_, hwrites⟩
      obtain rfl := Option.some.inj hinfo
      exact hmap.mpr (hfits.resolve_left hfont)

/-- A map of `n` clear descriptors. -/
def clearMap (n : ℕ) (hn : n ≤ 2) (key : BitVec 64) : Firmware where
  descriptorSize := 48#64
  map := List.replicate n (List.replicate 48 0#8)
  key := key
  sized := by
    intro d hd
    rw [List.eq_of_mem_replicate hd]
    rfl
  fits := by
    rw [List.length_flatten, List.map_replicate, List.sum_replicate, List.length_replicate]
    show n * 48 < _
    omega

/-- A firmware whose map has two descriptors once a buffer is allocated. -/
def growing : Uefi where
  allocatePool fw _ := (0x100000#64, clearMap 2 le_rfl (fw.key + 1))
  exitBootServices _ := true
  buffer_ne _ _ := by
    show (0x100000#64 : Addr) ≠ 0
    decide
  key_ne fw _ := by
    show fw.key + 1 ≠ fw.key
    bv_omega

/-- One descriptor, and the buffer for it takes another one: the kernel is entered without a
memory map. -/
theorem handOff_unsafe_growing :
    growing.later (clearMap 1 (by decide) 7) = clearMap 2 le_rfl 8 ∧
      ¬ SafeHandOff ((handOff growing 0x2000#64).run
        (.start (clearMap 1 (by decide) 7) (fun _ _ => 0#64) 0 0 0 0)).1
        ((handOff growing 0x2000#64).run
          (.start (clearMap 1 (by decide) 7) (fun _ _ => 0#64) 0 0 0 0)).2 := by
  have hsizes : (clearMap 1 (by decide) 7).size < (clearMap 2 le_rfl 8).size := by decide
  refine ⟨rfl, fun h => ?_⟩
  set s := HandOff.start (clearMap 1 (by decide) 7) (fun _ _ => 0#64) 0 0 0 0
  have hfont : (0x2000#64 : Addr) ≠ 0 := by decide
  rw [handOff_run, if_neg hfont] at h
  have hfits := ((left_handsMap_iff growing s rfl rfl).mp (h.entered _ rfl)).1
  exact BitVec.not_le.mpr hsizes hfits

end KessOS
