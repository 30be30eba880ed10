import KessOS.Boot.Equiv.Glyph

/-!
# What `putChar` paints

With glyphs of 16 rows and one of the first 128 characters, `putChar`, of the kernel and of the
bootloader alike, colours the pixels whose bits are set in the glyph, and no others
(`putChar_paints`).
-/

namespace KessOS

open Copy

variable {mem : PhysMem} {fb : Framebuffer} {font : Psf1Font} {color xOff yOff : BitVec 32}
  {chr : BitVec 8}

/-! ### The bits of a row -/

/-- The mask has a single bit, and the result is not negative even if it is that of the sign. -/
theorem slt_glyphBit (row : BitVec 8) {s : ℕ} (hs : s < 8) :
    BitVec.slt 0 (glyphBit row s) = row.getLsbD (7 - s) := by
  have hmask : ∀ s : Fin 8, 0b10000000#32 >>> s.val = BitVec.twoPow 32 (7 - s) := by decide
  have hpos : ∀ s : Fin 8, BitVec.slt 0 (BitVec.twoPow 32 (7 - s)) = true := by decide
  have hbit : (row.signExtend 32).getLsbD (7 - s) = row.getLsbD (7 - s) := by
    rw [BitVec.getLsbD_signExtend]
    simp [show 7 - s < 8 by omega, show 7 - s < 32 by omega]
  rw [glyphBit, hmask ⟨s, hs⟩, BitVec.and_twoPow, hbit]
  cases row.getLsbD (7 - s) with
  | true => exact hpos ⟨s, hs⟩
  | false => rfl

/-- Row `r` of the glyph of a character, with 16 rows to a glyph. -/
def glyphRow (mem : PhysMem) (font : Psf1Font) (chr : BitVec 8) (r : ℕ) : BitVec 8 :=
  loadByte mem (font.glyphBuffer + BitVec.ofNat 64 (chr.toNat * 16 + r))

theorem fontPtr_row (hchsize : font.chsize = 16) (hchr : chr.toNat < 128) (r : ℕ) :
    fontPtr font chr + BitVec.ofNat 64 r =
      font.glyphBuffer + BitVec.ofNat 64 (chr.toNat * 16 + r) := by
  have hint : chr.toInt = chr.toNat := BitVec.toInt_eq_toNat_of_lt (by omega)
  have hoffset : rowOffset font.chsize chr r = ((chr.toNat * 16 + r : ℕ) : ℤ) := by
    rw [rowOffset, hint, hchsize]
    push_cast
    rfl
  rw [fontPtr_add, hoffset, BitVec.ofInt_natCast]

theorem loadByte_fontPtr (hchsize : font.chsize = 16) (hchr : chr.toNat < 128) (r : ℕ) :
    loadByte mem (fontPtr font chr + BitVec.ofNat 64 r) = glyphRow mem font chr r :=
  congrArg (loadByte mem) (fontPtr_row hchsize hchr r)

/-! ### Pixels -/

/-- A pixel has a place of its own in its line. -/
theorem index_inj {x y x' y' : ℕ} (hx : x < fb.ppsl.toNat) (hx' : x' < fb.ppsl.toNat) :
    fb.index x y = fb.index x' y' ↔ x = x' ∧ y = y' := by
  constructor
  · intro h
    unfold Framebuffer.index at h
    have hcolumn := congrArg (· % fb.ppsl.toNat) h
    have hrow := congrArg (· / fb.ppsl.toNat) h
    simp only [Nat.add_mul_mod_self_right, Nat.mod_eq_of_lt hx, Nat.mod_eq_of_lt hx'] at hcolumn
    simp only [Nat.add_mul_div_right _ _ (Nat.zero_lt_of_lt hx), Nat.div_eq_of_lt hx,
      Nat.div_eq_of_lt hx', Nat.zero_add] at hrow
    exact ⟨hcolumn, hrow⟩
  · rintro ⟨rfl, rfl⟩
    rfl

/-- The pointer goes to the pixel of that number. -/
theorem pixelAddr_eq (fb : Framebuffer) (x y : ℕ) :
    pixelAddr fb x y = fb.baseAddr + 4#64 * BitVec.ofNat 64 (fb.index x y) := by
  have hppsl : fb.ppsl.setWidth 64 = BitVec.ofNat 64 fb.ppsl.toNat :=
    (BitVec.ofNat_toNat 64 fb.ppsl).symm
  rw [pixelAddr, Framebuffer.index, hppsl, BitVec.ofNat_add, BitVec.ofNat_mul]

/-- The number of a pixel fits into an `unsigned long`. -/
theorem index_lt {x y : ℕ} (hx : x < fb.ppsl.toNat) (hy : y < 2 ^ 32) : fb.index x y < 2 ^ 64 := by
  have hppsl := fb.ppsl.isLt
  calc fb.index x y
      < fb.ppsl.toNat + y * fb.ppsl.toNat := Nat.add_lt_add_right hx _
    _ = (y + 1) * fb.ppsl.toNat := by ring
    _ ≤ 2 ^ 32 * 2 ^ 32 := Nat.mul_le_mul hy hppsl.le
    _ = 2 ^ 64 := by norm_num

theorem clear_notMem_putChar {addr : Addr} {color' : BitVec 32} :
    .clear addr color' ∉ putChar mem fb font color chr xOff yOff := by
  have hnone : ∀ a ∈ putChar mem fb font color chr xOff yOff, a ≠ .clear addr color' := by
    rw [forall_mem_putChar]
    simp
  exact fun h => hnone _ h rfl

/-- The pixels that are coloured, with their colour. -/
theorem mem_written_putChar {i : ℕ} {color' : BitVec 32} :
    (i, color') ∈ (putChar mem fb font color chr xOff yOff).filterMap fb.written ↔
      color' = color ∧ ∃ x ∈ span xOff (xOff + 8), ∃ y ∈ span yOff (yOff + 16), i = fb.index x y ∧
        BitVec.slt 0 (glyphBit
          (loadByte mem (fontPtr font chr + BitVec.ofNat 64 (y - yOff.toNat)))
          (x - xOff.toNat)) := by
  rw [List.mem_filterMap]
  constructor
  · rintro ⟨a, ha, hwritten⟩
    cases a with
    | pixel x y addr c =>
      obtain ⟨hx, hy, -, rfl, hbit⟩ := pixel_mem_putChar.mp ha
      simp only [Framebuffer.written, Option.some.injEq, Prod.mk.injEq] at hwritten
      exact ⟨hwritten.2.symm, x, hx, y, hy, hwritten.1.symm, hbit⟩
    | clear addr c => exact absurd ha clear_notMem_putChar
    | read what addr size => cases hwritten
    | putChar chr x y => cases hwritten
  · rintro ⟨rfl, x, hx, y, hy, rfl, hbit⟩
    exact ⟨.pixel x y _ color', pixel_mem_putChar.mpr ⟨hx, hy, rfl, rfl, hbit⟩, rfl⟩

section Box

variable (hchsize : font.chsize = 16) (hchr : chr.toNat < 128)
  (hx : xOff.toNat + 8 ≤ fb.ppsl.toNat) (hy : yOff.toNat + 16 < 2 ^ 32)

include hchsize hchr hx hy

/-- They are those of the box whose bits are set. -/
theorem written_putChar_iff {i : ℕ} {color' : BitVec 32} :
    (i, color') ∈ (putChar mem fb font color chr xOff yOff).filterMap fb.written ↔
      color' = color ∧ ∃ r < 16, ∃ c < 8, i = fb.index (xOff.toNat + c) (yOff.toNat + r) ∧
        (glyphRow mem font chr r).getLsbD (7 - c) := by
  have hppsl := fb.ppsl.isLt
  rw [mem_written_putChar]
  refine and_congr_right fun _ => ?_
  constructor
  · rintro ⟨x, hxspan, y, hyspan, hi, hbit⟩
    have hx' := (mem_span_add (n := 8) (by decide)).mp hxspan
    have hy' := (mem_span_add (n := 16) (by decide)).mp hyspan
    rw [loadByte_fontPtr hchsize hchr, slt_glyphBit _ (by omega)] at hbit
    refine ⟨y - yOff.toNat, by omega, x - xOff.toNat, by omega, ?_, hbit⟩
    rw [hi, Nat.add_sub_cancel' hx'.2.1, Nat.add_sub_cancel' hy'.2.1]
  · rintro ⟨r, hr, c, hc, hi, hbit⟩
    refine ⟨xOff.toNat + c, (mem_span_add (n := 8) (by decide)).mpr (by omega), yOff.toNat + r,
      (mem_span_add (n := 16) (by decide)).mpr (by omega), hi, ?_⟩
    rw [Nat.add_sub_cancel_left, Nat.add_sub_cancel_left, loadByte_fontPtr hchsize hchr,
      slt_glyphBit _ hc]
    exact hbit

/-- **What `putChar` paints**: the pixels of the box that are set in the glyph, at the addresses of
their numbers, and no others. -/
theorem putChar_paints (pixels : ℕ → BitVec 32) :
    (∀ r < 16, ∀ c < 8,
      fb.painted pixels (putChar mem fb font color chr xOff yOff)
          (fb.index (xOff.toNat + c) (yOff.toNat + r)) =
        if (glyphRow mem font chr r).getLsbD (7 - c) then color
        else pixels (fb.index (xOff.toNat + c) (yOff.toNat + r))) ∧
      (∀ i, (∀ r < 16, ∀ c < 8, i ≠ fb.index (xOff.toNat + c) (yOff.toNat + r)) →
        fb.painted pixels (putChar mem fb font color chr xOff yOff) i = pixels i) ∧
      ∀ x y addr color', .pixel x y addr color' ∈ putChar mem fb font color chr xOff yOff →
        addr = fb.baseAddr + 4#64 * BitVec.ofNat 64 (fb.index x y) ∧ fb.index x y < 2 ^ 64 := by
  have hppsl := fb.ppsl.isLt
  refine ⟨fun r hr c hc => ?_, fun i hi => ?_, fun x y addr color' hpixel => ?_⟩
  · split_ifs with hbit
    · refine writes_of_mem _ (fun w hw _ => ?_) ?_
      · exact ((written_putChar_iff hchsize hchr hx hy).mp hw).1
      · exact (written_putChar_iff hchsize hchr hx hy).mpr ⟨rfl, r, hr, c, hc, rfl, hbit⟩
    · refine writes_of_notMem _ fun w hw heq => ?_
      obtain ⟨-, r', hr', c', hc', hw', hbit'⟩ := (written_putChar_iff hchsize hchr hx hy).mp hw
      rw [heq, index_inj (by omega) (by omega)] at hw'
      obtain rfl : r = r' := by omega
      obtain rfl : c = c' := by omega
      exact hbit hbit'
  · refine writes_of_notMem _ fun w hw heq => ?_
    obtain ⟨-, r, hr, c, hc, hw', -⟩ := (written_putChar_iff hchsize hchr hx hy).mp hw
    exact hi r hr c hc (heq ▸ hw')
  · obtain ⟨hxspan, hyspan, rfl, -, -⟩ := pixel_mem_putChar.mp hpixel
    have hx' := (mem_span_add (n := 8) (by decide)).mp hxspan
    have hy' := (mem_span_add (n := 16) (by decide)).mp hyspan
    exact ⟨pixelAddr_eq fb x y, index_lt (by omega) (by omega)⟩

end Box

/-- `A` on a small screen. -/
theorem putChar_paints_small :
    (plainFont.chsize = 16 ∧ (0x41 : BitVec 8).toNat < 128 ∧
      (100 : BitVec 32).toNat + 8 ≤ smallScreen.ppsl.toNat ∧ (50 : BitVec 32).toNat + 16 < 2 ^ 32) ∧
    ∀ r < 16, ∀ c < 8,
      smallScreen.painted (fun _ => 0) (putChar solid smallScreen plainFont 0xFFFFFF 0x41 100 50)
          (smallScreen.index ((100 : BitVec 32).toNat + c) ((50 : BitVec 32).toNat + r)) =
        if (glyphRow solid plainFont 0x41 r).getLsbD (7 - c) then 0xFFFFFF else 0 :=
  ⟨⟨rfl, by decide, by decide, by decide⟩,
    (putChar_paints rfl (by decide) (by decide) (by decide) fun _ => 0).1⟩

end KessOS
