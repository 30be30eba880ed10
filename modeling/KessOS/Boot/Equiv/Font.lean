import KessOS.Boot.Font
import KessOS.Boot.Loader

/-!
# What `loadFont` accepts, and what it loads

`loadFont` tests the magic of a font with masks, and it makes room for 255 glyphs unless the mode
is exactly 1.  So it takes files for fonts that are none, and of the fonts it loads whole only
those with the mode 1, and those that have no rows (`loadsPsf1_iff`).
-/

namespace KessOS

variable {file : List (BitVec 8)} {header : Psf1Header}

/-! ### PSF1 -/

/-- The header of the file. -/
def fontHeader (file : List (BitVec 8)) : Psf1Header := Psf1Header.ofBytes (byteOf file)

/-- The first two bytes of a PSF1 file. -/
def Psf1Header.IsPsf1 (header : Psf1Header) : Prop := header.magic0 = 0x36 ∧ header.magic1 = 0x04

/-- Bit 0 of the mode. -/
def Psf1Header.glyphs (header : Psf1Header) : ℕ := if header.mode.getLsbD 0 then 512 else 256

/-- The bytes of the glyph table. -/
def Psf1Header.tableSize (header : Psf1Header) : ℕ := header.glyphs * header.chsize.toNat

/-- The glyph buffer has room for every glyph, and holds what the file does. -/
def LoadedFont.Whole (font : LoadedFont) (file : List (BitVec 8)) : Prop :=
  font.header.tableSize ≤ font.header.glyphBufferSize.toNat ∧
    ∃ pool, font.glyphBuffer = some pool ∧
      ∀ k < font.header.tableSize, file[psf1HeaderSize + k]? = some (pool.bytes k)

/-- `loadFont` returns a font if, and only if, the file is one, and then it is there as a whole. -/
def LoadsPsf1 (fw : FontAnswers) (file : List (BitVec 8)) : Prop :=
  ∃ font, loadFont fw file = .ok font ∧ (font.isSome ↔ (fontHeader file).IsPsf1) ∧
    ∀ loaded, font = some loaded → loaded.Whole file

theorem Psf1Header.IsPsf1.not_invalid (h : header.IsPsf1) : header.invalid = false := by
  have hmasks : (0x36#8 &&& psf1Magic0 == 0 || 0x04#8 &&& psf1Magic1 == 0) = false := by decide
  rw [Psf1Header.invalid, h.1, h.2]
  exact hmasks

/-- An `int` product that is in range, as a `long`. -/
theorem toInt_signExtend_mul (x y : BitVec 32) (hlo : -2 ^ 31 ≤ x.toInt * y.toInt)
    (hhi : x.toInt * y.toInt < 2 ^ 31) :
    ((x * y).signExtend 64).toInt = x.toInt * y.toInt := by
  rw [BitVec.toInt_signExtend_of_le (by decide), BitVec.toInt_mul]
  exact Int.bmod_eq_of_le (by omega) (by omega)

theorem toInt_setWidth_byte (x : BitVec 8) : (x.setWidth 32).toInt = x.toNat := by
  have hlt := x.isLt
  rw [BitVec.toInt_setWidth]
  exact Int.bmod_eq_of_le (by omega) (by omega)

theorem toNat_signExtend_mul (chsize : BitVec 8) {n : ℕ} (hn : n ≤ 512) :
    ((chsize.setWidth 32 * BitVec.ofNat 32 n).signExtend 64).toNat = n * chsize.toNat := by
  have hlt := chsize.isLt
  have hfactor : (BitVec.ofNat 32 n).toInt = n := by
    rw [BitVec.toInt_ofNat']
    exact Int.bmod_eq_of_le (by omega) (by omega)
  have hle : chsize.toNat * n ≤ 255 * 512 := Nat.mul_le_mul (by omega) hn
  have hmul := toInt_signExtend_mul (chsize.setWidth 32) (BitVec.ofNat 32 n)
  rw [toInt_setWidth_byte, hfactor, ← Int.natCast_mul] at hmul
  have hint := hmul (by omega) (by omega)
  rw [BitVec.toInt_eq_toNat_cond] at hint
  rw [Nat.mul_comm]
  split at hint
  · omega
  · omega

theorem glyphBufferSize_toNat (header : Psf1Header) :
    header.glyphBufferSize.toNat =
      (if header.mode = 1 then 512 else 255) * header.chsize.toNat := by
  unfold Psf1Header.glyphBufferSize
  split_ifs
  · exact toNat_signExtend_mul header.chsize (n := 512) le_rfl
  · exact toNat_signExtend_mul header.chsize (n := 255) (by decide)

/-- There is room for every glyph in mode 1, or if the glyphs have no rows. -/
theorem tableSize_le_iff (header : Psf1Header) :
    header.tableSize ≤ header.glyphBufferSize.toNat ↔ header.chsize = 0 ∨ header.mode = 1 := by
  have hzero : header.chsize = 0 ↔ header.chsize.toNat = 0 := by bv_omega
  rw [glyphBufferSize_toNat, Psf1Header.tableSize, Psf1Header.glyphs, hzero]
  split_ifs with hbit hmode hmode
  · exact iff_of_true le_rfl (Or.inr hmode)
  · rw [or_iff_left hmode]
    omega
  · have hset : (1 : BitVec 8).getLsbD 0 = true := by decide
    rw [hmode] at hbit
    exact absurd hset hbit
  · rw [or_iff_left hmode]
    omega

/-! ### The run -/

/-- What a firmware hands out that answers every call of `loadFont` with success. -/
structure FontGrants where
  loadedImage : Addr
  fs : Addr
  dir : Addr
  file : Addr
  header : Pool
  glyphs : Pool
  font : Pool

namespace FontGrants

def answers (grants : FontGrants) : FontAnswers where
  file := ⟨some grants.loadedImage, some grants.fs, some grants.dir, some grants.file⟩
  headerPool := some grants.header
  readHeader := .success
  setPosition := .success
  glyphPool := some grants.glyphs
  readGlyphs := .success
  fontPool := some grants.font

variable (grants : FontGrants)

/-- The header that is read. -/
def headerOf (file : List (BitVec 8)) : Psf1Header :=
  Psf1Header.ofBytes (Copy.Block.put grants.header.bytes ⟨0, file.take psf1HeaderSize⟩)

/-- The glyph buffer after the `Read`. -/
def glyphsOf (file : List (BitVec 8)) : Pool :=
  { grants.glyphs with
    bytes := Copy.Block.put grants.glyphs.bytes
      ⟨0, (file.drop psf1HeaderSize).take (grants.headerOf file).glyphBufferSize.toNat⟩ }

/-- The font that is loaded. -/
def loaded (file : List (BitVec 8)) : LoadedFont where
  addr := grants.font.addr
  headerAddr := grants.header.addr
  header := grants.headerOf file
  glyphBuffer := some (grants.glyphsOf file)

theorem loadFont_answers (file : List (BitVec 8)) :
    loadFont grants.answers file =
      .ok (if (grants.headerOf file).invalid then none else some (grants.loaded file)) := by
  show (if (grants.headerOf file).invalid then Except.ok none
    else Except.ok (some (grants.loaded file))) = _
  split_ifs
  · rfl
  · rfl

/-- The font that is returned has the glyph buffer that was handed out. -/
theorem glyphBuffer_of_loadFont {loaded : LoadedFont}
    (h : loadFont grants.answers file = .ok (some loaded)) :
    loaded.glyphBuffer = some (grants.glyphsOf file) := by
  rw [loadFont_answers] at h
  split_ifs at h
  · cases h
  · obtain rfl := Option.some.inj (Except.ok.inj h)
    rfl

theorem headerOf_eq (h : psf1HeaderSize ≤ file.length) :
    grants.headerOf file = fontHeader file := by
  have hbyte : ∀ k < psf1HeaderSize,
      Copy.Block.put grants.header.bytes ⟨0, file.take psf1HeaderSize⟩ k = byteOf file k := by
    intro k hk
    have hlen : k < (file.take psf1HeaderSize).length := by
      rw [List.length_take]
      omega
    have hput := Copy.Block.put_at grants.header.bytes ⟨0, file.take psf1HeaderSize⟩ hlen
    rw [Nat.zero_add] at hput
    rw [hput, byteOf, List.getElem_take, List.getD_eq_getElem _ _ (by omega)]
  unfold psf1HeaderSize at hbyte
  simp (disch := decide) only [headerOf, fontHeader, Psf1Header.ofBytes, psf1HeaderSize, hbyte]

/-- The glyphs are there as far as the file holds them. -/
theorem loaded_whole_iff (file : List (BitVec 8)) :
    (grants.loaded file).Whole file ↔
      (grants.headerOf file).chsize = 0 ∨ ((grants.headerOf file).mode = 1 ∧
        psf1HeaderSize + 512 * (grants.headerOf file).chsize.toNat ≤ file.length) := by
  set header := grants.headerOf file with hheader
  have hread : (grants.loaded file).Whole file ↔
      header.tableSize ≤ header.glyphBufferSize.toNat ∧
        ∀ k < header.tableSize,
          file[psf1HeaderSize + k]? = some ((grants.glyphsOf file).bytes k) := by
    constructor
    · rintro ⟨hroom, pool, hpool, hbytes⟩
      obtain rfl := Option.some.inj hpool
      exact ⟨hroom, hbytes⟩
    · exact fun ⟨hroom, hbytes⟩ => ⟨hroom, _, rfl, hbytes⟩
  rw [hread, tableSize_le_iff]
  have hzero : header.chsize = 0 → header.tableSize = 0 := by
    intro h
    rw [Psf1Header.tableSize, h]
    rfl
  have hone : header.mode = 1 → header.tableSize = 512 * header.chsize.toNat := by
    intro h
    rw [Psf1Header.tableSize, Psf1Header.glyphs, h]
    rfl
  constructor
  · rintro ⟨hchsize | hmode, hbytes⟩
    · exact Or.inl hchsize
    · by_cases hpos : header.chsize = 0
      · exact Or.inl hpos
      · have hlast := hbytes (header.tableSize - 1) (by rw [hone hmode]; bv_omega)
        obtain ⟨hlt, -⟩ := List.getElem?_eq_some_iff.mp hlast
        have hsize := hone hmode
        exact Or.inr ⟨hmode, by bv_omega⟩
  · rintro (hchsize | ⟨hmode, hlen⟩)
    · exact ⟨Or.inl hchsize, fun k hk => absurd (hzero hchsize ▸ hk) (Nat.not_lt_zero k)⟩
    · refine ⟨Or.inr hmode, fun k hk => ?_⟩
      have hsize := hone hmode
      have hbuffer : header.glyphBufferSize.toNat = 512 * header.chsize.toNat := by
        rw [glyphBufferSize_toNat, if_pos hmode]
      have hk' : k < ((file.drop psf1HeaderSize).take header.glyphBufferSize.toNat).length := by
        rw [List.length_take, List.length_drop, hbuffer]
        omega
      have hput := Copy.Block.put_at grants.glyphs.bytes
        ⟨0, (file.drop psf1HeaderSize).take header.glyphBufferSize.toNat⟩ hk'
      rw [Nat.zero_add] at hput
      show _ = some (Copy.Block.put grants.glyphs.bytes
        ⟨0, (file.drop psf1HeaderSize).take header.glyphBufferSize.toNat⟩ k)
      rw [hput, List.getElem_take, List.getElem_drop]
      exact List.getElem?_eq_getElem _

end FontGrants

/-! ### The law -/

/-- **What `loadFont` loads.**  With a firmware that never fails, a file that has a header is
treated as it should be if its magic fails the test of the masks, or if it is that of a font whose
glyphs have no rows, or whose mode is 1 and whose glyphs are all in the file. -/
theorem loadsPsf1_iff (grants : FontGrants) (h : psf1HeaderSize ≤ file.length) :
    LoadsPsf1 grants.answers file ↔
      (fontHeader file).invalid ∨
        ((fontHeader file).IsPsf1 ∧ ((fontHeader file).chsize = 0 ∨ ((fontHeader file).mode = 1 ∧
          psf1HeaderSize + 512 * (fontHeader file).chsize.toNat ≤ file.length))) := by
  have hheader := grants.headerOf_eq h
  have hwhole := grants.loaded_whole_iff file
  have hrun := grants.loadFont_answers file
  rw [hheader] at hwhole hrun
  cases hinvalid : (fontHeader file).invalid with
  | true =>
    rw [hinvalid, if_pos rfl] at hrun
    refine iff_of_true ⟨none, hrun, ?_, fun loaded hloaded => by cases hloaded⟩ (Or.inl rfl)
    refine iff_of_false (by simp) fun hpsf1 => ?_
    rw [hpsf1.not_invalid] at hinvalid
    cases hinvalid
  | false =>
    rw [hinvalid, if_neg Bool.false_ne_true] at hrun
    rw [← hwhole, or_iff_right Bool.false_ne_true]
    constructor
    · rintro ⟨font, hfont, hiff, hall⟩
      obtain rfl := Except.ok.inj (hfont.symm.trans hrun)
      exact ⟨hiff.mp rfl, hall _ rfl⟩
    · rintro ⟨hpsf1, hall⟩
      refine ⟨_, hrun, iff_of_true rfl hpsf1, fun loaded hloaded => ?_⟩
      obtain rfl := Option.some.inj hloaded
      exact hall

def plainGrants : FontGrants where
  loadedImage := 0x1000
  fs := 0x2000
  dir := 0x3000
  file := 0x4000
  header := ⟨0x5000, fun _ => 0⟩
  glyphs := ⟨0x6000, fun _ => 0⟩
  font := ⟨0x26000, fun _ => 0⟩

/-- 512 glyphs of one row. -/
def wideFontFile : List (BitVec 8) := [0x36, 0x04, 0x01, 0x01] ++ List.replicate 512 0

theorem loadsPsf1_wide :
    LoadsPsf1 plainGrants.answers wideFontFile ↔
      (fontHeader wideFontFile).invalid ∨
        ((fontHeader wideFontFile).IsPsf1 ∧
          ((fontHeader wideFontFile).chsize = 0 ∨ ((fontHeader wideFontFile).mode = 1 ∧
            psf1HeaderSize + 512 * (fontHeader wideFontFile).chsize.toNat ≤
              wideFontFile.length))) :=
  loadsPsf1_iff plainGrants (by
    rw [wideFontFile, List.length_append, List.length_replicate]
    decide)

/-- 256 glyphs of 16 rows, with the header of the font that comes with the kernel. -/
def zapFontFile : List (BitVec 8) := [0x36, 0x04, 0x02, 0x10] ++ List.replicate 4096 0

theorem headerOf_zap : plainGrants.headerOf zapFontFile = ⟨0x36, 0x04, 0x02, 0x10⟩ := by
  rw [plainGrants.headerOf_eq (by
    rw [zapFontFile, List.length_append, List.length_replicate]
    decide)]
  rfl

theorem loadFont_zap :
    loadFont plainGrants.answers zapFontFile = .ok (some (plainGrants.loaded zapFontFile)) := by
  rw [plainGrants.loadFont_answers, headerOf_zap]
  rfl

/-- The last glyph is not loaded. -/
theorem not_loadsPsf1_zap : ¬ LoadsPsf1 plainGrants.answers zapFontFile := by
  have hwhole := plainGrants.loaded_whole_iff zapFontFile
  rw [headerOf_zap] at hwhole
  rintro ⟨font, hfont, -, hall⟩
  obtain rfl := Except.ok.inj (hfont.symm.trans loadFont_zap)
  have hchsize := hwhole.mp (hall _ rfl)
  exact absurd (hchsize.imp_right And.left) (by decide)

end KessOS
