import KessOS.Boot.Equiv.Font
import KessOS.Video.Equiv.Bounds

/-!
# The rows of a glyph

`putChar`, of the bootloader and of the kernel alike, reads 16 rows whatever the size of a glyph
is, from a place that it takes from a signed character.  So the rows are those of the glyph only
if a glyph has 16 rows or more and the character is one of the first 128
(`readsOwnGlyph_iff`).
-/

namespace KessOS

variable {mem : PhysMem} {fb : Framebuffer} {font : Psf1Font} {color xOff yOff : BitVec 32}
  {chr : BitVec 8} {file : List (BitVec 8)}

/-! ### Where the rows are read -/

/-- How far into the glyph buffer the row `r` is looked for. -/
def rowOffset (chsize chr : BitVec 8) (r : ℕ) : ℤ := chr.toInt * chsize.toNat + r

theorem toInt_mul_bounds (chr chsize : BitVec 8) :
    -32640 ≤ chr.toInt * chsize.toNat ∧ chr.toInt * chsize.toNat ≤ 32385 := by
  have hlo := BitVec.le_toInt chr
  have hhi := BitVec.toInt_lt (x := chr)
  have hsize := chsize.isLt
  have hleft : -128 * (chsize.toNat : ℤ) ≤ chr.toInt * chsize.toNat :=
    Int.mul_le_mul_of_nonneg_right (by omega) (by omega)
  have hright : chr.toInt * chsize.toNat ≤ 127 * (chsize.toNat : ℤ) :=
    Int.mul_le_mul_of_nonneg_right (by omega) (by omega)
  omega

/-- The product is an `int` that is added to a pointer. -/
theorem fontPtr_add (font : Psf1Font) (chr : BitVec 8) (r : ℕ) :
    fontPtr font chr + BitVec.ofNat 64 r =
      font.glyphBuffer + BitVec.ofInt 64 (rowOffset font.chsize chr r) := by
  have hchr : (chr.signExtend 32).toInt = chr.toInt :=
    BitVec.toInt_signExtend_of_le (by decide)
  obtain ⟨hlo, hhi⟩ := toInt_mul_bounds chr font.chsize
  have hint := toInt_signExtend_mul (chr.signExtend 32) (font.chsize.setWidth 32)
  rw [hchr, toInt_setWidth_byte] at hint
  have hword : (chr.signExtend 32 * font.chsize.setWidth 32).signExtend 64 =
      BitVec.ofInt 64 (chr.toInt * font.chsize.toNat) := by
    rw [← hint (by omega) (by omega), BitVec.ofInt_toInt]
  rw [fontPtr, hword, BitVec.add_assoc, rowOffset, BitVec.ofInt_add]
  rfl

/-- `P` holds of the address of every row of a glyph that is read. -/
def Access.Rows (P : Addr → Prop) : Access → Prop
  | .read .glyph a _ => P a
  | _ => True

/-- The rows that `putChar` reads. -/
theorem forall_rows_putChar {P : Addr → Prop} :
    (∀ a ∈ putChar mem fb font color chr xOff yOff, a.Rows P) ↔
      2 ^ 32 ≤ xOff.toNat + 8 ∨ 2 ^ 32 ≤ yOff.toNat + 16 ∨
        ∀ r < 16, P (font.glyphBuffer + BitVec.ofInt 64 (rowOffset font.chsize chr r)) := by
  rw [forall_mem_putChar]
  constructor
  · rintro ⟨-, h⟩
    by_contra hdrawn
    push Not at hdrawn
    obtain ⟨hx, hy, r, hr, hrow⟩ := hdrawn
    have hspan : yOff.toNat + r ∈ span yOff (yOff + 16) :=
      (mem_span_add (n := 16) (by decide)).mpr (by omega)
    have hcolumn : xOff.toNat ∈ span xOff (xOff + 8) :=
      (mem_span_add (n := 8) (by decide)).mpr (by omega)
    have hread : P (fontPtr font chr + BitVec.ofNat 64 (yOff.toNat + r - yOff.toNat)) :=
      (h _ hspan _ hcolumn).1
    rw [Nat.add_sub_cancel_left, fontPtr_add] at hread
    exact hrow hread
  · refine fun h => ⟨⟨trivial, trivial, trivial, trivial, trivial⟩, fun y hy x hx => ?_⟩
    have hx' := (mem_span_add (n := 8) (by decide)).mp hx
    have hy' := (mem_span_add (n := 16) (by decide)).mp hy
    refine ⟨?_, fun _ => ⟨trivial, trivial⟩⟩
    show P (fontPtr font chr + BitVec.ofNat 64 (y - yOff.toNat))
    rw [fontPtr_add]
    rcases h with hwrap | hwrap | hrows
    · omega
    · omega
    · exact hrows _ (by omega)

/-! ### Where they should be -/

/-- The byte at `a` lies in the glyph buffer, in a row of the glyph of the character. -/
def LoadedFont.InGlyph (font : LoadedFont) (buffer : Addr) (chr : BitVec 8) (a : Addr) : Prop :=
  ∃ k, a.toNat = buffer.toNat + k ∧ k < font.header.glyphBufferSize.toNat ∧
    chr.toNat * font.header.chsize.toNat ≤ k ∧ k < (chr.toNat + 1) * font.header.chsize.toNat

theorem glyphBufferSize_le (header : Psf1Header) : header.glyphBufferSize.toNat ≤ 130560 := by
  have hsize := header.chsize.isLt
  rw [glyphBufferSize_toNat]
  split_ifs
  · omega
  · omega

/-- A buffer that does not wrap around is as far from an address as the address from it. -/
theorem inGlyph_iff {font : LoadedFont} {buffer : Addr} {z : ℤ} (hz : -2 ^ 16 ≤ z ∧ z ≤ 2 ^ 16)
    (hfits : buffer.toNat + font.header.glyphBufferSize.toNat ≤ 2 ^ 64) :
    font.InGlyph buffer chr (buffer + BitVec.ofInt 64 z) ↔
      z < font.header.glyphBufferSize.toNat ∧
        (chr.toNat * font.header.chsize.toNat : ℕ) ≤ z ∧
        z < ((chr.toNat + 1) * font.header.chsize.toNat : ℕ) := by
  have hsize := glyphBufferSize_le font.header
  have hbuffer := buffer.isLt
  have haddr : ((buffer + BitVec.ofInt 64 z).toNat : ℤ) = (buffer.toNat + z) % 2 ^ 64 := by
    rw [BitVec.toNat_add, BitVec.toNat_ofInt]
    omega
  constructor
  · rintro ⟨k, hk, hlt, hfirst, hlast⟩
    rw [hk] at haddr
    obtain rfl : z = k := by omega
    exact ⟨by omega, by omega, by omega⟩
  · rintro ⟨hlt, hfirst, hlast⟩
    obtain ⟨k, rfl⟩ := Int.eq_ofNat_of_zero_le (by omega : 0 ≤ z)
    exact ⟨k, by omega, by omega, by omega, by omega⟩

/-- The rows that are read are the 16 of the glyph if there are as many and the character is not
negative. -/
theorem forall_inGlyph_iff {font : LoadedFont} {buffer : Addr}
    (hfits : buffer.toNat + font.header.glyphBufferSize.toNat ≤ 2 ^ 64) :
    (∀ r < 16, font.InGlyph buffer chr
      (buffer + BitVec.ofInt 64 (rowOffset font.header.chsize chr r))) ↔
      16 ≤ font.header.chsize.toNat ∧ chr.toNat < 128 := by
  have hlt := chr.isLt
  have hbounds := toInt_mul_bounds chr font.header.chsize
  have hiff : ∀ r < 16, (font.InGlyph buffer chr
      (buffer + BitVec.ofInt 64 (rowOffset font.header.chsize chr r)) ↔ _) := fun r hr =>
    inGlyph_iff (by rw [rowOffset]; omega) hfits
  have hsize := glyphBufferSize_toNat font.header
  constructor
  · intro h
    obtain ⟨hroom, hfirst, -⟩ := (hiff 0 (by decide)).mp (h 0 (by decide))
    obtain ⟨-, -, hlast⟩ := (hiff 15 (by decide)).mp (h 15 (by decide))
    rw [rowOffset] at hroom hfirst hlast
    have hchr : chr.toNat < 128 := by
      by_contra hneg
      have hint : chr.toInt = chr.toNat - 256 := by
        rw [BitVec.toInt_eq_toNat_cond]
        split <;> omega
      rw [hint, sub_mul] at hfirst hroom
      split at hsize <;> omega
    have hint : chr.toInt = chr.toNat := by
      rw [BitVec.toInt_eq_toNat_cond]
      split <;> omega
    rw [hint, Nat.succ_mul] at hlast
    omega
  · rintro ⟨hrows, hchr⟩ r hr
    have hint : chr.toInt = chr.toNat := by
      rw [BitVec.toInt_eq_toNat_cond]
      split <;> omega
    have hmul : chr.toNat * font.header.chsize.toNat ≤ 127 * font.header.chsize.toNat :=
      Nat.mul_le_mul_right _ (by omega)
    refine (hiff r hr).mpr ?_
    rw [rowOffset, hint, Nat.succ_mul]
    split at hsize <;> omega

/-! ### The law -/

/-- Every row that a call of `putChar` reads lies in the glyph buffer, and in the glyph. -/
def ReadsOwnGlyph (mem : PhysMem) (fb : Framebuffer) (font : LoadedFont) (color : BitVec 32)
    (chr : BitVec 8) (xOff yOff : BitVec 32) : Prop :=
  ∃ pool, font.glyphBuffer = some pool ∧
    ∀ a ∈ putChar mem fb (font.toPsf1Font pool.addr) color chr xOff yOff,
      a.Rows (font.InGlyph pool.addr chr)

/-- **Whether the rows are those of the glyph.**  With a font that `loadFont` has loaded, every row
that is read is in the glyph buffer and in the glyph if no row is read at all, since an offset
wraps at 2^32, or if a glyph has 16 rows or more and the character is one of the first 128. -/
theorem readsOwnGlyph_iff (grants : FontGrants) {loaded : LoadedFont}
    (hload : loadFont grants.answers file = .ok (some loaded))
    (hfits : grants.glyphs.addr.toNat + loaded.header.glyphBufferSize.toNat ≤ 2 ^ 64) :
    ReadsOwnGlyph mem fb loaded color chr xOff yOff ↔
      2 ^ 32 ≤ xOff.toNat + 8 ∨ 2 ^ 32 ≤ yOff.toNat + 16 ∨
        (16 ≤ loaded.header.chsize.toNat ∧ chr.toNat < 128) := by
  have hpool := grants.glyphBuffer_of_loadFont hload
  have hrows : (∀ a ∈ putChar mem fb (loaded.toPsf1Font grants.glyphs.addr) color chr xOff yOff,
      a.Rows (loaded.InGlyph grants.glyphs.addr chr)) ↔ _ := forall_rows_putChar
  rw [← forall_inGlyph_iff hfits]
  constructor
  · rintro ⟨pool, hpool', h⟩
    obtain rfl := Option.some.inj (hpool'.symm.trans hpool)
    exact hrows.mp h
  · exact fun h => ⟨_, hpool, hrows.mpr h⟩

/-- `A` with the font that comes with the kernel. -/
theorem readsOwnGlyph_zap :
    loadFont plainGrants.answers zapFontFile = .ok (some (plainGrants.loaded zapFontFile)) ∧
      (ReadsOwnGlyph solid smallScreen (plainGrants.loaded zapFontFile) 0 0x41 100 50 ↔
        2 ^ 32 ≤ (100 : BitVec 32).toNat + 8 ∨ 2 ^ 32 ≤ (50 : BitVec 32).toNat + 16 ∨
          (16 ≤ (plainGrants.loaded zapFontFile).header.chsize.toNat ∧
            (0x41 : BitVec 8).toNat < 128)) := by
  have hload := loadFont_zap
  exact ⟨hload, readsOwnGlyph_iff plainGrants hload (by decide)⟩

/-- The first row of the character 0x80 is looked for below the glyph buffer. -/
theorem not_readsOwnGlyph_zap :
    ¬ ReadsOwnGlyph solid smallScreen (plainGrants.loaded zapFontFile) 0 0x80 100 50 := by
  rintro ⟨pool, hpool, hrows⟩
  obtain rfl := Option.some.inj hpool
  rw [forall_rows_putChar] at hrows
  have hall := (hrows.resolve_left (by decide)).resolve_left (by decide)
  exact absurd ((forall_inGlyph_iff (by decide)).mp hall).2 (by decide)

end KessOS
