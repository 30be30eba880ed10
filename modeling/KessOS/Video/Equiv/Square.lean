import KessOS.Video.Equiv.Paint

/-!
# What `draw_square` paints

The number of a pixel is an `int`, and an offset that leaves the range of `unsigned int` ends the
loop before it starts.  Within these bounds `draw_square` colours the pixels of its rectangle, at
their addresses, and no others (`drawSquare_paints`).
-/

namespace KessOS

open Copy

variable {fb : Framebuffer} {x y w h color : BitVec 32}

/-- A number below 2^31 is the same as an `int`. -/
theorem getPixelIdx_signExtend {x y : ℕ} (hindex : fb.index x y < 2 ^ 31) :
    (getPixelIdx fb (BitVec.ofNat 32 x) (BitVec.ofNat 32 y)).signExtend 64 =
      BitVec.ofNat 64 (fb.index x y) := by
  have hidx : getPixelIdx fb (BitVec.ofNat 32 x) (BitVec.ofNat 32 y) =
      BitVec.ofNat 32 (fb.index x y) := by
    have hppsl : fb.ppsl = BitVec.ofNat 32 fb.ppsl.toNat := by
      rw [BitVec.ofNat_toNat, BitVec.setWidth_eq]
    rw [getPixelIdx, Framebuffer.index, BitVec.ofNat_add, BitVec.ofNat_mul, ← hppsl]
  have hnat : (BitVec.ofNat 32 (fb.index x y)).toNat = fb.index x y := by
    rw [BitVec.toNat_ofNat]
    omega
  have hmsb : (BitVec.ofNat 32 (fb.index x y)).msb = false := by
    rw [BitVec.msb_eq_false_iff_two_mul_lt, hnat]
    omega
  rw [hidx, BitVec.signExtend_eq_setWidth_of_msb_false hmsb]
  apply BitVec.eq_of_toNat_eq
  rw [BitVec.toNat_setWidth, hnat, BitVec.toNat_ofNat]

section Rectangle

variable (hx : x.toNat + w.toNat < 2 ^ 32) (hy : y.toNat + h.toNat < 2 ^ 32)

include hx hy

/-- The pixels that are written are those of the rectangle. -/
theorem pixel_mem_drawSquare {x' y' : ℕ} {addr : Addr} {color' : BitVec 32} :
    .pixel x' y' addr color' ∈ drawSquare fb x y w h color ↔
      (x.toNat ≤ x' ∧ x' < x.toNat + w.toNat) ∧ (y.toNat ≤ y' ∧ y' < y.toNat + h.toNat) ∧
        addr = fb.baseAddr + 4#64 *
          (getPixelIdx fb (BitVec.ofNat 32 x') (BitVec.ofNat 32 y')).signExtend 64 ∧
        color' = color := by
  have hxspan : ∀ sx, sx ∈ span x (x + w) ↔ x.toNat ≤ sx ∧ sx < x.toNat + w.toNat := by
    intro sx
    rw [mem_span, BitVec.toNat_add, Nat.mod_eq_of_lt hx]
  have hyspan : ∀ sy, sy ∈ span y (y + h) ↔ y.toNat ≤ sy ∧ sy < y.toNat + h.toNat := by
    intro sy
    rw [mem_span, BitVec.toNat_add, Nat.mod_eq_of_lt hy]
  simp only [drawSquare, putPix, List.mem_flatMap, hxspan, hyspan, List.mem_cons, reduceCtorEq,
    List.not_mem_nil, or_false, false_or, Access.pixel.injEq, BitVec.toNat_ofNat]
  constructor
  · rintro ⟨sx, hsx, sy, hsy, rfl, rfl, rfl, rfl⟩
    rw [Nat.mod_eq_of_lt (by omega), Nat.mod_eq_of_lt (by omega)]
    exact ⟨hsx, hsy, rfl, rfl⟩
  · rintro ⟨hsx, hsy, rfl, rfl⟩
    exact ⟨x', hsx, y', hsy, (Nat.mod_eq_of_lt (by omega)).symm,
      (Nat.mod_eq_of_lt (by omega)).symm, rfl, rfl⟩

theorem mem_written_drawSquare {i : ℕ} {color' : BitVec 32} :
    (i, color') ∈ (drawSquare fb x y w h color).filterMap fb.written ↔
      color' = color ∧ ∃ x' y', (x.toNat ≤ x' ∧ x' < x.toNat + w.toNat) ∧
        (y.toNat ≤ y' ∧ y' < y.toNat + h.toNat) ∧ i = fb.index x' y' := by
  rw [List.mem_filterMap]
  constructor
  · rintro ⟨a, ha, hwritten⟩
    cases a with
    | pixel x' y' addr c =>
      obtain ⟨hx', hy', -, rfl⟩ := (pixel_mem_drawSquare hx hy).mp ha
      simp only [Framebuffer.written, Option.some.injEq, Prod.mk.injEq] at hwritten
      exact ⟨hwritten.2.symm, x', y', hx', hy', hwritten.1.symm⟩
    | clear addr c => simp [drawSquare, putPix] at ha
    | read what addr size => cases hwritten
    | putChar chr x y => cases hwritten
  · rintro ⟨rfl, x', y', hx', hy', rfl⟩
    exact ⟨.pixel x' y' _ color', (pixel_mem_drawSquare hx hy).mpr ⟨hx', hy', rfl, rfl⟩, rfl⟩

end Rectangle

/-- **What `draw_square` paints**: the pixels of the rectangle, at the addresses of their numbers,
and no others, as long as their numbers are below 2^31. -/
theorem drawSquare_paints (hright : x.toNat + w.toNat ≤ fb.ppsl.toNat)
    (hbelow : ∀ x' y', x.toNat ≤ x' ∧ x' < x.toNat + w.toNat →
      y.toNat ≤ y' ∧ y' < y.toNat + h.toNat → fb.index x' y' < 2 ^ 31) (pixels : ℕ → BitVec 32) :
    (∀ x' < fb.ppsl.toNat, ∀ y',
      fb.painted pixels (drawSquare fb x y w h color) (fb.index x' y') =
        if (x.toNat ≤ x' ∧ x' < x.toNat + w.toNat) ∧ y.toNat ≤ y' ∧ y' < y.toNat + h.toNat then
          color
        else pixels (fb.index x' y')) ∧
      ∀ x' y' addr color', .pixel x' y' addr color' ∈ drawSquare fb x y w h color →
        addr = fb.baseAddr + 4#64 * BitVec.ofNat 64 (fb.index x' y') := by
  have hx : x.toNat + w.toNat < 2 ^ 32 := hright.trans_lt fb.ppsl.isLt
  rcases Nat.eq_zero_or_pos w.toNat with hw | hw
  -- The square has no columns.
  · have hnone : drawSquare fb x y w h color = [] := by
      have hspan : span x (x + w) = [] := by
        rw [BitVec.eq_of_toNat_eq (y := 0#32) hw, BitVec.add_zero, span, Nat.sub_self]
        rfl
      rw [drawSquare, hspan]
      rfl
    rw [hnone]
    refine ⟨fun x' _ y' => ?_, fun x' y' addr color' hpixel => absurd hpixel List.not_mem_nil⟩
    rw [if_neg fun hinside => by omega]
    rfl
  have hy : y.toNat + h.toNat < 2 ^ 32 := by
    rcases Nat.eq_zero_or_pos h.toNat with hh | hh
    · have hlt := y.isLt
      omega
    -- The number of a pixel is no less than its row.
    · have hlast := hbelow x.toNat (y.toNat + h.toNat - 1) (by omega) (by omega)
      have hrow := Nat.le_mul_of_pos_right (y.toNat + h.toNat - 1)
        (show 0 < fb.ppsl.toNat by omega)
      unfold Framebuffer.index at hlast
      omega
  refine ⟨fun x' hx' y' => ?_, fun x' y' addr color' hpixel => ?_⟩
  · split_ifs with hinside
    · refine writes_of_mem pixels (fun w hw _ => ((mem_written_drawSquare hx hy).mp hw).1) ?_
      exact (mem_written_drawSquare hx hy).mpr ⟨rfl, x', y', hinside.1, hinside.2, rfl⟩
    · refine writes_of_notMem pixels fun w hw heq => hinside ?_
      obtain ⟨-, x'', y'', hx'', hy'', hindex⟩ := (mem_written_drawSquare hx hy).mp hw
      rw [heq, index_inj hx' (by omega)] at hindex
      obtain ⟨rfl, rfl⟩ := hindex
      exact ⟨hx'', hy''⟩
  · obtain ⟨hx', hy', rfl, -⟩ := (pixel_mem_drawSquare hx hy).mp hpixel
    rw [getPixelIdx_signExtend (hbelow x' y' hx' hy')]

/-- A square on the small screen. -/
theorem drawSquare_paints_small :
    smallScreen.painted (fun _ => 0) (drawSquare smallScreen 100 50 8 8 0xFFFFFF)
        (smallScreen.index 107 57) = 0xFFFFFF := by
  have hbelow : ∀ x' y', (100#32).toNat ≤ x' ∧ x' < (100#32).toNat + (8#32).toNat →
      (50#32).toNat ≤ y' ∧ y' < (50#32).toNat + (8#32).toNat →
        smallScreen.index x' y' < 2 ^ 31 := by
    intro x' y' hx hy
    have hppsl : smallScreen.ppsl.toNat = 640 := rfl
    have height : (8#32).toNat = 8 := rfl
    rw [height] at hx hy
    rw [Framebuffer.index, hppsl]
    have hleft : (100#32).toNat = 100 := rfl
    have htop : (50#32).toNat = 50 := rfl
    omega
  obtain ⟨hpaints, -⟩ := drawSquare_paints (by decide) hbelow fun _ => 0
  exact (hpaints 107 (by decide) 57).trans (if_pos (by decide))

end KessOS
