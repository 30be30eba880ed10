import KessOS.Acpi.Equiv.Rsdt
import KessOS.Kernel.Equiv.Touch
import KessOS.Video.Equiv.Paint

/-!
# What lies low

Where all addresses below a limit are in a set, the console draws in the set if its records, its
glyphs and its screen end at the limit (`typedIn_of_low`), and the tables of the firmware are in it
if the RSDP is, and the RSDT is not too long (`tablesIn_of_low`).
-/

namespace KessOS

open Trace

variable {mem : PhysMem} {C : Addr → Prop} {limit : ℕ} {c : Canvas}
  {ts : List (BitVec 32 × BitVec 8)}

/-- What the console uses ends at `limit`: its records, the glyphs of the characters below 128, with
16 rows to a glyph, and the screen. -/
structure EndsBelow (limit : ℕ) (fb : Framebuffer) (font : Psf1Font) : Prop where
  screenRecord : fb.addr.toNat + 28 ≤ limit
  fontRecord : font.addr.toNat + 16 ≤ limit
  header : font.header.toNat + 4 ≤ limit
  glyphs : font.glyphBuffer.toNat + 128 * 16 ≤ limit
  chsize : font.chsize = 16
  lines : fb.width ≤ fb.ppsl
  height : 480 ≤ fb.height
  screen : fb.baseAddr.toNat + 4 * (fb.ppsl.toNat * fb.height.toNat) ≤ limit

section

variable (hlow : ∀ b, b.toNat < limit → C b)

include hlow

theorem covers_of_low {a : Addr} {size : ℕ} (h : a.toNat + size ≤ limit) : Covers C a size :=
  fun i hi => hlow _ ((toNat_add_ofNat_le a i).trans_lt (by omega))

theorem covers_add_of_low {a : Addr} {n size : ℕ} (h : a.toNat + n + size ≤ limit) :
    Covers C (a + BitVec.ofNat 64 n) size :=
  covers_of_low hlow ((Nat.add_le_add_right (toNat_add_ofNat_le a n) size).trans h)

/-! ### The console -/

/-- The pixels of a screen that ends at `limit`. -/
theorem covers_pixelAddr {fb : Framebuffer} {x y : ℕ} {color : BitVec 32}
    (hscreen : fb.baseAddr.toNat + 4 * (fb.ppsl.toNat * fb.height.toNat) ≤ limit)
    (h : fb.OnScreen (.pixel x y (pixelAddr fb x y) color)) : Covers C (pixelAddr fb x y) 4 := by
  have hindex : fb.index x y < fb.ppsl.toNat * fb.height.toNat := h.2.2
  have hoffset : 4#64 * BitVec.ofNat 64 (fb.index x y) = BitVec.ofNat 64 (4 * fb.index x y) :=
    (BitVec.ofNat_mul ..).symm
  rw [pixelAddr_eq, hoffset]
  exact covers_add_of_low hlow (by omega)

theorem drawnIn_of_low {t : BitVec 32 × BitVec 8} (hc : EndsBelow limit c.lfb c.font)
    (hascii : t.2.toNat < 128) (hroom : c.RoomFor) (hnewline : t.2 ≠ newline) :
    c.DrawnIn C mem t.2 where
  height := covers_add_of_low (n := 20) hlow (by have := hc.screenRecord; omega)
  base := covers_of_low hlow (by have := hc.screenRecord; omega)
  glyphBuffer := covers_add_of_low (n := 8) hlow hc.fontRecord
  header := covers_of_low hlow (by have := hc.fontRecord; omega)
  chsize := covers_one.mp (covers_add_of_low (n := 3) hlow hc.header)
  pixels := by
    intro y hy x hx
    obtain ⟨-, hyl, hyh⟩ := (mem_span_add (n := 16) (by decide)).mp hy
    have hrow : C (fontPtr c.font t.2 + BitVec.ofNat 64 (y - c.wrapped.y.toNat)) := by
      rw [fontPtr_row hc.chsize hascii]
      exact covers_one.mp (covers_add_of_low hlow (by have := hc.glyphs; omega))
    refine ⟨hrow, fun hbit => ⟨covers_add_of_low (n := 24) hlow hc.screenRecord, ?_⟩⟩
    have hpixel : .pixel x y (pixelAddr c.lfb x y) t.1 ∈ c.out mem t := by
      rw [Canvas.out_of_ne hnewline]
      exact List.mem_cons_of_mem _ (pixel_mem_putChar.mpr ⟨hx, hy, rfl, rfl, hbit⟩)
    exact covers_pixelAddr hlow hc.screen (out_onScreen hc.lines hc.height (.inr hroom) _ hpixel)

/-- What is typed is drawn below the limit, if there is room for it. -/
theorem typedIn_of_low (hc : EndsBelow limit c.lfb c.font) (hroom : Along Canvas.act
    (fun c t => t.2 = newline ∨ (t.2.toNat < 128 ∧ c.RoomFor)) c ts) : TypedIn C mem c ts := by
  refine hroom.mono_of_invariant (I := fun c => EndsBelow limit c.lfb c.font) hc ?_ ?_
  · intro c t hc
    rw [show (c.act t).lfb = c.lfb from Canvas.type_lfb t.2 c,
      show (c.act t).font = c.font from Canvas.type_font t.2 c]
    exact hc
  · intro c t hc hroom hnewline
    obtain ⟨hascii, hroom⟩ := hroom.resolve_left hnewline
    exact drawnIn_of_low hlow hc hascii hroom hnewline

/-! ### The tables -/

theorem signatureIn_of_low {a : Addr} {s : Bytes} {n : ℕ} (h : a.toNat + n ≤ limit) :
    SignatureIn C mem a s n :=
  fun i hi _ _ => covers_of_low hlow h i hi

/-- The tables lie below the limit, as the pointers to them have 32 bits, if the RSDT is not too
long. -/
theorem tablesIn_of_low {rsdp : Addr} {flags : BitVec 8} (hrsdp : rsdp.toNat + 20 ≤ limit)
    (hheader : 36 ≤ (load32 mem (rsdtOf mem rsdp + 4)).toNat)
    (hlength : 2 ^ 32 + (load32 mem (rsdtOf mem rsdp + 4)).toNat ≤ limit) :
    TablesIn C mem rsdp flags := by
  have hrsdt := rsdtOf_lt mem rsdp
  refine ⟨signatureIn_of_low hlow (by omega), fun _ => ⟨covers_add_of_low (n := 16) hlow hrsdp, ?_⟩⟩
  refine ⟨covers_add_of_low (n := 4) hlow (by omega), covers_of_low hlow (by omega), ?_⟩
  intro _ _ i hi _
  rw [entryCount_of_le hheader] at hi
  have hword := (load32 mem (rsdtOf mem rsdp + 4)).isLt
  have hslot := toNat_slotAddr hrsdt (i := i) (by omega)
  have htable := tableAt_lt mem (rsdtOf mem rsdp) i
  exact ⟨covers_of_low hlow (by omega), signatureIn_of_low hlow (by omega)⟩

end

end KessOS
