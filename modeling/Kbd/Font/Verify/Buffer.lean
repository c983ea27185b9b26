import Kbd.Font.Setfont
import Kbd.Font.Verify.Psf

/-!
# The buffer of `try_loadfont`

While its length fits into 32 bits, the buffer is filled without leaving it: each glyph has a slot of
`kcharsize` bytes, with the rows of the glyph at its start and zeros after them.
-/

namespace Kbd.Font

open Kbd.Lib Kbd.Lib.Buffer

/-- How often each pixel is repeated. -/
def zoom (double : Bool) : Nat := if double then 2 else 1

/-- The bytes of a row in the buffer. -/
def rowBytes (double : Bool) (width : Nat) : Nat := (zoom double * width + 7) / 8

/-- The rows of a slot. -/
def slotRows (double : Bool) (width height : Nat) : Nat :=
  max (loadPitch width height) (zoom double * height)

/-- The length of the buffer, without overflow. -/
def paddedSize (double : Bool) (width height fontsize : Nat) : Nat :=
  slotRows double width height * rowBytes double width * max 128 fontsize

/-- The sizes that `try_loadfont` accepts, with those that it doubles. -/
structure GlyphFits (double : Bool) (width height : Nat) : Prop where
  height_pos : 1 ≤ height
  height_le : height ≤ if double then 64 else 128
  width_pos : 1 ≤ width
  width_le : width ≤ if double then 32 else 64

theorem u32_of_lt {n : Nat} (h : n < 2 ^ 32) : u32 n = n := Nat.mod_eq_of_lt h

theorem le_loadPitch (width height : Nat) : height ≤ loadPitch width height := by
  rw [loadPitch]
  split <;> omega

namespace GlyphFits

variable {double : Bool} {width height : Nat} (h : GlyphFits double width height)
include h

theorem width_le_64 : width ≤ 64 := by
  have := h.width_le
  split at this <;> omega

theorem height_le_128 : height ≤ 128 := by
  have := h.height_le
  split at this <;> omega

/-- The sizes of the source have no overflow. -/
theorem glyphSizes_eq :
    glyphSizes double width height (loadPitch width height) =
      { bytewidth := (width + 7) / 8, charsize := height * ((width + 7) / 8),
        kbytewidth := rowBytes double width, vpitch := slotRows double width height,
        kcharsize := slotRows double width height * rowBytes double width } := by
  have hw := h.width_le_64
  have hh := h.height_le_128
  have hpitch := le_loadPitch width height
  have hp : loadPitch width height ≤ 128 := by
    rw [loadPitch]
    split <;> omega
  have hrb : rowBytes double width ≤ 16 := by
    rw [rowBytes, zoom]
    split <;> omega
  have hslot : slotRows double width height ≤ 256 := by
    rw [slotRows, zoom]
    split <;> omega
  have hbw : u32 (width + 7) / 8 = (width + 7) / 8 := by rw [u32_of_lt (by omega)]
  have hkbw : (if double then u32 (2 * width + 7) / 8 else u32 (width + 7) / 8) =
      rowBytes double width := by
    rw [rowBytes, zoom]
    split
    · rw [u32_of_lt (by omega)]
    · rw [hbw, Nat.one_mul]
  have hvp : (if double ∧ u32 (2 * height) > loadPitch width height then u32 (2 * height)
      else loadPitch width height) = slotRows double width height := by
    rw [u32_of_lt (by omega), slotRows, zoom]
    cases double with
    | false => simp [hpitch]
    | true =>
      simp only [true_and, if_true]
      split <;> omega
  have hcs : height * ((width + 7) / 8) ≤ 128 * 8 := Nat.mul_le_mul hh (by omega)
  have hkcs : slotRows double width height * rowBytes double width ≤ 256 * 16 :=
    Nat.mul_le_mul hslot hrb
  simp only [glyphSizes, hkbw, hvp]
  rw [hbw, u32_of_lt (by omega), u32_of_lt (by omega)]

end GlyphFits

/-! ## The writes -/

/-- Byte `x` of row `r` of a glyph, as it should be in the buffer. -/
def sourceByte (double : Bool) (inbuf : List UInt8) (width height g r x : Nat) : UInt8 :=
  let bw := (width + 7) / 8
  if double then doubledByte (inbuf.getD (g * (height * bw) + r / 2 * bw + x / 2) 0) x
  else inbuf.getD (g * (height * bw) + r * bw + x) 0

/-- The writes of a round of the loop that copies the glyphs. -/
def copyWrites (inbuf : List UInt8) (sz : GlyphSizes) (i : Nat) : List (Nat × UInt8) :=
  ((inbuf.drop (u32 (i * sz.charsize))).take sz.charsize).zipIdx.map
    fun (v, k) => (u32 (i * sz.kcharsize) + k, v)

/-- The writes of a round of the loops that double the glyphs. -/
def doubleWrites (inbuf : List UInt8) (sz : GlyphSizes) : Nat × Nat × Nat → List (Nat × UInt8)
  | (i, y, x) =>
    let b := inbuf.getD (u32 (i * sz.charsize + y * sz.bytewidth + x / 2)) 0
    [(u32 (i * sz.kcharsize + y * 2 * sz.kbytewidth + x), doubledByte b x),
      (u32 (i * sz.kcharsize + (y * 2 + 1) * sz.kbytewidth + x), doubledByte b x)]

/-- All writes to the buffer, in order. -/
def fillWrites (double : Bool) (inbuf : List UInt8) (sz : GlyphSizes) (height fontsize : Nat) :
    List (Nat × UInt8) :=
  if double then (loopIndices fontsize height sz.kbytewidth).flatMap (doubleWrites inbuf sz)
  else (List.range fontsize).flatMap (copyWrites inbuf sz)

theorem mem_loopIndices {n m l i y x : Nat} :
    (i, y, x) ∈ loopIndices n m l ↔ i < n ∧ y < m ∧ x < l := by
  simp only [loopIndices, List.mem_flatMap, List.mem_map, List.mem_range, Prod.mk.injEq]
  constructor
  · rintro ⟨i', hi, y', hy, x', hx, rfl, rfl, rfl⟩
    exact ⟨hi, hy, hx⟩
  · rintro ⟨hi, hy, hx⟩
    exact ⟨i, hi, y, hy, x, hx, rfl, rfl, rfl⟩

/-- A byte of a row of a doubled glyph comes from a byte of its row. -/
theorem half_lt_bytewidth {width x : Nat} (hx : x < rowBytes true width) :
    x / 2 < (width + 7) / 8 := by
  simp only [rowBytes, zoom, if_true] at hx
  omega

/-- The bytes of a glyph lie in the bitmap. -/
theorem glyph_lt {width height fontsize i y b : Nat} (hi : i < fontsize) (hy : y < height)
    (hb : b < (width + 7) / 8) :
    i * (height * ((width + 7) / 8)) + y * ((width + 7) / 8) + b <
      fontsize * (height * ((width + 7) / 8)) := by
  rw [Nat.add_assoc]
  exact slot_lt hi (slot_lt hy hb)

section Fill

variable {double : Bool} {width height fontsize : Nat} {inbuf : List UInt8}

/-- While the source can be read, the loops make the writes. -/
theorem GlyphFits.fillBuffer_eq (h : GlyphFits double width height)
    (hsize : fontsize * (height * ((width + 7) / 8)) < 2 ^ 32)
    (hin : fontsize * (height * ((width + 7) / 8)) ≤ inbuf.length) :
    fillBuffer double inbuf (glyphSizes double width height (loadPitch width height)) height
        fontsize =
      storeAll (List.replicate
          (buflen (glyphSizes double width height (loadPitch width height)) fontsize) 0)
        (fillWrites double inbuf (glyphSizes double width height (loadPitch width height)) height
          fontsize) := by
  rw [h.glyphSizes_eq, fillBuffer, fillWrites]
  cases double with
  | false =>
    simp only [Bool.false_eq_true, if_false]
    refine foldlM_eq_storeAll ?_ _
    intro i hi buf
    have hi' : (i + 1) * (height * ((width + 7) / 8)) ≤
        fontsize * (height * ((width + 7) / 8)) :=
      Nat.mul_le_mul_right _ (List.mem_range.mp hi)
    rw [Nat.add_mul] at hi'
    have hu : u32 (i * (height * ((width + 7) / 8))) = i * (height * ((width + 7) / 8)) :=
      Nat.mod_eq_of_lt (by omega)
    have hslice := slice_eq_some.mpr ⟨(show u32 (i * (height * ((width + 7) / 8))) +
      height * ((width + 7) / 8) ≤ inbuf.length by omega), rfl⟩
    simp only [copyStep, hslice, copyWrites, copyTo, Option.bind_eq_bind, Option.bind_some]
  | true =>
    simp only [if_true]
    refine foldlM_eq_storeAll ?_ _
    rintro ⟨i, y, x⟩ hmem buf
    obtain ⟨hi, hy, hx⟩ := mem_loopIndices.mp hmem
    have hlt := glyph_lt hi hy (half_lt_bytewidth hx)
    have hu : u32 (i * (height * ((width + 7) / 8)) + y * ((width + 7) / 8) + x / 2) =
        i * (height * ((width + 7) / 8)) + y * ((width + 7) / 8) + x / 2 :=
      Nat.mod_eq_of_lt (by omega)
    have hget : inbuf[u32 (i * (height * ((width + 7) / 8)) + y * ((width + 7) / 8) + x / 2)]? =
        some (inbuf.getD (u32 (i * (height * ((width + 7) / 8)) + y * ((width + 7) / 8) + x / 2))
          0) := by
      rw [List.getD_eq_getElem?_getD, List.getElem?_eq_getElem (by omega)]
      rfl
    simp only [doubleStep, hget, doubleWrites, Option.bind_eq_bind, Option.bind_some, storeAll_cons,
      storeAll_nil]
    cases store buf _ _ with
    | none => rfl
    | some buf' => simp

/-- The buffer when its length fits into 32 bits: the glyphs in their slots, and zeros. -/
structure Filled (double : Bool) (inbuf : List UInt8) (width height fontsize : Nat)
    (buf : List UInt8) : Prop where
  length : buf.length = paddedSize double width height fontsize
  slot : ∀ g o, g < fontsize → o < slotRows double width height * rowBytes double width →
    buf[g * (slotRows double width height * rowBytes double width) + o]? =
      some (if o < zoom double * height * rowBytes double width then
        sourceByte double inbuf width height g (o / rowBytes double width)
          (o % rowBytes double width) else 0)
  rest : ∀ j, fontsize * (slotRows double width height * rowBytes double width) ≤ j →
    j < paddedSize double width height fontsize → buf[j]? = some 0

theorem GlyphFits.rowBytes_pos (h : GlyphFits double width height) : 1 ≤ rowBytes double width := by
  have := h.width_pos
  rw [rowBytes, zoom]
  split <;> omega

theorem GlyphFits.slotRows_pos (h : GlyphFits double width height) :
    1 ≤ slotRows double width height := by
  have := h.height_pos
  have := le_loadPitch width height
  rw [slotRows]
  omega

theorem GlyphFits.buflen_eq (h : GlyphFits double width height)
    (hpad : paddedSize double width height fontsize < 2 ^ 32) :
    buflen (glyphSizes double width height (loadPitch width height)) fontsize =
      paddedSize double width height fontsize := by
  have hmax : (if fontsize < 128 then 128 else fontsize) = max 128 fontsize := by
    split <;> omega
  rw [h.glyphSizes_eq, buflen, hmax]
  exact Nat.mod_eq_of_lt hpad

/-- The glyphs fit into their slots, and the slots into the buffer. -/
theorem GlyphFits.slot_bounds (h : GlyphFits double width height) (fontsize : Nat) :
    zoom double * height * rowBytes double width ≤
        slotRows double width height * rowBytes double width ∧
      height * ((width + 7) / 8) ≤ slotRows double width height * rowBytes double width ∧
      fontsize * (slotRows double width height * rowBytes double width) ≤
        paddedSize double width height fontsize := by
  have hpos := h.height_pos
  have hw := h.width_pos
  have hrows : height ≤ slotRows double width height :=
    le_trans (le_loadPitch width height) (Nat.le_max_left _ _)
  have hbytes : (width + 7) / 8 ≤ rowBytes double width := by
    rw [rowBytes, zoom]
    split <;> omega
  refine ⟨Nat.mul_le_mul_right _ (Nat.le_max_right _ _), Nat.mul_le_mul hrows hbytes, ?_⟩
  rw [paddedSize, Nat.mul_comm]
  exact Nat.mul_le_mul_left _ (Nat.le_max_right _ _)

/-- A byte of a slot, by its row and its place in the row. -/
theorem sourceByte_copy {g o : Nat} (inbuf : List UInt8) :
    sourceByte false inbuf width height g (o / rowBytes false width) (o % rowBytes false width) =
      inbuf.getD (g * (height * ((width + 7) / 8)) + o) 0 := by
  have hrow : rowBytes false width = (width + 7) / 8 := by
    simp [rowBytes, zoom]
  simp only [sourceByte, hrow, Bool.false_eq_true, if_false]
  rw [Nat.add_assoc, Nat.div_add_mod']

theorem sourceByte_double {g r x : Nat} (inbuf : List UInt8) (hx : x < rowBytes true width) :
    sourceByte true inbuf width height g ((r * rowBytes true width + x) / rowBytes true width)
        ((r * rowBytes true width + x) % rowBytes true width) =
      doubledByte (inbuf.getD (g * (height * ((width + 7) / 8)) + r / 2 * ((width + 7) / 8) + x / 2)
        0) x := by
  have hdiv : (r * rowBytes true width + x) / rowBytes true width = r := by
    rw [Nat.mul_comm, Nat.mul_add_div (by omega), Nat.div_eq_of_lt hx, Nat.add_zero]
  have hmod : (r * rowBytes true width + x) % rowBytes true width = x := by
    rw [Nat.mul_comm, Nat.mul_add_mod, Nat.mod_eq_of_lt hx]
  simp only [sourceByte, hdiv, hmod, if_true]

/-- The writes of the loop that copies the glyphs. -/
theorem GlyphFits.mem_copyWrites (h : GlyphFits false width height)
    (hin : fontsize * (height * ((width + 7) / 8)) ≤ inbuf.length)
    (hpad : paddedSize false width height fontsize < 2 ^ 32) {i : Nat} (hi : i < fontsize)
    {w : Nat × UInt8} :
    w ∈ copyWrites inbuf (glyphSizes false width height (loadPitch width height)) i ↔
      ∃ o, o < height * ((width + 7) / 8) ∧
        w = (i * (slotRows false width height * rowBytes false width) + o,
          inbuf.getD (i * (height * ((width + 7) / 8)) + o) 0) := by
  obtain ⟨-, hcs, hn⟩ := h.slot_bounds fontsize
  have hslot : i * (slotRows false width height * rowBytes false width) ≤
      fontsize * (slotRows false width height * rowBytes false width) :=
    Nat.mul_le_mul_right _ hi.le
  have hsrc : i * (height * ((width + 7) / 8)) + height * ((width + 7) / 8) ≤
      fontsize * (height * ((width + 7) / 8)) := by
    rw [← Nat.succ_mul]
    exact Nat.mul_le_mul_right _ hi
  have hsrc' : i * (height * ((width + 7) / 8)) ≤
      i * (slotRows false width height * rowBytes false width) := Nat.mul_le_mul_left i hcs
  have hu : u32 (i * (height * ((width + 7) / 8))) = i * (height * ((width + 7) / 8)) :=
    u32_of_lt (by omega)
  have hk : u32 (i * (slotRows false width height * rowBytes false width)) =
      i * (slotRows false width height * rowBytes false width) := Nat.mod_eq_of_lt (by omega)
  have hget : ∀ o v, ((inbuf.drop (i * (height * ((width + 7) / 8)))).take
      (height * ((width + 7) / 8)))[o]? = some v ↔
        o < height * ((width + 7) / 8) ∧ v = inbuf.getD (i * (height * ((width + 7) / 8)) + o) 0 := by
    intro o v
    by_cases ho : o < height * ((width + 7) / 8)
    · rw [List.getElem?_take_of_lt ho, List.getElem?_drop, List.getD_eq_getElem?_getD,
        List.getElem?_eq_getElem (by omega)]
      simp [ho, eq_comm]
    · rw [List.getElem?_eq_none (by rw [List.length_take]; omega)]
      simp [ho]
  rw [copyWrites, h.glyphSizes_eq]
  simp only [hu, hk, List.mem_map, Prod.exists, List.mk_mem_zipIdx_iff_getElem?, hget]
  constructor
  · rintro ⟨v, o, ⟨ho, rfl⟩, rfl⟩
    exact ⟨o, ho, rfl⟩
  · rintro ⟨o, ho, rfl⟩
    exact ⟨_, o, ⟨ho, rfl⟩, rfl⟩

/-- The writes of the loops that double the glyphs. -/
theorem GlyphFits.mem_doubleWrites (h : GlyphFits true width height)
    (hpad : paddedSize true width height fontsize < 2 ^ 32) {i y x : Nat} (hi : i < fontsize)
    (hy : y < height) (hx : x < rowBytes true width) {w : Nat × UInt8} :
    w ∈ doubleWrites inbuf (glyphSizes true width height (loadPitch width height)) (i, y, x) ↔
      ∃ r, r / 2 = y ∧ w = (i * (slotRows true width height * rowBytes true width) +
        (r * rowBytes true width + x), doubledByte (inbuf.getD (i * (height * ((width + 7) / 8)) +
          y * ((width + 7) / 8) + x / 2) 0) x) := by
  obtain ⟨hl, hcs, hn⟩ := h.slot_bounds fontsize
  have hsrc := glyph_lt hi hy (half_lt_bytewidth hx)
  have hsrc' : fontsize * (height * ((width + 7) / 8)) ≤
      fontsize * (slotRows true width height * rowBytes true width) := Nat.mul_le_mul_left _ hcs
  have hrow : ∀ r, r / 2 = y → i * (slotRows true width height * rowBytes true width) +
      (r * rowBytes true width + x) < 2 ^ 32 := by
    intro r hr
    have hzoom : zoom true = 2 := rfl
    rw [hzoom] at hl
    have hr' : r * rowBytes true width + x < 2 * height * rowBytes true width :=
      slot_lt (by omega) hx
    have := slot_lt hi (lt_of_lt_of_le hr' hl)
    omega
  rw [doubleWrites, h.glyphSizes_eq]
  simp only [Nat.add_assoc]
  have h0 := hrow (y * 2) (by omega)
  have h1 := hrow (y * 2 + 1) (by omega)
  rw [Nat.add_assoc] at hsrc
  rw [u32_of_lt h0, u32_of_lt h1, u32_of_lt (by omega)]
  simp only [List.mem_cons, List.not_mem_nil, or_false]
  constructor
  · rintro (rfl | rfl)
    · exact ⟨y * 2, by omega, rfl⟩
    · exact ⟨y * 2 + 1, by omega, rfl⟩
  · rintro ⟨r, hr, rfl⟩
    rcases Nat.mod_two_eq_zero_or_one r with hpar | hpar
    · left
      rw [show r = y * 2 by omega]
    · right
      rw [show r = y * 2 + 1 by omega]

/-- Every write goes to its place in the slot of its glyph. -/
theorem GlyphFits.mem_fillWrites (h : GlyphFits double width height)
    (hin : fontsize * (height * ((width + 7) / 8)) ≤ inbuf.length)
    (hpad : paddedSize double width height fontsize < 2 ^ 32) {w : Nat × UInt8} :
    w ∈ fillWrites double inbuf (glyphSizes double width height (loadPitch width height)) height
        fontsize ↔
      ∃ g o, g < fontsize ∧ o < zoom double * height * rowBytes double width ∧
        w = (g * (slotRows double width height * rowBytes double width) + o,
          sourceByte double inbuf width height g (o / rowBytes double width)
            (o % rowBytes double width)) := by
  cases double with
  | false =>
    have hrow : zoom false * height * rowBytes false width = height * ((width + 7) / 8) := by
      simp [rowBytes, zoom]
    simp only [fillWrites, Bool.false_eq_true, if_false, List.mem_flatMap, List.mem_range, hrow,
      sourceByte_copy]
    constructor
    · rintro ⟨i, hi, hw⟩
      obtain ⟨o, ho, rfl⟩ := (h.mem_copyWrites hin hpad hi).mp hw
      exact ⟨i, o, hi, ho, rfl⟩
    · rintro ⟨i, o, hi, ho, rfl⟩
      exact ⟨i, hi, (h.mem_copyWrites hin hpad hi).mpr ⟨o, ho, rfl⟩⟩
  | true =>
    have hzoom : zoom true = 2 := rfl
    have hkbw : (glyphSizes true width height (loadPitch width height)).kbytewidth =
        rowBytes true width := by rw [h.glyphSizes_eq]
    simp only [fillWrites, if_true, List.mem_flatMap, hzoom, hkbw]
    constructor
    · rintro ⟨⟨i, y, x⟩, hmem, hw⟩
      obtain ⟨hi, hy, hx⟩ := mem_loopIndices.mp hmem
      obtain ⟨r, hr, rfl⟩ := (h.mem_doubleWrites hpad hi hy hx).mp hw
      refine ⟨i, r * rowBytes true width + x, hi, slot_lt (by omega) hx, ?_⟩
      rw [sourceByte_double inbuf hx, hr]
    · rintro ⟨i, o, hi, ho, rfl⟩
      have hkpos := h.rowBytes_pos
      have hx : o % rowBytes true width < rowBytes true width := Nat.mod_lt _ hkpos
      have hr : o / rowBytes true width < 2 * height := (Nat.div_lt_iff_lt_mul hkpos).mpr ho
      refine ⟨(i, o / rowBytes true width / 2, o % rowBytes true width),
        mem_loopIndices.mpr ⟨hi, by omega, hx⟩, ?_⟩
      refine (h.mem_doubleWrites hpad hi (by omega) hx).mpr ⟨o / rowBytes true width, rfl, ?_⟩
      rw [Nat.div_add_mod']
      rfl

/-- A buffer whose length fits is filled. -/
theorem GlyphFits.exists_filled (h : GlyphFits double width height)
    (hin : fontsize * (height * ((width + 7) / 8)) ≤ inbuf.length)
    (hpad : paddedSize double width height fontsize < 2 ^ 32) :
    ∃ buf, fillBuffer double inbuf (glyphSizes double width height (loadPitch width height)) height
        fontsize = some buf ∧ Filled double inbuf width height fontsize buf := by
  obtain ⟨hl, hcs, hn⟩ := h.slot_bounds fontsize
  have hsize : fontsize * (height * ((width + 7) / 8)) ≤
      fontsize * (slotRows double width height * rowBytes double width) := Nat.mul_le_mul_left _ hcs
  obtain ⟨buf, hbuf, hlen, hslot, hrest⟩ := storeAll_slots (z := (0 : UInt8)) hl hn
    (fun w hw => (h.mem_fillWrites hin hpad).mp hw)
    (fun g o hg ho => (h.mem_fillWrites hin hpad).mpr ⟨g, o, hg, ho, rfl⟩)
  refine ⟨buf, ?_, hlen, hslot, hrest⟩
  rw [h.fillBuffer_eq (by omega) hin, h.buflen_eq hpad]
  exact hbuf

end Fill

end Kbd.Font
