import Kbd.Font.Verify.Restore

/-!
# The pitch of a font that is loaded

`try_loadfont` decides how far the glyphs are apart in its buffer, `put_font_kdfontop` which request
is made, and the request how far apart the kernel takes them to be. They agree for the request that
has a fixed pitch of 32 rows. In the request for tall fonts the pitch is the height that is asked
for, which may be another one; and the second request always copies 32 bytes for each glyph.
-/

namespace Kbd.Font

open Kbd.Lib Kbd.Lib.Buffer

/-- A pixel of a bitmap whose rows have `bytes` bytes. -/
def pixel (data : List UInt8) (bytes row col : Nat) : Option Bool :=
  data[row * bytes + col / 8]?.map fun b => b.toNat.testBit (7 - col % 8)

/-- A request has the glyphs of the bitmap where the kernel looks for them: the rows that it has room
for, with each pixel repeated when they are doubled, and blank glyphs after the last. -/
def ShowsBitmap (double : Bool) (inbuf : List UInt8) (width height fontsize : Nat)
    (cfo : ConsoleFontOp) : Prop :=
  ∃ data, cfo.data = some data ∧ cfo.width = zoom double * width ∧
    (∀ g r c, g < fontsize → r < min cfo.height (zoom double * height) → c < cfo.width →
      pixel data ((cfo.width + 7) / 8) (g * glyphPitch cfo + r) c =
        pixel inbuf ((width + 7) / 8) (g * height + r / zoom double) (c / zoom double)) ∧
    ∀ g r c, fontsize ≤ g → g < cfo.charcount → r < min cfo.height (glyphPitch cfo) →
      c < cfo.width → pixel data ((cfo.width + 7) / 8) (g * glyphPitch cfo + r) c = some false

/-- The requests that some code makes. -/
def requests {α : Type} (m : Kfont α) (tr : Trace) : Trace := (finalTrace m tr).drop tr.length

/-- Whatever the bitmap and however the kernel answers, a font is sent, and each time as it is. -/
def LoadsRight (doubleSize : Bool) (width height hwunit fontsize : Nat) : Prop :=
  ∀ inbuf : List UInt8, fontsize * (height * ((width + 7) / 8)) ≤ inbuf.length →
    ∀ (k : Kernel) (tr : Trace), TextMode k →
      (∃ cfo, .kdfontop cfo ∈
        requests (doLoadfont k doubleSize inbuf width height hwunit fontsize) tr) ∧
      ∀ cfo, .kdfontop cfo ∈
          requests (doLoadfont k doubleSize inbuf width height hwunit fontsize) tr →
        ShowsBitmap (doubles doubleSize width height) inbuf width height fontsize cfo

/-! ## Doubled pixels -/

theorem testBit_doubledByte_lt : ∀ b < 256, ∀ p < 2, ∀ i < 8,
    (doubledByte (UInt8.ofNat b) p).toNat.testBit (7 - i) = b.testBit (7 - (4 * p + i / 2)) := by
  decide +kernel

theorem testBit_doubledByte (b : UInt8) (c : Nat) :
    (doubledByte b (c / 8)).toNat.testBit (7 - c % 8) = b.toNat.testBit (7 - c / 2 % 8) := by
  have hpar : doubledByte b (c / 8) = doubledByte b (c / 8 % 2) := by
    simp [doubledByte]
  have h := testBit_doubledByte_lt b.toNat b.toNat_lt (c / 8 % 2) (by omega) (c % 8) (by omega)
  rw [UInt8.ofNat_toNat] at h
  rw [hpar, h]
  congr 2
  omega

theorem doubledByte_zero (x : Nat) : doubledByte 0 x = 0 := by
  rw [doubledByte]
  split <;> decide

/-! ## The buffer as a bitmap -/

theorem pixel_eq_of_lt {data : List UInt8} {bytes row col : Nat}
    (h : row * bytes + col / 8 < data.length) :
    pixel data bytes row col =
      some ((data.getD (row * bytes + col / 8) 0).toNat.testBit (7 - col % 8)) := by
  rw [pixel, List.getD_eq_getElem?_getD, List.getElem?_eq_getElem h]
  rfl

section Buffer

variable {double : Bool} {width height fontsize : Nat} {inbuf buf : List UInt8}

/-- A pixel of the bitmap, by the byte that goes into the buffer for it. -/
theorem GlyphFits.pixel_inbuf (h : GlyphFits double width height)
    (hin : fontsize * (height * ((width + 7) / 8)) ≤ inbuf.length) {g r c : Nat} (hg : g < fontsize)
    (hr : r < zoom double * height) (hc : c < zoom double * width) :
    pixel inbuf ((width + 7) / 8) (g * height + r / zoom double) (c / zoom double) =
      some ((sourceByte double inbuf width height g r (c / 8)).toNat.testBit (7 - c % 8)) := by
  have hrow : r / zoom double < height := Nat.div_lt_of_lt_mul hr
  have hcol : c / zoom double / 8 < (width + 7) / 8 := by
    have : c / zoom double < width := Nat.div_lt_of_lt_mul hc
    omega
  have hlt := glyph_lt hg hrow hcol
  have hidx : (g * height + r / zoom double) * ((width + 7) / 8) + c / zoom double / 8 =
      g * (height * ((width + 7) / 8)) + r / zoom double * ((width + 7) / 8) +
        c / zoom double / 8 := by
    rw [Nat.add_mul, Nat.mul_assoc]
  rw [pixel_eq_of_lt (by rw [hidx]; omega), hidx]
  cases double with
  | false => simp [sourceByte, zoom]
  | true =>
    have hbyte : c / 8 / 2 = c / 2 / 8 := by omega
    simp only [sourceByte, zoom, if_true]
    rw [testBit_doubledByte, hbyte]

/-- The buffer, read with the pitch it was filled with. -/
theorem Filled.pixel_buf (h : GlyphFits double width height)
    (hfilled : Filled double inbuf width height fontsize buf) {g r c : Nat} (hg : g < fontsize)
    (hr : r < zoom double * height) (hc : c < zoom double * width) :
    pixel buf (rowBytes double width) (g * slotRows double width height + r) c =
      some ((sourceByte double inbuf width height g r (c / 8)).toNat.testBit (7 - c % 8)) := by
  obtain ⟨hl, -, -⟩ := h.slot_bounds fontsize
  have hcol : c / 8 < rowBytes double width := by
    rw [rowBytes]
    omega
  have ho : r * rowBytes double width + c / 8 < zoom double * height * rowBytes double width :=
    slot_lt hr hcol
  have hget := hfilled.slot g _ hg (lt_of_lt_of_le ho hl)
  rw [if_pos ho] at hget
  have hdiv : (r * rowBytes double width + c / 8) / rowBytes double width = r := by
    rw [Nat.mul_comm, Nat.mul_add_div (by omega), Nat.div_eq_of_lt hcol, Nat.add_zero]
  have hmod : (r * rowBytes double width + c / 8) % rowBytes double width = c / 8 := by
    rw [Nat.mul_comm, Nat.mul_add_mod, Nat.mod_eq_of_lt hcol]
  rw [hdiv, hmod] at hget
  rw [pixel, Nat.add_mul, Nat.mul_assoc, Nat.add_assoc, hget]
  rfl

/-- The first request shows the bitmap when its pitch is that of the buffer. -/
theorem Filled.showsBitmap_putFontOp (h : GlyphFits double width height)
    (hin : fontsize * (height * ((width + 7) / 8)) ≤ inbuf.length)
    (hfilled : Filled double inbuf width height fontsize buf) {hw : Nat}
    (hpitch : fontsize = 1 ∨ glyphPitch (putFontOp buf fontsize (zoom double * width) hw
      (slotRows double width height)) = slotRows double width height) :
    ShowsBitmap double inbuf width height fontsize
      (putFontOp buf fontsize (zoom double * width) hw (slotRows double width height)) := by
  refine ⟨buf, rfl, rfl, ?_, ?_⟩
  · intro g r c hg hr hc
    have hr' := (Nat.lt_min.mp hr).2
    rw [h.pixel_inbuf hin hg hr' hc, ← hfilled.pixel_buf h hg hr' hc]
    rcases hpitch with rfl | hpitch
    · rw [show g = 0 by omega, Nat.zero_mul, Nat.zero_mul]
      rfl
    · rw [hpitch]
      rfl
  · intro g r c hle hlt
    exact absurd hlt (Nat.not_lt.mpr hle)

theorem loadPitch_of_le (hwidth : width ≤ 32) : loadPitch width height = max 32 height := by
  rw [loadPitch]
  split <;> omega

theorem slotRows_ge (hwidth : width ≤ 32) : 32 ≤ slotRows double width height := by
  rw [slotRows, loadPitch_of_le hwidth]
  omega

/-- The bytes of the second request: 32 for each glyph, and zeros. -/
theorem getElem?_retry {n ct i : Nat} (hlen : 32 * n ≤ buf.length) (hct : n ≤ ct) :
    (buf.take (32 * n) ++ List.replicate (32 * ct - 32 * n) 0)[i]? =
      if i < 32 * n then buf[i]? else if i < 32 * ct then some 0 else none := by
  have htake : (buf.take (32 * n)).length = 32 * n := by
    rw [List.length_take]
    omega
  split
  · rename_i hi
    rw [List.getElem?_append_left (by omega), List.getElem?_take_of_lt hi]
  · rename_i hi
    rw [List.getElem?_append_right (by omega), htake, List.getElem?_replicate]
    split
    · rw [if_pos (by omega)]
    · rw [if_neg (by omega)]

/-- The second request shows the bitmap when the kernel takes the glyphs to be 32 rows apart and
they are. -/
theorem Filled.showsBitmap_retryFontOp (h : GlyphFits double width height)
    (hin : fontsize * (height * ((width + 7) / 8)) ≤ inbuf.length)
    (hfilled : Filled double inbuf width height fontsize buf) {hw : Nat}
    (hwidth : zoom double * width = 8) (hcount : fontsize < 512)
    (hpitch : glyphPitch (putFontOp buf fontsize (zoom double * width) hw
      (slotRows double width height)) = 32)
    (hslot : fontsize = 1 ∨ slotRows double width height = 32)
    (hrows : min hw (zoom double * height) ≤ 32) :
    ShowsBitmap double inbuf width height fontsize
      (retryFontOp (putFontOp buf fontsize (zoom double * width) hw (slotRows double width height))
        buf fontsize) := by
  have hrow : rowBytes double width = 1 := by rw [rowBytes, hwidth]
  have hlen : 32 * fontsize ≤ buf.length := by
    have hw32 : width ≤ 32 := by
      rw [zoom] at hwidth
      split at hwidth <;> omega
    rw [hfilled.length, paddedSize, hrow, Nat.mul_one]
    exact Nat.mul_le_mul (slotRows_ge hw32) (Nat.le_max_right _ _)
  have hct : fontsize ≤ if fontsize > 256 then 512 else 256 := by split <;> omega
  have hpitch' : glyphPitch (retryFontOp (putFontOp buf fontsize (zoom double * width) hw
      (slotRows double width height)) buf fontsize) = 32 := hpitch
  refine ⟨_, rfl, rfl, ?_, ?_⟩
  · intro g r c hg hr hc
    have hr' := (Nat.lt_min.mp hr).2
    have hr32 : r < 32 := lt_of_lt_of_le hr hrows
    have hc8 : c / 8 = 0 := by
      have hc' : c < 8 := lt_of_lt_of_eq hc hwidth
      omega
    have hsame : g * slotRows double width height + r = g * 32 + r := by
      rcases hslot with rfl | hslot
      · rw [show g = 0 by omega, Nat.zero_mul, Nat.zero_mul]
      · rw [hslot]
    have hbuf := hfilled.pixel_buf h hg hr' hc
    rw [h.pixel_inbuf hin hg hr' hc, ← hbuf, hsame]
    rw [hpitch']
    change pixel _ (rowBytes double width) (g * 32 + r) c = _
    rw [hrow, pixel, pixel, getElem?_retry hlen hct, if_pos (by omega)]
  · intro g r c hle hlt hr hc
    have hr32 : r < 32 := by
      have := (Nat.lt_min.mp hr).2
      exact lt_of_lt_of_eq this hpitch'
    have hc8 : c / 8 = 0 := by
      have hc' : c < 8 := lt_of_lt_of_eq hc hwidth
      omega
    have hlt' : g < if fontsize > 256 then 512 else 256 := hlt
    rw [hpitch']
    change pixel _ (rowBytes double width) (g * 32 + r) c = _
    rw [hrow, pixel, getElem?_retry hlen hct, if_neg (by omega), if_pos (by omega)]
    simp

end Buffer

/-! ## When the pitches agree -/

/-- The height that is asked for. -/
def askedHeight (double : Bool) (height hwunit : Nat) : Nat :=
  zoom double * if hwunit = 0 then height else hwunit

/-- The buffer fits; and the request is the one with the fixed pitch, or it has one glyph only, or it
asks for the height of a slot. The second request, where there may be one, wants 32 rows. -/
def PitchesAgree (double : Bool) (width height hwunit fontsize : Nat) : Prop :=
  paddedSize double width height fontsize < 2 ^ 32 ∧
    (slotRows double width height = 32 ∧ zoom double * width ≤ 32 ∨
      if zoom double * width = 8 ∧ fontsize ≠ 256 ∧ fontsize < 512 then
        fontsize = 1 ∧ askedHeight double height hwunit = 32
      else fontsize = 1 ∨ askedHeight double height hwunit = slotRows double width height)

section Agree

variable {doubleSize : Bool} {width height hwunit fontsize : Nat}

theorem Loadable.loadedHeight_eq (h : Loadable width height) (hhw : hwunit < 2 ^ 31)
    (double : Bool) : loadedHeight double height hwunit = askedHeight double height hwunit := by
  have hle : (if hwunit = 0 then height else hwunit) < 2 ^ 31 := by
    have := h.height_le
    split <;> omega
  rw [loadedHeight, askedHeight, zoom]
  cases double with
  | false => simp
  | true => exact u32_of_lt (by omega)

theorem one_le_zoom {n : Nat} (double : Bool) (h : 1 ≤ n) : 1 ≤ zoom double * n := by
  rw [zoom]
  split <;> omega

theorem Loadable.askedHeight_pos (h : Loadable width height) (double : Bool) (hwunit : Nat) :
    1 ≤ askedHeight double height hwunit := by
  have hpos : 1 ≤ if hwunit = 0 then height else hwunit := by
    have := h.height_pos
    split <;> omega
  rw [askedHeight, zoom]
  split <;> omega

theorem glyphPitch_putFontOp (buf : List UInt8) (count width height vpitch : Nat) :
    glyphPitch (putFontOp buf count width height vpitch) =
      if vpitch = 32 ∧ width ≤ 32 then 32 else height := by
  by_cases hset : vpitch = 32 ∧ width ≤ 32
  · simp only [putFontOp, glyphPitch, if_pos hset]
  · simp only [putFontOp, glyphPitch, if_neg hset]

/-- What is sent for a font whose buffer can be filled. -/
theorem Loadable.requests_doLoadfont (h : Loadable width height) (hhw : hwunit < 2 ^ 31)
    {inbuf : List UInt8} (hin : fontsize * (height * ((width + 7) / 8)) ≤ inbuf.length)
    (hpad : paddedSize (doubles doubleSize width height) width height fontsize < 2 ^ 32) :
    ∃ buf, Filled (doubles doubleSize width height) inbuf width height fontsize buf ∧
      ∀ k, doLoadfont k doubleSize inbuf width height hwunit fontsize =
        putFontKdfontop k buf fontsize (zoom (doubles doubleSize width height) * width)
          (askedHeight (doubles doubleSize width height) height hwunit)
          (slotRows (doubles doubleSize width height) width height) := by
  obtain ⟨buf, hfilled, hdo⟩ := h.doLoadfont_eq doubleSize hin hpad
  refine ⟨buf, hfilled, ?_⟩
  intro k
  have hwidth : 1 ≤ zoom (doubles doubleSize width height) * width := by
    have := h.width_pos
    rw [zoom]
    split <;> omega
  have hheight := h.askedHeight_pos (doubles doubleSize width height) hwunit
  rw [hdo, h.loadedHeight_eq hhw, kfontPutFont, if_neg (by omega), if_neg (by omega)]

/-- When the pitches agree, every request shows the bitmap. -/
theorem loadsRight_of_pitchesAgree (h : Loadable width height) (hhw : hwunit < 2 ^ 31)
    (hagree : PitchesAgree (doubles doubleSize width height) width height hwunit fontsize) :
    LoadsRight doubleSize width height hwunit fontsize := by
  obtain ⟨hpad, hcases⟩ := hagree
  intro inbuf hin k tr htext
  have hfits := h.glyphFits doubleSize
  obtain ⟨buf, hfilled, hdo⟩ := h.requests_doLoadfont hhw hin hpad
  rw [hdo k]
  generalize doubles doubleSize width height = double at *
  obtain ⟨retry, htrace, hretry⟩ := htext.putFontKdfontop_trace buf fontsize (zoom double * width)
    (askedHeight double height hwunit) (slotRows double width height) tr
  have hreq : requests (putFontKdfontop k buf fontsize (zoom double * width)
      (askedHeight double height hwunit) (slotRows double width height)) tr =
        [.kdgetmode] ++ [.kdfontop (putFontOp buf fontsize (zoom double * width)
          (askedHeight double height hwunit) (slotRows double width height))] ++ retry := by
    rw [requests, htrace, List.append_assoc, List.append_assoc, List.drop_left, List.append_assoc]
  rw [hreq]
  have hslotle : zoom double * height ≤ slotRows double width height := Nat.le_max_right _ _
  refine ⟨⟨_, List.mem_append_left _ (List.mem_append_right _ (List.mem_singleton.mpr rfl))⟩, ?_⟩
  intro cfo hcfo
  have hcfo' : cfo = putFontOp buf fontsize (zoom double * width)
      (askedHeight double height hwunit) (slotRows double width height) ∨ .kdfontop cfo ∈ retry := by
    simpa using hcfo
  rcases hcfo' with rfl | hcfo'
  · refine hfilled.showsBitmap_putFontOp hfits hin ?_
    rw [glyphPitch_putFontOp]
    rcases hcases with hset | htall
    · rw [if_pos hset]
      exact Or.inr hset.1.symm
    · split
      · rename_i hset
        exact Or.inr hset.1.symm
      · split at htall
        · exact Or.inl htall.1
        · exact htall
  · rcases hretry with rfl | ⟨hcond, rfl⟩
    · cases hcfo'
    · rw [Request.kdfontop.inj (List.mem_singleton.mp hcfo')]
      rcases hcases with hset | htall
      · refine hfilled.showsBitmap_retryFontOp hfits hin hcond.1 hcond.2.2 ?_ (Or.inr hset.1) ?_
        · rw [glyphPitch_putFontOp, if_pos hset]
        · omega
      · rw [if_pos hcond] at htall
        refine hfilled.showsBitmap_retryFontOp hfits hin hcond.1 hcond.2.2 ?_ (Or.inl htall.1) ?_
        · rw [glyphPitch_putFontOp, htall.2, ite_self]
        · omega

/-! ## When they do not -/

/-- A console that takes no font. -/
def refusingKernel : Kernel where
  kdgetmode _ := .ok kdText
  kdfontop _ _ := .error .einval
  gioUnimap _ _ := { errno := none, entryCt := 0, entries := [] }
  pioUnimapclr _ _ := none
  pioUnimap _ _ := none

/-- What is sent for a font, if anything, comes from the writes to the buffer. -/
theorem Loadable.doLoadfont_cases (h : Loadable width height) (hhw : hwunit < 2 ^ 31)
    (hsize : fontsize * (height * ((width + 7) / 8)) < 2 ^ 32) {inbuf : List UInt8}
    (hin : fontsize * (height * ((width + 7) / 8)) ≤ inbuf.length) {double : Bool}
    (hdouble : doubles doubleSize width height = double) :
    (∀ k, doLoadfont k doubleSize inbuf width height hwunit fontsize = throw .outOfBounds) ∨
      ∃ buf, storeAll (List.replicate (buflen (glyphSizes double width height
            (loadPitch width height)) fontsize) 0) (fillWrites double inbuf
              (glyphSizes double width height (loadPitch width height)) height fontsize) = some buf ∧
        ∀ k, doLoadfont k doubleSize inbuf width height hwunit fontsize =
          putFontKdfontop k buf fontsize (zoom double * width) (askedHeight double height hwunit)
            (slotRows double width height) := by
  have hfits : GlyphFits double width height := hdouble ▸ h.glyphFits doubleSize
  have hheight : ¬ (height < 1 ∨ height > 128) := by
    have := h.height_pos
    have := h.height_le
    omega
  have hwidth : ¬ (width < 1 ∨ width > 64) := by
    have := h.width_pos
    have := h.width_le
    omega
  rw [← hfits.fillBuffer_eq hsize hin]
  simp only [doLoadfont, tryLoadfont, if_neg hheight, if_neg hwidth, hdouble]
  cases hfill : fillBuffer double inbuf (glyphSizes double width height (loadPitch width height))
      height fontsize with
  | none => exact Or.inl fun _ => rfl
  | some buf =>
    dsimp only
    cases eraseCharTest buf (glyphSizes double width height (loadPitch width height)) with
    | none => exact Or.inl fun _ => rfl
    | some notBlank =>
      refine Or.inr ⟨buf, rfl, ?_⟩
      intro k
      have hvpitch : (glyphSizes double width height (loadPitch width height)).vpitch =
          slotRows double width height := by rw [hfits.glyphSizes_eq]
      have hasked := h.loadedHeight_eq hhw double
      have hpos := h.askedHeight_pos double hwunit
      have hw := h.width_pos
      rw [hvpitch, ← hasked]
      rw [← hasked] at hpos
      cases double with
      | false =>
        simp only [loadedHeight, Bool.false_eq_true, if_false] at hpos ⊢
        rw [kfontPutFont, if_neg (by omega), if_neg (by omega), zoom]
        simp
      | true =>
        simp only [loadedHeight, if_true] at hpos ⊢
        rw [kfontPutFont, if_neg (by omega), if_neg (by omega), zoom]
        simp

/-- A font that is loaded right has been put into a buffer, and the requests show it. -/
theorem LoadsRight.exists_buf (hright : LoadsRight doubleSize width height hwunit fontsize)
    (h : Loadable width height) (hhw : hwunit < 2 ^ 31)
    (hsize : fontsize * (height * ((width + 7) / 8)) < 2 ^ 32) {inbuf : List UInt8}
    (hin : fontsize * (height * ((width + 7) / 8)) ≤ inbuf.length) {double : Bool}
    (hdouble : doubles doubleSize width height = double) :
    ∃ buf, storeAll (List.replicate (buflen (glyphSizes double width height
          (loadPitch width height)) fontsize) 0) (fillWrites double inbuf
            (glyphSizes double width height (loadPitch width height)) height fontsize) = some buf ∧
      ShowsBitmap double inbuf width height fontsize (putFontOp buf fontsize (zoom double * width)
        (askedHeight double height hwunit) (slotRows double width height)) ∧
      (zoom double * width = 8 ∧ fontsize ≠ 256 ∧ fontsize < 512 →
        ShowsBitmap double inbuf width height fontsize (retryFontOp (putFontOp buf fontsize
          (zoom double * width) (askedHeight double height hwunit) (slotRows double width height))
            buf fontsize)) := by
  obtain ⟨⟨cfo, hcfo⟩, hall⟩ := hright inbuf hin refusingKernel [] fun _ => rfl
  rcases h.doLoadfont_cases hhw hsize hin hdouble with hthrow | ⟨buf, hbuf, hdo⟩
  · rw [hthrow] at hcfo
    cases hcfo
  · refine ⟨buf, hbuf, ?_⟩
    have htext : TextMode refusingKernel := fun _ => rfl
    rw [hdo] at hall
    rw [hdouble] at hall
    have htrace := htext.putFontKdfontop_error buf fontsize (zoom double * width)
      (askedHeight double height hwunit) (slotRows double width height) [] rfl
    simp only [requests, htrace, List.length_nil, List.drop_zero, List.nil_append] at hall
    constructor
    · exact hall _ (by simp)
    · intro hcond
      refine hall _ ?_
      rw [if_pos ⟨trivial, hcond⟩]
      simp

/-- A buffer whose length has wrapped does not reach to the last glyph. -/
theorem not_loadsRight_of_wrap (h : Loadable width height) (hhw : hwunit < 2 ^ 31)
    (hsize : fontsize * (height * ((width + 7) / 8)) < 2 ^ 32) {double : Bool}
    (hdouble : doubles doubleSize width height = double)
    (hwrap : 2 ^ 32 ≤ paddedSize double width height fontsize)
    (hpitch : slotRows double width height = 32 ∧ zoom double * width ≤ 32 ∨
      askedHeight double height hwunit = slotRows double width height) :
    ¬ LoadsRight doubleSize width height hwunit fontsize := by
  intro hright
  have hfits : GlyphFits double width height := hdouble ▸ h.glyphFits doubleSize
  have hslot := hfits.slot_le
  obtain ⟨buf, hbuf, ⟨data, hdata, -, hrows, -⟩, -⟩ := hright.exists_buf h hhw hsize
    (List.length_replicate (n := fontsize * (height * ((width + 7) / 8))) (a := (0 : UInt8))).ge
    hdouble
  cases hdata
  have hmany : 128 ≤ fontsize := by
    by_contra hlt
    rw [paddedSize, Nat.max_eq_left (by omega)] at hwrap
    omega
  have hpos := h.askedHeight_pos double hwunit
  have hzh : 1 ≤ zoom double * height := one_le_zoom double h.height_pos
  have hzw : 1 ≤ zoom double * width := one_le_zoom double h.width_pos
  have hp : glyphPitch (putFontOp buf fontsize (zoom double * width)
      (askedHeight double height hwunit) (slotRows double width height)) =
        slotRows double width height := by
    rw [glyphPitch_putFontOp]
    split
    · rename_i hset
      exact hset.1.symm
    · rename_i hset
      rcases hpitch with hset' | hasked
      · exact absurd hset' hset
      · exact hasked
  have hlast := hrows (fontsize - 1) 0 0 (by omega) (Nat.lt_min.mpr ⟨hpos, hzh⟩) hzw
  rw [hfits.pixel_inbuf (by rw [List.length_replicate]) (by omega) hzh hzw, hp] at hlast
  have hlt : (fontsize - 1) * slotRows double width height * rowBytes double width <
      buf.length := by
    by_contra hge
    have hnone : pixel buf (rowBytes double width) ((fontsize - 1) * slotRows double width height + 0)
        0 = none := by
      rw [pixel, List.getElem?_eq_none (by simpa using hge)]
      rfl
    exact absurd (hnone.symm.trans hlast) (by simp)
  have hlen := length_storeAll hbuf
  rw [List.length_replicate, hfits.glyphSizes_eq, buflen, if_neg (by omega)] at hlen
  rw [hlen, u32] at hlt
  rw [paddedSize, Nat.max_eq_right hmany] at hwrap
  have hexp : slotRows double width height * rowBytes double width * fontsize =
      (fontsize - 1) * slotRows double width height * rowBytes double width +
        slotRows double width height * rowBytes double width := by
    rw [Nat.mul_assoc (fontsize - 1), Nat.mul_comm _ fontsize]
    conv_lhs => rw [show fontsize = fontsize - 1 + 1 by omega]
    rw [Nat.succ_mul]
  dsimp only at hlt
  rw [hexp] at hlt hwrap
  omega

/-- A bitmap with one dot: the first pixel of the second glyph. -/
def dotBitmap (width height fontsize : Nat) : List UInt8 :=
  (List.replicate (fontsize * (height * ((width + 7) / 8))) 0).set (height * ((width + 7) / 8)) 0x80

theorem length_dotBitmap (width height fontsize : Nat) :
    (dotBitmap width height fontsize).length = fontsize * (height * ((width + 7) / 8)) := by
  rw [dotBitmap, List.length_set, List.length_replicate]

theorem eq_of_dotBitmap_ne_zero {j : Nat} (hj : (dotBitmap width height fontsize).getD j 0 ≠ 0) :
    j = height * ((width + 7) / 8) := by
  by_contra hne
  apply hj
  rw [dotBitmap, List.getD_eq_getElem?_getD, List.getElem?_set_ne (Ne.symm hne),
    List.getElem?_replicate]
  split <;> rfl

theorem getD_dotBitmap (hpos : 0 < height * ((width + 7) / 8)) (htwo : 2 ≤ fontsize) :
    (dotBitmap width height fontsize).getD (height * ((width + 7) / 8)) 0 = 0x80 := by
  have hlt : height * ((width + 7) / 8) < fontsize * (height * ((width + 7) / 8)) :=
    (Nat.lt_mul_iff_one_lt_left hpos).mpr htwo
  rw [dotBitmap, List.getD_eq_getElem?_getD, List.getElem?_set_self (by
    rw [List.length_replicate]; exact hlt)]
  rfl

/-- The dot is written to the first row of the slot of its glyph, and to the second when it is
doubled; nothing else is written, also when the places of other glyphs wrap. -/
theorem GlyphFits.dot_writes {double : Bool} (h : GlyphFits double width height)
    (hsize : fontsize * (height * ((width + 7) / 8)) < 2 ^ 32) {w : Nat × UInt8}
    (hw : w ∈ fillWrites double (dotBitmap width height fontsize)
      (glyphSizes double width height (loadPitch width height)) height fontsize)
    (hne : w.2 ≠ 0) :
    ∃ r < zoom double, w.1 = (slotRows double width height + r) * rowBytes double width := by
  have hslot := h.slot_le
  have hbw : 1 ≤ (width + 7) / 8 := by
    have := h.width_pos
    omega
  have hcs : 0 < height * ((width + 7) / 8) := Nat.mul_pos h.height_pos hbw
  have hexact : ∀ i o, i < fontsize → o < height * ((width + 7) / 8) →
      i * (height * ((width + 7) / 8)) + o < 2 ^ 32 := by
    intro i o hi ho
    exact lt_trans (slot_lt hi ho) hsize
  rw [h.glyphSizes_eq] at hw
  cases double with
  | false =>
    simp only [fillWrites, Bool.false_eq_true, if_false, List.mem_flatMap, List.mem_range,
      copyWrites, List.mem_map, Prod.exists, List.mk_mem_zipIdx_iff_getElem?] at hw
    obtain ⟨i, hi, v, o, hget, rfl⟩ := hw
    have ho : o < height * ((width + 7) / 8) := by
      have := (List.getElem?_eq_some_iff.mp hget).1
      rw [List.length_take] at this
      omega
    have hi32 : u32 (i * (height * ((width + 7) / 8))) = i * (height * ((width + 7) / 8)) :=
      u32_of_lt (hexact i 0 hi hcs)
    rw [hi32, List.getElem?_take_of_lt ho, List.getElem?_drop] at hget
    have hval : (dotBitmap width height fontsize).getD (i * (height * ((width + 7) / 8)) + o) 0 ≠ 0 := by
      rw [List.getD_eq_getElem?_getD, hget]
      exact hne
    have hdot : i * (height * ((width + 7) / 8)) + o = 1 * (height * ((width + 7) / 8)) + 0 := by
      rw [Nat.one_mul, Nat.add_zero]
      exact eq_of_dotBitmap_ne_zero hval
    obtain ⟨rfl, rfl⟩ := slot_inj ho hcs hdot
    refine ⟨0, by decide, ?_⟩
    dsimp only
    rw [u32_of_lt (by omega), Nat.one_mul, Nat.add_zero, Nat.add_zero]
  | true =>
    simp only [fillWrites, if_true, List.mem_flatMap] at hw
    obtain ⟨⟨i, y, x⟩, hmem, hw⟩ := hw
    obtain ⟨hi, hy, hx⟩ := mem_loopIndices.mp hmem
    have ho : y * ((width + 7) / 8) + x / 2 < height * ((width + 7) / 8) :=
      slot_lt hy (half_lt_bytewidth hx)
    have hidx : u32 (i * (height * ((width + 7) / 8)) + y * ((width + 7) / 8) + x / 2) =
        i * (height * ((width + 7) / 8)) + (y * ((width + 7) / 8) + x / 2) := by
      rw [Nat.add_assoc]
      exact u32_of_lt (hexact i _ hi ho)
    rw [doubleWrites] at hw
    dsimp only at hw
    rw [hidx] at hw
    have hval : w.2 = doubledByte ((dotBitmap width height fontsize).getD
        (i * (height * ((width + 7) / 8)) + (y * ((width + 7) / 8) + x / 2)) 0) x := by
      rcases List.mem_cons.mp hw with rfl | hw
      · rfl
      · rw [List.mem_singleton.mp hw]
    have hdot : i * (height * ((width + 7) / 8)) + (y * ((width + 7) / 8) + x / 2) =
        1 * (height * ((width + 7) / 8)) + 0 := by
      rw [Nat.one_mul, Nat.add_zero]
      refine @eq_of_dotBitmap_ne_zero width height fontsize _ fun hzero => hne ?_
      rw [hval, hzero, doubledByte_zero]
    obtain ⟨rfl, hyx⟩ := slot_inj ho hcs hdot
    have hy0 : y = 0 := by
      rcases Nat.eq_zero_or_pos y with hy0 | hy0
      · exact hy0
      · have := Nat.mul_pos hy0 hbw
        omega
    subst hy0
    -- the right half of the byte with the dot is blank
    have hx0 : x = 0 := by
      rcases (by omega : x = 0 ∨ x = 1) with hx0 | hx1
      · exact hx0
      · rw [hdot, Nat.one_mul, Nat.add_zero, getD_dotBitmap hcs hi, hx1] at hval
        exact absurd hval hne
    subst hx0
    rcases List.mem_cons.mp hw with rfl | hw
    · refine ⟨0, by decide, ?_⟩
      dsimp only
      rw [u32_of_lt (by omega), Nat.add_zero (slotRows true width height)]
      omega
    · rw [List.mem_singleton.mp hw]
      refine ⟨1, by decide, ?_⟩
      dsimp only
      have hrb : rowBytes true width ≤ slotRows true width height * rowBytes true width :=
        Nat.le_mul_of_pos_left _ h.slotRows_pos
      rw [u32_of_lt (by omega), Nat.add_mul (slotRows true width height)]
      omega

theorem slotRows_even (h : GlyphFits true width height) : slotRows true width height % 2 = 0 := by
  have hw := h.width_le
  rw [if_pos rfl] at hw
  rw [slotRows, loadPitch, zoom]
  split <;> simp only [if_true] <;> omega

/-- A second glyph is not found at a pitch other than that of the buffer. -/
theorem not_loadsRight_of_mismatch (h : Loadable width height) (hhw : hwunit < 2 ^ 31)
    (hsize : fontsize * (height * ((width + 7) / 8)) < 2 ^ 32) {double : Bool}
    (hdouble : doubles doubleSize width height = double) (htwo : 2 ≤ fontsize)
    (htall : ¬ (slotRows double width height = 32 ∧ zoom double * width ≤ 32))
    (hne : askedHeight double height hwunit ≠ slotRows double width height) :
    ¬ LoadsRight doubleSize width height hwunit fontsize := by
  intro hright
  have hfits : GlyphFits double width height := hdouble ▸ h.glyphFits doubleSize
  have hin := (length_dotBitmap width height fontsize).ge
  obtain ⟨buf, hbuf, ⟨data, hdata, -, hrows, -⟩, -⟩ := hright.exists_buf h hhw hsize hin hdouble
  cases hdata
  have hpos := h.askedHeight_pos double hwunit
  have hzh : 1 ≤ zoom double * height := one_le_zoom double h.height_pos
  have hzw : 1 ≤ zoom double * width := one_le_zoom double h.width_pos
  have hcs : 0 < height * ((width + 7) / 8) := by
    have := h.width_pos
    exact Nat.mul_pos h.height_pos (by omega)
  have hdot := hrows 1 0 0 htwo (Nat.lt_min.mpr ⟨hpos, hzh⟩) hzw
  rw [hfits.pixel_inbuf hin htwo hzh hzw, glyphPitch_putFontOp, if_neg htall] at hdot
  have hbit : (sourceByte double (dotBitmap width height fontsize) width height 1 0
      (0 / 8)).toNat.testBit (7 - 0 % 8) = true := by
    have hget := getD_dotBitmap hcs htwo
    cases double with
    | false =>
      simp only [sourceByte, Bool.false_eq_true, if_false, Nat.one_mul, Nat.zero_mul, Nat.zero_div,
        Nat.add_zero, hget]
      decide
    | true =>
      simp only [sourceByte, if_true, Nat.one_mul, Nat.zero_mul, Nat.zero_div, Nat.add_zero, hget]
      decide
  rw [hbit] at hdot
  -- the byte with the dot was written, so it is in the slot of its glyph
  obtain ⟨b, hb, hb7⟩ : ∃ b, buf[askedHeight double height hwunit * rowBytes double width]? = some b ∧
      b.toNat.testBit 7 = true := by
    simpa [pixel, rowBytes, putFontOp] using hdot
  have hb0 : b ≠ 0 := by
    rintro rfl
    cases hb7
  have hwritten : ∃ w ∈ fillWrites double (dotBitmap width height fontsize)
      (glyphSizes double width height (loadPitch width height)) height fontsize,
        w.1 = askedHeight double height hwunit * rowBytes double width := by
    by_contra hno
    have hkeep := getElem?_of_forall_ne hbuf fun w hw heq => hno ⟨w, hw, heq⟩
    rw [hb, List.getElem?_replicate] at hkeep
    split at hkeep
    · exact hb0 (Option.some.inj hkeep)
    · cases hkeep
  obtain ⟨w, hw, hwj, hwb⟩ := exists_of_mem hbuf hwritten
  have hw0 : w.2 ≠ 0 := by
    rw [hb] at hwb
    rw [← Option.some.inj hwb]
    exact hb0
  obtain ⟨r, hr, hplace⟩ := hfits.dot_writes hsize hw hw0
  have hrow : askedHeight double height hwunit = slotRows double width height + r :=
    Nat.eq_of_mul_eq_mul_right hfits.rowBytes_pos (hwj.symm.trans hplace)
  cases double with
  | false =>
    simp only [zoom, Bool.false_eq_true, if_false] at hr
    omega
  | true =>
    have heven := slotRows_even hfits
    simp only [zoom, if_true] at hr
    simp only [askedHeight, zoom, if_true] at hrow hne
    omega

/-- The pixels of a bitmap without a blank one. -/
theorem GlyphFits.pixel_full {double : Bool} (h : GlyphFits double width height) {g r c : Nat}
    (hg : g < fontsize) (hr : r < zoom double * height) (hc : c < zoom double * width) :
    pixel (List.replicate (fontsize * (height * ((width + 7) / 8))) 0xFF) ((width + 7) / 8)
      (g * height + r / zoom double) (c / zoom double) = some true := by
  have hsome := h.pixel_inbuf (List.length_replicate (n := fontsize * (height * ((width + 7) / 8)))
    (a := (0xFF : UInt8))).ge hg hr hc
  have hbits : ∀ i < 8, (0xFF : UInt8).toNat.testBit (7 - i) = true := by decide
  rw [pixel, List.getElem?_replicate] at hsome ⊢
  split
  · exact congrArg some (hbits _ (Nat.mod_lt _ (by decide)))
  · rename_i hout
    rw [if_neg hout] at hsome
    cases hsome

/-- A slot of more than 32 rows has no room after its glyph. -/
theorem slotRows_of_tall {double : Bool} (hwidth : zoom double * width = 8)
    (htall : slotRows double width height ≠ 32) :
    slotRows double width height = zoom double * height ∧ 32 < slotRows double width height := by
  have hw : width ≤ 32 := by
    rw [zoom] at hwidth
    split at hwidth <;> omega
  rw [slotRows, loadPitch_of_le hw] at htall ⊢
  cases double with
  | false =>
    simp only [zoom, Bool.false_eq_true, if_false] at htall ⊢
    omega
  | true =>
    simp only [zoom, if_true] at htall ⊢
    omega

/-- The second request leaves out what a tall glyph has after its first 32 rows. -/
theorem not_loadsRight_of_retry (h : Loadable width height) (hhw : hwunit < 2 ^ 31)
    (hone : 1 ≤ fontsize) {double : Bool} (hdouble : doubles doubleSize width height = double)
    (htall : ¬ (slotRows double width height = 32 ∧ zoom double * width ≤ 32))
    (hretry : zoom double * width = 8 ∧ fontsize ≠ 256 ∧ fontsize < 512)
    (hheight : fontsize = 1 → askedHeight double height hwunit ≠ 32)
    (hagree : 2 ≤ fontsize → askedHeight double height hwunit = slotRows double width height) :
    ¬ LoadsRight doubleSize width height hwunit fontsize := by
  intro hright
  have hfits : GlyphFits double width height := hdouble ▸ h.glyphFits doubleSize
  have hrow : rowBytes double width = 1 := by rw [rowBytes, hretry.1]
  have hasked := h.askedHeight_pos double hwunit
  have hrows32 := slotRows_of_tall hretry.1 fun h32 => htall ⟨h32, by omega⟩
  obtain ⟨-, hcs, -⟩ := hfits.slot_bounds fontsize
  have hslot := hfits.slot_le
  have hsize : fontsize * (height * ((width + 7) / 8)) < 2 ^ 32 := by
    have := Nat.mul_le_mul hretry.2.2.le (le_trans hcs hslot)
    omega
  have hpad : paddedSize double width height fontsize < 2 ^ 32 := by
    rw [paddedSize]
    have := Nat.mul_le_mul hslot (show max 128 fontsize ≤ 512 by omega)
    omega
  have hin := (List.length_replicate (n := fontsize * (height * ((width + 7) / 8)))
    (a := (0xFF : UInt8))).ge
  obtain ⟨buf, hbuf, -, hshows⟩ := hright.exists_buf h hhw hsize hin hdouble
  obtain ⟨buf', hbuf', hfilled⟩ := hfits.exists_filled hin hpad
  rw [hfits.fillBuffer_eq hsize hin, hbuf] at hbuf'
  cases hbuf'
  obtain ⟨data, hdata, -, hglyph, hblank⟩ := hshows hretry
  cases hdata
  have hlen : 32 * fontsize ≤ buf.length := by
    rw [hfilled.length, paddedSize, hrow, Nat.mul_one]
    exact Nat.mul_le_mul hrows32.2.le (Nat.le_max_right _ _)
  have hct : fontsize ≤ if fontsize > 256 then 512 else 256 := by split <;> omega
  have hpitch : glyphPitch (retryFontOp (putFontOp buf fontsize (zoom double * width)
      (askedHeight double height hwunit) (slotRows double width height)) buf fontsize) =
        askedHeight double height hwunit := by
    have hsame : glyphPitch (retryFontOp (putFontOp buf fontsize (zoom double * width)
        (askedHeight double height hwunit) (slotRows double width height)) buf fontsize) =
          glyphPitch (putFontOp buf fontsize (zoom double * width)
            (askedHeight double height hwunit) (slotRows double width height)) := rfl
    rw [hsame, glyphPitch_putFontOp, if_neg htall]
  have hzw : 0 < zoom double * width := by omega
  have hread : ∀ i, pixel (buf.take (32 * fontsize) ++ List.replicate
      ((32 * if fontsize > 256 then 512 else 256) - 32 * fontsize) 0) (rowBytes double width) i 0 =
        if i < 32 * fontsize then pixel buf (rowBytes double width) i 0
        else if i < 32 * (if fontsize > 256 then 512 else 256) then some false else none := by
    intro i
    rw [hrow, pixel, pixel, Nat.mul_one, Nat.zero_div, Nat.add_zero, getElem?_retry hlen hct]
    generalize (if fontsize > 256 then 512 else 256) = ct
    by_cases hcopied : i < 32 * fontsize
    · rw [if_pos hcopied, if_pos hcopied]
    · rw [if_neg hcopied, if_neg hcopied]
      split <;> rfl
  -- a pixel that should be set is not in the copied part
  have hlost : ∀ g r, g < fontsize → r < askedHeight double height hwunit →
      r < slotRows double width height →
      32 * fontsize ≤ g * askedHeight double height hwunit + r → False := by
    intro g r hg hr hr' hout
    have hset := hglyph g r 0 hg (Nat.lt_min.mpr ⟨hr, hrows32.1 ▸ hr'⟩) hzw
    rw [hpitch, hfits.pixel_full hg (hrows32.1 ▸ hr') hzw] at hset
    have hlost := (hread _).symm.trans hset
    rw [if_neg (by omega)] at hlost
    generalize (if fontsize > 256 then 512 else 256) = ct at hlost
    split at hlost <;> cases hlost
  rcases (by omega : 2 ≤ fontsize ∨ fontsize = 1) with htwo | hfont
  · have hS := hagree htwo
    have hlast : 33 * fontsize ≤ slotRows double width height * fontsize :=
      Nat.mul_le_mul_right _ hrows32.2
    have hexp : slotRows double width height * fontsize =
        (fontsize - 1) * slotRows double width height + slotRows double width height := by
      conv_lhs => rw [show fontsize = fontsize - 1 + 1 by omega]
      rw [Nat.mul_comm, Nat.succ_mul]
    refine hlost (fontsize - 1) (slotRows double width height - 1) (by omega) (by omega) (by omega) ?_
    rw [hS]
    omega
  · have hne := hheight hfont
    rcases (by omega : 32 < askedHeight double height hwunit ∨
        askedHeight double height hwunit < 32) with hgt | hlt
    · exact hlost 0 32 (by omega) hgt hrows32.2 (by omega)
    · -- the end of the copied part is taken for the next glyph
      have hcount : 1 < if fontsize > 256 then 512 else 256 := by split <;> decide
      have hnext := hblank 1 0 0 (by omega) hcount (Nat.lt_min.mpr ⟨hasked, by rw [hpitch]; exact hasked⟩)
        hzw
      have hr : askedHeight double height hwunit < zoom double * height := by omega
      have hset := hfilled.pixel_buf hfits (show 0 < fontsize by omega) hr hzw
      rw [← hfits.pixel_inbuf hin (by omega) hr hzw, hfits.pixel_full (by omega) hr hzw, Nat.zero_mul,
        Nat.zero_add] at hset
      rw [hpitch, Nat.one_mul] at hnext
      have hcopied := (hread _).symm.trans hnext
      rw [if_pos (by omega), Nat.add_zero, hset] at hcopied
      cases hcopied

/-- Fonts are loaded right exactly when the pitches agree. -/
theorem loadsRight_iff (h : Loadable width height) (hhw : hwunit < 2 ^ 31) (hone : 1 ≤ fontsize)
    (hsize : fontsize * (height * ((width + 7) / 8)) < 2 ^ 32) :
    LoadsRight doubleSize width height hwunit fontsize ↔
      PitchesAgree (doubles doubleSize width height) width height hwunit fontsize := by
  refine ⟨?_, loadsRight_of_pitchesAgree h hhw⟩
  intro hright
  by_contra hnot
  generalize hdouble : doubles doubleSize width height = double at hnot
  by_cases hset : slotRows double width height = 32 ∧ zoom double * width ≤ 32
  · have hwrap : 2 ^ 32 ≤ paddedSize double width height fontsize := by
      by_contra hlt
      exact hnot ⟨by omega, Or.inl hset⟩
    exact not_loadsRight_of_wrap h hhw hsize hdouble hwrap (Or.inl hset) hright
  by_cases htwo : 2 ≤ fontsize
  · by_cases heq : askedHeight double height hwunit = slotRows double width height
    · by_cases hwrap : 2 ^ 32 ≤ paddedSize double width height fontsize
      · exact not_loadsRight_of_wrap h hhw hsize hdouble hwrap (Or.inr heq) hright
      · by_cases hretry : zoom double * width = 8 ∧ fontsize ≠ 256 ∧ fontsize < 512
        · exact not_loadsRight_of_retry h hhw hone hdouble hset hretry (by omega) (fun _ => heq) hright
        · refine hnot ⟨by omega, Or.inr ?_⟩
          rw [if_neg hretry]
          exact Or.inr heq
    · exact not_loadsRight_of_mismatch h hhw hsize hdouble htwo hset heq hright
  · have hfont : fontsize = 1 := by omega
    have hpad : paddedSize double width height fontsize < 2 ^ 32 := by
      have hslot := (hdouble ▸ h.glyphFits doubleSize : GlyphFits double width height).slot_le
      rw [paddedSize, Nat.max_eq_left (by omega)]
      omega
    by_cases hretry : zoom double * width = 8 ∧ fontsize ≠ 256 ∧ fontsize < 512
    · by_cases h32 : askedHeight double height hwunit = 32
      · refine hnot ⟨hpad, Or.inr ?_⟩
        rw [if_pos hretry]
        exact ⟨hfont, h32⟩
      · exact not_loadsRight_of_retry h hhw hone hdouble hset hretry (fun _ => h32) (by omega) hright
    · refine hnot ⟨hpad, Or.inr ?_⟩
      rw [if_neg hretry]
      exact Or.inl hfont

end Agree

/-- The usual font of a console. -/
theorem loadsRight_iff_8x16 :
    LoadsRight false 8 16 0 256 ↔ PitchesAgree (doubles false 8 16) 8 16 0 256 :=
  loadsRight_iff ⟨by decide, by decide, by decide, by decide⟩ (by decide) (by decide) (by decide)

/-- A font of width 20 and height 10 is doubled into slots of 32 rows, and asked for with 20. -/
theorem not_loadsRight :
    ¬ ∀ (doubleSize : Bool) (width height hwunit fontsize : Nat), Loadable width height →
      hwunit < 2 ^ 31 → 1 ≤ fontsize → fontsize * (height * ((width + 7) / 8)) < 2 ^ 32 →
      LoadsRight doubleSize width height hwunit fontsize := by
  intro hall
  have hload : Loadable 20 10 := ⟨by decide, by decide, by decide, by decide⟩
  exact not_loadsRight_of_mismatch hload (by decide) (by decide) (show doubles true 20 10 = true by decide)
    (by decide) (by decide) (by decide)
    (hall true 20 10 0 256 hload (by decide) (by decide) (by decide))

end Kbd.Font
