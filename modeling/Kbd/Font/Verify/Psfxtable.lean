import Kbd.Font.Psfxtable
import Kbd.Font.Verify.Xtable

/-!
# A table that is taken out of a font and put in again

`psfstriptable` gives a font without its table, and `psfgettable` its table as text. `psfaddtable` makes of
the two the font that `psfxtable` makes of the whole, as long as the text says what the table says
(`psfaddtable_psfstriptable`).
-/

namespace Kbd.Font

open Kbd.Keymap (bytes)

/-! ## Fonts that are read -/

section

variable {buf : List UInt8} {font : PsfFont} {heads : Option (List UnicodeList)}

theorem PsfFont.sizesFit (hsize : buf.length ≤ maxFontSize) {fontpos0 : Nat}
    {old : Option (List UnicodeList)} (h : kfontReadPsffont buf fontpos0 old = .ok (font, heads)) :
    SizesFit font.fontwidth font.fontheight font.fontlen ∧
      font.fontbuf.length = font.fontlen * font.fontheight * ((font.fontwidth + 7) / 8) := by
  obtain ⟨hd, -, hcheck, hbuf, hwidth, hlen, -⟩ := kfontReadPsffont_cases h
  obtain ⟨hlen1, hcs1, hle, hcs⟩ := checkPsfHeader_cases hcheck
  rw [hwidth, hlen]
  rw [hcs] at hcs1
  have hbw : 1 ≤ bytewidth hd.fontwidth := Nat.pos_of_mul_pos_right hcs1
  have hheight : 1 ≤ font.fontheight := Nat.pos_of_mul_pos_left hcs1
  have hmul : hd.charsize ≤ hd.fontlen * hd.charsize := Nat.le_mul_of_pos_left _ hlen1
  have hbwle : bytewidth hd.fontwidth ≤ hd.charsize := by
    rw [hcs]
    exact Nat.le_mul_of_pos_right _ hheight
  have hbweq := bytewidth_eq hd.fontwidth
  have hmax : maxFontSize < 2 ^ 24 := by decide
  refine ⟨⟨hlen1, ?_, hheight, by omega, ?_⟩, ?_⟩
  · by_contra hno
    rw [bytewidth, show hd.fontwidth = 0 by omega] at hbw
    exact absurd hbw (by decide)
  · rw [← hcs, Nat.mul_comm]
    omega
  · rw [hbuf, List.length_take, List.length_drop, Nat.min_eq_left (by omega), hcs, bytewidth_eq,
      Nat.mul_assoc, Nat.mul_comm font.fontheight]

theorem PsfFont.fontlen_le (hsize : buf.length ≤ maxFontSize) {fontpos0 : Nat}
    {old : Option (List UnicodeList)} (h : kfontReadPsffont buf fontpos0 old = .ok (font, heads)) :
    font.fontlen ≤ 0x7fffffff := by
  have hle := fontlen_le_maxFontSize (if_neg (by omega)) h
  have hbound : maxFontSize ≤ 0x7fffffff := by decide
  omega

/-- The font is read without its table too. -/
theorem kfontReadPsffont_none {old : List UnicodeList}
    (h : kfontReadPsffont buf 0 (some old) = .ok (font, heads)) :
    kfontReadPsffont buf 0 none = .ok (font, none) := by
  simp only [kfontReadPsffont, bind, Except.bind] at h ⊢
  split at h
  · cases h
  split at h
  · cases h
  split at h
  · cases h
  split at h
  · cases h
  · cases h
    rfl

/-- The program and the reader tell the two formats apart in the same way. -/
theorem psftypeOf_of_readPsfHeader {hd : PsfHeader} (h : readPsfHeader buf = .ok hd) :
    psftypeOf buf = .ok (if hd.utf8 then 2 else 1) := by
  rw [readPsfHeader] at h
  split at h
  · rename_i hmagic
    dsimp only at h
    split at h
    · cases h
    · cases h
      exact if_pos hmagic.2
  rename_i hno
  split at h
  · rename_i hmagic
    have h1 : ¬ psf1Magic.isPrefixOf buf := fun h1 => hno ⟨by omega, h1⟩
    dsimp only at h
    split at h
    · cases h
    · cases h
      exact (if_neg h1).trans (if_pos hmagic.2)
  · cases h

end

/-! ## Fonts that are written -/

section

variable {width height fontlen : Nat} {psftype : Int} {hasTab hasSeq : Bool}

theorem headerType_headerType :
    headerType width height fontlen (headerType width height fontlen psftype) =
      headerType width height fontlen psftype := by
  unfold headerType
  split <;> rfl

theorem psftypeOf_writepsffontheader (utf8 : Bool) (rest : List UInt8) :
    psftypeOf ((writepsffontheader width height fontlen (if utf8 then 2 else 1) hasTab
        hasSeq).1 ++ rest) =
      .ok (headerType width height fontlen (if utf8 then 2 else 1)) := by
  have hty : headerType width height fontlen (if utf8 then 2 else 1) = 2 ∨
      headerType width height fontlen (if utf8 then 2 else 1) = 1 := by
    unfold headerType
    split
    · exact .inl rfl
    · cases utf8
      · exact .inr rfl
      · exact .inl rfl
  rcases hty with h | h
  all_goals
    simp only [writepsffontheader, h]
    rfl

theorem length_writepsffontheader_le :
    (writepsffontheader width height fontlen psftype hasTab hasSeq).1.length ≤ 32 := by
  unfold writepsffontheader
  dsimp only
  split
  · exact Nat.le_refl 32
  · exact Nat.le_of_ble_eq_true rfl

/-- Only the format that the header gets matters. -/
theorem kfontWritePsffont_headerType (fontbuf : List UInt8)
    (uclistheads : Option (List UnicodeList)) :
    kfontWritePsffont fontbuf width height fontlen (headerType width height fontlen psftype)
      uclistheads = kfontWritePsffont fontbuf width height fontlen psftype uclistheads := by
  simp only [kfontWritePsffont, writepsffontheader, headerType_headerType]

/-- The program has the format of a written font from its header. -/
theorem psftypeOf_kfontWritePsffont {fontbuf out : List UInt8} {utf8 b : Bool}
    {uclistheads : Option (List UnicodeList)}
    (h : kfontWritePsffont fontbuf width height fontlen (if utf8 then 2 else 1) uclistheads =
      .ok (out, b)) :
    psftypeOf out = .ok (headerType width height fontlen (if utf8 then 2 else 1)) := by
  simp only [kfontWritePsffont, bind, Except.bind] at h
  split at h
  · cases h
  split at h
  · cases h
  · cases h
    rw [List.append_assoc]
    exact psftypeOf_writepsffontheader utf8 _

/-- A font without a table is its header and its bitmap. -/
theorem kfontWritePsffont_none {fontbuf out : List UInt8} {utf8 : Bool}
    (h : kfontWritePsffont fontbuf width height fontlen psftype none = .ok (out, utf8)) :
    ∃ n, out = (writepsffontheader width height fontlen psftype false false).1 ++ fontbuf.take n := by
  simp only [kfontWritePsffont, Option.getD_none, List.take_nil, List.mapM_nil] at h
  split at h
  · cases h
  · cases h
    exact ⟨_, List.append_nil _⟩

end

/-! ## The program -/

section

variable {file stripped : List UInt8} {font : PsfFont} {psftype : Int}

theorem psfxtable_of_read {opts : PsfxtableOptions} {old heads : Option (List UnicodeList)}
    (hsize : file.length ≤ maxFontSize) (hread : kfontReadPsffont file 0 old = .ok (font, heads))
    (hold : (if opts.itab.isSome then none else some []) = old) :
    psfxtable opts file = psfxtableWrite opts file font heads := by
  rw [psfxtable, readFontfile, if_neg (by omega)]
  simp only [hold, hread]

theorem outHeight_eq (h : 1 ≤ font.fontheight) : outHeight font = font.fontheight :=
  if_neg (by omega)

/-- What `-o` writes does not depend on which of the two fonts the table has been put into. -/
theorem writeOfil_headerType {opts opts' : PsfxtableOptions} (hofil : opts.ofil = opts'.ofil)
    (hnotable : opts.notable = opts'.notable) (hheight : 1 ≤ font.fontheight)
    (uclistheads : Option (List UnicodeList)) :
    writeOfil opts font (headerType font.fontwidth font.fontheight font.fontlen psftype)
      uclistheads = writeOfil opts' font psftype uclistheads := by
  simp only [writeOfil, hofil, hnotable, outHeight_eq hheight, kfontWritePsffont_headerType]

/-- A text that is put into a stripped font: the lines are read into its table. -/
theorem psfaddtable_eq {t : List UnicodeList} (hsize : stripped.length ≤ maxFontSize)
    (hread : kfontReadPsffont stripped 0 none = .ok (font, none))
    (hfile : psftypeOf file = .ok psftype) (hstripped : psftypeOf stripped =
      .ok (headerType font.fontwidth font.fontheight font.fontlen psftype))
    (hheight : 1 ≤ font.fontheight) (hlen : t.length = font.fontlen)
    (hmax : t.length ≤ 0x7fffffff) :
    psfaddtable stripped (kfontWriteUnicodetable font.fontlen t) =
      if linesFit 0 t then psfxtableWrite { ofil := true } file font (some (t.map reparse))
      else .error (.badTable .lineTooLong) := by
  have htext := kfontReadUnicodetable_written hmax
  rw [hlen] at htext
  rw [psfaddtable, psfxtable_of_read hsize hread rfl, psfxtableWrite, psfxtableWrite, hfile, hstripped]
  simp only [outTable, htext, bind, Except.bind]
  by_cases hfit : linesFit 0 t
  · have hofil := @writeOfil_headerType font psftype
      { itab := some (kfontWriteUnicodetable font.fontlen t), ofil := true } { ofil := true } rfl rfl
      hheight (some (t.map reparse))
    simp only [hfit, if_true, hofil]
    rfl
  · simp only [hfit, Bool.false_eq_true, if_false]

end

/-- A font is put together again from what the two programs take out of it, where its code points have
four digits, unless a line is too long for the buffer. -/
theorem psfaddtable_psfstriptable {file : List UInt8} {font : PsfFont} {t : List UnicodeList}
    (hsize : file.length ≤ maxFontSize)
    (hread : kfontReadPsffont file 0 (some []) = .ok (font, some t))
    (hroom : 32 + font.fontbuf.length ≤ maxFontSize) :
    ∃ stripped text, psfstriptable file = .ok { ofil := some stripped } ∧
      kfontReadPsffont stripped 0 (some []) =
        .ok (font, some (List.replicate font.fontlen clearUniEntry)) ∧
      psfgettable file = .ok { otab := some text } ∧
      ((∀ ul ∈ t, FourDigits ul) → psfaddtable stripped text =
        if linesFit 0 t then psfxtable { ofil := true } file
        else .error (.badTable .lineTooLong)) := by
  obtain ⟨hfit, hbuf⟩ := PsfFont.sizesFit hsize hread
  obtain ⟨hlen, hne⟩ := kfontReadPsffont_nonempty hread
  obtain ⟨hd, hhd, -⟩ := kfontReadPsffont_cases hread
  have hfile := psftypeOf_of_readPsfHeader hhd
  have hheight := outHeight_eq hfit.height_pos
  -- the font without its table
  obtain ⟨stripped, hwrite, hreread⟩ :=
    @kfontReadPsffont_written _ _ _ font.fontbuf (if hd.utf8 then 2 else 1) none hfit
      hbuf (by simp) (by simp) []
  obtain ⟨n, hout⟩ := kfontWritePsffont_none hwrite
  have hstripped : psfstriptable file = .ok { ofil := some stripped } := by
    rw [psfstriptable, psfxtable_of_read hsize hread rfl, psfxtableWrite, hfile]
    simp [outTable, writeOtab, writeOfil, hheight, hwrite, bind, Except.bind, pure, Except.pure]
  -- its table
  have htext : psfgettable file = .ok { otab := some (kfontWriteUnicodetable font.fontlen t) } := by
    rw [psfgettable, psfxtable_of_read hsize hread rfl, psfxtableWrite, hfile]
    simp [outTable, writeOtab, writeOfil, bind, Except.bind, pure, Except.pure]
  refine ⟨stripped, _, hstripped, hreread, htext, fun h4 => ?_⟩
  have hsize' : stripped.length ≤ maxFontSize := by
    have hheader := @length_writepsffontheader_le font.fontwidth font.fontheight font.fontlen
      (if hd.utf8 then 2 else 1) false false
    rw [hout, List.length_append, List.length_take]
    omega
  have hpsftype := psftypeOf_kfontWritePsffont hwrite
  have hmax : t.length ≤ 0x7fffffff := hlen ▸ PsfFont.fontlen_le hsize hread
  have hmap : t.map reparse = t := map_eq_self_iff.mpr fun ul hul =>
    (reparse_eq_iff (hne ul hul)).mpr (h4 ul hul)
  rw [psfaddtable_eq hsize' (kfontReadPsffont_none hreread) hfile hpsftype hfit.height_pos hlen hmax,
    hmap, psfxtable_of_read hsize hread rfl]

/-- A letter, and one with an accent after it. -/
theorem psfaddtable_psfstriptable_accent : ∃ stripped text,
    psfstriptable (oneGlyphFile [0xc3, 0x85, 0xfe, 0x41, 0xcc, 0x8a]) =
      .ok { ofil := some stripped } ∧
    psfgettable (oneGlyphFile [0xc3, 0x85, 0xfe, 0x41, 0xcc, 0x8a]) =
      .ok { otab := some text } ∧
    psfaddtable stripped text =
      psfxtable { ofil := true } (oneGlyphFile [0xc3, 0x85, 0xfe, 0x41, 0xcc, 0x8a]) := by
  have hread : kfontReadPsffont (oneGlyphFile [0xc3, 0x85, 0xfe, 0x41, 0xcc, 0x8a]) 0 (some []) =
      .ok ({ fontbuf := [0x18], fontwidth := 8, fontheight := 1, fontlen := 1 },
        some [[[0xc5], [0x41, 0x30a]]]) := by decide
  obtain ⟨stripped, text, hstripped, -, htext, hadd⟩ :=
    psfaddtable_psfstriptable (by decide) hread (by decide)
  have hfit : linesFit 0 [[[0xc5], [0x41, 0x30a]]] = true := by decide +kernel
  exact ⟨stripped, text, hstripped, htext, (hadd (by decide)).trans (if_pos hfit)⟩

/-- A text that is put into a font is taken out of it as the program writes the table that was read, and
this text makes the same font. -/
theorem psfgettable_psfaddtable {infont : List UInt8} {intable : List Char} {font : PsfFont}
    {t : List UnicodeList} {psftype : Int} (hsize : infont.length ≤ maxFontSize)
    (hread : kfontReadPsffont infont 0 none = .ok (font, none))
    (htype : psftypeOf infont = .ok psftype)
    (htable : kfontReadUnicodetable intable font.fontlen = .ok t)
    (hrep : ∀ ul ∈ t, GlyphRepresentable
      (headerType font.fontwidth font.fontheight font.fontlen psftype = 2) ul)
    (hord : ∀ ul ∈ t, SinglesFirst ul) :
    ∃ outfont, psfaddtable infont intable = .ok { ofil := some outfont } ∧
      (outfont.length ≤ maxFontSize →
        psfgettable outfont = .ok { otab := some (kfontWriteUnicodetable font.fontlen t) }) ∧
      ((∀ ul ∈ t, FourDigits ul) → linesFit 0 t →
        psfaddtable infont (kfontWriteUnicodetable font.fontlen t) =
          .ok { ofil := some outfont }) := by
  obtain ⟨hfit, hbuf⟩ := PsfFont.sizesFit hsize hread
  obtain ⟨hlen, hne⟩ := kfontReadUnicodetable_nonempty htable
  have hheight := outHeight_eq hfit.height_pos
  obtain ⟨outfont, hwrite, hreread⟩ := @kfontReadPsffont_written _ _ _ font.fontbuf psftype (some t)
    hfit hbuf (by simp [hlen]) (by simpa using hrep) []
  have hadd {text : List Char} (htext : kfontReadUnicodetable text font.fontlen = .ok t) :
      psfaddtable infont text = .ok { ofil := some outfont } := by
    rw [psfaddtable, psfxtable_of_read hsize hread rfl, psfxtableWrite, htype]
    simp [outTable, htext, writeOtab, writeOfil, hheight, hwrite, bind, Except.bind, pure,
      Except.pure]
  refine ⟨outfont, hadd htable, fun hout => ?_, fun h4 hlines => ?_⟩
  · have hmap : t.map reread = t := (map_reread_eq_iff hne).mpr hord
    obtain ⟨hd, hhd, -⟩ := kfontReadPsffont_cases hreread
    rw [psfgettable, psfxtable_of_read hout hreread rfl, psfxtableWrite,
      psftypeOf_of_readPsfHeader hhd]
    simp [outTable, writeOtab, writeOfil, hmap, bind, Except.bind, pure, Except.pure]
  · have hmap : t.map reparse = t := map_eq_self_iff.mpr fun ul hul =>
      (reparse_eq_iff (hne ul hul)).mpr (h4 ul hul)
    have hwritten := kfontReadUnicodetable_written (hlen ▸ PsfFont.fontlen_le hsize hread)
    rw [hlen, if_pos hlines, hmap] at hwritten
    exact hadd hwritten

/-- A font of one glyph gets a table, and gets it again from the text that the program writes. -/
theorem psfgettable_psfaddtable_letter :
    let outtable := kfontWriteUnicodetable 1 [[[0x42]]]
    psfaddtable (oneGlyphFile [0x41]) (bytes "0 U+0042 # B\n") =
        .ok { ofil := some (oneGlyphFile [0x42]) } ∧
      psfgettable (oneGlyphFile [0x42]) = .ok { otab := some outtable } ∧
      psfaddtable (oneGlyphFile [0x41]) outtable = .ok { ofil := some (oneGlyphFile [0x42]) } := by
  have hread : kfontReadPsffont (oneGlyphFile [0x41]) 0 none =
      .ok ({ fontbuf := [0x18], fontwidth := 8, fontheight := 1, fontlen := 1 }, none) := by decide
  have htable : kfontReadUnicodetable (bytes "0 U+0042 # B\n") 1 = .ok [[[0x42]]] := by
    decide +kernel
  obtain ⟨outfont, hadd, hget, hagain⟩ := @psfgettable_psfaddtable (oneGlyphFile [0x41]) _ _ _ 2
    (by decide) hread rfl htable (by simp [GlyphRepresentable, Representable, headerType])
    (by simp [SinglesFirst])
  have hout : psfaddtable (oneGlyphFile [0x41]) (bytes "0 U+0042 # B\n") =
      .ok { ofil := some (oneGlyphFile [0x42]) } := by decide +kernel
  have heq := hadd.symm.trans hout
  cases heq
  have hfour : ∀ ul ∈ [[[0x42]]], FourDigits ul := by decide
  exact ⟨hout, hget (by decide), hagain hfour (by decide +kernel)⟩

end Kbd.Font
