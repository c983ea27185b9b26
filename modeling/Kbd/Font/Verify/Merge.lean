import Kbd.Font.Verify.Buffer
import Kbd.Font.Verify.Xtable
import Mathlib.Data.List.Forall2

/-!
# Several fonts in one

`kfont_load_fonts` reads its files one after the other and puts each at the end of what it has. While
nothing overflows, the bitmap and the table are those of the fonts, one after the other.
-/

namespace Kbd.Font

open Kbd.Lib Kbd.Lib.Buffer

/-! ## Reading one font -/

/-- The sizes of a font that is read. -/
structure FontSizes (font : PsfFont) : Prop where
  length : font.fontbuf.length = font.fontlen * (font.fontheight * ((font.fontwidth + 7) / 8))
  fontlen_pos : 1 ≤ font.fontlen
  height_pos : 1 ≤ font.fontheight
  width_pos : 1 ≤ font.fontwidth

theorem fontSizes_of_read {buf : List UInt8} {fontpos0 : Nat} {font : PsfFont}
    {old heads : Option (List UnicodeList)}
    (h : kfontReadPsffont buf fontpos0 old = .ok (font, heads)) :
    FontSizes font ∧ font.fontbuf.length ≤ buf.length := by
  obtain ⟨hd, -, hcheck, hbuf, hwidth, hlen, -⟩ := kfontReadPsffont_cases h
  obtain ⟨hl, hcs, hle, heq⟩ := checkPsfHeader_cases hcheck
  rw [← hwidth, bytewidth_eq] at heq
  have hlength : font.fontbuf.length = hd.fontlen * hd.charsize := by
    rw [hbuf, List.length_take, List.length_drop]
    omega
  have hpos : 0 < (font.fontwidth + 7) / 8 * font.fontheight := by omega
  refine ⟨⟨?_, by omega, Nat.pos_of_mul_pos_left hpos, ?_⟩, by omega⟩
  · rw [hlength, hlen, heq, Nat.mul_comm font.fontheight]
  · have := Nat.pos_of_mul_pos_right hpos
    omega

theorem FontSizes.fontHeight_eq {font : PsfFont} (h : FontSizes font) :
    fontHeight font = font.fontheight := by
  have := h.height_pos
  rw [fontHeight, if_neg (by omega)]

theorem FontSizes.fontlen_le {font : PsfFont} (h : FontSizes font) :
    font.fontlen ≤ font.fontbuf.length := by
  have hw := h.width_pos
  rw [h.length]
  exact Nat.le_mul_of_pos_right _ (Nat.mul_pos h.height_pos (by omega))

/-- Reading a font at another position of the table. -/
theorem kfontReadPsffont_shift {buf : List UInt8} {font : PsfFont} {t : List UnicodeList}
    (h : kfontReadPsffont buf 0 (some []) = .ok (font, some t)) {fontpos0 : Nat}
    (hpos : fontpos0 + font.fontlen ≤ uintMax) (heads : List UnicodeList) :
    kfontReadPsffont buf fontpos0 (some heads) = .ok (font, some (heads.take fontpos0 ++ t)) := by
  obtain ⟨hd, hhd, hcheck, hbuf, hwidth, hlen, ⟨hnone, -⟩ | ⟨o, t', -, heq, -, ht⟩⟩ :=
    kfontReadPsffont_cases h
  · cases hnone
  have htt : t = t' := by
    rw [List.take_zero, List.nil_append] at heq
    exact Option.some.inj heq
  subst htt
  have hov : ¬ hd.fontlen > uintMax - fontpos0 := by omega
  simp only [kfontReadPsffont, hhd, hcheck, hov, if_false, ht, bind, Except.bind, pure, Except.pure]
  rw [← hbuf, ← hwidth, ← hlen]

/-- A font with its own table. -/
abbrev OwnFont := PsfFont × Option (List UnicodeList)

/-- The font that a name stands for, read by itself; its table is not read when `no_u` is set. -/
def fontNamed (dirs : FontDirs) (noU : Bool) (ifil : List Char) : Option OwnFont :=
  match dirs.findfont ifil <|> dirs.findpartialfont ifil with
  | none => none
  | some file => (readPsffontFile file 0 (if noU then none else some [])).toOption

theorem fontNamed_cases {dirs : FontDirs} {noU : Bool} {ifil : List Char} {f : OwnFont}
    (h : fontNamed dirs noU ifil = some f) :
    ∃ file, (dirs.findfont ifil <|> dirs.findpartialfont ifil) = some file ∧
      file.length ≤ maxFontSize ∧
      kfontReadPsffont file 0 (if noU then none else some []) = .ok f := by
  rw [fontNamed] at h
  split at h
  · cases h
  · rename_i file hfile
    refine ⟨file, hfile, ?_⟩
    rw [readPsffontFile, readFontfile] at h
    split at h
    · cases h
    · rename_i hle
      refine ⟨by omega, ?_⟩
      simp only [bind, Except.bind] at h
      cases hread : kfontReadPsffont file 0 (if noU then none else some []) with
      | error e =>
        rw [hread] at h
        cases h
      | ok f' =>
        rw [hread] at h
        cases h
        rfl

theorem fontNamed_sizes {dirs : FontDirs} {noU : Bool} {ifil : List Char} {f : OwnFont}
    (h : fontNamed dirs noU ifil = some f) :
    FontSizes f.1 ∧ f.1.fontbuf.length ≤ maxFontSize := by
  obtain ⟨file, -, hle, hread⟩ := fontNamed_cases h
  obtain ⟨hsizes, hlen⟩ := fontSizes_of_read hread
  exact ⟨hsizes, by omega⟩

/-- The table of a font, when tables are read, has a description for each glyph. -/
theorem fontNamed_table {dirs : FontDirs} {ifil : List Char} {f : OwnFont}
    (h : fontNamed dirs false ifil = some f) : ∃ t, f.2 = some t ∧ t.length = f.1.fontlen := by
  obtain ⟨file, -, -, hread⟩ := fontNamed_cases h
  obtain ⟨hd, -, -, -, -, hlen, ⟨hnone, -⟩ | ⟨o, t, -, heq, -, ht⟩⟩ := kfontReadPsffont_cases hread
  · cases hnone
  · refine ⟨o.take 0 ++ t, heq, ?_⟩
    rw [List.take_zero, List.nil_append, hlen]
    exact (readPsfTable_nonempty ht).1

/-! ## The loop -/

/-- The bitmaps one after the other. -/
def mergedBuf (fonts : List OwnFont) : List UInt8 := fonts.flatMap (·.1.fontbuf)

/-- The number of all glyphs. -/
def mergedLen (fonts : List OwnFont) : Nat := (fonts.map (·.1.fontlen)).sum

/-- The tables one after the other. -/
def mergedTable (fonts : List OwnFont) : List UnicodeList := fonts.flatMap (·.2.getD [])

/-- The variables of the loop after some fonts. -/
structure Merged (noU : Bool) (fonts : List OwnFont) (big : BigFont) : Prop where
  buf : big.bigfontbuf = mergedBuf fonts
  lth : big.bigfontbuflth = (mergedBuf fonts).length
  size : big.bigfontsize = mergedLen fonts
  height : ∀ f ∈ fonts, f.1.fontheight = big.bigheight
  width : ∀ f ∈ fonts, f.1.fontwidth = big.bigwidth
  height_zero : big.bigheight = 0 ↔ fonts = []
  width_zero : big.bigwidth = 0 ↔ fonts = []
  heads : big.uclistheads = if noU then none else some (mergedTable fonts)
  tableLen : noU = false → (mergedTable fonts).length = mergedLen fonts

theorem merged_start (noU : Bool) : Merged noU [] (BigFont.start noU) := by
  refine ⟨rfl, rfl, rfl, by simp, by simp, ?_, ?_, rfl, fun _ => rfl⟩
  · exact iff_of_true rfl rfl
  · exact iff_of_true rfl rfl

/-- The fonts of two names have different sizes. -/
def Differ (f g : OwnFont) : Prop :=
  f.1.fontheight ≠ g.1.fontheight ∨ f.1.fontwidth ≠ g.1.fontwidth

/-- What the reader gives after other fonts. -/
theorem Merged.readPsffontFile_eq {dirs : FontDirs} {noU : Bool} {fonts : List OwnFont}
    {big : BigFont} (h : Merged noU fonts big) {ifil : List Char} {f : OwnFont}
    (hf : fontNamed dirs noU ifil = some f) (hlen : mergedLen (fonts ++ [f]) ≤ uintMax) :
    ∃ file, (dirs.findfont ifil <|> dirs.findpartialfont ifil) = some file ∧
      readPsffontFile file big.bigfontsize big.uclistheads =
        .ok (f.1, if noU then none else some (mergedTable (fonts ++ [f]))) := by
  obtain ⟨file, hfile, hle, hread⟩ := fontNamed_cases hf
  refine ⟨file, hfile, ?_⟩
  rw [readPsffontFile, readFontfile, if_neg (by omega), h.heads, h.size]
  change kfontReadPsffont file _ _ = _
  cases noU with
  | true =>
    obtain ⟨hd, hhd, hcheck, hbuf, hwidth, hfontlen, ⟨-, hnone⟩ | ⟨o, t, hold, -⟩⟩ :=
      kfontReadPsffont_cases hread
    · simp only [kfontReadPsffont, hhd, hcheck, if_true, bind, Except.bind, pure, Except.pure]
      rw [← hbuf, ← hwidth, ← hfontlen]
    · cases hold
  | false =>
    obtain ⟨t, ht, -⟩ := fontNamed_table hf
    have hread' : kfontReadPsffont file 0 (some []) = .ok (f.1, some t) := by
      rw [← ht]
      exact hread
    have hpos : mergedLen fonts + f.1.fontlen ≤ uintMax := by
      simpa [mergedLen] using hlen
    have htake : (mergedTable fonts).take (mergedLen fonts) = mergedTable fonts := by
      rw [← h.tableLen rfl, List.take_length]
    simp only [Bool.false_eq_true, if_false]
    rw [kfontReadPsffont_shift hread' hpos, htake]
    simp [mergedTable, ht]

/-- A size of a font against that of the fonts before it. -/
theorem size_eq_or {fonts : List OwnFont} {size : OwnFont → Nat} {big n : Nat}
    (hbig : ∀ f ∈ fonts, size f = big) (hzero : big = 0 ↔ fonts = []) :
    (¬ (big ≠ 0 ∧ big ≠ n) ∧ ∀ f ∈ fonts, size f = n) ∨
      ((big ≠ 0 ∧ big ≠ n) ∧ ∃ f ∈ fonts, size f ≠ n) := by
  by_cases h : big ≠ 0 ∧ big ≠ n
  · obtain ⟨f, hf⟩ := List.exists_mem_of_ne_nil fonts fun hnil => h.1 (hzero.mpr hnil)
    exact Or.inr ⟨h, f, hf, by rw [hbig f hf]; exact h.2⟩
  · refine Or.inl ⟨h, fun f hf => ?_⟩
    have hne : big ≠ 0 := fun hb => List.ne_nil_of_mem hf (hzero.mp hb)
    rw [hbig f hf]
    exact not_not.mp fun hn => h ⟨hne, hn⟩

/-- A font is put after the others, or it has another size than one of them. -/
theorem Merged.mergeFont_cases {dirs : FontDirs} {noU : Bool} {fonts : List OwnFont}
    {big : BigFont} (h : Merged noU fonts big) {ifil : List Char} {f : OwnFont}
    (hf : fontNamed dirs noU ifil = some f)
    (hsize : (mergedBuf (fonts ++ [f])).length < 2 ^ 32)
    (hlen : mergedLen (fonts ++ [f]) < 2 ^ 32) :
    (∃ big', mergeFont dirs big ifil = .ok big' ∧ Merged noU (fonts ++ [f]) big') ∨
      ∃ e, mergeFont dirs big ifil = .error e ∧ (e = .differentHeight ∨ e = .differentWidth) ∧
        ∃ f₀ ∈ fonts, Differ f₀ f := by
  obtain ⟨file, hfile, hread⟩ :=
    h.readPsffontFile_eq hf (Nat.le_sub_one_of_lt (show _ < 2 ^ 32 from hlen))
  obtain ⟨hs, -⟩ := fontNamed_sizes hf
  have hbuf : mergedBuf (fonts ++ [f]) = mergedBuf fonts ++ f.1.fontbuf := by simp [mergedBuf]
  have hlength : mergedLen (fonts ++ [f]) = mergedLen fonts + f.1.fontlen := by simp [mergedLen]
  rw [hbuf, List.length_append] at hsize
  rw [hlength] at hlen
  simp only [mergeFont, hfile, hread, hs.fontHeight_eq]
  rcases size_eq_or (n := f.1.fontheight) h.height h.height_zero with
    ⟨hheight, hheights⟩ | ⟨hheight, f₀, hf₀, hne⟩
  swap
  · rw [if_pos hheight]
    exact Or.inr ⟨_, rfl, Or.inl rfl, f₀, hf₀, Or.inl hne⟩
  rw [if_neg hheight]
  rcases size_eq_or (n := f.1.fontwidth) h.width h.width_zero with
    ⟨hwidth, hwidths⟩ | ⟨hwidth, f₀, hf₀, hne⟩
  swap
  · rw [if_pos hwidth]
    exact Or.inr ⟨_, rfl, Or.inr rfl, f₀, hf₀, Or.inr hne⟩
  rw [if_neg hwidth, h.lth, u32_of_lt hsize, if_neg (by omega), h.size, u32_of_lt hlen]
  refine Or.inl ⟨_, rfl, ?_, ?_, hlength.symm, ?_, ?_, ?_, ?_, rfl, ?_⟩
  · rw [Nat.add_sub_cancel, h.buf, List.take_length, hbuf]
  · rw [hbuf, List.length_append]
  · exact List.forall_mem_append.mpr ⟨hheights, List.forall_mem_singleton.mpr rfl⟩
  · exact List.forall_mem_append.mpr ⟨hwidths, List.forall_mem_singleton.mpr rfl⟩
  · have := hs.height_pos
    simp only [List.append_eq_nil_iff, List.cons_ne_self, and_false, iff_false]
    omega
  · have := hs.width_pos
    simp only [List.append_eq_nil_iff, List.cons_ne_self, and_false, iff_false]
    omega
  · rintro rfl
    obtain ⟨t, ht, htlen⟩ := fontNamed_table hf
    have htable : mergedTable (fonts ++ [f]) = mergedTable fonts ++ t := by
      simp [mergedTable, ht]
    rw [htable, List.length_append, h.tableLen rfl, htlen, hlength]

/-- All fonts at once: they are put together, or two of them have different sizes. -/
theorem Merged.foldlM_mergeFont {dirs : FontDirs} {noU : Bool} {names : List (List Char)}
    {fonts : List OwnFont}
    (hfonts : List.Forall₂ (fun name f => fontNamed dirs noU name = some f) names fonts) :
    ∀ {pre : List OwnFont} {big : BigFont}, Merged noU pre big →
      (mergedBuf (pre ++ fonts)).length < 2 ^ 32 → mergedLen (pre ++ fonts) < 2 ^ 32 →
      (∃ big', names.foldlM (mergeFont dirs) big = .ok big' ∧ Merged noU (pre ++ fonts) big') ∨
        ∃ e, names.foldlM (mergeFont dirs) big = .error e ∧
          (e = .differentHeight ∨ e = .differentWidth) ∧
          ∃ f ∈ pre ++ fonts, ∃ g ∈ pre ++ fonts, Differ f g := by
  induction hfonts with
  | nil =>
    intro pre big h _ _
    rw [List.append_nil]
    exact Or.inl ⟨big, rfl, h⟩
  | @cons name f names fonts hf _ ih =>
    intro pre big h hsize hlen
    rw [List.append_cons] at hsize hlen ⊢
    have hsize' : (mergedBuf (pre ++ [f])).length ≤ (mergedBuf (pre ++ [f] ++ fonts)).length := by
      simp only [mergedBuf, List.flatMap_append, List.length_append]
      omega
    have hlen' : mergedLen (pre ++ [f]) ≤ mergedLen (pre ++ [f] ++ fonts) := by
      simp only [mergedLen, List.map_append, List.sum_append]
      omega
    rw [List.foldlM_cons]
    rcases h.mergeFont_cases hf (by omega) (by omega) with
      ⟨big', hbig, h'⟩ | ⟨e, he, hcase, f₀, hf₀, hdiffer⟩
    · rw [hbig]
      exact ih h' hsize hlen
    · rw [he]
      refine Or.inr ⟨e, rfl, hcase, f₀, ?_, f, ?_, hdiffer⟩
      · exact List.mem_append_left _ (List.mem_append_left _ hf₀)
      · exact List.mem_append_left _ (List.mem_append_right _ (List.mem_singleton.mpr rfl))

/-- What a round does when it succeeds, also when a sum wraps. -/
theorem mergeFont_ok {dirs : FontDirs} {ifil : List Char} {big big' : BigFont}
    (h : mergeFont dirs big ifil = .ok big') :
    ∃ file font heads, (dirs.findfont ifil <|> dirs.findpartialfont ifil) = some file ∧
      file.length ≤ maxFontSize ∧
      kfontReadPsffont file big.bigfontsize big.uclistheads = .ok (font, heads) ∧
      (big.bigheight = 0 ∨ big.bigheight = font.fontheight) ∧
      (big.bigwidth = 0 ∨ big.bigwidth = font.fontwidth) ∧
      font.fontbuf.length ≤ u32 (big.bigfontbuflth + font.fontbuf.length) ∧
      big' = { bigfontbuf := big.bigfontbuf.take
                 (u32 (big.bigfontbuflth + font.fontbuf.length) - font.fontbuf.length) ++ font.fontbuf,
               bigfontbuflth := u32 (big.bigfontbuflth + font.fontbuf.length),
               bigfontsize := u32 (big.bigfontsize + font.fontlen),
               bigheight := font.fontheight, bigwidth := font.fontwidth, uclistheads := heads } := by
  rw [mergeFont] at h
  split at h
  · cases h
  rename_i file hfile
  have hread : readPsffontFile file big.bigfontsize big.uclistheads =
      if file.length > maxFontSize then .error .tooBig
      else kfontReadPsffont file big.bigfontsize big.uclistheads := by
    rw [readPsffontFile, readFontfile]
    split <;> rfl
  rw [hread] at h
  by_cases hle : file.length > maxFontSize
  · rw [if_pos hle] at h
    cases h
  rw [if_neg hle] at h
  split at h
  · cases h
  rename_i font heads hread
  have hs := (fontSizes_of_read hread).1
  simp only [hs.fontHeight_eq] at h
  split at h
  · cases h
  rename_i hheight
  split at h
  · cases h
  rename_i hwidth
  split at h
  · cases h
  rename_i hwrap
  cases h
  exact ⟨file, font, heads, hfile, by omega, hread, by omega, by omega, by omega, rfl⟩

/-- What is read does not depend on the table. -/
theorem kfontReadPsffont_font {buf : List UInt8} {pos pos' : Nat}
    {old old' : Option (List UnicodeList)} {f f' : OwnFont}
    (h : kfontReadPsffont buf pos old = .ok f) (h' : kfontReadPsffont buf pos' old' = .ok f') :
    f.1 = f'.1 := by
  obtain ⟨hd, hhd, hcheck, hbuf, hwidth, hlen, -⟩ := kfontReadPsffont_cases h
  obtain ⟨hd', hhd', hcheck', hbuf', hwidth', hlen', -⟩ := kfontReadPsffont_cases h'
  have heq : hd = hd' := Except.ok.inj (hhd.symm.trans hhd')
  subst heq
  have hheight : f.1.fontheight = f'.1.fontheight := Except.ok.inj (hcheck.symm.trans hcheck')
  rcases hf : f.1 with ⟨buf₁, width₁, height₁, len₁⟩
  rcases hf' : f'.1 with ⟨buf₂, width₂, height₂, len₂⟩
  simp only [hf, hf'] at hbuf hbuf' hwidth hwidth' hlen hlen' hheight
  simp only [hbuf, hbuf', hwidth, hwidth', hlen, hlen', hheight]

/-- When the loop comes to its end, all fonts have the size of the last. -/
theorem foldlM_mergeFont_sizes {dirs : FontDirs} {noU : Bool} {names : List (List Char)}
    {fonts : List OwnFont}
    (hfonts : List.Forall₂ (fun name f => fontNamed dirs noU name = some f) names fonts) :
    ∀ {big big' : BigFont}, names.foldlM (mergeFont dirs) big = .ok big' →
      (big.bigheight = 0 ∨ big.bigheight = big'.bigheight) ∧
      (big.bigwidth = 0 ∨ big.bigwidth = big'.bigwidth) ∧
      ∀ f ∈ fonts, f.1.fontheight = big'.bigheight ∧ f.1.fontwidth = big'.bigwidth := by
  induction hfonts with
  | nil =>
    intro big big' h
    cases h
    exact ⟨Or.inr rfl, Or.inr rfl, by simp⟩
  | @cons name f names fonts hf _ ih =>
    intro big big' h
    rw [List.foldlM_cons] at h
    cases hstep : mergeFont dirs big name with
    | error e =>
      rw [hstep] at h
      cases h
    | ok big₁ =>
      rw [hstep] at h
      obtain ⟨hheight, hwidth, hall⟩ := ih h
      obtain ⟨file, font, heads, hfile, -, hread, hh, hw, -, rfl⟩ := mergeFont_ok hstep
      obtain ⟨file', hfile', -, hread'⟩ := fontNamed_cases hf
      have hfiles : file = file' := Option.some.inj (hfile.symm.trans hfile')
      subst hfiles
      have hfont : font = f.1 := kfontReadPsffont_font hread hread'
      have hs := (fontSizes_of_read hread).1
      have h1 := hs.height_pos
      have h2 := hs.width_pos
      simp only at hheight hwidth
      refine ⟨by omega, by omega, List.forall_mem_cons.mpr ⟨?_, hall⟩⟩
      rw [← hfont]
      omega

/-! ## What is loaded -/

/-- Whether the header of a font says that there is a table. -/
def hasTable (dirs : FontDirs) (ifil : List Char) : Bool :=
  match dirs.findfont ifil <|> dirs.findpartialfont ifil with
  | none => false
  | some file => (readPsfHeader file).toOption.elim false (·.hastable)

theorem fontNamed_of_not_hasTable {dirs : FontDirs} {ifil : List Char} {f : OwnFont}
    (h : fontNamed dirs false ifil = some f) (htable : hasTable dirs ifil = false) :
    f.2 = some (List.replicate f.1.fontlen []) := by
  obtain ⟨file, hfile, -, hread⟩ := fontNamed_cases h
  obtain ⟨hd, hhd, -, -, -, hlen, ⟨hnone, -⟩ | ⟨o, t, -, heq, -, ht⟩⟩ := kfontReadPsffont_cases hread
  · cases hnone
  have hhas : hd.hastable = false := by
    simpa [hasTable, hfile, hhd, Except.toOption] using htable
  rw [readPsfTable, hhas] at ht
  have hrep : List.replicate hd.fontlen clearUniEntry = t := Except.ok.inj ht
  rw [heq, List.take_zero, List.nil_append, ← hrep, hlen]
  rfl

/-- A table in which the descriptions of each font stand after those of the fonts before it. -/
structure TableOf (dirs : FontDirs) (names : List (List Char)) (fonts : List OwnFont)
    (table : List UnicodeList) : Prop where
  length : table.length = mergedLen fonts
  entry : ∀ j name f, names[j]? = some name → fonts[j]? = some f → ∀ i < f.1.fontlen, ∃ ul,
    table[mergedLen (fonts.take j) + i]? = some ul ∧ (f.2.getD [])[i]? = some ul ∧
      (hasTable dirs name = false → ul = [])

theorem getElem?_mergedTable {fonts : List OwnFont}
    (hlen : ∀ f ∈ fonts, (f.2.getD []).length = f.1.fontlen) {j : Nat} {f : OwnFont}
    (hf : fonts[j]? = some f) {i : Nat} (hi : i < f.1.fontlen) :
    (mergedTable fonts)[mergedLen (fonts.take j) + i]? = (f.2.getD [])[i]? := by
  induction fonts generalizing j with
  | nil => cases hf
  | cons g fonts ih =>
    rw [List.forall_mem_cons] at hlen
    rw [mergedTable, List.flatMap_cons]
    cases j with
    | zero =>
      cases hf
      rw [List.take_zero]
      change (_ ++ _)[0 + i]? = _
      rw [Nat.zero_add, List.getElem?_append_left (by omega)]
    | succ j =>
      have hstep : mergedLen (List.take (j + 1) (g :: fonts)) = g.1.fontlen +
          mergedLen (fonts.take j) := by simp [mergedLen]
      rw [hstep, List.getElem?_append_right (by omega), ← ih hlen.2 hf, hlen.1]
      congr 1
      omega

theorem forall₂_getElem? {α β : Type} {R : α → β → Prop} {l : List α} {l' : List β}
    (h : List.Forall₂ R l l') {j : Nat} {a : α} {b : β} (ha : l[j]? = some a)
    (hb : l'[j]? = some b) : R a b := by
  obtain ⟨hj, rfl⟩ := List.getElem?_eq_some_iff.mp ha
  obtain ⟨hj', rfl⟩ := List.getElem?_eq_some_iff.mp hb
  exact List.Forall₂.get h hj hj'

theorem fontNamed_of_mem {dirs : FontDirs} {noU : Bool} {names : List (List Char)}
    {fonts : List OwnFont}
    (hfonts : List.Forall₂ (fun name f => fontNamed dirs noU name = some f) names fonts)
    {f : OwnFont} (hf : f ∈ fonts) : ∃ name, fontNamed dirs noU name = some f := by
  obtain ⟨j, hj⟩ := List.mem_iff_getElem?.mp hf
  have hlt : j < names.length := by
    rw [hfonts.length_eq]
    exact (List.getElem?_eq_some_iff.mp hj).1
  exact ⟨names[j], forall₂_getElem? hfonts (List.getElem?_eq_getElem hlt) hj⟩

theorem tableOf_mergedTable {dirs : FontDirs} {names : List (List Char)} {fonts : List OwnFont}
    (hfonts : List.Forall₂ (fun name f => fontNamed dirs false name = some f) names fonts) :
    TableOf dirs names fonts (mergedTable fonts) := by
  have hlen : ∀ f ∈ fonts, (f.2.getD []).length = f.1.fontlen := by
    intro f hf
    obtain ⟨name, hname⟩ := fontNamed_of_mem hfonts hf
    obtain ⟨t, ht, htlen⟩ := fontNamed_table hname
    rw [ht]
    exact htlen
  constructor
  · rw [mergedTable, mergedLen, List.length_flatMap, List.map_congr_left hlen]
  · intro j name f hname hf i hi
    have hnamed := forall₂_getElem? hfonts hname hf
    obtain ⟨t, ht, htlen⟩ := fontNamed_table hnamed
    have hit : i < t.length := by omega
    have hget : (f.2.getD [])[i]? = some t[i] := by
      rw [ht]
      exact List.getElem?_eq_getElem hit
    refine ⟨t[i], (getElem?_mergedTable hlen hf hi).trans hget, hget, ?_⟩
    intro hno
    have hrep : t = List.replicate f.1.fontlen [] :=
      Option.some.inj (ht.symm.trans (fontNamed_of_not_hasTable hnamed hno))
    simp [hrep]

theorem mergedLen_le_length {fonts : List OwnFont} (h : ∀ f ∈ fonts, FontSizes f.1) :
    mergedLen fonts ≤ (mergedBuf fonts).length := by
  induction fonts with
  | nil => exact Nat.le_refl 0
  | cons f fonts ih =>
    rw [List.forall_mem_cons] at h
    have hf := h.1.fontlen_le
    have hrest := ih h.2
    simp only [mergedLen, mergedBuf, List.map_cons, List.sum_cons, List.flatMap_cons,
      List.length_append] at hrest ⊢
    omega

/-- Several fonts are loaded as one when they have the same size, and not at all otherwise. -/
theorem kfontLoadFonts_several (k : Kernel) (dirs : FontDirs) (doubleSize noU : Bool)
    (hwunit depth iunit : Nat) {names : List (List Char)} {fonts : List OwnFont}
    (hn : 2 ≤ names.length)
    (hfonts : List.Forall₂ (fun name f => fontNamed dirs noU name = some f) names fonts) :
    (∀ width height, (∀ f ∈ fonts, f.1.fontheight = height ∧ f.1.fontwidth = width) →
      (mergedBuf fonts).length < 2 ^ 32 →
      ∃ table, (noU = false → TableOf dirs names fonts table) ∧
        kfontLoadFonts k dirs doubleSize hwunit noU depth names iunit = some (do
          doLoadfont k doubleSize (mergedBuf fonts) width height hwunit (mergedLen fonts)
          if noU then pure () else doLoadtable k table (mergedLen fonts))) ∧
    ((∃ f ∈ fonts, ∃ g ∈ fonts,
        f.1.fontheight ≠ g.1.fontheight ∨ f.1.fontwidth ≠ g.1.fontwidth) →
      ∃ e, kfontLoadFonts k dirs doubleSize hwunit noU depth names iunit = some (throw e) ∧
        ((mergedBuf fonts).length < 2 ^ 32 → e = .differentHeight ∨ e = .differentWidth)) := by
  have hmerged : kfontLoadFonts k dirs doubleSize hwunit noU depth names iunit =
      some (loadMerged k dirs doubleSize names hwunit noU) := by
    rw [kfontLoadFonts]
    rintro ifil rfl
    simp at hn
  have hle : mergedLen fonts ≤ (mergedBuf fonts).length := by
    refine mergedLen_le_length fun f hf => ?_
    obtain ⟨name, hname⟩ := fontNamed_of_mem hfonts hf
    exact (fontNamed_sizes hname).1
  rw [hmerged, loadMerged]
  constructor
  · intro width height hall hsize
    have hne : fonts ≠ [] := by
      rintro rfl
      rw [hfonts.length_eq] at hn
      simp at hn
    rcases (merged_start noU).foldlM_mergeFont hfonts hsize (by rw [List.nil_append]; omega) with
      ⟨big, hbig, h⟩ | ⟨e, -, -, f, hf, g, hg, hdiffer⟩
    · refine ⟨mergedTable fonts, ?_, ?_⟩
      · rintro rfl
        exact tableOf_mergedTable hfonts
      · obtain ⟨f, hf⟩ := List.exists_mem_of_ne_nil fonts hne
        have hheight : big.bigheight = height := (h.height f hf).symm.trans (hall f hf).1
        have hwidth : big.bigwidth = width := (h.width f hf).symm.trans (hall f hf).2
        rw [hbig]
        simp only [loadFontAndTable, h.buf, h.size, h.heads, hheight, hwidth, List.nil_append]
        cases noU <;> rfl
    · have h1 := hall f hf
      have h2 := hall g hg
      rcases hdiffer with hdiffer | hdiffer <;> omega
  · rintro ⟨f, hf, g, hg, hdiffer⟩
    cases hfold : names.foldlM (mergeFont dirs) (BigFont.start noU) with
    | ok big =>
      obtain ⟨-, -, hall⟩ := foldlM_mergeFont_sizes hfonts hfold
      have h1 := hall f hf
      have h2 := hall g hg
      omega
    | error e =>
      refine ⟨e, rfl, ?_⟩
      intro hsize
      rcases (merged_start noU).foldlM_mergeFont hfonts hsize (by rw [List.nil_append]; omega) with
        ⟨big, hbig, -⟩ | ⟨e', he', hcase, -⟩
      · rw [hfold] at hbig
        cases hbig
      · rw [hfold] at he'
        cases he'
        exact hcase

/-- A kernel that accepts everything. -/
def acceptingKernel : Kernel where
  kdgetmode _ := .ok kdText
  kdfontop _ cfo := .ok cfo
  gioUnimap _ _ := { errno := none, entryCt := 0, entries := [] }
  pioUnimapclr _ _ := none
  pioUnimap _ _ := none

/-- Two fonts with one glyph each, for the letters A and B. -/
def twoFonts : FontDirs where
  findfont ifil := if ifil = ['a'] then some (oneGlyphFile [0x41]) else none
  findpartialfont ifil := if ifil = ['b'] then some (oneGlyphFile [0x42]) else none

theorem kfontLoadFonts_several_two :
    ∃ table, (false = false → TableOf twoFonts [['a'], ['b']]
        [(⟨[0x18], 8, 1, 1⟩, some [[[0x41]]]), (⟨[0x18], 8, 1, 1⟩, some [[[0x42]]])] table) ∧
      kfontLoadFonts acceptingKernel twoFonts false 0 false 1 [['a'], ['b']] 0 = some (do
        doLoadfont acceptingKernel false [0x18, 0x18] 8 1 0 2
        if false then pure () else doLoadtable acceptingKernel table 2) :=
  (kfontLoadFonts_several acceptingKernel twoFonts false false 0 1 0 (by decide)
    (.cons (by decide) (.cons (by decide) .nil))).1 8 1 (by simp) (by decide)

end Kbd.Font
