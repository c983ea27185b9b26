import Kbd.Font.Verify.Merge

/-!
# The sizes of `try_loadfont`

A file is at most `MAXFONTSIZE` bytes long, and the buffer is at most 64 times as long as the
bitmap: a single font cannot make the 32-bit arithmetic wrap. A list of fonts can: the running sums
of `kfont_load_fonts` fit, but the length of the buffer need not.
-/

namespace Kbd.Font

open Kbd.Lib Kbd.Lib.Buffer

/-- The sizes that `try_loadfont` accepts. -/
structure Loadable (width height : Nat) : Prop where
  height_pos : 1 ≤ height
  height_le : height ≤ 128
  width_pos : 1 ≤ width
  width_le : width ≤ 64

theorem Loadable.glyphFits {width height : Nat} (h : Loadable width height) (doubleSize : Bool) :
    GlyphFits (doubles doubleSize width height) width height := by
  refine ⟨h.height_pos, ?_, h.width_pos, ?_⟩
  · have := h.height_le
    split
    · rename_i hd
      simp [doubles] at hd
      omega
    · exact h.height_le
  · have := h.width_le
    split
    · rename_i hd
      simp [doubles] at hd
      omega
    · exact h.width_le

/-- The products of `try_loadfont` do not wrap, and all accesses lie in the buffers. -/
structure BufferSafe (double : Bool) (inbuf : List UInt8) (width height fontsize : Nat) : Prop where
  charsize : height * ((width + 7) / 8) < 2 ^ 32
  kcharsize : slotRows double width height * rowBytes double width < 2 ^ 32
  buflen : slotRows double width height * rowBytes double width *
    (if fontsize < 128 then 128 else fontsize) < 2 ^ 32
  access : ∃ buf notBlank,
    fillBuffer double inbuf (glyphSizes double width height (loadPitch width height)) height
      fontsize = some buf ∧
    eraseCharTest buf (glyphSizes double width height (loadPitch width height)) = some notBlank

section Safe

variable {double : Bool} {width height : Nat} (h : GlyphFits double width height)
include h

theorem GlyphFits.slot_le : slotRows double width height * rowBytes double width ≤ 4096 := by
  have hw := h.width_le_64
  have hh := h.height_le_128
  have hrows : slotRows double width height ≤ 256 := by
    rw [slotRows, loadPitch, zoom]
    split <;> split <;> omega
  have hbytes : rowBytes double width ≤ 16 := by
    rw [rowBytes, zoom]
    split <;> omega
  exact Nat.mul_le_mul hrows hbytes

/-- The slot of a glyph is at most 64 times as long as the glyph. -/
theorem GlyphFits.slot_le_mul :
    slotRows double width height * rowBytes double width ≤ 64 * (height * ((width + 7) / 8)) := by
  have hh := h.height_pos
  have hw := h.width_pos
  have hrows : slotRows double width height ≤ 32 * height := by
    rw [slotRows, loadPitch, zoom]
    split <;> split <;> omega
  have hbytes : rowBytes double width ≤ 2 * ((width + 7) / 8) := by
    rw [rowBytes, zoom]
    split <;> omega
  calc slotRows double width height * rowBytes double width
      ≤ 32 * height * (2 * ((width + 7) / 8)) := Nat.mul_le_mul hrows hbytes
    _ = 64 * (height * ((width + 7) / 8)) := by
      rw [Nat.mul_mul_mul_comm]

theorem GlyphFits.paddedSize_lt {fontsize : Nat}
    (hsize : fontsize * (height * ((width + 7) / 8)) ≤ maxFontSize) :
    paddedSize double width height fontsize < 2 ^ 32 := by
  rw [paddedSize]
  rcases le_total fontsize 128 with hle | hle
  · rw [Nat.max_eq_left hle]
    have := Nat.mul_le_mul_right 128 h.slot_le
    omega
  · rw [Nat.max_eq_right hle]
    have hslot := Nat.mul_le_mul_right fontsize h.slot_le_mul
    rw [Nat.mul_assoc 64, Nat.mul_comm (height * _)] at hslot
    simp only [maxFontSize] at hsize
    omega

theorem GlyphFits.bufferSafe {inbuf : List UInt8} {fontsize : Nat}
    (hin : fontsize * (height * ((width + 7) / 8)) ≤ inbuf.length)
    (hpad : paddedSize double width height fontsize < 2 ^ 32) :
    BufferSafe double inbuf width height fontsize := by
  have hslot := h.slot_le
  obtain ⟨-, hcs, -⟩ := h.slot_bounds fontsize
  have hmax : (if fontsize < 128 then 128 else fontsize) = max 128 fontsize := by
    split <;> omega
  obtain ⟨buf, hbuf, hfilled⟩ := h.exists_filled hin hpad
  have hkcs : (glyphSizes double width height (loadPitch width height)).kcharsize =
      slotRows double width height * rowBytes double width := by rw [h.glyphSizes_eq]
  have hlen : 128 * (slotRows double width height * rowBytes double width) ≤ buf.length := by
    rw [hfilled.length, paddedSize, Nat.mul_comm]
    exact Nat.mul_le_mul_left _ (Nat.le_max_left _ _)
  -- glyph 32 is one of the 128 for which there is always room
  have herase := slice_eq_some.mpr ⟨(show u32 (32 * (slotRows double width height *
    rowBytes double width)) + slotRows double width height * rowBytes double width ≤ buf.length by
      rw [u32_of_lt (by omega)]; omega), rfl⟩
  refine ⟨by omega, by omega, ?_, ?_⟩
  · rw [hmax]
    exact hpad
  · refine ⟨buf, ?_⟩
    rw [exists_and_left, eraseCharTest, hkcs, herase]
    exact ⟨hbuf, _, rfl⟩

end Safe

/-! ## One font -/

/-- The fonts in a file with three of them end before it does. -/
theorem positionCodepage_cases {iunit offset : Nat} (h : positionCodepage iunit = some offset) :
    offset + 256 * iunit ≤ 9780 ∧ iunit ≤ 16 := by
  rw [positionCodepage.eq_def] at h
  split at h
  · have := Option.some.inj h
    omega
  · have := Option.some.inj h
    omega
  · have := Option.some.inj h
    omega
  · cases h

theorem bareFont_cases {inbuf : List UInt8} {iunit hwunit : Nat} {args : LoadArgs}
    (h : bareFont inbuf iunit hwunit = .ok args) :
    args.width = 8 ∧ args.fontsize ≤ 512 ∧ args.fontsize * args.height ≤ args.inbuf.length := by
  rw [bareFont] at h
  dsimp only at h
  split at h
  · rename_i hlen
    split at h
    · cases h
    · rename_i offset hoffset
      cases h
      refine ⟨rfl, by simp, ?_⟩
      obtain ⟨hoff, hiunit⟩ := positionCodepage_cases hoffset
      change 256 * iunit ≤ (inbuf.drop offset).length
      rw [List.length_drop]
      omega
  split at h
  · rename_i hlen
    cases h
    refine ⟨rfl, le_rfl, ?_⟩
    change 512 * 32 ≤ inbuf.length
    omega
  split at h
  · rename_i hrem
    cases h
    refine ⟨rfl, by simp, ?_⟩
    change 256 * (inbuf.length / 256) ≤ (inbuf.drop (inbuf.length % 256)).length
    rw [List.length_drop]
    omega
  · cases h

/-- A single font makes nothing wrap. -/
theorem classifyFont_bufferSafe {file : List UInt8} {iunit hwunit : Nat} {noU : Bool}
    {args : LoadArgs} (h : classifyFont file iunit hwunit noU = .ok (.font args))
    (hload : Loadable args.width args.height) (doubleSize : Bool) :
    BufferSafe (doubles doubleSize args.width args.height) args.inbuf args.width args.height
      args.fontsize := by
  have hfits := hload.glyphFits doubleSize
  have hsize : args.fontsize * (args.height * ((args.width + 7) / 8)) ≤ args.inbuf.length ∧
      args.fontsize * (args.height * ((args.width + 7) / 8)) ≤ maxFontSize := by
    rw [classifyFont] at h
    split at h
    · rename_i font heads hread
      cases h
      rw [readPsffontFile, readFontfile] at hread
      split at hread
      · cases hread
      rename_i hle
      have hread' : kfontReadPsffont file 0 (if noU then none else some []) = .ok (font, heads) :=
        hread
      obtain ⟨hs, hlen⟩ := fontSizes_of_read hread'
      rw [hs.fontHeight_eq, ← hs.length]
      exact ⟨le_rfl, by omega⟩
    · dsimp only at h
      split at h
      · cases hnames : combineNames _ _ _ with
        | error e =>
          rw [hnames] at h
          cases h
        | ok names =>
          rw [hnames] at h
          cases h
      · cases hbare : bareFont ((readFontfile file).toOption.getD []) iunit hwunit with
        | error e =>
          rw [hbare] at h
          cases h
        | ok args' =>
          rw [hbare] at h
          cases h
          obtain ⟨hw, hn, hlen⟩ := bareFont_cases hbare
          have hmul := Nat.mul_le_mul hn hload.height_le
          rw [hw, Nat.mul_one, maxFontSize]
          omega
  exact hfits.bufferSafe hsize.1 (hfits.paddedSize_lt hsize.2)

/-! ## Several fonts -/

/-- The sums of `kfont_load_fonts` do not wrap in any round. -/
def SumsExact (dirs : FontDirs) (noU : Bool) (names : List (List Char)) (fonts : List OwnFont) :
    Prop :=
  ∀ j big, (names.take j).foldlM (mergeFont dirs) (BigFont.start noU) = .ok big →
    big.bigfontsize = mergedLen (fonts.take j) ∧
    big.bigfontbuflth = (mergedBuf (fonts.take j)).length

theorem length_mergedBuf_le {fonts : List OwnFont}
    (h : ∀ f ∈ fonts, f.1.fontbuf.length ≤ maxFontSize) :
    (mergedBuf fonts).length ≤ fonts.length * maxFontSize := by
  induction fonts with
  | nil => exact Nat.zero_le _
  | cons f fonts ih =>
    rw [List.forall_mem_cons] at h
    have hrest := ih h.2
    rw [mergedBuf] at hrest
    rw [mergedBuf, List.flatMap_cons, List.length_append, List.length_cons, Nat.succ_mul]
    omega

section Several

variable {dirs : FontDirs} {noU : Bool} {names : List (List Char)} {fonts : List OwnFont}
  (hcount : names.length ≤ maxIfiles)
  (hfonts : List.Forall₂ (fun name f => fontNamed dirs noU name = some f) names fonts)
include hcount hfonts

/-- As many files as a list may have are not too long together. -/
theorem length_mergedBuf_lt : (mergedBuf fonts).length < 2 ^ 32 := by
  have hle := length_mergedBuf_le fun f hf => by
    obtain ⟨name, hname⟩ := fontNamed_of_mem hfonts hf
    exact (fontNamed_sizes hname).2
  have hmul : fonts.length * maxFontSize ≤ maxIfiles * maxFontSize :=
    Nat.mul_le_mul_right _ (hfonts.length_eq ▸ hcount)
  exact lt_of_le_of_lt (le_trans hle hmul) (by decide)

theorem sumsExact : SumsExact dirs noU names fonts := by
  intro j big hbig
  have htake := List.forall₂_take j hfonts
  have hlt := length_mergedBuf_lt (le_trans (List.length_take_le' _ _) hcount) htake
  have hle : mergedLen (fonts.take j) ≤ (mergedBuf (fonts.take j)).length := by
    refine mergedLen_le_length fun f hf => ?_
    obtain ⟨name, hname⟩ := fontNamed_of_mem htake hf
    exact (fontNamed_sizes hname).1
  rcases (merged_start noU).foldlM_mergeFont htake hlt (by rw [List.nil_append]; omega) with
    ⟨big', hbig', h⟩ | ⟨e, he, -⟩
  · rw [hbig] at hbig'
    cases hbig'
    exact ⟨h.size, h.lth⟩
  · rw [hbig] at he
    cases he

end Several

/-- The bitmaps of fonts of the same size. -/
theorem length_mergedBuf_eq {fonts : List OwnFont} {width height : Nat}
    (hs : ∀ f ∈ fonts, FontSizes f.1)
    (hall : ∀ f ∈ fonts, f.1.fontheight = height ∧ f.1.fontwidth = width) :
    (mergedBuf fonts).length = mergedLen fonts * (height * ((width + 7) / 8)) := by
  induction fonts with
  | nil => simp [mergedBuf, mergedLen]
  | cons f fonts ih =>
    rw [List.forall_mem_cons] at hs hall
    have hrest := ih hs.2 hall.2
    have hf := hs.1.length
    rw [hall.1.1, hall.1.2] at hf
    rw [mergedBuf] at hrest
    rw [mergedBuf, mergedLen, List.flatMap_cons, List.length_append, List.map_cons, List.sum_cons,
      Nat.add_mul, hf, hrest]
    rfl

/-- Loading a single font is safe. Loading a list of fonts is, exactly when the buffer for all of
their glyphs has a length that fits into 32 bits. -/
theorem bufferSafe_iff (doubleSize noU : Bool) :
    (∀ (file : List UInt8) (iunit hwunit : Nat) (args : LoadArgs),
      classifyFont file iunit hwunit noU = .ok (.font args) → Loadable args.width args.height →
      BufferSafe (doubles doubleSize args.width args.height) args.inbuf args.width args.height
        args.fontsize) ∧
    ∀ (dirs : FontDirs) (names : List (List Char)) (fonts : List OwnFont) (width height : Nat),
      names.length ≤ maxIfiles →
      List.Forall₂ (fun name f => fontNamed dirs noU name = some f) names fonts →
      (∀ f ∈ fonts, f.1.fontheight = height ∧ f.1.fontwidth = width) → Loadable width height →
      (SumsExact dirs noU names fonts ∧
          BufferSafe (doubles doubleSize width height) (mergedBuf fonts) width height
            (mergedLen fonts) ↔
        paddedSize (doubles doubleSize width height) width height (mergedLen fonts) < 2 ^ 32) := by
  constructor
  · intro file iunit hwunit args hclass hload
    exact classifyFont_bufferSafe hclass hload doubleSize
  · intro dirs names fonts width height hcount hfonts hall hload
    constructor
    · rintro ⟨-, hsafe⟩
      have hmax : (if mergedLen fonts < 128 then 128 else mergedLen fonts) =
          max 128 (mergedLen fonts) := by
        split <;> omega
      have hbuflen := hsafe.buflen
      rw [hmax] at hbuflen
      exact hbuflen
    · intro hpad
      refine ⟨sumsExact hcount hfonts, (hload.glyphFits doubleSize).bufferSafe ?_ hpad⟩
      refine (length_mergedBuf_eq (fun f hf => ?_) hall).ge
      obtain ⟨name, hname⟩ := fontNamed_of_mem hfonts hf
      exact (fontNamed_sizes hname).1

theorem bufferSafe_iff_twoFonts :
    SumsExact twoFonts false [['a'], ['b']]
        [(⟨[0x18], 8, 1, 1⟩, some [[[0x41]]]), (⟨[0x18], 8, 1, 1⟩, some [[[0x42]]])] ∧
      BufferSafe (doubles false 8 1) [0x18, 0x18] 8 1 2 ↔
      paddedSize (doubles false 8 1) 8 1 2 < 2 ^ 32 :=
  (bufferSafe_iff false false).2 twoFonts [['a'], ['b']] _ 8 1 (by decide)
    (.cons (by decide) (.cons (by decide) .nil)) (by simp)
    ⟨by decide, by decide, by decide, by decide⟩

/-- A file with `n` blank glyphs of height 1. -/
def blankFile (n : Nat) : List UInt8 :=
  (writepsffontheader 8 1 n 1 false false).1 ++ List.replicate n 0

/-- The font in such a file. -/
def blankFont (n : Nat) : OwnFont := (⟨List.replicate n 0, 8, 1, n⟩, some (List.replicate n []))

theorem fontNamed_blankFile {n : Nat} (hpos : 1 ≤ n) (hle : n + 32 ≤ maxFontSize) {dirs : FontDirs}
    {ifil : List Char} (hfile : dirs.findfont ifil = some (blankFile n)) :
    fontNamed dirs false ifil = some (blankFont n) := by
  rw [maxFontSize] at hle
  have hfit : SizesFit 8 1 n := ⟨hpos, by decide, by decide, by decide, by
    change 1 * 1 * n < 2 ^ 32
    omega⟩
  obtain ⟨hd, hread, hfor⟩ := @SizesFit.readPsfHeader_written 8 1 n hfit 1 false false (by simp)
  have htable : readPsfTable hd [] = .ok (List.replicate n []) := by
    rw [readPsfTable, hfor.hastable, hfor.fontlen]
    rfl
  have hbitmap : (List.replicate n (0 : UInt8)).length = n * (bytewidth 8 * 1) := by
    rw [List.length_replicate]
    change n = n * 1
    omega
  have hpos0 : 0 + n ≤ uintMax := by
    rw [uintMax]
    omega
  have hpsf := hfit.kfontReadPsffont_parts hread hfor hbitmap hpos0 (fun _ => rfl) htable []
  rw [List.append_nil] at hpsf
  have hheader : (writepsffontheader 8 1 n 1 false false).1.length ≤ 32 := by
    rw [writepsffontheader]
    dsimp only
    split
    · exact le_rfl
    · simp [psf1Magic]
  have hlen : ¬ (blankFile n).length > maxFontSize := by
    rw [blankFile, List.length_append, List.length_replicate, maxFontSize]
    omega
  rw [fontNamed, hfile]
  change (readPsffontFile (blankFile n) 0 (some [])).toOption = _
  rw [readPsffontFile, readFontfile, if_neg hlen]
  change (kfontReadPsffont (blankFile n) 0 (some [])).toOption = _
  rw [blankFile, hpsf]
  rfl

/-- A list of 33 files, each as long as a file may be. -/
theorem not_bufferSafe :
    ¬ ∀ (doubleSize noU : Bool) (dirs : FontDirs) (names : List (List Char)) (fonts : List OwnFont)
      (width height : Nat), names.length ≤ maxIfiles →
      List.Forall₂ (fun name f => fontNamed dirs noU name = some f) names fonts →
      (∀ f ∈ fonts, f.1.fontheight = height ∧ f.1.fontwidth = width) → Loadable width height →
      SumsExact dirs noU names fonts ∧
        BufferSafe (doubles doubleSize width height) (mergedBuf fonts) width height
          (mergedLen fonts) := by
  intro hall
  let dirs : FontDirs := ⟨fun _ => some (blankFile 4194272), fun _ => none⟩
  have hnamed : fontNamed dirs false ['a'] = some (blankFont 4194272) :=
    fontNamed_blankFile (by decide) (by decide) rfl
  have hfonts : ∀ m, List.Forall₂ (fun name f => fontNamed dirs false name = some f)
      (List.replicate m ['a']) (List.replicate m (blankFont 4194272)) := by
    intro m
    induction m with
    | zero => exact .nil
    | succ m ih => exact .cons hnamed ih
  have hlen : mergedLen (List.replicate 33 (blankFont 4194272)) = 33 * 4194272 := rfl
  obtain ⟨-, hsafe⟩ := hall false false dirs (List.replicate 33 ['a'])
    (List.replicate 33 (blankFont 4194272)) 8 1 (by decide) (hfonts 33) (by
      intro f hf
      rw [List.eq_of_mem_replicate hf]
      exact ⟨rfl, rfl⟩) ⟨by decide, by decide, by decide, by decide⟩
  have hbuflen := hsafe.buflen
  rw [hlen] at hbuflen
  revert hbuflen
  decide

end Kbd.Font
