import Kbd.Font.Verify.Requests

/-!
# Saving a font and loading it again

The kernel keeps its glyphs apart by 32 rows, or by the height of the font in the requests for tall
fonts; a file has them one after the other. The Unicode map is a list of pairs in the kernel and a
list for each glyph in the file. `ShowsFont` and `ShowsMap` say how a console with a given font and
map answers; what lies between the glyphs is left open.
-/

namespace Kbd.Font

open Kbd.Lib Kbd.Lib.Buffer

/-! ## The console -/

/-- The rows from one glyph to the next in the data of a request. -/
def glyphPitch (cfo : ConsoleFontOp) : Nat :=
  match cfo.op with
  | .get | .set => 32
  | .getTall | .setTall => cfo.height

/-- A font of the console, given by the bytes of each row of each glyph. -/
structure ConsoleFont where
  count : Nat
  width : Nat
  height : Nat
  byte : Nat → Nat → Nat → UInt8
  count_pos : 1 ≤ count
  /-- the kernel gives the font as a whole -/
  count_le : count ≤ maxCharcount
  loadable : Loadable width height

namespace ConsoleFont

variable (F : ConsoleFont)

/-- The rows of all glyphs are in the data, at the given pitch. -/
def LaidOut (pitch : Nat) (data : List UInt8) : Prop :=
  ∀ g r x, g < F.count → r < F.height → x < (F.width + 7) / 8 →
    data[(g * pitch + r) * ((F.width + 7) / 8) + x]? = some (F.byte g r x)

/-- There is room for the font in a request. -/
def Fits (cfo : ConsoleFontOp) : Prop :=
  F.width ≤ cfo.width ∧ F.height ≤ cfo.height ∧ F.height ≤ glyphPitch cfo ∧
    (cfo.data.isSome → F.count ≤ cfo.charcount)

instance (cfo : ConsoleFontOp) : Decidable (F.Fits cfo) :=
  inferInstanceAs (Decidable (_ ∧ _ ∧ _ ∧ _))

/-- The glyphs one after the other. -/
def bitmap : List UInt8 :=
  (List.range F.count).flatMap fun g => (List.range (F.height * ((F.width + 7) / 8))).map fun o =>
    F.byte g (o / ((F.width + 7) / 8)) (o % ((F.width + 7) / 8))

end ConsoleFont

/-- A console in text mode with the given font. -/
structure ShowsFont (k : Kernel) (F : ConsoleFont) : Prop where
  text : TextMode k
  tooSmall : ∀ tr cfo, cfo.op = .get ∨ cfo.op = .getTall → ¬ F.Fits cfo →
    k.kdfontop tr cfo = .error .enospc
  size : ∀ tr cfo, cfo.op = .get ∨ cfo.op = .getTall → F.Fits cfo → cfo.data = none →
    k.kdfontop tr cfo = .ok { cfo with width := F.width, height := F.height, charcount := F.count }
  data : ∀ tr cfo buf, cfo.op = .get ∨ cfo.op = .getTall → F.Fits cfo → cfo.data = some buf →
    F.count * (glyphPitch cfo * ((F.width + 7) / 8)) ≤ buf.length →
    ∃ data, F.LaidOut (glyphPitch cfo) data ∧ k.kdfontop tr cfo =
      .ok { cfo with width := F.width, height := F.height, charcount := F.count, data := some data }

/-- A console with the given Unicode map; its length is an `unsigned short`. -/
structure ShowsMap (k : Kernel) (unimap : List Unipair) : Prop where
  length_le : unimap.length ≤ 65535
  gio : ∀ tr n, k.gioUnimap tr n =
    if unimap.length ≤ n then { errno := none, entryCt := unimap.length, entries := unimap }
    else { errno := some .enomem, entryCt := unimap.length, entries := unimap.take n }

/-- A console with the given font and map, with zeros between the glyphs. -/
def consoleKernel (F : ConsoleFont) (unimap : List Unipair) : Kernel where
  kdgetmode _ := .ok kdText
  kdfontop _ cfo :=
    if cfo.op = .set ∨ cfo.op = .setTall then .ok cfo
    else if F.Fits cfo then
      .ok { cfo with
        width := F.width, height := F.height, charcount := F.count
        data := cfo.data.map fun _ => (List.range F.count).flatMap fun g =>
          (List.range (glyphPitch cfo * ((F.width + 7) / 8))).map fun o =>
            if o < F.height * ((F.width + 7) / 8) then
              F.byte g (o / ((F.width + 7) / 8)) (o % ((F.width + 7) / 8)) else 0 }
    else .error .enospc
  gioUnimap _ n :=
    if unimap.length ≤ n then { errno := none, entryCt := unimap.length, entries := unimap }
    else { errno := some .enomem, entryCt := unimap.length, entries := unimap.take n }
  pioUnimapclr _ _ := none
  pioUnimap _ _ := none

theorem length_range_flatMap {α : Type} {n m : Nat} {f : Nat → List α}
    (h : ∀ i < n, (f i).length = m) : ((List.range n).flatMap f).length = n * m := by
  induction n with
  | zero => simp
  | succ n ih =>
    rw [List.range_succ, List.flatMap_append, List.length_append, ih fun i hi => h i (by omega),
      List.flatMap_singleton, h n (by omega), Nat.succ_mul]

theorem getElem?_range_flatMap {α : Type} {n m : Nat} {f : Nat → List α}
    (h : ∀ i < n, (f i).length = m) {i o : Nat} (hi : i < n) (ho : o < m) :
    ((List.range n).flatMap f)[i * m + o]? = (f i)[o]? := by
  induction n with
  | zero => omega
  | succ n ih =>
    have hlen := length_range_flatMap fun i hi => h i (Nat.lt_succ_of_lt hi)
    rw [List.range_succ, List.flatMap_append, List.flatMap_singleton]
    rcases Nat.lt_succ_iff_lt_or_eq.mp hi with hi | rfl
    · rw [List.getElem?_append_left (by rw [hlen]; exact slot_lt hi ho)]
      exact ih (fun i hi => h i (Nat.lt_succ_of_lt hi)) hi
    · rw [List.getElem?_append_right (by omega), hlen, Nat.add_sub_cancel_left]

theorem showsFont_consoleKernel (F : ConsoleFont) (unimap : List Unipair) :
    ShowsFont (consoleKernel F unimap) F := by
  have hset : ∀ {op : KdFontOp}, op = .get ∨ op = .getTall → ¬ (op = .set ∨ op = .setTall) := by
    rintro op (rfl | rfl) <;> simp
  refine ⟨fun _ => rfl, ?_, ?_, ?_⟩
  · intro tr cfo hop hfits
    simp only [consoleKernel, if_neg (hset hop), if_neg hfits]
  · intro tr cfo hop hfits hdata
    simp only [consoleKernel, if_neg (hset hop), if_pos hfits, hdata, Option.map_none]
  · intro tr cfo buf hop hfits hdata hroom
    simp only [consoleKernel, if_neg (hset hop), if_pos hfits, hdata, Option.map_some]
    refine ⟨_, ?_, rfl⟩
    intro g r x hg hr hx
    have ho := slot_lt hr hx
    have hle : F.height * ((F.width + 7) / 8) ≤ glyphPitch cfo * ((F.width + 7) / 8) :=
      Nat.mul_le_mul_right _ hfits.2.2.1
    rw [Nat.add_mul, Nat.mul_assoc, Nat.add_assoc,
      getElem?_range_flatMap (fun i _ => by rw [List.length_map, List.length_range]) hg
        (lt_of_lt_of_le ho hle), List.getElem?_map, List.getElem?_range (lt_of_lt_of_le ho hle),
      Option.map_some, if_pos ho, Nat.mul_comm r, Nat.mul_add_div (by omega), Nat.div_eq_of_lt hx,
      Nat.add_zero, Nat.mul_add_mod, Nat.mod_eq_of_lt hx]

/-! ## Saving -/

section Save

variable {k : Kernel} {F : ConsoleFont}

/-- The size is found with the request for tall fonts when the other has no room. -/
theorem ShowsFont.probeFont_run (h : ShowsFont k F) (tr : Trace) :
    ∃ tr', (probeFont k).run tr = .ok
      { op := if F.width ≤ 32 ∧ F.height ≤ 32 then .get else .getTall, width := F.width,
        height := F.height, charcount := F.count, data := none } tr' := by
  have hload := F.loadable
  rw [probeFont]
  dsimp only
  by_cases hfits : F.width ≤ 32 ∧ F.height ≤ 32
  · have hget : F.Fits ⟨.get, 32, 32, maxCharcount, none⟩ := ⟨hfits.1, hfits.2, hfits.2, by simp⟩
    rw [Result.bind_of_ok (ioctlKdfontop_run k _ _), h.size tr _ (Or.inl rfl) hget rfl,
      if_pos hfits]
    exact ⟨_, rfl⟩
  · rw [Result.bind_of_ok (ioctlKdfontop_run k _ _), h.tooSmall tr _ (Or.inl rfl)
      fun hf => hfits ⟨hf.1, hf.2.1⟩, if_neg hfits]
    have hget : F.Fits ⟨.getTall, 64, 128, maxCharcount, none⟩ :=
      ⟨hload.width_le, hload.height_le, hload.height_le, by simp⟩
    dsimp only
    rw [Result.bind_of_ok (ioctlKdfontop_run k _ _), h.size _ _ (Or.inr rfl) hget rfl]
    exact ⟨_, rfl⟩

/-- The font is read with the pitch that the code takes it to have. -/
theorem ShowsFont.getFontKdfontop_run (h : ShowsFont k F) (tr : Trace) :
    ∃ data pitch tr', F.LaidOut pitch data ∧
      (getFontKdfontop k (List.replicate maxFontSize 0) maxCharcount).run tr =
        .ok { buf := data, count := F.count, width := F.width, height := F.height,
              vpitch := pitch } tr' := by
  have hload := F.loadable
  have hcount := F.count_le
  obtain ⟨tr', hprobe⟩ := h.probeFont_run (tr ++ [.kdgetmode])
  rw [getFontKdfontop, Result.bind_of_ok (h.text.isKdText_run tr)]
  change ∃ data pitch tr', _ ∧ EStateM.run (probeFont k >>= _) _ = _
  rw [Result.bind_of_ok hprobe]
  have hget : ∃ op, (op = KdFontOp.get ∨ op = .getTall) ∧ (op = .get → F.height ≤ 32) ∧
      (if F.width ≤ 32 ∧ F.height ≤ 32 then KdFontOp.get else .getTall) = op := by
    split
    · rename_i hsmall
      exact ⟨_, Or.inl rfl, fun _ => hsmall.2, rfl⟩
    · exact ⟨_, Or.inr rfl, by simp, rfl⟩
  obtain ⟨op, hget, hsmall, hop⟩ := hget
  rw [hop]
  let cfo : ConsoleFontOp := ⟨op, F.width, F.height, maxCharcount,
    some (List.replicate maxFontSize 0)⟩
  have hroom : F.count * (glyphPitch cfo * ((F.width + 7) / 8)) ≤
      (List.replicate maxFontSize (0 : UInt8)).length := by
    have hw := hload.width_le
    have hh := hload.height_le
    have hle : glyphPitch cfo ≤ 128 := by
      rw [glyphPitch]
      split
      · omega
      · omega
      · exact hh
      · exact hh
    rw [List.length_replicate]
    exact le_trans (Nat.mul_le_mul hcount (Nat.mul_le_mul hle (by omega : _ ≤ 8))) (by decide)
  have hpitch : F.height ≤ glyphPitch cfo := by
    rcases hget with rfl | rfl
    · exact hsmall rfl
    · exact le_rfl
  obtain ⟨data, hdata, hk⟩ := h.data tr' cfo _ hget ⟨le_rfl, le_rfl, hpitch, fun _ => hcount⟩ rfl
    hroom
  refine ⟨data, glyphPitch cfo, ?_⟩
  rw [exists_and_left, Result.bind_of_ok (ioctlKdfontop_run k _ _), hk]
  rcases hget with rfl | rfl
  · exact ⟨hdata, _, rfl⟩
  · exact ⟨hdata, _, rfl⟩

theorem ConsoleFont.length_bitmap (F : ConsoleFont) :
    F.bitmap.length = F.count * (F.height * ((F.width + 7) / 8)) := by
  refine length_range_flatMap fun i _ => ?_
  rw [List.length_map, List.length_range]

/-- The glyphs without the rows after them. -/
theorem ConsoleFont.LaidOut.saveGlyphs_eq {pitch : Nat} {data : List UInt8}
    (h : F.LaidOut pitch data) :
    saveGlyphs data F.count (F.height * ((F.width + 7) / 8)) (pitch * ((F.width + 7) / 8)) =
      F.bitmap := by
  have hbw : 0 < (F.width + 7) / 8 := by
    have := F.loadable.width_pos
    omega
  rw [saveGlyphs, ConsoleFont.bitmap, List.flatMap_def, List.flatMap_def]
  congr 1
  refine List.map_congr_left fun g hg => ?_
  rw [List.mem_range] at hg
  refine List.ext_getElem? fun o => ?_
  by_cases ho : o < F.height * ((F.width + 7) / 8)
  · have hrow : o / ((F.width + 7) / 8) < F.height := Nat.div_lt_of_lt_mul (by
      rwa [Nat.mul_comm] at ho)
    have hbyte := h g _ _ hg hrow (Nat.mod_lt o hbw)
    rw [List.getElem?_take_of_lt ho, List.getElem?_drop, List.getElem?_map,
      List.getElem?_range ho, Option.map_some, ← hbyte]
    congr 1
    rw [Nat.add_mul, Nat.mul_assoc, Nat.add_assoc, Nat.div_add_mod']
  · rw [List.getElem?_eq_none (by rw [List.length_take]; omega),
      List.getElem?_eq_none (by rw [List.length_map, List.length_range]; omega)]

/-- The first part of the file. -/
theorem ShowsFont.saveFont_run (h : ShowsFont k F) (tr : Trace) :
    ∃ tr', (saveFont k true).run tr =
      .ok ((writepsffontheader F.width F.height F.count 1 true false).1 ++ F.bitmap, F.count,
        decide (headerType F.width F.height F.count 1 = 2)) tr' := by
  obtain ⟨data, pitch, tr', hdata, hget⟩ := h.getFontKdfontop_run tr
  have hheight := F.loadable.height_pos
  refine ⟨tr', ?_⟩
  rw [saveFont, Result.bind_of_ok hget]
  dsimp only
  rw [if_neg (by omega), hdata.saveGlyphs_eq]
  rfl

/-- The description of a glyph in a map. -/
def glyphCodes (unimap : List Unipair) (i : Nat) : UnicodeList :=
  (unimap.filter (·.fontpos = i)).map fun p => [(p.unicode : Int)]

theorem appendGlyphMap_eq (unimap : List Unipair) (utf8 : Bool) (i : Nat) :
    appendGlyphMap unimap utf8 i = .ok (entryBytes utf8 (glyphCodes unimap i)) := by
  have hcodes : (unimap.filter (·.fontpos = i)).mapM (fun p => appendunicode p.unicode utf8) =
      .ok ((unimap.filter (·.fontpos = i)).map fun p => codeBytes utf8 p.unicode) :=
    Checked.mapM_of_pure fun p _ => appendunicode_eq (Int.natCast_nonneg p.unicode)
  rw [appendGlyphMap, hcodes]
  change Except.ok _ = _
  congr 1
  rw [entryBytes, entryTokens, glyphCodes, List.flatMap_map, List.flatMap_assoc, List.flatMap_def]
  congr 2
  refine List.map_congr_left fun p _ => ?_
  simp [seqTokens, tokenBytes]

theorem ShowsMap.kfontGetUnicodemap_run {unimap : List Unipair} (h : ShowsMap k unimap)
    (tr : Trace) : ∃ tr', (kfontGetUnicodemap k).run tr = .ok unimap tr' := by
  have hrun : ∀ n tr, (ioctlGioUnimap k n).run tr =
      .ok (k.gioUnimap tr n) (tr ++ [.gioUnimap n]) := fun _ _ => rfl
  rw [kfontGetUnicodemap, Result.bind_of_ok (hrun 0 tr), h.gio]
  rcases Nat.eq_zero_or_pos unimap.length with h0 | hpos
  · rw [if_pos (by omega)]
    rw [List.eq_nil_of_length_eq_zero h0]
    exact ⟨_, rfl⟩
  · rw [if_neg (by omega)]
    have hagain : ¬ (Errno.enomem ≠ .enomem ∨ unimap.length = 0) := by
      rintro (hne | h0)
      · exact hne rfl
      · omega
    dsimp only
    rw [if_neg hagain, Result.bind_of_ok (hrun _ _), h.gio, if_pos le_rfl]
    dsimp only
    rw [List.take_length]
    exact ⟨_, rfl⟩

/-- The file that is saved. -/
theorem ShowsFont.kfontSaveFont_run (h : ShowsFont k F) {unimap : List Unipair}
    (hmap : ShowsMap k unimap) (tr : Trace) :
    ∃ tr', (kfontSaveFont k true).run tr =
      .ok ((writepsffontheader F.width F.height F.count 1 true false).1 ++ F.bitmap ++
        ((List.range F.count).map (glyphCodes unimap)).flatMap
          (entryBytes (headerType F.width F.height F.count 1 = 2))) tr' := by
  obtain ⟨tr₁, hsave⟩ := h.saveFont_run tr
  obtain ⟨tr₂, hget⟩ := hmap.kfontGetUnicodemap_run tr₁
  have htable : (List.range F.count).mapM
      (appendGlyphMap unimap (headerType F.width F.height F.count 1 = 2)) =
        .ok ((List.range F.count).map fun i =>
          entryBytes (headerType F.width F.height F.count 1 = 2) (glyphCodes unimap i)) :=
    Checked.mapM_of_pure fun i _ => appendGlyphMap_eq unimap _ i
  refine ⟨tr₂, ?_⟩
  rw [kfontSaveFont, Result.bind_of_ok hsave]
  dsimp only
  rw [if_pos rfl]
  have happend : (appendunicodemap k F.count (headerType F.width F.height F.count 1 = 2)).run tr₁ =
      .ok (((List.range F.count).map (glyphCodes unimap)).flatMap
        (entryBytes (headerType F.width F.height F.count 1 = 2))) tr₂ := by
    rw [appendunicodemap, Result.bind_of_ok hget, htable, List.flatMap_def, List.map_map]
    rfl
  rw [Result.bind_of_ok happend]
  rfl

end Save

/-! ## Loading -/

/-- A map that a file can hold for a font. -/
structure MapFits (F : ConsoleFont) (unimap : List Unipair) : Prop where
  fontpos_lt : ∀ p ∈ unimap, p.fontpos < F.count
  unicode_lt : ∀ p ∈ unimap, p.unicode < 65536
  /-- in a file of the first format two values stand for something else -/
  psf1 : headerType F.width F.height F.count 1 ≠ 2 →
    ∀ p ∈ unimap, p.unicode ≠ 0xFFFE ∧ p.unicode ≠ 0xFFFF

section Load

variable {F : ConsoleFont} {unimap : List Unipair}

theorem glyphNonempty_glyphCodes (unimap : List Unipair) (i : Nat) :
    GlyphNonempty (glyphCodes unimap i) := by
  intro us hus
  obtain ⟨p, -, rfl⟩ := List.mem_map.mp hus
  exact ⟨by simp, by simp⟩

theorem singlesFirst_glyphCodes (unimap : List Unipair) (i : Nat) :
    SinglesFirst (glyphCodes unimap i) := by
  rw [SinglesFirst, glyphCodes, List.pairwise_map]
  exact List.pairwise_of_forall fun p q hlen => absurd hlen (by simp)

theorem MapFits.glyphRepresentable (h : MapFits F unimap) (i : Nat) :
    GlyphRepresentable (headerType F.width F.height F.count 1 = 2) (glyphCodes unimap i) := by
  intro us hus u hu
  obtain ⟨p, hp, rfl⟩ := List.mem_map.mp hus
  rw [List.mem_singleton.mp hu]
  have hmem := (List.mem_filter.mp hp).1
  have hlt := h.unicode_lt p hmem
  refine ⟨Int.natCast_nonneg _, ?_⟩
  by_cases hty : headerType F.width F.height F.count 1 = 2
  · simp only [hty, decide_true, if_true]
    change (p.unicode : Int) < 0x80000000
    omega
  · have hne := h.psf1 hty p hmem
    simp only [hty, decide_false, Bool.false_eq_true, if_false]
    change (p.unicode : Int) < 0xFFFE
    omega

theorem ConsoleFont.sizesFit (F : ConsoleFont) : SizesFit F.width F.height F.count := by
  have hload := F.loadable
  have hw := hload.width_le
  have hcount : F.count ≤ 4096 := F.count_le
  have hsize : bytewidth F.width * F.height * F.count ≤ 8 * 128 * 4096 := by
    rw [bytewidth_eq]
    exact Nat.mul_le_mul (Nat.mul_le_mul (by omega) hload.height_le) hcount
  exact ⟨F.count_pos, hload.width_pos, hload.height_pos, by omega, by omega⟩

/-- The file is read with the bitmap and the table that were saved. -/
theorem MapFits.kfontReadPsffont_saved (h : MapFits F unimap) :
    kfontReadPsffont ((writepsffontheader F.width F.height F.count 1 true false).1 ++ F.bitmap ++
        ((List.range F.count).map (glyphCodes unimap)).flatMap
          (entryBytes (headerType F.width F.height F.count 1 = 2))) 0 (some []) =
      .ok ({ fontbuf := F.bitmap, fontwidth := F.width, fontheight := F.height, fontlen := F.count },
        some ((List.range F.count).map (glyphCodes unimap))) := by
  have hfit := F.sizesFit
  obtain ⟨hd, hread, hfor⟩ := @SizesFit.readPsfHeader_written _ _ _ hfit 1 true false (by simp)
  have hreread : ((List.range F.count).map (glyphCodes unimap)).map reread =
      (List.range F.count).map (glyphCodes unimap) := by
    refine (map_reread_eq_iff ?_).mpr ?_
    · intro ul hul
      obtain ⟨i, -, rfl⟩ := List.mem_map.mp hul
      exact glyphNonempty_glyphCodes unimap i
    · intro ul hul
      obtain ⟨i, -, rfl⟩ := List.mem_map.mp hul
      exact singlesFirst_glyphCodes unimap i
  have hrep : ∀ ul ∈ (List.range F.count).map (glyphCodes unimap),
      GlyphRepresentable (headerType F.width F.height F.count 1 = 2) ul := by
    intro ul hul
    obtain ⟨i, -, rfl⟩ := List.mem_map.mp hul
    exact h.glyphRepresentable i
  have htable := readUniTable_entryBytes hrep []
  rw [List.append_nil, List.length_map, List.length_range, hreread] at htable
  have hheads : readPsfTable hd (((List.range F.count).map (glyphCodes unimap)).flatMap
      (entryBytes (headerType F.width F.height F.count 1 = 2))) =
        .ok ((List.range F.count).map (glyphCodes unimap)) := by
    rw [readPsfTable, hfor.hastable, hfor.utf8, hfor.fontlen, if_pos rfl, htable]
    rfl
  have hpos : 0 + F.count ≤ uintMax := by
    have hcount : F.count ≤ 4096 := F.count_le
    rw [uintMax]
    omega
  have hbuf : F.bitmap.length = F.count * (bytewidth F.width * F.height) := by
    rw [F.length_bitmap, bytewidth_eq, Nat.mul_comm F.height]
  exact hfit.kfontReadPsffont_parts hread hfor hbuf hpos (by simp) hheads []

theorem zipIdx_map_range {α : Type} (n : Nat) (f : Nat → α) :
    ((List.range n).map f).zipIdx = (List.range n).map fun i => (f i, i) := by
  refine List.ext_getElem? fun i => ?_
  rw [List.getElem?_zipIdx, List.getElem?_map, List.getElem?_map]
  rcases Nat.lt_or_ge i n with hi | hi
  · simp [List.getElem?_range hi]
  · simp [hi]

/-- The pairs are grouped by their glyphs. -/
theorem MapFits.tablePairs_eq (h : MapFits F unimap) :
    tablePairs ((List.range F.count).map (glyphCodes unimap)) =
      (List.range F.count).flatMap fun i => unimap.filter (·.fontpos = i) := by
  rw [tablePairs, zipIdx_map_range, List.flatMap_map, List.flatMap_def, List.flatMap_def]
  congr 1
  refine List.map_congr_left fun i hi => ?_
  have hcount : F.count ≤ 4096 := F.count_le
  rw [List.mem_range] at hi
  dsimp only
  rw [glyphCodes, List.filterMap_map]
  conv_rhs => rw [← List.filterMap_some (l := unimap.filter (·.fontpos = i))]
  refine List.filterMap_congr fun p hp => ?_
  obtain ⟨hmem, hpos⟩ := List.mem_filter.mp hp
  have hpos' : p.fontpos = i := of_decide_eq_true hpos
  have hlt := h.unicode_lt p hmem
  have hcode : (((p.unicode : Int) % 65536).toNat) = p.unicode := by omega
  have hfont : i % 65536 = p.fontpos := by omega
  change some (Unipair.mk (((p.unicode : Int) % 65536).toNat) (i % 65536)) = some p
  rw [hcode, hfont]

theorem count_flatMap_filter (unimap : List Unipair) (p : Unipair) (n : Nat) :
    ((List.range n).flatMap fun i => unimap.filter (·.fontpos = i)).count p =
      if p.fontpos < n then unimap.count p else 0 := by
  induction n with
  | zero => simp
  | succ n ih =>
    rw [List.range_succ, List.flatMap_append, List.count_append, ih, List.flatMap_singleton]
    by_cases hp : p.fontpos = n
    · rw [List.count_filter (by simpa using hp), if_neg (by omega), if_pos (by omega), Nat.zero_add]
    · have hnone : (unimap.filter (·.fontpos = n)).count p = 0 :=
        List.count_eq_zero_of_not_mem fun hmem => hp (by simpa using (List.mem_filter.mp hmem).2)
      have hlt : p.fontpos < n ↔ p.fontpos < n + 1 := by omega
      rw [hnone, Nat.add_zero]
      simp only [hlt]

theorem MapFits.tablePairs_perm (h : MapFits F unimap) :
    (tablePairs ((List.range F.count).map (glyphCodes unimap))).Perm unimap := by
  rw [h.tablePairs_eq, List.perm_iff_count]
  intro p
  rw [count_flatMap_filter]
  split
  · rfl
  · rename_i hlt
    exact (List.count_eq_zero_of_not_mem fun hmem => hlt (h.fontpos_lt p hmem)).symm

/-- The bytes of a glyph in the bitmap. -/
theorem ConsoleFont.getElem?_bitmap (F : ConsoleFont) {g r x : Nat} (hg : g < F.count)
    (hr : r < F.height) (hx : x < (F.width + 7) / 8) :
    F.bitmap[g * (F.height * ((F.width + 7) / 8)) + (r * ((F.width + 7) / 8) + x)]? =
      some (F.byte g r x) := by
  have ho := slot_lt hr hx
  rw [ConsoleFont.bitmap, getElem?_range_flatMap (fun i _ => by simp) hg ho, List.getElem?_map,
    List.getElem?_range ho, Option.map_some, Nat.mul_comm r, Nat.mul_add_div (by omega),
    Nat.div_eq_of_lt hx, Nat.add_zero, Nat.mul_add_mod, Nat.mod_eq_of_lt hx]

/-- The buffer of `try_loadfont` has the glyphs at the pitch of the request. -/
theorem ConsoleFont.laidOut_filled {buf : List UInt8}
    (h : Filled false F.bitmap F.width F.height F.count buf) :
    F.LaidOut (glyphPitch (putFontOp buf F.count F.width F.height (slotRows false F.width F.height)))
      buf := by
  have hload := F.loadable
  have hslot : slotRows false F.width F.height = loadPitch F.width F.height := by
    rw [slotRows, zoom]
    simp [le_loadPitch]
  have hpitch : glyphPitch (putFontOp buf F.count F.width F.height
      (slotRows false F.width F.height)) = loadPitch F.width F.height := by
    rw [hslot, putFontOp, glyphPitch]
    by_cases hsmall : F.height ≤ 32 ∧ F.width ≤ 32
    · simp [loadPitch, hsmall]
    · have hset : ¬ (F.height = 32 ∧ F.width ≤ 32) := by omega
      simp only [loadPitch, if_neg hsmall, if_neg hset]
  have hrow : rowBytes false F.width = (F.width + 7) / 8 := by simp [rowBytes, zoom]
  rw [hpitch]
  intro g r x hg hr hx
  have hrx := slot_lt hr hx
  have hle : F.height * ((F.width + 7) / 8) ≤ loadPitch F.width F.height * ((F.width + 7) / 8) :=
    Nat.mul_le_mul_right _ (le_loadPitch _ _)
  have hget := h.slot g (r * ((F.width + 7) / 8) + x) hg (by rw [hslot, hrow]; omega)
  have hin : r * ((F.width + 7) / 8) + x < zoom false * F.height * rowBytes false F.width := by
    rw [hrow, zoom]
    simpa using hrx
  rw [hslot, hrow] at hget
  rw [hrow] at hin
  rw [if_pos hin, ← hrow, sourceByte_copy, hrow, List.getD_eq_getElem?_getD,
    F.getElem?_bitmap hg hr hx] at hget
  rw [Nat.add_mul, Nat.mul_assoc, Nat.add_assoc]
  exact hget

/-- A kernel that takes every font and lets its map be cleared. -/
def Accepts (k : Kernel) : Prop :=
  (∀ tr cfo, ∃ cfo', k.kdfontop tr cfo = .ok cfo') ∧ ∀ tr n, k.pioUnimapclr tr n = none

/-- The requests for the font that was saved. -/
theorem MapFits.loadFontAndTable_trace (h : MapFits F unimap) (hlen : unimap.length ≤ 65535)
    {k : Kernel} (htext : TextMode k) (tr : Trace) :
    ∃ cfo data rest, finalTrace (loadFontAndTable k false
        { inbuf := F.bitmap, width := F.width, height := F.height, hwunit := 0, fontsize := F.count,
          uclistheads := some ((List.range F.count).map (glyphCodes unimap)) }) tr =
        tr ++ [.kdgetmode] ++ [.kdfontop cfo] ++ rest ∧
      (cfo.op = .set ∨ cfo.op = .setTall) ∧ cfo.charcount = F.count ∧ cfo.width = F.width ∧
      cfo.height = F.height ∧ cfo.data = some data ∧ F.LaidOut (glyphPitch cfo) data ∧
      (∀ entries, .pioUnimap entries ∈ rest → entries.Perm unimap) ∧
      (Accepts k → ∃ entries, .pioUnimap entries ∈ rest) := by
  have hload := F.loadable
  have hsize : F.count * (F.height * ((F.width + 7) / 8)) ≤ maxFontSize := by
    have hw := hload.width_le
    exact le_trans (Nat.mul_le_mul F.count_le (Nat.mul_le_mul hload.height_le
      (by omega : (F.width + 7) / 8 ≤ 8))) (by decide)
  obtain ⟨buf, hfilled, hdo⟩ := hload.doLoadfont_eq false F.length_bitmap.ge
    ((hload.glyphFits false).paddedSize_lt hsize)
  have hdoubles : doubles false F.width F.height = false := rfl
  rw [hdoubles] at hfilled hdo
  have hput : doLoadfont k false F.bitmap F.width F.height 0 F.count =
      putFontKdfontop k buf F.count F.width F.height (slotRows false F.width F.height) := by
    have hw := hload.width_pos
    have hh := hload.height_pos
    have hwidth : zoom false * F.width = F.width := by simp [zoom]
    have hheight : loadedHeight false F.height 0 = F.height := by simp [loadedHeight]
    rw [hdo k 0, hwidth, hheight, kfontPutFont, if_neg (by omega), if_neg (by omega)]
  refine ⟨putFontOp buf F.count F.width F.height (slotRows false F.width F.height), buf, ?_⟩
  have hlaid := F.laidOut_filled hfilled
  have hop : (putFontOp buf F.count F.width F.height (slotRows false F.width F.height)).op = .set ∨
      (putFontOp buf F.count F.width F.height (slotRows false F.width F.height)).op = .setTall := by
    rw [putFontOp]
    dsimp only
    split
    · exact Or.inl rfl
    · exact Or.inr rfl
  rw [loadFontAndTable]
  dsimp only
  rw [hput]
  obtain ⟨retry, hretry, hfont⟩ := htext.putFontKdfontop_trace buf F.count F.width F.height
    (slotRows false F.width F.height) tr
  have hno : ∀ entries, .pioUnimap entries ∉ retry := by
    rcases hfont with rfl | ⟨-, rfl⟩ <;> simp
  cases hrun : (putFontKdfontop k buf F.count F.width F.height
      (slotRows false F.width F.height)).run tr with
  | error e tr' =>
    have htr : tr' = _ := (congrArg Result.state hrun).symm.trans hretry
    refine ⟨retry, (finalTrace_bind_of_error hrun).trans htr, hop, rfl, rfl, rfl, rfl, hlaid, ?_, ?_⟩
    · intro entries hmem
      exact absurd hmem (hno entries)
    · intro haccepts
      obtain ⟨cfo, hk⟩ := haccepts.1 (tr ++ [.kdgetmode])
        (putFontOp buf F.count F.width F.height (slotRows false F.width F.height))
      rw [htext.putFontKdfontop_ok buf _ _ _ _ tr hk] at hrun
      cases hrun
  | ok a tr' =>
    have htr : tr' = _ := (congrArg Result.state hrun).symm.trans hretry
    obtain ⟨rest, hrest, honly, hsent⟩ := putUnicodemapFrom_trace k
      (tablePairs ((List.range F.count).map (glyphCodes unimap))) 100 0 tr'
    rw [finalTrace_bind_of_ok hrun, doLoadtable, List.take_of_length_le (by simp),
      if_neg (by rw [h.tablePairs_perm.length_eq]; omega)]
    refine ⟨retry ++ rest, ?_, hop, rfl, rfl, rfl, rfl, hlaid, ?_, ?_⟩
    · rw [← List.append_assoc, ← htr]
      exact hrest
    · intro entries hmem
      rcases List.mem_append.mp hmem with hmem | hmem
      · exact absurd hmem (hno entries)
      · rw [honly entries hmem]
        exact h.tablePairs_perm
    · intro haccepts
      exact ⟨_, List.mem_append_right _ (hsent haccepts.2)⟩

end Load

/-- A font that is saved is loaded again: the first request has the same font, and every map that is
sent has the same pairs. -/
theorem kfontLoadFont_kfontSaveFont {k : Kernel} {F : ConsoleFont} {unimap : List Unipair}
    (hfont : ShowsFont k F) (hmap : ShowsMap k unimap) (hfits : MapFits F unimap) (tr : Trace) :
    ∃ file tr', (kfontSaveFont k true).run tr = .ok file tr' ∧
      (file.length ≤ maxFontSize →
        ∀ (k' : Kernel) (dirs : FontDirs) (ifil : List Char) (iunit depth : Nat) (tr₁ : Trace),
        TextMode k' → openFont dirs ifil iunit = some file →
        ∃ load, kfontLoadFont k' dirs false 0 false (depth + 1) ifil iunit = some load ∧
          ∃ cfo data rest, finalTrace load tr₁ = tr₁ ++ [.kdgetmode] ++ [.kdfontop cfo] ++ rest ∧
            (cfo.op = .set ∨ cfo.op = .setTall) ∧ cfo.charcount = F.count ∧ cfo.width = F.width ∧
            cfo.height = F.height ∧ cfo.data = some data ∧ F.LaidOut (glyphPitch cfo) data ∧
            (∀ entries, .pioUnimap entries ∈ rest → entries.Perm unimap) ∧
            (Accepts k' → ∃ entries, .pioUnimap entries ∈ rest)) := by
  obtain ⟨tr', hsave⟩ := hfont.kfontSaveFont_run hmap tr
  refine ⟨_, tr', hsave, ?_⟩
  intro hle k' dirs ifil iunit depth tr₁ htext hopen
  refine ⟨_, ?_, hfits.loadFontAndTable_trace hmap.length_le htext tr₁⟩
  have hheight : fontHeight ⟨F.bitmap, F.width, F.height, F.count⟩ = F.height := by
    have := F.loadable.height_pos
    rw [fontHeight, if_neg (by dsimp only; omega)]
  have hread := hfits.kfontReadPsffont_saved
  generalize (writepsffontheader F.width F.height F.count 1 true false).1 ++ F.bitmap ++
    ((List.range F.count).map (glyphCodes unimap)).flatMap
      (entryBytes (headerType F.width F.height F.count 1 = 2)) = file at hle hopen hread
  have hpsf : readPsffontFile file 0 (if false = true then none else some []) = .ok
      ({ fontbuf := F.bitmap, fontwidth := F.width, fontheight := F.height, fontlen := F.count },
        some ((List.range F.count).map (glyphCodes unimap))) := by
    rw [readPsffontFile, readFontfile, if_neg (by omega)]
    exact hread
  simp only [kfontLoadFont, hopen, classifyFont, hpsf, hheight]

/-- A font with one glyph, which is a dot. -/
def dotFont : ConsoleFont where
  count := 1
  width := 8
  height := 1
  byte _ _ _ := 0x18
  count_pos := by decide
  count_le := by decide
  loadable := ⟨by decide, by decide, by decide, by decide⟩

theorem kfontLoadFont_kfontSaveFont_dot :
    ∃ file tr', (kfontSaveFont (consoleKernel dotFont [⟨0x41, 0⟩]) true).run [] = .ok file tr' ∧
      (file.length ≤ maxFontSize →
        ∀ (k' : Kernel) (dirs : FontDirs) (ifil : List Char) (iunit depth : Nat) (tr₁ : Trace),
        TextMode k' → openFont dirs ifil iunit = some file →
        ∃ load, kfontLoadFont k' dirs false 0 false (depth + 1) ifil iunit = some load ∧
          ∃ cfo data rest, finalTrace load tr₁ = tr₁ ++ [.kdgetmode] ++ [.kdfontop cfo] ++ rest ∧
            (cfo.op = .set ∨ cfo.op = .setTall) ∧ cfo.charcount = 1 ∧ cfo.width = 8 ∧
            cfo.height = 1 ∧ cfo.data = some data ∧ dotFont.LaidOut (glyphPitch cfo) data ∧
            (∀ entries, .pioUnimap entries ∈ rest → entries.Perm [⟨0x41, 0⟩]) ∧
            (Accepts k' → ∃ entries, .pioUnimap entries ∈ rest)) :=
  kfontLoadFont_kfontSaveFont (showsFont_consoleKernel dotFont [⟨0x41, 0⟩])
    ⟨by decide, fun _ _ => rfl⟩ ⟨by simp [dotFont], by simp, by simp⟩ []

end Kbd.Font
