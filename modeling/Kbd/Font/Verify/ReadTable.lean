import Kbd.Font.Verify.Psf
import Kbd.Font.Xtable

/-!
# The tables the program can read

Both readers make descriptions that are not empty, of code points that are not negative. Nothing
more holds of their order, and a table in which a single code point comes after a sequence cannot be
written into a font: the file has nothing that ends the sequence before it.
-/

namespace Kbd.Font

open Kbd.Keymap (bytes cstr digitVal digits)

/-! ## What the reader makes -/

theorem getunicode_nonneg {p p' : List Char} {u : Unicode} (h : getunicode p = some (u, p')) :
    0 ≤ u := by
  rw [getunicode] at h
  split at h
  · split at h
    · cases h
    · cases h
      exact Int.natCast_nonneg _
  · cases h

theorem seqLoop_nonempty {rounds : Nat} {p : List Char} {up : UnicodeList} (h : GlyphNonempty up) :
    GlyphNonempty (seqLoop rounds p up).2 := by
  induction rounds generalizing p up with
  | zero => exact h
  | succ rounds ih =>
    unfold seqLoop
    split
    · split
      · rename_i hget
        exact ih (h.addseq (getunicode_nonneg hget))
      · exact h
    · exact h

theorem uniLoop_nonempty {rounds : Nat} {p : List Char} {up : UnicodeList} (h : GlyphNonempty up) :
    GlyphNonempty (uniLoop rounds p up).2 := by
  induction rounds generalizing p up with
  | zero => exact h
  | succ rounds ih =>
    rw [uniLoop]
    split
    · exact h
    · rename_i hget
      exact ih (seqLoop_nonempty (h.addpair (getunicode_nonneg hget)))

/-- Each glyph of a table is as the readers make them, and there are `fontlen` of them. -/
def TableNonempty (fontlen : Nat) (heads : List UnicodeList) : Prop :=
  heads.length = fontlen ∧ ∀ ul ∈ heads, GlyphNonempty ul

theorem TableNonempty.modify {fontlen : Nat} {heads : List UnicodeList}
    (h : TableNonempty fontlen heads) {f : UnicodeList → UnicodeList}
    (hf : ∀ ul, GlyphNonempty ul → GlyphNonempty (f ul)) (i : Nat) :
    TableNonempty fontlen (heads.modify i f) := by
  refine ⟨by rw [List.length_modify, h.1], ?_⟩
  intro ul hul
  obtain ⟨j, hj⟩ := List.mem_iff_getElem?.mp hul
  rw [List.getElem?_modify] at hj
  obtain ⟨ul', hul', rfl⟩ := Option.map_eq_some_iff.mp hj
  have hmem := h.2 ul' (List.mem_of_getElem? hul')
  split
  · exact hf ul' hmem
  · exact hmem

theorem TableNonempty.addRange {fontlen : Nat} {heads : List UnicodeList}
    (h : TableNonempty fontlen heads) {fp0 fp1 : Int} {uc : Int → Unicode}
    (huc : ∀ i, fp0 ≤ i → 0 ≤ uc i) : TableNonempty fontlen (addRange heads fp0 fp1 uc) := by
  rw [Font.addRange]
  generalize List.range (fp1 - fp0 + 1).toNat = l
  induction l generalizing heads with
  | nil => exact h
  | cons k l ih =>
    refine ih (h.modify (fun ul hul => ?_) _)
    exact hul.addpair (huc _ (by omega))

theorem parseRange_nonempty {fontlen : Nat} {heads heads' : List UnicodeList} {p : List Char}
    {fp0 fp1 : Int} (h : TableNonempty fontlen heads) (h0 : 0 ≤ fp0)
    (hok : parseRange p fp0 fp1 heads = .ok heads') : TableNonempty fontlen heads' := by
  simp only [parseRange] at hok
  split at hok
  · cases hok
    exact h.addRange fun i hi => Int.le_trans h0 hi
  split at hok
  · cases hok
  rename_i un0 p' hget
  split at hok
  · split at hok
    · cases hok
    split at hok
    · cases hok
    · cases hok
      have hun0 : (0 : Int) ≤ un0 := getunicode_nonneg hget
      refine h.addRange fun i hi => ?_
      change (0 : Int) ≤ un0 - fp0 + i
      omega
  · cases hok

theorem strToUnicode_nonneg {p p' : List Char} {u : Int} (h : strToUnicode p = .ok (u, p')) :
    0 ≤ u := by
  rw [strToUnicode] at h
  split at h
  · cases h
  split at h
  · cases h
  split at h
  · cases h
  · cases h
    omega

theorem parseItabLine_nonempty {fontlen : Nat} {heads heads' : List UnicodeList} {buf : List Char}
    (h : TableNonempty fontlen heads) (hok : parseItabLine buf fontlen heads = .ok heads') :
    TableNonempty fontlen heads' := by
  simp only [parseItabLine] at hok
  split at hok
  · cases hok
  split at hok
  · cases hok
    exact h
  simp only [bind, Except.bind] at hok
  split at hok
  · cases hok
  rename_i hfp0
  split at hok
  · cases hok
  split at hok
  · cases hok
  split at hok
  · cases hok
  split at hok
  · exact parseRange_nonempty h (strToUnicode_nonneg hfp0) hok
  · cases hok
    exact h.modify (fun ul hul => uniLoop_nonempty hul) _

theorem readLines_nonempty {fontlen rounds : Nat} {heads heads' : List UnicodeList}
    {file : List Char} (h : TableNonempty fontlen heads)
    (hok : readLines fontlen rounds file heads = .ok heads') : TableNonempty fontlen heads' := by
  induction rounds generalizing file heads with
  | zero =>
    cases hok
    exact h
  | succ rounds ih =>
    rw [readLines] at hok
    split at hok
    · cases hok
      exact h
    · simp only [bind, Except.bind] at hok
      split at hok
      · cases hok
      · rename_i hline
        exact ih (parseItabLine_nonempty h hline) hok

theorem kfontReadUnicodetable_nonempty {file : List Char} {fontlen : Nat} {t : List UnicodeList}
    (h : kfontReadUnicodetable file fontlen = .ok t) : TableNonempty fontlen t := by
  refine readLines_nonempty ⟨List.length_replicate, ?_⟩ h
  intro ul hul
  rw [List.eq_of_mem_replicate hul]
  simp [GlyphNonempty, clearUniEntry]

/-! ## Tables that are written into a font -/

/-- The tables that the program can read. -/
inductive ReadTable : List UnicodeList → Prop where
  | psf {buf : List UInt8} {font : PsfFont} {t : List UnicodeList} :
    kfontReadPsffont buf 0 (some []) = .ok (font, some t) → ReadTable t
  | text {file : List Char} {fontlen : Nat} {t : List UnicodeList} :
    kfontReadUnicodetable file fontlen = .ok t → ReadTable t

theorem ReadTable.nonempty {t : List UnicodeList} (h : ReadTable t) : ∀ ul ∈ t, GlyphNonempty ul := by
  cases h with
  | psf h => exact (kfontReadPsffont_nonempty h).2
  | text h => exact (kfontReadUnicodetable_nonempty h).2

/-- The table is read again from a font that it is written into. -/
def WritesBack (fontbuf : List UInt8) (width height : Nat) (psftype : Int) (t : List UnicodeList) :
    Prop :=
  ∃ out utf8 font, kfontWritePsffont fontbuf width height t.length psftype (some t) =
      .ok (out, utf8) ∧ kfontReadPsffont out 0 (some []) = .ok (font, some t)

theorem writesBack_iff_map_reread {fontbuf : List UInt8} {width height : Nat} {psftype : Int}
    {t : List UnicodeList} (hfit : SizesFit width height t.length)
    (hbuf : fontbuf.length = t.length * height * ((width + 7) / 8))
    (hrep : ∀ ul ∈ t, GlyphRepresentable (headerType width height t.length psftype = 2) ul) :
    WritesBack fontbuf width height psftype t ↔ t.map reread = t := by
  obtain ⟨out, hwrite, hread⟩ := kfontReadPsffont_written (some t) hfit hbuf
    (fun t' ht' => by cases ht'; rfl) (fun t' ht' => by cases ht'; exact hrep) []
  constructor
  · rintro ⟨out', utf8, font, hwrite', hread'⟩
    rw [hwrite] at hwrite'
    cases hwrite'
    rw [hread] at hread'
    simp only [Option.map_some, Option.getD_some, Except.ok.injEq, Prod.mk.injEq,
      Option.some.injEq] at hread'
    exact hread'.2
  · intro heq
    rw [Option.map_some, Option.getD_some, heq] at hread
    exact ⟨out, _, _, hwrite, hread⟩

/-- A table that was read is written into a font without loss exactly when no glyph has a single
code point after a sequence. -/
theorem writesBack_iff {t : List UnicodeList} (h : ReadTable t) {fontbuf : List UInt8}
    {width height : Nat} {psftype : Int} (hfit : SizesFit width height t.length)
    (hbuf : fontbuf.length = t.length * height * ((width + 7) / 8))
    (hrep : ∀ ul ∈ t, GlyphRepresentable (headerType width height t.length psftype = 2) ul) :
    WritesBack fontbuf width height psftype t ↔ ∀ ul ∈ t, SinglesFirst ul := by
  rw [writesBack_iff_map_reread hfit hbuf hrep]
  exact map_reread_eq_iff h.nonempty

/-- A code point, then a letter with an accent. -/
theorem writesBack_iff_accent :
    WritesBack [0x18] 8 1 1 [[[0xc5], [0x41, 0x30a]]] ↔
      ∀ ul ∈ [[[0xc5], [0x41, 0x30a]]], SinglesFirst ul :=
  have hread : kfontReadUnicodetable (bytes "0 U+00c5 U+0041,U+030a\n") 1 =
      .ok [[[0xc5], [0x41, 0x30a]]] := by decide
  writesBack_iff (.text hread) ⟨by decide, by decide, by decide, by decide, by decide⟩ (by decide)
    (by simp [GlyphRepresentable, Representable, headerType])

/-- A letter with an accent and then a code point: the code point becomes a part of the sequence. -/
theorem not_writesBack :
    ¬ ∀ (t : List UnicodeList) (fontbuf : List UInt8) (width height : Nat) (psftype : Int),
      ReadTable t → SizesFit width height t.length →
      fontbuf.length = t.length * height * ((width + 7) / 8) →
      (∀ ul ∈ t, GlyphRepresentable (headerType width height t.length psftype = 2) ul) →
      WritesBack fontbuf width height psftype t := by
  intro hall
  have hfit : SizesFit 8 1 1 := ⟨by decide, by decide, by decide, by decide, by decide⟩
  have hrep : ∀ ul ∈ [[[0x41, 0x30a], [(0xc5 : Unicode)]]],
      GlyphRepresentable (headerType 8 1 1 1 = 2) ul := by
    simp [GlyphRepresentable, Representable, headerType]
  have hread : kfontReadUnicodetable (bytes "0 U+0041,U+030a U+00c5\n") 1 =
      .ok [[[0x41, 0x30a], [0xc5]]] := by decide
  have hback := hall [[[0x41, 0x30a], [0xc5]]] [0x18] 8 1 1 (.text hread) hfit (by decide) hrep
  exact absurd ((writesBack_iff_map_reread hfit (by decide) hrep).mp hback) (by decide)

end Kbd.Font
