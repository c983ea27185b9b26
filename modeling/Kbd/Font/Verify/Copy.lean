import Kbd.Font.Verify.Psfxtable

/-!
# A font that is copied

`psfxtable -i infont -o outfont` may change the table of a font: where a code point comes after a sequence
the copy has it as one more of the sequence (`reread`). Every font that can be read is copied, and a copy is
copied byte for byte (`psfxtable_copy`).
-/

namespace Kbd.Font

open Kbd.Lib

/-! ## The code points of a file -/

/-- What is read from a file can be written into one of the same format. -/
theorem representable_of_uniToken {utf8 : Bool} {inp rest : List UInt8} {uc : Nat}
    (h : uniToken utf8 inp = .ok (.unichar uc, rest)) : Representable utf8 uc := by
  refine ⟨Int.natCast_nonneg uc, ?_⟩
  cases inp with
  | nil => cases h
  | cons b inp =>
    cases utf8 with
    | true =>
      simp only [uniToken, if_true] at h
      split at h
      · cases h
      rename_i hsep
      split at h
      · cases h
      rename_i hstart
      have hb : b.toNat < 254 := by
        have hne1 : b.toNat ≠ 255 := fun heq => hsep (UInt8.toNat_inj.mp heq)
        have hne2 : b.toNat ≠ 254 := fun heq => hstart (UInt8.toNat_inj.mp heq)
        have hlt := b.toNat_lt
        omega
      cases hutf : fromUtf8 (b :: inp) with
      | error e =>
        simp only [assembleUtf8, hutf] at h
        cases e <;> cases h
      | ok r =>
        simp only [assembleUtf8, hutf] at h
        cases h
        exact Int.ofNat_lt.mpr (fromUtf8_lt hb hutf)
    | false =>
      cases inp with
      | nil => cases h
      | cons b2 inp =>
        have hlt : b.toNat ||| b2.toNat <<< 8 < 2 ^ 16 := by
          refine Nat.or_lt_two_pow (lt_of_lt_of_le b.toNat_lt (by decide)) ?_
          rw [Nat.shiftLeft_eq]
          have hlt2 := b2.toNat_lt
          omega
        simp only [uniToken, assembleUcs2, bind, Except.bind, pure, Except.pure, Bool.false_eq_true,
          if_false] at h
        split at h
        · cases h
        rename_i hsep
        split at h
        · cases h
        rename_i hstart
        cases h
        refine Int.ofNat_lt.mpr ?_
        simp only [psf1Separator, psf1StartSeq] at hsep hstart ⊢
        omega

theorem GlyphRepresentable.addpair {utf8 : Bool} {up : UnicodeList} (h : GlyphRepresentable utf8 up)
    {uc : Unicode} (huc : Representable utf8 uc) : GlyphRepresentable utf8 (addpair up uc) := by
  intro us hus u hu
  rcases List.mem_append.mp hus with hus | hus
  · exact h us hus u hu
  · rw [List.mem_singleton.mp hus, List.mem_singleton] at hu
    rwa [hu]

theorem GlyphRepresentable.addseq {utf8 : Bool} {up : UnicodeList} (h : GlyphRepresentable utf8 up)
    {uc : Unicode} (huc : Representable utf8 uc) : GlyphRepresentable utf8 (addseq up uc) := by
  rcases List.eq_nil_or_concat up with rfl | ⟨l, vs, rfl⟩
  · exact h
  · rw [List.concat_eq_append, addseq_concat]
    intro us hus u hu
    rcases List.mem_append.mp hus with hus | hus
    · exact h us (by simp [hus]) u hu
    · rw [List.mem_singleton.mp hus] at hu
      rcases List.mem_append.mp hu with hu | hu
      · exact h vs (by simp) u hu
      · rwa [List.mem_singleton.mp hu]

theorem getUniEntryFrom_representable {utf8 : Bool} {rounds : Nat} {up ul : UnicodeList} {inseq : Nat}
    {inp rest : List UInt8} (h : getUniEntryFrom utf8 rounds up inseq inp = .ok (ul, rest))
    (hup : GlyphRepresentable utf8 up) : GlyphRepresentable utf8 ul := by
  induction rounds generalizing up inseq inp with
  | zero => cases h
  | succ rounds ih =>
    simp only [getUniEntryFrom, bind, Except.bind] at h
    split at h
    · cases h
    rename_i htok
    split at h
    · cases h
      exact hup
    · exact ih h hup
    · have huc := representable_of_uniToken htok
      refine ih h ?_
      split
      · exact hup.addpair huc
      · exact hup.addseq huc

theorem readUniTable_representable {utf8 : Bool} {fontlen : Nat} {inp rest : List UInt8}
    {heads : List UnicodeList} (h : readUniTable utf8 fontlen inp = .ok (heads, rest)) :
    ∀ ul ∈ heads, GlyphRepresentable utf8 ul := by
  induction fontlen generalizing inp heads with
  | zero =>
    cases h
    simp
  | succ fontlen ih =>
    simp only [readUniTable, bind, Except.bind] at h
    split at h
    · cases h
    rename_i hentry
    split at h
    · cases h
    rename_i htable
    cases h
    rw [List.forall_mem_cons]
    exact ⟨getUniEntryFrom_representable hentry (by simp [GlyphRepresentable, clearUniEntry]),
      ih htable⟩

/-- Every table is read from a file that can hold it. -/
theorem kfontReadPsffont_representable {buf : List UInt8} {font : PsfFont} {t : List UnicodeList}
    {hd : PsfHeader} (hhd : readPsfHeader buf = .ok hd)
    (h : kfontReadPsffont buf 0 (some []) = .ok (font, some t)) :
    ∀ ul ∈ t, GlyphRepresentable hd.utf8 ul := by
  obtain ⟨hd', hhd', -, -, -, -, ⟨hnone, -⟩ | ⟨o, t', -, heq, -, ht⟩⟩ := kfontReadPsffont_cases h
  · cases hnone
  cases hhd.symm.trans hhd'
  cases heq
  simp only [readPsfTable, bind, Except.bind] at ht
  split at ht
  · split at ht
    · cases ht
    rename_i htable
    split at ht
    · cases ht
    · cases ht
      exact readUniTable_representable htable
  · cases ht
    intro ul hul
    rw [(List.mem_replicate.mp hul).2]
    simp [GlyphRepresentable, clearUniEntry]

/-- The second format holds what the first one does. -/
theorem GlyphRepresentable.utf8 {utf8 : Bool} {ul : UnicodeList} (h : GlyphRepresentable utf8 ul) :
    GlyphRepresentable true ul := by
  intro us hus u hu
  obtain ⟨h0, hlt⟩ := h us hus u hu
  refine ⟨h0, Int.lt_of_lt_of_le hlt ?_⟩
  cases utf8 <;> decide

/-- A font is written in its own format or in the second one. -/
theorem GlyphRepresentable.headerType {utf8 : Bool} {ul : UnicodeList}
    (h : GlyphRepresentable utf8 ul) (width height fontlen : Nat) :
    GlyphRepresentable (Font.headerType width height fontlen (if utf8 then 2 else 1) = 2) ul := by
  by_cases h2 : Font.headerType width height fontlen (if utf8 then 2 else 1) = 2
  · rw [decide_eq_true h2]
    exact h.utf8
  · rw [decide_eq_false h2]
    cases utf8 with
    | false => exact h
    | true =>
      refine absurd ?_ h2
      unfold Font.headerType
      split <;> rfl

/-! ## The table of a copy -/

theorem entryTokens_append (ul ul' : UnicodeList) :
    entryTokens (ul ++ ul') = entryTokens ul ++ entryTokens ul' :=
  List.flatMap_append

/-- Between two descriptions: either there has been no sequence, or the last description is one. -/
def BetweenSeqs (st : UnicodeList × Nat) : Prop :=
  st.2 = 0 ∨ 2 ≤ st.2 ∧ ∃ up us, st.1 = up ++ [us] ∧ 2 ≤ us.length

/-- A description is read as its tokens, into whichever description they go. -/
theorem foldl_seqTokens_spec {us : List Unicode} {st : UnicodeList × Nat} (hne : us ≠ [])
    (hus : ∀ u ∈ us, 0 ≤ u) (h : BetweenSeqs st) :
    BetweenSeqs ((seqTokens us).foldl uniStep st) ∧
      entryTokens ((seqTokens us).foldl uniStep st).1 = entryTokens st.1 ++ seqTokens us := by
  obtain ⟨up, inseq⟩ := st
  rcases length_eq_one_or hne with ⟨u, rfl⟩ | hlen
  · have hu : 0 ≤ u := hus u (by simp)
    rcases h with h0 | ⟨hin, up', vs, hup, hvs⟩
    · dsimp only at h0
      rw [h0, foldl_uniStep_single hu, entryTokens_append]
      exact ⟨.inl rfl, by simp [entryTokens]⟩
    · dsimp only at hin hup
      have hseq : addseq up (u.toNat : Int) = up' ++ [vs ++ [u]] := by
        rw [hup, addseq_concat, Int.toNat_of_nonneg hu]
      have hin' : inseq ≠ 0 := by omega
      rw [foldl_seqTokens_single, uniStep, if_neg (by omega), if_pos hin', hseq, hup]
      refine ⟨.inr ⟨by omega, up', vs ++ [u], rfl, by simp; omega⟩, ?_⟩
      have hpos : 1 ≤ vs.length := by omega
      simp [entryTokens, seqTokens, hvs, hpos]
  · rw [foldl_uniStep_seq hlen hus, entryTokens_append]
    exact ⟨.inr ⟨by omega, up, us, rfl, hlen⟩, by simp [entryTokens]⟩

theorem foldl_entryTokens_spec {ul : UnicodeList} {st : UnicodeList × Nat} (hne : GlyphNonempty ul)
    (h : BetweenSeqs st) :
    entryTokens ((entryTokens ul).foldl uniStep st).1 = entryTokens st.1 ++ entryTokens ul := by
  induction ul generalizing st with
  | nil => simp [entryTokens]
  | cons us ul ih =>
    rw [GlyphNonempty, List.forall_mem_cons] at hne
    obtain ⟨hbetween, htokens⟩ := foldl_seqTokens_spec hne.1.1 hne.1.2 h
    rw [entryTokens_cons, List.foldl_append, ih hne.2 hbetween, htokens, List.append_assoc]

/-- A glyph that is written and read has other descriptions at most, but the same tokens. -/
theorem entryTokens_reread {ul : UnicodeList} (hne : GlyphNonempty ul) :
    entryTokens (reread ul) = entryTokens ul := by
  rw [reread, foldl_entryTokens_spec hne (.inl rfl)]
  rfl

theorem foldl_uniStep_representable {utf8 : Bool} {toks : List UniToken} {st : UnicodeList × Nat}
    (htoks : ∀ uc : Nat, .unichar uc ∈ toks → Representable utf8 uc)
    (h : GlyphRepresentable utf8 st.1) : GlyphRepresentable utf8 (toks.foldl uniStep st).1 := by
  induction toks generalizing st with
  | nil => exact h
  | cons tok toks ih =>
    refine ih (fun uc huc => htoks uc (List.mem_cons_of_mem _ huc)) ?_
    cases tok with
    | separator => exact h
    | startSeq => exact h
    | unichar uc =>
      have huc := htoks uc List.mem_cons_self
      rw [uniStep]
      dsimp only
      split
      · exact h.addpair huc
      · exact h.addseq huc

theorem GlyphRepresentable.reread {utf8 : Bool} {ul : UnicodeList} (h : GlyphRepresentable utf8 ul) :
    GlyphRepresentable utf8 (reread ul) :=
  foldl_uniStep_representable (fun _ huc => representable_of_mem_entryTokens h huc)
    (by simp [GlyphRepresentable])

/-- Whether a glyph has a sequence can be told from its tokens. -/
theorem startSeq_mem_entryTokens {ul : UnicodeList} :
    UniToken.startSeq ∈ entryTokens ul ↔ ∃ us ∈ ul, 2 ≤ us.length := by
  simp [entryTokens, seqTokens]

theorem hasSequences_map_reread {t : List UnicodeList} (hne : ∀ ul ∈ t, GlyphNonempty ul)
    (fontlen : Nat) : hasSequences (t.map reread) fontlen = hasSequences t fontlen := by
  rw [hasSequences, hasSequences, ← List.map_take, List.any_map, Bool.eq_iff_iff, List.any_eq_true,
    List.any_eq_true]
  refine exists_congr fun ul => and_congr_right fun hul => ?_
  have htokens := entryTokens_reread (hne ul (List.mem_of_mem_take hul))
  simp only [Function.comp_apply, List.any_eq_true, decide_eq_true_eq, ← startSeq_mem_entryTokens,
    htokens]

/-- A table and what is read of it are written in the same way. -/
theorem kfontWritePsffont_map_reread {width height fontlen : Nat} {psftype : Int}
    (fontbuf : List UInt8) {t : List UnicodeList} (hne : ∀ ul ∈ t, GlyphNonempty ul)
    (hrep : ∀ ul ∈ t, GlyphRepresentable (headerType width height fontlen psftype = 2) ul) :
    kfontWritePsffont fontbuf width height fontlen psftype (some (t.map reread)) =
      kfontWritePsffont fontbuf width height fontlen psftype (some t) := by
  have hentry : ∀ ul ∈ t.take fontlen,
      writeUniEntry (headerType width height fontlen psftype = 2) ul =
        .ok (entryBytes (headerType width height fontlen psftype = 2) ul) := fun ul hul =>
    writeUniEntry_eq (hrep ul (List.mem_of_mem_take hul))
  have hentry' : ∀ ul ∈ t.take fontlen,
      writeUniEntry (headerType width height fontlen psftype = 2) (reread ul) =
        .ok (entryBytes (headerType width height fontlen psftype = 2) ul) := by
    intro ul hul
    have hmem := List.mem_of_mem_take hul
    rw [writeUniEntry_eq (hrep ul hmem).reread, entryBytes, entryTokens_reread (hne ul hmem),
      entryBytes]
  have htable : ((t.take fontlen).map reread).mapM
      (writeUniEntry (headerType width height fontlen psftype = 2)) = (t.take fontlen).mapM
        (writeUniEntry (headerType width height fontlen psftype = 2)) := by
    rw [List.mapM_map, Checked.mapM_of_pure hentry]
    exact Checked.mapM_of_pure hentry'
  simp only [kfontWritePsffont, writepsffontheader, Option.isSome_some, Option.map_some,
    Option.getD_some, hasSequences_map_reread hne, ← List.map_take, htable]

/-! ## The program -/

/-- Every font that can be read is copied, with the same bitmap, and the copy is copied as it is. -/
theorem psfxtable_copy {file : List UInt8} {font : PsfFont} {t : List UnicodeList}
    (hsize : file.length ≤ maxFontSize)
    (hread : kfontReadPsffont file 0 (some []) = .ok (font, some t)) :
    ∃ out, psfxtable { ofil := true } file = .ok { ofil := some out } ∧
      kfontReadPsffont out 0 (some []) = .ok (font, some (t.map reread)) ∧
      (out.length ≤ maxFontSize →
        psfxtable { ofil := true } out = .ok { ofil := some out }) := by
  obtain ⟨hfit, hbuf⟩ := PsfFont.sizesFit hsize hread
  obtain ⟨hlen, hne⟩ := kfontReadPsffont_nonempty hread
  obtain ⟨hd, hhd, -⟩ := kfontReadPsffont_cases hread
  have hheight := outHeight_eq hfit.height_pos
  have hrep := fun ul hul => (kfontReadPsffont_representable hhd hread ul hul).headerType
    font.fontwidth font.fontheight font.fontlen
  obtain ⟨out, hwrite, hreread⟩ :=
    @kfontReadPsffont_written _ _ _ font.fontbuf (if hd.utf8 then 2 else 1) (some t) hfit hbuf
      (by simp [hlen]) (by simpa using hrep) []
  refine ⟨out, ?_, hreread, fun hout => ?_⟩
  · rw [psfxtable_of_read hsize hread rfl, psfxtableWrite, psftypeOf_of_readPsfHeader hhd]
    simp [outTable, writeOtab, writeOfil, hheight, hwrite, bind, Except.bind, pure, Except.pure]
  · have hagain : kfontWritePsffont font.fontbuf font.fontwidth font.fontheight font.fontlen
        (headerType font.fontwidth font.fontheight font.fontlen (if hd.utf8 then 2 else 1))
        (some (t.map reread)) = .ok (out, _) :=
      (kfontWritePsffont_headerType _ _).trans
        ((kfontWritePsffont_map_reread font.fontbuf hne hrep).trans hwrite)
    rw [psfxtable_of_read hout hreread rfl, psfxtableWrite, psftypeOf_kfontWritePsffont hwrite]
    simp [outTable, writeOtab, writeOfil, hheight, hagain, bind, Except.bind, pure, Except.pure]

/-- The copy of a glyph with an accent and a code point after it, which becomes one more of the sequence. -/
theorem psfxtable_copy_accent : ∃ out,
    psfxtable { ofil := true } (oneGlyphFile [0xfe, 0x41, 0xcc, 0x8a, 0xfe, 0x42]) =
      .ok { ofil := some out } ∧
    kfontReadPsffont out 0 (some []) =
      .ok ({ fontbuf := [0x18], fontwidth := 8, fontheight := 1, fontlen := 1 },
        some [[[0x41, 0x30a, 0x42]]]) := by
  have hread : kfontReadPsffont (oneGlyphFile [0xfe, 0x41, 0xcc, 0x8a, 0xfe, 0x42]) 0 (some []) =
      .ok ({ fontbuf := [0x18], fontwidth := 8, fontheight := 1, fontlen := 1 },
        some [[[0x41, 0x30a], [0x42]]]) := by decide
  obtain ⟨out, hout, hcopy, -⟩ := psfxtable_copy (by decide) hread
  exact ⟨out, hout, hcopy⟩

end Kbd.Font
