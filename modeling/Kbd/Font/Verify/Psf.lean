import Kbd.Font.Verify.Utf8
import Kbd.Lib.Checked

/-!
# Writing a font and reading it back

The table of a file is a list of tokens, and `get_uni_entry` is a fold over them: `reread` is what
it makes of the tokens that are written for a glyph. It gives the glyph back exactly when its single
code points come before its sequences, since nothing in the file ends a sequence but the start of
another one or the end of the glyph.
-/

namespace Kbd.Font

open Kbd.Lib

/-! ## Tokens -/

/-- The tokens that are written for a description. -/
def seqTokens (us : List Unicode) : List UniToken :=
  (if 2 ≤ us.length then [.startSeq] else []) ++ us.map fun u => .unichar u.toNat

/-- The tokens of a glyph, without the separator at their end. -/
def entryTokens (ul : UnicodeList) : List UniToken := ul.flatMap seqTokens

/-- What the lower half of the loop of `get_uni_entry` does. -/
def uniStep (st : UnicodeList × Nat) : UniToken → UnicodeList × Nat
  | .separator => st
  | .startSeq => (st.1, 1)
  | .unichar uc =>
    (if st.2 < 2 then addpair st.1 uc else addseq st.1 uc, if st.2 ≠ 0 then st.2 + 1 else 0)

/-- What `get_uni_entry` makes of a written glyph. -/
def reread (ul : UnicodeList) : UnicodeList := ((entryTokens ul).foldl uniStep ([], 0)).1

/-- The bytes of a token. -/
def tokenBytes (utf8 : Bool) : UniToken → List UInt8
  | .separator => appendseparator false utf8
  | .startSeq => appendseparator true utf8
  | .unichar uc => codeBytes utf8 uc

/-- The bytes of a glyph. -/
def entryBytes (utf8 : Bool) (ul : UnicodeList) : List UInt8 :=
  (entryTokens ul).flatMap (tokenBytes utf8) ++ appendseparator false utf8

/-- Every code point of a glyph can be written. -/
def GlyphRepresentable (utf8 : Bool) (ul : UnicodeList) : Prop :=
  ∀ us ∈ ul, ∀ u ∈ us, Representable utf8 u

/-! ## The table of a file -/

theorem writeUniSeq_eq {utf8 : Bool} {us : List Unicode} (h : ∀ u ∈ us, Representable utf8 u) :
    writeUniSeq utf8 us = .ok ((seqTokens us).flatMap (tokenBytes utf8)) := by
  have hcodes : us.mapM (appendunicode · utf8) = .ok (us.map (codeBytes utf8)) :=
    Checked.mapM_of_pure fun u hu => appendunicode_eq (h u hu).1
  have hbytes : us.map (codeBytes utf8) =
      us.map fun u => tokenBytes utf8 (.unichar u.toNat) := by
    apply List.map_congr_left
    intro u hu
    rw [tokenBytes, Int.toNat_of_nonneg (h u hu).1]
  simp only [writeUniSeq, hcodes, hbytes, seqTokens, List.flatMap_append]
  split <;> simp [tokenBytes, List.flatMap, bind, Except.bind, pure, Except.pure, Function.comp_def]

theorem writeUniEntry_eq {utf8 : Bool} {ul : UnicodeList} (h : GlyphRepresentable utf8 ul) :
    writeUniEntry utf8 ul = .ok (entryBytes utf8 ul) := by
  have hseqs : ul.mapM (writeUniSeq utf8) =
      .ok (ul.map fun us => (seqTokens us).flatMap (tokenBytes utf8)) :=
    Checked.mapM_of_pure fun us hus => writeUniSeq_eq (h us hus)
  simp only [writeUniEntry, hseqs, entryBytes, entryTokens, List.flatMap_assoc]
  rfl

theorem uniToken_tokenBytes {utf8 : Bool} {tok : UniToken}
    (h : ∀ uc : Nat, tok = .unichar uc → Representable utf8 uc) (rest : List UInt8) :
    uniToken utf8 (tokenBytes utf8 tok ++ rest) = .ok (tok, rest) := by
  cases tok with
  | separator => cases utf8 <;> rfl
  | startSeq => cases utf8 <;> rfl
  | unichar uc => exact uniToken_codeBytes (h uc rfl) rest

/-- The loop is a fold over the tokens up to the separator. -/
theorem getUniEntryFrom_tokens {utf8 : Bool} {toks : List UniToken} {rest : List UInt8}
    {rounds : Nat} {up : UnicodeList} {inseq : Nat} (hrounds : toks.length < rounds)
    (hsep : ∀ tok ∈ toks, tok ≠ .separator)
    (h : ∀ uc : Nat, .unichar uc ∈ toks → Representable utf8 uc) :
    getUniEntryFrom utf8 rounds up inseq
        (toks.flatMap (tokenBytes utf8) ++ (appendseparator false utf8 ++ rest)) =
      .ok ((toks.foldl uniStep (up, inseq)).1, rest) := by
  induction toks generalizing rounds up inseq with
  | nil =>
    obtain ⟨n, rfl⟩ : ∃ n, rounds = n + 1 := ⟨rounds - 1, by omega⟩
    have htok : uniToken utf8 (appendseparator false utf8 ++ rest) = .ok (.separator, rest) := by
      cases utf8 <;> rfl
    simp [getUniEntryFrom, htok, bind, Except.bind, pure, Except.pure]
  | cons tok toks ih =>
    obtain ⟨n, rfl⟩ : ∃ n, rounds = n + 1 := ⟨rounds - 1, by omega⟩
    rw [List.forall_mem_cons] at hsep
    have htok := uniToken_tokenBytes (fun uc huc => h uc (huc ▸ List.mem_cons_self))
      (toks.flatMap (tokenBytes utf8) ++ (appendseparator false utf8 ++ rest))
    have hrest := fun up inseq => @ih n up inseq
      (by simp only [List.length_cons] at hrounds; omega) hsep.2
      (fun uc huc => h uc (List.mem_cons_of_mem tok huc))
    rw [List.flatMap_cons, List.append_assoc, getUniEntryFrom, htok]
    cases tok with
    | separator => exact absurd rfl hsep.1
    | startSeq => exact hrest up 1
    | unichar uc => exact hrest _ _

theorem entryTokens_ne_separator {ul : UnicodeList} : ∀ tok ∈ entryTokens ul, tok ≠ .separator := by
  intro tok htok
  obtain ⟨us, -, hus⟩ := List.mem_flatMap.mp htok
  rcases List.mem_append.mp hus with h | h
  · split at h
    · rw [List.mem_singleton.mp h]
      simp
    · cases h
  · obtain ⟨u, -, rfl⟩ := List.mem_map.mp h
    simp

theorem representable_of_mem_entryTokens {utf8 : Bool} {ul : UnicodeList}
    (h : GlyphRepresentable utf8 ul) {uc : Nat} (huc : .unichar uc ∈ entryTokens ul) :
    Representable utf8 uc := by
  obtain ⟨us, hus, htok⟩ := List.mem_flatMap.mp huc
  rcases List.mem_append.mp htok with hs | hs
  · split at hs
    · cases List.mem_singleton.mp hs
    · cases hs
  · obtain ⟨u, hu, hcode⟩ := List.mem_map.mp hs
    cases hcode
    have hrep := h us hus u hu
    rwa [Int.toNat_of_nonneg hrep.1]

theorem tokenBytes_ne_nil {utf8 : Bool} {tok : UniToken}
    (h : ∀ uc : Nat, tok = .unichar uc → Representable utf8 uc) : tokenBytes utf8 tok ≠ [] := by
  intro hnil
  have htok := uniToken_tokenBytes h []
  rw [hnil] at htok
  cases htok

theorem length_le_flatMap_tokenBytes {utf8 : Bool} {toks : List UniToken}
    (h : ∀ uc : Nat, .unichar uc ∈ toks → Representable utf8 uc) :
    toks.length ≤ (toks.flatMap (tokenBytes utf8)).length := by
  induction toks with
  | nil => exact Nat.le_refl _
  | cons tok toks ih =>
    have hpos : 0 < (tokenBytes utf8 tok).length := List.length_pos_of_ne_nil
      (tokenBytes_ne_nil fun uc huc => h uc (huc ▸ List.mem_cons_self))
    have hrest := ih fun uc huc => h uc (List.mem_cons_of_mem tok huc)
    rw [List.flatMap_cons, List.length_append, List.length_cons]
    omega

/-- What is read of a written glyph, whatever comes after it. -/
theorem getUniEntry_entryBytes {utf8 : Bool} {ul : UnicodeList} (h : GlyphRepresentable utf8 ul)
    (rest : List UInt8) :
    getUniEntry utf8 (entryBytes utf8 ul ++ rest) = .ok (reread ul, rest) := by
  have hrep : ∀ uc : Nat, .unichar uc ∈ entryTokens ul → Representable utf8 uc :=
    fun uc huc => representable_of_mem_entryTokens h huc
  have hlen := length_le_flatMap_tokenBytes hrep
  have hsep : 0 < (appendseparator false utf8).length := by cases utf8 <;> decide
  rw [getUniEntry, entryBytes, List.append_assoc]
  refine getUniEntryFrom_tokens ?_ entryTokens_ne_separator hrep
  simp only [List.length_append]
  omega

theorem readUniTable_entryBytes {utf8 : Bool} {table : List UnicodeList}
    (h : ∀ ul ∈ table, GlyphRepresentable utf8 ul) (rest : List UInt8) :
    readUniTable utf8 table.length (table.flatMap (entryBytes utf8) ++ rest) =
      .ok (table.map reread, rest) := by
  induction table with
  | nil => rfl
  | cons ul table ih =>
    rw [List.forall_mem_cons] at h
    simp only [List.length_cons, readUniTable, List.flatMap_cons, List.append_assoc,
      getUniEntry_entryBytes h.1, bind, Except.bind, ih h.2]
    rfl

/-! ## Which glyphs are read as they were -/

/-- Single code points first: nothing of one code point comes after a sequence. -/
def SinglesFirst (ul : UnicodeList) : Prop := ul.Pairwise fun us vs => 2 ≤ us.length → 2 ≤ vs.length

instance (ul : UnicodeList) : Decidable (SinglesFirst ul) :=
  inferInstanceAs (Decidable (ul.Pairwise _))

/-- What the readers make of a glyph: no description is empty, and no code point is negative. -/
def GlyphNonempty (ul : UnicodeList) : Prop := ∀ us ∈ ul, us ≠ [] ∧ ∀ u ∈ us, 0 ≤ u

theorem foldl_seqTokens_single (st : UnicodeList × Nat) (u : Unicode) :
    (seqTokens [u]).foldl uniStep st = uniStep st (.unichar u.toNat) := by
  simp [seqTokens]

/-- Before the first sequence a code point stands for itself. -/
theorem foldl_uniStep_single {up : UnicodeList} {u : Unicode} (hu : 0 ≤ u) :
    (seqTokens [u]).foldl uniStep (up, 0) = (up ++ [[u]], 0) := by
  simp [foldl_seqTokens_single, uniStep, addpair, Int.toNat_of_nonneg hu]

/-- In a sequence every code point is one more of it. -/
theorem foldl_uniStep_unichars {up : UnicodeList} {vs us : List Unicode} {inseq : Nat}
    (hin : 2 ≤ inseq) (hus : ∀ u ∈ us, 0 ≤ u) :
    (us.map fun u => UniToken.unichar u.toNat).foldl uniStep (up ++ [vs], inseq) =
      (up ++ [vs ++ us], inseq + us.length) := by
  induction us generalizing vs inseq with
  | nil => simp
  | cons u us ih =>
    rw [List.forall_mem_cons] at hus
    have hlt : ¬ inseq < 2 := by omega
    have hne : inseq ≠ 0 := by omega
    rw [List.map_cons, List.foldl_cons]
    simp only [uniStep, hlt, hne, if_false, ne_eq, not_false_eq_true, if_true, addseq_concat,
      Int.toNat_of_nonneg hus.1]
    rw [ih (by omega) hus.2, List.length_cons]
    simp only [List.append_assoc, List.singleton_append]
    congr 1
    omega

/-- A sequence starts a new description, wherever it stands. -/
theorem foldl_uniStep_seq {us : List Unicode} (hlen : 2 ≤ us.length) (hus : ∀ u ∈ us, 0 ≤ u)
    (up : UnicodeList) (inseq : Nat) :
    (seqTokens us).foldl uniStep (up, inseq) = (up ++ [us], us.length + 1) := by
  cases us with
  | nil => simp at hlen
  | cons u us =>
    rw [List.forall_mem_cons] at hus
    simp only [seqTokens, hlen, if_true, List.singleton_append, List.map_cons, List.foldl_cons]
    have hstep : uniStep (uniStep (up, inseq) .startSeq) (.unichar u.toNat) = (up ++ [[u]], 2) := by
      simp [uniStep, addpair, Int.toNat_of_nonneg hus.1]
    rw [hstep]
    rw [foldl_uniStep_unichars (by omega) hus.2, List.length_cons]
    simp only [List.singleton_append]
    congr 1
    omega

theorem length_addseq (up : UnicodeList) (u : Unicode) : (addseq up u).length = up.length := by
  rcases List.eq_nil_or_concat up with rfl | ⟨l, us, rfl⟩
  · rfl
  · simp

/-- A single code point after a sequence is taken for one more of the sequence. -/
theorem foldl_uniStep_absorbed (up : UnicodeList) (u : Unicode) {inseq : Nat} (hin : 2 ≤ inseq) :
    ((seqTokens [u]).foldl uniStep (up, inseq)).1.length = up.length ∧
      2 ≤ ((seqTokens [u]).foldl uniStep (up, inseq)).2 := by
  have hlt : ¬ inseq < 2 := by omega
  have hne : inseq ≠ 0 := by omega
  simp only [foldl_seqTokens_single, uniStep, hlt, ne_eq, hne, not_false_eq_true, if_true, if_false]
  exact ⟨length_addseq up _, by omega⟩

theorem length_eq_one_or {us : List Unicode} (h : us ≠ []) : (∃ u, us = [u]) ∨ 2 ≤ us.length := by
  rcases us with _ | ⟨u, _ | ⟨v, us⟩⟩
  · exact absurd rfl h
  · exact Or.inl ⟨u, rfl⟩
  · exact Or.inr (by simp)

theorem entryTokens_cons (us : List Unicode) (ul : UnicodeList) :
    entryTokens (us :: ul) = seqTokens us ++ entryTokens ul :=
  List.flatMap_cons

theorem foldl_uniStep_seqs {ul up : UnicodeList} {inseq : Nat} (hne : GlyphNonempty ul)
    (hseq : ∀ us ∈ ul, 2 ≤ us.length) :
    ((entryTokens ul).foldl uniStep (up, inseq)).1 = up ++ ul := by
  induction ul generalizing up inseq with
  | nil => simp [entryTokens]
  | cons us ul ih =>
    rw [GlyphNonempty, List.forall_mem_cons] at hne
    rw [List.forall_mem_cons] at hseq
    rw [entryTokens_cons, List.foldl_append, foldl_uniStep_seq hseq.1 hne.1.2, ih hne.2 hseq.2,
      List.append_assoc, List.singleton_append]

theorem foldl_uniStep_of_singlesFirst {ul up : UnicodeList} (hne : GlyphNonempty ul)
    (h : SinglesFirst ul) : ((entryTokens ul).foldl uniStep (up, 0)).1 = up ++ ul := by
  induction ul generalizing up with
  | nil => simp [entryTokens]
  | cons us ul ih =>
    rw [GlyphNonempty, List.forall_mem_cons] at hne
    rw [SinglesFirst, List.pairwise_cons] at h
    rw [entryTokens_cons, List.foldl_append]
    rcases length_eq_one_or hne.1.1 with ⟨u, rfl⟩ | hlen
    · have hu : 0 ≤ u := hne.1.2 u List.mem_cons_self
      rw [foldl_uniStep_single hu, ih hne.2 h.2, List.append_assoc, List.singleton_append]
    · rw [foldl_uniStep_seq hlen hne.1.2, foldl_uniStep_seqs hne.2 fun vs hvs => h.1 vs hvs hlen,
        List.append_assoc, List.singleton_append]

/-- A description adds at most one to what is read. -/
theorem length_foldl_seqTokens_le {us : List Unicode} (hne : us ≠ []) (hus : ∀ u ∈ us, 0 ≤ u)
    (st : UnicodeList × Nat) :
    ((seqTokens us).foldl uniStep st).1.length ≤ st.1.length + 1 := by
  rcases length_eq_one_or hne with ⟨u, rfl⟩ | hlen
  · simp only [foldl_seqTokens_single, uniStep]
    split
    · simp [addpair]
    · rw [length_addseq]
      omega
  · rw [foldl_uniStep_seq hlen hus]
    simp

theorem length_foldl_entryTokens_le {ul : UnicodeList} (hne : GlyphNonempty ul)
    (st : UnicodeList × Nat) :
    ((entryTokens ul).foldl uniStep st).1.length ≤ st.1.length + ul.length := by
  induction ul generalizing st with
  | nil => simp [entryTokens]
  | cons us ul ih =>
    rw [GlyphNonempty, List.forall_mem_cons] at hne
    have hhead := length_foldl_seqTokens_le hne.1.1 hne.1.2 st
    have htail := ih hne.2 ((seqTokens us).foldl uniStep st)
    rw [entryTokens_cons, List.foldl_append, List.length_cons]
    omega

/-- After a sequence a single code point is lost as a description. -/
theorem length_foldl_lt_of_single {ul : UnicodeList} {st : UnicodeList × Nat}
    (hne : GlyphNonempty ul) (hin : 2 ≤ st.2) (hsingle : ∃ us ∈ ul, ¬ 2 ≤ us.length) :
    ((entryTokens ul).foldl uniStep st).1.length < st.1.length + ul.length := by
  induction ul generalizing st with
  | nil => simp at hsingle
  | cons us ul ih =>
    rw [GlyphNonempty, List.forall_mem_cons] at hne
    rw [entryTokens_cons, List.foldl_append, List.length_cons]
    rcases length_eq_one_or hne.1.1 with ⟨u, rfl⟩ | hlen
    · obtain ⟨up, inseq⟩ := st
      have habs := foldl_uniStep_absorbed up u hin
      have hle := length_foldl_entryTokens_le hne.2 ((seqTokens [u]).foldl uniStep (up, inseq))
      simp only at habs hin ⊢
      omega
    · obtain ⟨vs, hvs, hshort⟩ := hsingle
      have hvs' : vs ∈ ul := by
        rcases List.mem_cons.mp hvs with rfl | hvs
        · exact absurd hlen hshort
        · exact hvs
      have hseq := foldl_uniStep_seq hlen hne.1.2 st.1 st.2
      have hlt := @ih (st.1 ++ [us], us.length + 1) hne.2 (by simp only; omega) ⟨vs, hvs', hshort⟩
      rw [hseq]
      simp only [List.length_append, List.length_singleton] at hlt
      omega

theorem length_foldl_lt_of_not_singlesFirst {ul : UnicodeList} (hne : GlyphNonempty ul)
    (h : ¬ SinglesFirst ul) (st : UnicodeList × Nat) :
    ((entryTokens ul).foldl uniStep st).1.length < st.1.length + ul.length := by
  induction ul generalizing st with
  | nil => exact absurd List.Pairwise.nil h
  | cons us ul ih =>
    rw [GlyphNonempty, List.forall_mem_cons] at hne
    rw [entryTokens_cons, List.foldl_append, List.length_cons]
    by_cases htail : SinglesFirst ul
    · -- the head is a sequence, and something after it is not
      rw [SinglesFirst, List.pairwise_cons, not_and] at h
      have hhead : ¬ ∀ vs ∈ ul, 2 ≤ us.length → 2 ≤ vs.length := fun hall => h hall htail
      push Not at hhead
      obtain ⟨vs, hvs, hlen, hshort⟩ := hhead
      rw [foldl_uniStep_seq hlen hne.1.2]
      have hlt := @length_foldl_lt_of_single ul (st.1 ++ [us], us.length + 1) hne.2
        (by simp only; omega) ⟨vs, hvs, by omega⟩
      simp only [List.length_append, List.length_singleton] at hlt
      omega
    · have hlt := ih hne.2 htail ((seqTokens us).foldl uniStep st)
      have hle := length_foldl_seqTokens_le hne.1.1 hne.1.2 st
      omega

/-- A glyph is read as it was when its single code points come first, and only then. -/
theorem reread_eq_iff {ul : UnicodeList} (hne : GlyphNonempty ul) :
    reread ul = ul ↔ SinglesFirst ul := by
  constructor
  · intro heq
    by_contra h
    have hlt := length_foldl_lt_of_not_singlesFirst hne h ([], 0)
    rw [← reread, heq] at hlt
    simp at hlt
  · intro h
    exact foldl_uniStep_of_singlesFirst hne h

theorem map_eq_self_iff {f : UnicodeList → UnicodeList} {t : List UnicodeList} :
    t.map f = t ↔ ∀ ul ∈ t, f ul = ul := by
  conv_lhs => rw [← List.map_id t, List.map_map]
  exact List.map_inj_left

theorem map_reread_eq_iff {t : List UnicodeList} (hne : ∀ ul ∈ t, GlyphNonempty ul) :
    t.map reread = t ↔ ∀ ul ∈ t, SinglesFirst ul := by
  rw [map_eq_self_iff]
  constructor
  · intro h ul hul
    exact (reread_eq_iff (hne ul hul)).mp (h ul hul)
  · intro h ul hul
    exact (reread_eq_iff (hne ul hul)).mpr (h ul hul)

/-! ## The header -/

theorem assembleUint32_cons (b0 b1 b2 b3 : UInt8) (rest : List UInt8) :
    assembleUint32 (b0 :: b1 :: b2 :: b3 :: rest) =
      b0.toNat + b1.toNat * 2 ^ 8 + b2.toNat * 2 ^ 16 + b3.toNat * 2 ^ 24 := by
  rw [show assembleUint32 (b0 :: b1 :: b2 :: b3 :: rest) =
    b0.toNat + b1.toNat <<< 8 + b2.toNat <<< 16 + b3.toNat <<< 24 from rfl, Nat.shiftLeft_eq,
    Nat.shiftLeft_eq, Nat.shiftLeft_eq]

theorem toNat_byte (m : Nat) : (UInt8.ofNat (m &&& 0xff)).toNat = m % 256 := by
  rw [UInt8.toNat_ofNat', show (0xff : Nat) = 2 ^ 8 - 1 from rfl, Nat.and_two_pow_sub_one_eq_mod]
  omega

theorem assembleUint32_storeIntLe {n : Nat} (hn : n < 2 ^ 32) (rest : List UInt8) :
    assembleUint32 (storeIntLe n ++ rest) = n := by
  rw [storeIntLe, List.cons_append, List.cons_append, List.cons_append, List.cons_append,
    assembleUint32_cons, toNat_byte, toNat_byte, toNat_byte, toNat_byte, Nat.shiftRight_eq_div_pow,
    Nat.shiftRight_eq_div_pow, Nat.shiftRight_eq_div_pow]
  omega

theorem readPsfHeader_psf2 {width height fontlen charsize : Nat} {hasTab : Bool}
    (hw : width < 2 ^ 32) (hh : height < 2 ^ 32) (hl : fontlen < 2 ^ 32) (hc : charsize < 2 ^ 32)
    (rest : List UInt8) :
    readPsfHeader (psf2Magic ++ storeIntLe 0 ++ storeIntLe 32 ++
        storeIntLe (if hasTab then psf2HasUnicodeTable else 0) ++ storeIntLe fontlen ++
        storeIntLe charsize ++ storeIntLe height ++ storeIntLe width ++ rest) =
      .ok { fontlen, charsize, hastable := hasTab, ftoffset := 32, fontwidth := width,
            fontheight := height, utf8 := true } := by
  simp only [List.append_assoc]
  generalize hbuf : psf2Magic ++ (storeIntLe 0 ++ (storeIntLe 32 ++
    (storeIntLe (if hasTab then psf2HasUnicodeTable else 0) ++ (storeIntLe fontlen ++
    (storeIntLe charsize ++ (storeIntLe height ++ (storeIntLe width ++ rest))))))) = buf
  -- the numbers of the header, each at its offset
  have h4 : assembleUint32 (buf.drop 4) = 0 := by
    rw [← hbuf]
    exact assembleUint32_storeIntLe (by decide) _
  have h8 : assembleUint32 (buf.drop 8) = 32 := by
    rw [← hbuf]
    exact assembleUint32_storeIntLe (by decide) _
  have h12 : assembleUint32 (buf.drop 12) = if hasTab then psf2HasUnicodeTable else 0 := by
    rw [← hbuf]
    exact assembleUint32_storeIntLe (by split <;> decide) _
  have h16 : assembleUint32 (buf.drop 16) = fontlen := by
    rw [← hbuf]
    exact assembleUint32_storeIntLe hl _
  have h20 : assembleUint32 (buf.drop 20) = charsize := by
    rw [← hbuf]
    exact assembleUint32_storeIntLe hc _
  have h24 : assembleUint32 (buf.drop 24) = height := by
    rw [← hbuf]
    exact assembleUint32_storeIntLe hh _
  have h28 : assembleUint32 (buf.drop 28) = width := by
    rw [← hbuf]
    exact assembleUint32_storeIntLe hw _
  have hlen : buf.length ≥ 32 := by
    rw [← hbuf]
    exact Nat.le_add_left 32 rest.length
  have hmagic1 : psf1Magic.isPrefixOf buf = false := by
    rw [← hbuf]
    rfl
  have hmagic2 : psf2Magic.isPrefixOf buf = true := by
    rw [← hbuf]
    rfl
  simp only [readPsfHeader, hmagic1, hmagic2, hlen, h4, h8, h12, h16, h20, h24, h28]
  cases hasTab <;> simp

theorem readPsfHeader_psf1 {fontlen charsize : Nat} {hasTab hasSeq : Bool}
    (hl : fontlen = 256 ∨ fontlen = 512) (hc : charsize ≤ 255) (hseq : hasSeq → hasTab)
    (rest : List UInt8) :
    readPsfHeader (psf1Magic ++ [UInt8.ofNat ((if fontlen = 512 then psf1Mode512 else 0) |||
        if hasSeq then psf1ModeHasSeq else if hasTab then psf1ModeHasTab else 0),
        UInt8.ofNat charsize] ++ rest) =
      .ok { fontlen, charsize, hastable := hasTab, ftoffset := 4, fontwidth := 8,
            fontheight := 0, utf8 := false } := by
  have hcs : (UInt8.ofNat charsize).toNat = charsize := by
    rw [UInt8.toNat_ofNat']
    omega
  have hmagic : psf1Magic.isPrefixOf (psf1Magic ++ [UInt8.ofNat ((if fontlen = 512 then
      psf1Mode512 else 0) ||| if hasSeq then psf1ModeHasSeq else if hasTab then psf1ModeHasTab
      else 0), UInt8.ofNat charsize] ++ rest) = true := rfl
  rw [readPsfHeader, if_pos ⟨by simp [psf1Magic], hmagic⟩]
  simp only [psf1Magic, List.cons_append, List.nil_append, List.getD_cons_succ,
    List.getD_cons_zero, hcs]
  rcases hl with rfl | rfl <;> cases hasTab <;> cases hasSeq <;>
    first | rfl | exact absurd (hseq rfl) (by decide)

/-- What the header of a font says. -/
structure HeaderFor (h : PsfHeader) (width height fontlen : Nat) (hasTab utf8 : Bool)
    (ftoffset : Nat) : Prop where
  fontlen : h.fontlen = fontlen
  charsize : h.charsize = bytewidth width * height
  hastable : h.hastable = hasTab
  ftoffset : h.ftoffset = ftoffset
  fontwidth : h.fontwidth = width
  fontheight : h.fontheight = 0 ∨ h.fontheight = height
  utf8 : h.utf8 = utf8

/-- The sizes of a font fit into 32 bits. -/
structure SizesFit (width height fontlen : Nat) : Prop where
  fontlen_pos : 1 ≤ fontlen
  width_pos : 1 ≤ width
  height_pos : 1 ≤ height
  width_lt : width + 7 < 2 ^ 32
  size_lt : bytewidth width * height * fontlen < 2 ^ 32

theorem bytewidth_eq (width : Nat) : bytewidth width = (width + 7) / 8 := by
  rw [bytewidth]
  split <;> omega

namespace SizesFit

variable {width height fontlen : Nat} (h : SizesFit width height fontlen)
include h

theorem bytewidth_pos : 1 ≤ bytewidth width := by
  have := h.width_pos
  rw [bytewidth_eq]
  omega

theorem charsize_pos : 1 ≤ bytewidth width * height :=
  Nat.mul_pos h.bytewidth_pos h.height_pos

theorem charsize_lt : bytewidth width * height < 2 ^ 32 :=
  lt_of_le_of_lt (Nat.le_mul_of_pos_right _ h.fontlen_pos) h.size_lt

theorem height_lt : height < 2 ^ 32 :=
  lt_of_le_of_lt (Nat.le_mul_of_pos_left _ h.bytewidth_pos) h.charsize_lt

theorem fontlen_lt : fontlen < 2 ^ 32 :=
  lt_of_le_of_lt (Nat.le_mul_of_pos_left _ h.charsize_pos) h.size_lt

theorem writtenCharsize_eq : writtenCharsize width height = bytewidth width * height := by
  rw [writtenCharsize, Nat.mod_eq_of_lt h.width_lt, ← bytewidth_eq, Nat.mod_eq_of_lt h.charsize_lt]

/-- A written header is read, whatever comes after it. -/
theorem readPsfHeader_written (psftype : Int) {hasTab hasSeq : Bool} (hseq : hasSeq → hasTab) :
    ∃ hd, (∀ rest, readPsfHeader
        ((writepsffontheader width height fontlen psftype hasTab hasSeq).1 ++ rest) = .ok hd) ∧
      HeaderFor hd width height fontlen hasTab
        (headerType width height fontlen psftype = 2)
        (writepsffontheader width height fontlen psftype hasTab hasSeq).1.length := by
  by_cases hty : headerType width height fontlen psftype = 2
  · refine ⟨{ fontlen, charsize := bytewidth width * height, hastable := hasTab, ftoffset := 32,
              fontwidth := width, fontheight := height, utf8 := true }, fun rest => ?_, ?_⟩
    · simp only [writepsffontheader, hty, if_true, h.writtenCharsize_eq]
      exact readPsfHeader_psf2 (by have := h.width_lt; omega) h.height_lt h.fontlen_lt
        h.charsize_lt rest
    · refine ⟨rfl, rfl, rfl, ?_, rfl, Or.inr rfl, ?_⟩
      · simp only [writepsffontheader, hty, if_true]
        rfl
      · simp [hty]
  · -- the first format is left as it is only for the sizes it has
    have hsizes : (fontlen = 256 ∨ fontlen = 512) ∧ width = 8 ∧ height ≤ 32 := by
      rw [headerType] at hty
      split at hty
      · exact absurd rfl hty
      · omega
    obtain ⟨hl, rfl, hh⟩ := hsizes
    have hcs : bytewidth 8 * height ≤ 255 := by
      rw [show bytewidth 8 = 1 from rfl]
      omega
    refine ⟨{ fontlen, charsize := bytewidth 8 * height, hastable := hasTab, ftoffset := 4,
              fontwidth := 8, fontheight := 0, utf8 := false }, fun rest => ?_, ?_⟩
    · simp only [writepsffontheader, hty, if_false, h.writtenCharsize_eq, hcs, if_true]
      exact readPsfHeader_psf1 hl hcs hseq rest
    · refine ⟨rfl, rfl, rfl, ?_, rfl, Or.inl rfl, ?_⟩
      · simp only [writepsffontheader, hty, if_false]
        rfl
      · simp [hty]

/-- The tests of the sizes pass when the bitmap is there, and nothing else when there is no
table. -/
theorem checkPsfHeader_eq {hd : PsfHeader} {hasTab utf8 : Bool} {ftoffset inputlth : Nat}
    (hfor : HeaderFor hd width height fontlen hasTab utf8 ftoffset)
    (hle : ftoffset + fontlen * (bytewidth width * height) ≤ inputlth)
    (hend : hasTab = false → ftoffset + fontlen * (bytewidth width * height) = inputlth) :
    checkPsfHeader hd inputlth = .ok height := by
  have hcs := h.charsize_pos
  have hbw := h.bytewidth_pos
  have hlen := h.fontlen_pos
  have hroom : fontlen ≤ (inputlth - ftoffset) / (bytewidth width * height) := by
    rw [Nat.le_div_iff_mul_le (by omega)]
    omega
  have hdiv : bytewidth width * height / bytewidth width = height :=
    Nat.mul_div_cancel_left height hbw
  have hmod : bytewidth width * height % bytewidth width = 0 := Nat.mul_mod_right _ _
  rw [checkPsfHeader, hfor.fontlen, hfor.charsize, hfor.ftoffset, hfor.fontwidth, hfor.hastable,
    hdiv, hmod]
  rw [if_neg (by omega), if_neg (by omega), if_neg (by omega), if_neg (by omega),
    if_neg (by rcases hfor.fontheight with h0 | h0 <;> rw [h0] <;> simp)]
  cases hasTab with
  | true => simp
  | false => simp [hend rfl]

/-- A file of a header, a bitmap and a table is read part by part. -/
theorem kfontReadPsffont_parts {hd : PsfHeader} {hasTab utf8 : Bool}
    {header fontbuf table : List UInt8} {heads : List UnicodeList} {fontpos0 : Nat}
    (hread : ∀ rest, readPsfHeader (header ++ rest) = .ok hd)
    (hfor : HeaderFor hd width height fontlen hasTab utf8 header.length)
    (hbuf : fontbuf.length = fontlen * (bytewidth width * height))
    (hpos : fontpos0 + fontlen ≤ uintMax) (hnone : hasTab = false → table = [])
    (hheads : readPsfTable hd table = .ok heads) (old : List UnicodeList) :
    kfontReadPsffont (header ++ fontbuf ++ table) fontpos0 (some old) =
      .ok ({ fontbuf, fontwidth := width, fontheight := height, fontlen },
        some (old.take fontpos0 ++ heads)) := by
  have hlen : (header ++ fontbuf ++ table).length =
      header.length + fontlen * (bytewidth width * height) + table.length := by
    simp only [List.length_append, hbuf]
  have hcheck : checkPsfHeader hd (header ++ fontbuf ++ table).length = .ok height := by
    refine h.checkPsfHeader_eq hfor (by omega) ?_
    intro htab
    rw [hlen, hnone htab]
    rfl
  have hbitmap : ((header ++ fontbuf ++ table).drop header.length).take
      (fontlen * (bytewidth width * height)) = fontbuf := by
    rw [List.append_assoc, List.drop_left, ← hbuf, List.take_left]
  have htable : (header ++ fontbuf ++ table).drop
      (header.length + fontlen * (bytewidth width * height)) = table := by
    rw [← hbuf, ← List.length_append, List.drop_left]
  have hread' : readPsfHeader (header ++ fontbuf ++ table) = .ok hd := by
    rw [List.append_assoc]
    exact hread _
  have hov : ¬ fontlen > uintMax - fontpos0 := by omega
  simp only [kfontReadPsffont, hread', hcheck, hfor.fontlen, hfor.charsize, hfor.ftoffset,
    hfor.fontwidth, hov, if_false, hbitmap, htable, hheads, bind, Except.bind, pure, Except.pure]

end SizesFit

/-! ## The round trip -/

/-- What is read of a written font: the same bitmap, and each glyph as `reread` has it. -/
theorem kfontReadPsffont_written {width height fontlen : Nat} {fontbuf : List UInt8} {psftype : Int}
    (uclistheads : Option (List UnicodeList)) (hfit : SizesFit width height fontlen)
    (hbuf : fontbuf.length = fontlen * height * ((width + 7) / 8))
    (hlen : ∀ t ∈ uclistheads, t.length = fontlen)
    (hrep : ∀ t ∈ uclistheads, ∀ ul ∈ t,
      GlyphRepresentable (headerType width height fontlen psftype = 2) ul)
    (old : List UnicodeList) :
    ∃ out, kfontWritePsffont fontbuf width height fontlen psftype uclistheads =
        .ok (out, decide (headerType width height fontlen psftype = 2)) ∧
      kfontReadPsffont out 0 (some old) =
        .ok ({ fontbuf, fontwidth := width, fontheight := height, fontlen },
          some ((uclistheads.map (List.map reread)).getD (List.replicate fontlen []))) := by
  have hbuf' : fontbuf.length = fontlen * (bytewidth width * height) := by
    rw [hbuf, bytewidth_eq, Nat.mul_assoc, Nat.mul_comm height]
  have hall : fontbuf.take (bytewidth width * height * fontlen) = fontbuf := by
    rw [Nat.mul_comm, ← hbuf', List.take_length]
  have hcs : ¬ (bytewidth width * height = 0 ∧ fontlen ≠ 0) := by
    have := hfit.charsize_pos
    omega
  have hseq : (uclistheads.map (hasSequences · fontlen)).getD false = true →
      uclistheads.isSome = true := by
    cases uclistheads <;> simp
  have hpos : 0 + fontlen ≤ uintMax := by
    have := hfit.fontlen_lt
    simp only [uintMax]
    omega
  obtain ⟨hd, hread, hfor⟩ := hfit.readPsfHeader_written psftype hseq
  have htable : ((uclistheads.getD []).take fontlen).mapM
      (writeUniEntry (headerType width height fontlen psftype = 2)) =
        .ok ((uclistheads.getD []).map
          (entryBytes (headerType width height fontlen psftype = 2))) := by
    cases uclistheads with
    | none => simp [pure, Except.pure]
    | some t =>
      rw [Option.getD_some, List.take_of_length_le (hlen t rfl).le]
      exact Checked.mapM_of_pure fun ul hul => writeUniEntry_eq (hrep t rfl ul hul)
  have hheads : readPsfTable hd ((uclistheads.getD []).map
      (entryBytes (headerType width height fontlen psftype = 2))).flatten =
        .ok ((uclistheads.map (List.map reread)).getD (List.replicate fontlen [])) := by
    rw [readPsfTable, hfor.hastable, hfor.fontlen, hfor.utf8]
    cases uclistheads with
    | none => rfl
    | some t =>
      have hentries := readUniTable_entryBytes (hrep t rfl) []
      rw [hlen t rfl, List.append_nil, List.flatMap_def] at hentries
      simp [hentries, bind, Except.bind, pure, Except.pure]
  have hnone : uclistheads.isSome = false → ((uclistheads.getD []).map
      (entryBytes (headerType width height fontlen psftype = 2))).flatten = [] := by
    cases uclistheads <;> simp
  refine ⟨_, ?_, hfit.kfontReadPsffont_parts hread hfor hbuf' hpos hnone hheads old⟩
  simp only [kfontWritePsffont, hfit.writtenCharsize_eq, hcs, if_false, hall, htable, bind,
    Except.bind, pure, Except.pure, writepsffontheader]

/-- A font is read back as it was written when its glyphs list single code points first. -/
theorem kfontReadPsffont_kfontWritePsffont {width height fontlen : Nat} {fontbuf : List UInt8}
    {psftype : Int} {uclistheads : Option (List UnicodeList)} (hfit : SizesFit width height fontlen)
    (hbuf : fontbuf.length = fontlen * height * ((width + 7) / 8))
    (hlen : ∀ t ∈ uclistheads, t.length = fontlen)
    (hrep : ∀ t ∈ uclistheads, ∀ ul ∈ t,
      GlyphRepresentable (headerType width height fontlen psftype = 2) ul)
    (hord : ∀ t ∈ uclistheads, ∀ ul ∈ t, (∀ us ∈ ul, us ≠ []) ∧ SinglesFirst ul)
    (old : List UnicodeList) :
    ∃ out, kfontWritePsffont fontbuf width height fontlen psftype uclistheads =
        .ok (out, decide (headerType width height fontlen psftype = 2)) ∧
      kfontReadPsffont out 0 (some old) =
        .ok ({ fontbuf, fontwidth := width, fontheight := height, fontlen },
          some (uclistheads.getD (List.replicate fontlen []))) := by
  obtain ⟨out, hwrite, hread⟩ := kfontReadPsffont_written uclistheads hfit hbuf hlen hrep old
  refine ⟨out, hwrite, ?_⟩
  rw [hread]
  cases uclistheads with
  | none => rfl
  | some t =>
    have hne : ∀ ul ∈ t, GlyphNonempty ul := fun ul hul us hus =>
      ⟨(hord t rfl ul hul).1 us hus, fun u hu => (hrep t rfl ul hul us hus u hu).1⟩
    have hmap : t.map reread = t := (map_reread_eq_iff hne).mpr fun ul hul => (hord t rfl ul hul).2
    simp [hmap]

/-- One glyph of height 1, with a code point and a letter with an accent. -/
theorem kfontReadPsffont_kfontWritePsffont_single :
    ∃ out, kfontWritePsffont [0x18] 8 1 1 1 (some [[[0x41], [0x42, 0x301]]]) = .ok (out, true) ∧
      kfontReadPsffont out 0 (some []) =
        .ok ({ fontbuf := [0x18], fontwidth := 8, fontheight := 1, fontlen := 1 },
          some [[[0x41], [0x42, 0x301]]]) :=
  kfontReadPsffont_kfontWritePsffont ⟨by decide, by decide, by decide, by decide, by decide⟩
    (by decide) (by simp) (by simp [GlyphRepresentable, Representable, headerType])
    (by simp [SinglesFirst]) []

/-! ## What the reader makes -/

theorem GlyphNonempty.addpair {up : UnicodeList} (h : GlyphNonempty up) {uc : Unicode}
    (huc : 0 ≤ uc) : GlyphNonempty (addpair up uc) := by
  intro us hus
  rcases List.mem_append.mp hus with hus | hus
  · exact h us hus
  · rw [List.mem_singleton.mp hus]
    exact ⟨by simp, by simpa using huc⟩

theorem GlyphNonempty.addseq {up : UnicodeList} (h : GlyphNonempty up) {uc : Unicode}
    (huc : 0 ≤ uc) : GlyphNonempty (addseq up uc) := by
  rcases List.eq_nil_or_concat up with rfl | ⟨l, vs, rfl⟩
  · exact h
  · rw [List.concat_eq_append, addseq_concat]
    intro us hus
    rcases List.mem_append.mp hus with hus | hus
    · exact h us (by simp [hus])
    · rw [List.mem_singleton.mp hus]
      have hvs := (h vs (by simp)).2
      refine ⟨by simp, ?_⟩
      intro u hu
      rcases List.mem_append.mp hu with hu | hu
      · exact hvs u hu
      · rw [List.mem_singleton.mp hu]
        exact huc

theorem getUniEntryFrom_nonempty {utf8 : Bool} {rounds : Nat} {up ul : UnicodeList} {inseq : Nat}
    {inp rest : List UInt8} (h : getUniEntryFrom utf8 rounds up inseq inp = .ok (ul, rest))
    (hup : GlyphNonempty up) : GlyphNonempty ul := by
  induction rounds generalizing up inseq inp with
  | zero => cases h
  | succ rounds ih =>
    simp only [getUniEntryFrom, bind, Except.bind] at h
    split at h
    · cases h
    · split at h
      · cases h
        exact hup
      · exact ih h hup
      · refine ih h ?_
        split
        · exact hup.addpair (Int.natCast_nonneg _)
        · exact hup.addseq (Int.natCast_nonneg _)

theorem readUniTable_nonempty {utf8 : Bool} {fontlen : Nat} {inp rest : List UInt8}
    {heads : List UnicodeList} (h : readUniTable utf8 fontlen inp = .ok (heads, rest)) :
    heads.length = fontlen ∧ ∀ ul ∈ heads, GlyphNonempty ul := by
  induction fontlen generalizing inp heads with
  | zero =>
    cases h
    exact ⟨rfl, by simp⟩
  | succ fontlen ih =>
    simp only [readUniTable, bind, Except.bind] at h
    split at h
    · cases h
    · rename_i hentry
      split at h
      · cases h
      · rename_i htable
        cases h
        obtain ⟨hlen, hall⟩ := ih htable
        refine ⟨by simp [hlen], ?_⟩
        rw [List.forall_mem_cons]
        exact ⟨getUniEntryFrom_nonempty hentry (by simp [GlyphNonempty, clearUniEntry]), hall⟩

/-- Everything that holds of a font that is read. -/
theorem kfontReadPsffont_cases {buf : List UInt8} {fontpos0 : Nat} {font : PsfFont}
    {old heads : Option (List UnicodeList)}
    (h : kfontReadPsffont buf fontpos0 old = .ok (font, heads)) :
    ∃ hd, readPsfHeader buf = .ok hd ∧ checkPsfHeader hd buf.length = .ok font.fontheight ∧
      font.fontbuf = (buf.drop hd.ftoffset).take (hd.fontlen * hd.charsize) ∧
      font.fontwidth = hd.fontwidth ∧ font.fontlen = hd.fontlen ∧
      (old = none ∧ heads = none ∨ ∃ o t, old = some o ∧ heads = some (o.take fontpos0 ++ t) ∧
        hd.fontlen ≤ uintMax - fontpos0 ∧
        readPsfTable hd (buf.drop (hd.ftoffset + hd.fontlen * hd.charsize)) = .ok t) := by
  simp only [kfontReadPsffont, bind, Except.bind] at h
  split at h
  · cases h
  rename_i hd hhd
  split at h
  · cases h
  rename_i height hheight
  refine ⟨hd, hhd, ?_⟩
  cases old with
  | none =>
    cases h
    exact ⟨hheight, rfl, rfl, rfl, Or.inl ⟨rfl, rfl⟩⟩
  | some o =>
    simp only at h
    split at h
    · cases h
    rename_i hpos
    split at h
    · cases h
    rename_i t ht
    cases h
    exact ⟨hheight, rfl, rfl, rfl, Or.inr ⟨o, t, rfl, rfl, by omega, ht⟩⟩

/-- The sizes of a font that is read: the bitmap lies in the file, and the glyphs are as large as the
header says. -/
theorem checkPsfHeader_cases {hd : PsfHeader} {inputlth height : Nat}
    (h : checkPsfHeader hd inputlth = .ok height) :
    1 ≤ hd.fontlen ∧ 1 ≤ hd.charsize ∧ hd.ftoffset + hd.fontlen * hd.charsize ≤ inputlth ∧
      hd.charsize = bytewidth hd.fontwidth * height := by
  rw [checkPsfHeader] at h
  split at h
  · cases h
  split at h
  · cases h
  rename_i hlen hcs
  split at h
  · cases h
  rename_i hroom
  split at h
  · cases h
  rename_i hbw
  split at h
  · cases h
  split at h
  · cases h
  cases h
  rw [not_or] at hroom hbw
  have hmul : hd.fontlen * hd.charsize ≤ inputlth - hd.ftoffset :=
    (Nat.le_div_iff_mul_le (by omega)).mp (Nat.not_lt.mp hroom.2)
  refine ⟨by omega, by omega, by omega, ?_⟩
  have hdvd : bytewidth hd.fontwidth ∣ hd.charsize := Nat.dvd_of_mod_eq_zero (not_not.mp hbw.2)
  exact (Nat.mul_div_cancel' hdvd).symm

theorem readPsfTable_nonempty {hd : PsfHeader} {table : List UInt8} {heads : List UnicodeList}
    (h : readPsfTable hd table = .ok heads) :
    heads.length = hd.fontlen ∧ ∀ ul ∈ heads, GlyphNonempty ul := by
  rw [readPsfTable] at h
  split at h
  · simp only [bind, Except.bind] at h
    split at h
    · cases h
    rename_i htable
    split at h
    · cases h
    · cases h
      exact readUniTable_nonempty htable
  · cases h
    refine ⟨List.length_replicate, ?_⟩
    intro ul hul
    rw [List.eq_of_mem_replicate hul]
    simp [GlyphNonempty, clearUniEntry]

/-- A font that is read has a description for each glyph, none of them with an empty list. -/
theorem kfontReadPsffont_nonempty {buf : List UInt8} {font : PsfFont} {t : List UnicodeList}
    (h : kfontReadPsffont buf 0 (some []) = .ok (font, some t)) :
    t.length = font.fontlen ∧ ∀ ul ∈ t, GlyphNonempty ul := by
  obtain ⟨hd, -, -, -, -, hlen, ⟨hnone, -⟩ | ⟨o, t', -, heq, -, ht⟩⟩ := kfontReadPsffont_cases h
  · cases hnone
  · cases heq
    rw [hlen]
    exact readPsfTable_nonempty ht

end Kbd.Font
