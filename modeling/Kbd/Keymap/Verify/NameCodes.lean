import Kbd.Keymap.Verify.CodeRange
import Kbd.Keymap.Verify.Compose
import Kbd.Lib.Consistent

/-!
# The codes that names stand for

The names of ASCII, of the actions and of all character sets are different names, but that several
character sets have the same characters: a name stands for one code (`code_unique`). Only `mu` stands
for two, the micro sign and the Greek letter. So what a search finds does not depend on the order of the
tables, and a name is looked up to the code that it was printed for.
-/

namespace Kbd.Keymap

open Kbd.Lib

/-! ## The names -/

/-- The names, with the codes that they stand for in the Unicode mode. -/
def nameCodes : List (String × Nat) :=
  (iso646Syms.take 128).zipIdx ++
    symsByType.zipIdx.tail.flatMap (fun p : List String × Nat =>
      p.1.zipIdx.map fun q : String × Nat => (q.1, p.2 * 256 + q.2)) ++
    charsets.flatMap fun cs : Cs => cs.charnames.map fun p : Sym => (p.name, p.uni ^^^ 0xf000)

def muKey : Nat := textKey (bytes "mu")

/-- Whether a name is a word without a prefix, and, if its key is that of `mu`, stands for one of the two
characters. -/
def wordChecked (s : List Char) (code : Nat) : Bool :=
  isName s && (dropLit "Meta_" s).isNone && (dropLit "dead2_" s).isNone &&
    (textKey s != muKey || strEq s "mu" && (code == 0xf0b5 || code == 0xf3bc))

/-- All names that are not empty, looked at once. -/
theorem nameCodes_checked :
    (consistentBy (· % 509) 9 ((nameCodes.map fun e => (textKey (bytes e.1), e.2)).filter fun e =>
        e.1 != 0 && e.1 != muKey) &&
      nameCodes.all fun e => e.1 = "" || wordChecked (bytes e.1) e.2) = true := by
  decide +kernel

theorem mem_nameCodes_latin {n : Nat} {name : String} (hn : n < 128)
    (h : iso646Syms[n]? = some name) : (name, n) ∈ nameCodes := by
  refine List.mem_append_left _ (List.mem_append_left _ ?_)
  rwa [List.mk_mem_zipIdx_iff_getElem?, List.getElem?_take_of_lt hn]

theorem mem_nameCodes_type {t v : Nat} {name : String} (ht : 0 < t)
    (h : (symsByType.getD t [])[v]? = some name) : (name, t * 256 + v) ∈ nameCodes := by
  refine List.mem_append_left _ (List.mem_append_right _ (List.mem_flatMap.mpr ?_))
  have hlt : t < symsByType.length := by
    by_contra hno
    rw [List.getD_eq_default _ _ (Nat.not_lt.mp hno)] at h
    cases h
  refine ⟨(symsByType.getD t [], t), ?_, List.mem_map.mpr ⟨(name, v), ?_, rfl⟩⟩
  · rw [List.tail_zipIdx, List.mem_iff_getElem?]
    refine ⟨t - 1, ?_⟩
    rw [List.getElem?_zipIdx, List.getElem?_tail, Nat.sub_add_cancel ht,
      List.getElem?_eq_getElem hlt, List.getD_eq_getElem _ _ hlt, Option.map_some]
    exact congrArg (fun k => some (_, k)) (by omega)
  · exact List.mk_mem_zipIdx_iff_getElem?.mpr h

theorem mem_nameCodes_char {cs : Cs} (hcs : cs ∈ charsets) {p : Sym} (hp : p ∈ cs.charnames) :
    (p.name, p.uni ^^^ 0xf000) ∈ nameCodes :=
  List.mem_append_right _ (List.mem_flatMap.mpr ⟨cs, hcs, List.mem_map.mpr ⟨p, hp, rfl⟩⟩)

/-- Where an entry comes from. -/
theorem of_mem_nameCodes {name : String} {code : Nat} (h : (name, code) ∈ nameCodes) :
    (code < 128 ∧ iso646Syms[code]? = some name) ∨
      (∃ t v, 0 < t ∧ (symsByType.getD t [])[v]? = some name ∧ code = t * 256 + v) ∨
      ∃ cs ∈ charsets, ∃ p ∈ cs.charnames, p.name = name ∧ p.uni ^^^ 0xf000 = code := by
  rcases List.mem_append.mp h with h | h
  · rcases List.mem_append.mp h with h | h
    · rw [List.mk_mem_zipIdx_iff_getElem?, List.getElem?_take] at h
      split at h
      · exact .inl ⟨‹_›, h⟩
      · cases h
    · obtain ⟨q, hq, h⟩ := List.mem_flatMap.mp h
      obtain ⟨r, hr, heq⟩ := List.mem_map.mp h
      obtain ⟨rfl, rfl⟩ := Prod.mk.inj heq
      rw [List.tail_zipIdx] at hq
      obtain ⟨hle, hget⟩ := List.mem_zipIdx_iff_le_and_getElem?_sub.mp hq
      rw [List.getElem?_tail, Nat.sub_add_cancel hle] at hget
      refine .inr (.inl ⟨q.2, r.2, hle, ?_, rfl⟩)
      rw [List.getD_eq_getElem?_getD, hget, Option.getD_some, ← List.mk_mem_zipIdx_iff_getElem?]
      exact hr
  · obtain ⟨cs, hcs, h⟩ := List.mem_flatMap.mp h
    obtain ⟨p, hp, heq⟩ := List.mem_map.mp h
    obtain ⟨hname, hcode⟩ := Prod.mk.inj heq
    exact .inr (.inr ⟨cs, hcs, p, hp, hname, hcode⟩)

theorem le_textKey (s : List Char) (n : Nat) : n ≤ s.foldl (fun n c => n * 256 + c.toNat) n := by
  induction s generalizing n with
  | nil => exact Nat.le_refl n
  | cons c s ih => exact Nat.le_trans (show n ≤ n * 256 + c.toNat by omega) (ih _)

theorem textKey_ne_zero {s : List Char} (h : isName s = true) : textKey s ≠ 0 := by
  obtain ⟨c, t, rfl, hw⟩ := nameWord_of_isName h
  have hletter := hw.letter
  have hle := le_textKey t (0 * 256 + c.toNat)
  have hc : c.toNat ≠ 0 := by
    intro h0
    obtain rfl : c = Char.ofNat 0 := by rw [← h0, Char.ofNat_toNat]
    cases hletter
  rw [textKey, List.foldl_cons]
  omega

theorem strEq_iff {s : List Char} {lit : String} : strEq s lit = true ↔ s = bytes lit :=
  decide_eq_true_iff.trans eq_comm

/-- What `nameCodes_checked` says of a name. -/
structure NameCode (name : String) (code : Nat) : Prop where
  mem : (name, code) ∈ nameCodes
  isName : isName (bytes name) = true
  noMeta : dropLit "Meta_" (bytes name) = none
  noDead2 : dropLit "dead2_" (bytes name) = none
  mu : textKey (bytes name) = muKey → bytes name = bytes "mu" ∧ (code = 0xf0b5 ∨ code = 0xf3bc)

theorem nameCode_of_mem {name : String} {code : Nat} (h : (name, code) ∈ nameCodes)
    (hne : name ≠ "") : NameCode name code := by
  have hall := (Bool.and_eq_true_iff.mp nameCodes_checked).2
  have hword := List.all_eq_true.mp hall _ h
  simp only [hne, decide_false, Bool.false_or, wordChecked, Bool.and_eq_true, Bool.or_eq_true,
    Option.isNone_iff_eq_none, bne_iff_ne, beq_iff_eq, strEq_iff] at hword
  obtain ⟨⟨⟨hname, hmeta⟩, hdead⟩, hmu⟩ := hword
  exact ⟨h, hname, hmeta, hdead, fun hkey => hmu.resolve_left (absurd hkey)⟩

theorem NameCode.ne_mu {name : String} {code : Nat} (h : NameCode name code) (hmicro : code ≠ 0xf0b5)
    (hgreek : code ≠ 0xf3bc) : bytes name ≠ bytes "mu" := fun heq =>
  (h.mu (congrArg textKey heq)).2.elim hmicro hgreek

/-- A name stands for one code. -/
theorem NameCode.unique {s t : String} {m n : Nat} (hs : NameCode s m) (ht : NameCode t n)
    (heq : bytes s = bytes t) (hmu : bytes s ≠ bytes "mu") : m = n := by
  have hconsistent := consistent_of_consistentBy (Bool.and_eq_true_iff.mp nameCodes_checked).1
  have hmem {name : String} {code : Nat} (h : NameCode name code) (hmu : bytes name ≠ bytes "mu") :
      (textKey (bytes name), code) ∈ (nameCodes.map fun e => (textKey (bytes e.1), e.2)).filter
        fun e => e.1 != 0 && e.1 != muKey := by
    refine List.mem_filter.mpr ⟨List.mem_map.mpr ⟨_, h.mem, rfl⟩, ?_⟩
    rw [Bool.and_eq_true, bne_iff_ne, bne_iff_ne]
    exact ⟨textKey_ne_zero h.isName, fun hkey => hmu (h.mu hkey).1⟩
  exact hconsistent _ (hmem hs hmu) _ (hmem ht (heq ▸ hmu)) (congrArg textKey heq)

/-! ## Searches in the Unicode mode -/

theorem min_length_latin : min 128 iso646Syms.length = 128 := by decide +kernel

section Unique

variable {name : String} {code : Nat} (h : NameCode name code) (hmu : bytes name ≠ bytes "mu")

include h

theorem NameCode.ne_empty : name ≠ "" := by
  rintro rfl
  exact absurd h.isName (by decide)

include hmu

omit hmu in
/-- The place where a search for the name ends has an entry with this name. -/
theorem NameCode.ne_of_strEq {name' : String} (heq : strEq (bytes name) name' = true) :
    name' ≠ "" := by
  rintro rfl
  exact isName_ne_nil h.isName (strEq_iff.mp heq)

/-- Where the name is found among the codes of ASCII. -/
theorem NameCode.findIdx_latin {i : Nat}
    (hi : (iso646Syms.take 128).findIdx? (strEq (bytes name)) = some i) : i = code := by
  obtain ⟨hlt, heq, -⟩ := List.findIdx?_eq_some_iff_getElem.mp hi
  have hget : iso646Syms[i]? = some (iso646Syms.take 128)[i] := by
    rw [List.getElem_take, List.getElem?_eq_getElem]
  have hi128 : i < 128 := Nat.lt_of_lt_of_le hlt (List.length_take_le 128 _)
  have hentry := nameCode_of_mem (mem_nameCodes_latin hi128 hget) (h.ne_of_strEq heq)
  exact (h.unique hentry (strEq_iff.mp heq) hmu).symm

/-- Where the name is found among the actions. -/
theorem NameCode.typeSearch {c : Int} (hc : Keymap.typeSearch (bytes name) = some c) :
    c = code := by
  obtain ⟨t, ht, hc⟩ := List.exists_of_findSome?_eq_some hc
  obtain ⟨w, hw, rfl⟩ := Option.map_eq_some_iff.mp hc
  obtain ⟨v, hv, hw⟩ := Option.bind_eq_some_iff.mp hw
  obtain rfl := Option.some.inj hw
  obtain ⟨hlt, heq, -⟩ := List.findIdx?_eq_some_iff_getElem.mp hv
  have hmem := mem_nameCodes_type (List.mem_range'_1.mp ht).1 (List.getElem?_eq_getElem hlt)
  rw [h.unique (nameCode_of_mem hmem (h.ne_of_strEq heq)) (strEq_iff.mp heq) hmu]
  simp [K]

/-- Where the name is found among the characters. -/
theorem NameCode.getCharsetUni {cs : Cs} (hcs : cs ∈ charsets)
    (huni : 0 < Keymap.getCharsetUni cs (bytes name)) :
    U (Keymap.getCharsetUni cs (bytes name)) = code := by
  unfold Keymap.getCharsetUni at huni ⊢
  cases hf : cs.charnames.find? fun p => p.name ≠ "" && strEq (bytes name) p.name with
  | none =>
    rw [hf] at huni
    cases huni
  | some p =>
    have hp := List.find?_some hf
    simp only [Bool.and_eq_true, decide_eq_true_eq] at hp
    have hentry := nameCode_of_mem (mem_nameCodes_char hcs (List.mem_of_find?_eq_some hf)) hp.1
    rw [h.unique hentry (strEq_iff.mp hp.2) hmu]
    exact U_natCast p.uni

theorem NameCode.unicodeSearch {ctx : LkCtx} (hctx : ctx.charset < charsets.length) {c : Int}
    (hc : Keymap.unicodeSearch ctx (bytes name) = some c) : c = code := by
  have hcurrent : currentCharset ctx ∈ charsets := by
    rw [currentCharset, List.getD_eq_getElem _ _ hctx]
    exact List.getElem_mem hctx
  obtain ⟨cs, hcs, hc⟩ := List.exists_of_findSome?_eq_some hc
  simp only at hc
  split at hc
  · rename_i huni
    rw [← Option.some.inj hc]
    rcases List.mem_cons.mp hcs with rfl | hcs
    · exact h.getCharsetUni hmu hcurrent huni
    · exact h.getCharsetUni hmu (List.mem_of_mem_eraseIdx hcs) huni
  · cases hc

theorem NameCode.ownCode {ctx : LkCtx} {depth : Nat} :
    ∀ v ∈ Keymap.ownCode ctx depth (bytes name) .toUnicode, v = code := by
  unfold Keymap.ownCode
  simp only [h.noMeta, h.noDead2, Option.bind_none, Option.none_or]
  refine forall_mem_or (fun v hv => ?_) fun v hv => h.typeSearch hmu hv
  simp only [ktLatinSearch, ↓reduceIte, Option.none_or, min_length_latin] at hv
  obtain ⟨w, hw, rfl⟩ := Option.map_eq_some_iff.mp hv
  obtain ⟨i, hi, hw⟩ := Option.bind_eq_some_iff.mp hw
  obtain rfl := Option.some.inj hw
  rw [h.findIdx_latin hmu hi]
  simp [K, ktLatin]

end Unique

/-- The name of an action is found. -/
theorem typeSearch_isSome {t v : Nat} {name : String} (ht : 0 < t)
    (h : (symsByType.getD t [])[v]? = some name) : (typeSearch (bytes name)).isSome = true := by
  have hlt : t < symsByType.length := by
    by_contra hno
    rw [List.getD_eq_default _ _ (Nat.not_lt.mp hno)] at h
    cases h
  have hfound : ((symsByType.getD t []).findIdx? (strEq (bytes name))).isSome = true :=
    List.findIdx?_isSome.trans
      (List.any_eq_true.mpr ⟨name, List.mem_of_getElem? h, strEq_iff.mpr rfl⟩)
  obtain ⟨i, hi⟩ := Option.isSome_iff_exists.mp hfound
  rw [typeSearch, List.findSome?_isSome_iff]
  refine ⟨t, List.mem_range'_1.mpr ⟨ht, ?_⟩, ?_⟩
  · omega
  · rw [hi]
    rfl

/-- The name of a character of ASCII is found. -/
theorem findIdx_latin_isSome {n : Nat} {name : String} (hn : n < 128)
    (h : iso646Syms[n]? = some name) :
    ((iso646Syms.take 128).findIdx? (strEq (bytes name))).isSome = true := by
  have hmem : name ∈ iso646Syms.take 128 :=
    List.mem_iff_getElem?.mpr ⟨n, (List.getElem?_take_of_lt hn).trans h⟩
  exact List.findIdx?_isSome.trans (List.any_eq_true.mpr ⟨name, hmem, strEq_iff.mpr rfl⟩)

section Unique

variable {name : String} {code : Nat} (h : NameCode name code) (hmu : bytes name ≠ bytes "mu")

include h hmu

omit hmu in
/-- A name that is not found before the synonyms is the name of a character. -/
theorem NameCode.ownCode_isSome (ctx : LkCtx) (depth : Nat) :
    (Keymap.ownCode ctx depth (bytes name) .toUnicode).isSome = true ∨
      ∃ cs ∈ charsets, ∃ p ∈ cs.charnames, p.name = name := by
  unfold Keymap.ownCode
  rw [Option.isSome_or, Option.isSome_or, Bool.or_assoc, Bool.or_eq_true, Bool.or_eq_true]
  rcases of_mem_nameCodes h.mem with ⟨hn, hget⟩ | ⟨t, v, ht, hget, -⟩ | ⟨cs, hcs, p, hp, hname, -⟩
  · obtain ⟨i, hi⟩ := Option.isSome_iff_exists.mp (findIdx_latin_isSome hn hget)
    refine .inl (.inr (.inl ?_))
    simp only [ktLatinSearch, ↓reduceIte, Option.none_or, min_length_latin, hi]
    rfl
  · exact .inl (.inr (.inr (typeSearch_isSome ht hget)))
  · exact .inr ⟨cs, hcs, p, hp, hname⟩

/-- The name of a character stands for its code, if its official name does so. -/
theorem NameCode.ksymtocodeRec_succ {ctx : LkCtx} (hctx : ctx.charset < charsets.length)
    {d : Direction} (hd : d.resolve ctx = .toUnicode) {depth : Nat}
    (hsyn : (∃ cs ∈ charsets, ∃ p ∈ cs.charnames, p.name = name) →
      ∀ q ∈ synonyms, strEq (bytes name) q.1 = true →
        ksymtocodeRec ctx depth (bytes q.2) .toUnicode = code) :
    ksymtocodeRec ctx (depth + 1) (bytes name) d = code := by
  rw [Keymap.ksymtocodeRec_succ, hd]
  rcases h.ownCode_isSome ctx depth with hsome | hchar
  · obtain ⟨v, hv⟩ := Option.isSome_iff_exists.mp hsome
    rw [hv, Option.some_or, Option.getD_some]
    exact h.ownCode hmu v hv
  · refine forall_getD (P := fun v => v = (code : Int)) ?_ fun _ => ?_
    · refine forall_mem_or (h.ownCode hmu) (forall_mem_map fun q hq => ?_)
      have heq : strEq (bytes name) q.1 = true :=
        List.find?_some (p := fun r : String × String => strEq (bytes name) r.1) hq
      exact hsyn hchar q (List.mem_of_find?_eq_some hq) heq
    · obtain ⟨cs, hcs, p, hp, rfl⟩ := hchar
      obtain ⟨v, hv⟩ := Option.isSome_iff_exists.mp
        (unicodeSearch_isSome (isCharname_of_mem hcs hp h.ne_empty) ctx)
      change (Keymap.unicodeSearch ctx (bytes p.name)).getD codeForUnknownKsym = code
      rw [hv]
      exact h.unicodeSearch hmu hctx hv

/-- In the Unicode mode a name stands for its code. -/
theorem NameCode.ksymtocode {ctx : LkCtx} (hctx : ctx.charset < charsets.length) {d : Direction}
    (hd : d.resolve ctx = .toUnicode) : Keymap.ksymtocode ctx (bytes name) d = code := by
  refine h.ksymtocodeRec_succ hmu hctx hd fun hchar q hq heq => ?_
  obtain ⟨cs, hcs, p, hp, rfl⟩ := hchar
  -- the one synonym has the code of its official name
  obtain rfl := synonym_of_mem_charset hcs hp h.ne_empty hq heq
  have hmultiplication : NameCode "multiplication" 0xf0d7 :=
    nameCode_of_mem (mem_nameCodes_char (p := ⟨0xd7, "multiplication"⟩)
      (List.mem_iff_getElem?.mpr ⟨16, rfl⟩) (List.mem_iff_getElem?.mpr ⟨55, rfl⟩)) (by decide)
  have hmultiply : NameCode "multiply" 0xf0d7 :=
    nameCode_of_mem (mem_nameCodes_char (p := ⟨0xd7, "multiply"⟩)
      (List.mem_iff_getElem?.mpr ⟨0, rfl⟩) (List.mem_iff_getElem?.mpr ⟨55, rfl⟩)) (by decide)
  have hnone : (synonyms.all fun q => !strEq (bytes "multiply") q.1) = true := by decide +kernel
  rw [h.unique hmultiplication (strEq_iff.mp heq) hmu]
  refine hmultiply.ksymtocodeRec_succ (by decide) hctx rfl fun _ q hq heq => ?_
  have hnot := List.all_eq_true.mp hnone q hq
  rw [heq] at hnot
  cases hnot

end Unique

/-! ## Traditional codes -/

/-- The first character set. -/
def latin1 : Cs := ⟨"iso-8859-1", latin1Syms, 160⟩

theorem latin1_mem : latin1 ∈ charsets := List.mem_cons_self

/-- The second half of the table of ASCII has the names of the first character set. -/
theorem drop_iso646Syms :
    iso646Syms.drop 128 = List.replicate 32 "" ++ latin1Syms.map Sym.name := by decide +kernel

section Traditional

variable {name : String} {code : Nat} (h : NameCode name code) (hlow : code < 0x1000)

include h hlow

/-- No character set has a name with a traditional code. -/
theorem NameCode.indexOf {cs : Cs} (hcs : cs ∈ charsets) : cs.indexOf (bytes name) = none := by
  rw [Cs.indexOf, List.findIdx?_eq_none_iff]
  intro p hp
  by_contra hfound
  rw [Bool.not_eq_false, Bool.and_eq_true, decide_eq_true_eq, strEq_iff] at hfound
  have hchar := nameCode_of_mem (mem_nameCodes_char hcs hp) hfound.1
  have hmu := h.ne_mu (by omega) (by omega)
  have hle := (le_U (((checked_of_mem hcs).unicode p hp).resolve_right hfound.1)).1
  rw [U_natCast, ← h.unique hchar hfound.2 hmu] at hle
  omega

theorem NameCode.currentCharset (ctx : LkCtx) :
    (currentCharset ctx).indexOf (bytes name) = none := by
  unfold Keymap.currentCharset
  rw [List.getD_eq_getElem?_getD]
  cases hcs : charsets[ctx.charset]? with
  | none => rfl
  | some cs => exact h.indexOf hlow (List.mem_of_getElem? hcs)

theorem NameCode.findIdx_high : (iso646Syms.drop 128).findIdx? (strEq (bytes name)) = none := by
  have hnone := h.indexOf hlow latin1_mem
  rw [Cs.indexOf, List.findIdx?_eq_none_iff] at hnone
  rw [drop_iso646Syms, List.findIdx?_eq_none_iff]
  intro x hx
  by_contra hfound
  rw [Bool.not_eq_false] at hfound
  have hne := h.ne_of_strEq hfound
  rcases List.mem_append.mp hx with hx | hx
  · exact hne (List.eq_of_mem_replicate hx)
  · obtain ⟨p, hp, rfl⟩ := List.mem_map.mp hx
    have hnot := hnone p hp
    rw [hfound, decide_eq_true hne] at hnot
    cases hnot

end Traditional

/-- In each character set and in both directions, the name of an action stands for it. -/
theorem ksymtocode_of_type (ctx : LkCtx) {t v : Nat} {name : String} (ht : 0 < t)
    (hlow : t * 256 + v < 0x1000) (h : (symsByType.getD t [])[v]? = some name) (hne : name ≠ "")
    (d : Direction) : ksymtocode ctx (bytes name) d = K t v := by
  have hcode := nameCode_of_mem (mem_nameCodes_type ht h) hne
  have hmu := hcode.ne_mu (by omega) (by omega)
  have hK : (K t v : Int) = (t * 256 + v : Nat) := by simp [K]
  have hascii : (iso646Syms.take 128).findIdx? (strEq (bytes name)) = none := by
    cases hfind : (iso646Syms.take 128).findIdx? (strEq (bytes name)) with
    | none => rfl
    | some i =>
      have := hcode.findIdx_latin hmu hfind
      have := (List.findIdx?_eq_some_iff_getElem.mp hfind).1
      rw [List.length_take] at this
      omega
  have htype : typeSearch (bytes name) = some (K t v) := by
    obtain ⟨c, hc⟩ := Option.isSome_iff_exists.mp (typeSearch_isSome ht h)
    rw [hc, hcode.typeSearch hmu hc, hK]
  refine ksymtocode_of_isNoCharacter ctx ?_ ?_ d
  · simp [isAction, hcode.noMeta, hcode.noDead2, hascii, htype]
  · rw [isNoCharacter, ← List.take_append_drop 128 iso646Syms, List.findIdx?_append, hascii,
      hcode.findIdx_high hlow, Bool.and_eq_true]
    refine ⟨rfl, List.all_eq_true.mpr fun cs hcs => ?_⟩
    rw [hcode.indexOf hlow hcs]
    rfl

/-- In each character set and in both directions, the name of a character of ASCII stands for it. -/
theorem ksymtocodeRec_of_ascii (ctx : LkCtx) {n : Nat} {name : String} (hn : n < 128)
    (h : iso646Syms[n]? = some name) (hne : name ≠ "") (depth : Nat) (d : Direction) :
    ksymtocodeRec ctx (depth + 1) (bytes name) d = n := by
  have hcode := nameCode_of_mem (mem_nameCodes_latin hn h) hne
  have hmu := hcode.ne_mu (by omega) (by omega)
  have hfind : (iso646Syms.take 128).findIdx? (strEq (bytes name)) = some n := by
    obtain ⟨i, hi⟩ := Option.isSome_iff_exists.mp (findIdx_latin_isSome hn h)
    rw [hi, hcode.findIdx_latin hmu hi]
  have hfull : (iso646Syms.take iso646Syms.length).findIdx? (strEq (bytes name)) = some n := by
    rw [List.take_length, ← List.take_append_drop 128 iso646Syms, List.findIdx?_append, hfind,
      Option.some_or]
  have hsearch (d : Direction) : ktLatinSearch ctx (bytes name) d = some (n : Int) := by
    simp only [ktLatinSearch, hcode.currentCharset (by omega) ctx, min_length_latin]
    split
    · rw [hfind]
      simp [K, ktLatin]
    · rw [hfull]
      simp [K, ktLatin]
  rw [ksymtocodeRec_succ, ownCode, hcode.noMeta, hcode.noDead2]
  simp only [Option.bind_none, Option.none_or, hsearch, Option.some_or, Option.getD_some]

/-- The characters of ASCII have names. -/
theorem exists_ascii {n : Nat} (hn : n < 128) : ∃ name, iso646Syms[n]? = some name ∧ name ≠ "" := by
  have hall : ∀ n < 128, (iso646Syms[n]?.any fun name => decide (name ≠ "")) = true := by
    decide +kernel
  obtain ⟨name, hname, hne⟩ := (Option.any_eq_true _ _).mp (hall n hn)
  exact ⟨name, hname, of_decide_eq_true hne⟩

/-- The character `v` of the first character set. -/
structure LatinName (v : Nat) (name : String) : Prop where
  sym : latin1Syms[v - 160]? = some ⟨v, name⟩
  ne : name ≠ ""
  index : latin1.indexOf (bytes name) = some (v - 160)

theorem exists_latinName {v : Nat} (h : 0xa0 ≤ v ∧ v < 0x100) : ∃ name, LatinName v name := by
  have hall : ∀ i < 96, (latin1Syms[i]?.any fun p => decide (p.uni = 160 + i) &&
      decide (p.name ≠ "") && decide (latin1.indexOf (bytes p.name) = some i)) = true := by
    decide +kernel
  obtain ⟨p, hp, hchecked⟩ := (Option.any_eq_true _ _).mp (hall (v - 160) (by omega))
  simp only [Bool.and_eq_true, decide_eq_true_eq] at hchecked
  obtain ⟨⟨huni, hne⟩, hindex⟩ := hchecked
  rw [Nat.add_sub_cancel' h.1] at huni
  exact ⟨p.name, by rw [hp, ← huni], hne, hindex⟩

section Latin1

variable {ctx : LkCtx} (hcharset : ctx.charset = 0) {v : Nat} {name : String}
  (h : LatinName v name)

include hcharset

theorem currentCharset_eq : currentCharset ctx = latin1 := by
  rw [currentCharset, hcharset]
  rfl

/-- The name with two codes stands for the character of the current character set. -/
theorem ksymtocode_mu {d : Direction} (hd : d.resolve ctx = .toUnicode) :
    ksymtocode ctx (bytes "mu") d = U 0xb5 := by
  have hmeta : dropLit "Meta_" (bytes "mu") = none := by decide
  have hdead : dropLit "dead2_" (bytes "mu") = none := by decide
  have hascii : (iso646Syms.take 128).findIdx? (strEq (bytes "mu")) = none := by decide +kernel
  have htype : typeSearch (bytes "mu") = none := by decide +kernel
  have hsyn : synonyms.find? (fun p => strEq (bytes "mu") p.1) = none := by decide +kernel
  have huni : getCharsetUni latin1 (bytes "mu") = 0xb5 := by decide +kernel
  have hlatin : ktLatinSearch ctx (bytes "mu") .toUnicode = none := by
    simp only [ktLatinSearch, ↓reduceIte, Option.none_or, min_length_latin, hascii]
    rfl
  have hsearch : unicodeSearch ctx (bytes "mu") = some (U 0xb5) := by
    rw [unicodeSearch, currentCharset_eq hcharset, List.findSome?_cons]
    simp only [huni]
    rfl
  rw [ksymtocode, ksymtocodeRec_succ, hd, ownCode, hmeta, hdead, hlatin, htype, hsyn]
  change (unicodeSearch ctx (bytes "mu")).getD codeForUnknownKsym = _
  rw [hsearch, Option.getD_some]

include h

theorem LatinName.nameAt (hv : 160 ≤ v) : (currentCharset ctx).nameAt v = some name := by
  have hlt : ¬ v < latin1.start := Nat.not_lt.mpr hv
  rw [currentCharset_eq hcharset, Cs.nameAt, if_neg hlt]
  change (latin1Syms[v - 160]?).bind _ = _
  rw [h.sym, Option.bind_some, if_pos h.ne]

omit hcharset in
theorem LatinName.nameCode : NameCode name (v ^^^ 0xf000) :=
  nameCode_of_mem (mem_nameCodes_char latin1_mem
    (List.mem_of_getElem? h.sym)) h.ne

/-- Without Unicode the name of a character stands for its position. -/
theorem LatinName.ksymtocodeRec_8bit (hv : 160 ≤ v) {d : Direction} (hd : d.resolve ctx = .to8bit)
    (depth : Nat) : ksymtocodeRec ctx (depth + 1) (bytes name) d = v := by
  have hnot : ¬ Direction.to8bit = Direction.toUnicode := by decide
  have hsearch : ktLatinSearch ctx (bytes name) .to8bit = some (v : Int) := by
    have hstart : latin1.start = 160 := rfl
    simp only [ktLatinSearch, currentCharset_eq hcharset, h.index, if_neg hnot, Option.map_some,
      Option.some_or, hstart, Nat.add_sub_cancel' hv]
    change some (K ktLatin v) = _
    rw [K, ktLatin, Int.zero_mul, Int.zero_add]
  have hcode := h.nameCode
  rw [ksymtocodeRec_succ, hd, ownCode, hcode.noMeta, hcode.noDead2]
  simp only [Option.bind_none, Option.none_or, hsearch, Option.some_or, Option.getD_some]

theorem LatinName.ksymtocode_8bit (hv : 160 ≤ v) {d : Direction} (hd : d.resolve ctx = .to8bit) :
    ksymtocode ctx (bytes name) d = v :=
  h.ksymtocodeRec_8bit hcharset hv hd _

/-- In the Unicode mode it stands for its code point. -/
theorem LatinName.ksymtocode_unicode {d : Direction}
    (hd : d.resolve ctx = .toUnicode) : ksymtocode ctx (bytes name) d = U v := by
  have hcode := h.nameCode
  by_cases hmu : bytes name = bytes "mu"
  · have hv : v = 0xb5 := by
      have hindex := h.index
      rw [hmu] at hindex
      have h21 : latin1.indexOf (bytes "mu") = some 21 := by decide +kernel
      have := Option.some.inj (h21.symm.trans hindex)
      omega
    rw [hmu, hv]
    exact ksymtocode_mu hcharset hd
  · exact hcode.ksymtocode hmu (hcharset ▸ by decide) hd

end Latin1

end Kbd.Keymap
