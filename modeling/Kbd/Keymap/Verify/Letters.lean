import Kbd.Keymap.Verify.Names

/-!
# Letters that are read back

Every letter of ASCII is read back from what is printed for it, by its number and by its name, in each
character set: their own names are longer than a letter.
-/

namespace Kbd.Keymap

open Kbd.Lib

/-- What is printed and looked up for a letter. -/
def letterChecked (n : Nat) : Bool :=
  match getSym ktLatin n with
  | none => false
  | some name =>
    isName (bytes name) && decide ((bytes name).length = 1) &&
      (dropLit "Meta_" (bytes name)).isNone && (dropLit "dead2_" (bytes name)).isNone &&
      [128, iso646Syms.length].all fun max =>
        (iso646Syms.take max).findIdx? (strEq (bytes name)) = some n

/-- What `letterChecked` says of the name of a letter. -/
structure LetterName (n : Nat) (name : String) : Prop where
  sym : getSym ktLatin n = some name
  isName : isName (bytes name) = true
  length : (bytes name).length = 1
  noMeta : dropLit "Meta_" (bytes name) = none
  noDead2 : dropLit "dead2_" (bytes name) = none
  ascii : (iso646Syms.take 128).findIdx? (strEq (bytes name)) = some n
  latin : (iso646Syms.take iso646Syms.length).findIdx? (strEq (bytes name)) = some n

theorem lt_of_isAsciiLetter {n : Nat} (h : isAsciiLetter n = true) : n < 123 := by
  simp only [isAsciiLetter, Bool.or_eq_true, Bool.and_eq_true, decide_eq_true_eq] at h
  omega

theorem exists_letterName {n : Nat} (h : isAsciiLetter n = true) : ∃ name, LetterName n name := by
  have hall : ∀ n < 123, isAsciiLetter (n : Nat) = true → letterChecked n = true := by
    decide +kernel
  have hn := hall n (lt_of_isAsciiLetter h) h
  unfold letterChecked at hn
  split at hn
  · cases hn
  · rename_i name hsym
    simp only [Bool.and_eq_true, decide_eq_true_eq, Option.isNone_iff_eq_none, List.all_cons,
      List.all_nil, and_true] at hn
    obtain ⟨⟨⟨⟨hname, hlength⟩, hmeta⟩, hdead⟩, h128, hmax⟩ := hn
    exact ⟨name, hsym, hname, hlength, hmeta, hdead, h128, hmax⟩

/-- No name of a character set is a single letter. -/
theorem length_of_mem_charset {cs : Cs} (hcs : cs ∈ charsets) {p : Sym} (hp : p ∈ cs.charnames) :
    (bytes p.name).length ≠ 1 := by
  have hall : (charsets.all fun cs => cs.charnames.all fun p =>
      (bytes p.name).length != 1) = true := by decide +kernel
  exact bne_iff_ne.mp (List.all_eq_true.mp (List.all_eq_true.mp hall cs hcs) p hp)

theorem indexOf_of_length {cs : Cs} (hcs : cs ∈ charsets) {s : List Char} (h : s.length = 1) :
    cs.indexOf s = none := by
  rw [Cs.indexOf, List.findIdx?_eq_none_iff]
  intro p hp
  have hne : bytes p.name ≠ s := by
    rintro rfl
    exact length_of_mem_charset hcs hp h
  simp [strEq, hne]

/-- The name of a letter means the letter. -/
theorem ksymtocode_letter (ctx : LkCtx) {n : Nat} {name : String} (h : LetterName n name)
    (d : Direction) : ksymtocode ctx (bytes name) d = K ktLatin n := by
  have hhere : (currentCharset ctx).indexOf (bytes name) = none := by
    unfold currentCharset
    rw [List.getD_eq_getElem?_getD]
    cases hcs : charsets[ctx.charset]? with
    | none => rfl
    | some cs => exact indexOf_of_length (List.mem_of_getElem? hcs) h.length
  have hmax : min 128 iso646Syms.length = 128 := by decide +kernel
  have hsearch : ktLatinSearch ctx (bytes name) (d.resolve ctx) = some (K ktLatin n) := by
    simp only [ktLatinSearch, hhere, hmax]
    split
    · rw [h.ascii]
      rfl
    · rw [h.latin]
      rfl
  rw [ksymtocode, ksymtocodeRec]
  simp only [h.noMeta, h.noDead2, hsearch, Option.bind_none, Option.none_or, Option.some_or,
    Option.getD_some]

/-- A letter is read back. -/
theorem readsBack_letter (ctx : LkCtx) (style : PrintStyle) {n : Nat} (h : isAsciiLetter n = true) :
    ReadsBack ctx style (K ktLatin n) := by
  have hlt := lt_of_isAsciiLetter h
  have hK : K ktLatin n = n := by simp [K, ktLatin]
  have htyp : ktyp (n : Int) = ktLatin := by
    simp only [ktyp, ktLatin]
    omega
  have hval : kval (n : Int) = n := by
    simp only [kval]
    omega
  rw [hK]
  cases hnumeric : style.numeric with
  | true =>
    have hmunch : ∀ n < 123, isAsciiLetter (n : Nat) = true → munch (rules .rvalue)
        (bytes "0x" ++ fmt04X n ++ List.replicate 10 ' ') = some (.number, 6) ∧
        wordToken (lkInit {} 0) (bytes "0x" ++ fmt04X n) .number = .number n ∧
        (bytes "0x" ++ fmt04X n).length = 6 := by decide +kernel
    obtain ⟨hm, htok, hlen⟩ := hmunch n hlt h
    have htext : printKeysym ctx style n =
        ' ' :: (bytes "0x" ++ fmt04X n ++ List.replicate 10 ' ') := by
      rw [printKeysym, htyp, if_neg (by decide), if_neg (by decide), keysymText,
        toUnsigned_natCast (by omega), if_pos hnumeric]
      simp only [Bool.false_eq_true, ↓reduceIte, List.append_assoc]
      rfl
    have hlex : lexValue ctx (13 + 4) (' ' :: (bytes "0x" ++ fmt04X n ++ List.replicate 10 ' ')) =
        [.number n] := by
      have htok' : wordToken ctx (bytes "0x" ++ fmt04X n) .number = .number n := htok
      rw [← htok']
      have hblank : NoBlank (bytes "0x" ++ fmt04X n) :=
        show NoBlank ('0' :: 'x' :: fmt04X n) from noBlank_cons.mpr (by decide)
      have hne : bytes "0x" ++ fmt04X n ≠ [] := by
        intro hnil
        rw [hnil] at hlen
        cases hlen
      apply lexValue_word ctx hne hblank (blanks_replicate 10) (by simp)
      · decide
      · rw [hlen]
        exact hm
    have hconv : convertCode ctx n .toAuto = n := by
      have hsmall : ¬ (n : Int) ≥ 0x1000 := by omega
      have hascii : (n : Int) < 0x80 := by omega
      have hmeta : ¬ ktLatin = ktMeta := by decide
      simp [convertCode, htyp, hmeta, hsmall, hascii]
    have hsize : (' ' :: (bytes "0x" ++ fmt04X n ++ List.replicate 10 ' ')).length = 13 + 4 := by
      rw [List.length_cons, List.length_append, hlen, List.length_replicate]
    unfold ReadsBack
    rw [htext]
    dsimp only
    rw [hsize, hlex, valueOf, rvalueOf, hconv]
  | false =>
    obtain ⟨name, hname⟩ := exists_letterName h
    obtain ⟨c, hc⟩ := List.length_eq_one_iff.mp hname.length
    have htext : printKeysym ctx style n = ' ' :: (bytes name ++ List.replicate 15 ' ') := by
      have hsym : codetoksym ctx n = some name := by
        rw [codetoksym, if_neg (by omega), if_pos (by omega), if_pos (by omega), hname.sym]
      rw [printKeysym, htyp, if_neg (by decide), if_neg (by decide), keysymText, if_pos rfl, hsym]
      simp only [hnumeric, Bool.false_eq_true, ↓reduceIte, hc]
      rfl
    have hlex : lexValue ctx (13 + 4) (' ' :: (bytes name ++ List.replicate 15 ' ')) =
        [.literal n] := by
      have htok : wordToken ctx (bytes name) .literal = .literal n := by
        have hne : ¬ (n : Int) = -1 := by omega
        simp only [wordToken, lexAction, newReader, ksymtocode_letter ctx hname, hK, hne, if_false,
          Option.getD_some]
      rw [← htok]
      exact lexValue_word ctx (isName_ne_nil hname.isName) (isName_noBlank hname.isName)
        (blanks_replicate 15) (by simp) (by decide)
        (munch_name hname.isName fun c hc => Or.inl (by simpa using hc.symm))
    have hsize : (' ' :: (bytes name ++ List.replicate 15 ' ')).length = 13 + 4 := by
      rw [List.length_cons, List.length_append, hname.length, List.length_replicate]
    unfold ReadsBack
    rw [htext]
    dsimp only
    rw [hsize, hlex]
    rfl

end Kbd.Keymap
