import Kbd.Keymap.Ksyms

/-!
# Looking symbols up

What a name means depends on the flags and the character set only, so binding keys does not change it.
The names of actions have one meaning in all character sets.
-/

namespace Kbd.Keymap

section Settings

variable {c c' : LkCtx} (hflags : c'.flags = c.flags) (hcharset : c'.charset = c.charset)

section

include hflags

theorem resolve_congr (d : Direction) : d.resolve c' = d.resolve c := by
  cases d <;> simp only [Direction.resolve, hflags]

end

section

include hcharset

theorem currentCharset_congr : currentCharset c' = currentCharset c := by
  simp only [currentCharset, hcharset]

theorem codetoksym_congr (code : Int) : codetoksym c' code = codetoksym c code := by
  simp only [codetoksym, currentCharset_congr hcharset]

theorem otherCharsets_congr (s : List Char) (d : Direction) :
    otherCharsets c' s d = otherCharsets c s d := by
  simp only [otherCharsets, unicodeSearch, currentCharset_congr hcharset, hcharset]

theorem ktLatinSearch_congr (s : List Char) (d : Direction) :
    ktLatinSearch c' s d = ktLatinSearch c s d := by
  simp only [ktLatinSearch, currentCharset_congr hcharset]

end

include hflags hcharset

theorem ksymtocodeRec_congr (depth : Nat) (s : List Char) (d : Direction) :
    ksymtocodeRec c' depth s d = ksymtocodeRec c depth s d := by
  induction depth generalizing s d with
  | zero => rfl
  | succ depth ih =>
    simp only [ksymtocodeRec, ih, resolve_congr hflags, ktLatinSearch_congr hcharset,
      otherCharsets_congr hcharset]

theorem ksymtocode_congr (s : List Char) (d : Direction) : ksymtocode c' s d = ksymtocode c s d :=
  ksymtocodeRec_congr hflags hcharset _ s d

theorem convertCode_congr (code : Int) (d : Direction) :
    convertCode c' code d = convertCode c code d := by
  simp only [convertCode, resolve_congr hflags, codetoksym_congr hcharset,
    ksymtocode_congr hflags hcharset]

theorem addCapslock_congr (code : Int) : addCapslock c' code = addCapslock c code := by
  simp only [addCapslock, hflags, convertCode_congr hflags hcharset]

end Settings

/-- A name that the tables of the actions have, and no table before them. -/
def isAction (s : List Char) (code : Int) : Bool :=
  (dropLit "Meta_" s).isNone && (dropLit "dead2_" s).isNone &&
    ((iso646Syms.take 128).findIdx? (strEq s)).isNone && typeSearch s = some code

theorem ksymtocode_of_search {ctx : LkCtx} {s : List Char} {code : Int} {d : Direction}
    (h : isAction s code) (hsearch : ktLatinSearch ctx s (d.resolve ctx) = none) :
    ksymtocode ctx s d = code := by
  simp only [isAction, Bool.and_eq_true, decide_eq_true_eq, Option.isNone_iff_eq_none] at h
  obtain ⟨⟨⟨hmeta, hdead⟩, -⟩, htype⟩ := h
  rw [ksymtocode, ksymtocodeRec]
  simp only [hmeta, hdead, hsearch, htype, Option.bind_none, Option.none_or, Option.some_or,
    Option.getD_some]

theorem ksymtocode_of_isAction (ctx : LkCtx) {s : List Char} {code : Int} (h : isAction s code) :
    ksymtocode ctx s .toUnicode = code := by
  refine ksymtocode_of_search h ?_
  simp only [isAction, Bool.and_eq_true, Option.isNone_iff_eq_none] at h
  have hmax : min 128 iso646Syms.length = 128 := by decide +kernel
  simp only [Direction.resolve, ktLatinSearch, if_true, Option.none_or, hmax, h.1.2]
  rfl

/-- A name that no character set has. -/
def isNoCharacter (s : List Char) : Bool :=
  (iso646Syms.findIdx? (strEq s)).isNone && charsets.all fun cs => (cs.indexOf s).isNone

/-- In both directions. -/
theorem ksymtocode_of_isNoCharacter (ctx : LkCtx) {s : List Char} {code : Int} (h : isAction s code)
    (hno : isNoCharacter s) (d : Direction) : ksymtocode ctx s d = code := by
  refine ksymtocode_of_search h ?_
  simp only [isNoCharacter, Bool.and_eq_true, Option.isNone_iff_eq_none, List.all_eq_true] at hno
  obtain ⟨hlatin, hcharsets⟩ := hno
  have hhere : (currentCharset ctx).indexOf s = none := by
    unfold currentCharset
    rw [List.getD_eq_getElem?_getD]
    cases hcs : charsets[ctx.charset]? with
    | none => rfl
    | some cs => exact hcharsets cs (List.mem_of_getElem? hcs)
  have hall (n : Nat) : (iso646Syms.take n).findIdx? (strEq s) = none := by
    rw [List.findIdx?_eq_none_iff] at hlatin ⊢
    exact fun x hx => hlatin x (List.mem_of_mem_take hx)
  simp only [ktLatinSearch, hhere]
  split <;> simp [hall, List.take_of_length_le, hlatin]

end Kbd.Keymap
