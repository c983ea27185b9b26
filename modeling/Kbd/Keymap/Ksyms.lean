import Kbd.Keymap.Charsets
import Kbd.Keymap.Context
import Kbd.Keymap.Symbols
import Kbd.Keymap.Text

/-!
# Symbol names and codes (`ksyms.c`)

The writer looks a code up by its number (`codetoksym`), the reader looks a symbol up by its name
(`ksymtocode`).
-/

namespace Kbd.Keymap

instance : Inhabited Cs := ⟨⟨"", [], 0⟩⟩

/-- `TO_AUTO`, `TO_8BIT` and `TO_UNICODE`. -/
inductive Direction where
  | toAuto
  | to8bit
  | toUnicode
  deriving DecidableEq, Repr

/-- `direction`, with `TO_AUTO` resolved by the flags. -/
def Direction.resolve (ctx : LkCtx) : Direction → Direction
  | .toAuto => if ctx.flags.preferUnicode then .toUnicode else .to8bit
  | d => d

/-- `charsets[ctx->charset]`. -/
def currentCharset (ctx : LkCtx) : Cs := charsets.getD ctx.charset default

/-- `syms_size`. -/
def symsSize : Int := symsByType.length

def getSymSize (ktype : Int) : Nat := (symsByType.getD ktype.toNat []).length

def getSym (ktype index : Int) : Option String := (symsByType.getD ktype.toNat [])[index.toNat]?

/-- The name at value `v` in a character set. -/
def Cs.nameAt (cs : Cs) (v : Nat) : Option String :=
  if v < cs.start then none
  else (cs.charnames[v - cs.start]?).bind fun p => if p.name ≠ "" then some p.name else none

/-- The name of a Unicode character in a character set. -/
def Cs.nameOfUni (cs : Cs) (uni : Int) : Option String :=
  (cs.charnames.find? fun p => p.uni = uni && p.name ≠ "").map Sym.name

/-- The position of a name in a character set. -/
def Cs.indexOf (cs : Cs) (s : List Char) : Option Nat :=
  cs.charnames.findIdx? fun p => p.name ≠ "" && strEq s p.name

def codetoksym (ctx : LkCtx) (code : Int) : Option String :=
  if code < 0 then none
  else if code < 0x1000 then
    if code < 0x80 then getSym ktLatin code
    else if ktyp code = ktMeta then none
    else if ktyp code ≠ ktLetter && ktyp code > ktLatin then getSym (ktyp code) (kval code)
    else (currentCharset ctx).nameAt (kval code).toNat
  else if U code < 0x80 then getSym ktLatin (U code)
  else charsets.findSome? fun cs => cs.nameOfUni (U code)

/-- `kt_latin`; `none` is -1. -/
def ktLatinSearch (ctx : LkCtx) (s : List Char) (direction : Direction) : Option Int :=
  let cs := currentCharset ctx
  let here := if direction = .toUnicode then none else (cs.indexOf s).map fun i => cs.start + i
  let max := if direction = .toUnicode then min 128 iso646Syms.length else iso646Syms.length
  (here.or ((iso646Syms.take max).findIdx? (strEq s))).map fun v => K ktLatin v

/-- `get_charset_uni`; 0 when there is no such name. -/
def getCharsetUni (cs : Cs) (s : List Char) : Nat :=
  ((cs.charnames.find? fun p => p.name ≠ "" && strEq s p.name).map Sym.uni).getD 0

/-- The search of `ksymtocode` in the tables of the types after `KT_LATIN`. -/
def typeSearch (s : List Char) : Option Int :=
  (List.range' 1 (symsByType.length - 1)).findSome? fun i =>
    ((symsByType.getD i []).findIdx? (strEq s)).map fun j => K i j

/-- The search of `ksymtocode` for a Unicode value, in the current character set and then in the
others. -/
def unicodeSearch (ctx : LkCtx) (s : List Char) : Option Int :=
  (currentCharset ctx :: charsets.eraseIdx ctx.charset).findSome? fun cs =>
    let uni := getCharsetUni cs s
    if uni > 0 then some (U uni) else none

/-- `try_charset`. -/
def tryCharset : List Nat := [0, 9, 1, 2, 3]

/-- The search of `ksymtocode` for an 8-bit value in other character sets. -/
def tryCharsetSearch (s : List Char) : Option Int :=
  tryCharset.findSome? fun n =>
    let cs := charsets.getD n default
    (cs.indexOf s).map fun i => K ktLatin (cs.start + i : Nat)

/-- The part of `ksymtocode` after the synonyms. -/
def otherCharsets (ctx : LkCtx) (s : List Char) (direction : Direction) : Int :=
  ((if direction = .toUnicode then unicodeSearch ctx s else tryCharsetSearch s)).getD
    codeForUnknownKsym

/-- `s` without a prefix. -/
def dropLit (lit : String) (s : List Char) : Option (List Char) :=
  if (bytes lit).isPrefixOf s then some (s.drop (bytes lit).length) else none

/-- `ksymtocode` with a bound on its recursion; each search either returns a code or falls
through to the next one. -/
def ksymtocodeRec (ctx : LkCtx) : Nat → List Char → Direction → Int
  | 0, _, _ => codeForUnknownKsym
  | depth + 1, s, direction =>
    let dir := direction.resolve ctx
    let metaForm := (dropLit "Meta_" s).bind fun s' =>
      let keycode := ksymtocodeRec ctx depth s' .to8bit
      if ktyp keycode = ktLatin then some (K ktMeta (kval keycode))
      else if dir = .toUnicode then some 0
      else none
    let dead2Form := (dropLit "dead2_" s).bind fun s' =>
      let keycode := ksymtocodeRec ctx depth s' .to8bit
      if ktyp keycode = ktLatin then some (K ktDead2 (kval keycode)) else none
    let synonym := (synonyms.find? fun p => strEq s p.1).map fun p =>
      ksymtocodeRec ctx depth (bytes p.2) dir
    ((((metaForm.or dead2Form).or (ktLatinSearch ctx s dir)).or (typeSearch s)).or synonym).getD
      (otherCharsets ctx s dir)

/-- `ksymtocode`. It calls itself on a shorter name, or on an official name, which is no synonym. -/
def ksymtocode (ctx : LkCtx) (s : List Char) (direction : Direction) : Int :=
  ksymtocodeRec ctx (s.length + 2) s direction

def convertCode (ctx : LkCtx) (code : Int) (direction : Direction) : Int :=
  let dir := direction.resolve ctx
  let inputIsUnicode : Bool := code ≥ 0x1000
  if ktyp code = ktMeta then code
  else if !inputIsUnicode && code < 0x80 then code
  else if inputIsUnicode && U code < 0x80 then U code
  else
    let result :=
      if inputIsUnicode && dir = .toUnicode || !inputIsUnicode && dir = .to8bit then code
      else
        let result := match codetoksym ctx code with
          | some ksym => ksymtocode ctx (bytes ksym) dir
          | none => code
        -- Unicode Latin-1 Supplement
        if dir = .toUnicode && ktyp code = ktLetter && U result < 0x100 then
          K ktLetter (U result)
        else result
    if direction = .toUnicode && result ≥ 0x1000 then U result else result

def addCapslock (ctx : LkCtx) (code : Int) : Int :=
  if ktyp code = ktLatin && (!ctx.flags.preferUnicode || code < 0x80) then K ktLetter (kval code)
  else if U code < 0x100 then K ktLetter (U code)
  else convertCode ctx code .toAuto

/-! ## Selecting a character set -/

/-- `lk_set_charset`; `none` is 1. -/
def lkSetCharset (ctx : LkCtx) (charset : List Char) : Option LkCtx :=
  (charsets.findIdx? fun cs => strcaseEq charset cs.charset).map fun i => { ctx with charset := i }

end Kbd.Keymap
