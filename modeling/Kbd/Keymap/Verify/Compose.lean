import Kbd.Keymap.Verify.Diacr
import Kbd.Keymap.Verify.Strings

/-!
# Reading back compose definitions

An input of a compose definition is written as a character, raw or escaped, or in `U+` notation. Each
form is one token of the scanner, and what the parser makes of it is the value that was written
(`lkParseKeymap_lkDumpDiacs`).
-/

namespace Kbd.Keymap

open Kbd.Lib

/-! ## Characters -/

/-- The rules after an apostrophe. -/
def quoteRules : List (Rule × Re Char) := [
  (.ccharOcta, .seq (char '\\') (.seq octaPat (char '\x27'))),
  (.ccharEscape, .seq (char '\\') (.seq dot (char '\x27'))), (.cchar, .seq dot (char '\x27')),
  (.any, .eps), (.echo, .eps)]

/-- The rules after an apostrophe and a backslash. -/
def quoteEscapeRules : List (Rule × Re Char) := [
  (.ccharOcta, .seq (.seq octDigit octalTail₁) (char '\x27')),
  (.ccharEscape, .seq dot (char '\x27')), (.cchar, char '\x27')]

theorem advance_quote {st : List Start} (hst : LineStart st) :
    advance (rules (st.headD .initial)) '\x27' = quoteRules := by
  rcases hst with rfl | rfl <;> rfl

theorem advance_quoteBackslash : advance quoteRules '\\' = quoteEscapeRules := by
  rw [quoteRules, octaPat_eq]
  rfl

/-- A character between apostrophes. -/
theorem munch_cchar {st : List Start} (hst : LineStart st) {c : Char} (hc : c ≠ '\\')
    (hnl : c ≠ '\n') (s : List Char) :
    munch (rules (st.headD .initial)) ('\x27' :: c :: '\x27' :: s) = some (.cchar, 3) := by
  have hadv : advance quoteRules c = [(.cchar, char '\x27')] := by
    simp [advance, quoteRules, char, dot, noneOf, Re.deriv, Re.nullable, Re.mkSeq, Re.isEmpty, hc, hnl]
  have hend : advance [(Rule.cchar, char '\x27')] '\x27' = [(.cchar, .eps)] := rfl
  rw [munch_cons, advance_quote hst, munch_cons, hadv, munch_single hend (by simp)]
  rfl

/-- An escaped apostrophe or backslash. -/
theorem munch_ccharEscape {st : List Start} (hst : LineStart st) {c : Char}
    (hc : c = '\x27' ∨ c = '\\') (s : List Char) :
    munch (rules (st.headD .initial)) ('\x27' :: '\\' :: c :: '\x27' :: s) =
      some (.ccharEscape, 4) := by
  have hend : advance (advance quoteEscapeRules c) '\x27' = [(.ccharEscape, .eps)] := by
    rcases hc with rfl | rfl <;> rfl
  rw [munch_cons, advance_quote hst, munch_cons, advance_quoteBackslash, munch_cons,
    munch_single hend (by simp)]
  rfl

/-- An octal escape with three digits. -/
theorem munch_ccharOcta {st : List Start} (hst : LineStart st) {a b c : Char}
    (ha : a ∈ octalDigits) (hb : b ∈ octalDigits) (hc : c ∈ octalDigits) (s : List Char) :
    munch (rules (st.headD .initial)) ('\x27' :: '\\' :: a :: b :: c :: '\x27' :: s) =
      some (.ccharOcta, 6) := by
  have h₁ : advance quoteEscapeRules a =
      [(.ccharOcta, .seq octalTail₁ (char '\x27')), (.ccharEscape, char '\x27')] :=
    forall_octal (P := fun d => advance quoteEscapeRules d =
      [(.ccharOcta, .seq octalTail₁ (char '\x27')), (.ccharEscape, char '\x27')])
      ⟨rfl, rfl, rfl, rfl, rfl, rfl, rfl, rfl⟩ a ha
  have h₂ : advance [(Rule.ccharOcta, .seq octalTail₁ (char '\x27')), (.ccharEscape, char '\x27')] b =
      [(.ccharOcta, .seq octalTail₂ (char '\x27'))] :=
    forall_octal (P := fun d => advance [(Rule.ccharOcta, .seq octalTail₁ (char '\x27')),
      (.ccharEscape, char '\x27')] d = [(.ccharOcta, .seq octalTail₂ (char '\x27'))])
      ⟨rfl, rfl, rfl, rfl, rfl, rfl, rfl, rfl⟩ b hb
  have h₃ : advance [(Rule.ccharOcta, .seq octalTail₂ (char '\x27'))] c =
      [(.ccharOcta, char '\x27')] :=
    forall_octal (P := fun d => advance [(Rule.ccharOcta, .seq octalTail₂ (char '\x27'))] d =
      [(.ccharOcta, char '\x27')])
      ⟨rfl, rfl, rfl, rfl, rfl, rfl, rfl, rfl⟩ c hc
  have hend : advance [(Rule.ccharOcta, char '\x27')] '\x27' = [(.ccharOcta, .eps)] := rfl
  rw [munch_cons, advance_quote hst, munch_cons, advance_quoteBackslash, munch_cons, h₁, munch_cons,
    h₂, munch_cons, h₃, munch_single hend (by simp)]
  rfl

theorem toNat_fmtC {c : Nat} (hc : c < 256) : (fmtC c).toNat = c := by
  have hvalid : c.isValidChar := Or.inl (by omega)
  rw [fmtC, Nat.mod_eq_of_lt hc, Char.ofNat, dif_pos hvalid]
  rfl

/-- What `dumpchar` prints is read as the character. -/
theorem reads_dumpchar (find : FindIncl) (r : Reader) {st : List Start} (hst : LineStart st)
    {p p' : Parser} {c : Nat} (hc : c < 256) (hfeed : (feed (.cchar c)).run p = .ok () p')
    (s : List Char) : Reads find r ⟨p, st, dumpchar c false ++ s⟩ ⟨p', st, s⟩ := by
  have hblank {w : List Char} : NoBlank ('\x27' :: w) := noBlank_cons.mpr (by decide)
  have hchar := toNat_fmtC hc
  unfold dumpchar
  simp only [Bool.false_eq_true, ↓reduceIte]
  split
  · rename_i hspecial
    have hmem : fmtC c = '\x27' ∨ fmtC c = '\\' := by
      simp only [Bool.or_eq_true, decide_eq_true_eq] at hspecial
      rcases hspecial with rfl | rfl
      · exact Or.inl rfl
      · exact Or.inr rfl
    have hact (r : Reader) : lexAction find r ['\x27', '\\', fmtC c, '\x27'] .ccharEscape =
        (r, some (.cchar c)) := by
      simp only [lexAction, List.getD_cons_succ, List.getD_cons_zero, hchar, Nat.mod_eq_of_lt hc]
    exact .token (w := ['\x27', '\\', fmtC c, '\x27']) hst (by simp) hblank
      (munch_ccharEscape hst hmem s) (by decide) (fun r => hact _) (by simp) hfeed
  · rename_i hspecial
    simp only [Bool.or_eq_true, decide_eq_true_eq, not_or] at hspecial
    split
    · rename_i hraw
      have hne {d : Char} (hd : c ≠ d.toNat) : fmtC c ≠ d := by
        rintro rfl
        exact hd hchar.symm
      have hnl : c ≠ 10 := by
        rintro rfl
        exact absurd hraw (by decide)
      have hact (r : Reader) : lexAction find r ['\x27', fmtC c, '\x27'] .cchar =
          (r, some (.cchar c)) := by
        simp only [lexAction, List.getD_cons_succ, List.getD_cons_zero, hchar, Nat.mod_eq_of_lt hc]
      exact .token (w := ['\x27', fmtC c, '\x27']) hst (by simp) hblank
        (munch_cchar hst (hne hspecial.2) (hne hnl) s) (by decide) (fun r => hact _) (by simp) hfeed
    · obtain ⟨a, b, d, htext, ha, hb, hd, -, hval⟩ := exists_octal hc
      have hact (r : Reader) : lexAction find r ['\x27', '\\', a, b, d, '\x27'] .ccharOcta =
          (r, some (.cchar c)) := by
        have hint : parseInt [a, b, d, '\x27'] 8 = some (c : Int) := by
          unfold parseInt intMax
          rw [hval, if_neg (by omega)]
        simp only [lexAction, List.drop_succ_cons, List.drop_zero, hint, Option.map_some,
          Option.getD_some]
      rw [htext]
      exact .token (w := ['\x27', '\\', a, b, d, '\x27']) hst (by simp) hblank
        (munch_ccharOcta hst ha hb hd s) (by decide) (fun r => hact _) (by simp) hfeed

/-! ## Code points -/

def hexDigits : List Char :=
  ['0', '1', '2', '3', '4', '5', '6', '7', '8', '9', 'a', 'b', 'c', 'd', 'e', 'f']

theorem digitChar_mem {d : Nat} (hd : d < 16) : Nat.digitChar d ∈ hexDigits := by
  revert d
  decide

theorem digitVal_digitChar {d : Nat} (hd : d < 16) : digitVal (Nat.digitChar d) = some d := by
  revert d
  decide

/-- A number below `0x10000` is printed with four digits. -/
theorem fmt04X_eq {n : Nat} (hn : n < 65536) : fmt04X n =
    [Nat.digitChar (n / 4096), Nat.digitChar (n / 256 % 16), Nat.digitChar (n / 16 % 16),
      Nat.digitChar (n % 16)] := by
  have hbase : 1 < 16 := by decide
  have h₁ : n / 16 / 16 = n / 256 := by omega
  have h₂ : n / 16 / 16 / 16 = n / 4096 := by omega
  unfold fmt04X
  by_cases h4 : 4096 ≤ n
  · rw [Nat.toDigits_of_base_le hbase (by omega), Nat.toDigits_of_base_le hbase (by omega),
      Nat.toDigits_of_base_le hbase (by omega), Nat.toDigits_of_lt_base (by omega), h₂, h₁]
    rfl
  · have hlead : n / 4096 = 0 := by omega
    rw [hlead]
    by_cases h3 : 256 ≤ n
    · rw [Nat.toDigits_of_base_le hbase (by omega), Nat.toDigits_of_base_le hbase (by omega),
        Nat.toDigits_of_lt_base (by omega), h₁, Nat.mod_eq_of_lt (a := n / 256) (by omega)]
      rfl
    · have hlead : n / 256 = 0 := by omega
      rw [hlead]
      by_cases h2 : 16 ≤ n
      · rw [Nat.toDigits_of_base_le hbase (by omega), Nat.toDigits_of_lt_base (by omega),
          Nat.mod_eq_of_lt (a := n / 16) (by omega)]
        rfl
      · have hlead : n / 16 = 0 := by omega
        rw [hlead, Nat.toDigits_of_lt_base (by omega), Nat.mod_eq_of_lt (a := n) (by omega)]
        rfl

theorem deriv_hexDigit {d : Char} (hd : d ∈ hexDigits) : hexDigit.deriv d = .eps := by
  revert d
  simp only [hexDigits, List.forall_mem_cons]
  exact ⟨rfl, rfl, rfl, rfl, rfl, rfl, rfl, rfl, rfl, rfl, rfl, rfl, rfl, rfl, rfl, rfl, by simp⟩

/-- One of the digits that have to come. -/
theorem advance_rep {rule : Rule} {d : Char} (hd : d ∈ hexDigits) (m : Nat) :
    advance [(rule, Re.rep hexDigit (m + 1) 2)] d = [(rule, Re.rep hexDigit m 2)] := by
  have hnull : hexDigit.nullable = false := rfl
  have hempty : (Re.rep hexDigit m 2).isEmpty = false := by
    cases m <;> simp only [Re.rep, Re.isEmpty]
  have hderiv : (Re.rep hexDigit (m + 1) 2).deriv d = Re.rep hexDigit m 2 := by
    rw [Re.rep, Re.deriv, hnull, deriv_hexDigit hd]
    rfl
  simp only [advance, List.map_cons, List.map_nil, hderiv]
  rw [List.filter_cons_of_pos (by simp [hempty]), List.filter_nil]

/-- What ends a word. -/
def EndsWord (s : List Char) : Prop := ∃ a t, s = a :: t ∧ (a = ' ' ∨ a = '\n')

theorem endsWord_blank (s : List Char) : EndsWord (' ' :: s) := ⟨' ', s, rfl, Or.inl rfl⟩

theorem endsWord_eol (s : List Char) : EndsWord ('\n' :: s) := ⟨'\n', s, rfl, Or.inr rfl⟩

/-- A code point with four digits ends at the end of the word. -/
theorem munch_unicode {st : List Start} (hst : LineStart st) {a b c d : Char} (ha : a ∈ hexDigits)
    (hb : b ∈ hexDigits) (hc : c ∈ hexDigits) (hd : d ∈ hexDigits) {s : List Char}
    (hs : EndsWord s) :
    munch (rules (st.headD .initial)) ('U' :: '+' :: a :: b :: c :: d :: s) =
      some (.unicode, 6) := by
  have hplus : advance (advance (rules (st.headD .initial)) 'U') '+' =
      [(.unicode, Re.rep hexDigit 4 2)] := by
    have hrep : Re.rep hexDigit 4 2 = .seq hexDigit (Re.rep hexDigit 3 2) := by rw [Re.rep]
    have hpat : unicodePat = .seq (char 'U') (.seq (char '+') (.seq hexDigit (Re.rep hexDigit 3 2))) := by
      rw [unicodePat, hrep]
    rw [hrep]
    rcases hst with rfl | rfl <;>
    · simp only [rules, rulesBefore, List.headD_nil, List.headD_cons, hpat]
      rfl
  have hrest : munch [(Rule.unicode, Re.rep hexDigit 0 2)] s = some (.unicode, 0) := by
    have hrep : Re.rep hexDigit 0 2 = .alt .eps (.seq hexDigit (.alt .eps (.seq hexDigit .eps))) := by
      simp only [Re.rep]
    obtain ⟨e, t, rfl, he⟩ := hs
    rw [hrep]
    rcases he with rfl | rfl <;> exact munch_of_none_left rfl rfl t
  rw [munch_cons, munch_cons, hplus, munch_cons, advance_rep ha, munch_cons, advance_rep hb,
    munch_cons, advance_rep hc, munch_cons, advance_rep hd, hrest]
  rfl

theorem strtol_fmt04X {n : Nat} (hn : n < 65536) : strtol 16 ('+' :: fmt04X n) = n := by
  have h : strtol 16 ('+' :: fmt04X n) = digits 16 (fmt04X n) 0 := rfl
  have h₁ : n / 4096 < 16 := by omega
  have h₂ : n / 256 % 16 < 16 := by omega
  have h₃ : n / 16 % 16 < 16 := by omega
  have h₄ : n % 16 < 16 := by omega
  rw [h, fmt04X_eq hn]
  simp only [digits, digitVal_digitChar h₁, digitVal_digitChar h₂, digitVal_digitChar h₃,
    digitVal_digitChar h₄, h₁, h₂, h₃, h₄, ↓reduceIte]
  omega

/-- What is printed for a code point is read as this code point. -/
theorem reads_unicode (find : FindIncl) (r : Reader) {st : List Start} (hst : LineStart st)
    {p p' : Parser} {n : Nat} (hn : n < 0xf000) (hfeed : (feed (.unumber n)).run p = .ok () p')
    {s : List Char} (hs : EndsWord s) :
    Reads find r ⟨p, st, bytes "U+" ++ fmt04X n ++ s⟩ ⟨p', st, s⟩ := by
  have htext : bytes "U+" ++ fmt04X n = 'U' :: '+' :: fmt04X n := rfl
  have hact (r : Reader) : lexAction find r ('U' :: '+' :: fmt04X n) .unicode =
      (r, some (.unumber n)) := by
    have hint : parseInt ('+' :: fmt04X n) 16 = some (n : Int) := by
      unfold parseInt intMax
      rw [strtol_fmt04X (by omega), if_neg (by omega)]
    have hsmall : ¬ (n : Int) ≥ unicodeMask := by
      unfold unicodeMask
      omega
    simp only [lexAction, List.drop_one, List.tail_cons, hint, if_neg hsmall]
  have hlen : ('U' :: '+' :: fmt04X n).length = 6 := by rw [fmt04X_eq (by omega)]; rfl
  have hm : munch (rules (st.headD .initial)) ('U' :: '+' :: fmt04X n ++ s) =
      some (.unicode, ('U' :: '+' :: fmt04X n).length) := by
    rw [hlen, fmt04X_eq (by omega)]
    exact munch_unicode hst (digitChar_mem (by omega)) (digitChar_mem (by omega))
      (digitChar_mem (by omega)) (digitChar_mem (by omega)) hs
  rw [htext]
  exact .token hst (by simp) (noBlank_cons.mpr (by decide)) hm (by decide) (fun r => hact _)
    (by simp) hfeed

/-! ## Inputs -/

/-- The fields that a compose definition can have in the mode of the context. -/
def FieldFits (ctx : LkCtx) (c : Nat) : Prop :=
  if ctx.flags.preferUnicode then c < 0xf000 else c ≤ 0xff

/-- The value that the parser has for an input. -/
def inputCode (ctx : LkCtx) (c : Nat) : Int :=
  if ctx.flags.preferUnicode && c > 0x7f then U c else c

/-- The direction of `lk_append_compose`. -/
def composeDirection (ctx : LkCtx) : Direction :=
  if ctx.flags.preferUnicode then .toUnicode else .to8bit

/-- What is printed for an input is read as a token with its value. -/
theorem reads_composeInput (find : FindIncl) (r : Reader) (ctx : LkCtx) {c : Nat}
    (hc : FieldFits ctx c) {p p' : Parser}
    (hfeed : ∀ tok, compsym tok = some (inputCode ctx c) → (feed tok).run p = .ok () p')
    (s : List Char) :
    Reads find r ⟨p, [], dumpComposeInput ctx c ++ ' ' :: s⟩ ⟨p', [], ' ' :: s⟩ := by
  unfold FieldFits at hc
  unfold inputCode at hfeed
  unfold dumpComposeInput
  by_cases hu : (ctx.flags.preferUnicode && decide (c > 0x7f)) = true
  · rw [if_pos hu] at hfeed ⊢
    simp only [Bool.and_eq_true] at hu
    rw [if_pos hu.1] at hc
    exact reads_unicode find r (Or.inl rfl) hc (hfeed _ rfl) (endsWord_blank s)
  · rw [if_neg hu] at hfeed ⊢
    have hlt : c < 256 := by
      simp only [Bool.and_eq_true, decide_eq_true_eq, not_and] at hu
      split at hc
      · rename_i hpref
        have := hu hpref
        omega
      · omega
    exact reads_dumpchar find r (Or.inl rfl) hlt (hfeed _ rfl) _

theorem U_natCast (n : Nat) : U n = ((n ^^^ 0xf000 : Nat) : Int) := rfl

/-- On a code point of the Unicode mode, `U` gives a code above the traditional ones. -/
theorem le_U {n : Nat} (hn : n < 0xf000) : 0x1000 ≤ U n ∧ U n < 0x10000 := by
  have := U_eq (x := n) (by omega)
  omega

/-- A code point is converted to itself. -/
theorem convertCode_U {ctx : LkCtx} (hu : ctx.flags.preferUnicode = true) {n : Nat}
    (hn : n < 0xf000) (hbig : 0x80 ≤ n) (d : Direction) (hd : d = .toUnicode ∨ d = .toAuto) :
    convertCode ctx (U n) d = if d = .toUnicode then (n : Int) else U n := by
  obtain ⟨hle, hlt⟩ := le_U hn
  have hUU : U (U n) = n := U_U (by omega)
  have hmeta : ¬ ktyp (U n) = ktMeta := by
    unfold ktyp ktMeta
    omega
  have hsmall : ¬ (n : Int) < 0x80 := by omega
  rcases hd with rfl | rfl <;>
    simp [convertCode, Direction.resolve, hu, hle, hUU, hmeta, hsmall]

theorem convertCode_inputCode {ctx : LkCtx} {c : Nat} (hc : FieldFits ctx c) :
    convertCode ctx (inputCode ctx c) (composeDirection ctx) = c := by
  unfold FieldFits at hc
  unfold inputCode composeDirection
  by_cases hu : ctx.flags.preferUnicode = true
  · rw [if_pos hu] at hc
    by_cases hbig : c > 0x7f
    · simp only [hu, hbig, decide_true, Bool.and_self, ↓reduceIte]
      rw [convertCode_U hu hc hbig _ (Or.inl rfl), if_pos rfl]
    · have hlow : (c : Int) < 0x80 := by omega
      have hlow' : ¬ (c : Int) ≥ 0x1000 := by omega
      have hmeta : ¬ ktyp (c : Int) = ktMeta := by
        unfold ktyp ktMeta
        omega
      simp [convertCode, hu, hbig, hlow, hlow', hmeta]
  · have hlow' : ¬ (c : Int) ≥ 0x1000 := by
      rw [if_neg hu] at hc
      omega
    have hmeta : ¬ ktyp (c : Int) = ktMeta := by
      rw [if_neg hu] at hc
      unfold ktyp ktMeta
      omega
    simp [convertCode, Direction.resolve, hu, hlow', hmeta]

/-! ## Results -/

/-- The code under which the name of a result is looked up. -/
def resultCode (ctx : LkCtx) (result : Nat) : Int :=
  if ctx.flags.preferUnicode then U result else result

/-- A result has no name, or one that is not empty and that is read as the result. -/
def ResultReadsBack (ctx : LkCtx) (result : Nat) : Prop :=
  ∀ name, codetoksym ctx (resultCode ctx result) = some name →
    name ≠ "" ∧
      convertCode ctx (ksymtocode ctx (bytes name) .toAuto) (composeDirection ctx) = result

theorem isName_of_getSym {code : Int} {name : String} (h : getSym ktLatin code = some name)
    (hne : name ≠ "") : isName (bytes name) = true :=
  isName_of_mem_latin (List.mem_of_getElem? h) hne

/-- The name of a result is a word. -/
theorem isName_of_codetoksym {ctx : LkCtx} {code : Int} {name : String}
    (hcode : code < 0x100 ∨ 0x1000 ≤ code) (h : codetoksym ctx code = some name) (hne : name ≠ "") :
    isName (bytes name) = true := by
  unfold codetoksym at h
  split at h
  · cases h
  rename_i hneg
  split at h
  · rename_i hsmall
    split at h
    · exact isName_of_getSym h hne
    · split at h
      · cases h
      · split at h
        · rename_i htype
          simp only [Bool.and_eq_true, decide_eq_true_eq] at htype
          have := htype.2
          unfold ktyp ktLatin at this
          omega
        · unfold Cs.nameAt currentCharset at h
          split at h
          · cases h
          · obtain ⟨q, hq, hname⟩ := Option.bind_eq_some_iff.mp h
            split at hname
            · cases hname
              rw [List.getD_eq_getElem?_getD] at hq
              cases hcs : charsets[ctx.charset]? with
              | none =>
                rw [hcs] at hq
                cases hq
              | some cs =>
                rw [hcs] at hq
                exact isName_of_mem_charset (List.mem_of_getElem? hcs) (List.mem_of_getElem? hq) hne
            · cases hname
  · split at h
    · exact isName_of_getSym h hne
    · obtain ⟨cs, hcs, hname⟩ := List.exists_of_findSome?_eq_some h
      obtain ⟨q, hq, rfl⟩ := Option.map_eq_some_iff.mp hname
      exact isName_of_mem_charset hcs (List.mem_of_find?_eq_some hq) hne

/-- A code point that is printed as a result has its code. -/
theorem toSigned_xor {n : Nat} (hn : n < 0xf000) : toSigned (n ^^^ unicodeMask.toNat) = U n := by
  have hlt : n ^^^ 0xf000 < 2 ^ 16 := Nat.xor_lt_two_pow (by omega) (by decide)
  have hmask : unicodeMask.toNat = 0xf000 := rfl
  rw [U_natCast, toSigned, hmask, if_pos (by omega), Nat.mod_eq_of_lt (by omega)]

/-- The characters of ASCII have names. -/
theorem codetoksym_U_low (ctx : LkCtx) {n : Nat} (h : n < 0x80) :
    (codetoksym ctx (U n)).isSome = true := by
  have hle := (le_U (n := n) (by omega)).1
  have hUU : U (U n) = n := U_U (by omega)
  have hneg : ¬ U n < 0 := by omega
  have hbig : ¬ U n < 0x1000 := by omega
  have hlow : (n : Int) < 0x80 := by omega
  have hlen : iso646Syms.length = 256 := by decide +kernel
  have hlt : ((n : Int)).toNat < iso646Syms.length := by omega
  simp only [codetoksym, hneg, hbig, hUU, hlow, ↓reduceIte, getSym]
  change (iso646Syms[(n : Int).toNat]?).isSome = true
  rw [List.getElem?_eq_getElem hlt]
  rfl

section Line

variable (find : FindIncl) (r : Reader) {ctx : LkCtx} {p : Parser} {a b : Int}

theorem feed_result {tok : Token} {v : Int} (hstate : p.state = .compose (.to a b))
    (hv : rvalueOf p.ctx tok = some v) :
    (feed tok).run p = .ok () { p with state := .compose (.result a b v) } := by
  have hfeed : (feedCompose (.to a b) tok).run p =
      (takeValue (rvalueOf p.ctx tok) fun v => goto (.compose (.result a b v))).run p := by
    cases tok <;> first | rfl | cases hv
  rw [feed, Result.bind_of_ok (EStateM.run_get p), hstate]
  exact hfeed.trans (by rw [hv]; rfl)

/-- What is printed for a result is read as a value that stands for it. -/
theorem reads_diacResult {result : Nat} (hfits : FieldFits ctx result)
    (hback : ResultReadsBack ctx result) (hflags : p.ctx.flags = ctx.flags)
    (hcharset : p.ctx.charset = ctx.charset) (hstate : p.state = .compose (.to a b)) (t : List Char) :
    ∃ v, convertCode ctx v (composeDirection ctx) = result ∧
      Reads find r ⟨p, [.rvalue], diacResult ctx result ++ '\n' :: t⟩
        ⟨{ p with state := .compose (.result a b v) }, [.rvalue], '\n' :: t⟩ := by
  have hst : LineStart [.rvalue] := Or.inr rfl
  -- a name is read as its code
  have hname {name : String} (h : codetoksym ctx (resultCode ctx result) = some name)
      (hcode : resultCode ctx result < 0x100 ∨ 0x1000 ≤ resultCode ctx result) :
      ∃ v, convertCode ctx v (composeDirection ctx) = result ∧
        Reads find r ⟨p, [.rvalue], bytes name ++ '\n' :: t⟩
          ⟨{ p with state := .compose (.result a b v) }, [.rvalue], '\n' :: t⟩ := by
    obtain ⟨hne, hconv⟩ := hback name h
    have hword := isName_of_codetoksym hcode h hne
    refine ⟨_, hconv, ?_⟩
    have hcode : ksymtocode ctx (bytes name) .toAuto ≠ -1 := by
      intro hminus
      rw [hminus] at hconv
      have hunknown : convertCode ctx (-1) (composeDirection ctx) = -1 := by
        simp [convertCode, ktyp]
      omega
    have hact (r : Reader) : lexAction find (r.at ⟨p, [.rvalue], '\n' :: t⟩) (bytes name) .literal =
        (r.at ⟨p, [.rvalue], '\n' :: t⟩, some (.literal (ksymtocode ctx (bytes name) .toAuto))) := by
      have hread : ksymtocode (r.at ⟨p, [.rvalue], '\n' :: t⟩).parser.ctx (bytes name) .toAuto =
          ksymtocode ctx (bytes name) .toAuto := ksymtocode_congr hflags hcharset _ _
      simp only [lexAction, hread, if_neg hcode]
    exact .token hst (isName_ne_nil hword) (isName_noBlank hword)
      (munch_name hword fun c hc => Or.inr (Option.some.inj hc).symm) (by decide) hact (by simp)
      (feed_result hstate rfl)
  unfold FieldFits at hfits
  unfold diacResult
  unfold resultCode at hname
  by_cases hu : ctx.flags.preferUnicode = true
  · rw [if_pos hu] at hfits hname ⊢
    rw [toSigned_xor hfits]
    cases h : codetoksym ctx (U result) with
    | some name => exact hname h (Or.inr (le_U hfits).1)
    | none =>
      have hbig : 0x80 ≤ result := by
        by_contra hlow
        have := codetoksym_U_low ctx (n := result) (by omega)
        rw [h] at this
        cases this
      refine ⟨U result, ?_, ?_⟩
      · rw [composeDirection, if_pos hu, convertCode_U hu hfits hbig _ (Or.inl rfl), if_pos rfl]
      · refine reads_unicode find r hst hfits (feed_result hstate ?_) (endsWord_eol t)
        rw [rvalueOf, convertCode_congr hflags hcharset, convertCode_U hu hfits hbig _ (Or.inr rfl),
          if_neg (by decide)]
  · rw [if_neg hu] at hfits hname ⊢
    have hsmall : ¬ result > 0xff := by omega
    rw [if_neg hsmall]
    cases h : codetoksym ctx result with
    | some name => exact hname h (Or.inl (by omega))
    | none =>
      have hfeed : (feed (.cchar result)).run p =
          .ok () { p with state := .compose (.result a b result) } := by
        rw [feed, Result.bind_of_ok (EStateM.run_get p), hstate]
        rfl
      refine ⟨result, ?_, reads_dumpchar find r hst (by omega) hfeed _⟩
      have hfits' : FieldFits ctx result := by
        rw [FieldFits, if_neg hu]
        exact hfits
      have hcode : inputCode ctx result = result := by simp [inputCode, hu]
      have hconv := convertCode_inputCode hfits'
      rwa [hcode] at hconv

/-- The entry of a compose definition whose values stand for the fields of `d`. -/
theorem lkAppendCompose_run {c : LkCtx} (hflags : c.flags = ctx.flags)
    (hcharset : c.charset = ctx.charset) {d : LkKbdiacr} {a b v : Int}
    (ha : convertCode ctx a (composeDirection ctx) = d.diacr)
    (hb : convertCode ctx b (composeDirection ctx) = d.base)
    (hv : convertCode ctx v (composeDirection ctx) = d.result)
    (hd : d.diacr < 2 ^ 32 ∧ d.base < 2 ^ 32 ∧ d.result < 2 ^ 32) :
    (lkAppendCompose a b v).run c = .ok () (lkAppendDiacr c d) := by
  have hdir : (if c.flags.preferUnicode then Direction.toUnicode else .to8bit) =
      composeDirection ctx := by
    rw [hflags]
    rfl
  have hrun : (lkAppendCompose a b v).run c = .ok () { c with
      accentTable := c.accentTable.append (some ⟨
        toUnsigned (convertCode c a (if c.flags.preferUnicode then Direction.toUnicode else .to8bit)),
        toUnsigned (convertCode c b (if c.flags.preferUnicode then Direction.toUnicode else .to8bit)),
        toUnsigned (convertCode c v
          (if c.flags.preferUnicode then Direction.toUnicode else .to8bit))⟩) } := rfl
  rw [hrun, hdir, convertCode_congr hflags hcharset, convertCode_congr hflags hcharset,
    convertCode_congr hflags hcharset, ha, hb, hv, toUnsigned_natCast hd.1, toUnsigned_natCast hd.2.1,
    toUnsigned_natCast hd.2.2]
  rfl

/-- A compose definition that the mode of the context can have, with a result that is read back. -/
structure DiacrReadsBack (ctx : LkCtx) (d : LkKbdiacr) : Prop where
  diacr : FieldFits ctx d.diacr
  base : FieldFits ctx d.base
  result : FieldFits ctx d.result
  name : ResultReadsBack ctx d.result

theorem FieldFits.lt {c : Nat} (h : FieldFits ctx c) : c < 2 ^ 32 := by
  unfold FieldFits at h
  split at h <;> omega

/-- The line of a compose definition. -/
theorem reads_diacLine {c : LkCtx} {d : LkKbdiacr} (hd : DiacrReadsBack ctx d)
    (hflags : c.flags = ctx.flags) (hcharset : c.charset = ctx.charset) (hp : Between p c)
    (t : List Char) :
    ∃ p', Between p' (lkAppendDiacr c d) ∧
      Reads find r ⟨p, [], diacLine ctx d ++ t⟩ ⟨p', [], t⟩ := by
  obtain ⟨rfl, hstate, hmod⟩ := hp
  have htext : diacLine ctx d ++ t = bytes "compose" ++ ' ' :: (dumpComposeInput ctx d.diacr ++
      ' ' :: (dumpComposeInput ctx d.base ++ ' ' :: (bytes "to" ++
        ' ' :: (diacResult ctx d.result ++ '\n' :: t)))) := by
    have h₁ : bytes "compose " = bytes "compose" ++ [' '] := rfl
    have h₂ : bytes " to " = ' ' :: (bytes "to" ++ [' ']) := rfl
    simp only [diacLine, h₁, h₂, List.append_assoc, List.cons_append, List.nil_append]
  have hblank := blanks_singleton (Or.inl rfl : IsBlank ' ')
  set a := inputCode ctx d.diacr with hadef
  set b := inputCode ctx d.base with hbdef
  have hcompose : (feed .compose).run p = .ok () { p with state := .compose .start } := by
    rw [feed_top hstate]
    rfl
  have hdiacr (tok : Token) (h : compsym tok = some a) :
      (feed tok).run { p with state := .compose .start } =
        .ok () { p with state := .compose (.sym a) } := by
    cases tok with
    | cchar n | unumber n =>
      rw [← Option.some.inj h]
      rfl
    | _ => cases h
  have hbase (tok : Token) (h : compsym tok = some b) :
      (feed tok).run { p with state := .compose (.sym a) } =
        .ok () { p with state := .compose (.syms a b) } := by
    cases tok with
    | cchar n | unumber n =>
      rw [← Option.some.inj h]
      rfl
    | _ => cases h
  have hto : Reads find r ⟨{ p with state := .compose (.syms a b) }, [],
      bytes "to" ++ ' ' :: (diacResult ctx d.result ++ '\n' :: t)⟩
      ⟨{ p with state := .compose (.to a b) }, [.rvalue],
        [' '] ++ (diacResult ctx d.result ++ '\n' :: t)⟩ := by
    have hm (s : List Char) : munch (rules .initial) (bytes "to" ++ ' ' :: s) = some (.to, 2) := by
      have hdead : (bytes "to" ++ [' ']).foldl advance (rules .initial) = [] := rfl
      rw [List.append_cons, munch_append_of_dead hdead]
      rfl
    have hfeed : (feed .to).run { p with state := .compose (.syms a b) } =
        .ok () { p with state := .compose (.to a b) } := rfl
    exact .token (Or.inl rfl) (by decide) (noBlank_cons.mpr (by decide)) (hm _) (by decide)
      (fun _ => rfl) (by simp) hfeed
  obtain ⟨v, hv, hresult⟩ := reads_diacResult find r (p := { p with state := .compose (.to a b) })
    hd.result hd.name hflags hcharset rfl t
  have hrun := lkAppendCompose_run hflags hcharset (convertCode_inputCode hd.diacr)
    (convertCode_inputCode hd.base) hv ⟨hd.diacr.lt, hd.base.lt, hd.result.lt⟩
  have hlift : (liftLk (lkAppendCompose a b v)).run { p with state := .compose (.result a b v) } =
      .ok () { p with ctx := lkAppendDiacr p.ctx d, state := .compose (.result a b v) } :=
    liftLk_eq_ok.mpr ⟨_, hrun, rfl⟩
  have heol : (feed .eol).run { p with state := .compose (.result a b v) } = .ok () { p with
      ctx := lkAppendDiacr p.ctx d, state := .top, stmts := p.stmts ++ [.compose a b v] } := by
    rw [feed, Result.bind_of_ok (EStateM.run_get _)]
    exact Result.bind_of_ok hlift
  refine ⟨{ p with
    ctx := lkAppendDiacr p.ctx d, state := .top, stmts := p.stmts ++ [.compose a b v] },
    ⟨rfl, rfl, hmod⟩, ?_⟩
  rw [htext]
  refine (reads_keyword find r (by decide) (noBlank_cons.mpr (by decide)) rfl rfl (by simp)
    hcompose _).trans ?_
  refine (Reads.blanks hblank _).trans ?_
  refine (reads_composeInput find r ctx hd.diacr hdiacr _).trans ((Reads.blanks hblank _).trans ?_)
  refine (reads_composeInput find r ctx hd.base hbase _).trans ((Reads.blanks hblank _).trans ?_)
  refine hto.trans ((Reads.blanks hblank _).trans (hresult.trans ?_))
  exact reads_eol find r (Or.inr rfl) heol t

/-- The lines of several compose definitions. -/
theorem reads_diacLines {ds : List LkKbdiacr} (hds : ∀ d ∈ ds, DiacrReadsBack ctx d) {c : LkCtx}
    {p : Parser} (hflags : c.flags = ctx.flags) (hcharset : c.charset = ctx.charset)
    (hp : Between p c) :
    ∃ p', Between p' (ds.foldl lkAppendDiacr c) ∧
      Reads find r ⟨p, [], ds.flatMap (diacLine ctx)⟩ ⟨p', [], []⟩ := by
  induction ds generalizing c p with
  | nil => exact ⟨p, hp, .refl _⟩
  | cons d ds ih =>
    rw [List.forall_mem_cons] at hds
    obtain ⟨p₁, hp₁, hfirst⟩ := reads_diacLine find r hds.1 hflags hcharset hp
      (ds.flatMap (diacLine ctx))
    obtain ⟨p', hp', hmore⟩ := ih hds.2 (c := lkAppendDiacr c d) hflags hcharset hp₁
    refine ⟨p', hp', ?_⟩
    rw [List.flatMap_cons]
    exact hfirst.trans hmore

end Line

/-! ## The whole table -/

/-- Appending to a table without holes makes none. -/
theorem NoHoles.append {c : LkCtx} (h : NoHoles c) (d : LkKbdiacr) : NoHoles (lkAppendDiacr c d) := by
  intro i
  change ((c.accentTable.append (some d)).get i).isSome = true ↔ i < c.accentTable.count + 1
  rw [LkArray.get_append]
  split
  · rename_i hi
    simp [hi]
  · rw [h i]
    omega

theorem dumpedDiacs_append (c : LkCtx) (d : LkKbdiacr) :
    dumpedDiacs (lkAppendDiacr c d) = dumpedDiacs c ++ [d] := by
  have hget (i : Nat) : (lkAppendDiacr c d).accentTable.get i =
      if i = c.accentTable.count then some d else c.accentTable.get i :=
    LkArray.get_append _ _ i
  have hcount : (lkAppendDiacr c d).accentTable.count = c.accentTable.count + 1 := rfl
  have hold : (List.range c.accentTable.count).filterMap (lkAppendDiacr c d).accentTable.get =
      dumpedDiacs c := by
    refine List.filterMap_congr fun i hi => ?_
    rw [hget, if_neg (Nat.ne_of_lt (List.mem_range.mp hi))]
  unfold dumpedDiacs at hold ⊢
  rw [hcount, List.range_succ, List.filterMap_append, hold]
  simp [hget]

theorem NoHoles.appendAll {c : LkCtx} (h : NoHoles c) (ds : List LkKbdiacr) :
    NoHoles (ds.foldl lkAppendDiacr c) ∧
      dumpedDiacs (ds.foldl lkAppendDiacr c) = dumpedDiacs c ++ ds := by
  induction ds generalizing c with
  | nil => exact ⟨h, by simp⟩
  | cons d ds ih =>
    obtain ⟨hholes, hdiacs⟩ := ih (h.append d)
    refine ⟨hholes, ?_⟩
    rw [List.foldl_cons, hdiacs, dumpedDiacs_append, List.append_assoc, List.singleton_append]

theorem noHoles_lkInit (flags : LkFlags) (charset : Nat) : NoHoles (lkInit flags charset) := by
  intro i
  have hget : (lkInit flags charset).accentTable.get i = none := LkArray.get_init i
  rw [hget]
  simp [lkInit, LkArray.init]

/-- A table without holes is read back from what `lk_dump_diacs` writes of it, entry by entry. -/
theorem lkParseKeymap_lkDumpDiacs (find : FindIncl) {ctx : LkCtx} (id : Nat) (pathname : List Char)
    (hholes : NoHoles ctx) (h : ∀ d ∈ liveDiacrs ctx, DiacrReadsBack ctx d) :
    ∃ fuel r, lkParseKeymap find fuel (lkInit ctx.flags ctx.charset) emptyStack
        ⟨id, pathname, lkDumpDiacs ctx⟩ = some (true, r) ∧
      NoHoles r.parser.ctx ∧ liveDiacrs r.parser.ctx = liveDiacrs ctx := by
  set fp : Kbdfile := ⟨id, pathname, lkDumpDiacs ctx⟩ with hfp
  have hlive := hholes.liveDiacrs_eq
  rw [hlive] at h
  obtain ⟨p', hp', hread⟩ := reads_diacLines find (startReader (lkInit ctx.flags ctx.charset) fp)
    h (c := lkInit ctx.flags ctx.charset) rfl rfl (between_start _ fp)
  obtain ⟨fuel, r, hrun, hctx⟩ := @accepted_of_reads find _ _ fp _ hread hp'
  obtain ⟨hholes', hdiacs⟩ :=
    (noHoles_lkInit ctx.flags ctx.charset).appendAll (dumpedDiacs ctx)
  refine ⟨fuel, r, hrun, ?_, ?_⟩
  · rwa [hctx]
  · rw [hctx, hholes'.liveDiacrs_eq, hdiacs, hlive]
    rfl

/-- A name that is read as the result. -/
theorem resultReadsBack_of_name {ctx : LkCtx} {result : Nat} {n : String}
    (hname : codetoksym ctx (resultCode ctx result) = some n) (hne : n ≠ "")
    (hback : convertCode ctx (ksymtocode ctx (bytes n) .toAuto) (composeDirection ctx) = result) :
    ResultReadsBack ctx result := by
  intro name' hname'
  obtain rfl := Option.some.inj (hname.symm.trans hname')
  exact ⟨hne, hback⟩

/-- In the Unicode mode, a definition with escaped characters and one with code points. -/
def accentCtx : LkCtx :=
  [⟨0x27, 0x5c, 0x78⟩, ⟨0x301, 0x3b1, 0x3ac⟩].foldl lkAppendDiacr (lkInit { preferUnicode := true } 0)

theorem lkParseKeymap_lkDumpDiacs_accents :
    ∃ fuel r, lkParseKeymap (findText []) fuel (lkInit accentCtx.flags accentCtx.charset) emptyStack
        ⟨0, [], lkDumpDiacs accentCtx⟩ = some (true, r) ∧
      NoHoles r.parser.ctx ∧ liveDiacrs r.parser.ctx = liveDiacrs accentCtx := by
  obtain ⟨hholes, hdiacs⟩ : NoHoles accentCtx ∧
      dumpedDiacs accentCtx = [⟨0x27, 0x5c, 0x78⟩, ⟨0x301, 0x3b1, 0x3ac⟩] :=
    (noHoles_lkInit { preferUnicode := true } 0).appendAll _
  have hx : ResultReadsBack accentCtx 0x78 :=
    resultReadsBack_of_name (n := "x") (by decide +kernel) (by decide) (by decide +kernel)
  have halpha : ResultReadsBack accentCtx 0x3ac :=
    resultReadsBack_of_name (n := "alphaaccent") (by decide +kernel) (by decide)
      (by decide +kernel)
  have hfits {c : Nat} (hc : c < 0xf000) : FieldFits accentCtx c := hc
  apply lkParseKeymap_lkDumpDiacs (findText []) 0 [] hholes
  intro d hd
  have hlive : liveDiacrs accentCtx = [⟨0x27, 0x5c, 0x78⟩, ⟨0x301, 0x3b1, 0x3ac⟩] :=
    hholes.liveDiacrs_eq.trans hdiacs
  rw [hlive] at hd
  simp only [List.mem_cons, List.not_mem_nil, or_false] at hd
  rcases hd with rfl | rfl
  · exact ⟨hfits (by decide), hfits (by decide), hfits (by decide), hx⟩
  · exact ⟨hfits (by decide), hfits (by decide), hfits (by decide), halpha⟩

end Kbd.Keymap
