import Kbd.Keymap.Verify.NameCodes
import Kbd.Keymap.Verify.Values

/-!
# Which codes are read back

For each code that a table can hold, it is known whether `loadkeys` reads what `dumpkeys` prints for it
as the same code (`readsBack_lkInit_iff`). The exceptions are the codes of a type without a table, the
diacritics of the second type where `fd` is not the standard output, and in the Unicode mode the
characters that are no code points, the code points of ASCII and the Greek letter that shares its name
with the micro sign.
-/

namespace Kbd.Keymap

open Kbd.Lib

/-! ## Codes and types -/

section Types

variable {n : Nat}

theorem ktyp_natCast (n : Nat) : ktyp n = (n / 256 : Nat) := rfl

theorem kval_natCast (n : Nat) : kval n = (n % 256 : Nat) := rfl

theorem ktyp_latin (hn : n < 0x100) : ktyp n = ktLatin := by
  rw [ktyp_natCast, Nat.div_eq_of_lt hn]
  rfl

theorem U_cast_eq (hn : n < 0x10000) (hbig : 0x1000 ≤ n) : n ^^^ 0xf000 < 0xf000 := by
  have h := U_eq (Int.natCast_nonneg n)
  rw [U_natCast] at h
  omega

/-- The text of a number. -/
theorem number_eq (hn : n < 65536) : bytes "0x" ++ fmt04X (toUnsigned n) = numberWord n := by
  rw [toUnsigned_natCast (by omega)]
  rfl

/-- A code of a type with a table, but the letters. -/
theorem printKeysym_of_type (ctx : LkCtx) (style : PrintStyle) (hn : n < 0xf00)
    (hletter : n / 256 ≠ 11) :
    printKeysym ctx style n = ' ' :: keysymText ctx style n (ktyp n) false := by
  have htype : ¬ ktyp n ≥ symsSize := by
    rw [ktyp_natCast, symsSize_eq]
    omega
  have hnot : ¬ ktyp n = ktLetter := by
    rw [ktyp_natCast]
    simp only [ktLetter]
    omega
  rw [printKeysym, if_neg htype, if_neg hnot]

theorem printKeysym_of_letter (ctx : LkCtx) (style : PrintStyle) (hletter : n / 256 = 11) :
    printKeysym ctx style n = ' ' :: '+' :: keysymText ctx style n ktLatin true := by
  have htype : ¬ ktyp n ≥ symsSize := by
    rw [ktyp_natCast, symsSize_eq]
    omega
  have hyes : ktyp n = ktLetter := by
    rw [ktyp_natCast, hletter]
    rfl
  rw [printKeysym, if_neg htype, if_pos hyes]

/-- What is printed where no name is printed. -/
def numberText (n : Nat) (plus : Bool) : List Char :=
  numberWord n ++ List.replicate (if plus then 9 else 10) ' '

theorem keysymText_numeric (ctx : LkCtx) {style : PrintStyle} (hstyle : style.numeric = true)
    (hn : n < 65536) (t : Int) (plus : Bool) :
    keysymText ctx style n t plus = numberText n plus := by
  rw [keysymText, if_pos hstyle, number_eq hn, numberText]
  cases plus <;> simp [List.replicate]

section Names

variable (ctx : LkCtx) {style : PrintStyle} (hstyle : style.numeric = false) {t : Int} (plus : Bool)

include hstyle

theorem keysymText_name {p : String}
    (h : (if t = ktLatin then codetoksym ctx n else none) = some p) :
    keysymText ctx style n t plus = fmtS (if plus then 15 else 16) (bytes p) := by
  rw [keysymText, hstyle, if_neg Bool.false_ne_true, h]

variable (h : (if t = ktLatin then codetoksym ctx n else none) = none)

include h

theorem keysymText_symName {p : String} (hsym : symName t (kval n) = some p) :
    keysymText ctx style n t plus = fmtS (if plus then 15 else 16) (bytes p) := by
  rw [keysymText, hstyle, if_neg Bool.false_ne_true, h]
  simp only [hsym]

variable (hsym : symName t (kval n) = none)

include hsym

theorem keysymText_meta {p : String} (ht : t = ktMeta) (hv : kval n < 128)
    (hlatin : symName ktLatin (kval n) = some p) :
    keysymText ctx style n t plus = bytes "Meta_" ++ fmtS 11 (bytes p) := by
  subst ht
  rw [keysymText, hstyle, if_neg Bool.false_ne_true, h]
  simp only [hsym, hv, hlatin, decide_true, Bool.and_self, ↓reduceIte]

theorem keysymText_dead2 {p : String} (ht : t = ktDead2)
    (hlatin : symName ktLatin (kval n) = some p) :
    keysymText ctx style n t plus =
      if style.stdout then bytes "dead2_" ++ fmtS 10 (bytes p) else [] := by
  subst ht
  have hmeta : ¬ ktDead2 = ktMeta := by decide
  rw [keysymText, hstyle, if_neg Bool.false_ne_true, h]
  simp only [hsym, hmeta, kval_lt, hlatin, decide_true, decide_false, Bool.and_self,
    Bool.false_and, Bool.false_eq_true, ↓reduceIte]

theorem keysymText_number (hn : n < 65536)
    (hmeta : (if t = ktMeta && kval n < 128 then symName ktLatin (kval n) else none) = none)
    (hdead : (if t = ktDead2 && kval n < 256 then symName ktLatin (kval n) else none) = none) :
    keysymText ctx style n t plus = numberText n plus := by
  rw [keysymText, hstyle, if_neg Bool.false_ne_true, h, number_eq hn, numberText]
  simp only [hsym, hmeta, hdead]
  cases plus <;> simp [List.replicate]

end Names

end Types

/-! ## Conversions -/

section Convert

variable {ctx : LkCtx} {n : Nat}

/-- Without Unicode no code of the tables is converted. -/
theorem convertCode_8bit (h8bit : ctx.flags.preferUnicode = false) (hn : n < 0x1000) :
    convertCode ctx n .toAuto = n := by
  have hsmall : ¬ (n : Int) ≥ 0x1000 := by omega
  simp [convertCode, Direction.resolve, h8bit, hsmall]

theorem convertCode_ascii (ctx : LkCtx) (hn : n < 0x80) (d : Direction) :
    convertCode ctx n d = n := by
  have hsmall : ¬ (n : Int) ≥ 0x1000 := by omega
  have hlow : (n : Int) < 0x80 := by omega
  simp [convertCode, hsmall, hlow]

theorem convertCode_meta (ctx : LkCtx) (ht : n / 256 = 8) : convertCode ctx n .toAuto = n := by
  have hmeta : ktyp n = ktMeta := by
    rw [ktyp_natCast, ht]
    rfl
  rw [convertCode, if_pos hmeta]

/-- In the Unicode mode a traditional code is looked up by its name. -/
theorem convertCode_unicode (hu : ctx.flags.preferUnicode = true) (hlow : 0x80 ≤ n)
    (hn : n < 0x1000) (hmeta : n / 256 ≠ 8) {r : Int}
    (hr : codetoksym ctx n = none ∧ r = n ∨
      ∃ ksym, codetoksym ctx n = some ksym ∧ ksymtocode ctx (bytes ksym) .toUnicode = r) :
    convertCode ctx n .toAuto =
      if ktyp n = ktLetter ∧ U r < 0x100 then K ktLetter (U r) else r := by
  have hnot : ¬ ktyp n = ktMeta := by
    rw [ktyp_natCast]
    simp only [ktMeta]
    omega
  have hsmall : ¬ (n : Int) ≥ 0x1000 := by omega
  have hbig : ¬ (n : Int) < 0x80 := by omega
  rcases hr with ⟨hnone, rfl⟩ | ⟨ksym, hsym, hr⟩
  · simp [convertCode, Direction.resolve, hu, hnot, hsmall, hbig, hnone]
  · simp [convertCode, Direction.resolve, hu, hnot, hsmall, hbig, hsym, hr]

end Convert

/-! ## The characters of the tables -/

section Latin

variable {ctx : LkCtx} {n : Nat}

theorem codetoksym_ascii (ctx : LkCtx) (hn : n < 0x80) {name : String}
    (h : iso646Syms[n]? = some name) : codetoksym ctx n = some name := by
  rw [codetoksym, if_neg (by omega), if_pos (by omega), if_pos (by omega)]
  exact h

/-- The characters and letters from 0x80 on. -/
theorem codetoksym_nameAt (ctx : LkCtx) (hlow : 0x80 ≤ n) (ht : n / 256 = 0 ∨ n / 256 = 11) :
    codetoksym ctx n = (currentCharset ctx).nameAt (n % 256) := by
  have hmeta : ¬ ktyp n = ktMeta := by
    rw [ktyp_natCast]
    simp only [ktMeta]
    omega
  have htype : ¬ (ktyp n ≠ ktLetter && ktyp n > ktLatin) = true := by
    rw [Bool.and_eq_true, decide_eq_true_eq, decide_eq_true_eq, ktyp_natCast]
    simp only [ktLetter, ktLatin]
    omega
  rw [codetoksym, if_neg (by omega), if_pos (by omega), if_neg (by omega), if_neg hmeta,
    if_neg htype, kval_natCast, Int.toNat_natCast]

theorem nameAt_none (hcharset : ctx.charset = 0) {v : Nat} (hv : v < 0xa0) :
    (currentCharset ctx).nameAt v = none := by
  have hlt : v < latin1.start := hv
  rw [currentCharset_eq hcharset, Cs.nameAt, if_pos hlt]

/-- A character of ASCII is read back. -/
theorem readsBack_ascii (ctx : LkCtx) (style : PrintStyle) (hn : n < 0x80) :
    ReadsBack ctx style n := by
  have htext := printKeysym_of_type ctx style (show n < 0xf00 by omega) (by omega)
  cases hstyle : style.numeric with
  | true =>
    rw [keysymText_numeric ctx hstyle (by omega)] at htext
    exact (readsBack_of_number (by omega) htext).mpr (convertCode_ascii ctx hn _)
  | false =>
    obtain ⟨name, hname, hne⟩ := exists_ascii (show n < 128 from hn)
    have hsym : (if ktyp n = ktLatin then codetoksym ctx n else none) = some name := by
      rw [ktyp_latin (by omega), if_pos rfl, codetoksym_ascii ctx hn hname]
    rw [keysymText_name ctx hstyle false hsym] at htext
    exact (readsBack_of_name (nameCode_of_mem (mem_nameCodes_latin hn hname) hne).isName
      (ksymtocodeRec_of_ascii ctx hn hname hne _ _) (by omega) htext).mpr rfl

/-- The names of the values between ASCII and the characters are empty. -/
theorem symName_control {v : Nat} (hlow : 0x80 ≤ v) (hv : v < 0xa0) : symName ktLatin v = none := by
  have hall : ∀ i < 32, symName ktLatin ((128 + i : Nat) : Int) = none := by decide +kernel
  have h := hall (v - 128) (by omega)
  rwa [Nat.add_sub_cancel' hlow] at h

theorem symName_latin {v : Nat} {name : String} :
    symName ktLatin v = some name ↔ iso646Syms[v]? = some name ∧ name ≠ "" := by
  have hsize : getSymSize ktLatin = iso646Syms.length := rfl
  have hget : getSym ktLatin v = iso646Syms[v]? := rfl
  rw [symName, hget, hsize]
  split
  · exact Option.filter_eq_some_iff.trans (and_congr_right fun _ => decide_eq_true_iff)
  · rename_i hout
    rw [List.getElem?_eq_none (by omega)]
    exact iff_of_false nofun fun h => nomatch h.1

theorem readsBack_control (hcharset : ctx.charset = 0) (style : PrintStyle) (hlow : 0x80 ≤ n)
    (hn : n < 0xa0) : ReadsBack ctx style n := by
  have htext := printKeysym_of_type ctx style (show n < 0xf00 by omega) (by omega)
  have hnone : codetoksym ctx n = none := by
    rw [codetoksym_nameAt ctx hlow (by omega), nameAt_none hcharset (by omega)]
  have hconv : convertCode ctx n .toAuto = n := by
    cases hu : ctx.flags.preferUnicode with
    | false => exact convertCode_8bit hu (by omega)
    | true =>
      have hletter : ¬ (ktyp n = ktLetter ∧ U n < 0x100) := by
        rw [ktyp_natCast]
        simp only [ktLetter]
        omega
      rw [convertCode_unicode hu hlow (by omega) (by omega) (.inl ⟨hnone, rfl⟩), if_neg hletter]
  have hnumber : keysymText ctx style n (ktyp n) false = numberText n false := by
    cases hstyle : style.numeric with
    | true => exact keysymText_numeric ctx hstyle (by omega) _ _
    | false =>
      have htype := ktyp_latin (show n < 0x100 by omega)
      refine keysymText_number ctx hstyle false ?_ ?_ (by omega) ?_ ?_
      · rw [htype, if_pos rfl, hnone]
      · rw [htype, kval_natCast, Nat.mod_eq_of_lt (by omega), symName_control hlow hn]
      · rw [htype]
        rfl
      · rw [htype]
        rfl
  rw [hnumber] at htext
  exact (readsBack_of_number (by omega) htext).mpr hconv

/-- A character of the first character set is read back as its code point in the Unicode mode. -/
theorem readsBack_latin1 (hcharset : ctx.charset = 0) (style : PrintStyle) (hlow : 0xa0 ≤ n)
    (hn : n < 0x100) : ReadsBack ctx style n ↔ ctx.flags.preferUnicode = false := by
  have htext := printKeysym_of_type ctx style (show n < 0xf00 by omega) (by omega)
  have htype := ktyp_latin hn
  have hU := (le_U (n := n) (by omega)).1
  obtain ⟨name, hname⟩ := exists_latinName ⟨hlow, hn⟩
  have hsym : codetoksym ctx n = some name := by
    rw [codetoksym_nameAt ctx (by omega) (by omega), Nat.mod_eq_of_lt hn,
      hname.nameAt hcharset hlow]
  have hread : ReadsBack ctx style n ↔
      (if ctx.flags.preferUnicode = true then U n else n) = n := by
    cases hstyle : style.numeric with
    | true =>
      rw [keysymText_numeric ctx hstyle (by omega)] at htext
      rw [readsBack_of_number (by omega) htext]
      cases hu : ctx.flags.preferUnicode with
      | false => rw [convertCode_8bit hu (by omega), if_neg Bool.false_ne_true]
      | true =>
        have hcode := hname.ksymtocode_unicode hcharset (d := .toUnicode) rfl
        have hletter : ¬ (ktyp n = ktLetter ∧ U (U n) < 0x100) := by
          rw [htype]
          exact fun h => absurd h.1 (by decide)
        rw [convertCode_unicode hu (by omega) (by omega) (by omega) (.inr ⟨name, hsym, hcode⟩),
          if_neg hletter, if_pos rfl]
    | false =>
      have hif : (if ktyp n = ktLatin then codetoksym ctx n else none) = some name := by
        rw [htype, if_pos rfl, hsym]
      rw [keysymText_name ctx hstyle false hif] at htext
      refine readsBack_of_name hname.nameCode.isName ?_ ?_ htext
      · cases hu : ctx.flags.preferUnicode with
        | false =>
          exact hname.ksymtocode_8bit hcharset hlow (by simp [Direction.resolve, hu])
        | true =>
          exact hname.ksymtocode_unicode hcharset (by simp [Direction.resolve, hu])
      · split <;> omega
  rw [hread]
  cases ctx.flags.preferUnicode with
  | false => simp
  | true =>
    simp
    omega

end Latin

/-! ## Letters with Caps Lock -/

section Letter

variable {ctx : LkCtx} {n : Nat} (ht : n / 256 = 11)

theorem addCapslock_latin (ctx : LkCtx) {v : Nat} (hv : v < 0x100)
    (h : ctx.flags.preferUnicode = false ∨ v < 0x80) : addCapslock ctx v = K ktLetter v := by
  have hcond : (ktyp v = ktLatin && (!ctx.flags.preferUnicode || decide ((v : Int) < 0x80))) = true := by
    rw [ktyp_latin hv]
    rcases h with h | h <;> simp [h]
  rw [addCapslock, if_pos hcond, kval_natCast, Nat.mod_eq_of_lt hv]

theorem addCapslock_unicode (ctx : LkCtx) {v : Nat} (hv : v < 0x100) :
    addCapslock ctx (U v) = K ktLetter v := by
  have hle := (le_U (n := v) (by omega)).1
  have hUU : U (U v) = v := U_U (by omega)
  have htype : ¬ ktyp (U v) = ktLatin := by
    simp only [ktyp, ktLatin]
    omega
  rw [addCapslock, if_neg (by simp [htype]), hUU, if_pos (by omega)]

include ht

/-- A letter is what Caps Lock makes of it. -/
theorem addCapslock_letter (hcharset : ctx.charset = 0) : addCapslock ctx n = n := by
  have htype : ktyp n = ktLetter := by
    rw [ktyp_natCast, ht]
    rfl
  have hU : ¬ U n < 0x100 := by
    have := (le_U (show n < 0xf000 by omega)).1
    omega
  have hconv : convertCode ctx n .toAuto = n := by
    cases hu : ctx.flags.preferUnicode with
    | false => exact convertCode_8bit hu (by omega)
    | true =>
      have hsym := codetoksym_nameAt ctx (show 0x80 ≤ n by omega) (.inr ht)
      by_cases hlow : n % 256 < 0xa0
      · rw [nameAt_none hcharset hlow] at hsym
        rw [convertCode_unicode hu (by omega) (by omega) (by omega) (.inl ⟨hsym, rfl⟩),
          if_neg fun h => hU h.2]
      · obtain ⟨name, hname⟩ := exists_latinName (v := n % 256) ⟨by omega, by omega⟩
        have hcode := hname.ksymtocode_unicode hcharset (d := .toUnicode) rfl
        have hUU : U (U (n % 256 : Nat)) = (n % 256 : Nat) := U_U (by omega)
        rw [hname.nameAt hcharset (by omega)] at hsym
        rw [convertCode_unicode hu (by omega) (by omega) (by omega) (.inr ⟨name, hsym, hcode⟩),
          hUU, if_pos ⟨htype, by omega⟩]
        simp only [K, ktLetter]
        omega
  rw [addCapslock, htype, if_neg (by simp [ktLetter, ktLatin]), if_neg hU, hconv]

/-- A letter is read back. -/
theorem readsBack_capsLetter (hcharset : ctx.charset = 0) (style : PrintStyle) :
    ReadsBack ctx style n := by
  have htext := printKeysym_of_letter ctx style ht
  have hcaps := addCapslock_letter ht hcharset
  have hK : K ktLetter (n % 256 : Nat) = n := by
    simp only [K, ktLetter]
    omega
  have hsym := codetoksym_nameAt ctx (show 0x80 ≤ n by omega) (.inr ht)
  cases hstyle : style.numeric with
  | true =>
    rw [keysymText_numeric ctx hstyle (by omega)] at htext
    exact (readsBack_of_plusNumber (by omega) htext).mpr hcaps
  | false =>
    by_cases hhigh : 0xa0 ≤ n % 256
    · obtain ⟨name, hname⟩ := exists_latinName (v := n % 256) ⟨hhigh, by omega⟩
      rw [hname.nameAt hcharset hhigh] at hsym
      rw [keysymText_name ctx hstyle true (by rw [if_pos rfl, hsym])] at htext
      cases hu : ctx.flags.preferUnicode with
      | false =>
        have hcode := hname.ksymtocode_8bit (d := .toAuto) hcharset hhigh
          (by simp [Direction.resolve, hu])
        rw [readsBack_of_plusName hname.nameCode.isName hcode (by omega) htext,
          addCapslock_latin ctx (by omega) (.inl hu), hK]
      | true =>
        have hcode := hname.ksymtocode_unicode (d := .toAuto) hcharset
          (by simp [Direction.resolve, hu])
        have hle := (le_U (n := n % 256) (by omega)).1
        rw [readsBack_of_plusName hname.nameCode.isName hcode (by omega) htext,
          addCapslock_unicode ctx (by omega), hK]
    · rw [nameAt_none hcharset (by omega)] at hsym
      have hif : (if ktLatin = ktLatin then codetoksym ctx n else none) = none := by
        rw [if_pos rfl, hsym]
      by_cases hlow : n % 256 < 0x80
      · obtain ⟨name, hname, hne⟩ := exists_ascii (show n % 256 < 128 from hlow)
        have hsymName : symName ktLatin (kval n) = some name := symName_latin.mpr ⟨hname, hne⟩
        rw [keysymText_symName ctx hstyle true hif hsymName] at htext
        rw [readsBack_of_plusName (nameCode_of_mem (mem_nameCodes_latin hlow hname) hne).isName
          (ksymtocodeRec_of_ascii ctx hlow hname hne _ _) (by omega) htext,
          addCapslock_latin ctx (by omega) (.inr hlow), hK]
      · have hnone : symName ktLatin (kval n) = none :=
          symName_control (v := n % 256) (by omega) (by omega)
        rw [keysymText_number ctx hstyle true hif hnone (by omega) rfl rfl] at htext
        exact (readsBack_of_plusNumber (by omega) htext).mpr hcaps

end Letter

/-! ## The other types -/

section OtherTypes

/-- The diacritics that are printed to the standard output: those whose character has a name. -/
def isDead2 (n : Nat) : Bool := (0xd00 ≤ n && n < 0xd80) || (0xda0 ≤ n && n < 0xe00)

/-- The names of actions are not empty. -/
theorem ne_of_getSym {t v : Nat} {name : String} (ht : 0 < t)
    (h : (symsByType.getD t [])[v]? = some name) : name ≠ "" := by
  have hall : (symsByType.tail.all fun table => table.all fun name => decide (name ≠ "")) = true := by
    decide +kernel
  have hlt : t < symsByType.length := by
    by_contra hno
    rw [List.getD_eq_default _ _ (Nat.not_lt.mp hno)] at h
    cases h
  rw [List.getD_eq_getElem _ _ hlt] at h
  have htable : symsByType[t] ∈ symsByType.tail := by
    refine List.mem_iff_getElem?.mpr ⟨t - 1, ?_⟩
    rw [List.getElem?_tail, Nat.sub_add_cancel ht, List.getElem?_eq_getElem hlt]
  exact of_decide_eq_true
    (List.all_eq_true.mp (List.all_eq_true.mp hall _ htable) _ (List.mem_of_getElem? h))

theorem isSome_symName_latin {v : Nat} (hv : v < 256) :
    (symName ktLatin v).isSome = (decide (v < 0x80) || decide (0xa0 ≤ v)) := by
  have hall : ∀ v < 256, (symName ktLatin (v : Nat)).isSome =
      (decide (v < 0x80) || decide (0xa0 ≤ v)) := by decide +kernel
  exact hall v hv

/-- A name with a prefix is a name. -/
theorem isName_prefixed {v : Nat} {name : String} (hv : v < 256)
    (h : symName ktLatin v = some name) :
    isName (bytes "Meta_" ++ bytes name) = true ∧ isName (bytes "dead2_" ++ bytes name) = true := by
  have hall : ∀ v < 256, ((symName ktLatin (v : Nat)).all fun name =>
      isName (bytes "Meta_" ++ bytes name) && isName (bytes "dead2_" ++ bytes name)) = true := by
    decide +kernel
  have hname := hall v hv
  rw [h] at hname
  exact Bool.and_eq_true_iff.mp hname

theorem dropLit_append (lit : String) (s : List Char) : dropLit lit (bytes lit ++ s) = some s := by
  rw [dropLit, if_pos (List.isPrefixOf_iff_prefix.mpr (List.prefix_append _ _)), List.drop_left]

/-- A prefix counts for the width. -/
theorem append_fmtS (w s : List Char) (k : Nat) : w ++ fmtS k s = fmtS (w.length + k) (w ++ s) := by
  rw [fmtS, fmtS, List.rightpad, List.rightpad, List.length_append, List.append_assoc,
    Nat.add_sub_add_left]

/-- The names of the table for ASCII mean their characters in the first character set. -/
theorem ksymtocodeRec_symName {ctx : LkCtx} (hcharset : ctx.charset = 0) {v : Nat} {name : String}
    (hv : v < 256) (h : symName ktLatin v = some name) (depth : Nat) :
    ksymtocodeRec ctx (depth + 1) (bytes name) .to8bit = v := by
  obtain ⟨hget, hne⟩ := symName_latin.mp h
  rcases Nat.lt_or_ge v 0x80 with hlow | hlow
  · exact ksymtocodeRec_of_ascii ctx hlow hget hne depth _
  rcases Nat.lt_or_ge v 0xa0 with hcontrol | hhigh
  · rw [symName_control hlow hcontrol] at h
    cases h
  obtain ⟨name', hname⟩ := exists_latinName ⟨hhigh, hv⟩
  have hsame : iso646Syms[v]? = some name' := by
    have hdrop : (iso646Syms.drop 128)[v - 128]? = some name' := by
      rw [drop_iso646Syms, List.getElem?_append_right (by rw [List.length_replicate]; omega),
        List.length_replicate, Nat.sub_sub, List.getElem?_map, hname.sym, Option.map_some]
    rwa [List.getElem?_drop, Nat.add_sub_cancel' hlow] at hdrop
  obtain rfl := Option.some.inj (hget.symm.trans hsame)
  exact hname.ksymtocodeRec_8bit hcharset hhigh rfl depth

section Prefixed

variable {ctx : LkCtx} (hcharset : ctx.charset = 0) {v : Nat} {name : String} (hv : v < 256)
  (h : symName ktLatin v = some name) (d : Direction)

include hcharset hv h

theorem ksymtocode_meta : ksymtocode ctx (bytes "Meta_" ++ bytes name) d = K ktMeta v := by
  rw [ksymtocode, ksymtocodeRec_succ, ownCode, dropLit_append]
  simp only [Option.bind_some]
  rw [ksymtocodeRec_symName hcharset hv h, if_pos (ktyp_latin hv), kval_natCast,
    Nat.mod_eq_of_lt hv, Option.some_or, Option.some_or, Option.some_or, Option.some_or,
    Option.getD_some]

theorem ksymtocode_dead2 : ksymtocode ctx (bytes "dead2_" ++ bytes name) d = K ktDead2 v := by
  have hmeta : dropLit "Meta_" (bytes "dead2_" ++ bytes name) = none := rfl
  rw [ksymtocode, ksymtocodeRec_succ, ownCode, hmeta, dropLit_append]
  simp only [Option.bind_none, Option.bind_some]
  rw [ksymtocodeRec_symName hcharset hv h, if_pos (ktyp_latin hv), kval_natCast,
    Nat.mod_eq_of_lt hv, Option.none_or, Option.some_or, Option.some_or, Option.some_or,
    Option.getD_some]

end Prefixed

variable {ctx : LkCtx} {n : Nat} (ht : 0 < n / 256) (hn : n < 0xf00) (hletter : n / 256 ≠ 11)

include ht hn hletter

theorem convertCode_type : convertCode ctx n .toAuto = n := by
  by_cases hmeta : n / 256 = 8
  · exact convertCode_meta ctx hmeta
  cases hu : ctx.flags.preferUnicode with
  | false => exact convertCode_8bit hu (by omega)
  | true =>
    have hnot : ¬ (ktyp n = ktLetter ∧ U n < 0x100) := by
      rw [ktyp_natCast]
      simp only [ktLetter]
      omega
    have hsym : codetoksym ctx n = (symsByType.getD (n / 256) [])[n % 256]? := by
      have h8 : ¬ ktyp n = ktMeta := by
        rw [ktyp_natCast]
        simp only [ktMeta]
        omega
      have htype : (ktyp n ≠ ktLetter && ktyp n > ktLatin) = true := by
        rw [Bool.and_eq_true, decide_eq_true_eq, decide_eq_true_eq, ktyp_natCast]
        simp only [ktLetter, ktLatin]
        omega
      rw [codetoksym, if_neg (by omega), if_pos (by omega), if_neg (by omega), if_neg h8,
        if_pos htype]
      rfl
    refine (convertCode_unicode hu (by omega) (by omega) hmeta ?_).trans (if_neg hnot)
    cases hget : (symsByType.getD (n / 256) [])[n % 256]? with
    | none => exact .inl ⟨hsym.trans hget, rfl⟩
    | some name =>
      refine .inr ⟨name, hsym.trans hget, ?_⟩
      rw [ksymtocode_of_type ctx ht (by omega) hget (ne_of_getSym ht hget)]
      simp only [K]
      omega

/-- A code of another type is read back, if its name is written to `fd`. -/
theorem readsBack_type (hcharset : ctx.charset = 0) (style : PrintStyle) :
    ReadsBack ctx style n ↔ (style.numeric || style.stdout || !isDead2 n) = true := by
  have htext := printKeysym_of_type ctx style hn hletter
  have hconv : convertCode ctx n .toAuto = n := convertCode_type ht hn hletter
  cases hstyle : style.numeric with
  | true =>
    rw [keysymText_numeric ctx hstyle (by omega)] at htext
    exact iff_of_true ((readsBack_of_number (by omega) htext).mpr hconv) rfl
  | false =>
    have hlatin : ¬ ktyp n = ktLatin := by
      rw [ktyp_natCast]
      simp only [ktLatin]
      omega
    have hif : (if ktyp n = ktLatin then codetoksym ctx n else none) = none := if_neg hlatin
    have hdead : isDead2 n = (decide (n / 256 = 13) && (symName ktLatin (kval n)).isSome) := by
      rw [kval_natCast, isSome_symName_latin (by omega), isDead2, Bool.eq_iff_iff]
      simp only [Bool.or_eq_true, Bool.and_eq_true, decide_eq_true_eq]
      omega
    have hother (h : ReadsBack ctx style n) (hno : isDead2 n = false) :
        ReadsBack ctx style n ↔ (false || style.stdout || !isDead2 n) = true := by
      rw [hno, Bool.not_false, Bool.or_true]
      exact iff_of_true h rfl
    cases hsym : symName (ktyp n) (kval n) with
    | some p =>
      have hget : (symsByType.getD (n / 256) [])[n % 256]? = some p := by
        unfold symName at hsym
        split at hsym
        · exact (Option.filter_eq_some_iff.mp hsym).1
        · cases hsym
      have hne := ne_of_getSym ht hget
      have h13 : n / 256 ≠ 13 := by
        intro h13
        rw [h13] at hget
        cases hget
      have hcode : ksymtocode ctx (bytes p) .toAuto = n := by
        rw [ksymtocode_of_type ctx ht (by omega) hget hne]
        simp only [K]
        omega
      rw [keysymText_symName ctx hstyle false hif hsym] at htext
      refine hother ((readsBack_of_name ?_ hcode (by omega) htext).mpr rfl) ?_
      · exact (nameCode_of_mem (mem_nameCodes_type ht hget) hne).isName
      · rw [hdead, decide_eq_false h13, Bool.false_and]
    | none =>
      by_cases h13 : n / 256 = 13
      · have htype : ktyp n = ktDead2 := by
          rw [ktyp_natCast, h13]
          rfl
        cases hlatin : symName ktLatin (kval n) with
        | some p =>
          rw [keysymText_dead2 ctx hstyle false hif hsym htype hlatin] at htext
          rw [hdead, hlatin, decide_eq_true h13, Option.isSome_some, Bool.and_self, Bool.not_true,
            Bool.or_false, Bool.false_or]
          have hv : n % 256 < 256 := Nat.mod_lt _ (by decide)
          cases hout : style.stdout with
          | true =>
            have hcode : ksymtocode ctx (bytes "dead2_" ++ bytes p) .toAuto = n := by
              rw [ksymtocode_dead2 hcharset hv hlatin]
              simp only [K, ktDead2]
              omega
            rw [hout, if_pos rfl, append_fmtS] at htext
            exact iff_of_true ((readsBack_of_name (isName_prefixed hv hlatin).2 hcode (by omega)
              htext).mpr rfl) rfl
          | false =>
            -- only the blank before the word is written to `fd`
            rw [hout, if_neg Bool.false_ne_true] at htext
            have hlex : lexValue ctx 1 [' '] = [] := by
              rw [lexValue_blank_cons ctx (by simp [NoBlank])]
              rfl
            refine iff_of_false ?_ Bool.false_ne_true
            unfold ReadsBack
            rw [htext]
            dsimp only
            rw [List.length_singleton, hlex]
            exact fun h => by cases h
        | none =>
          rw [keysymText_number ctx hstyle false hif hsym (by omega) (by rw [htype]; rfl)
            (by rw [hlatin, ite_self])] at htext
          refine hother ((readsBack_of_number (by omega) htext).mpr hconv) ?_
          rw [hdead, hlatin, Option.isSome_none, Bool.and_false]
      · have hno : isDead2 n = false := by rw [hdead, decide_eq_false h13, Bool.false_and]
        have htype : ¬ ktyp n = ktDead2 := by
          rw [ktyp_natCast]
          simp only [ktDead2]
          omega
        have hdead' : (if ktyp n = ktDead2 && kval n < 256 then symName ktLatin (kval n) else none) =
            none := by simp [htype]
        by_cases hmeta : n / 256 = 8 ∧ n % 256 < 128
        · have h8 : ktyp n = ktMeta := by
            rw [ktyp_natCast, hmeta.1]
            rfl
          have hv : n % 256 < 256 := Nat.mod_lt _ (by decide)
          obtain ⟨name, hname, hne⟩ := exists_ascii hmeta.2
          have hsymName : symName ktLatin (kval n) = some name := symName_latin.mpr ⟨hname, hne⟩
          have hlow : kval n < 128 := by
            rw [kval_natCast]
            omega
          have hcode : ksymtocode ctx (bytes "Meta_" ++ bytes name) .toAuto = n := by
            rw [ksymtocode_meta hcharset hv hsymName]
            simp only [K, ktMeta]
            omega
          rw [keysymText_meta ctx hstyle false hif hsym h8 hlow hsymName, append_fmtS] at htext
          exact hother ((readsBack_of_name (isName_prefixed hv hsymName).1 hcode (by omega)
            htext).mpr rfl) hno
        · have hmeta' : (if ktyp n = ktMeta && kval n < 128 then symName ktLatin (kval n) else
              none) = none := by
            refine if_neg ?_
            rw [Bool.and_eq_true, decide_eq_true_eq, decide_eq_true_eq, ktyp_natCast, kval_natCast]
            simp only [ktMeta]
            omega
          rw [keysymText_number ctx hstyle false hif hsym (by omega) hmeta' hdead'] at htext
          exact hother ((readsBack_of_number (by omega) htext).mpr hconv) hno

end OtherTypes

/-! ## Code points -/

section CodePoint

variable {ctx : LkCtx} {n : Nat}

theorem printKeysym_codePoint (ctx : LkCtx) {style : PrintStyle} (hn : 0xf00 ≤ n) (hlt : n < 65536)
    (h : (if style.numeric then none else codetoksym ctx n) = none) :
    printKeysym ctx style n =
      ' ' :: ('U' :: '+' :: fmt04X (n ^^^ 0xf000) ++ List.replicate 10 ' ') := by
  have htype : ktyp n ≥ symsSize := by
    rw [ktyp_natCast, symsSize_eq]
    omega
  have hxor : n ^^^ 0xf000 < 2 ^ 32 := Nat.xor_lt_two_pow (by omega) (by decide)
  rw [printKeysym, if_pos htype, h, U_natCast, toUnsigned_natCast hxor]
  rfl

theorem printKeysym_character (ctx : LkCtx) {style : PrintStyle} (hstyle : style.numeric = false)
    (hn : 0xf00 ≤ n) {p : String} (h : codetoksym ctx n = some p) :
    printKeysym ctx style n = ' ' :: fmtS 16 (bytes p) := by
  have htype : ktyp n ≥ symsSize := by
    rw [ktyp_natCast, symsSize_eq]
    omega
  rw [printKeysym, if_pos htype, hstyle, if_neg Bool.false_ne_true, h]

/-- There are no codes of a type without a table. -/
theorem not_readsBack_noType (ctx : LkCtx) (style : PrintStyle) (hn : 0xf00 ≤ n) (hlt : n < 0x1000) :
    ¬ ReadsBack ctx style n := by
  have hnone : codetoksym ctx n = none := by
    have hmeta : ¬ ktyp n = ktMeta := by
      rw [ktyp_natCast]
      simp only [ktMeta]
      omega
    have htype : (ktyp n ≠ ktLetter && ktyp n > ktLatin) = true := by
      rw [Bool.and_eq_true, decide_eq_true_eq, decide_eq_true_eq, ktyp_natCast]
      simp only [ktLetter, ktLatin]
      omega
    have h15 : n / 256 = 15 := by omega
    rw [codetoksym, if_neg (by omega), if_pos (by omega), if_neg (by omega), if_neg hmeta,
      if_pos htype, ktyp_natCast, h15]
    rfl
  have hhigh : ¬ n ^^^ 0xf000 < 0xf000 := by
    have h := U_eq (Int.natCast_nonneg n)
    rw [U_natCast] at h
    omega
  have hxor : n ^^^ 0xf000 < 65536 := Nat.xor_lt_two_pow (n := 16) (by omega) (by decide)
  rw [readsBack_of_unicode hxor (printKeysym_codePoint ctx hn (by omega) (by rw [hnone, ite_self]))]
  exact fun h => hhigh h.1

/-- The character that a code point has the name of. -/
theorem nameCode_of_codetoksym {ctx : LkCtx} {u : Nat} {name : String} (hlow : 0x80 ≤ u)
    (hu : u < 0xf000) (h : codetoksym ctx (U u) = some name) : NameCode name (u ^^^ 0xf000) := by
  obtain ⟨hle, hlt⟩ := le_U hu
  have hUU : U (U u) = u := U_U (by omega)
  rw [codetoksym, if_neg (by omega), if_neg (by omega), hUU, if_neg (by omega)] at h
  obtain ⟨cs, hcs, hname⟩ := List.exists_of_findSome?_eq_some h
  obtain ⟨q, hq, rfl⟩ := Option.map_eq_some_iff.mp hname
  have hfind := List.find?_some hq
  simp only [Bool.and_eq_true, decide_eq_true_eq] at hfind
  have huni : q.uni = u := by omega
  exact huni ▸ nameCode_of_mem (mem_nameCodes_char hcs (List.mem_of_find?_eq_some hq)) hfind.2

/-- The Greek letter has the name of the micro sign. -/
theorem codetoksym_mu (ctx : LkCtx) : codetoksym ctx (0xf3bc : Nat) = some "mu" := by
  have hempty : codetoksym lkInit (0xf3bc : Nat) = some "mu" := by decide +kernel
  exact hempty

variable (hu : ctx.flags.preferUnicode = true) (hn : 0x1000 ≤ n) (hlt : n < 65536)

include hu hn hlt

/-- A code point above ASCII is converted to itself. -/
theorem convertCode_codePoint : convertCode ctx (U (n ^^^ 0xf000 : Nat)) .toAuto = n ↔
    ¬ (0xf000 ≤ n ∧ n < 0xf080) := by
  have hx := U_cast_eq hlt hn
  have hxU : ((n ^^^ 0xf000 : Nat) : Int) = U n := (U_natCast n).symm
  have hU := U_eq (Int.natCast_nonneg n)
  by_cases hascii : n ^^^ 0xf000 < 0x80
  · have hUU : U (n ^^^ 0xf000 : Nat) = n := by rw [hxU, U_U (by omega)]
    have hmeta : ¬ ktyp n = ktMeta := by
      rw [ktyp_natCast]
      simp only [ktMeta]
      omega
    have hlow : U n < 0x80 := by omega
    have hbig : (n : Int) ≥ 0x1000 := by omega
    have hnot : ¬ (n : Int) < 0x80 := by omega
    rw [hUU]
    simp only [convertCode, hmeta, hbig, hlow, hnot, decide_true, decide_false, Bool.not_true,
      Bool.and_self, Bool.false_eq_true, ↓reduceIte]
    omega
  · have hto : ¬ Direction.toAuto = Direction.toUnicode := by decide
    rw [convertCode_U hu hx (by omega) _ (.inr rfl), if_neg hto, hxU, U_U (by omega)]
    refine iff_of_true rfl ?_
    omega

/-- In the Unicode mode a code point is read back, but those of ASCII, and the one whose name is that of
another character. -/
theorem readsBack_codePoint (hcharset : ctx.charset = 0) (style : PrintStyle) :
    ReadsBack ctx style n ↔
      ¬ (0xf000 ≤ n ∧ n < 0xf080) ∧ (style.numeric = true ∨ n ≠ 0xf3bc) := by
  have hx := U_cast_eq hlt hn
  have hU := U_eq (Int.natCast_nonneg n)
  have hxU : U n = (n ^^^ 0xf000 : Nat) := U_natCast n
  cases hsym : if style.numeric then none else codetoksym ctx n with
  | none =>
    have hmu : style.numeric = true ∨ n ≠ 0xf3bc := by
      by_contra hno
      obtain ⟨hnumeric, rfl⟩ := not_or.mp hno |>.imp_right not_not.mp
      rw [if_neg hnumeric, codetoksym_mu ctx] at hsym
      cases hsym
    rw [readsBack_of_unicode (by omega) (printKeysym_codePoint ctx (by omega) hlt hsym),
      convertCode_codePoint hu hn hlt]
    exact ⟨fun h => ⟨h.2, hmu⟩, fun h => ⟨hx, h.1⟩⟩
  | some p =>
    have hstyle : style.numeric = false := by
      cases hnumeric : style.numeric with
      | true =>
        rw [hnumeric] at hsym
        cases hsym
      | false => rfl
    rw [hstyle, if_neg Bool.false_ne_true] at hsym
    have htext := printKeysym_character ctx hstyle (show 0xf00 ≤ n by omega) hsym
    rw [hstyle, or_iff_right Bool.false_ne_true]
    have hfound := hsym
    rw [codetoksym, if_neg (by omega), if_neg (by omega)] at hfound
    split at hfound
    · -- a character of ASCII
      rename_i hascii
      rw [hxU] at hfound hascii
      have hlow : n ^^^ 0xf000 < 128 := by omega
      have hget : iso646Syms[n ^^^ 0xf000]? = some p := hfound
      obtain ⟨name, hname, hne⟩ := exists_ascii hlow
      obtain rfl := Option.some.inj (hname.symm.trans hget)
      rw [readsBack_of_name (nameCode_of_mem (mem_nameCodes_latin hlow hname) hne).isName
        (ksymtocodeRec_of_ascii ctx hlow hname hne _ _) (by omega) htext]
      omega
    · have hUx : U (n ^^^ 0xf000 : Nat) = n := by rw [← hxU, U_U (by omega)]
      have hcode : NameCode p n := by
        have hname := nameCode_of_codetoksym (by omega) hx (hUx.symm ▸ hsym)
        rwa [Nat.xor_xor_cancel_right] at hname
      by_cases hmu : bytes p = bytes "mu"
      · have hmicro := ksymtocode_mu hcharset (d := .toAuto) (by simp [Direction.resolve, hu])
        have hvalue : U 0xb5 = 0xf0b5 := rfl
        have htwo := (hcode.mu (congrArg textKey hmu)).2
        rw [← hmu, hvalue] at hmicro
        rw [readsBack_of_name hcode.isName hmicro (by decide) htext]
        omega
      · have hne : n ≠ 0xf3bc := by
          rintro rfl
          rw [codetoksym_mu ctx] at hsym
          exact hmu (congrArg bytes (Option.some.inj hsym)).symm
        rw [readsBack_of_name hcode.isName (hcode.ksymtocode hmu (hcharset ▸ by decide)
          (by simp [Direction.resolve, hu])) (by omega) htext]
        refine iff_of_true rfl ⟨?_, hne⟩
        omega

end CodePoint

/-! ## All codes -/

/-- The codes that are read back from what is printed for them. -/
def IsReadBack (unicode : Bool) (style : PrintStyle) (n : Nat) : Prop :=
  (if unicode then
    ¬ (0xa0 ≤ n ∧ n < 0x100) ∧ ¬ (0xf00 ≤ n ∧ n < 0x1000) ∧ ¬ (0xf000 ≤ n ∧ n < 0xf080)
  else n < 0xf00) ∧
  (style.numeric = true ∨
    (style.stdout = true ∨ isDead2 n = false) ∧ (unicode = true → n ≠ 0xf3bc))

instance (unicode : Bool) (style : PrintStyle) (n : Nat) : Decidable (IsReadBack unicode style n) :=
  inferInstanceAs (Decidable (_ ∧ _))

/-- Which codes of a table are read back, in the mode for which they are: the codes from 0x1000 on are
for the Unicode mode only. -/
theorem readsBack_iff_isReadBack {ctx : LkCtx} (hcharset : ctx.charset = 0) (style : PrintStyle)
    {n : Nat} (hn : n < 65536) (hmode : ctx.flags.preferUnicode = true ∨ n < 0x1000) :
    ReadsBack ctx style n ↔ IsReadBack ctx.flags.preferUnicode style n := by
  unfold IsReadBack
  have hdead : isDead2 n = false ↔ ¬ (0xd00 ≤ n ∧ n < 0xd80 ∨ 0xda0 ≤ n ∧ n < 0xe00) := by
    rw [← Bool.not_eq_true, isDead2]
    simp
  have hsplit : n < 0x80 ∨ 0x80 ≤ n ∧ n < 0xa0 ∨ 0xa0 ≤ n ∧ n < 0x100 ∨ n / 256 = 11 ∨
      (0 < n / 256 ∧ n < 0xf00 ∧ n / 256 ≠ 11) ∨ 0xf00 ≤ n ∧ n < 0x1000 ∨ 0x1000 ≤ n := by omega
  rw [hdead]
  rcases hsplit with h | h | h | h | h | h | h
  · refine iff_of_true (readsBack_ascii ctx style h) ?_
    split <;> omega
  · refine iff_of_true (readsBack_control hcharset style h.1 h.2) ?_
    split <;> omega
  · rw [readsBack_latin1 hcharset style h.1 h.2]
    cases ctx.flags.preferUnicode with
    | false =>
      refine iff_of_true rfl ⟨show n < 0xf00 by omega, ?_⟩
      omega
    | true => exact iff_of_false Bool.noConfusion fun hread => hread.1.1 h
  · refine iff_of_true (readsBack_capsLetter h hcharset style) ?_
    split <;> omega
  · rw [readsBack_type h.1 h.2.1 h.2.2 hcharset style, Bool.or_eq_true, Bool.or_eq_true,
      Bool.not_eq_true', hdead, or_assoc]
    have hrange : if ctx.flags.preferUnicode = true then
        ¬ (0xa0 ≤ n ∧ n < 0x100) ∧ ¬ (0xf00 ≤ n ∧ n < 0x1000) ∧ ¬ (0xf000 ≤ n ∧ n < 0xf080)
        else n < 0xf00 := by
      split <;> omega
    have hne : n ≠ 0xf3bc := by omega
    rw [and_iff_right hrange, and_iff_left fun _ => hne]
  · refine iff_of_false (not_readsBack_noType ctx style h.1 h.2) fun hread => ?_
    have hrange := hread.1
    split at hrange <;> omega
  · have hu := hmode.resolve_right (by omega)
    have hlow : style.stdout = true ∨ ¬ (0xd00 ≤ n ∧ n < 0xd80 ∨ 0xda0 ≤ n ∧ n < 0xe00) := by
      omega
    have hne : (ctx.flags.preferUnicode = true → n ≠ 0xf3bc) ↔ n ≠ 0xf3bc := forall_prop_of_true hu
    rw [readsBack_codePoint hu h hn hcharset style, hne, and_iff_right hlow, if_pos hu]
    have hchar : ¬ (0xa0 ≤ n ∧ n < 0x100) := by omega
    have htype : ¬ (0xf00 ≤ n ∧ n < 0x1000) := by omega
    rw [and_iff_right hchar, and_iff_right htype]

/-- With the character set that both programs start with. -/
theorem readsBack_lkInit_iff (flags : LkFlags) (style : PrintStyle) {n : Nat} (hn : n < 65536)
    (hmode : flags.preferUnicode = true ∨ n < 0x1000) :
    ReadsBack (lkInit flags) style n ↔ IsReadBack flags.preferUnicode style n :=
  readsBack_iff_isReadBack (show (lkInit flags).charset = 0 from rfl) style hn hmode

/-- The Greek letter is written as the micro sign. -/
theorem not_readsBack_lkInit_mu : ¬ ReadsBack (lkInit { preferUnicode := true }) {} 0xf3bc :=
  fun h => absurd ((readsBack_lkInit_iff { preferUnicode := true } {} (n := 0xf3bc) (by decide)
    (.inl rfl)).mp h) (by decide)

/-! ## Strings and compose definitions -/

/-- The name of each function key means the key. -/
theorem funcReadsBack (ctx : LkCtx) {i : Nat} (hi : i < maxNrFunc) : FuncReadsBack ctx i := by
  have hlen : fnSyms.length = 256 := by decide +kernel
  have hlt : i < 256 := hi
  obtain ⟨name, hname⟩ : ∃ name, fnSyms[i]? = some name :=
    ⟨_, List.getElem?_eq_getElem (hlen ▸ hlt)⟩
  have hget : (symsByType.getD 1 [])[i]? = some name := hname
  exact ⟨name, hget, ksymtocode_of_type ctx (by decide) (by omega) hget
    (ne_of_getSym (by decide) hget) _⟩

section Results

variable {ctx : LkCtx} (hcharset : ctx.charset = 0)

include hcharset

theorem resultReadsBack_8bit (h8bit : ctx.flags.preferUnicode = false) {r : Nat} (hr : r < 0x100) :
    ResultReadsBack ctx r := by
  have hsmall : ¬ (r : Int) ≥ 0x1000 := by omega
  have hconv : convertCode ctx r .to8bit = r := by
    simp [convertCode, Direction.resolve, hsmall]
  have hdir : composeDirection ctx = .to8bit := if_neg (by rw [h8bit]; exact Bool.false_ne_true)
  have hcode : resultCode ctx r = r := if_neg (by rw [h8bit]; exact Bool.false_ne_true)
  have hresolve : Direction.toAuto.resolve ctx = .to8bit := by simp [Direction.resolve, h8bit]
  intro name hname
  rw [hcode] at hname
  rw [hdir]
  by_cases hascii : r < 0x80
  · obtain ⟨name', hget, hne⟩ := exists_ascii (show r < 128 from hascii)
    obtain rfl := Option.some.inj ((codetoksym_ascii ctx hascii hget).symm.trans hname)
    exact ⟨hne, (congrArg (convertCode ctx · _)
      (ksymtocodeRec_of_ascii ctx hascii hget hne _ _)).trans hconv⟩
  · rw [codetoksym_nameAt ctx (by omega) (by omega), Nat.mod_eq_of_lt hr] at hname
    by_cases hcontrol : r < 0xa0
    · rw [nameAt_none hcharset hcontrol] at hname
      cases hname
    · obtain ⟨name', hlatin⟩ := exists_latinName (v := r) ⟨by omega, hr⟩
      obtain rfl := Option.some.inj ((hlatin.nameAt hcharset (by omega)).symm.trans hname)
      exact ⟨hlatin.ne, (congrArg (convertCode ctx · _)
        (hlatin.ksymtocode_8bit hcharset (by omega) hresolve)).trans hconv⟩

theorem resultReadsBack_unicode (hu : ctx.flags.preferUnicode = true) {r : Nat} (hr : r < 0xf000)
    (hmu : r ≠ 0x3bc) : ResultReadsBack ctx r := by
  have hdir : composeDirection ctx = .toUnicode := if_pos hu
  have hcode : resultCode ctx r = U r := if_pos hu
  have hresolve : Direction.toAuto.resolve ctx = .toUnicode := by simp [Direction.resolve, hu]
  intro name hname
  rw [hcode] at hname
  rw [hdir]
  by_cases hascii : r < 0x80
  · obtain ⟨name', hget, hne⟩ := exists_ascii (show r < 128 from hascii)
    have hle := (le_U hr).1
    have hUU : U (U r) = r := U_U (by omega)
    rw [codetoksym, if_neg (by omega), if_neg (by omega), hUU, if_pos (by omega)] at hname
    obtain rfl := Option.some.inj (hget.symm.trans hname)
    exact ⟨hne, (congrArg (convertCode ctx · _)
      (ksymtocodeRec_of_ascii ctx hascii hget hne _ _)).trans (convertCode_ascii ctx hascii _)⟩
  · have hconv : convertCode ctx (U r) .toUnicode = r :=
      (convertCode_U hu hr (by omega) _ (.inl rfl)).trans (if_pos rfl)
    have hname' := nameCode_of_codetoksym (by omega) hr hname
    refine ⟨hname'.ne_empty, (congrArg (convertCode ctx · _) ?_).trans hconv⟩
    by_cases heq : bytes name = bytes "mu"
    · have hmicro : r = 0xb5 := by
        have hxor : r ^^^ 0xf000 = 0xf0b5 := by
          refine (hname'.mu (congrArg textKey heq)).2.resolve_right fun h => hmu ?_
          rw [← Nat.xor_xor_cancel_right r 0xf000, h]
          rfl
        rw [← Nat.xor_xor_cancel_right r 0xf000, hxor]
        rfl
      rw [heq, hmicro]
      exact ksymtocode_mu hcharset hresolve
    · exact (hname'.ksymtocode heq (hcharset ▸ by decide) hresolve).trans (U_natCast r).symm

/-- The entries of an accent table that are read back. -/
def IsAccent (unicode : Bool) (d : LkKbdiacr) : Prop :=
  if unicode then
    d.diacr < 0xf000 ∧ d.base < 0xf000 ∧ d.result < 0xf000 ∧ d.result ≠ 0x3bc
  else d.diacr ≤ 0xff ∧ d.base ≤ 0xff ∧ d.result ≤ 0xff

theorem diacrReadsBack {d : LkKbdiacr} (h : IsAccent ctx.flags.preferUnicode d) :
    DiacrReadsBack ctx d := by
  unfold IsAccent at h
  cases hu : ctx.flags.preferUnicode with
  | false =>
    rw [hu, if_neg Bool.false_ne_true] at h
    have hfits {c : Nat} (hc : c ≤ 0xff) : FieldFits ctx c := by
      rwa [FieldFits, if_neg (by rw [hu]; exact Bool.false_ne_true)]
    exact ⟨hfits h.1, hfits h.2.1, hfits h.2.2, resultReadsBack_8bit hcharset hu (by omega)⟩
  | true =>
    rw [hu, if_pos rfl] at h
    have hfits {c : Nat} (hc : c < 0xf000) : FieldFits ctx c := by
      rwa [FieldFits, if_pos hu]
    exact ⟨hfits h.1, hfits h.2.1, hfits h.2.2.1,
      resultReadsBack_unicode hcharset hu h.2.2.1 h.2.2.2⟩

end Results

end Kbd.Keymap
