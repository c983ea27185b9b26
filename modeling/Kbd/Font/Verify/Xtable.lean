import Kbd.Font.Verify.ReadTable
import Mathlib.Data.Bool.AllAny

/-!
# A table as text

`kfont_write_unicodetable` writes a line for each glyph, and `kfont_read_unicodetable` reads the
lines back. A code point is written with at least four digits and read with exactly four, and a line
is read into a buffer of fixed size: these are the two ways in which a table is lost.
-/

namespace Kbd.Font

open Kbd.Keymap (bytes cstr digitVal digits)
open Kbd.Lib.Digits (value value_nil value_cons value_append)

/-! ## Numbers -/

theorem digitVal_digitChar : ∀ d < 16, digitVal (Nat.digitChar d) = some d := by
  decide

theorem digitVal_lt {c : Char} {d : Nat} (h : digitVal c = some d) : d < 16 := by
  have hle : ∀ {a b : Char}, a ≤ b → a.toNat ≤ b.toNat := fun hab => UInt32.le_iff_toNat_le.mp hab
  rw [digitVal] at h
  split at h
  · rename_i hc
    rw [Bool.and_eq_true, decide_eq_true_eq, decide_eq_true_eq] at hc
    have h1 := hle hc.2
    cases h
    have h9 : '9'.toNat = 57 := rfl
    have h0 : '0'.toNat = 48 := rfl
    omega
  split at h
  · rename_i hc
    rw [Bool.and_eq_true, decide_eq_true_eq, decide_eq_true_eq] at hc
    have h1 := hle hc.2
    cases h
    have hf : 'f'.toNat = 102 := rfl
    have ha : 'a'.toNat = 97 := rfl
    omega
  split at h
  · rename_i hc
    rw [Bool.and_eq_true, decide_eq_true_eq, decide_eq_true_eq] at hc
    have h1 := hle hc.2
    cases h
    have hf : 'F'.toNat = 70 := rfl
    have ha : 'A'.toNat = 65 := rfl
    omega
  · cases h

theorem exists_digit {base : Nat} {o : Option Nat} (h : o.any (· < base) = true) :
    ∃ d, o = some d ∧ d < base := by
  cases o with
  | none => cases h
  | some d => exact ⟨d, rfl, of_decide_eq_true h⟩

section Digits

variable {base : Nat} {ds rest : List Char} (hds : ∀ c ∈ ds, (digitVal c).any (· < base) = true)
  (hrest : ∀ c ∈ rest.head?, digitVal c = none)

include hds hrest

/-- Digits are read up to the first character that is none. -/
theorem digits_append (acc : Nat) :
    digits base (ds ++ rest) acc = value base acc (ds.filterMap digitVal) := by
  induction ds generalizing acc with
  | nil =>
    cases rest with
    | nil => rfl
    | cons c rest => simp [digits, hrest c rfl]
  | cons c ds ih =>
    rw [List.forall_mem_cons] at hds
    obtain ⟨d, hd, hlt⟩ := exists_digit hds.1
    rw [List.cons_append, digits, hd, List.filterMap_cons_some hd, value_cons]
    simp only [hlt, if_true]
    exact ih hds.2 _

theorem takeWhile_digits :
    (ds ++ rest).takeWhile (fun c => (digitVal c).any (· < base)) = ds := by
  have hnone : rest.takeWhile (fun c => (digitVal c).any (· < base)) = [] := by
    cases rest with
    | nil => rfl
    | cons c rest => simp [hrest c rfl]
  rw [List.takeWhile_append_of_pos hds, hnone, List.append_nil]

end Digits

section DigitChar

variable {ds : List Nat} (hds : ∀ d ∈ ds, d < 16)

include hds

theorem digitVal_of_mem_digitChar :
    ∀ c ∈ ds.map Nat.digitChar, (digitVal c).any (· < 16) = true := by
  intro c hc
  obtain ⟨d, hd, rfl⟩ := List.mem_map.mp hc
  rw [digitVal_digitChar d (hds d hd)]
  simpa using hds d hd

theorem filterMap_digitVal : (ds.map Nat.digitChar).filterMap digitVal = ds := by
  induction ds with
  | nil => rfl
  | cons d ds ih =>
    rw [List.forall_mem_cons] at hds
    rw [List.map_cons, List.filterMap_cons_some (digitVal_digitChar d hds.1), ih hds.2]

variable {rest : List Char} (hrest : ∀ c ∈ rest.head?, digitVal c = none)

include hrest

theorem digits_digitChar (acc : Nat) :
    digits 16 (ds.map Nat.digitChar ++ rest) acc = value 16 acc ds := by
  rw [digits_append (digitVal_of_mem_digitChar hds) hrest, filterMap_digitVal hds]

theorem takeWhile_digitChar :
    (ds.map Nat.digitChar ++ rest).takeWhile (fun c => (digitVal c).any (· < 16)) =
      ds.map Nat.digitChar :=
  takeWhile_digits (digitVal_of_mem_digitChar hds) hrest

end DigitChar

theorem value_replicate_zero (k : Nat) (ds : List Nat) :
    value 16 0 (List.replicate k 0 ++ ds) = value 16 0 ds := by
  induction k with
  | zero => rfl
  | succ k ih => simpa [List.replicate_succ] using ih

theorem exists_toDigits (n : Nat) :
    ∃ ds, Nat.toDigits 16 n = ds.map Nat.digitChar ∧ (∀ d ∈ ds, d < 16) ∧ value 16 0 ds = n := by
  induction n using Nat.strong_induction_on with
  | _ n ih =>
    rw [Nat.toDigits_eq_if (by decide)]
    split
    · rename_i hlt
      exact ⟨[n], rfl, by simpa using hlt, by simp⟩
    · obtain ⟨ds, hds, hlt, hval⟩ := ih (n / 16) (by omega)
      refine ⟨ds ++ [n % 16], by simp [hds], ?_, ?_⟩
      · intro d hd
        rcases List.mem_append.mp hd with hd | hd
        · exact hlt d hd
        · rw [List.mem_singleton.mp hd]
          omega
      · rw [value_append, hval, value_cons, value_nil]
        omega

/-- A number with zeros before it. -/
theorem exists_leftpad (k n : Nat) :
    ∃ ds, (Nat.toDigits 16 n).leftpad k '0' = ds.map Nat.digitChar ∧ (∀ d ∈ ds, d < 16) ∧
      value 16 0 ds = n := by
  obtain ⟨ds, hds, hlt, hval⟩ := exists_toDigits n
  refine ⟨List.replicate (k - (Nat.toDigits 16 n).length) 0 ++ ds, ?_, ?_, ?_⟩
  · rw [List.leftpad, List.map_append, List.map_replicate, ← hds]
    rfl
  · intro d hd
    rcases List.mem_append.mp hd with hd | hd
    · rw [List.eq_of_mem_replicate hd]
      decide
    · exact hlt d hd
  · rw [value_replicate_zero, hval]

/-- A hexadecimal number with its prefix is read back. -/
theorem strtol0_leftpad (k n : Nat) {rest : List Char}
    (hrest : ∀ c ∈ rest.head?, digitVal c = none) :
    strtol0 (bytes "0x" ++ (Nat.toDigits 16 n).leftpad k '0' ++ rest) = some ((n : Int), rest) := by
  obtain ⟨ds, hpad, hds, hval⟩ := exists_leftpad k n
  have hne : ds ≠ [] := by
    rintro rfl
    have hlen := congrArg List.length hpad
    rw [List.length_leftpad] at hlen
    simp at hlen
  have htext : bytes "0x" ++ (Nat.toDigits 16 n).leftpad k '0' ++ rest =
      '0' :: 'x' :: (ds.map Nat.digitChar ++ rest) := by
    rw [hpad]
    rfl
  have hbase : strtolBase ('0' :: 'x' :: (ds.map Nat.digitChar ++ rest)) =
      (16, ds.map Nat.digitChar ++ rest) := by
    cases ds with
    | nil => exact absurd rfl hne
    | cons d ds =>
      have hd : isxdigit (Nat.digitChar d) = true := by
        rw [isxdigit, digitVal_digitChar d (hds d List.mem_cons_self)]
        rfl
      simp [strtolBase, hd]
  have hval' := digits_digitChar hds hrest 0
  have hsign : strtolSign ('0' :: 'x' :: (ds.map Nat.digitChar ++ rest)) =
      (false, '0' :: 'x' :: (ds.map Nat.digitChar ++ rest)) := rfl
  rw [htext, strtol0, show ('0' :: 'x' :: (ds.map Nat.digitChar ++ rest)).dropWhile isspace =
    '0' :: 'x' :: (ds.map Nat.digitChar ++ rest) from rfl]
  simp only [hsign, hbase, takeWhile_digitChar hds hrest, List.map_eq_nil_iff, hne, if_false,
    hval', hval, List.drop_left]
  rfl

/-- The position of a glyph is read back. -/
theorem strToUnicode_fmtPosition {i : Nat} (hi : i ≤ 0x7fffffff) {rest : List Char}
    (hrest : ∀ c ∈ rest.head?, digitVal c = none) :
    strToUnicode (fmtPosition i ++ rest) = .ok ((i : Int), rest) := by
  have hstrtol : strtol0 (fmtPosition i ++ rest) = some ((i : Int), rest) :=
    strtol0_leftpad 3 i hrest
  have hpos : ¬ (i : Int) < 0 := by omega
  have hbig : ¬ (i : Int) > 0x7fffffff := by omega
  simp only [strToUnicode, hstrtol, hpos, hbig, if_false]

/-- A number of four digits, and a code point that is written as one. -/
theorem exists_fmtUnicode {u : Int} (h0 : 0 ≤ u) (hu : u ≤ 0xFFFF) :
    ∃ a b c d, fmtUnicode u = [a, b, c, d].map Nat.digitChar ∧
      (∀ e ∈ [a, b, c, d], e < 16) ∧ value 16 0 [a, b, c, d] = u.toNat := by
  have hmod : (u % 2 ^ 32).toNat = u.toNat := by
    rw [Int.emod_eq_of_lt h0 (by omega)]
  obtain ⟨ds, hpad, hds, hval⟩ := exists_leftpad 4 u.toNat
  have hlen : ds.length = 4 := by
    have h16 : (Nat.toDigits 16 u.toNat).length ≤ 4 :=
      (Nat.length_toDigits_le_iff (by decide) (by decide)).mpr (by omega)
    have heq := congrArg List.length hpad
    rw [List.length_leftpad, List.length_map] at heq
    omega
  match ds, hlen with
  | [a, b, c, d], _ =>
    refine ⟨a, b, c, d, ?_, hds, hval⟩
    rw [fmtUnicode, hmod, Kbd.Keymap.fmt04X, hpad]

theorem isxdigit_digitChar {d : Nat} (h : d < 16) : isxdigit (Nat.digitChar d) = true := by
  rw [isxdigit, digitVal_digitChar d h]
  rfl

/-- The code point after blanks is read, when no digit follows. -/
theorem getunicode_fmtUnicode {u : Int} (h0 : 0 ≤ u) (hu : u ≤ 0xFFFF) {blanks rest : List Char}
    (hblanks : ∀ c ∈ blanks, isBlank c = true) (hrest : ∀ c ∈ rest.head?, digitVal c = none) :
    getunicode (blanks ++ ('U' :: '+' :: (fmtUnicode u ++ rest))) = some (u, rest) := by
  obtain ⟨a, b, c, d, hfmt, hlt, hval⟩ := exists_fmtUnicode h0 hu
  have hdrop : (blanks ++ ('U' :: '+' :: (fmtUnicode u ++ rest))).dropWhile isBlank =
      'U' :: '+' :: (fmtUnicode u ++ rest) := by
    rw [List.dropWhile_append_of_pos hblanks]
    rfl
  have hnext : rest.head?.any isxdigit = false := by
    cases rest with
    | nil => rfl
    | cons e rest => simp [isxdigit, hrest e rfl]
  have hdigits : digits 16 ([a, b, c, d].map Nat.digitChar ++ []) 0 = value 16 0 [a, b, c, d] :=
    digits_digitChar hlt (by simp) 0
  rw [hval, List.append_nil, List.map_cons, List.map_cons, List.map_cons, List.map_cons,
    List.map_nil] at hdigits
  simp only [List.forall_mem_cons] at hlt
  rw [getunicode, hdrop, hfmt]
  simp [isxdigit_digitChar hlt.1, isxdigit_digitChar hlt.2.1, isxdigit_digitChar hlt.2.2.1,
    isxdigit_digitChar hlt.2.2.2.1, hnext, hdigits, Int.max_eq_left h0]

/-! ## The line of a glyph -/

/-- Every code point is written with four digits. -/
def FourDigits (ul : UnicodeList) : Prop := ∀ us ∈ ul, ∀ u ∈ us, u ≤ 0xFFFF

instance (ul : UnicodeList) : Decidable (FourDigits ul) := inferInstanceAs (Decidable (∀ us ∈ ul, _))

theorem seqText_cons (u : Unicode) (us : List Unicode) :
    seqText ", " (u :: us) = ',' :: ' ' :: 'U' :: '+' :: (fmtUnicode u ++ seqText ", " us) :=
  rfl

theorem listText_cons (b : Char) (u : Unicode) (us : List Unicode) (ul : UnicodeList) :
    b :: listText "" ((u :: us) :: ul) =
      [b] ++ 'U' :: '+' :: (fmtUnicode u ++ (seqText ", " us ++ listText " " ul)) := by
  rw [listText, seqText]
  simp only [List.append_assoc]
  rfl

theorem listText_blank (u : Unicode) (us : List Unicode) (ul : UnicodeList) :
    listText " " ((u :: us) :: ul) = ' ' :: listText "" ((u :: us) :: ul) :=
  rfl

/-- What may come after a code point is no digit. -/
theorem head_seqText {us : List Unicode} {rest : List Char}
    (hrest : ∀ c ∈ rest.head?, digitVal c = none) :
    ∀ c ∈ (seqText ", " us ++ rest).head?, digitVal c = none := by
  cases us with
  | nil => exact hrest
  | cons u us =>
    rw [seqText_cons]
    intro c hc
    cases hc
    rfl

theorem head_listText {ul : UnicodeList} (hne : GlyphNonempty ul) :
    ∀ c ∈ (listText " " ul).head?, c = ' ' := by
  cases ul with
  | nil => simp [listText]
  | cons us ul =>
    cases us with
    | nil => exact absurd rfl (hne [] List.mem_cons_self).1
    | cons u us =>
      rw [listText_blank]
      simp

theorem seqLoop_seqText {us vs : List Unicode} {up : UnicodeList} {rounds : Nat} {rest : List Char}
    (h0 : ∀ u ∈ us, 0 ≤ u) (h4 : ∀ u ∈ us, u ≤ 0xFFFF) (hrounds : us.length ≤ rounds)
    (hrest : ∀ c ∈ rest.head?, c = ' ') :
    seqLoop rounds (seqText ", " us ++ rest) (up ++ [vs]) = (rest, up ++ [vs ++ us]) := by
  induction us generalizing rounds vs with
  | nil =>
    rw [List.append_nil, show seqText ", " [] ++ rest = rest from rfl]
    cases rounds with
    | zero => rfl
    | succ rounds =>
      cases rest with
      | nil => rfl
      | cons c rest =>
        rw [hrest c rfl]
        rfl
  | cons u us ih =>
    obtain ⟨n, rfl⟩ : ∃ n, rounds = n + 1 := ⟨rounds - 1, by simp at hrounds; omega⟩
    rw [List.forall_mem_cons] at h0 h4
    have hnone : ∀ c ∈ rest.head?, digitVal c = none := by
      intro c hc
      rw [hrest c hc]
      rfl
    have hget : getunicode ([' '] ++ 'U' :: '+' :: (fmtUnicode u ++ (seqText ", " us ++ rest))) =
        some (u, seqText ", " us ++ rest) :=
      getunicode_fmtUnicode h0.1 h4.1 (by simp [isBlank]) (head_seqText hnone)
    have htext : seqText ", " (u :: us) ++ rest =
        ',' :: ([' '] ++ 'U' :: '+' :: (fmtUnicode u ++ (seqText ", " us ++ rest))) := by
      rw [seqText_cons]
      simp
    rw [htext, seqLoop, hget]
    simp only [addseq_concat]
    rw [ih h0.2 h4.2 (by simp at hrounds; omega), List.append_assoc, List.singleton_append]

theorem length_le_seqText (sep : String) (us : List Unicode) : us.length ≤ (seqText sep us).length := by
  induction us generalizing sep with
  | nil => exact Nat.le_refl _
  | cons u us ih =>
    have hus := ih ", "
    rw [seqText, List.length_cons]
    simp only [List.length_append, show (bytes "U+").length = 2 from rfl]
    omega

/-- The descriptions of a glyph are read back, when each code point has four digits. -/
theorem uniLoop_listText {ul up : UnicodeList} {rounds : Nat} {b : Char} (hb : isBlank b = true)
    (hne : GlyphNonempty ul) (h4 : FourDigits ul) (hrounds : ul.length ≤ rounds) :
    (uniLoop rounds (b :: listText "" ul) up).2 = up ++ ul := by
  induction ul generalizing up rounds b with
  | nil =>
    cases rounds with
    | zero => simp [uniLoop]
    | succ rounds =>
      have hget : getunicode [b] = none := by
        simp [getunicode, hb]
      simp [uniLoop, listText, hget]
  | cons us ul ih =>
    obtain ⟨n, rfl⟩ : ∃ n, rounds = n + 1 := ⟨rounds - 1, by simp at hrounds; omega⟩
    rw [GlyphNonempty, List.forall_mem_cons] at hne
    rw [FourDigits, List.forall_mem_cons] at h4
    cases us with
    | nil => exact absurd rfl hne.1.1
    | cons u us =>
      have hus := List.forall_mem_cons.mp hne.1.2
      have hus4 := List.forall_mem_cons.mp h4.1
      have hhead := head_listText hne.2
      have hnone : ∀ c ∈ (listText " " ul).head?, digitVal c = none := by
        intro c hc
        rw [hhead c hc]
        rfl
      have hget : getunicode ([b] ++ 'U' :: '+' :: (fmtUnicode u ++ (seqText ", " us ++
          listText " " ul))) = some (u, seqText ", " us ++ listText " " ul) :=
        getunicode_fmtUnicode hus.1 hus4.1 (by simpa using hb) (head_seqText hnone)
      have hrounds' : us.length ≤ (seqText ", " us ++ listText " " ul).length := by
        have := length_le_seqText ", " us
        rw [List.length_append]
        omega
      have hseq : seqLoop (seqText ", " us ++ listText " " ul).length
          (seqText ", " us ++ listText " " ul) (up ++ [[u]]) =
            (listText " " ul, up ++ [[u] ++ us]) :=
        seqLoop_seqText hus.2 hus4.2 hrounds' hhead
      rw [listText_cons, uniLoop, hget]
      simp only [addpair, hseq]
      -- what is left is empty, or starts with a blank again
      cases ul with
      | nil => cases n <;> simp [uniLoop, listText, getunicode]
      | cons vs ul =>
        cases vs with
        | nil => exact absurd rfl (hne.2 [] List.mem_cons_self).1
        | cons v vs =>
          rw [listText_blank, ih rfl hne.2 h4.2 (by simp at hrounds ⊢; omega)]
          simp

/-- What the reader makes has four digits, whatever it reads. -/
theorem getunicode_le {p p' : List Char} {u : Int} (h : getunicode p = some (u, p')) :
    u ≤ 0xFFFF := by
  rw [getunicode] at h
  split at h
  · rename_i c₂ c₃ c₄ c₅ rest hp
    split at h
    · cases h
    · rename_i hx
      cases h
      simp only [Bool.or_eq_true, Bool.not_eq_true', not_or, Bool.not_eq_false, isxdigit,
        Option.isSome_iff_exists] at hx
      obtain ⟨⟨⟨⟨⟨d₂, h₂⟩, d₃, h₃⟩, d₄, h₄⟩, d₅, h₅⟩, -⟩ := hx
      have l₂ := digitVal_lt h₂
      have l₃ := digitVal_lt h₃
      have l₄ := digitVal_lt h₄
      have l₅ := digitVal_lt h₅
      have hval : digits 16 [c₂, c₃, c₄, c₅] 0 = ((d₂ * 16 + d₃) * 16 + d₄) * 16 + d₅ := by
        simp [digits, h₂, h₃, h₄, h₅, l₂, l₃, l₄, l₅]
      have hle : digits 16 [c₂, c₃, c₄, c₅] 0 ≤ 0xFFFF := by
        rw [hval]
        omega
      exact Int.ofNat_le.mpr hle
  · cases h

theorem FourDigits.addpair {up : UnicodeList} (h : FourDigits up) {uc : Unicode}
    (huc : uc ≤ 0xFFFF) : FourDigits (addpair up uc) := by
  intro us hus
  rcases List.mem_append.mp hus with hus | hus
  · exact h us hus
  · rw [List.mem_singleton.mp hus]
    simpa using huc

theorem FourDigits.addseq {up : UnicodeList} (h : FourDigits up) {uc : Unicode}
    (huc : uc ≤ 0xFFFF) : FourDigits (addseq up uc) := by
  rcases List.eq_nil_or_concat up with rfl | ⟨l, vs, rfl⟩
  · exact h
  · rw [List.concat_eq_append, addseq_concat]
    intro us hus u hu
    rcases List.mem_append.mp hus with hus | hus
    · exact h us (by simp [hus]) u hu
    · rw [List.mem_singleton.mp hus] at hu
      rcases List.mem_append.mp hu with hu | hu
      · exact h vs (by simp) u hu
      · rw [List.mem_singleton.mp hu]
        exact huc

theorem seqLoop_fourDigits {rounds : Nat} {p : List Char} {up : UnicodeList} (h : FourDigits up) :
    FourDigits (seqLoop rounds p up).2 := by
  induction rounds generalizing p up with
  | zero => exact h
  | succ rounds ih =>
    unfold seqLoop
    split
    · split
      · rename_i hget
        exact ih (h.addseq (getunicode_le hget))
      · exact h
    · exact h

theorem uniLoop_fourDigits {rounds : Nat} {p : List Char} {up : UnicodeList} (h : FourDigits up) :
    FourDigits (uniLoop rounds p up).2 := by
  induction rounds generalizing p up with
  | zero => exact h
  | succ rounds ih =>
    rw [uniLoop]
    split
    · exact h
    · rename_i hget
      exact ih (seqLoop_fourDigits (h.addpair (getunicode_le hget)))

/-- What is read of a glyph's line. -/
def reparse (ul : UnicodeList) : UnicodeList :=
  (uniLoop ('\t' :: listText "" ul).length ('\t' :: listText "" ul) []).2

theorem length_le_listText (sep : String) {ul : UnicodeList} (hne : GlyphNonempty ul) :
    ul.length ≤ (listText sep ul).length := by
  induction ul generalizing sep with
  | nil => exact Nat.le_refl _
  | cons us ul ih =>
    rw [GlyphNonempty, List.forall_mem_cons] at hne
    have htail := ih " " hne.2
    have hhead := length_le_seqText sep us
    have hpos := List.length_pos_of_ne_nil hne.1.1
    rw [listText, List.length_append, List.length_cons]
    omega

/-- A glyph is read as it was exactly when its code points have four digits. -/
theorem reparse_eq_iff {ul : UnicodeList} (hne : GlyphNonempty ul) :
    reparse ul = ul ↔ FourDigits ul := by
  constructor
  · intro heq
    rw [← heq]
    exact uniLoop_fourDigits (by simp [FourDigits])
  · intro h4
    have hlen := length_le_listText "" hne
    rw [reparse, uniLoop_listText rfl hne h4 (by rw [List.length_cons]; omega), List.nil_append]

/-! ## The lines of a file -/

theorem fgets_line {n : Nat} {body rest : List Char} (hbody : ∀ c ∈ body, c ≠ '\n')
    (hn : body.length < n) : fgets n (body ++ '\n' :: rest) = (body ++ ['\n'], rest) := by
  induction body generalizing n with
  | nil =>
    obtain ⟨m, rfl⟩ : ∃ m, n = m + 1 := ⟨n - 1, by simp at hn; omega⟩
    rfl
  | cons c body ih =>
    obtain ⟨m, rfl⟩ : ∃ m, n = m + 1 := ⟨n - 1, by simp at hn; omega⟩
    rw [List.forall_mem_cons] at hbody
    simp only [List.cons_append, fgets, hbody.1, if_false,
      ih hbody.2 (by simp at hn; omega)]

/-- A line that does not fit is read without its end. -/
theorem fgets_long {n : Nat} {body rest : List Char} (hbody : ∀ c ∈ body, c ≠ '\n')
    (hn : n ≤ body.length) : (fgets n (body ++ rest)).1 = body.take n := by
  induction n generalizing body with
  | zero => rfl
  | succ n ih =>
    cases body with
    | nil => simp at hn
    | cons c body =>
      rw [List.forall_mem_cons] at hbody
      simp only [List.cons_append, fgets, hbody.1, if_false, List.take_succ_cons,
        ih hbody.2 (by simp at hn; omega)]

/-- The line of a glyph without its end. -/
def glyphBody (i : Nat) (ul : UnicodeList) : List Char := fmtPosition i ++ '\t' :: listText "" ul

theorem glyphText_eq (i : Nat) (ul : UnicodeList) : glyphText i ul = glyphBody i ul ++ ['\n'] := by
  simp [glyphText, glyphBody]

/-- The characters of a line are neither its end nor a NUL. -/
def IsLineChar (c : Char) : Prop := c ≠ '\n' ∧ c ≠ '\x00'

instance (c : Char) : Decidable (IsLineChar c) :=
  inferInstanceAs (Decidable (c ≠ '\n' ∧ c ≠ '\x00'))

theorem isLineChar_digitChar : ∀ d < 16, IsLineChar (Nat.digitChar d) := by decide

theorem isLineChar_of_all {s : List Char} (h : s.all fun c => IsLineChar c) :
    ∀ c ∈ s, IsLineChar c :=
  List.all_iff_forall_prop.mp h

theorem isLineChar_leftpad {k n : Nat} : ∀ c ∈ (Nat.toDigits 16 n).leftpad k '0', IsLineChar c := by
  intro c hc
  obtain ⟨ds, hpad, hds, -⟩ := exists_leftpad k n
  rw [hpad] at hc
  obtain ⟨d, hd, rfl⟩ := List.mem_map.mp hc
  exact isLineChar_digitChar d (hds d hd)

theorem isLineChar_seqText {sep : String} (hsep : ∀ c ∈ bytes sep, IsLineChar c)
    {us : List Unicode} : ∀ c ∈ seqText sep us, IsLineChar c := by
  induction us generalizing sep with
  | nil => simp [seqText]
  | cons u us ih =>
    intro c hc
    simp only [seqText, List.mem_append] at hc
    rcases hc with ((hc | hc) | hc) | hc
    · exact hsep c hc
    · exact isLineChar_of_all (by decide) c hc
    · exact isLineChar_leftpad c hc
    · exact ih (isLineChar_of_all (by decide)) c hc

theorem isLineChar_listText {sep : String} (hsep : ∀ c ∈ bytes sep, IsLineChar c)
    {ul : UnicodeList} : ∀ c ∈ listText sep ul, IsLineChar c := by
  induction ul generalizing sep with
  | nil => simp [listText]
  | cons us ul ih =>
    intro c hc
    rcases List.mem_append.mp hc with hc | hc
    · exact isLineChar_seqText hsep c hc
    · exact ih (isLineChar_of_all (by decide)) c hc

theorem isLineChar_glyphBody {i : Nat} {ul : UnicodeList} : ∀ c ∈ glyphBody i ul, IsLineChar c := by
  have hprefix : ∀ c ∈ bytes "0x", IsLineChar c := isLineChar_of_all (by decide)
  intro c hc
  rcases List.mem_append.mp hc with hc | hc
  · rcases List.mem_append.mp hc with hc | hc
    · exact hprefix c hc
    · exact isLineChar_leftpad c hc
  · rcases List.mem_cons.mp hc with rfl | hc
    · decide
    · exact isLineChar_listText (isLineChar_of_all (by decide)) c hc

/-- The line of a glyph that has not been described yet. -/
theorem parseItabLine_glyphText {i fontlen : Nat} {ul : UnicodeList} {heads : List UnicodeList}
    (hi : i < fontlen) (hmax : fontlen ≤ 0x7fffffff) :
    parseItabLine (glyphText i ul) fontlen heads =
      .ok (heads.modify i fun up =>
        (uniLoop ('\t' :: listText "" ul).length ('\t' :: listText "" ul) up).2) := by
  have hbody : ∀ c ∈ glyphBody i ul, IsLineChar c := isLineChar_glyphBody
  have hcstr : cstr (glyphText i ul) = glyphBody i ul ++ ['\n'] := by
    rw [glyphText_eq, cstr, List.takeWhile_append_of_pos fun c hc => by simpa using (hbody c hc).2]
    rfl
  have hline : (glyphBody i ul ++ ['\n']).takeWhile (· ≠ '\n') = glyphBody i ul := by
    rw [List.takeWhile_append_of_pos fun c hc => by simpa using (hbody c hc).1]
    simp
  have hnumber : strToUnicode (glyphBody i ul) = .ok ((i : Int), '\t' :: listText "" ul) := by
    refine strToUnicode_fmtPosition (by omega) ?_
    intro c hc
    cases hc
    rfl
  have hstart : (glyphBody i ul).dropWhile isBlank = glyphBody i ul := rfl
  have hfirst : (glyphBody i ul).head? = some '0' := rfl
  have hne : glyphBody i ul ≠ [] := by
    intro hnil
    rw [hnil] at hfirst
    cases hfirst
  have hlt : ¬ (i : Int) ≥ fontlen := by omega
  simp only [parseItabLine, hcstr, hline, hstart]
  rw [if_neg (by simp), if_neg (by simp [hne, hfirst])]
  simp [hnumber, rangeEnd, hlt, bind, Except.bind, pure, Except.pure]

/-- The lines of the glyphs from position `k` on. -/
def glyphLines (k : Nat) (l : List UnicodeList) : List Char :=
  (l.zipIdx k).flatMap fun (ul, i) => glyphText i ul

/-- Every line fits into the buffer. -/
def linesFit (k : Nat) (l : List UnicodeList) : Bool :=
  (l.zipIdx k).all fun (ul, i) => (glyphText i ul).length ≤ lineRoom

theorem glyphLines_cons (k : Nat) (ul : UnicodeList) (l : List UnicodeList) :
    glyphLines k (ul :: l) = glyphBody k ul ++ '\n' :: glyphLines (k + 1) l := by
  simp [glyphLines, glyphText_eq]

theorem linesFit_cons (k : Nat) (ul : UnicodeList) (l : List UnicodeList) :
    linesFit k (ul :: l) =
      (decide ((glyphBody k ul).length < lineRoom) && linesFit (k + 1) l) := by
  have hlength : (glyphText k ul).length = (glyphBody k ul).length + 1 := by
    rw [glyphText_eq, List.length_append]
    rfl
  have hfits : decide ((glyphText k ul).length ≤ lineRoom)
      = decide ((glyphBody k ul).length < lineRoom) := by
    rw [hlength]
    rfl
  rw [linesFit, List.zipIdx_cons, List.all_cons]
  exact congrArg (· && linesFit (k + 1) l) hfits

theorem modify_length_append (done l : List UnicodeList) (ul : UnicodeList)
    (f : UnicodeList → UnicodeList) :
    (done ++ ul :: l).modify done.length f = (done ++ [f ul]) ++ l := by
  induction done with
  | nil => simp
  | cons a done ih => simpa using ih

/-- Lines are read one by one into the glyphs, and one that does not fit is an error. -/
theorem readLines_glyphLines {l done : List UnicodeList} {rounds fontlen : Nat}
    (hlen : done.length + l.length ≤ fontlen) (hmax : fontlen ≤ 0x7fffffff)
    (hrounds : l.length ≤ rounds) :
    readLines fontlen rounds (glyphLines done.length l) (done ++ List.replicate l.length []) =
      if linesFit done.length l then .ok (done ++ l.map reparse) else .error .lineTooLong := by
  induction l generalizing done rounds with
  | nil => cases rounds <;> simp [readLines, glyphLines, linesFit]
  | cons ul l ih =>
    obtain ⟨n, rfl⟩ : ∃ n, rounds = n + 1 := ⟨rounds - 1, by simp at hrounds; omega⟩
    rw [List.length_cons] at hlen hrounds
    have hbody : ∀ c ∈ glyphBody done.length ul, c ≠ '\n' := fun c hc => (isLineChar_glyphBody c hc).1
    rw [glyphLines_cons, linesFit_cons, readLines, if_neg (by simp)]
    by_cases hfit : (glyphBody done.length ul).length < lineRoom
    · have hline : parseItabLine (glyphBody done.length ul ++ ['\n']) fontlen
          (done ++ List.replicate (l.length + 1) []) =
            .ok ((done ++ [reparse ul]) ++ List.replicate l.length []) := by
        rw [← glyphText_eq, parseItabLine_glyphText (by omega) hmax, List.replicate_succ,
          modify_length_append]
        rfl
      have hrest := @ih (done ++ [reparse ul]) n (by simp; omega) (by omega)
      simp only [List.length_append, List.length_singleton] at hrest
      simp only [List.length_cons, fgets_line hbody hfit, hline, hrest, hfit, decide_true,
        Bool.true_and, bind, Except.bind]
      simp
    · have hnone : parseItabLine (fgets lineRoom (glyphBody done.length ul ++
          '\n' :: glyphLines (done.length + 1) l)).1 fontlen
            (done ++ List.replicate (l.length + 1) []) = .error .lineTooLong := by
        rw [fgets_long hbody (by omega), parseItabLine, if_pos]
        have hno : '\n' ∉ cstr ((glyphBody done.length ul).take lineRoom) := by
          intro hmem
          exact hbody _ (List.mem_of_mem_take (List.takeWhile_subset _ hmem)) rfl
        simpa using hno
      simp only [List.length_cons, hnone, hfit, decide_false, Bool.false_and, bind, Except.bind]
      rfl

/-- A line that is a comment changes nothing. -/
theorem readLines_comment {fontlen rounds : Nat} {body rest : List Char} {heads : List UnicodeList}
    (hbody : ∀ c ∈ body, IsLineChar c) (hlen : body.length < lineRoom - 1) :
    readLines fontlen (rounds + 1) ('#' :: body ++ '\n' :: rest) heads =
      readLines fontlen rounds rest heads := by
  have hall : ∀ c ∈ '#' :: body, IsLineChar c := by
    rw [List.forall_mem_cons]
    exact ⟨by decide, hbody⟩
  have hget : fgets lineRoom ('#' :: body ++ '\n' :: rest) = ('#' :: body ++ ['\n'], rest) :=
    fgets_line (fun c hc => (hall c hc).1) (by rw [List.length_cons]; omega)
  have hcstr : cstr ('#' :: body ++ ['\n']) = '#' :: body ++ ['\n'] := by
    rw [cstr, List.takeWhile_append_of_pos fun c hc => by simpa using (hall c hc).2]
    rfl
  have hline : parseItabLine ('#' :: body ++ ['\n']) fontlen heads = .ok heads := by
    rw [parseItabLine, hcstr, if_neg (by simp)]
    rfl
  rw [readLines, if_neg (by simp), hget]
  simp only [hline, bind, Except.bind]

/-- What is read of a written table. -/
theorem kfontReadUnicodetable_written {t : List UnicodeList} (hmax : t.length ≤ 0x7fffffff) :
    kfontReadUnicodetable (kfontWriteUnicodetable t.length t) t.length =
      if linesFit 0 t then .ok (t.map reparse) else .error .lineTooLong := by
  have hcount : t.length ≤ (glyphLines 0 t).length := by
    have hlines : ∀ (k : Nat) (l : List UnicodeList), l.length ≤ (glyphLines k l).length := by
      intro k l
      induction l generalizing k with
      | nil => exact Nat.le_refl _
      | cons ul l ih =>
        have := ih (k + 1)
        rw [glyphLines_cons, List.length_append, List.length_cons, List.length_cons]
        omega
    exact hlines 0 t
  have hfile : kfontWriteUnicodetable t.length t =
      '#' :: [] ++ '\n' :: ('#' :: bytes " Character table extracted from font" ++ '\n' ::
        ('#' :: [] ++ '\n' :: glyphLines 0 t)) := by
    rw [kfontWriteUnicodetable, List.take_length]
    rfl
  have hbody : ∀ c ∈ bytes " Character table extracted from font", IsLineChar c :=
    isLineChar_of_all (by decide)
  obtain ⟨n, hn, hrounds⟩ : ∃ n, t.length ≤ n ∧
      (kfontWriteUnicodetable t.length t).length = n + 1 + 1 + 1 := by
    refine ⟨_, ?_, (Nat.sub_add_cancel (m := 3) ?_).symm⟩
    all_goals
      rw [hfile]
      simp only [List.length_append, List.length_cons]
      omega
  have hlines := @readLines_glyphLines t [] n t.length (by simp) hmax hn
  rw [kfontReadUnicodetable, hrounds, hfile, readLines_comment (by simp) (by simp),
    readLines_comment hbody (by decide), readLines_comment (by simp) (by simp)]
  simpa [clearUniEntry] using hlines

/-! ## The length of a line -/

/-- The length of the line of a glyph with code points of four digits: six characters for each, two
between those of a sequence and one between two descriptions. -/
def itabLineLength (i : Nat) (ul : UnicodeList) : Nat :=
  2 + max 3 (Nat.toDigits 16 i).length + 1 + (8 * ul.flatten.length - ul.length - 1) + 1

theorem length_fmtUnicode {u : Int} (h0 : 0 ≤ u) (hu : u ≤ 0xFFFF) : (fmtUnicode u).length = 4 := by
  obtain ⟨a, b, c, d, hfmt, -⟩ := exists_fmtUnicode h0 hu
  rw [hfmt]
  rfl

theorem length_seqText {us : List Unicode} (h0 : ∀ u ∈ us, 0 ≤ u) (h4 : ∀ u ∈ us, u ≤ 0xFFFF) :
    (seqText ", " us).length = 8 * us.length := by
  induction us with
  | nil => rfl
  | cons u us ih =>
    rw [List.forall_mem_cons] at h0 h4
    rw [seqText_cons]
    simp only [List.length_cons, List.length_append, length_fmtUnicode h0.1 h4.1, ih h0.2 h4.2]
    omega

theorem length_listText_blank {ul : UnicodeList} (hne : GlyphNonempty ul) (h4 : FourDigits ul) :
    (listText " " ul).length + ul.length = 8 * ul.flatten.length := by
  induction ul with
  | nil => rfl
  | cons us ul ih =>
    rw [GlyphNonempty, List.forall_mem_cons] at hne
    rw [FourDigits, List.forall_mem_cons] at h4
    cases us with
    | nil => exact absurd rfl hne.1.1
    | cons u us =>
      have hus := List.forall_mem_cons.mp hne.1.2
      have hus4 := List.forall_mem_cons.mp h4.1
      have htail := ih hne.2 h4.2
      rw [listText_blank, listText_cons]
      simp only [List.length_cons, List.length_append, length_fmtUnicode hus.1 hus4.1,
        length_seqText hus.2 hus4.2, List.flatten_cons, List.length_nil]
      omega

theorem length_glyphText {i : Nat} {ul : UnicodeList} (hne : GlyphNonempty ul) (h4 : FourDigits ul) :
    (glyphText i ul).length = itabLineLength i ul := by
  have hblank := length_listText_blank hne h4
  have hlist : (listText "" ul).length = 8 * ul.flatten.length - ul.length - 1 := by
    cases ul with
    | nil => rfl
    | cons us ul =>
      cases us with
      | nil => exact absurd rfl (hne [] List.mem_cons_self).1
      | cons u us =>
        rw [listText_blank] at hblank
        simp only [List.length_cons] at hblank ⊢
        omega
  have hpos : (fmtPosition i).length = 2 + max 3 (Nat.toDigits 16 i).length := by
    rw [fmtPosition, List.length_append, List.length_leftpad]
    rfl
  rw [glyphText, itabLineLength, ← hlist, ← hpos]
  simp only [List.length_append, List.length_singleton]

theorem linesFit_iff {t : List UnicodeList} (hne : ∀ ul ∈ t, GlyphNonempty ul)
    (h4 : ∀ ul ∈ t, FourDigits ul) :
    linesFit 0 t ↔ ∀ i ul, t[i]? = some ul → itabLineLength i ul ≤ lineRoom := by
  have hmem : ∀ i ul, t[i]? = some ul ↔ (ul, i) ∈ t.zipIdx := by
    intro i ul
    rw [List.mk_mem_zipIdx_iff_getElem?]
  rw [linesFit, List.all_eq_true]
  constructor
  · intro h i ul hi
    have hfit := h (ul, i) ((hmem i ul).mp hi)
    have hul := List.mem_of_getElem? hi
    rw [← length_glyphText (hne ul hul) (h4 ul hul)]
    simpa using hfit
  · rintro h ⟨ul, i⟩ hi
    have hi' := (hmem i ul).mpr hi
    have hul := List.mem_of_getElem? hi'
    have hle := h i ul hi'
    rw [← length_glyphText (hne ul hul) (h4 ul hul)] at hle
    simpa using hle

/-! ## The round trip -/

/-- A font file holds fewer glyphs than it has bytes. -/
theorem fontlen_le_maxFontSize {file buf : List UInt8} {font : PsfFont} {fontpos0 : Nat}
    {old heads : Option (List UnicodeList)} (hfile : readFontfile file = .ok buf)
    (hread : kfontReadPsffont buf fontpos0 old = .ok (font, heads)) : font.fontlen ≤ maxFontSize := by
  have hbuf : buf.length ≤ maxFontSize := by
    rw [readFontfile] at hfile
    split at hfile
    · cases hfile
    · cases hfile
      omega
  obtain ⟨hd, -, hcheck, -, -, hlen, -⟩ := kfontReadPsffont_cases hread
  obtain ⟨-, hcs, hle, -⟩ := checkPsfHeader_cases hcheck
  have hmul : hd.fontlen ≤ hd.fontlen * hd.charsize := Nat.le_mul_of_pos_right _ hcs
  omega

/-- The text of a table that was read from a font is read as that table exactly when its code points
have four digits and its lines fit into the buffer. -/
theorem kfontReadUnicodetable_kfontWriteUnicodetable {file buf : List UInt8} {font : PsfFont}
    {t : List UnicodeList} (hfile : readFontfile file = .ok buf)
    (hread : kfontReadPsffont buf 0 (some []) = .ok (font, some t)) :
    kfontReadUnicodetable (kfontWriteUnicodetable font.fontlen t) font.fontlen = .ok t ↔
      (∀ ul ∈ t, FourDigits ul) ∧
        ∀ i ul, t[i]? = some ul → itabLineLength i ul ≤ lineRoom := by
  obtain ⟨hlen, hne⟩ := kfontReadPsffont_nonempty hread
  have hmax : t.length ≤ 0x7fffffff := by
    have := fontlen_le_maxFontSize hfile hread
    simp only [maxFontSize] at this
    omega
  have hmap : t.map reparse = t ↔ ∀ ul ∈ t, FourDigits ul := by
    rw [map_eq_self_iff]
    exact forall₂_congr fun ul hul => reparse_eq_iff (hne ul hul)
  rw [← hlen, kfontReadUnicodetable_written hmax]
  constructor
  · intro h
    split at h
    · rename_i hfit
      have h4 := hmap.mp (Except.ok.inj h)
      exact ⟨h4, (linesFit_iff hne h4).mp hfit⟩
    · cases h
  · rintro ⟨h4, hfit⟩
    rw [if_pos ((linesFit_iff hne h4).mpr hfit), hmap.mpr h4]

/-- A font of the second format with one glyph of height 1, described by `codes`. -/
def oneGlyphFile (codes : List UInt8) : List UInt8 :=
  psf2Magic ++ storeIntLe 0 ++ storeIntLe 32 ++ storeIntLe 1 ++ storeIntLe 1 ++ storeIntLe 1 ++
    storeIntLe 1 ++ storeIntLe 8 ++ [0x18] ++ codes ++ [psf2Separator]

theorem kfontReadUnicodetable_kfontWriteUnicodetable_accent :
    kfontReadUnicodetable (kfontWriteUnicodetable 1 [[[0xc5], [0x41, 0x30a]]]) 1 =
        .ok [[[0xc5], [0x41, 0x30a]]] ↔
      (∀ ul ∈ [[[0xc5], [0x41, 0x30a]]], FourDigits ul) ∧
        ∀ i ul, [[[0xc5], [0x41, 0x30a]]][i]? = some ul → itabLineLength i ul ≤ lineRoom :=
  have hread : kfontReadPsffont (oneGlyphFile [0xc3, 0x85, 0xfe, 0x41, 0xcc, 0x8a]) 0 (some []) =
      .ok ({ fontbuf := [0x18], fontwidth := 8, fontheight := 1, fontlen := 1 },
        some [[[0xc5], [0x41, 0x30a]]]) := by decide
  have hfile : readFontfile (oneGlyphFile [0xc3, 0x85, 0xfe, 0x41, 0xcc, 0x8a]) =
      .ok (oneGlyphFile [0xc3, 0x85, 0xfe, 0x41, 0xcc, 0x8a]) := rfl
  kfontReadUnicodetable_kfontWriteUnicodetable hfile hread

/-- A code point of five digits is written, but not read. -/
theorem not_kfontReadUnicodetable_kfontWriteUnicodetable :
    ¬ ∀ (file buf : List UInt8) (font : PsfFont) (t : List UnicodeList),
      readFontfile file = .ok buf → kfontReadPsffont buf 0 (some []) = .ok (font, some t) →
      kfontReadUnicodetable (kfontWriteUnicodetable font.fontlen t) font.fontlen = .ok t := by
  intro hall
  have hread : kfontReadPsffont (oneGlyphFile [0xf0, 0x90, 0x80, 0x80]) 0 (some []) =
      .ok ({ fontbuf := [0x18], fontwidth := 8, fontheight := 1, fontlen := 1 },
        some [[[0x10000]]]) := by decide
  have hback := hall (oneGlyphFile [0xf0, 0x90, 0x80, 0x80]) _ _ _ rfl hread
  have hwritten := kfontReadUnicodetable_written (t := [[[0x10000]]]) (by decide)
  rw [show ({ fontbuf := [0x18], fontwidth := 8, fontheight := 1, fontlen := 1 } :
    PsfFont).fontlen = [[[(0x10000 : Unicode)]]].length from rfl, hwritten] at hback
  revert hback
  decide

end Kbd.Font
