import Kbd.Font.Verify.Unimap
import Mathlib.Data.List.DropRight

/-!
# The syntax of a map file

A line has a position with the code points it stands for, or a range of positions with `idem`, one
code point, or a range of code points of the same length. What a line stands for is said here without
the code, and compared with what `parseline` adds.

The end of a range is kept as 0 when there is no range, so a range that ends at position 0 is taken
for the single position it starts from.
-/

namespace Kbd.Font.Unimap

open Kbd.Keymap (bytes digitVal)
open Kbd.Lib

/-! ## Words -/

/-- Blanks and tabs. -/
abbrev Blanks := { s : List Char // ∀ c ∈ s, isBlank c = true }

/-- The notations of a number. -/
inductive Radix where
  | decimal
  | octal
  | hex
  /-- with `0X` -/
  | hexUpper
  deriving DecidableEq, Repr

def Radix.base : Radix → Nat
  | .decimal => 10
  | .octal => 8
  | .hex | .hexUpper => 16

def Radix.marker : Radix → List Char
  | .decimal => []
  | .octal => ['0']
  | .hex => ['0', 'x']
  | .hexUpper => ['0', 'X']

/-- Which digits may come after the marker. -/
def Radix.Starts : Radix → List Char → Prop
  | .decimal, digits => ∃ c s, digits = c :: s ∧ c ≠ '0'
  | .octal, _ => True
  | .hex, digits | .hexUpper, digits => digits ≠ []

/-- A number as it is written. -/
structure Numeral where
  radix : Radix
  digits : List Char
  digit : ∀ c ∈ digits, (digitVal c).any (· < radix.base) = true
  starts : radix.Starts digits

def Numeral.text (n : Numeral) : List Char := n.radix.marker ++ n.digits

def Numeral.value (n : Numeral) : Nat := Digits.value n.radix.base 0 (n.digits.filterMap digitVal)

/-- A code point as it is written. -/
structure Code where
  c1 : Char
  c2 : Char
  c3 : Char
  c4 : Char
  xdigit : (isxdigit c1 && isxdigit c2 && isxdigit c3 && isxdigit c4) = true

def Code.text (u : Code) : List Char := ['U', '+', u.c1, u.c2, u.c3, u.c4]

def Code.value (u : Code) : Nat := Digits.value 16 0 ([u.c1, u.c2, u.c3, u.c4].filterMap digitVal)

/-! ## Lines -/

/-- What comes after a range of positions. -/
inductive Target where
  | idem (b : Blanks)
  | one (b : Blanks) (u : Code)
  | range (b : Blanks) (u : Code) (b1 b2 : Blanks) (v : Code)

/-- The end of a line. -/
structure Tail where
  blanks : Blanks
  comment : Option (List Char)

inductive Line where
  | single (b : Blanks) (a : Numeral) (us : List (Blanks × Code)) (tail : Tail)
  | range (b : Blanks) (a : Numeral) (b1 b2 : Blanks) (e : Numeral) (target : Target) (tail : Tail)

def Tail.text (tail : Tail) : List Char :=
  tail.blanks.1 ++
    match tail.comment with
    | none => []
    | some s => '#' :: s

def usText (us : List (Blanks × Code)) : List Char := us.flatMap fun u => u.1.1 ++ u.2.text

def Target.text : Target → List Char
  | .idem b => b.1 ++ bytes "idem"
  | .one b u => b.1 ++ u.text
  | .range b u b1 b2 v => b.1 ++ u.text ++ b1.1 ++ '-' :: (b2.1 ++ v.text)

def Line.text : Line → List Char
  | .single b a us tail => b.1 ++ a.text ++ (usText us ++ tail.text)
  | .range b a b1 b2 e target tail =>
    b.1 ++ a.text ++ (b1.1 ++ '-' :: (b2.1 ++ e.text ++ (target.text ++ tail.text)))

/-- The pairs for the positions `a` to `e`. -/
def Target.denotes (a e : Nat) : Target → Option (List Unipair)
  | .idem _ => some ((List.range' a (e + 1 - a)).map fun i => { unicode := i, fontpos := i })
  | .one _ u => some ((List.range' a (e + 1 - a)).map fun i => { unicode := u.value, fontpos := i })
  | .range _ u _ _ v =>
    if u.value + (e - a) = v.value then
      some ((List.range' a (e + 1 - a)).map fun i => { unicode := u.value + (i - a), fontpos := i })
    else none

/-- The pairs that a line stands for; `none` when it is wrong. -/
def Line.denotes : Line → Option (List Unipair)
  | .single _ a us _ =>
    if a.value < 512 then some (us.map fun u => { unicode := u.2.value, fontpos := a.value })
    else none
  | .range _ a _ _ e target _ =>
    if a.value < 512 ∧ e.value < 512 ∧ a.value ≤ e.value then target.denotes a.value e.value
    else none

/-- What `parseline` has to do with a line: append its pairs, or fail and append nothing. -/
def Line.Appended (line : Line) (l : UniList) : Prop :=
  match line.denotes with
  | some ps => ∃ l', (parseline line.text).run l = .ok () l' ∧ l'.pairs = l.pairs ++ ps
  | none => ∃ err, (parseline line.text).run l = .error err l

/-! ## Words are read -/

/-- The character is no part of a number. -/
def EndsNumber (c : Char) : Prop := digitVal c = none ∧ c ≠ 'x' ∧ c ≠ 'X'

instance (c : Char) : Decidable (EndsNumber c) :=
  inferInstanceAs (Decidable (digitVal c = none ∧ c ≠ 'x' ∧ c ≠ 'X'))

theorem endsNumber_blank {c : Char} (h : isBlank c = true) : EndsNumber c := by
  simp only [isBlank, Bool.or_eq_true, decide_eq_true_eq] at h
  rcases h with rfl | rfl <;> decide

theorem digitVal_of_isspace {c : Char} (h : isspace c = true) : digitVal c = none := by
  simp only [isspace, Bool.or_eq_true, decide_eq_true_eq] at h
  rcases h with ((((rfl | rfl) | rfl) | rfl) | rfl) | rfl <;> rfl

theorem isspace_of_isBlank {c : Char} (h : isBlank c = true) : isspace c = true := by
  simp only [isBlank, Bool.or_eq_true, decide_eq_true_eq] at h
  rcases h with rfl | rfl <;> rfl

theorem Blanks.dropWhile (b : Blanks) {rest : List Char} (hrest : ∀ c ∈ rest.head?, isBlank c = false) :
    (b.1 ++ rest).dropWhile isBlank = rest := by
  rw [List.dropWhile_append_of_pos b.2]
  cases rest with
  | nil => rfl
  | cons c rest => rw [List.dropWhile_cons_of_neg (by simp [hrest c rfl])]

theorem Blanks.head {b : Blanks} {rest : List Char} {P : Char → Prop}
    (hblank : ∀ c, isBlank c = true → P c) (hrest : ∀ c ∈ rest.head?, P c) :
    ∀ c ∈ (b.1 ++ rest).head?, P c := by
  obtain ⟨b, hb⟩ := b
  cases b with
  | nil => exact hrest
  | cons d b =>
    intro c hc
    cases hc
    exact hblank d (hb d List.mem_cons_self)

/-- A text that starts with a digit. -/
def DigitFirst (s : List Char) : Prop := ∃ c s' d, s = c :: s' ∧ digitVal c = some d

theorem DigitFirst.dropWhile_isspace {s : List Char} (h : DigitFirst s) : s.dropWhile isspace = s := by
  obtain ⟨c, s', d, rfl, hd⟩ := h
  refine List.dropWhile_cons_of_neg fun hc => ?_
  rw [digitVal_of_isspace hc] at hd
  cases hd

theorem DigitFirst.isBlank_head {s : List Char} (h : DigitFirst s) :
    ∀ c ∈ s.head?, isBlank c = false := by
  obtain ⟨c, s', d, rfl, hd⟩ := h
  rintro _ ⟨⟩
  by_contra hc
  rw [digitVal_of_isspace (isspace_of_isBlank (Bool.not_eq_false _ ▸ hc))] at hd
  cases hd

theorem DigitFirst.strtolSign {s : List Char} (h : DigitFirst s) : strtolSign s = (false, s) := by
  obtain ⟨c, s', d, rfl, hd⟩ := h
  unfold Font.strtolSign
  split
  · rename_i heq
    cases heq
    cases hd
  · rename_i heq
    cases heq
    cases hd
  · rfl

theorem strtolBase_octal {s : List Char} (h : ∀ c ∈ s.head?, c ≠ 'x' ∧ c ≠ 'X') :
    strtolBase ('0' :: s) = (8, '0' :: s) := by
  match s with
  | [] => rfl
  | [c] => rfl
  | c :: d :: s =>
    obtain ⟨hx, hX⟩ := h c rfl
    simp [strtolBase, hx, hX]

theorem Numeral.digitFirst (n : Numeral) (rest : List Char) : DigitFirst (n.text ++ rest) := by
  obtain ⟨radix, digits, digit, starts⟩ := n
  cases radix with
  | decimal =>
    obtain ⟨c, s, hdigits, -⟩ := starts
    change digits = c :: s at hdigits
    subst hdigits
    obtain ⟨d, hd, -⟩ := exists_digit (digit c List.mem_cons_self)
    exact ⟨c, s ++ rest, d, rfl, hd⟩
  | octal => exact ⟨'0', digits ++ rest, 0, rfl, rfl⟩
  | hex => exact ⟨'0', 'x' :: (digits ++ rest), 0, rfl, rfl⟩
  | hexUpper => exact ⟨'0', 'X' :: (digits ++ rest), 0, rfl, rfl⟩

/-- The base is found by the marker, and the number up to what follows. -/
theorem Numeral.strtolBase (n : Numeral) {rest : List Char} (hrest : ∀ c ∈ rest.head?, EndsNumber c) :
    ∃ ds, strtolBase (n.text ++ rest) = (n.radix.base, ds ++ rest) ∧ ds ≠ [] ∧
      (∀ c ∈ ds, (digitVal c).any (· < n.radix.base) = true) ∧
      Digits.value n.radix.base 0 (ds.filterMap digitVal) = n.value := by
  obtain ⟨radix, digits, digit, starts⟩ := n
  have hhex : ∀ {x : Char}, x = 'x' ∨ x = 'X' → digits ≠ [] →
      (∀ c ∈ digits, (digitVal c).any (· < 16) = true) →
      Font.strtolBase ('0' :: x :: (digits ++ rest)) = (16, digits ++ rest) := by
    intro x hx hne hdigit
    obtain ⟨c, s, rfl⟩ := List.exists_cons_of_ne_nil hne
    obtain ⟨d, hd, -⟩ := exists_digit (hdigit c List.mem_cons_self)
    have hxdigit : isxdigit c = true := by rw [isxdigit, hd]; rfl
    simp [Font.strtolBase, hx, hxdigit]
  cases radix with
  | decimal =>
    obtain ⟨c, s, hdigits, hc⟩ := starts
    change digits = c :: s at hdigits
    subst hdigits
    refine ⟨c :: s, ?_, List.cons_ne_nil c s, digit, rfl⟩
    change Font.strtolBase (c :: (s ++ rest)) = (10, c :: (s ++ rest))
    unfold Font.strtolBase
    split
    · rename_i heq
      exact absurd (List.cons.inj heq).1 hc
    · rename_i heq
      exact absurd (List.cons.inj heq).1 hc
    · rfl
  | octal =>
    refine ⟨'0' :: digits, ?_, List.cons_ne_nil _ _, ?_, ?_⟩
    · refine strtolBase_octal ?_
      cases digits with
      | nil => exact fun c hc => (hrest c hc).2
      | cons c digits =>
        rintro _ ⟨⟩
        obtain ⟨d, hd, -⟩ := exists_digit (digit c List.mem_cons_self)
        constructor <;> rintro rfl <;> cases hd
    · rw [List.forall_mem_cons]
      exact ⟨rfl, digit⟩
    · rfl
  | hex => exact ⟨digits, hhex (Or.inl rfl) starts digit, starts, digit, rfl⟩
  | hexUpper => exact ⟨digits, hhex (Or.inr rfl) starts digit, starts, digit, rfl⟩

/-- The number of a position is read. -/
theorem Numeral.strtol0 (n : Numeral) {rest : List Char} (hrest : ∀ c ∈ rest.head?, EndsNumber c) :
    strtol0 (n.text ++ rest) = some ((n.value : Int), rest) := by
  have hfirst := n.digitFirst rest
  have hnone : ∀ c ∈ rest.head?, digitVal c = none := fun c hc => (hrest c hc).1
  obtain ⟨ds, hbase, hne, hds, hval⟩ := n.strtolBase hrest
  simp only [Font.strtol0, hfirst.dropWhile_isspace, hfirst.strtolSign, hbase,
    takeWhile_digits hds hnone, digits_append hds hnone, hval, hne, if_false, List.drop_left]
  rfl

theorem strtol0_blanks (b : Blanks) (s : List Char) : Font.strtol0 (b.1 ++ s) = Font.strtol0 s := by
  rw [Font.strtol0, Font.strtol0,
    List.dropWhile_append_of_pos fun c hc => isspace_of_isBlank (b.2 c hc)]

theorem Numeral.strToUshort (n : Numeral) (b : Blanks) {rest : List Char}
    (hrest : ∀ c ∈ rest.head?, EndsNumber c) :
    strToUshort (b.1 ++ n.text ++ rest) =
      if n.value > 65535 then .error (.tooBig n.value) else .ok (n.value, rest) := by
  have hneg : ¬ (n.value : Int) < 0 := by omega
  rw [List.append_assoc, Unimap.strToUshort, strtol0_blanks, n.strtol0 hrest]
  simp only [hneg, if_false, Int.toNat_natCast]
  split <;> split <;> first | rfl | omega

theorem digit_of_isxdigit {c : Char} (h : isxdigit c = true) : (digitVal c).any (· < 16) = true := by
  obtain ⟨d, hd⟩ := Option.isSome_iff_exists.mp h
  rw [hd]
  exact decide_eq_true (digitVal_lt hd)

theorem isxdigit_of_endsNumber {c : Char} (h : EndsNumber c) : isxdigit c = false := by
  rw [isxdigit, h.1]
  rfl

/-- The code point after blanks is read. -/
theorem Code.getunicode (u : Code) (b : Blanks) {rest : List Char}
    (hrest : ∀ c ∈ rest.head?, EndsNumber c) :
    getunicode (b.1 ++ u.text ++ rest) = some (u.value, rest) := by
  have hx := u.xdigit
  simp only [Bool.and_eq_true] at hx
  obtain ⟨⟨⟨h1, h2⟩, h3⟩, h4⟩ := hx
  have hvalue : Kbd.Keymap.digits 16 [u.c1, u.c2, u.c3, u.c4] 0 = u.value := by
    have hdigit : ∀ c ∈ [u.c1, u.c2, u.c3, u.c4], (digitVal c).any (· < 16) = true := by
      simp only [List.forall_mem_cons]
      exact ⟨digit_of_isxdigit h1, digit_of_isxdigit h2, digit_of_isxdigit h3, digit_of_isxdigit h4,
        by simp⟩
    exact @digits_append 16 _ [] hdigit (by simp) 0
  have hnext : rest.head?.any isxdigit = false := by
    cases rest with
    | nil => rfl
    | cons c rest => exact isxdigit_of_endsNumber (hrest c rfl)
  have hdrop : (b.1 ++ u.text ++ rest).dropWhile isBlank =
      'U' :: '+' :: u.c1 :: u.c2 :: u.c3 :: u.c4 :: rest := by
    rw [List.append_assoc]
    exact b.dropWhile (by simp [Code.text, isBlank])
  rw [Unimap.getunicode, hdrop]
  simp only [h1, h2, h3, h4, hnext, hvalue, Bool.not_true, Bool.or_self, Bool.false_eq_true, if_false]

/-! ## Lines are read -/

theorem Tail.head (tail : Tail) : ∀ c ∈ tail.text.head?, EndsNumber c := by
  refine Blanks.head (fun c => endsNumber_blank) ?_
  cases tail.comment with
  | none => simp
  | some s =>
    rintro _ ⟨⟩
    decide

theorem Tail.dropWhile (tail : Tail) :
    tail.text.dropWhile isBlank = [] ∨ ∃ s, tail.text.dropWhile isBlank = '#' :: s := by
  rw [Tail.text]
  cases tail.comment with
  | none =>
    left
    exact tail.blanks.dropWhile (by simp)
  | some s =>
    right
    exact ⟨s, tail.blanks.dropWhile (by simp [isBlank])⟩

theorem getunicode_eq_none {p : List Char} (h : ∀ c ∈ (p.dropWhile isBlank).head?, c ≠ 'U') :
    getunicode p = none := by
  rw [Unimap.getunicode]
  split
  · rename_i heq
    rw [heq] at h
    exact absurd rfl (h 'U' rfl)
  · rfl

theorem Tail.getunicode (tail : Tail) : getunicode tail.text = none := by
  refine getunicode_eq_none ?_
  rcases tail.dropWhile with h | ⟨s, h⟩
  · rw [h]
    simp
  · rw [h]
    rintro _ ⟨⟩
    decide

theorem usText_head (us : List (Blanks × Code)) (tail : Tail) :
    ∀ c ∈ (usText us ++ tail.text).head?, EndsNumber c := by
  cases us with
  | nil => exact tail.head
  | cons u us =>
    rw [usText, List.flatMap_cons, List.append_assoc, List.append_assoc]
    refine Blanks.head (fun c => endsNumber_blank) ?_
    rintro _ ⟨⟩
    decide

theorem getunicode_dropWhile (p : List Char) :
    getunicode (p.dropWhile isBlank) = getunicode p := by
  rw [Unimap.getunicode, List.dropWhile_idempotent, Unimap.getunicode]

theorem uniPairs_dropWhile (fp0 rounds : Nat) (p : List Char) :
    uniPairs fp0 rounds (p.dropWhile isBlank) = uniPairs fp0 rounds p := by
  cases rounds with
  | zero => rfl
  | succ rounds => rw [uniPairs, uniPairs, getunicode_dropWhile]

theorem uniPairs_usText (fp0 : Nat) {rounds : Nat} {us : List (Blanks × Code)} (tail : Tail)
    (hrounds : us.length ≤ rounds) :
    uniPairs fp0 rounds (usText us ++ tail.text) =
      us.map fun u => { unicode := u.2.value, fontpos := fp0 } := by
  induction us generalizing rounds with
  | nil =>
    cases rounds with
    | zero => rfl
    | succ rounds =>
      change uniPairs fp0 (rounds + 1) tail.text = []
      rw [uniPairs, tail.getunicode]
  | cons u us ih =>
    obtain ⟨n, rfl⟩ : ∃ n, rounds = n + 1 := ⟨rounds - 1, by simp at hrounds; omega⟩
    have hget := u.2.getunicode u.1 (usText_head us tail)
    rw [usText, List.flatMap_cons, List.append_assoc, ← usText, uniPairs, hget, List.map_cons]
    dsimp only
    rw [ih (by simp at hrounds; omega)]

/-- A line after its first number. -/
theorem linePairs_numeral (b : Blanks) (a : Numeral) {rest : List Char}
    (hrest : ∀ c ∈ rest.head?, EndsNumber c) :
    linePairs (b.1 ++ a.text ++ rest) =
      if a.value > 65535 then .error (.tooBig a.value)
      else rangeEnd rest >>= fun (fp1, p) =>
        if a.value ≥ 512 then .error (.glyphNumber a.value)
        else if fp1 ≠ 0 ∧ (fp1 < a.value ∨ fp1 ≥ 512) then .error (.badRange fp1)
        else if fp1 ≠ 0 then rangeLinePairs p a.value fp1
        else .ok (uniPairs a.value p.length p) := by
  have hfirst := a.digitFirst rest
  have hdrop : (b.1 ++ a.text ++ rest).dropWhile isBlank = a.text ++ rest := by
    rw [List.append_assoc]
    exact b.dropWhile hfirst.isBlank_head
  have hnumber := a.strToUshort ⟨[], by simp⟩ hrest
  rw [List.nil_append] at hnumber
  have hline : ¬ (a.text ++ rest = [] ∨ (a.text ++ rest).head? = some '#') := by
    obtain ⟨c, s, d, heq, hd⟩ := hfirst
    rw [heq]
    rintro (h | h)
    · cases h
    · cases h
      cases hd
  rw [linePairs, hdrop]
  dsimp only
  rw [if_neg (by simpa using hline), hnumber]
  split <;> rfl

theorem rangeEnd_usText (us : List (Blanks × Code)) (tail : Tail) :
    rangeEnd (usText us ++ tail.text) = .ok (0, (usText us ++ tail.text).dropWhile isBlank) := by
  have hhead : ∀ s, (usText us ++ tail.text).dropWhile isBlank ≠ '-' :: s := by
    intro s hs
    cases us with
    | nil =>
      rcases tail.dropWhile with h | ⟨s', h⟩
      · cases h.symm.trans hs
      · cases h.symm.trans hs
    | cons u us =>
      rw [usText, List.flatMap_cons, List.append_assoc, List.append_assoc,
        u.1.dropWhile (by simp [Code.text, isBlank])] at hs
      cases hs
  rw [rangeEnd]
  split
  · rename_i heq
    exact absurd heq (hhead _)
  · rfl

theorem length_le_usText (us : List (Blanks × Code)) (tail : Tail) :
    us.length ≤ ((usText us ++ tail.text).dropWhile isBlank).length := by
  have hflat : ∀ us : List (Blanks × Code), us.length ≤ (usText us).length := by
    intro us
    induction us with
    | nil => exact Nat.le_refl _
    | cons u us ih =>
      rw [usText, List.flatMap_cons, ← usText, List.length_append, List.length_append, Code.text]
      simp only [List.length_cons]
      omega
  cases us with
  | nil => exact Nat.zero_le _
  | cons u us =>
    have hus := hflat us
    rw [usText, List.flatMap_cons, List.append_assoc, List.append_assoc,
      u.1.dropWhile (by simp [Code.text, isBlank]), ← usText, Code.text]
    simp only [List.length_cons, List.length_append]
    omega

/-- What a line stands for is what the code makes of it. -/
def Line.Read (line : Line) : Prop :=
  match line.denotes with
  | some ps => linePairs line.text = .ok ps
  | none => ∃ err, linePairs line.text = .error err

theorem read_single (b : Blanks) (a : Numeral) (us : List (Blanks × Code)) (tail : Tail) :
    (Line.single b a us tail).Read := by
  have hline := linePairs_numeral b a (usText_head us tail)
  rw [rangeEnd_usText] at hline
  rw [Line.Read, Line.denotes, Line.text, hline]
  by_cases ha : a.value < 512
  · have hsmall : ¬ a.value > 65535 := by omega
    have hglyph : ¬ a.value ≥ 512 := by omega
    simp only [ha, hsmall, hglyph, if_true, if_false, bind, Except.bind, ne_eq, not_true, false_and,
      uniPairs_dropWhile, uniPairs_usText a.value tail (length_le_usText us tail)]
  · have hglyph : a.value ≥ 512 := by omega
    simp only [ha, hglyph, if_true, if_false]
    split
    · exact ⟨_, rfl⟩
    · exact ⟨_, rfl⟩

theorem Target.head (target : Target) (tail : Tail) :
    ∀ c ∈ (target.text ++ tail.text).head?, EndsNumber c := by
  cases target
  all_goals
    simp only [Target.text, List.append_assoc]
    refine Blanks.head (fun c => endsNumber_blank) ?_
    rintro _ ⟨⟩
    decide

theorem rangeEnd_dash (b : Blanks) (p : List Char) : rangeEnd (b.1 ++ '-' :: p) = strToUshort p := by
  rw [rangeEnd, b.dropWhile (by simp [isBlank])]
  rfl

/-- A line with a range of positions. -/
theorem linePairs_range (b : Blanks) (a : Numeral) (b1 b2 : Blanks) (e : Numeral) (target : Target)
    (tail : Tail) :
    linePairs (Line.range b a b1 b2 e target tail).text =
      if a.value > 65535 then .error (.tooBig a.value)
      else if e.value > 65535 then .error (.tooBig e.value)
      else if a.value ≥ 512 then .error (.glyphNumber a.value)
      else if e.value ≠ 0 ∧ (e.value < a.value ∨ e.value ≥ 512) then .error (.badRange e.value)
      else if e.value ≠ 0 then rangeLinePairs (target.text ++ tail.text) a.value e.value
      else .ok (uniPairs a.value (target.text ++ tail.text).length (target.text ++ tail.text)) := by
  have hend : ∀ c ∈ (b1.1 ++ '-' :: (b2.1 ++ e.text ++ (target.text ++ tail.text))).head?,
      EndsNumber c := by
    refine Blanks.head (fun c => endsNumber_blank) ?_
    rintro _ ⟨⟩
    decide
  rw [Line.text, linePairs_numeral b a hend, rangeEnd_dash, e.strToUshort b2 (target.head tail)]
  split
  · rfl
  · split <;> rfl

theorem Code.value_lt (u : Code) : u.value < 65536 := by
  have hx := u.xdigit
  simp only [Bool.and_eq_true] at hx
  obtain ⟨⟨⟨h1, h2⟩, h3⟩, h4⟩ := hx
  obtain ⟨d1, e1⟩ := Option.isSome_iff_exists.mp h1
  obtain ⟨d2, e2⟩ := Option.isSome_iff_exists.mp h2
  obtain ⟨d3, e3⟩ := Option.isSome_iff_exists.mp h3
  obtain ⟨d4, e4⟩ := Option.isSome_iff_exists.mp h4
  have l1 := digitVal_lt e1
  have l2 := digitVal_lt e2
  have l3 := digitVal_lt e3
  have l4 := digitVal_lt e4
  simp only [Code.value, List.filterMap_cons, e1, e2, e3, e4, List.filterMap_nil,
    Digits.value_cons, Digits.value_nil]
  omega

theorem Blanks.dropWhile_idem (b : Blanks) (rest : List Char) :
    (b.1 ++ bytes "idem" ++ rest).dropWhile isBlank = bytes "idem" ++ rest := by
  rw [List.append_assoc]
  refine b.dropWhile ?_
  rintro _ ⟨⟩
  rfl

theorem not_isPrefixOf_idem (u : Code) (s : List Char) :
    (bytes "idem").isPrefixOf (u.text ++ s) = false := rfl

/-- `un0 - fp0 + i` in the type `unsigned short`. -/
theorem ushort_shift {un0 fp0 i : Nat} (hfp : fp0 < 65536) (hun : un0 + (i - fp0) < 65536)
    (hi : fp0 ≤ i) : ((un0 + 65536 - fp0) % 65536 + i) % 65536 = un0 + (i - fp0) := by
  omega

theorem rangeLinePairs_target (a e : Nat) (target : Target) (tail : Tail) (h : a ≤ e) (he : e < 512) :
    match target.denotes a e with
    | some ps => rangeLinePairs (target.text ++ tail.text) a e = .ok ps
    | none => ∃ err, rangeLinePairs (target.text ++ tail.text) a e = .error err := by
  cases target with
  | idem b =>
    have hdrop := b.dropWhile_idem tail.text
    have hidem : (bytes "idem").isPrefixOf (bytes "idem" ++ tail.text) = true := rfl
    simp only [Target.denotes, Target.text, rangeLinePairs, hdrop, hidem, if_true, rangePairs]
  | one b u =>
    have hdrop : (b.1 ++ u.text ++ tail.text).dropWhile isBlank = u.text ++ tail.text := by
      rw [List.append_assoc]
      exact b.dropWhile (by simp [Code.text, isBlank])
    have hget := u.getunicode ⟨[], by simp⟩ tail.head
    rw [List.nil_append] at hget
    simp only [Target.denotes, Target.text, rangeLinePairs, hdrop, not_isPrefixOf_idem, hget]
    rcases tail.dropWhile with htail | ⟨s, htail⟩
    · rw [htail]
      rfl
    · rw [htail]
      simp [rangePairs]
  | range b u b1 b2 v =>
    have hdrop : (b.1 ++ u.text ++ b1.1 ++ '-' :: (b2.1 ++ v.text) ++ tail.text).dropWhile isBlank =
        u.text ++ (b1.1 ++ '-' :: (b2.1 ++ v.text ++ tail.text)) := by
      simp only [List.append_assoc, List.cons_append]
      exact b.dropWhile (by simp [Code.text, isBlank])
    have hdash : ∀ c ∈ (b1.1 ++ '-' :: (b2.1 ++ v.text ++ tail.text)).head?, EndsNumber c := by
      refine Blanks.head (fun c => endsNumber_blank) ?_
      rintro _ ⟨⟩
      decide
    have hget := u.getunicode ⟨[], by simp⟩ hdash
    rw [List.nil_append] at hget
    have hget' := v.getunicode b2 tail.head
    have hnext : (b1.1 ++ '-' :: (b2.1 ++ v.text ++ tail.text)).dropWhile isBlank =
        '-' :: (b2.1 ++ v.text ++ tail.text) := b1.dropWhile (by simp [isBlank])
    have hv := v.value_lt
    simp only [Target.denotes, Target.text, rangeLinePairs, hdrop, not_isPrefixOf_idem, hget, hnext, hget']
    by_cases hlen : u.value + (e - a) = v.value
    · have hsame : ¬ ((v.value : Int) - u.value ≠ (e : Int) - a) := by omega
      simp only [hlen, hsame, if_true, if_false, rangePairs, Bool.false_eq_true]
      refine congrArg Except.ok (List.map_congr_left fun i hi => ?_)
      rw [List.mem_range'_1] at hi
      rw [ushort_shift (by omega) (by omega) hi.1]
    · have hdiff : (v.value : Int) - u.value ≠ (e : Int) - a := by omega
      simp only [hlen, if_false, Bool.false_eq_true]
      exact ⟨_, if_pos hdiff⟩

/-! ## What goes wrong -/

/-- The range ends at position 0, and what the line is taken for is not what it stands for. -/
def Line.Misread : Line → Prop
  | .single .. => False
  | .range _ a _ _ e target _ =>
    e.value = 0 ∧ a.value < 512 ∧
      (a.value ≠ 0 ∨
        match target with
        | .idem _ => True
        | .one _ _ => False
        | .range _ u _ _ v => u.value ≠ v.value)

theorem uniPairs_eq_nil {p : List Char} (h : getunicode p = none) (fp0 rounds : Nat) :
    uniPairs fp0 rounds p = [] := by
  cases rounds with
  | zero => rfl
  | succ rounds => rw [uniPairs, h]

theorem uniPairs_code (fp0 : Nat) (b : Blanks) (u : Code) {rest : List Char}
    (hrest : ∀ c ∈ rest.head?, EndsNumber c) (hnone : getunicode rest = none) :
    uniPairs fp0 (b.1 ++ u.text ++ rest).length (b.1 ++ u.text ++ rest) =
      [{ unicode := u.value, fontpos := fp0 }] := by
  obtain ⟨n, hn⟩ : ∃ n, (b.1 ++ u.text ++ rest).length = n + 1 := by
    refine ⟨(b.1 ++ u.text ++ rest).length - 1, ?_⟩
    simp only [List.length_append, Code.text, List.length_cons]
    omega
  rw [hn, uniPairs, u.getunicode b hrest]
  dsimp only
  rw [uniPairs_eq_nil hnone]

/-- What a range is taken for when its end is read as "no range". -/
theorem uniPairs_target (a : Nat) (target : Target) (tail : Tail) :
    uniPairs a (target.text ++ tail.text).length (target.text ++ tail.text) =
      match target with
      | .idem _ => []
      | .one _ u | .range _ u _ _ _ => [{ unicode := u.value, fontpos := a }] := by
  cases target with
  | idem b =>
    refine uniPairs_eq_nil (getunicode_eq_none ?_) a _
    rw [Target.text, b.dropWhile_idem]
    rintro _ ⟨⟩
    decide
  | one b u => exact uniPairs_code a b u tail.head tail.getunicode
  | range b u b1 b2 v =>
    have hdash : ∀ c ∈ (b1.1 ++ '-' :: (b2.1 ++ v.text ++ tail.text)).head?, EndsNumber c := by
      refine Blanks.head (fun c => endsNumber_blank) ?_
      rintro _ ⟨⟩
      decide
    have hnone : getunicode (b1.1 ++ '-' :: (b2.1 ++ v.text ++ tail.text)) = none := by
      refine getunicode_eq_none ?_
      rw [b1.dropWhile (by simp [isBlank])]
      rintro _ ⟨⟩
      decide
    have := uniPairs_code a b u hdash hnone
    simpa only [Target.text, List.append_assoc, List.cons_append] using this

theorem read_range (b : Blanks) (a : Numeral) (b1 b2 : Blanks) (e : Numeral) (target : Target)
    (tail : Tail) (h : ¬ (Line.range b a b1 b2 e target tail).Misread) :
    (Line.range b a b1 b2 e target tail).Read := by
  have h : ¬ (e.value = 0 ∧ a.value < 512 ∧ (a.value ≠ 0 ∨ _)) := h
  rw [Line.Read, linePairs_range]
  by_cases hrange : a.value < 512 ∧ e.value < 512 ∧ a.value ≤ e.value
  · obtain ⟨ha, he, hle⟩ := hrange
    have hbig : ¬ a.value > 65535 := by omega
    have hbig' : ¬ e.value > 65535 := by omega
    have hglyph : ¬ a.value ≥ 512 := by omega
    have hend : ¬ (e.value ≠ 0 ∧ (e.value < a.value ∨ e.value ≥ 512)) := by omega
    simp only [Line.denotes, ha, he, hle, and_self, if_true, hbig, hbig', hglyph, hend, if_false]
    by_cases h0 : e.value = 0
    · have ha0 : a.value = 0 := by omega
      simp only [h0, ha0, ne_eq, not_true, if_false, uniPairs_target]
      cases target with
      | idem b => exact absurd ⟨h0, ha, Or.inr trivial⟩ h
      | one b u => rfl
      | range b u b1 b2 v =>
        have huv : u.value = v.value := by
          by_contra huv
          exact h ⟨h0, ha, Or.inr huv⟩
        simp [Target.denotes, huv]
    · simp only [h0, ne_eq, not_false_eq_true, if_true]
      exact rangeLinePairs_target a.value e.value target tail hle he
  · simp only [Line.denotes, hrange, if_false]
    split
    · exact ⟨_, rfl⟩
    split
    · exact ⟨_, rfl⟩
    split
    · exact ⟨_, rfl⟩
    split
    · exact ⟨_, rfl⟩
    · exact absurd ⟨by omega, by omega, Or.inl (by omega)⟩ h

/-- A line that is misread is not refused, and if it stands for anything some of it is lost. -/
theorem Line.Misread.linePairs {line : Line} (h : line.Misread) :
    ∃ ps, linePairs line.text = .ok ps ∧ ∀ qs, line.denotes = some qs → ps.length < qs.length := by
  cases line with
  | single => exact absurd h id
  | range b a b1 b2 e target tail =>
    obtain ⟨h0, ha, hwrong⟩ := h
    have hbig : ¬ a.value > 65535 := by omega
    have hglyph : ¬ a.value ≥ 512 := by omega
    refine ⟨_, by rw [linePairs_range, if_neg hbig, if_neg (by omega), if_neg hglyph,
      if_neg (by omega), if_neg (by omega), uniPairs_target], ?_⟩
    simp only [Line.denotes, h0, ha, true_and, Nat.le_zero_eq]
    rcases hwrong with ha0 | hwrong
    · simp [ha0]
    · split
      · rename_i ha0
        rw [ha0.2]
        cases target with
        | idem b => simp [Target.denotes]
        | one b u => exact absurd hwrong id
        | range b u b1 b2 v => simp [Target.denotes, show ¬ u.value = v.value from hwrong]
      · simp

theorem Line.read {line : Line} (h : ¬ line.Misread) : line.Read := by
  cases line with
  | single b a us tail => exact read_single b a us tail
  | range b a b1 b2 e target tail => exact read_range b a b1 b2 e target tail h

theorem Line.Misread.not_appended {line : Line} (h : line.Misread) {l : UniList} (hl : l.Valid) :
    ¬ line.Appended l := by
  intro happ
  obtain ⟨ps, hps, hlost⟩ := h.linePairs
  have hspec := parseline_spec hl line.text
  rw [hps] at hspec
  obtain ⟨l', hrun, hl', hct, -⟩ := hspec
  rw [Line.Appended] at happ
  cases hden : line.denotes with
  | none =>
    rw [hden] at happ
    obtain ⟨err, herr⟩ := happ
    cases hrun.symm.trans herr
  | some qs =>
    rw [hden] at happ
    obtain ⟨l'', hrun', heq⟩ := happ
    cases hrun.symm.trans hrun'
    have hlen := congrArg List.length heq
    rw [hl'.length_pairs, List.length_append, hl.length_pairs, hct] at hlen
    have hmod := Nat.mod_le (l.listct + ps.length) 65536
    have hshort := hlost qs hden
    omega

/-- A line does what it should unless it is misread or its pairs do not fit. -/
theorem Line.appended_iff (line : Line) {l : UniList} (hl : l.Valid) :
    line.Appended l ↔
      ¬ line.Misread ∧ ∀ ps, line.denotes = some ps → l.listct + ps.length ≤ 65535 := by
  have hspec := parseline_spec hl line.text
  constructor
  · intro happ
    have hread : ¬ line.Misread := fun hmis => hmis.not_appended hl happ
    rw [Line.Appended] at happ
    refine ⟨hread, fun ps hden => ?_⟩
    rw [hden] at happ
    obtain ⟨l', hrun, heq⟩ := happ
    have hps := Line.read hread
    rw [Line.Read, hden] at hps
    change Unimap.linePairs line.text = .ok ps at hps
    rw [hps] at hspec
    obtain ⟨l'', hrun', hl', -⟩ := hspec
    cases hrun.symm.trans hrun'
    have hlen := congrArg List.length heq
    rw [hl'.length_pairs, List.length_append, hl.length_pairs] at hlen
    have hlt := hl'.lt
    omega
  · rintro ⟨hread, hroom⟩
    have hread := Line.read hread
    rw [Line.Appended]
    rw [Line.Read] at hread
    cases hden : line.denotes with
    | none =>
      rw [hden] at hread
      obtain ⟨err, herr⟩ := hread
      rw [herr] at hspec
      exact ⟨err, hspec⟩
    | some ps =>
      rw [hden] at hread
      change Unimap.linePairs line.text = .ok ps at hread
      rw [hread] at hspec
      obtain ⟨l', hrun, -, -, hpairs⟩ := hspec
      exact ⟨l', hrun, hpairs (hroom ps hden)⟩

/-- The line "5-0 U+0041", which ends before it starts. -/
def endZero : Line :=
  .range ⟨[], by simp⟩ ⟨.decimal, ['5'], List.all_eq_true.mp (by decide), '5', [], rfl, by decide⟩
    ⟨[], by simp⟩ ⟨[], by simp⟩ ⟨.octal, [], by simp, trivial⟩
    (.one ⟨[' '], List.all_eq_true.mp (by decide)⟩ ⟨'0', '0', '4', '1', by decide⟩)
    ⟨⟨[], by simp⟩, none⟩

theorem not_appended_endZero : ¬ endZero.Appended UniList.start := by
  have hmis : endZero.Misread := ⟨by decide, by decide, Or.inl (by decide)⟩
  exact hmis.not_appended UniList.valid_start

theorem Line.appended_iff_endZero :
    endZero.Appended UniList.start ↔
      ¬ endZero.Misread ∧ ∀ ps, endZero.denotes = some ps → UniList.start.listct + ps.length ≤ 65535 :=
  endZero.appended_iff UniList.valid_start

example : endZero.text = bytes "5-0 U+0041" ∧ endZero.denotes = none := by decide

end Kbd.Font.Unimap
