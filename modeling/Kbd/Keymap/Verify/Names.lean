import Kbd.Keymap.Verify.ReadBack

/-!
# Names of symbols as words

After an equals sign or `to`, the name of a symbol is read as a literal: it begins with a letter and
goes on with letters, digits and underscores, and it is none of the words that a rule before the one
for literals takes.
-/

namespace Kbd.Keymap

open Kbd.Lib

/-! ## Names -/

def isLetter (c : Char) : Bool := ('a' ≤ c && c ≤ 'z') || ('A' ≤ c && c ≤ 'Z')

def isNameChar (c : Char) : Bool := isLetter c || c = '_' || ('0' ≤ c && c ≤ '9')

/-- The words that are no literals. -/
def directives : List String := ["include", "string", "String", "STRING", "to", "To", "TO"]

/-- A word that is read as a literal. -/
def isName : List Char → Bool
  | [] => false
  | c :: s => isLetter c && s.all isNameChar && !directives.any (strEq (c :: s))

theorem isNameChar_of_isLetter {c : Char} (h : isLetter c = true) : isNameChar c = true := by
  simp [isNameChar, h]

/-- What `isName` says of a word. -/
structure NameWord (c : Char) (s : List Char) : Prop where
  letter : isLetter c = true
  chars : ∀ d ∈ c :: s, isNameChar d = true
  noDirective : ∀ n ∈ directives, c :: s ≠ bytes n

theorem nameWord_of_isName {w : List Char} (h : isName w = true) :
    ∃ c s, w = c :: s ∧ NameWord c s := by
  cases w with
  | nil => cases h
  | cons c s =>
    simp only [isName, Bool.and_eq_true, Bool.not_eq_true', List.all_eq_true,
      List.any_eq_false] at h
    obtain ⟨⟨hletter, hchars⟩, hno⟩ := h
    refine ⟨c, s, rfl, hletter, ?_, ?_⟩
    · intro d hd
      rcases List.mem_cons.mp hd with rfl | hd
      · exact isNameChar_of_isLetter hletter
      · exact hchars d hd
    · intro n hn heq
      apply hno n hn
      rw [strEq, heq]
      exact decide_eq_true rfl

theorem matches_spelled {ws : List String} {u : List Char} :
    (spelled ws).Matches u ↔ ∃ w ∈ ws, u = bytes w := by
  induction ws with
  | nil => simp [spelled, Re.words]
  | cons w ws ih =>
    have hcons : spelled (w :: ws) = .alt (Re.lit (bytes w)) (spelled ws) := rfl
    rw [hcons, Re.matches_alt, Re.matches_lit, ih]
    simp

theorem matches_literal {c : Char} {s : List Char} (h : NameWord c s) :
    literalPat.Matches (c :: s) := by
  have hclass {d : Char} (hd : isNameChar d = true) :
      (Re.alt letter (.alt (char '_') decDigit)).Matches [d] := by
    simp only [isNameChar, isLetter, Bool.or_eq_true, decide_eq_true_eq] at hd
    rcases hd with ((hd | hd) | hd) | hd
    · exact .altL (.altL (.cls hd))
    · exact .altL (.altR (.cls hd))
    · exact .altR (.altL (.cls (decide_eq_true hd)))
    · exact .altR (.altR (.cls hd))
  have hstar : (Re.star (Re.alt letter (.alt (char '_') decDigit))).Matches s := by
    have hs : ∀ d ∈ s, isNameChar d = true := fun d hd => h.chars d (List.mem_cons_of_mem c hd)
    clear h
    induction s with
    | nil => exact .starNil
    | cons d s ih =>
      rw [List.forall_mem_cons] at hs
      exact .starCons (hclass hs.1) (ih hs.2)
  have hletter : letter.Matches [c] := by
    have := h.letter
    simp only [isLetter, Bool.or_eq_true] at this
    rcases this with h | h
    · exact .altL (.cls h)
    · exact .altR (.cls h)
  exact .seq hletter hstar

/-- No rule before the one for literals takes a name. -/
theorem not_matches_before {c : Char} {s : List Char} (h : NameWord c s) {q : Rule × Re Char}
    (hq : q ∈ rulesBefore) : ¬ q.2.Matches (c :: s) := by
  have hhead {d : Char} (hd : isLetter d = false) : c ≠ d := by
    rintro rfl
    rw [h.letter] at hd
    cases hd
  have hword {ws : List String} (hws : ∀ n ∈ ws, n ∈ directives) :
      ¬ (spelled ws).Matches (c :: s) := by
    intro hm
    obtain ⟨n, hn, heq⟩ := matches_spelled.mp hm
    exact h.noDirective n (hws n hn) heq
  simp only [rulesBefore, List.mem_cons, List.not_mem_nil, or_false] at hq
  intro hm
  rcases hq with rfl | rfl | rfl | rfl | rfl | rfl | rfl | rfl | rfl | rfl
  · -- after the word `include` only blanks may come
    obtain ⟨b, heq, hb⟩ := matches_include.mp hm
    cases b with
    | nil => exact h.noDirective "include" (by decide) (by simpa using heq)
    | cons d b =>
      have hd := h.chars d (by rw [heq]; simp)
      rcases hb d List.mem_cons_self with rfl | rfl
      · exact absurd hd (by decide)
      · exact absurd hd (by decide)
  · exact hhead (by decide) (of_decide_eq_true (matches_seq_cls hm))
  · obtain ⟨a, ha, heq⟩ := Re.matches_cls.mp hm
    cases heq
    exact hhead (by decide) (of_decide_eq_true ha)
  · have hblank := contains_blank.mp (matches_seq_cls hm)
    rcases hblank with rfl | rfl
    · exact hhead (d := ' ') (by decide) rfl
    · exact hhead (d := '\t') (by decide) rfl
  · have hmem := matches_seq_cls hm
    simp only [List.contains_cons, List.contains_nil, Bool.or_false, Bool.or_eq_true,
      beq_iff_eq] at hmem
    rcases hmem with rfl | rfl
    · exact hhead (d := '#') (by decide) rfl
    · exact hhead (d := '!') (by decide) rfl
  · obtain ⟨a, ha, heq⟩ := Re.matches_cls.mp hm
    cases heq
    exact hhead (by decide) (of_decide_eq_true ha)
  · exact hword (by decide) hm
  · exact hword (by decide) hm
  · -- the second character would be the plus sign
    obtain ⟨v, w, heq, hv, hw⟩ := Re.matches_seq.mp hm
    obtain ⟨v', w', rfl, hv', -⟩ := Re.matches_seq.mp hw
    obtain ⟨a, ha, rfl⟩ := Re.matches_cls.mp hv'
    have hplus := h.chars a (by rw [heq]; simp)
    rw [of_decide_eq_true ha] at hplus
    exact absurd hplus (by decide)
  · have hdigit : '0' ≤ c ∧ c ≤ '9' := by
      rcases Re.matches_alt.mp hm with hm | hm
      · obtain ⟨h1, h9⟩ := between_iff.mp (matches_seq_cls hm)
        exact ⟨Char.le_trans (by decide) h1, h9⟩
      · have h0 : decide (c = '0') = true := by
          rcases Re.matches_alt.mp hm with hm | hm <;> exact matches_seq_cls hm
        rw [of_decide_eq_true h0]
        decide
    have hletter := h.letter
    simp only [isLetter, Bool.or_eq_true, between_iff] at hletter
    rcases hletter with ⟨ha, -⟩ | ⟨ha, -⟩
    · exact absurd (Char.le_trans ha hdigit.2) (by decide)
    · exact absurd (Char.le_trans ha hdigit.2) (by decide)

/-- A name is read as a literal, before a blank and at the end of a line. -/
theorem munch_name {w rest : List Char} (h : isName w = true)
    (hrest : ∀ c ∈ rest.head?, c = ' ' ∨ c = '\n') :
    munch (rules .rvalue) (w ++ rest) = some (.literal, w.length) := by
  obtain ⟨c, s, rfl, hw⟩ := nameWord_of_isName h
  refine munch_value_append ?_ (Or.inr (Or.inr (Or.inl rfl))) hrest
  rw [munch_eq_some_iff]
  refine ⟨Nat.le_refl _, ?_, fun m h1 h2 => by omega⟩
  have hnone : rulesBefore.find? (·.2.accepts (c :: s)) = none := by
    rw [List.find?_eq_none]
    intro q hq
    rw [Re.accepts_iff]
    exact not_matches_before hw hq
  have hliteral : literalPat.accepts (c :: s) = true := Re.accepts_iff.mpr (matches_literal hw)
  rw [List.take_length, firstHit, rules, List.append_assoc, List.find?_append, hnone,
    List.cons_append, List.find?_cons, hliteral]
  rfl

theorem isName_noBlank {w : List Char} (h : isName w = true) : NoBlank w := by
  obtain ⟨c, s, rfl, hw⟩ := nameWord_of_isName h
  refine noBlank_cons.mpr ?_
  have := hw.letter
  rintro (rfl | rfl) <;> revert this <;> decide

theorem isName_ne_nil {w : List Char} (h : isName w = true) : w ≠ [] := by
  rintro rfl
  cases h

/-! ## The tables -/

/-- A text as a number. -/
def textKey (s : List Char) : Nat := s.foldl (fun n c => n * 256 + c.toNat) 0

/-- The bit that stands for a text in a table of bits. -/
def textBit (s : List Char) : Nat := textKey s % 100003

/-- The synonyms, but for the one that is also the name of a character, as a table of bits. -/
def synonymBits : Nat :=
  (synonyms.eraseIdx 18).foldl (fun bits p => bits ||| 1 <<< textBit (bytes p.1)) 0

theorem testBit_synonymBits {p : String × String} (hp : p ∈ synonyms.eraseIdx 18) :
    synonymBits.testBit (textBit (bytes p.1)) = true := by
  have hfold (l : List (String × String)) (bits i : Nat)
      (h : bits.testBit i = true ∨ ∃ q ∈ l, textBit (bytes q.1) = i) :
      (l.foldl (fun bits q => bits ||| 1 <<< textBit (bytes q.1)) bits).testBit i = true := by
    induction l generalizing bits with
    | nil => simpa using h
    | cons q l ih =>
      rw [List.foldl_cons]
      apply ih
      rcases h with h | ⟨q', hq', h⟩
      · exact .inl (by simp [h])
      · rcases List.mem_cons.mp hq' with rfl | hq'
        · exact .inl (by simp [Nat.testBit_shiftLeft, h])
        · exact .inr ⟨q', hq', h⟩
  exact hfold _ 0 _ (.inr ⟨p, hp, rfl⟩)

/-- The names of the character sets, each looked at once: it is a name, and no synonym. -/
theorem charnames_checked {cs : Cs} (hcs : cs ∈ charsets) {p : Sym} (hp : p ∈ cs.charnames) :
    p.name = "" ∨
      isName (bytes p.name) = true ∧ synonymBits.testBit (textBit (bytes p.name)) = false := by
  have hall : (charsets.all fun cs => cs.charnames.all fun p =>
      p.name = "" || (isName (bytes p.name) &&
        !synonymBits.testBit (textBit (bytes p.name)))) = true := by
    decide +kernel
  have h := List.all_eq_true.mp (List.all_eq_true.mp hall cs hcs) p hp
  simpa using h

theorem isName_of_mem_charset {cs : Cs} (hcs : cs ∈ charsets) {p : Sym} (hp : p ∈ cs.charnames)
    (hne : p.name ≠ "") : isName (bytes p.name) = true :=
  ((charnames_checked hcs hp).resolve_left hne).1

/-- A text that has no bit is at most the one synonym that is left out. -/
theorem synonym_of_testBit {s : List Char} (hbit : synonymBits.testBit (textBit s) = false)
    {q : String × String} (hq : q ∈ synonyms) (heq : strEq s q.1 = true) :
    q = ("multiplication", "multiply") := by
  have hsplit : synonyms = synonyms.take 18 ++ ("multiplication", "multiply") ::
      synonyms.drop 19 := rfl
  have herase : synonyms.eraseIdx 18 = synonyms.take 18 ++ synonyms.drop 19 := rfl
  rw [hsplit, List.mem_append, List.mem_cons] at hq
  by_contra hnot
  have hmem : q ∈ synonyms.eraseIdx 18 := by
    rw [herase]
    rcases hq with hq | hq | hq
    · exact List.mem_append_left _ hq
    · exact absurd hq hnot
    · exact List.mem_append_right _ hq
  have htrue := testBit_synonymBits hmem
  rw [of_decide_eq_true heq, hbit] at htrue
  cases htrue

/-- Only one name of a character is a synonym. -/
theorem synonym_of_mem_charset {cs : Cs} (hcs : cs ∈ charsets) {p : Sym} (hp : p ∈ cs.charnames)
    (hne : p.name ≠ "") {q : String × String} (hq : q ∈ synonyms)
    (heq : strEq (bytes p.name) q.1 = true) : q = ("multiplication", "multiply") :=
  synonym_of_testBit ((charnames_checked hcs hp).resolve_left hne).2 hq heq

theorem isName_of_mem_latin {n : String} (hn : n ∈ iso646Syms) (hne : n ≠ "") :
    isName (bytes n) = true := by
  have hall : (iso646Syms.all fun n => n = "" || isName (bytes n)) = true := by decide +kernel
  simpa [hne] using List.all_eq_true.mp hall n hn

theorem isName_of_mem_fn {n : String} (hn : n ∈ fnSyms) : isName (bytes n) = true := by
  have hall : (fnSyms.all fun n => isName (bytes n)) = true := by decide +kernel
  exact List.all_eq_true.mp hall n hn

end Kbd.Keymap
