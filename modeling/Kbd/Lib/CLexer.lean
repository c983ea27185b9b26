import Mathlib.Algebra.Group.Int.Defs
import Mathlib.Algebra.Group.Nat.Defs
import Mathlib.Data.List.Basic
import Mathlib.Tactic.Common

/-!
# Tokens of C

A lexer for what data is written with in C: words, which are identifiers and numbers, character
constants and punctuators. Comments and preprocessor lines are skipped. It is a machine that takes
one character at a time, so a text can be read in pieces (`lexFrom_append`).
-/

namespace Kbd.Lib.C

inductive Token where
  /-- an identifier, a keyword or a number -/
  | word (w : List Char)
  /-- a character constant, without the quotes -/
  | chr (body : List Char)
  | punct (c : Char)
  deriving DecidableEq, Repr

/-- Where in a token the lexer is. -/
inductive Place where
  | start
  | word (w : List Char)
  | chr (body : List Char)
  | escape (body : List Char)
  | slash
  | comment
  | star
  | directive
  deriving DecidableEq, Repr

def isBlank (c : Char) : Bool := c = ' ' || c = '\t' || c = '\n'

def isWordChar (c : Char) : Bool := c.isAlphanum || c = '_'

def punctuators : List Char := ['\x7b', '\x7d', '[', ']', '(', ')', '=', ',', ';', '*', '+']

/-- The first character of a token, or between tokens. -/
def first (c : Char) : Option (Place × List Token) :=
  if isBlank c then some (.start, [])
  else if isWordChar c then some (.word [c], [])
  else if c = '\x27' then some (.chr [], [])
  else if c = '/' then some (.slash, [])
  else if c = '#' then some (.directive, [])
  else if c ∈ punctuators then some (.start, [.punct c])
  else none

/-- Takes a character; the tokens that it ends come with the new place. -/
def step : Place → Char → Option (Place × List Token)
  | .start, c => first c
  | .word w, c =>
    if isWordChar c then some (.word (w ++ [c]), [])
    else (first c).map fun (place, tokens) => (place, .word w :: tokens)
  | .chr body, c =>
    if c = '\\' then some (.escape body, [])
    else if c = '\x27' then some (.start, [.chr body])
    else if c = '\n' then none
    else some (.chr (body ++ [c]), [])
  | .escape body, c => if c = '\n' then none else some (.chr (body ++ ['\\', c]), [])
  | .slash, c => if c = '*' then some (.comment, []) else none
  | .comment, c => some (if c = '*' then .star else .comment, [])
  | .star, c => some (if c = '/' then .start else if c = '*' then .star else .comment, [])
  | .directive, c => some (if c = '\n' then .start else .directive, [])

def lexFrom : Place → List Char → Option (Place × List Token)
  | place, [] => some (place, [])
  | place, c :: cs => do
    let (place, tokens) ← step place c
    let (place, more) ← lexFrom place cs
    return (place, tokens ++ more)

/-- The tokens of a text that ends between tokens. -/
def lex (s : List Char) : Option (List Token) :=
  match lexFrom .start s with
  | some (.start, tokens) => some tokens
  | _ => none

section

variable {place place' place'' : Place} {s s' : List Char} {tokens tokens' : List Token}

theorem lexFrom_append (h : lexFrom place s = some (place', tokens))
    (h' : lexFrom place' s' = some (place'', tokens')) :
    lexFrom place (s ++ s') = some (place'', tokens ++ tokens') := by
  induction s generalizing place tokens with
  | nil =>
    obtain ⟨rfl, rfl⟩ := Prod.mk.injEq .. ▸ Option.some.inj h
    exact h'
  | cons c s ih =>
    simp only [lexFrom, Option.bind_eq_bind, Option.bind_eq_some_iff, Option.pure_def,
      Option.some.injEq, Prod.mk.injEq] at h
    obtain ⟨⟨p, ts⟩, hstep, ⟨q, more⟩, hrest, rfl, rfl⟩ := h
    simp only [List.cons_append, lexFrom, hstep, Option.bind_eq_bind, Option.bind_some, ih hrest,
      Option.pure_def, List.append_assoc]

/-- A text without tokens. -/
theorem lexFrom_skip (h : lexFrom place s = some (place', []))
    (h' : lexFrom place' s' = some (place'', tokens')) :
    lexFrom place (s ++ s') = some (place'', tokens') :=
  lexFrom_append h h'

theorem lexFrom_flatMap {ι : Type} {l : List ι} {text : ι → List Char} {toks : ι → List Token}
    (h : ∀ a ∈ l, lexFrom place (text a) = some (place, toks a)) :
    lexFrom place (l.flatMap text) = some (place, l.flatMap toks) := by
  induction l with
  | nil => rfl
  | cons a l ih =>
    rw [List.forall_mem_cons] at h
    rw [List.flatMap_cons, List.flatMap_cons]
    exact lexFrom_append h.1 (ih h.2)

/-- A word goes on. -/
theorem lexFrom_word {w : List Char} (h : ∀ c ∈ s, isWordChar c = true) :
    lexFrom (.word w) s = some (.word (w ++ s), []) := by
  induction s generalizing w with
  | nil => rw [List.append_nil, lexFrom]
  | cons c s ih =>
    rw [List.forall_mem_cons] at h
    rw [lexFrom, step, if_pos h.1]
    simp [ih h.2]

theorem not_isBlank_of_isWordChar {c : Char} (h : isWordChar c = true) : isBlank c = false := by
  rw [isBlank, Bool.or_eq_false_iff, Bool.or_eq_false_iff, decide_eq_false_iff_not,
    decide_eq_false_iff_not, decide_eq_false_iff_not]
  refine ⟨⟨?_, ?_⟩, ?_⟩ <;> rintro rfl <;> revert h <;> decide

/-- A word starts. -/
theorem lexFrom_start_word (h : ∀ c ∈ s, isWordChar c = true) (hne : s ≠ []) :
    lexFrom .start s = some (.word s, []) := by
  cases s with
  | nil => exact absurd rfl hne
  | cons c s =>
    rw [List.forall_mem_cons] at h
    rw [lexFrom, step, first, not_isBlank_of_isWordChar h.1, if_neg Bool.false_ne_true, if_pos h.1]
    simp [lexFrom_word h.2]

/-- A character of a character constant that stands for itself. -/
def isPlainChar (c : Char) : Bool := c ≠ '\\' && c ≠ '\x27' && c ≠ '\n'

theorem lexFrom_chr {body : List Char} (h : ∀ c ∈ s, isPlainChar c = true) :
    lexFrom (.chr body) (s ++ ['\x27']) = some (.start, [.chr (body ++ s)]) := by
  induction s generalizing body with
  | nil => simp [lexFrom, step]
  | cons c s ih =>
    rw [List.forall_mem_cons] at h
    have hc := h.1
    simp only [isPlainChar, ne_eq, Bool.and_eq_true, decide_eq_true_eq] at hc
    rw [List.cons_append, lexFrom, step, if_neg hc.1.1, if_neg hc.1.2, if_neg hc.2]
    simp [ih h.2]

end

example : lex ['i', '=', '\x27', '\\', '\x27', '\x27', ';', '\n'] =
    some [.word ['i'], .punct '=', .chr ['\\', '\x27'], .punct ';'] := by decide

end Kbd.Lib.C
