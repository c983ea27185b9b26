import Mathlib.Data.List.Basic
import Mathlib.Tactic.Common

/-!
# Regular expressions and longest-match scanning

Regular expressions whose atoms are character classes (`Re.cls p`), with their language as an
inductive predicate (`Re.Matches`) and Brzozowski derivatives (`Re.deriv`, `matches_cons`). A
scanner is an ordered list of tagged expressions. `munch` runs all derivatives in step over the
input and returns the tag and the length of the longest match, the earliest rule winning a tie;
`munch_eq_some_iff` states exactly that.

Mathlib's `RegularExpression` has single characters as its only atoms, so a negated class over an
infinite alphabet is not one of its expressions.
-/

namespace Kbd.Lib

universe u v

/-- Regular expressions over `α` with character classes. -/
inductive Re (α : Type u) : Type u
  | empty : Re α
  | eps : Re α
  | cls (p : α → Bool) : Re α
  | alt (r s : Re α) : Re α
  | seq (r s : Re α) : Re α
  | star (r : Re α) : Re α

namespace Re

variable {α : Type u}

/-- The language of an expression. -/
inductive Matches : Re α → List α → Prop
  | eps : Matches .eps []
  | cls {p : α → Bool} {a : α} (h : p a = true) : Matches (.cls p) [a]
  | altL {r s : Re α} {u : List α} (h : Matches r u) : Matches (.alt r s) u
  | altR {r s : Re α} {u : List α} (h : Matches s u) : Matches (.alt r s) u
  | seq {r s : Re α} {u v : List α} (hr : Matches r u) (hs : Matches s v) :
      Matches (.seq r s) (u ++ v)
  | starNil {r : Re α} : Matches (.star r) []
  | starCons {r : Re α} {u v : List α} (hr : Matches r u) (hs : Matches (.star r) v) :
      Matches (.star r) (u ++ v)

/-! ## Derived forms -/

/-- The word `w` itself. -/
def lit [DecidableEq α] (w : List α) : Re α :=
  w.foldr (fun a r => .seq (.cls fun b => b = a) r) .eps

/-- One of the words of `ws`. -/
def words [DecidableEq α] (ws : List (List α)) : Re α :=
  ws.foldr (fun w r => .alt (lit w) r) .empty

/-- One or more repetitions. -/
def plus (r : Re α) : Re α := .seq r (.star r)

/-- At least `m` and at most `m + k` repetitions. -/
def rep (r : Re α) : Nat → Nat → Re α
  | 0, 0 => .eps
  | 0, k + 1 => .alt .eps (.seq r (rep r 0 k))
  | m + 1, k => .seq r (rep r m k)

/-! ## Derivatives -/

/-- Whether the empty word is in the language. -/
def nullable : Re α → Bool
  | .empty => false
  | .eps => true
  | .cls _ => false
  | .alt r s => r.nullable || s.nullable
  | .seq r s => r.nullable && s.nullable
  | .star _ => true

/-- Syntactic emptiness; derivatives are kept in a form in which a dead expression is `.empty`. -/
def isEmpty : Re α → Bool
  | .empty => true
  | _ => false

/-- Alternative without dead branches. -/
def mkAlt : Re α → Re α → Re α
  | .empty, s => s
  | r, .empty => r
  | r, s => .alt r s

/-- Concatenation without dead or empty factors. -/
def mkSeq : Re α → Re α → Re α
  | .empty, _ => .empty
  | .eps, s => s
  | _, .empty => .empty
  | r, s => .seq r s

/-- The words that complete `a` to a word of the language. -/
def deriv (a : α) : Re α → Re α
  | .empty => .empty
  | .eps => .empty
  | .cls p => if p a then .eps else .empty
  | .alt r s => mkAlt (r.deriv a) (s.deriv a)
  | .seq r s =>
    if r.nullable then mkAlt (mkSeq (r.deriv a) s) (s.deriv a) else mkSeq (r.deriv a) s
  | .star r => mkSeq (r.deriv a) (.star r)

/-! ## The language, constructor by constructor -/

@[simp] theorem matches_empty {u : List α} : ¬ Matches .empty u := by
  intro h
  cases h

@[simp] theorem matches_eps {u : List α} : Matches .eps u ↔ u = [] := by
  constructor
  · intro h
    cases h
    rfl
  · rintro rfl
    exact .eps

@[simp] theorem matches_cls {p : α → Bool} {u : List α} :
    Matches (.cls p) u ↔ ∃ a, p a = true ∧ u = [a] := by
  constructor
  · intro h
    cases h with
    | cls h => exact ⟨_, h, rfl⟩
  · rintro ⟨a, h, rfl⟩
    exact .cls h

@[simp] theorem matches_alt {r s : Re α} {u : List α} :
    Matches (.alt r s) u ↔ Matches r u ∨ Matches s u := by
  constructor
  · intro h
    cases h with
    | altL h => exact .inl h
    | altR h => exact .inr h
  · rintro (h | h)
    · exact .altL h
    · exact .altR h

theorem matches_seq {r s : Re α} {u : List α} :
    Matches (.seq r s) u ↔ ∃ v w, u = v ++ w ∧ Matches r v ∧ Matches s w := by
  constructor
  · intro h
    cases h with
    | seq hr hs => exact ⟨_, _, rfl, hr, hs⟩
  · rintro ⟨v, w, rfl, hr, hs⟩
    exact .seq hr hs

/-- A nonempty word of `star r` starts with a nonempty word of `r`. -/
theorem star_cons_inv {r : Re α} {a : α} {u : List α} (h : Matches (.star r) (a :: u)) :
    ∃ v w, u = v ++ w ∧ Matches r (a :: v) ∧ Matches (.star r) w := by
  generalize hs : Re.star r = s at h
  generalize hx : a :: u = x at h
  induction h with
  | eps | cls _ | altL _ _ | altR _ _ | seq _ _ _ _ => cases hs
  | starNil => cases hx
  | @starCons r' v w hr hw _ ih =>
    cases hs
    cases v with
    | nil => exact ih rfl hx
    | cons b v =>
      simp only [List.cons_append, List.cons.injEq] at hx
      obtain ⟨rfl, rfl⟩ := hx
      exact ⟨v, w, rfl, hr, hw⟩

theorem matches_mkAlt {r s : Re α} {u : List α} :
    Matches (mkAlt r s) u ↔ Matches r u ∨ Matches s u := by
  unfold mkAlt
  split <;> simp

theorem matches_mkSeq {r s : Re α} {u : List α} :
    Matches (mkSeq r s) u ↔ Matches (.seq r s) u := by
  unfold mkSeq
  split <;> simp [matches_seq]

theorem nullable_iff {r : Re α} : r.nullable = true ↔ Matches r [] := by
  induction r with
  | empty | eps | cls p => simp [nullable]
  | alt r s ihr ihs => simp [nullable, ihr, ihs]
  | seq r s ihr ihs =>
    simp only [nullable, Bool.and_eq_true, ihr, ihs, matches_seq]
    constructor
    · rintro ⟨hr, hs⟩
      exact ⟨[], [], rfl, hr, hs⟩
    · rintro ⟨v, w, h, hr, hs⟩
      obtain ⟨rfl, rfl⟩ := List.append_eq_nil_iff.mp h.symm
      exact ⟨hr, hs⟩
  | star r _ => simp [nullable, Matches.starNil]

/-- The derivative by `a` is the language after `a`. -/
theorem matches_cons {r : Re α} {a : α} {u : List α} :
    Matches r (a :: u) ↔ Matches (r.deriv a) u := by
  induction r generalizing u with
  | empty | eps => simp [deriv]
  | cls p =>
    by_cases hp : p a = true
    · simp [deriv, hp]
    · simp [deriv, hp]
  | alt r s ihr ihs => simp [deriv, matches_mkAlt, ihr, ihs]
  | seq r s ihr ihs =>
    have key : Matches (.seq r s) (a :: u) ↔
        Matches (.seq (r.deriv a) s) u ∨ (r.nullable = true ∧ Matches (s.deriv a) u) := by
      simp only [matches_seq, nullable_iff]
      constructor
      · rintro ⟨v, w, h, hr, hs⟩
        cases v with
        | nil =>
          rw [List.nil_append] at h
          subst h
          exact .inr ⟨hr, ihs.mp hs⟩
        | cons b v =>
          simp only [List.cons_append, List.cons.injEq] at h
          obtain ⟨rfl, rfl⟩ := h
          exact .inl ⟨v, w, rfl, ihr.mp hr, hs⟩
      · rintro (⟨v, w, rfl, hr, hs⟩ | ⟨hn, hs⟩)
        · exact ⟨a :: v, w, rfl, ihr.mpr hr, hs⟩
        · exact ⟨[], a :: u, rfl, hn, ihs.mpr hs⟩
    rw [key]
    by_cases hn : r.nullable = true
    · simp [deriv, hn, matches_mkAlt, matches_mkSeq]
    · simp [deriv, hn, matches_mkSeq]
  | star r ih =>
    rw [deriv, matches_mkSeq, matches_seq]
    constructor
    · intro h
      obtain ⟨v, w, rfl, hr, hw⟩ := star_cons_inv h
      exact ⟨v, w, rfl, ih.mp hr, hw⟩
    · rintro ⟨v, w, rfl, hr, hw⟩
      exact .starCons (ih.mpr hr) hw

theorem not_matches_of_isEmpty {r : Re α} (h : r.isEmpty = true) (u : List α) :
    ¬ Matches r u := by
  cases r <;> simp_all [isEmpty]

/-- The decision procedure for the language. -/
def accepts (r : Re α) : List α → Bool
  | [] => r.nullable
  | a :: u => (r.deriv a).accepts u

theorem accepts_iff {r : Re α} {u : List α} : r.accepts u = true ↔ Matches r u := by
  induction u generalizing r with
  | nil => exact nullable_iff
  | cons a u ih => rw [accepts, ih, matches_cons]

theorem accepts_of_isEmpty {r : Re α} (h : r.isEmpty = true) (u : List α) :
    r.accepts u = false := by
  rw [← Bool.not_eq_true, accepts_iff]
  exact not_matches_of_isEmpty h u

theorem matches_lit [DecidableEq α] {w u : List α} : Matches (lit w) u ↔ u = w := by
  induction w generalizing u with
  | nil => exact matches_eps
  | cons a w ih =>
    have hcons : lit (a :: w) = .seq (.cls fun b => b = a) (lit w) := rfl
    rw [hcons, matches_seq]
    constructor
    · rintro ⟨v, v', rfl, hv, hv'⟩
      obtain ⟨b, hb, rfl⟩ := matches_cls.mp hv
      rw [ih.mp hv', of_decide_eq_true hb]
      rfl
    · rintro rfl
      exact ⟨[a], w, rfl, matches_cls.mpr ⟨a, decide_eq_true rfl, rfl⟩, ih.mpr rfl⟩

/-! ## What a word of the language can start with and contain -/

/-- Whether some atom of the expression accepts `a`. -/
def mayContain (a : α) : Re α → Bool
  | .empty => false
  | .eps => false
  | .cls p => p a
  | .alt r s => r.mayContain a || s.mayContain a
  | .seq r s => r.mayContain a || s.mayContain a
  | .star r => r.mayContain a

theorem mayContain_of_mem {r : Re α} {u : List α} {a : α} (h : Matches r u) (ha : a ∈ u) :
    r.mayContain a = true := by
  induction h with
  | eps | starNil => cases ha
  | cls h =>
    rw [List.mem_singleton] at ha
    subst ha
    exact h
  | altL _ ih => simp [mayContain, ih ha]
  | altR _ ih => simp [mayContain, ih ha]
  | seq _ _ ihr ihs =>
    rcases List.mem_append.mp ha with ha | ha
    · simp [mayContain, ihr ha]
    · simp [mayContain, ihs ha]
  | starCons _ _ ihr ihs =>
    rcases List.mem_append.mp ha with ha | ha
    · simpa [mayContain] using ihr ha
    · exact ihs ha

/-- Whether a word of the language can start with `a`. -/
def mayStart (a : α) (r : Re α) : Bool := !(r.deriv a).isEmpty

theorem mayStart_of_matches {r : Re α} {u : List α} {a : α} (h : Matches r (a :: u)) :
    r.mayStart a = true := by
  unfold mayStart
  rw [Bool.not_eq_true', ← Bool.not_eq_true]
  intro he
  exact not_matches_of_isEmpty he u (matches_cons.mp h)

end Re

/-! ## Longest match -/

section Munch

variable {α : Type u} {ι : Type v}

/-- The rules after reading `a`, dead ones dropped. -/
def advance (rs : List (ι × Re α)) (a : α) : List (ι × Re α) :=
  (rs.map fun q => (q.1, q.2.deriv a)).filter fun q => !q.2.isEmpty

/-- Scan with the rules `rs` after `n` characters, `best` being the longest match so far. -/
def scan : List (ι × Re α) → List α → Nat → Option (ι × Nat) → Option (ι × Nat)
  | [], _, _, best => best
  | rs@(_ :: _), s, n, best =>
    let best := ((rs.find? (·.2.nullable)).map fun q => (q.1, n)).or best
    match s with
    | [] => best
    | a :: s => scan (advance rs a) s (n + 1) best
termination_by structural _ s => s

/-- The tag and the length of the longest match at the start of `s`. -/
def munch (rs : List (ι × Re α)) (s : List α) : Option (ι × Nat) := scan rs s 0 none

/-- The first rule whose language holds `u`. -/
def firstHit (rs : List (ι × Re α)) (u : List α) : Option ι :=
  (rs.find? (·.2.accepts u)).map Prod.fst

/-- Rule `t` is the first that matches the first `n` characters of `s`, and no rule matches
more. -/
structure IsMunch (rs : List (ι × Re α)) (s : List α) (t : ι) (n : Nat) : Prop where
  le_length : n ≤ s.length
  hit : firstHit rs (s.take n) = some t
  longest : ∀ m, n < m → m ≤ s.length → firstHit rs (s.take m) = none

theorem firstHit_eq_none {rs : List (ι × Re α)} {u : List α} :
    firstHit rs u = none ↔ ∀ q ∈ rs, ¬ q.2.Matches u := by
  simp [firstHit, Re.accepts_iff]

theorem firstHit_advance (rs : List (ι × Re α)) (a : α) (u : List α) :
    firstHit (advance rs a) u = firstHit rs (a :: u) := by
  unfold firstHit advance
  rw [List.find?_filter, List.find?_map, Option.map_map]
  have hp : (fun q : ι × Re α => decide ((!q.2.isEmpty) = true ∧ q.2.accepts u = true)) ∘
      (fun q : ι × Re α => (q.1, q.2.deriv a)) = fun q => q.2.accepts (a :: u) := by
    funext q
    cases he : (q.2.deriv a).isEmpty with
    | true => simp [he, Re.accepts, Re.accepts_of_isEmpty he u]
    | false => simp [he, Re.accepts]
  rw [hp]
  rfl

theorem scan_eq (rs : List (ι × Re α)) (s : List α) (n : Nat) (best : Option (ι × Nat)) :
    scan rs s n best = ((munch rs s).map fun q => (q.1, q.2 + n)).or best := by
  unfold munch
  induction s generalizing rs n best with
  | nil => cases rs <;> cases best <;> simp [scan, Function.comp_def]
  | cons a s ih =>
    cases rs with
    | nil => simp [scan]
    | cons q rs =>
      simp only [scan]
      rw [ih _ (n + 1), ih _ (0 + 1)]
      cases scan (advance (q :: rs) a) s 0 none <;>
        simp [Function.comp_def, Nat.add_assoc, Nat.add_comm 1 n]

theorem munch_nil (rs : List (ι × Re α)) :
    munch rs [] = (firstHit rs []).map fun t => (t, 0) := by
  cases rs <;> simp [munch, scan, firstHit, Re.accepts, Function.comp_def]

theorem munch_cons (rs : List (ι × Re α)) (a : α) (s : List α) :
    munch rs (a :: s) = ((munch (advance rs a) s).map fun q => (q.1, q.2 + 1)).or
      ((firstHit rs []).map fun t => (t, 0)) := by
  cases rs with
  | nil => simp [munch, scan, advance, firstHit]
  | cons q rs =>
    unfold munch
    simp only [scan]
    rw [scan_eq]
    simp [munch, firstHit, Re.accepts, Function.comp_def]

theorem munch_eq_none_iff {rs : List (ι × Re α)} {s : List α} :
    munch rs s = none ↔ ∀ m ≤ s.length, firstHit rs (s.take m) = none := by
  induction s generalizing rs with
  | nil => simp [munch_nil]
  | cons a s ih =>
    rw [munch_cons, Option.or_eq_none_iff, Option.map_eq_none_iff, Option.map_eq_none_iff, ih]
    constructor
    · rintro ⟨h, h0⟩ m hm
      cases m with
      | zero => exact h0
      | succ m =>
        rw [List.take_succ_cons, ← firstHit_advance]
        exact h m (by simpa using hm)
    · intro h
      refine ⟨fun m hm => ?_, h 0 (Nat.zero_le _)⟩
      rw [firstHit_advance]
      exact h (m + 1) (by simpa using hm)

/-- `munch` finds the longest match and, among the rules with a match of that length, the first. -/
theorem munch_eq_some_iff {rs : List (ι × Re α)} {s : List α} {t : ι} {n : Nat} :
    munch rs s = some (t, n) ↔ IsMunch rs s t n := by
  induction s generalizing rs t n with
  | nil =>
    rw [munch_nil]
    constructor
    · intro h
      simp only [Option.map_eq_some_iff, Prod.mk.injEq] at h
      obtain ⟨t', ht, rfl, rfl⟩ := h
      exact ⟨Nat.le_refl _, ht, fun m h1 h2 => by simp at h2; omega⟩
    · rintro ⟨hn, ht, -⟩
      have hn0 : n = 0 := by simpa using hn
      subst hn0
      simpa using ht
  | cons a s ih =>
    rw [munch_cons]
    cases hm : munch (advance rs a) s with
    | some q =>
      obtain ⟨t', n'⟩ := q
      have hi := ih.mp hm
      change some (t', n' + 1) = some (t, n) ↔ _
      rw [Option.some.injEq, Prod.mk.injEq]
      constructor
      · rintro ⟨rfl, rfl⟩
        refine ⟨by simpa using hi.le_length, ?_, fun m h1 h2 => ?_⟩
        · rw [List.take_succ_cons, ← firstHit_advance]
          exact hi.hit
        · cases m with
          | zero => omega
          | succ m =>
            rw [List.take_succ_cons, ← firstHit_advance]
            exact hi.longest m (by omega) (by simpa using h2)
      · intro h
        have hlen := h.le_length
        cases n with
        | zero =>
          have := h.longest (n' + 1) (by omega) (by simpa using hi.le_length)
          rw [List.take_succ_cons, ← firstHit_advance, hi.hit] at this
          cases this
        | succ n =>
          have h' : IsMunch (advance rs a) s t n := by
            refine ⟨by simpa using hlen, ?_, fun m h1 h2 => ?_⟩
            · rw [firstHit_advance]
              exact h.hit
            · rw [firstHit_advance]
              exact h.longest (m + 1) (by omega) (by simpa using h2)
          rw [← ih, hm] at h'
          simpa using h'
    | none =>
      rw [munch_eq_none_iff] at hm
      simp only [Option.map_none, Option.none_or, Option.map_eq_some_iff, Prod.mk.injEq]
      constructor
      · rintro ⟨t', ht, rfl, rfl⟩
        refine ⟨Nat.zero_le _, ht, fun m h1 h2 => ?_⟩
        cases m with
        | zero => omega
        | succ m =>
          rw [List.take_succ_cons, ← firstHit_advance]
          exact hm m (by simpa using h2)
      · intro h
        cases n with
        | zero => exact ⟨t, h.hit, rfl, rfl⟩
        | succ n =>
          have := hm n (by simpa using h.le_length)
          rw [firstHit_advance] at this
          have hh := h.hit
          rw [List.take_succ_cons, this] at hh
          cases hh

theorem firstHit_head {t : ι} {r : Re α} {u : List α} (h : r.Matches u) (rs : List (ι × Re α)) :
    firstHit ((t, r) :: rs) u = some t := by
  simp only [firstHit, List.find?_cons, Re.accepts_iff.mpr h, Option.map_some]

theorem exists_rule_of_firstHit {rs : List (ι × Re α)} {u : List α} {t : ι}
    (h : firstHit rs u = some t) : ∃ r, (t, r) ∈ rs ∧ r.Matches u := by
  obtain ⟨q, hq, rfl⟩ := Option.map_eq_some_iff.mp h
  have hacc : q.2.accepts u = true := List.find?_some (p := fun q : ι × Re α => q.2.accepts u) hq
  exact ⟨q.2, List.mem_of_find?_eq_some hq, Re.accepts_iff.mp hacc⟩

/-- A rule for every single character makes every match nonempty. -/
theorem exists_munch {rs : List (ι × Re α)} {t₀ : ι} (h : (t₀, Re.cls fun _ => true) ∈ rs) (a : α)
    (s : List α) : ∃ t n, munch rs (a :: s) = some (t, n) ∧ 1 ≤ n := by
  have hone : firstHit rs ((a :: s).take 1) ≠ none := by
    rw [Ne, firstHit_eq_none]
    intro hno
    exact hno _ h (Re.matches_cls.mpr ⟨a, rfl, rfl⟩)
  cases hm : munch rs (a :: s) with
  | none => exact absurd (munch_eq_none_iff.mp hm 1 (by simp)) hone
  | some q =>
    obtain ⟨t, n⟩ := q
    refine ⟨t, n, rfl, ?_⟩
    by_contra hn
    exact hone ((munch_eq_some_iff.mp hm).longest 1 (by omega) (by simp))

/-- When all rules have died within `s`, what follows does not matter. -/
theorem munch_append_of_dead {rs : List (ι × Re α)} {s : List α} (h : s.foldl advance rs = [])
    (rest : List α) : munch rs (s ++ rest) = munch rs s := by
  induction s generalizing rs with
  | nil =>
    rw [List.foldl_nil] at h
    subst h
    cases rest <;> rfl
  | cons a s ih =>
    rw [List.cons_append, munch_cons, munch_cons, ih h]

/-- A rule that repeats a class takes all characters of the class, when the other rules cannot go
on. -/
theorem munch_star {t : ι} {p : α → Bool} {rs : List (ι × Re α)} (hrs : ∀ q ∈ rs, q.2 = .eps)
    {s rest : List α} (hs : ∀ a ∈ s, p a = true) (hrest : ∀ a ∈ rest.head?, p a = false) :
    munch ((t, .star (.cls p)) :: rs) (s ++ rest) = some (t, s.length) := by
  have hadv : ∀ a, p a = true →
      advance ((t, .star (.cls p)) :: rs) a = [(t, .star (.cls p))] := by
    intro a ha
    have hrs' : (rs.map fun q => (q.1, q.2.deriv a)).filter (fun q => !q.2.isEmpty) = [] := by
      rw [List.filter_eq_nil_iff]
      intro q hq
      obtain ⟨q', hq', rfl⟩ := List.mem_map.mp hq
      simp [hrs q' hq', Re.deriv, Re.isEmpty]
    simp only [advance, List.map_cons, Re.deriv, ha, ↓reduceIte, Re.mkSeq]
    rw [List.filter_cons_of_pos (by rfl), hrs']
  have hdead : ∀ a, p a = false → advance ((t, .star (.cls p)) :: rs) a = [] := by
    intro a ha
    simp only [advance, List.map_cons, Re.deriv, ha, Re.mkSeq]
    rw [List.filter_cons_of_neg (by simp [Re.isEmpty]), List.filter_eq_nil_iff]
    intro q hq
    obtain ⟨q', hq', rfl⟩ := List.mem_map.mp hq
    simp [hrs q' hq', Re.deriv, Re.isEmpty]
  have hnil : firstHit ((t, .star (.cls p)) :: rs) ([] : List α) = some t := by
    simp [firstHit, Re.accepts, Re.nullable]
  induction s generalizing rs with
  | nil =>
    rw [List.nil_append]
    cases rest with
    | nil =>
      rw [munch_nil, hnil]
      rfl
    | cons a rest =>
      rw [munch_cons, hdead a (hrest a rfl), hnil]
      simp [munch, scan]
  | cons a s ih =>
    rw [List.forall_mem_cons] at hs
    have hadv' : ∀ b, p b = true → advance [(t, Re.star (.cls p))] b = [(t, .star (.cls p))] := by
      intro b hb
      simp [advance, Re.deriv, hb, Re.mkSeq, Re.isEmpty]
    have hdead' : ∀ b, p b = false → advance [(t, Re.star (.cls p))] b = [] := by
      intro b hb
      simp [advance, Re.deriv, hb, Re.mkSeq, Re.isEmpty]
    rw [List.cons_append, munch_cons, hadv a hs.1,
      @ih [] (by simp) hs.2 hadv' hdead' (by simp [firstHit, Re.accepts, Re.nullable])]
    simp

theorem munch_of_none_left {rs : List (ι × Re α)} {a : α} {t : ι} (hadv : advance rs a = [])
    (hnil : firstHit rs [] = some t) (s : List α) : munch rs (a :: s) = some (t, 0) := by
  have hdead : munch ([] : List (ι × Re α)) s = none := by cases s <;> rfl
  rw [munch_cons, hadv, hnil, hdead]
  rfl

/-- After a character that ends all rules that take it, the match is that character. -/
theorem munch_single {rs : List (ι × Re α)} {a : α} {t : ι} {tl : List (ι × Re α)}
    (h : advance rs a = (t, .eps) :: tl) (htl : ∀ q ∈ tl, q.2 = .eps) (s : List α) :
    munch rs (a :: s) = some (t, 1) := by
  have hhit : firstHit ((t, Re.eps) :: tl) ([] : List α) = some t := by
    simp [firstHit, Re.accepts, Re.nullable]
  have hmunch : munch ((t, .eps) :: tl) s = some (t, 0) := by
    cases s with
    | nil => rw [munch_nil, hhit, Option.map_some]
    | cons b s =>
      refine munch_of_none_left ?_ hhit s
      rw [advance, List.filter_eq_nil_iff]
      intro q hq
      obtain ⟨q', hq', rfl⟩ := List.mem_map.mp hq
      have heps : q'.2 = .eps := by
        rcases List.mem_cons.mp hq' with rfl | hq'
        · rfl
        · exact htl q' hq'
      simp [heps, Re.deriv, Re.isEmpty]
  rw [munch_cons, h, hmunch]
  rfl

/-- After a character that begins a run of a class, the match is the whole run. -/
theorem munch_run {rs : List (ι × Re α)} {a : α} {t : ι} {p : α → Bool} {tl : List (ι × Re α)}
    (h : advance rs a = (t, .star (.cls p)) :: tl) (htl : ∀ q ∈ tl, q.2 = .eps) {s rest : List α}
    (hs : ∀ b ∈ s, p b = true) (hrest : ∀ b ∈ rest.head?, p b = false) :
    munch rs (a :: (s ++ rest)) = some (t, s.length + 1) := by
  rw [munch_cons, h, munch_star htl hs hrest]
  rfl

end Munch

end Kbd.Lib
