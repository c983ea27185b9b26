import Mathlib.Data.List.Basic
import Mathlib.Tactic.Common

/-!
# Loops that search

A loop that looks for the first member of a list with a result, and that is left as soon as there is
one. In `Except` the state in which it is left is the error.
-/

namespace Kbd.Lib.Search

variable {α β ε σ : Type}

/-- A round, or a whole loop, that has the result `r`: with one it is left in a state that tells the
result, without one it goes on. -/
def Ends (found : β → ε → Prop) (going : σ → Prop) (r : Option β) (x : Except ε σ) : Prop :=
  match r with
  | some b => ∃ e, x = .error e ∧ found b e
  | none => ∃ s, x = .ok s ∧ going s

theorem Ends.foldlM {found : β → ε → Prop} {going : σ → Prop} {g : α → Option β}
    {step : σ → α → Except ε σ} {l : List α}
    (h : ∀ a ∈ l, ∀ s, going s → Ends found going (g a) (step s a)) {s : σ} (hs : going s) :
    Ends found going (l.findSome? g) (l.foldlM step s) := by
  induction l generalizing s with
  | nil => exact ⟨s, rfl, hs⟩
  | cons a l ih =>
    rw [List.forall_mem_cons] at h
    have ha := h.1 s hs
    rw [List.findSome?_cons, List.foldlM_cons]
    cases hg : g a with
    | some b =>
      rw [hg] at ha
      obtain ⟨e, he, hfound⟩ := ha
      exact ⟨e, by rw [he]; rfl, hfound⟩
    | none =>
      rw [hg] at ha
      obtain ⟨s', hs', hgoing⟩ := ha
      rw [hs']
      exact ih h.2 hgoing

/-- A loop that looks at one key only finds what stands at the key. -/
theorem findSome?_key [BEq α] [LawfulBEq α] {γ : Type} {l : List (α × β)}
    (hnodup : (l.map Prod.fst).Nodup) (k : α) (f : α × β → Option γ) :
    (l.findSome? fun e => if k == e.1 then f e else none) = (l.lookup k).bind fun b => f (k, b) := by
  induction l with
  | nil => rfl
  | cons e l ih =>
    obtain ⟨a, b⟩ := e
    rw [List.map_cons, List.nodup_cons] at hnodup
    rw [List.findSome?_cons, List.lookup_cons]
    by_cases hk : k = a
    · subst hk
      have hnone : (l.findSome? fun e => if k == e.1 then f e else none) = none := by
        rw [List.findSome?_eq_none_iff]
        intro e he
        rw [if_neg]
        intro heq
        have hmem : e.1 ∈ l.map Prod.fst := List.mem_map_of_mem he
        rw [← eq_of_beq heq] at hmem
        exact hnodup.1 hmem
      cases hf : f (k, b) <;> simp [hnone, hf]
    · have hk' : (k == a) = false := beq_eq_false_iff_ne.mpr hk
      simp [hk', ih hnodup.2]

theorem findSome?_congr {γ : Type} {l : List α} {f g : α → Option γ} (h : ∀ a ∈ l, f a = g a) :
    l.findSome? f = l.findSome? g := by
  induction l with
  | nil => rfl
  | cons a l ih =>
    rw [List.forall_mem_cons] at h
    rw [List.findSome?_cons, List.findSome?_cons, h.1, ih h.2]

theorem findSome?_filterMap {γ : Type} (l : List α) (f : α → Option β) (g : β → Option γ) :
    (l.filterMap f).findSome? g = l.findSome? fun a => (f a).bind g := by
  induction l with
  | nil => rfl
  | cons a l ih =>
    rw [List.filterMap_cons, List.findSome?_cons]
    cases hf : f a with
    | none => simpa using ih
    | some b =>
      rw [List.findSome?_cons, ih]
      rfl

theorem findSome?_ite (l : List α) (p : α → Bool) (f : α → β) :
    (l.findSome? fun a => if p a then some (f a) else none) = (l.find? p).map f := by
  induction l with
  | nil => rfl
  | cons a l ih =>
    rw [List.findSome?_cons, List.find?_cons, ih]
    cases p a <;> rfl

/-! ## The least index -/

/-- The lower of two indices, where `none` stands for no index. -/
def minIdx : Option Nat → Option Nat → Option Nat
  | none, j => j
  | some i, none => some i
  | some i, some j => some (min i j)

@[simp] theorem minIdx_none (i : Option Nat) : minIdx i none = i := by
  cases i <;> rfl

@[simp] theorem none_minIdx (i : Option Nat) : minIdx none i = i := rfl

theorem minIdx_assoc (i j k : Option Nat) : minIdx (minIdx i j) k = minIdx i (minIdx j k) := by
  cases i <;> cases j <;> cases k <;> simp [minIdx, Nat.min_assoc]

theorem findIdx?_or (p q : α → Bool) (l : List α) :
    (l.findIdx? fun a => p a || q a) = minIdx (l.findIdx? p) (l.findIdx? q) := by
  induction l with
  | nil => rfl
  | cons a l ih =>
    rw [List.findIdx?_cons, List.findIdx?_cons, List.findIdx?_cons, ih]
    cases hp : p a <;> cases hq : q a <;> cases l.findIdx? p <;> cases l.findIdx? q <;>
      simp [minIdx]

/-- A search in two levels: the first member with a result is the one at the first index. -/
theorem findSome?_eq_bind_findIdx? (l : List α) (f : α → Option β) :
    l.findSome? f = (l.findIdx? fun a => (f a).isSome).bind fun i => l[i]?.bind f := by
  induction l with
  | nil => rfl
  | cons a l ih =>
    rw [List.findSome?_cons, List.findIdx?_cons]
    cases hf : f a with
    | some b => simp [hf]
    | none =>
      rw [if_neg (by simp), Option.bind_map]
      exact ih

/-- A loop that goes down finds the greatest number. -/
theorem le_of_find?_reverse_range {p : Nat → Bool} {n k i : Nat}
    (h : (List.range n).reverse.find? p = some k) (hi : i < n) (hp : p i = true) : i ≤ k := by
  induction n with
  | zero => cases hi
  | succ n ih =>
    rw [List.range_succ, List.reverse_append, List.reverse_singleton, List.singleton_append,
      List.find?_cons] at h
    by_cases hn : p n = true
    · rw [hn] at h
      obtain rfl := Option.some.inj h
      omega
    · rw [Bool.eq_false_iff.mpr hn] at h
      have hne : i ≠ n := by
        rintro rfl
        exact hn hp
      exact ih h (by omega)

end Kbd.Lib.Search
