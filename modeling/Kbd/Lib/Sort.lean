import Mathlib.Data.List.Basic
import Mathlib.Data.List.Sort
import Mathlib.Tactic.Common

/-!
# Sorting with a comparison

A comparison in the manner of C: the sign of the result tells how two members stand. `qsort` is
only known to give a permutation that is in order, for a comparison that is consistent.
-/

namespace Kbd.Lib

variable {α β : Type}

/-- What `qsort` asks of a comparison: an order in which different members may be equal. -/
structure IsComparison (cmp : α → α → Int) : Prop where
  swap : ∀ a b, cmp a b < 0 ↔ 0 < cmp b a
  trans : ∀ a b c, cmp a b ≤ 0 → cmp b c ≤ 0 → cmp a c ≤ 0

/-- The first comparison decides, unless it finds the two equal. -/
def thenBy (cmp₁ cmp₂ : α → α → Int) (a b : α) : Int :=
  if cmp₁ a b ≠ 0 then cmp₁ a b else cmp₂ a b

theorem thenBy_nonpos {cmp₁ cmp₂ : α → α → Int} {a b : α} :
    thenBy cmp₁ cmp₂ a b ≤ 0 ↔ cmp₁ a b < 0 ∨ cmp₁ a b = 0 ∧ cmp₂ a b ≤ 0 := by
  unfold thenBy
  split <;> omega

namespace IsComparison

variable {cmp cmp₁ cmp₂ : α → α → Int}

theorem total (h : IsComparison cmp) (a b : α) : cmp a b ≤ 0 ∨ cmp b a ≤ 0 := by
  have := h.swap b a
  omega

theorem eq_zero_comm (h : IsComparison cmp) {a b : α} (hab : cmp a b = 0) : cmp b a = 0 := by
  have h₁ := h.swap a b
  have h₂ := h.swap b a
  omega

theorem eq_zero_self (h : IsComparison cmp) (a : α) : cmp a a = 0 := by
  have := h.swap a a
  omega

/-- In order both ways is equal. -/
theorem eq_zero (h : IsComparison cmp) {a b : α} (hab : cmp a b ≤ 0) (hba : cmp b a ≤ 0) :
    cmp a b = 0 := by
  have := h.swap a b
  omega

theorem lt_of_lt_of_le (h : IsComparison cmp) {a b c : α} (hab : cmp a b < 0) (hbc : cmp b c ≤ 0) :
    cmp a c < 0 := by
  by_contra hac
  have hca : cmp c a ≤ 0 := by
    have := h.swap a c
    omega
  have hba := h.trans b c a hbc hca
  have := (h.swap a b).mp hab
  omega

theorem lt_of_le_of_lt (h : IsComparison cmp) {a b c : α} (hab : cmp a b ≤ 0) (hbc : cmp b c < 0) :
    cmp a c < 0 := by
  by_contra hac
  have hca : cmp c a ≤ 0 := by
    have := h.swap a c
    omega
  have hcb := h.trans c a b hca hab
  have := (h.swap b c).mp hbc
  omega

theorem eq_zero_trans (h : IsComparison cmp) {a b c : α} (hab : cmp a b = 0) (hbc : cmp b c = 0) :
    cmp a c = 0 :=
  h.eq_zero (h.trans a b c hab.le hbc.le)
    (h.trans c b a (h.eq_zero_comm hbc).le (h.eq_zero_comm hab).le)

theorem on (h : IsComparison cmp) (f : β → α) : IsComparison fun a b => cmp (f a) (f b) :=
  ⟨fun a b => h.swap (f a) (f b), fun a b c => h.trans (f a) (f b) (f c)⟩

theorem flip (h : IsComparison cmp) : IsComparison fun a b => cmp b a :=
  ⟨fun a b => h.swap b a, fun a b c hab hbc => h.trans c b a hbc hab⟩

theorem thenBy (h₁ : IsComparison cmp₁) (h₂ : IsComparison cmp₂) :
    IsComparison (thenBy cmp₁ cmp₂) where
  swap a b := by
    have hab := h₁.swap a b
    have hba := h₁.swap b a
    have h := h₂.swap a b
    unfold Lib.thenBy
    split <;> split <;> omega
  trans a b c hab hbc := by
    rw [thenBy_nonpos] at *
    rcases hab with hab | ⟨hab, hab'⟩
    · refine .inl (h₁.lt_of_lt_of_le hab ?_)
      rcases hbc with hbc | ⟨hbc, -⟩
      · exact hbc.le
      · exact hbc.le
    · rcases hbc with hbc | ⟨hbc, hbc'⟩
      · exact .inl (h₁.lt_of_le_of_lt hab.le hbc)
      · exact .inr ⟨h₁.eq_zero_trans hab hbc, h₂.trans a b c hab' hbc'⟩

end IsComparison

/-- What is known of `qsort`. -/
structure IsQsort (qsort : (α → α → Int) → List α → List α) : Prop where
  perm : ∀ cmp l, (qsort cmp l).Perm l
  sorted : ∀ cmp, IsComparison cmp → ∀ l, (qsort cmp l).Pairwise fun a b => cmp a b ≤ 0

theorem IsQsort.length {qsort : (α → α → Int) → List α → List α} (h : IsQsort qsort)
    (cmp : α → α → Int) (l : List α) : (qsort cmp l).length = l.length :=
  (h.perm cmp l).length_eq

/-- Merge sort is one way to do it. -/
theorem isQsort_mergeSort :
    IsQsort fun (cmp : α → α → Int) l => l.mergeSort fun a b => decide (cmp a b ≤ 0) where
  perm cmp l := List.mergeSort_perm l _
  sorted cmp h l := by
    have hsorted : (l.mergeSort fun a b => decide (cmp a b ≤ 0)).Pairwise
        fun a b => decide (cmp a b ≤ 0) = true :=
      List.pairwise_mergeSort
        (fun a b c hab hbc => by
          rw [decide_eq_true_eq] at *
          exact h.trans a b c hab hbc)
        (fun a b => by
          rw [Bool.or_eq_true, decide_eq_true_eq, decide_eq_true_eq]
          exact h.total a b) l
    exact hsorted.imp fun hab => of_decide_eq_true hab

end Kbd.Lib
