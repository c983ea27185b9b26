import Mathlib.Order.Preorder.Finite
import Mathlib.Logic.Relation

/-!
# Following references

A search that goes from one place to the next along a relation comes to an end unless it gets into a
cycle, when there are only finitely many places to go to.
-/

namespace Kbd.Lib.Chase

open Relation

variable {α : Type} {R : α → α → Prop}

/-- A cycle is reached. -/
def Cyclic (R : α → α → Prop) (x : α) : Prop := ∃ y, ReflTransGen R x y ∧ TransGen R y y

theorem Cyclic.step {x : α} (h : Cyclic R x) : ∃ y, R x y ∧ Cyclic R y := by
  obtain ⟨y, hxy, hyy⟩ := h
  rcases ReflTransGen.cases_head hxy with rfl | ⟨z, hxz, hzy⟩
  · obtain ⟨z, hxz, hzx⟩ := TransGen.head'_iff.mp hyy
    exact ⟨z, hxz, x, hzx, hyy⟩
  · exact ⟨z, hxz, y, hzy, hyy⟩

/-- A set of places each of which leads to another of them has a cycle that is reached from each. -/
theorem cyclic_of_step (hfin : {y | ∃ x, R x y}.Finite) {P : α → Prop}
    (hstep : ∀ x, P x → ∃ y, R x y ∧ P y) {x : α} (hx : P x) : Cyclic R x := by
  have : Nonempty α := ⟨x⟩
  choose! f hR hP using hstep
  have hiter : ∀ n, P (f^[n] x) := by
    intro n
    induction n with
    | zero => exact hx
    | succ n ih =>
      rw [Function.iterate_succ_apply']
      exact hP _ ih
  have hnext : ∀ n, R (f^[n] x) (f^[n + 1] x) := by
    intro n
    rw [Function.iterate_succ_apply']
    exact hR _ (hiter n)
  have hreach : ∀ m n, ReflTransGen R (f^[m] x) (f^[m + n] x) := by
    intro m n
    induction n with
    | zero => exact ReflTransGen.refl
    | succ n ih => exact ih.tail (hnext (m + n))
  -- two of the places after the first are equal
  have hmem : ∀ n, f^[n + 1] x ∈ {y | ∃ x, R x y} := fun n => ⟨_, hnext n⟩
  obtain ⟨m, n, hmn, heq⟩ := Set.Finite.exists_lt_map_eq_of_forall_mem hmem hfin
  refine ⟨f^[m + 1] x, ?_, ?_⟩
  · simpa using hreach 0 (m + 1)
  · have hcycle : TransGen R (f^[m + 1] x) (f^[n + 1] x) := by
      refine TransGen.head' (hnext (m + 1)) ?_
      have := hreach (m + 2) (n - m - 1)
      rwa [show m + 2 + (n - m - 1) = n + 1 by omega] at this
    rwa [← heq] at hcycle

end Kbd.Lib.Chase
