import Mathlib.Data.List.Basic
import Mathlib.Tactic.Common

/-!
# Stacks in an array of slots

A stack of bounded depth can be kept in an array of optional values without a counter: the elements
fill the array from the start, and the first empty slot is the depth. `Slots.ofList n xs` is the
array of `n` slots that holds the stack `xs`, whose last element is the top.
-/

namespace Kbd.Lib

namespace Slots

universe u

variable {α : Type u}

def ofList (n : Nat) (xs : List α) : List (Option α) :=
  xs.map some ++ List.replicate (n - xs.length) none

/-- The number of slots before the first empty one. -/
def level (slots : List (Option α)) : Nat := (slots.takeWhile Option.isSome).length

@[simp] theorem level_ofList (n : Nat) (xs : List α) : level (ofList n xs) = xs.length := by
  have hsome : ∀ o ∈ xs.map some, Option.isSome o = true := by
    intro o ho
    obtain ⟨x, -, rfl⟩ := List.mem_map.mp ho
    rfl
  unfold level ofList
  rw [List.takeWhile_append_of_pos hsome]
  cases n - xs.length <;> simp [List.replicate_succ]

/-- Filling the first empty slot. -/
theorem set_push {n : Nat} {xs : List α} (h : xs.length < n) (a : α) :
    (ofList n xs).set xs.length (some a) = ofList n (xs ++ [a]) := by
  obtain ⟨k, hk⟩ : ∃ k, n - xs.length = k + 1 := ⟨n - xs.length - 1, by omega⟩
  have hk' : n - (xs ++ [a]).length = k := by
    rw [List.length_append, List.length_singleton]
    omega
  unfold ofList
  rw [hk, hk', List.set_append_right _ _ (by simp)]
  simp [List.replicate_succ]

/-- Emptying the last slot that is filled. -/
theorem set_pop {n : Nat} {xs : List α} (h : xs.length < n) (a : α) :
    (ofList n (xs ++ [a])).set xs.length none = ofList n xs := by
  obtain ⟨k, hk⟩ : ∃ k, n - xs.length = k + 1 := ⟨n - xs.length - 1, by omega⟩
  have hk' : n - (xs ++ [a]).length = k := by
    rw [List.length_append, List.length_singleton]
    omega
  unfold ofList
  rw [hk, hk', List.set_append_left _ _ (by simp)]
  simp [List.replicate_succ]

theorem getElem?_last (n : Nat) (xs : List α) (a : α) :
    (ofList n (xs ++ [a]))[xs.length]? = some (some a) := by
  unfold ofList
  rw [List.getElem?_append_left (by simp)]
  simp

/-- All slots are empty only if the stack is. -/
theorem forall_eq_none {n : Nat} {xs : List α} :
    (∀ s ∈ ofList n xs, s = none) ↔ xs = [] := by
  constructor
  · intro h
    cases xs with
    | nil => rfl
    | cons x xs => exact absurd (h (some x) (by simp [ofList])) (by simp)
  · rintro rfl s hs
    exact List.eq_of_mem_replicate hs

end Slots

end Kbd.Lib
