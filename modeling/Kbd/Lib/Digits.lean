import Mathlib.Algebra.Group.Int.Defs
import Mathlib.Algebra.Group.Nat.Defs
import Mathlib.Tactic.Common

/-!
# Numbers in positional notation

`digits b k n` are the last `k` digits of `n` in base `b`, the most significant first, and `value`
reads digits one after the other. The notation may be cut anywhere: what is left of `n` is read
first.
-/

namespace Kbd.Lib.Digits

variable {b : Nat}

/-- The last `k` digits of `n`, the most significant first. -/
def digits (b : Nat) : Nat → Nat → List Nat
  | 0, _ => []
  | k + 1, n => digits b k (n / b) ++ [n % b]

/-- Reads digits after those that made `acc`. -/
def value (b acc : Nat) (ds : List Nat) : Nat := ds.foldl (fun a d => a * b + d) acc

@[simp] theorem value_nil (acc : Nat) : value b acc [] = acc := rfl

@[simp] theorem value_cons (acc d : Nat) (ds : List Nat) :
    value b acc (d :: ds) = value b (acc * b + d) ds := rfl

theorem value_append (acc : Nat) (ds es : List Nat) :
    value b acc (ds ++ es) = value b (value b acc ds) es :=
  List.foldl_append

theorem le_value (hb : 0 < b) (acc : Nat) (ds : List Nat) : acc ≤ value b acc ds := by
  induction ds generalizing acc with
  | nil => exact Nat.le_refl acc
  | cons d ds ih =>
    calc
      acc ≤ acc * b := Nat.le_mul_of_pos_right acc hb
      _ ≤ acc * b + d := Nat.le_add_right _ d
      _ ≤ value b acc (d :: ds) := ih _

@[simp] theorem length_digits (k n : Nat) : (digits b k n).length = k := by
  induction k generalizing n with
  | zero => rfl
  | succ k ih => simp [digits, ih]

theorem lt_of_mem_digits (hb : 0 < b) {k n d : Nat} (h : d ∈ digits b k n) : d < b := by
  induction k generalizing n with
  | zero => simp [digits] at h
  | succ k ih =>
    rcases List.mem_append.mp h with h | h
    · exact ih h
    · rw [List.mem_singleton.mp h]
      exact Nat.mod_lt n hb

/-- What the digits leave out, followed by the digits, is the number. -/
theorem value_digits (k n : Nat) : value b (n / b ^ k) (digits b k n) = n := by
  induction k generalizing n with
  | zero => simp [digits]
  | succ k ih =>
    have hdiv : n / b ^ (k + 1) = n / b / b ^ k := by
      rw [Nat.div_div_eq_div_mul, Nat.pow_succ, Nat.mul_comm]
    rw [hdiv, digits, value_append, ih]
    exact Nat.div_add_mod' n b

end Kbd.Lib.Digits
