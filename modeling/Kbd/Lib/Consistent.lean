import Mathlib.Algebra.Group.Nat.Defs

/-!
# Association lists with one value for each key

Whether a list of keys and values is a function is decided on parts of it: entries with the same key are
at the same place, and entries at different places are never compared (`consistent_of_consistentBy`).
-/

namespace Kbd.Lib

/-- Entries with the same key have the same value. -/
def Consistent {κ β : Type} (l : List (κ × β)) : Prop := ∀ p ∈ l, ∀ q ∈ l, p.1 = q.1 → p.2 = q.2

/-- `Consistent`, decided in the parts of the list that the low `d` bits of the places make. -/
def consistentBy (place : Nat → Nat) : Nat → List (Nat × Nat) → Bool
  | 0, l => l.all fun p => l.all fun q => !(p.1 == q.1) || p.2 == q.2
  | d + 1, l =>
    consistentBy place d (l.filter fun p => place p.1 / 2 ^ d % 2 == 0) &&
      consistentBy place d (l.filter fun p => place p.1 / 2 ^ d % 2 == 1)

theorem consistent_of_consistentBy {place : Nat → Nat} {d : Nat} {l : List (Nat × Nat)}
    (h : consistentBy place d l = true) : Consistent l := by
  induction d generalizing l with
  | zero =>
    intro p hp q hq heq
    have hpq := List.all_eq_true.mp (List.all_eq_true.mp h p hp) q hq
    simpa [heq] using hpq
  | succ d ih =>
    obtain ⟨hzero, hone⟩ := Bool.and_eq_true_iff.mp h
    intro p hp q hq heq
    have hmem (b : Nat) (hb : place p.1 / 2 ^ d % 2 = b) :
        p ∈ l.filter (fun p => place p.1 / 2 ^ d % 2 == b) ∧
          q ∈ l.filter (fun p => place p.1 / 2 ^ d % 2 == b) :=
      ⟨List.mem_filter.mpr ⟨hp, beq_iff_eq.mpr hb⟩,
        List.mem_filter.mpr ⟨hq, beq_iff_eq.mpr (heq ▸ hb)⟩⟩
    rcases Nat.mod_two_eq_zero_or_one (place p.1 / 2 ^ d) with hb | hb
    · exact ih hzero p (hmem 0 hb).1 q (hmem 0 hb).2 heq
    · exact ih hone p (hmem 1 hb).1 q (hmem 1 hb).2 heq

end Kbd.Lib
