import Kbd.Keymap.Array

/-!
# The count of an array

`lk_array_set` and `lk_array_unset` keep `count` equal to the number of elements in use.
`lk_array_append` takes `count` for the next free index, and keeps it right only where that element
is free.
-/

namespace Kbd.Keymap

namespace LkArray

variable {α : Type} [Inhabited α] [DecidableEq α]

/-- The number of elements in use. -/
def live (a : LkArray α) : Nat := a.data.countP fun e => e ≠ default

/-- The count is that of the elements in use. -/
def Counted (a : LkArray α) : Prop := a.count = a.live

theorem counted_init : Counted (init : LkArray α) := rfl

/-! ## Reading after the other writes -/

omit [DecidableEq α] in
theorem lt_length_resize (a : LkArray α) (i : Nat) : i < (a.resize i).data.length := by
  have := total_resize a i
  simp only [total] at this
  omega

omit [DecidableEq α] in
@[simp] theorem get_append (a : LkArray α) (e : α) (j : Nat) :
    (a.append e).get j = if j = a.count then e else a.get j := by
  have h : (a.append e).get j = if j = a.count then e else (a.resize a.count).get j :=
    getD_set (lt_length_resize a a.count) j e
  rw [h, get_resize]

theorem get_of_unset {a b : LkArray α} {i : Nat} (h : a.unset i = some b) (j : Nat) :
    b.get j = if j = i then default else a.get j := by
  unfold unset at h
  split at h
  · rename_i hi
    split at h
    · cases h
      exact getD_set hi j default
    · rename_i hset
      cases h
      split
      · rename_i hj
        simpa [isSet, hj] using hset
      · rfl
  · cases h

/-! ## The elements in use -/

theorem live_resize (a : LkArray α) (i : Nat) : (a.resize i).live = a.live := by
  simp [live, resize, List.countP_append, List.countP_replicate]

/-- The element `e` counts as one if it is in use. -/
def one (e : α) : Nat := if e ≠ default then 1 else 0

@[simp] theorem one_default : one (default : α) = 0 := if_neg fun h => h rfl

theorem one_of_ne {e : α} (h : e ≠ default) : one e = 1 := if_pos h

theorem live_data_set {l : List α} {i : Nat} (hi : i < l.length) (e : α) :
    (l.set i e).countP (fun e => e ≠ default) + one (l.getD i default) =
      l.countP (fun e => e ≠ default) + one e := by
  have hget : l.getD i default = l[i] := List.getD_eq_getElem _ _ hi
  have hle : one l[i] ≤ l.countP fun e => e ≠ default := by
    unfold one
    split
    · rename_i hne
      exact List.countP_pos_iff.mpr ⟨l[i], List.getElem_mem hi, by simp [hne]⟩
    · exact Nat.zero_le _
  rw [List.countP_set hi, hget]
  simp only [one, decide_eq_true_eq] at hle ⊢
  omega

/-- What writing an element does to their number. -/
theorem live_set (a : LkArray α) (i : Nat) (e : α) :
    (a.set i e).live + one (a.get i) = a.live + one e := by
  have h := live_data_set (lt_length_resize a i) e
  have hget : (a.resize i).data.getD i default = a.get i := get_resize a i i
  rw [hget] at h
  have hres : (a.resize i).data.countP (fun e => e ≠ default) = a.live := live_resize a i
  rw [hres] at h
  exact h

theorem live_append (a : LkArray α) (e : α) :
    (a.append e).live + one (a.get a.count) = a.live + one e :=
  live_set a a.count e

/-! ## The count -/

theorem counted_set {a : LkArray α} (h : a.Counted) (i : Nat) (e : α) : (a.set i e).Counted := by
  have hlive := live_set a i e
  have hcount : (a.set i e).count =
      if !a.isSet i && e ≠ default then a.count + 1
      else if a.isSet i && e = default then a.count - 1 else a.count := by
    have hset : (a.resize i).isSet i = a.isSet i := by
      unfold isSet
      rw [get_resize]
    simp only [set, hset]
    rfl
  unfold Counted at h ⊢
  rw [hcount]
  by_cases hi : a.get i = default
  · rw [hi, one_default] at hlive
    by_cases he : e = default
    · rw [he, one_default] at hlive
      simp only [isSet, hi, he, ne_eq, not_true_eq_false, decide_false, Bool.not_false,
        Bool.and_false, Bool.false_eq_true, decide_true, Bool.and_true, ↓reduceIte, h]
      exact hlive.symm
    · rw [one_of_ne he] at hlive
      simp only [isSet, hi, he, ne_eq, not_true_eq_false, not_false_eq_true, decide_false,
        decide_true, Bool.not_false, Bool.and_true, ↓reduceIte, h]
      exact hlive.symm
  · rw [one_of_ne hi] at hlive
    by_cases he : e = default
    · rw [he, one_default] at hlive
      simp only [isSet, hi, he, ne_eq, not_false_eq_true, decide_true, Bool.not_true,
        Bool.false_and, Bool.false_eq_true, Bool.and_true, ↓reduceIte, h]
      omega
    · rw [one_of_ne he] at hlive
      simp only [isSet, hi, he, ne_eq, not_false_eq_true, decide_true, decide_false, Bool.not_true,
        Bool.false_and, Bool.and_false, Bool.false_eq_true, ↓reduceIte, h]
      omega

theorem counted_unset {a b : LkArray α} {i : Nat} (h : a.Counted) (hb : a.unset i = some b) :
    b.Counted := by
  unfold unset at hb
  split at hb
  · rename_i hi
    split at hb
    · rename_i hset
      cases hb
      have hne : a.get i ≠ default := by simpa [isSet] using hset
      have hlive := live_data_set hi default
      have hget : a.data.getD i default = a.get i := rfl
      rw [hget, one_of_ne hne, one_default] at hlive
      unfold Counted live at h ⊢
      rw [h]
      exact Nat.sub_eq_of_eq_add hlive.symm
    · cases hb
      exact h
  · cases hb

/-- Appending at a free index keeps the count right. -/
theorem counted_append {a : LkArray α} (h : a.Counted) (hfree : a.get a.count = default) {e : α}
    (he : e ≠ default) : (a.append e).Counted := by
  have hlive := live_append a e
  rw [hfree, one_default, one_of_ne he] at hlive
  unfold Counted at h ⊢
  have hcount : (a.append e).count = a.count + 1 := rfl
  omega

end LkArray

end Kbd.Keymap
