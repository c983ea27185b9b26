import Mathlib.Data.List.GetD
import Mathlib.Tactic.Common

/-!
# Growing arrays (`array.c`)

`struct lk_array` holds `total` allocated elements of one size, all zero when fresh, and counts in
`count` the elements that are in use. Here the elements are typed: the all-zero bytes are the
`default` of the element type (a null pointer is `none`), `total` is the length of the list, and
memory does not run out.
-/

namespace Kbd.Keymap

/-- `struct lk_array`. -/
structure LkArray (α : Type) where
  data : List α
  count : Nat
  deriving DecidableEq, Repr

namespace LkArray

variable {α : Type} [Inhabited α]

/-- `lk_array_init` with size 0. -/
def init : LkArray α := ⟨[], 0⟩

instance : Inhabited (LkArray α) := ⟨init⟩

/-- `a->total`. -/
def total (a : LkArray α) : Nat := a.data.length

/-- The element at `i`; what `lk_array_get` and `lk_array_get_ptr` reach, zero where there is no
element. -/
def get (a : LkArray α) (i : Nat) : α := a.data.getD i default

/-- `lk_array_exists`: some byte of the element is not zero. -/
def isSet [DecidableEq α] (a : LkArray α) (i : Nat) : Bool := a.get i ≠ default

/-- `array_resize`: grow to hold index `i`. -/
def resize (a : LkArray α) (i : Nat) : LkArray α :=
  { a with data := a.data ++ List.replicate (i + 1 - a.total) default }

/-- `lk_array_set`. -/
def set [DecidableEq α] (a : LkArray α) (i : Nat) (e : α) : LkArray α :=
  let b := a.resize i
  let count :=
    if !b.isSet i && e ≠ default then b.count + 1
    else if b.isSet i && e = default then b.count - 1
    else b.count
  ⟨b.data.set i e, count⟩

/-- `lk_array_unset`; `none` is `-EINVAL`. -/
def unset [DecidableEq α] (a : LkArray α) (i : Nat) : Option (LkArray α) :=
  if i < a.total then
    if a.isSet i then some ⟨a.data.set i default, a.count - 1⟩ else some a
  else none

/-- `lk_array_append`: the new element goes to index `count`. -/
def append (a : LkArray α) (e : α) : LkArray α :=
  ⟨(a.resize a.count).data.set a.count e, a.count + 1⟩

/-! ## Reading after writing -/

@[simp] theorem get_init (i : Nat) : (init : LkArray α).get i = default := by
  simp [init, get]

omit [Inhabited α] in
@[simp] theorem total_init : (init : LkArray α).total = 0 := rfl

theorem get_of_total_le {a : LkArray α} {i : Nat} (h : a.total ≤ i) : a.get i = default :=
  List.getD_eq_default _ _ h

theorem lt_total_of_get_ne {a : LkArray α} {i : Nat} (h : a.get i ≠ default) : i < a.total := by
  by_contra hi
  exact h (get_of_total_le (Nat.le_of_not_lt hi))

theorem total_resize (a : LkArray α) (i : Nat) : (a.resize i).total = max a.total (i + 1) := by
  simp only [resize, total, List.length_append, List.length_replicate]
  omega

@[simp] theorem get_resize (a : LkArray α) (i j : Nat) : (a.resize i).get j = a.get j := by
  unfold get resize
  by_cases hj : j < a.data.length
  · rw [List.getD_append _ _ _ _ hj]
  · rw [List.getD_append_right _ _ _ _ (Nat.le_of_not_lt hj),
      List.getD_eq_default _ _ (Nat.le_of_not_lt hj), List.getD_eq_getElem?_getD,
      List.getElem?_getD_replicate_default_eq]

theorem getD_set {l : List α} {i : Nat} (hi : i < l.length) (j : Nat) (e : α) :
    (l.set i e).getD j default = if j = i then e else l.getD j default := by
  by_cases hj : j = i
  · subst hj
    simp [List.getD_eq_getElem?_getD, hi]
  · simp [List.getD_eq_getElem?_getD, List.getElem?_set_ne (Ne.symm hj), hj]

@[simp] theorem get_set [DecidableEq α] (a : LkArray α) (i j : Nat) (e : α) :
    (a.set i e).get j = if j = i then e else a.get j := by
  have hi : i < (a.resize i).data.length := by
    have := total_resize a i
    simp only [total] at this
    omega
  have h : (a.set i e).get j = if j = i then e else (a.resize i).get j := getD_set hi j e
  rw [h, get_resize]

@[simp] theorem total_set [DecidableEq α] (a : LkArray α) (i : Nat) (e : α) :
    (a.set i e).total = max a.total (i + 1) := by
  have h := total_resize a i
  simp only [total] at h
  simp only [set, total, List.length_set]
  omega

theorem unset_of_isSet [DecidableEq α] {a : LkArray α} {i : Nat} (h : a.isSet i = true) :
    a.unset i = some ⟨a.data.set i default, a.count - 1⟩ := by
  have hi : i < a.total := lt_total_of_get_ne (by simpa [isSet] using h)
  simp [unset, hi, h]

end LkArray

end Kbd.Keymap
