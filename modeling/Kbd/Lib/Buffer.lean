import Mathlib.Data.List.Basic
import Mathlib.Tactic.Common

/-!
# Buffers of fixed size

A buffer is the list of its cells. Reading and writing are checked: outside of the buffer they fail.
`storeAll` makes a list of writes one after the other; where no two writes of the list disagree, the
order does not matter, and the result is known cell by cell.
-/

namespace Kbd.Lib.Buffer

universe u

variable {α ι : Type u}

/-- Writes one cell. -/
def store (buf : List α) (i : Nat) (v : α) : Option (List α) :=
  if i < buf.length then some (buf.set i v) else none

/-- Reads `n` cells. -/
def slice (buf : List α) (start n : Nat) : Option (List α) :=
  if start + n ≤ buf.length then some ((buf.drop start).take n) else none

/-- Sets `n` cells in a row. -/
def fill (buf : List α) (start n : Nat) (f : Nat → α) : Option (List α) :=
  if start + n ≤ buf.length then
    some (buf.mapIdx fun j v => if start ≤ j ∧ j < start + n then f (j - start) else v)
  else none

/-- Makes writes in order. -/
def storeAll (buf : List α) (ws : List (Nat × α)) : Option (List α) :=
  ws.foldlM (fun buf w => store buf w.1 w.2) buf

/-- Copies cells to a place in the buffer. -/
def copyTo (buf : List α) (start : Nat) (src : List α) : Option (List α) :=
  storeAll buf (src.zipIdx.map fun (v, k) => (start + k, v))

@[simp] theorem storeAll_nil (buf : List α) : storeAll buf [] = some buf := rfl

theorem storeAll_cons (buf : List α) (w : Nat × α) (ws : List (Nat × α)) :
    storeAll buf (w :: ws) = (store buf w.1 w.2).bind fun buf => storeAll buf ws := by
  rw [storeAll, List.foldlM_cons]
  rfl

theorem storeAll_append (buf : List α) (ws ws' : List (Nat × α)) :
    storeAll buf (ws ++ ws') = (storeAll buf ws).bind fun buf => storeAll buf ws' := by
  rw [storeAll, List.foldlM_append]
  rfl

theorem store_eq_some {buf buf' : List α} {i : Nat} {v : α} :
    store buf i v = some buf' ↔ i < buf.length ∧ buf.set i v = buf' := by
  by_cases hi : i < buf.length <;> simp [store, hi]

/-- A list of writes succeeds when each of them is in the buffer. -/
theorem exists_storeAll {buf : List α} {ws : List (Nat × α)} (h : ∀ w ∈ ws, w.1 < buf.length) :
    ∃ buf', storeAll buf ws = some buf' := by
  induction ws generalizing buf with
  | nil => exact ⟨buf, rfl⟩
  | cons w ws ih =>
    rw [List.forall_mem_cons] at h
    obtain ⟨buf', hbuf'⟩ := @ih (buf.set w.1 w.2) fun v hv => by
      rw [List.length_set]
      exact h.2 v hv
    refine ⟨buf', ?_⟩
    rw [storeAll_cons, store_eq_some.mpr ⟨h.1, rfl⟩]
    exact hbuf'

theorem length_storeAll {buf buf' : List α} {ws : List (Nat × α)}
    (h : storeAll buf ws = some buf') : buf'.length = buf.length := by
  induction ws generalizing buf with
  | nil =>
    cases h
    rfl
  | cons w ws ih =>
    rw [storeAll_cons] at h
    obtain ⟨mid, hmid, hrest⟩ := Option.bind_eq_some_iff.mp h
    obtain ⟨-, rfl⟩ := store_eq_some.mp hmid
    rw [ih hrest, List.length_set]

/-- A cell that no write goes to keeps what it has. -/
theorem getElem?_of_forall_ne {buf buf' : List α} {ws : List (Nat × α)}
    (h : storeAll buf ws = some buf') {j : Nat} (hj : ∀ w ∈ ws, w.1 ≠ j) : buf'[j]? = buf[j]? := by
  induction ws generalizing buf with
  | nil =>
    cases h
    rfl
  | cons w ws ih =>
    rw [storeAll_cons] at h
    obtain ⟨mid, hmid, hrest⟩ := Option.bind_eq_some_iff.mp h
    obtain ⟨-, rfl⟩ := store_eq_some.mp hmid
    rw [List.forall_mem_cons] at hj
    rw [ih hrest hj.2, List.getElem?_set_ne hj.1]

/-- A cell that writes go to has the value of one of them. -/
theorem exists_of_mem {buf buf' : List α} {ws : List (Nat × α)} (h : storeAll buf ws = some buf')
    {j : Nat} (hj : ∃ w ∈ ws, w.1 = j) : ∃ w ∈ ws, w.1 = j ∧ buf'[j]? = some w.2 := by
  induction ws generalizing buf with
  | nil => simp at hj
  | cons w ws ih =>
    rw [storeAll_cons] at h
    obtain ⟨mid, hmid, hrest⟩ := Option.bind_eq_some_iff.mp h
    obtain ⟨hlt, rfl⟩ := store_eq_some.mp hmid
    by_cases hlater : ∃ v ∈ ws, v.1 = j
    · obtain ⟨v, hv, hvj, hval⟩ := ih hrest hlater
      exact ⟨v, List.mem_cons_of_mem w hv, hvj, hval⟩
    · -- this is the last write to the cell
      have hne : ∀ v ∈ ws, v.1 ≠ j := fun v hv hvj => hlater ⟨v, hv, hvj⟩
      have hwj : w.1 = j := by
        obtain ⟨v, hv, hvj⟩ := hj
        rcases List.mem_cons.mp hv with rfl | hv
        · exact hvj
        · exact absurd hvj (hne v hv)
      refine ⟨w, List.mem_cons_self, hwj, ?_⟩
      rw [getElem?_of_forall_ne hrest hne, ← hwj, List.getElem?_set_self hlt]

/-- A cell has the value that all writes to it agree on. -/
theorem getElem?_of_mem {buf buf' : List α} {ws : List (Nat × α)} (h : storeAll buf ws = some buf')
    {w : Nat × α} (hw : w ∈ ws) (hall : ∀ v ∈ ws, v.1 = w.1 → v.2 = w.2) :
    buf'[w.1]? = some w.2 := by
  obtain ⟨v, hv, hvw, hval⟩ := exists_of_mem h ⟨w, hw, rfl⟩
  rw [hval, hall v hv hvw]

/-- A loop whose rounds only write makes all of their writes. -/
theorem foldlM_eq_storeAll {step : List α → ι → Option (List α)} {ws : ι → List (Nat × α)}
    {l : List ι} (h : ∀ a ∈ l, ∀ buf, step buf a = storeAll buf (ws a)) (buf : List α) :
    l.foldlM step buf = storeAll buf (l.flatMap ws) := by
  induction l generalizing buf with
  | nil => rfl
  | cons a l ih =>
    rw [List.forall_mem_cons] at h
    rw [List.foldlM_cons, h.1, List.flatMap_cons, storeAll_append]
    cases storeAll buf (ws a) with
    | none => rfl
    | some buf' => exact ih h.2 buf'

theorem exists_fill {buf : List α} {start n : Nat} (h : start + n ≤ buf.length) (f : Nat → α) :
    ∃ buf', fill buf start n f = some buf' ∧ buf'.length = buf.length ∧
      ∀ j, buf'[j]? = if start ≤ j ∧ j < start + n then some (f (j - start)) else buf[j]? := by
  refine ⟨_, if_pos h, List.length_mapIdx, fun j => ?_⟩
  rw [List.getElem?_mapIdx]
  by_cases hj : j < buf.length
  · rw [List.getElem?_eq_getElem hj, Option.map_some]
    split
    · rfl
    · rfl
  · rw [List.getElem?_eq_none (Nat.le_of_not_lt hj), Option.map_none, if_neg (by omega)]

theorem slice_eq_some {buf l : List α} {start n : Nat} :
    slice buf start n = some l ↔ start + n ≤ buf.length ∧ (buf.drop start).take n = l := by
  by_cases hle : start + n ≤ buf.length <;> simp [slice, hle]

/-! ## Slots -/

/-- A cell belongs to one slot only. -/
theorem slot_inj {m g o g' o' : Nat} (ho : o < m) (ho' : o' < m)
    (h : g * m + o = g' * m + o') : g = g' ∧ o = o' := by
  have hg : g = g' := by
    rcases Nat.lt_trichotomy g g' with hlt | heq | hlt
    · have : (g + 1) * m ≤ g' * m := Nat.mul_le_mul_right m hlt
      rw [Nat.add_mul] at this
      omega
    · exact heq
    · have : (g' + 1) * m ≤ g * m := Nat.mul_le_mul_right m hlt
      rw [Nat.add_mul] at this
      omega
  subst hg
  exact ⟨rfl, by omega⟩

theorem slot_lt {n m g o : Nat} (hg : g < n) (ho : o < m) : g * m + o < n * m := by
  have : (g + 1) * m ≤ n * m := Nat.mul_le_mul_right m hg
  rw [Nat.add_mul] at this
  omega

/-- Writes that fill the first `l` cells of each of `n` slots of size `m`: the slots hold what was
written, and everything else stays as it was. -/
theorem storeAll_slots {n m l size : Nat} {z : α} {f : Nat → Nat → α} {ws : List (Nat × α)}
    (hl : l ≤ m) (hsize : n * m ≤ size)
    (hform : ∀ w ∈ ws, ∃ g o, g < n ∧ o < l ∧ w = (g * m + o, f g o))
    (hall : ∀ g o, g < n → o < l → (g * m + o, f g o) ∈ ws) :
    ∃ buf, storeAll (List.replicate size z) ws = some buf ∧ buf.length = size ∧
      (∀ g o, g < n → o < m → buf[g * m + o]? = some (if o < l then f g o else z)) ∧
      ∀ j, n * m ≤ j → j < size → buf[j]? = some z := by
  have hzero : ∀ j, j < size → (List.replicate size z)[j]? = some z := by
    intro j hj
    rw [List.getElem?_replicate, if_pos hj]
  obtain ⟨buf, hbuf⟩ := @exists_storeAll α (List.replicate size z) ws (by
    intro w hw
    obtain ⟨g, o, hg, ho, rfl⟩ := hform w hw
    rw [List.length_replicate]
    exact Nat.lt_of_lt_of_le (slot_lt hg (by omega)) hsize)
  refine ⟨buf, hbuf, by rw [length_storeAll hbuf, List.length_replicate], ?_, ?_⟩
  · intro g o hg ho
    have hlt := slot_lt hg ho
    split
    · rename_i hol
      refine getElem?_of_mem hbuf (hall g o hg hol) ?_
      intro v hv hpos
      obtain ⟨g', o', -, ho', rfl⟩ := hform v hv
      obtain ⟨rfl, rfl⟩ := slot_inj (by omega) ho hpos
      rfl
    · rename_i hol
      rw [getElem?_of_forall_ne hbuf, hzero _ (by omega)]
      rintro w hw hpos
      obtain ⟨g', o', -, ho', rfl⟩ := hform w hw
      obtain ⟨-, rfl⟩ := slot_inj (by omega) ho hpos
      exact hol ho'
  · intro j hj hlt
    rw [getElem?_of_forall_ne hbuf, hzero j hlt]
    rintro w hw rfl
    obtain ⟨g', o', hg', ho', rfl⟩ := hform w hw
    have := slot_lt hg' (Nat.lt_of_lt_of_le ho' hl)
    simp only at hj
    omega

end Kbd.Lib.Buffer
