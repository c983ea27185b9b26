import Kbd.Keymap.Verify.Dump
import Kbd.Keymap.Verify.Rounds

/-!
# A key that is written in short

The shapes with shorthands leave out bindings that the reader is to find again: those that follow
from a value without Alt under `alt_is_meta`, those that are equal to the single value of a line, and
the holes after the last value of a long line. Here is what the reader makes of such a line and its
exceptions (`lineVal` and `spreadVal`), and for which bindings these are the ones that were there
(`lineVal_eq_iff`, `spreadVal_eq_iff` and `spreadVal_letter_iff`).
-/

namespace Kbd.Keymap

open Kbd.Lib

namespace Row

variable (exist : Nat → Bool) (alt : Bool) (val : Nat → Int)

/-- The binding of map `t` follows from the one without Alt. -/
def predicted (t : Nat) : Bool :=
  alt && t.testBit 3 && exist t && isPlainAscii (val (t - mAlt))

variable (exc : Nat → Bool)

/-- What is read in map `t` from a line with values for the first `n` maps, other than one, and the
exceptions `exc`. -/
def lineVal (n t : Nat) : Int :=
  if exc t || t < n then val t
  else if predicted exist alt val t && t - mAlt < n then metaOf (val (t - mAlt))
  else kHole

/-- What the code of a single value leaves in a map without a bit for Alt. -/
def plainVal (key : Int) (t : Nat) : Int := if exc t then val t else spreadCode key t

/-- What is read in map `t` from a line with the single value `key` and the exceptions `exc`. -/
def spreadVal (key : Int) (t : Nat) : Int :=
  if exc t then val t
  else if exist (t - mAlt) && predicted exist alt (plainVal val exc key) t then
    metaOf (plainVal val exc key (t - mAlt))
  else spreadCode key t

variable {exist alt val exc}

theorem predicted_iff {t : Nat} : predicted exist alt val t = true ↔
    alt = true ∧ t.testBit 3 = true ∧ exist t = true ∧ isPlainAscii (val (t - mAlt)) = true := by
  simp only [predicted, Bool.and_eq_true, and_assoc]

theorem not_predicted_of_testBit {t : Nat} (h : t.testBit 3 = false) :
    predicted exist alt val t = false := by
  simp [predicted, h]

theorem testBit_sub_mAlt {t : Nat} (h : t.testBit 3 = true) : (t - mAlt).testBit 3 = false := by
  have hle : mAlt ≤ t := Nat.ge_two_pow_of_testBit h
  have hbit := testBit_add_mAlt (t := t - mAlt)
  rw [Nat.sub_add_cancel hle, h] at hbit
  simpa using hbit.symm

theorem kHole_ne_of_isPlainAscii {v : Int} (h : isPlainAscii v = true) : v ≠ kHole := by
  rintro rfl
  rw [isPlainAscii_kHole] at h
  cases h

/-! ## A line with several values -/

section Values

variable {n total : Nat}

/-- The rounds of a line with values for the first `n` maps. -/
theorem afterRounds_line (hvals : ∀ t < n, exist t = true ∧ val t ≠ kHole) {t : Nat}
    (hex : exist t = true) (ht : t < total) :
    afterRounds exist alt (fun t _ => if exist t then some (if t < n then val t else kHole) else none)
      (fun _ => none) total t = some (lineVal exist alt val (fun _ => false) n t) := by
  rw [afterRounds, if_pos ht, outgoing, if_pos hex]
  unfold lineVal
  by_cases hn : t < n
  · have hne := (hvals t hn).2
    simp [hn, hne]
  · simp only [hn, ↓reduceIte, decide_false, Bool.or_self, Bool.false_eq_true]
    by_cases hp : (predicted exist alt val t && decide (t - mAlt < n)) = true
    · -- the round for the map without Alt has bound this one
      rw [if_pos hp]
      simp only [Bool.and_eq_true, decide_eq_true_eq] at hp
      obtain ⟨rfl, hbit, -, hplain⟩ := predicted_iff.mp hp.1
      have hinc : incoming exist true
          (fun t _ => if exist t then some (if t < n then val t else kHole) else none)
          (fun _ => none) t = some (metaOf (val (t - mAlt))) := by
        simp [incoming, hbit, hex, (hvals _ hp.2).1, hp.2, Option.filter, hplain]
      rw [hinc]
      simp
    · rw [if_neg hp]
      have hinc : incoming exist alt
          (fun t _ => if exist t then some (if t < n then val t else kHole) else none)
          (fun _ => none) t = none := by
        unfold incoming
        split
        · rename_i hcond
          simp only [Bool.and_eq_true] at hcond
          have hno : isPlainAscii (if t - mAlt < n then val (t - mAlt) else kHole) = false := by
            by_contra hyes
            have hlt : t - mAlt < n := by
              by_contra hge
              rw [if_neg hge, isPlainAscii_kHole] at hyes
              exact hyes rfl
            rw [if_pos hlt, Bool.not_eq_false] at hyes
            apply hp
            simp [predicted_iff.mpr ⟨hcond.1.1, hcond.1.2, hcond.2, hyes⟩, hlt]
          by_cases hex' : exist (t - mAlt) = true
          · simp [hex', Option.filter, hno]
          · simp [hex']
        · rfl
      rw [hinc]
      simp

/-- The rounds of the exceptions, where every map has a binding already. -/
theorem afterRounds_exceptions {r : Row} (hexc : ∀ t, exc t = true → val t ≠ kHole) {t : Nat}
    {w : Int} (hr : r t = some w) (ht : t < total) :
    afterRounds exist alt (fun t _ => if exc t then some (val t) else none) r total t =
      some (if exc t then val t else w) := by
  have hinc : incoming exist alt (fun t _ => if exc t then some (val t) else none) r t = some w := by
    unfold incoming
    rw [hr]
    split <;> rfl
  rw [afterRounds, if_pos ht, outgoing, hinc]
  by_cases he : exc t = true
  · simp [he, hexc t he]
  · simp [he]

/-- What is read from a line with several values, or none, and its exceptions. -/
theorem afterRounds_values {total' : Nat} (hvals : ∀ t < n, exist t = true ∧ val t ≠ kHole)
    (hexc : ∀ t, exc t = true → val t ≠ kHole) {t : Nat} (hex : exist t = true) (ht : t < total)
    (ht' : t < total') :
    afterRounds exist alt (fun t _ => if exc t then some (val t) else none)
      (afterRounds exist alt
        (fun t _ => if exist t then some (if t < n then val t else kHole) else none)
        (fun _ => none) total) total' t = some (lineVal exist alt val exc n t) := by
  rw [afterRounds_exceptions hexc (afterRounds_line hvals hex ht) ht']
  unfold lineVal
  by_cases he : exc t = true
  · simp [he]
  · simp [he]

end Values

/-- The same as bindings. -/
theorem putAll_values (hlt : ∀ t, exist t = true → t < total)
    (hvals : ∀ t < n, exist t = true ∧ val t ≠ kHole)
    (hexc : ∀ t, exc t = true → exist t = true ∧ val t ≠ kHole) {t : Nat}
    (hex : exist t = true) :
    Row.putAll alt exist
      (Row.putAll alt exist (fun _ => none) (((List.range total).filter exist).map fun j =>
        (j, if j < n then val j else kHole)))
      (((List.range total).filter exc).map fun j => (j, val j)) t =
      some (lineVal exist alt val exc n t) := by
  rw [putAll_eq_rounds (fun j hj => hj), foldl_round, putAll_eq_rounds fun j hj => (hexc j hj).1,
    foldl_round]
  exact afterRounds_values hvals (fun j hj => (hexc j hj).2) hex (hlt t hex) (hlt t hex)

/-! ## A line with one value -/

theorem isPlainAscii_of_isLetterCode {key : Int} (h : isLetterCode key = true) :
    isPlainAscii key = true := by
  simp only [isLetterCode, isPlainAscii, isAsciiLetter, Bool.and_eq_true, Bool.or_eq_true,
    decide_eq_true_eq] at h ⊢
  exact ⟨h.1, by omega⟩

/-- The codes of a letter are no holes. -/
theorem letterDefs_ne_kHole {val : Int} (h : isAsciiLetter val = true) (t : Nat) :
    (letterDefs val).getD (t % 16) 0 ≠ kHole := by
  have hall : ∀ n < 123, isAsciiLetter (n : Nat) = true →
      ∀ k < 16, (letterDefs (n : Nat)).getD k 0 ≠ kHole := by decide +kernel
  have hv : 65 ≤ val ∧ val ≤ 122 := by
    simp only [isAsciiLetter, Bool.or_eq_true, Bool.and_eq_true, decide_eq_true_eq] at h
    omega
  obtain ⟨n, rfl⟩ := Int.eq_ofNat_of_zero_le (show 0 ≤ val by omega)
  exact hall n (by omega) h _ (Nat.mod_lt _ (by decide))

theorem spreadCode_ne_kHole {key : Int} (h : key ≠ kHole) (t : Nat) : spreadCode key t ≠ kHole := by
  unfold spreadCode
  split
  · rename_i hl
    exact letterDefs_ne_kHole (Bool.and_eq_true _ _ ▸ hl).2 t
  · exact h

/-- Map 0 gets the code itself, or its form with the plus sign, which predict the same. -/
theorem spreadCode_zero (key : Int) :
    isPlainAscii (spreadCode key 0) = isPlainAscii key ∧
      metaOf (spreadCode key 0) = metaOf key := by
  unfold spreadCode
  split
  · rename_i hl
    have h0 := kval_nonneg key
    have h1 := kval_lt key
    have hcode : (letterDefs (kval key)).getD (0 % 16) 0 = K ktLetter (kval key) := rfl
    have hplain := isPlainAscii_of_isLetterCode hl
    rw [hcode, hplain, metaOf, metaOf, kval_K h0 h1]
    refine ⟨?_, rfl⟩
    simp only [isPlainAscii, Bool.and_eq_true, decide_eq_true_eq] at hplain
    simp [isPlainAscii, ktyp_K h0 h1, kval_K h0 h1, hplain.2]
  · exact ⟨rfl, rfl⟩

theorem eq_of_spreads {key w : Int} {t : Nat} {o : Option Int}
    (h : spreads exist key t o = some w) :
    exist t = true ∧ (t = 0 ∨ o = none) ∧ w = spreadCode key t := by
  unfold spreads at h
  by_cases hl : isLetterCode key = true
  · simp only [hl, ↓reduceIte, Option.ite_none_right_eq_some, Bool.and_eq_true, Bool.or_eq_true,
      decide_eq_true_eq, Option.isNone_iff_eq_none, Option.some.injEq] at h
    exact ⟨h.1.1, h.1.2, h.2.symm⟩
  · simp only [hl, Bool.false_eq_true, ↓reduceIte, Option.ite_none_right_eq_some, Bool.and_eq_true,
      Option.isNone_iff_eq_none, Option.some.injEq] at h
    exact ⟨h.1.1, Or.inr h.1.2.2, h.2.symm⟩

section Single

variable (exist alt val exc) (key : Int)

/-- The maps that are bound by the line or by an exception. -/
def isBound (t : Nat) : Bool := t = 0 || exc t

/-- What they are bound to. -/
def boundTo (t : Nat) : Int := if t = 0 then key else val t

/-- What is in map `t` before the single value is spread. -/
def boundVal (t : Nat) : Option Int :=
  if isBound exc t then some (boundTo val key t)
  else if isBound exc (t - mAlt) && predicted exist alt (boundTo val key) t then
    some (metaOf (boundTo val key (t - mAlt)))
  else none

variable {exist alt val exc key} {total : Nat}

/-- The rounds of a line with one value and its exceptions, none of which is predicted. -/
theorem afterRounds_bound (hfree : ∀ t, isBound exc t = true → isBound exc (t - mAlt) = true →
    predicted exist alt (boundTo val key) t = false) {t : Nat} (ht : t < total) :
    afterRounds exist alt (fun t _ => if isBound exc t then some (boundTo val key t) else none)
      (fun _ => none) total t = boundVal exist alt val exc key t := by
  have hinc : incoming exist alt
      (fun t _ => if isBound exc t then some (boundTo val key t) else none) (fun _ => none) t =
      if isBound exc (t - mAlt) && predicted exist alt (boundTo val key) t then
        some (metaOf (boundTo val key (t - mAlt)))
      else none := by
    unfold incoming predicted
    by_cases hb : isBound exc (t - mAlt) = true
    · cases alt <;> cases t.testBit 3 <;> cases exist t <;>
        cases hp : isPlainAscii (boundTo val key (t - mAlt)) <;> simp [hb, hp, Option.filter]
    · simp [hb]
  rw [afterRounds, if_pos ht, outgoing, hinc, boundVal]
  by_cases hb : isBound exc t = true
  · have hno : (isBound exc (t - mAlt) && predicted exist alt (boundTo val key) t) = false := by
      cases hb' : isBound exc (t - mAlt) with
      | false => rfl
      | true => exact hfree t hb hb'
    simp [hb, hno]
  · simp [hb]

/-- A line with one value and its exceptions, as rounds. -/
theorem putAll_one (hex0 : exist 0 = true) (h0 : exc 0 = false)
    (hexc : ∀ t, exc t = true → exist t = true) (htotal : 0 < total) :
    Row.putAll alt exist (put exist alt (fun _ => none) 0 key)
      (((List.range total).filter exc).map fun j => (j, val j)) =
      afterRounds exist alt (fun t _ => if isBound exc t then some (boundTo val key t) else none)
        (fun _ => none) total := by
  have hlist : (0, key) :: ((List.range total).filter exc).map (fun j => (j, val j)) =
      ((List.range total).filter (isBound exc)).map fun j => (j, boundTo val key j) := by
    obtain ⟨k, rfl⟩ := Nat.exists_eq_succ_of_ne_zero (Nat.ne_of_gt htotal)
    have hpos {j : Nat} (hj : j ∈ List.range' (0 + 1) k) : j ≠ 0 := by
      have := (List.mem_range'_1.mp hj).1
      omega
    have hfilter : (List.range' (0 + 1) k).filter (isBound exc) =
        (List.range' (0 + 1) k).filter exc := by
      apply List.filter_congr
      intro j hj
      simp [isBound, hpos hj]
    rw [List.range_eq_range', List.range'_succ, List.filter_cons_of_neg (by simp [h0]),
      List.filter_cons_of_pos rfl, hfilter, List.map_cons]
    refine List.cons_eq_cons.mpr ⟨rfl, List.map_congr_left fun j hj => ?_⟩
    rw [boundTo, if_neg (hpos (List.mem_of_mem_filter hj))]
  have hexist : (fun t => decide (t = 0) || exist t) = exist := by
    funext t
    by_cases ht : t = 0
    · simp [ht, hex0]
    · simp [ht]
  have hbound (j : Nat) (hj : isBound exc j = true) : exist j = true := by
    simp only [isBound, Bool.or_eq_true, decide_eq_true_eq] at hj
    rcases hj with rfl | hj
    · exact hex0
    · exact hexc j hj
  rw [← foldl_round, ← putAll_eq_rounds hbound, ← hlist, putAll, hexist]

/-- A bound map predicts the same whether or not the value has been spread. -/
theorem plainVal_of_isBound (h0 : exc 0 = false) {t : Nat} (h : isBound exc t = true) :
    isPlainAscii (plainVal val exc key t) = isPlainAscii (boundTo val key t) ∧
      metaOf (plainVal val exc key t) = metaOf (boundTo val key t) := by
  unfold plainVal boundTo
  by_cases ht : t = 0
  · subst ht
    rw [h0, if_neg Bool.false_ne_true, if_pos rfl]
    exact spreadCode_zero key
  · have he : exc t = true := by simpa [isBound, ht] using h
    rw [if_pos he, if_neg ht]
    exact ⟨rfl, rfl⟩

/-- What is read from a line with one value and its exceptions. -/
theorem afterRounds_spread (hex0 : exist 0 = true) (hkey : key ≠ kHole) (h0 : exc 0 = false)
    (hexc : ∀ t, exc t = true → exist t = true) {r : Row}
    (hr : ∀ t, exist t = true → r t = boundVal exist alt val exc key t) {t : Nat} (hex : exist t = true)
    (ht : t < total) :
    afterRounds exist alt (spreads exist key) r total t =
      some (spreadVal exist alt val exc key t) := by
  rw [afterRounds, if_pos ht]
  by_cases ht0 : t = 0
  · subst ht0
    rw [outgoing]
    have hinc : incoming exist alt (spreads exist key) r 0 = some key := by
      rw [incoming_of_testBit (by simp), hr 0 hex0]
      rfl
    have hval : spreadVal exist alt val exc key 0 = spreadCode key 0 := by
      rw [spreadVal, h0, not_predicted_of_testBit (by simp), Bool.and_false]
      rfl
    rw [hinc, hval]
    unfold spreads
    by_cases hl : isLetterCode key = true
    · simp [hex0, hl, spreadCode_ne_kHole hkey]
    · simp [hl, spreadCode]
  have hexist : isBound exc (t - mAlt) = true → exist (t - mAlt) = true := by
    intro hb
    simp only [isBound, Bool.or_eq_true, decide_eq_true_eq] at hb
    rcases hb with hb | hb
    · rwa [hb]
    · exact hexc _ hb
  -- a map that has a value keeps it
  have hkeep {w : Int} (h : incoming exist alt (spreads exist key) r t = some w) :
      outgoing exist alt (spreads exist key) r t = some w := by
    have hnone : spreads exist key t (some w) = none := by
      unfold spreads
      by_cases hl : isLetterCode key = true
      · simp [hl, ht0]
      · simp [hl]
    rw [outgoing, h, hnone]
  have hbound : isBound exc t = exc t := by simp [isBound, ht0]
  unfold spreadVal
  by_cases he : exc t = true
  · rw [if_pos he]
    apply hkeep
    have hrt : r t = some (val t) := by
      rw [hr t hex, boundVal, hbound, if_pos he, boundTo, if_neg ht0]
    unfold incoming
    rw [hrt]
    split <;> rfl
  rw [if_neg he]
  by_cases hp : (exist (t - mAlt) && predicted exist alt (plainVal val exc key) t) = true
  · rw [if_pos hp]
    apply hkeep
    rw [Bool.and_eq_true] at hp
    obtain ⟨halt, hbit, -, hplain⟩ := predicted_iff.mp hp.2
    by_cases hb : isBound exc (t - mAlt) = true
    · obtain ⟨hplain', hmeta⟩ := @plainVal_of_isBound val exc key h0 _ hb
      have hrt : r t = some (metaOf (boundTo val key (t - mAlt))) := by
        have hpred : predicted exist alt (boundTo val key) t = true :=
          predicted_iff.mpr ⟨halt, hbit, hex, hplain' ▸ hplain⟩
        rw [hr t hex, boundVal, hbound, if_neg he, hb, hpred]
        rfl
      unfold incoming
      rw [hrt, hmeta]
      split <;> rfl
    · -- the single value is spread to the map without Alt first
      have hb' := hb
      simp only [isBound, Bool.or_eq_true, decide_eq_true_eq, not_or] at hb'
      have hrt : r t = none := by
        rw [hr t hex, boundVal, hbound, if_neg he, Bool.eq_false_iff.mpr hb]
        rfl
      have hrs : r (t - mAlt) = none := by
        rw [hr _ hp.1, boundVal, if_neg hb, not_predicted_of_testBit (testBit_sub_mAlt hbit),
          Bool.and_false]
        rfl
      have hpv : plainVal val exc key (t - mAlt) = spreadCode key (t - mAlt) := if_neg hb'.2
      have hspread : spreads exist key (t - mAlt) none = some (spreadCode key (t - mAlt)) := by
        unfold spreads
        simp [hp.1, hb'.1]
      rw [hpv] at hplain ⊢
      simp [incoming, halt, hbit, hex, hrt, hrs, hspread, Option.filter, hplain]
  · rw [if_neg hp]
    have hrt : r t = none := by
      rw [hr t hex, boundVal, hbound, if_neg he, if_neg]
      intro hcond
      rw [Bool.and_eq_true] at hcond
      obtain ⟨halt, hbit, -, hplain⟩ := predicted_iff.mp hcond.2
      apply hp
      rw [hexist hcond.1, Bool.true_and]
      exact predicted_iff.mpr ⟨halt, hbit, hex,
        (@plainVal_of_isBound val exc key h0 _ hcond.1).1.trans hplain⟩
    have hinc : incoming exist alt (spreads exist key) r t = none := by
      unfold incoming
      split
      · rename_i hcond
        simp only [Bool.and_eq_true] at hcond
        rw [hrt, Option.none_or, Option.map_eq_none_iff, Option.filter_eq_none_iff]
        intro w hw hplain
        obtain ⟨hex', ho, rfl⟩ := eq_of_spreads hw
        have hnot : exc (t - mAlt) = false := by
          by_contra hb
          rw [Bool.not_eq_false] at hb
          have hne : t - mAlt ≠ 0 := by
            intro heq
            rw [heq, h0] at hb
            cases hb
          have hsome : r (t - mAlt) = some (val (t - mAlt)) := by
            rw [hr _ hex', boundVal, isBound, hb, Bool.or_true, if_pos rfl, boundTo,
              if_neg hne]
          rw [hsome] at ho
          cases ho.resolve_left hne
        apply hp
        rw [hex', Bool.true_and]
        refine predicted_iff.mpr ⟨hcond.1.1, hcond.1.2, hex, ?_⟩
        rw [plainVal, hnot]
        exact hplain
      · exact hrt
    have hspread : spreads exist key t none = some (spreadCode key t) := by
      unfold spreads
      simp [hex, ht0]
    rw [outgoing, hinc, hspread]
    simp

/-- The same as bindings, which `lk_add_constants` completes. -/
theorem constant_one {total' : Nat} (hex0 : exist 0 = true) (hkey : key ≠ kHole)
    (h0 : exc 0 = false) (hexc : ∀ t, exc t = true → exist t = true)
    (hfree : ∀ t, isBound exc t = true → isBound exc (t - mAlt) = true →
      predicted exist alt (boundTo val key) t = false)
    (hlt : ∀ t, exist t = true → t < total) (hlt' : ∀ t, exist t = true → t < total') {t : Nat}
    (hex : exist t = true) :
    (Row.putAll alt exist (put exist alt (fun _ => none) 0 key)
      (((List.range total).filter exc).map fun j => (j, val j))).constant exist alt total' key t =
      some (spreadVal exist alt val exc key t) := by
  rw [constant_eq_rounds (hlt' 0 hex0 : 0 < total'), foldl_round,
    putAll_one hex0 h0 hexc (hlt 0 hex0)]
  refine afterRounds_spread hex0 hkey h0 hexc (fun s hs => ?_) hex (hlt' t hex)
  exact afterRounds_bound hfree (hlt s hs)

end Single

/-! ## What is restored -/

section Restored

variable (hhole : ∀ t, exist t = false → val t = kHole)
  (hmeta : ∀ t, predicted exist alt val t = true → val t = metaOf (val (t - mAlt)))

include hmeta in
/-- After a line with several values a predicted binding is found again if its map without Alt is one
of the line's. -/
theorem lineVal_eq_iff {n : Nat}
    (hvals : ∀ t < n, predicted exist alt val t = false ∧ val t ≠ kHole)
    (hexc : ∀ t, exist t = true → (exc t = true ↔
      n ≤ t ∧ predicted exist alt val t = false ∧ val t ≠ kHole)) :
    (∀ t, exist t = true → lineVal exist alt val exc n t = val t) ↔
      ∀ t, predicted exist alt val t = true → t - mAlt < n := by
  have hone (t : Nat) (hex : exist t = true) : lineVal exist alt val exc n t = val t ↔
      (predicted exist alt val t = true → t - mAlt < n) := by
    unfold lineVal
    by_cases hshown : (exc t || decide (t < n)) = true
    · have hno : predicted exist alt val t = false := by
        simp only [Bool.or_eq_true, decide_eq_true_eq] at hshown
        rcases hshown with he | hn
        · exact ((hexc t hex).mp he).2.1
        · exact (hvals t hn).1
      simp [hshown, hno]
    · rw [if_neg hshown]
      simp only [Bool.or_eq_true, decide_eq_true_eq, not_or, Nat.not_lt] at hshown
      cases hp : predicted exist alt val t with
      | true =>
        have hval := hmeta t hp
        by_cases hlt : t - mAlt < n
        · simp [hlt, hval]
        · simp [hlt, hval, (metaOf_ne_kHole _).symm]
      | false =>
        have hval : val t = kHole := by
          by_contra hne
          exact hshown.1 ((hexc t hex).mpr ⟨hshown.2, hp, hne⟩)
        simp [hval]
  constructor
  · intro h t hp
    have hex := (predicted_iff.mp hp).2.2.1
    exact (hone t hex).mp (h t hex) hp
  · exact fun h t hex => (hone t hex).mpr (h t)

include hhole hmeta in
/-- After a line with one value the bindings that are neither predicted nor exceptions have to be what
the value stands for in their map. -/
theorem spreadVal_eq_iff :
    (∀ t, exist t = true → spreadVal exist alt val exc (val 0) t = val t) ↔
      ∀ t, exist t = true → exc t = false → predicted exist alt val t = false →
        spreadCode (val 0) t = val t := by
  have hplainVal {t : Nat} (hbit : t.testBit 3 = false) :
      spreadVal exist alt val exc (val 0) t = plainVal val exc (val 0) t := by
    rw [spreadVal, not_predicted_of_testBit hbit, Bool.and_false]
    rfl
  have hpredicted {t : Nat} (hex : exist t = true)
      (h : exist (t - mAlt) = true → t.testBit 3 = true →
        plainVal val exc (val 0) (t - mAlt) = val (t - mAlt)) :
      (exist (t - mAlt) && predicted exist alt (plainVal val exc (val 0)) t) =
        predicted exist alt val t := by
    rw [Bool.eq_iff_iff, Bool.and_eq_true, predicted_iff, predicted_iff]
    constructor
    · rintro ⟨hex', halt, hbit, -, hplain⟩
      exact ⟨halt, hbit, hex, h hex' hbit ▸ hplain⟩
    · rintro ⟨halt, hbit, -, hplain⟩
      have hex' : exist (t - mAlt) = true := by
        by_contra hno
        exact kHole_ne_of_isPlainAscii hplain (hhole _ (Bool.eq_false_iff.mpr hno))
      exact ⟨hex', halt, hbit, hex, (h hex' hbit).symm ▸ hplain⟩
  constructor
  · intro h t hex he hp
    have hcond := hpredicted hex fun hex' hbit => by
      rw [← hplainVal (testBit_sub_mAlt hbit)]
      exact h _ hex'
    have hval := h t hex
    rw [spreadVal, he, hcond, hp] at hval
    exact hval
  · intro h t hex
    have hsource (hex' : exist (t - mAlt) = true) (hbit : t.testBit 3 = true) :
        plainVal val exc (val 0) (t - mAlt) = val (t - mAlt) := by
      unfold plainVal
      cases he : exc (t - mAlt) with
      | true => rfl
      | false => exact h _ hex' he (not_predicted_of_testBit (testBit_sub_mAlt hbit))
    rw [spreadVal, hpredicted hex hsource]
    cases he : exc t with
    | true => rfl
    | false =>
      cases hp : predicted exist alt val t with
      | true =>
        obtain ⟨-, hbit, -, hplain⟩ := predicted_iff.mp hp
        have hex' : exist (t - mAlt) = true := by
          by_contra hno
          exact kHole_ne_of_isPlainAscii hplain (hhole _ (Bool.eq_false_iff.mpr hno))
        rw [if_neg Bool.false_ne_true, if_pos rfl, hsource hex' hbit, hmeta t hp]
      | false => exact h t hex he hp

/-- The upper half of `defs` are the Meta forms of the lower half. -/
theorem letterDefs_meta (v : Int) {k : Nat} (hk : k < 8) :
    (letterDefs v).getD (k + 8) 0 = metaOf ((letterDefs v).getD k 0) := by
  interval_cases k <;> rfl

/-- What a letter stands for, with or without Alt. -/
theorem spreadVal_letter {v : Int} (hv : isAsciiLetter v = true) (t : Nat) :
    spreadVal exist alt val (fun _ => false) (K ktLatin v) t = (letterDefs v).getD (t % 16) 0 := by
  have hrange : 0 ≤ v ∧ v < 256 := by
    simp only [isAsciiLetter, Bool.or_eq_true, Bool.and_eq_true, decide_eq_true_eq] at hv
    omega
  have hcode (t : Nat) : spreadCode (K ktLatin v) t = (letterDefs v).getD (t % 16) 0 := by
    unfold spreadCode isLetterCode
    rw [ktyp_K hrange.1 hrange.2, kval_K hrange.1 hrange.2, hv]
    rfl
  have hplain (t : Nat) : plainVal val (fun _ => false) (K ktLatin v) t =
      (letterDefs v).getD (t % 16) 0 := hcode t
  rw [spreadVal, if_neg Bool.false_ne_true]
  split
  · rename_i hp
    rw [Bool.and_eq_true] at hp
    have hbit := (predicted_iff.mp hp.2).2.1
    have hle : 8 ≤ t := Nat.ge_two_pow_of_testBit hbit
    rw [testBit_mAlt, decide_eq_true_eq] at hbit
    have h8 : mAlt = 8 := rfl
    have hmod : t % 16 = (t - mAlt) % 16 + 8 := by omega
    rw [hplain, hmod, letterDefs_meta v (by omega)]
  · exact hcode t

/-- The bindings of a letter are found again if there are no maps from 16 on. -/
theorem spreadVal_letter_iff {val' : Nat → Int} {v : Int} (hv : isAsciiLetter v = true)
    (hlow : ∀ t, exist t = true → t < 16 → val t = (letterDefs v).getD t 0)
    (hhigh : ∀ t, exist t = true → 16 ≤ t → val t = kHole) :
    (∀ t, exist t = true → spreadVal exist alt val' (fun _ => false) (K ktLatin v) t = val t) ↔
      ∀ t, exist t = true → t < 16 := by
  simp only [spreadVal_letter hv]
  constructor
  · intro h t hex
    by_contra hge
    rw [Nat.not_lt] at hge
    have hval := h t hex
    rw [hhigh t hex hge] at hval
    exact letterDefs_ne_kHole hv t hval
  · intro h t hex
    have hlt := h t hex
    rw [hlow t hex hlt, Nat.mod_eq_of_lt hlt]

end Restored

end Row

end Kbd.Keymap
