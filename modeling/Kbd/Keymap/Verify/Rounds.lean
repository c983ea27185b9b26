import Kbd.Keymap.Verify.Constants
import Kbd.Keymap.Verify.Stmt
import Mathlib.Data.List.Basic

/-!
# Rounds over the maps

The loops that bind one key in map after map, under `alt_is_meta` or not. A round for map `t` can
only bind `t` and `t | M_ALT`, so what it finds in `t` is what was there at the start, or the Meta
code that the round for `t - M_ALT` has left there (`Row.incoming`).
-/

namespace Kbd.Keymap

open Kbd.Lib

namespace Row

variable (exist : Nat → Bool) (alt : Bool) (act : Nat → Option Int → Option Int)

/-- A round binds its map, or does nothing, as it finds the map. -/
def round (r : Row) (t : Nat) : Row :=
  match act t (r t) with
  | none => r
  | some v => r.put exist alt t v

/-- What the round for map `t` finds in it. -/
def incoming (r : Row) (t : Nat) : Option Int :=
  if alt && t.testBit 3 && exist t then
    (r t).or (((act (t - mAlt) (r (t - mAlt))).filter isPlainAscii).map metaOf)
  else r t

/-- What the round for map `t` leaves in it. -/
def outgoing (r : Row) (t : Nat) : Option Int :=
  match act t (incoming exist alt act r t) with
  | none => incoming exist alt act r t
  | some v =>
    if alt && v = kHole && (incoming exist alt act r t).isSome then incoming exist alt act r t
    else some v

variable {exist alt act}

theorem incoming_of_testBit {r : Row} {t : Nat} (h : t.testBit 3 = false) :
    incoming exist alt act r t = r t := by
  simp [incoming, h]

theorem or_mAlt_of_testBit {t : Nat} (h : t.testBit 3 = true) : t ||| mAlt = t := by
  have hor := or_mAlt t
  rw [Nat.testBit_eq_decide_div_mod_eq] at h
  have := of_decide_eq_true h
  have h8 : (2 : Nat) ^ 3 = 8 := rfl
  omega

theorem or_mAlt_of_not_testBit {t : Nat} (h : t.testBit 3 = false) : t ||| mAlt = t + mAlt := by
  have hor := or_mAlt t
  rw [Nat.testBit_eq_decide_div_mod_eq] at h
  have := of_decide_eq_false h
  have h8 : (2 : Nat) ^ 3 = 8 := rfl
  have hm : mAlt = 8 := rfl
  omega

theorem testBit_add_mAlt {t : Nat} : (t + mAlt).testBit 3 = !t.testBit 3 := by
  have hm : mAlt = 8 := rfl
  rw [Nat.testBit_eq_decide_div_mod_eq, Nat.testBit_eq_decide_div_mod_eq, ← decide_not,
    decide_eq_decide]
  have h8 : (2 : Nat) ^ 3 = 8 := rfl
  omega

theorem isPlainAscii_kHole : isPlainAscii kHole = false := by decide

/-- What one binding leaves in each map. -/
theorem put_apply (r : Row) (k : Nat) (v : Int) (t : Nat) :
    r.put exist alt k v t =
      if t = k then if alt && v = kHole && (r k).isSome then r k else some v
      else if t = k + mAlt && !k.testBit 3 && alt && exist t && isPlainAscii v then
        (r t).or (some (metaOf v))
      else r t := by
  have hm : mAlt = 8 := rfl
  unfold put
  by_cases hskip : (alt && v = kHole && (r k).isSome) = true
  · have hv : v = kHole := by
      simp only [Bool.and_eq_true, decide_eq_true_eq] at hskip
      exact hskip.1.2
    rw [if_pos hskip, if_pos hskip, hv, isPlainAscii_kHole, Bool.and_false]
    split
    · rename_i ht
      rw [ht]
    · rfl
  rw [if_neg hskip, if_neg hskip]
  by_cases hbit : k.testBit 3 = true
  · have hno : spills exist alt r k v = false := by simp [spills, or_mAlt_of_testBit hbit]
    rw [hno, hbit]
    by_cases ht : t = k
    · simp [ht]
    · simp [ht]
  · have hbit' : k.testBit 3 = false := Bool.eq_false_iff.mpr hbit
    have hne : k + mAlt ≠ k := by omega
    unfold spills
    rw [or_mAlt_of_not_testBit hbit', hbit']
    by_cases ht : t = k
    · subst ht
      split <;> simp
    · by_cases ht' : t = k + mAlt
      · subst ht'
        cases hr : r (k + mAlt) with
        | none =>
          rw [if_neg hne, Option.isNone_none, Option.none_or]
          cases alt <;> cases exist (k + mAlt) <;> cases isPlainAscii v <;> simp [hr]
        | some w => simp [hr]
      · simp only [ht, ht', decide_false, Bool.false_and, Bool.false_eq_true, ↓reduceIte]
        split
        · rw [Function.update_of_ne ht', Function.update_of_ne ht]
        · rw [Function.update_of_ne ht]

/-- What is in map `t` after `k` rounds. -/
def afterRounds (exist : Nat → Bool) (alt : Bool) (act : Nat → Option Int → Option Int) (r : Row)
    (k t : Nat) : Option Int :=
  if t < k then outgoing exist alt act r t
  else if t < k + mAlt then incoming exist alt act r t
  else r t

theorem foldl_round (k : Nat) (r : Row) :
    (List.range k).foldl (round exist alt act) r = afterRounds exist alt act r k := by
  induction k with
  | zero =>
    funext t
    have hbit (h : t < 0 + mAlt) : t.testBit 3 = false := Nat.testBit_lt_two_pow (by simpa using h)
    unfold afterRounds
    rw [if_neg (Nat.not_lt_zero t)]
    split
    · rename_i h
      rw [incoming_of_testBit (hbit h)]
      rfl
    · rfl
  | succ k ih =>
    rw [List.range_succ, List.foldl_append, ih, List.foldl_cons, List.foldl_nil]
    have hm : mAlt = 8 := rfl
    have hk : afterRounds exist alt act r k k = incoming exist alt act r k := by
      rw [afterRounds, if_neg (Nat.lt_irrefl k), if_pos (by omega)]
    funext t
    by_cases htk : t = k
    · subst htk
      have hout : afterRounds exist alt act r (t + 1) t = outgoing exist alt act r t :=
        if_pos (Nat.lt_succ_self t)
      rw [hout, round, outgoing, hk]
      cases hact : act t (incoming exist alt act r t) with
      | none => exact hk
      | some v =>
        dsimp only
        rw [put_apply, if_pos rfl, hk]
    · by_cases ht8 : t = k + mAlt
      · have hbefore : afterRounds exist alt act r k t = r t := by
          rw [afterRounds, if_neg (by omega), if_neg (by omega)]
        have hafter : afterRounds exist alt act r (k + 1) t = incoming exist alt act r t := by
          rw [afterRounds, if_neg (by omega), if_pos (by omega)]
        have hbit : t.testBit 3 = !k.testBit 3 := ht8 ▸ testBit_add_mAlt
        have hsub : t - mAlt = k := by omega
        rw [hafter, round, hk]
        cases hkbit : k.testBit 3 with
        | true =>
          rw [hkbit] at hbit
          rw [incoming_of_testBit hbit]
          cases act k (incoming exist alt act r k) with
          | none => exact hbefore
          | some v =>
            dsimp only
            rw [put_apply, if_neg htk, if_neg (by simp [hkbit]), hbefore]
        | false =>
          rw [hkbit] at hbit
          rw [incoming_of_testBit hkbit, incoming, hbit, hsub]
          cases act k (r k) with
          | none =>
            dsimp only
            rw [hbefore, Option.filter_none, Option.map_none, Option.or_none, ite_self]
          | some v =>
            dsimp only
            rw [put_apply, if_neg htk, hbefore, hkbit]
            cases alt <;> cases exist t <;> cases hv : isPlainAscii v <;> simp [ht8, hv, Option.filter]
      · have hsame : afterRounds exist alt act r (k + 1) t = afterRounds exist alt act r k t := by
          have h1 : t < k + 1 ↔ t < k := by omega
          have h2 : t < k + 1 + mAlt ↔ t < k + mAlt := by omega
          simp only [afterRounds, h1, h2]
        rw [hsame, round, hk]
        cases act k (incoming exist alt act r k) with
        | none => rfl
        | some v =>
          dsimp only
          rw [put_apply, if_neg htk, if_neg (by simp [ht8])]

/-! ## Loops -/

/-- A list of bindings of maps that exist, in ascending order. -/
theorem putAll_eq_rounds {p : Nat → Bool} (hp : ∀ j, p j = true → exist j = true) (f : Nat → Int)
    (n : Nat) (r : Row) :
    Row.putAll alt exist r (((List.range n).filter p).map fun j => (j, f j)) =
      (List.range n).foldl (round exist alt fun j _ => if p j then some (f j) else none) r := by
  have hlist (js : List Nat) (r : Row) :
      Row.putAll alt exist r ((js.filter p).map fun j => (j, f j)) =
        js.foldl (round exist alt fun j _ => if p j then some (f j) else none) r := by
    induction js generalizing r with
    | nil => rfl
    | cons j js ih =>
      rw [List.foldl_cons, round]
      by_cases hj : p j = true
      · have hex : (fun t => decide (t = j) || exist t) = exist := by
          funext t
          by_cases ht : t = j
          · simp [ht, hp j hj]
          · simp [ht]
        rw [List.filter_cons_of_pos hj, List.map_cons, putAll, hex, ih, if_pos hj]
      · rw [List.filter_cons_of_neg hj, ih, if_neg hj]
  exact hlist (List.range n) r

/-- The code that a map gets from a line with one value. -/
def spreadCode (key : Int) (t : Nat) : Int :=
  if isLetterCode key then (letterDefs (kval key)).getD (t % 16) 0 else key

/-- What a round of `do_constant_key` does as it finds map `t`. -/
def spreads (exist : Nat → Bool) (key : Int) (t : Nat) (o : Option Int) : Option Int :=
  if exist t && (if isLetterCode key then t = 0 || o.isNone else t ≠ 0 && o.isNone) then
    some (spreadCode key t)
  else none

theorem constant_eq_rounds {total : Nat} (h0 : 0 < total) (key : Int) (r : Row) :
    r.constant exist alt total key =
      (List.range total).foldl (round exist alt (spreads exist key)) r := by
  unfold constant
  by_cases hl : isLetterCode key = true
  · have hround : fill exist alt true (fun j => (letterDefs (kval key)).getD (j % 16) 0) =
        round exist alt (spreads exist key) := by
      funext r j
      unfold fill round spreads spreadCode
      rw [if_pos hl, if_pos hl, Bool.true_and]
      split <;> rfl
    rw [if_pos hl, hround]
  · have hround : ∀ j ∈ List.range' 1 (total - 1), ∀ r,
        fill exist alt false (fun _ => key) r j = round exist alt (spreads exist key) r j := by
      intro j hj r
      have hj0 : j ≠ 0 := by
        have := List.mem_range'_1.mp hj
        omega
      unfold fill round spreads spreadCode
      rw [if_neg hl, if_neg hl]
      simp only [Bool.false_and, Bool.false_or, ne_eq, hj0, not_false_eq_true, decide_true,
        Bool.true_and]
      split <;> rfl
    have hrange : List.range total = 0 :: List.range' 1 (total - 1) := by
      obtain ⟨n, rfl⟩ : ∃ n, total = n + 1 := ⟨total - 1, by omega⟩
      rw [List.range_eq_range', List.range'_succ, Nat.add_sub_cancel]
    have hzero : round exist alt (spreads exist key) r 0 = r := by
      unfold round spreads
      rw [if_neg hl]
      simp
    rw [if_neg hl, hrange, List.foldl_cons, hzero]
    exact List.foldl_ext _ _ _ fun r j hj => hround j hj r

end Row

end Kbd.Keymap
