import Kbd.Lib.CData

/-!
# Numbers that are written in C

What `printf` writes for a number is read as this number: decimal without leading zeros, since a
leading zero makes it octal, and other bases with any number of them.
-/

namespace Kbd.Lib.C

section

variable {base : Nat}

theorem digit_digitChar {d : Nat} (h : d < 16) : digit (Nat.digitChar d) = some d := by
  revert d
  decide

theorem isWordChar_digitChar {d : Nat} (h : d < 16) : isWordChar (Nat.digitChar d) = true := by
  revert d
  decide

theorem digitChar_ne_zero {d : Nat} (h : d < 16) (h0 : d ≠ 0) : Nat.digitChar d ≠ '0' := by
  revert d
  decide

theorem isPlainChar_of_isWordChar {c : Char} (h : isWordChar c = true) : isPlainChar c = true := by
  simp only [isPlainChar, ne_eq, Bool.and_eq_true, decide_eq_true_eq]
  refine ⟨⟨?_, ?_⟩, ?_⟩ <;> rintro rfl <;> revert h <;> decide

theorem digitsFrom_append (n : Nat) (s t : List Char) :
    digitsFrom base n (s ++ t) = (digitsFrom base n s).bind fun m => digitsFrom base m t := by
  induction s generalizing n with
  | nil => rfl
  | cons c s ih =>
    rw [List.cons_append, digitsFrom, digitsFrom]
    cases digit c with
    | none => rfl
    | some d =>
      simp only [Option.bind_some]
      split
      · exact ih _
      · rfl

/-- The digits of a number, one at a time. -/
theorem toDigits_cases (hb : 1 < base) {P : Nat → List Char → Prop}
    (hlast : ∀ n < base, P n [Nat.digitChar n])
    (hmore : ∀ n, base ≤ n → P (n / base) (Nat.toDigits base (n / base)) →
      P n (Nat.toDigits base (n / base) ++ [Nat.digitChar (n % base)])) (n : Nat) :
    P n (Nat.toDigits base n) := by
  induction n using Nat.strongRecOn with
  | _ n ih =>
    by_cases hn : n < base
    · rw [Nat.toDigits_of_lt_base hn]
      exact hlast n hn
    · rw [Nat.toDigits_of_base_le hb (Nat.le_of_not_lt hn)]
      exact hmore n (Nat.le_of_not_lt hn) (ih _ (Nat.div_lt_self (by omega) hb))

variable (hb : 1 < base) (hb' : base ≤ 16)

include hb

theorem toDigits_ne_nil (n : Nat) : Nat.toDigits base n ≠ [] :=
  toDigits_cases hb (P := fun _ ds => ds ≠ []) (fun _ _ => by simp) (fun _ _ _ => by simp) n

include hb'

theorem digitsFrom_toDigits (n : Nat) : digitsFrom base 0 (Nat.toDigits base n) = some n := by
  refine toDigits_cases hb (P := fun n ds => digitsFrom base 0 ds = some n) ?_ ?_ n
  · intro d hd
    simp [digitsFrom, digit_digitChar (by omega : d < 16), hd]
  · intro n _ ih
    have hd : n % base < base := Nat.mod_lt n (by omega)
    rw [digitsFrom_append, ih]
    simp only [Option.bind_some, digitsFrom, digit_digitChar (by omega : n % base < 16), hd, if_true]
    rw [Nat.div_add_mod']

theorem isWordChar_of_mem_toDigits (n : Nat) : ∀ c ∈ Nat.toDigits base n, isWordChar c = true := by
  refine toDigits_cases hb (P := fun _ ds => ∀ c ∈ ds, isWordChar c = true) ?_ ?_ n
  · intro d hd c hc
    rw [List.mem_singleton.mp hc]
    exact isWordChar_digitChar (by omega)
  · intro n _ ih c hc
    rcases List.mem_append.mp hc with hc | hc
    · exact ih c hc
    · rw [List.mem_singleton.mp hc]
      have hd : n % base < base := Nat.mod_lt n (by omega)
      exact isWordChar_digitChar (by omega)

/-- Only zero starts with a zero. -/
theorem head_toDigits {n : Nat} (hn : n ≠ 0) : (Nat.toDigits base n).head? ≠ some '0' := by
  revert hn
  refine toDigits_cases hb (P := fun n ds => n ≠ 0 → ds.head? ≠ some '0') ?_ ?_ n
  · intro d hd hd0
    rw [List.head?_cons, ne_eq, Option.some.injEq]
    exact digitChar_ne_zero (by omega) hd0
  · intro n hn ih _
    have hdiv : n / base ≠ 0 := Nat.div_ne_zero_iff.mpr ⟨by omega, hn⟩
    rw [List.head?_append_of_ne_nil _ (toDigits_ne_nil hb _)]
    exact ih hdiv

/-- Zeros in front do not change a number. -/
theorem numeral_leftpad (k n : Nat) : numeral base ((Nat.toDigits base n).leftpad k '0') = some n := by
  have hzero (m : Nat) (ds : List Char) :
      digitsFrom base 0 (List.replicate m '0' ++ ds) = digitsFrom base 0 ds := by
    induction m with
    | zero => rfl
    | succ m ih =>
      rw [List.replicate_succ, List.cons_append, digitsFrom, show digit '0' = some 0 from rfl]
      simp only [Option.bind_some, Nat.zero_mul, Nat.add_zero, if_pos (by omega : 0 < base)]
      exact ih
  have hne : (Nat.toDigits base n).leftpad k '0' ≠ [] := by
    rw [List.leftpad]
    exact List.append_ne_nil_of_right_ne_nil _ (toDigits_ne_nil hb n)
  rw [numeral, if_neg hne, List.leftpad, hzero, digitsFrom_toDigits hb hb']

theorem isWordChar_of_mem_leftpad (k n : Nat) :
    ∀ c ∈ (Nat.toDigits base n).leftpad k '0', isWordChar c = true := by
  intro c hc
  rw [List.leftpad, List.mem_append] at hc
  rcases hc with hc | hc
  · rw [List.eq_of_mem_replicate hc]
    rfl
  · exact isWordChar_of_mem_toDigits hb hb' n c hc

end

/-- A decimal number. -/
theorem constant_toDigits (n : Nat) : constant (Nat.toDigits 10 n) = some n := by
  by_cases hn : n = 0
  · subst hn
    rfl
  · have hhead : (Nat.toDigits 10 n).head? ≠ some '0' := head_toDigits (by decide) (by decide) hn
    have hnum : numeral 10 (Nat.toDigits 10 n) = some n := by
      rw [numeral, if_neg (toDigits_ne_nil (by decide) n), digitsFrom_toDigits (by decide) (by decide)]
    rw [← hnum]
    unfold constant
    split
    · rename_i h
      rw [h] at hhead
      exact absurd rfl hhead
    · rename_i h
      rw [h] at hhead
      exact absurd rfl hhead
    · rename_i h
      rw [h] at hhead
      exact absurd rfl hhead
    · rfl

end Kbd.Lib.C
