import Mathlib.Data.Int.Bitwise
import Mathlib.Tactic.IntervalCases

/-!
# Action codes

The constants of `linux/keyboard.h` and the macros on action codes. A code is an `int`: a
traditional keysym `K(type, value)` below `0x1000`, or a Unicode code point xor `UNICODE_MASK`.
Table numbers and key numbers are `unsigned int`.
-/

namespace Kbd.Keymap

abbrev nrKeys : Nat := 256
abbrev maxNrKeymaps : Nat := 256
abbrev maxNrFunc : Nat := 256
abbrev maxDiacr : Nat := 256

abbrev ktLatin : Int := 0
abbrev ktFn : Int := 1
abbrev ktSpec : Int := 2
abbrev ktDead : Int := 4
abbrev ktShift : Int := 7
abbrev ktMeta : Int := 8
abbrev ktLock : Int := 10
abbrev ktLetter : Int := 11
abbrev ktDead2 : Int := 13

/-- `K(t,v)`, that is `(t << 8) | v`. It is only applied to `0 ≤ v < 256`, or to `t = 0`. -/
def K (t v : Int) : Int := t * 256 + v

/-- `KTYP(x)`, the arithmetic shift `x >> 8`. -/
def ktyp (x : Int) : Int := x / 256

/-- `KVAL(x)`, that is `x & 0xff`. -/
def kval (x : Int) : Int := x % 256

abbrev kHole : Int := 0x200
abbrev kNosuchmap : Int := 0x27f

example : kHole = K ktSpec 0 ∧ kNosuchmap = K ktSpec 127 := by decide

abbrev unicodeMask : Int := 0xf000

/-- `U(x)`. -/
def U (x : Int) : Int := Int.xor x unicodeMask

abbrev codeForUnknownKsym : Int := -1

/-! ## Modifier masks -/

abbrev mShift : Nat := 1
abbrev mAltgr : Nat := 2
abbrev mCtrl : Nat := 4
abbrev mAlt : Nat := 8
abbrev mShiftl : Nat := 16
abbrev mShiftr : Nat := 32
abbrev mCtrll : Nat := 64
abbrev mCtrlr : Nat := 128
abbrev mCapsshift : Nat := 256

/-! ## Arithmetic of codes -/

@[simp] theorem ktyp_K {t v : Int} (h0 : 0 ≤ v) (h1 : v < 256) : ktyp (K t v) = t := by
  unfold ktyp K
  omega

@[simp] theorem kval_K {t v : Int} (h0 : 0 ≤ v) (h1 : v < 256) : kval (K t v) = v := by
  unfold kval K
  omega

theorem K_ktyp_kval (x : Int) : K (ktyp x) (kval x) = x := by
  unfold K ktyp kval
  omega

theorem kval_nonneg (x : Int) : 0 ≤ kval x := by
  unfold kval
  omega

theorem kval_lt (x : Int) : kval x < 256 := by
  unfold kval
  omega

/-- On a nonnegative code, `U` complements the bits 12 to 15. -/
theorem U_eq {x : Int} (h : 0 ≤ x) : U x = x + 0xf000 - 2 * (x / 4096 % 16) * 4096 := by
  obtain ⟨n, rfl⟩ := Int.eq_ofNat_of_zero_le h
  have hx : U n = ((n ^^^ 0xf000 : Nat) : Int) := rfl
  have h1 : (n ^^^ 0xf000) % 2 ^ 12 = n % 2 ^ 12 ^^^ 0 := Nat.xor_mod_two_pow
  have h2 : (n ^^^ 0xf000) / 2 ^ 12 = n / 2 ^ 12 ^^^ 15 := Nat.xor_div_two_pow
  have h3 : (n / 2 ^ 12 ^^^ 15) % 2 ^ 4 = n / 2 ^ 12 % 2 ^ 4 ^^^ 15 := Nat.xor_mod_two_pow
  have h4 : (n / 2 ^ 12 ^^^ 15) / 2 ^ 4 = n / 2 ^ 12 / 2 ^ 4 ^^^ 0 := Nat.xor_div_two_pow
  have h5 : n / 2 ^ 12 % 2 ^ 4 ^^^ 15 = 15 - n / 2 ^ 12 % 2 ^ 4 := by
    have hlt : n / 2 ^ 12 % 2 ^ 4 < 16 := Nat.mod_lt _ (by decide)
    generalize n / 2 ^ 12 % 2 ^ 4 = k at hlt
    interval_cases k <;> rfl
  rw [Nat.xor_zero] at h1 h4
  rw [hx]
  omega

theorem U_U {x : Int} (h : 0 ≤ x) : U (U x) = x := by
  have h1 := U_eq h
  have h2 : 0 ≤ U x := by omega
  have h3 := U_eq h2
  omega

/-- `t | M_ALT`. -/
theorem or_mAlt (t : Nat) : t ||| mAlt = t + 8 * (1 - t / 8 % 2) := by
  have h1 : (t ||| 8) % 2 ^ 3 = t % 2 ^ 3 ||| 0 := Nat.or_mod_two_pow
  have h2 : (t ||| 8) / 2 ^ 3 = t / 2 ^ 3 ||| 1 := Nat.or_div_two_pow
  have h3 : (t / 2 ^ 3 ||| 1) % 2 ^ 1 = t / 2 ^ 3 % 2 ^ 1 ||| 1 := Nat.or_mod_two_pow
  have h4 : (t / 2 ^ 3 ||| 1) / 2 ^ 1 = t / 2 ^ 3 / 2 ^ 1 ||| 0 := Nat.or_div_two_pow
  have h5 : t / 2 ^ 3 % 2 ^ 1 ||| 1 = 1 := by
    rcases Nat.mod_two_eq_zero_or_one (t / 2 ^ 3) with h | h <;> rw [pow_one, h] <;> rfl
  rw [Nat.or_zero] at h1 h4
  have : t ||| mAlt = t ||| 8 := rfl
  omega

end Kbd.Keymap
