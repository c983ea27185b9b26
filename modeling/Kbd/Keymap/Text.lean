import Mathlib.Tactic.Common

/-!
# Strings of C

The text of a keymap is a list of characters, one for each byte. `bytes` is a string constant as
such a text; the other functions are what the library uses of `string.h` and `stdlib.h`.
-/

namespace Kbd.Keymap

/-- The bytes of a string constant. -/
def bytes (s : String) : List Char := s.toByteArray.data.toList.map fun b => Char.ofNat b.toNat

example : bytes "include" = ['i', 'n', 'c', 'l', 'u', 'd', 'e'] := rfl

/-- The string that starts at `s`: it ends before the first NUL. -/
def cstr (s : List Char) : List Char := s.takeWhile (· ≠ '\x00')

/-- `!strcmp(s, name)`. -/
def strEq (s : List Char) (name : String) : Bool := bytes name = s

/-- `!strcasecmp(s, name)`. -/
def strcaseEq (s : List Char) (name : String) : Bool :=
  (bytes name).map Char.toLower = s.map Char.toLower

/-- `strndup`; the length is a `size_t`. -/
def strndup (s : List Char) (n : Nat) : List Char := (cstr s).take n

/-- The value of a digit in a base up to 16. -/
def digitVal (c : Char) : Option Nat :=
  if '0' ≤ c && c ≤ '9' then some (c.toNat - '0'.toNat)
  else if 'a' ≤ c && c ≤ 'f' then some (c.toNat - 'a'.toNat + 10)
  else if 'A' ≤ c && c ≤ 'F' then some (c.toNat - 'A'.toNat + 10)
  else none

/-- The longest run of digits of the base at the start of `s`, as a number. -/
def digits (base : Nat) : List Char → Nat → Nat
  | [], n => n
  | c :: s, n =>
    match digitVal c with
    | some d => if d < base then digits base s (n * base + d) else n
    | none => n

/-- `strtol` on a text without sign or leading blanks, but for a `+`. Base 0 goes by the prefix. -/
def strtol (base : Nat) (s : List Char) : Nat :=
  match base, s with
  | 0, '0' :: 'x' :: s => digits 16 s 0
  | 0, '0' :: 'X' :: s => digits 16 s 0
  | 0, '0' :: s => digits 8 s 0
  | 0, s => digits 10 s 0
  | base, '+' :: s => digits base s 0
  | base, s => digits base s 0

/-! ## `printf` -/

/-- `%u`. -/
def fmtU (n : Nat) : List Char := Nat.toDigits 10 n

/-- `%3u`. -/
def fmt3U (n : Nat) : List Char := (fmtU n).leftpad 3 ' '

/-- `%04x`. -/
def fmt04X (n : Nat) : List Char := (Nat.toDigits 16 n).leftpad 4 '0'

/-- `%-*s` with the width `n`. -/
def fmtS (n : Nat) (s : List Char) : List Char := s.rightpad n ' '

example : fmt3U 7 = [' ', ' ', '7'] ∧ fmt04X 0xb61 = ['0', 'b', '6', '1'] := by decide

end Kbd.Keymap
