import Kbd.Keymap.Text

/-!
# Options that are not supported (`xkbsupport.c`)

`xkeymap_has_shifts_toggle` looks for an option in a list that is one string. Memory is the string and
its terminating NUL: a read that is not inside it gives `none`, and so does a loop that takes more
rounds than it may. Which characters are blanks depends on the locale.
-/

namespace Kbd.Xkb

open Kbd.Keymap

/-- `unsupported`. -/
def unsupported : List Char := bytes "grp:shifts_toggle"

section

variable (isspace : Char → Bool) (mem : List Char)

/-- `strcspn`: the characters before the first one that is in `reject` or ends the string. -/
def strcspn (p : Nat) (reject : List Char) : Option Nat :=
  let s := mem.drop p
  let n := (s.takeWhile fun c => !(decide (c ∈ reject) || c = '\x00')).length
  if n < s.length then some n else none

/-- `strchr`. -/
def strchr (p : Nat) (c : Char) : Option (Option Nat) := do
  let n ← strcspn mem p [c]
  let found ← mem[p + n]?
  return if found = c then some (p + n) else none

/-- `memcmp(options, s, len) == 0`, where `len` is the length of `s`. -/
def memcmpEq (options : Nat) (s : List Char) : Option Bool :=
  if options + s.length ≤ mem.length then some ((mem.drop options).take s.length = s) else none

/-- The loop that goes over blanks at the start: `options` and `len` at its end. -/
def skipBlanks : (len options : Nat) → Option (Nat × Nat)
  | 0, options => some (options, 0)
  | len + 1, options => do
    let c ← mem[options]?
    if isspace c then skipBlanks len (options + 1) else return (options, len + 1)

/-- The loop that goes over blanks at the end: `len` at its end. -/
def trimBlanks (options : Nat) : Nat → Option Nat
  | 0 => some 0
  | len + 1 => do
    let c ← mem[options + len]?
    if isspace c then trimBlanks options len else return len + 1

/-- The loop of `xkeymap_has_shifts_toggle`, where `options` may be a null pointer. -/
def optionsLoop : Nat → Option Nat → Option Bool
  | 0, _ => none
  | _ + 1, none => some false
  | rounds + 1, some options => do
    let c ← mem[options]?
    if c = '\x00' then return false
    let next ← strchr mem options ','
    let len ← strcspn mem options [',', '!']
    let (options, len) ← skipBlanks isspace mem len options
    let len ← trimBlanks isspace mem options len
    if len = unsupported.length then
      if ← memcmpEq mem options unsupported then
        return true
    optionsLoop rounds (next.map (· + 1))

end

/-- `xkeymap_has_shifts_toggle`; `getenv` is the value of `XKB_DEFAULT_OPTIONS`. -/
def xkeymapHasShiftsToggle (isspace : Char → Bool) (getenv options : Option (List Char)) :
    Option Bool :=
  match options.or getenv with
  | none => some false
  | some s => optionsLoop isspace (cstr s ++ ['\x00']) ((cstr s).length + 1) (some 0)

end Kbd.Xkb
