import Kbd.Keymap.Ksyms

/-!
# Codes of XKB symbols (`xkbsupport.c`)

`xkeymap_get_code` gives the console code of an XKB symbol: by a table of symbols with a meaning of
their own, by the name of the symbol, by its character, or by a number in its name. What it asks
libxkbcommon about a symbol is in `Keysyms`.
-/

namespace Kbd.Xkb

open Kbd.Keymap

/-- `xkb_keysym_t`. -/
abbrev Keysym := Nat

/-- What libxkbcommon knows of a symbol, whatever the keymap. -/
structure Keysyms where
  /-- `xkb_keysym_to_utf32` -/
  toUtf32 : Keysym → Nat
  /-- `xkb_keysym_get_name`; `none` when it fails or the name does not fit -/
  getName : Keysym → Option (List Char)
  /-- `xkb_keysym_to_lower` -/
  toLower : Keysym → Keysym
  /-- `xkb_keysym_to_upper` -/
  toUpper : Keysym → Keysym

/-! ## The symbols that the code names -/

abbrev keyModeSwitch : Keysym := 0xff7e
abbrev keyIsoNextGroup : Keysym := 0xfe08
abbrev keyIsoPrevGroup : Keysym := 0xfe0a
abbrev keyIsoFirstGroup : Keysym := 0xfe0c
abbrev keyIsoLastGroup : Keysym := 0xfe0e

/-- `semantic_dead_map`. -/
def semanticDeadMap : List (Keysym × String) := [
  (0xfe5a, "dead_kcaron"), (0xfe55, "dead_kbreve"), (0xfe59, "dead_kdoubleacute"),
  (0xfe5c, "dead_kogonek")]

/-- `semantic_modifier_map`. -/
def semanticModifierMap : List (Keysym × String) := [
  (0xffe1, "Shift"), (0xffe2, "Shift"), (0xffe3, "Control"), (0xffe4, "Control"),
  (0xffe9, "Alt"), (0xffea, "Alt"), (0xffe7, "Alt"), (0xffe8, "Alt"), (0xffeb, "Alt"),
  (0xffec, "Alt"), (0xffed, "Alt"), (0xffee, "Alt"), (keyModeSwitch, "CtrlR"),
  (0xff20, "Compose"), (0xff15, "Last_Console"), (0xff61, "Control_backslash"),
  (0xffff, "Remove"), (0xfe02, "Shift"), (0xfe01, "Caps_Lock"), (0xfe03, "AltGr"),
  (0xfe04, "AltGr"), (0xfe05, "AltGr_Lock"), (0xfe11, "AltGr"), (0xfe12, "AltGr"),
  (0xfe13, "AltGr_Lock"), (0xfe06, "ShiftL"), (0xfe07, "ShiftL_Lock"),
  (keyIsoFirstGroup, "ShiftL_Lock"), (0xfe0d, "ShiftL_Lock"), (keyIsoLastGroup, "ShiftL_Lock"),
  (0xfe0f, "ShiftL_Lock"), (keyIsoNextGroup, "ShiftL_Lock"), (0xfe09, "ShiftL_Lock"),
  (keyIsoPrevGroup, "ShiftL_Lock"), (0xfe0b, "ShiftL_Lock")]

/-- `semantic_approximation_map`. -/
def semanticApproximationMap : List (Keysym × String) := [
  (0xfe20, "Meta_Tab"), (0xff15, "Last_Console"), (0xff61, "Control_backslash"),
  (0xffff, "Remove"), (0xff9e, "KP_0"), (0xff9c, "KP_1"), (0xff99, "KP_2"), (0xff9b, "KP_3"),
  (0xff96, "KP_4"), (0xff9d, "KP_5"), (0xff98, "KP_6"), (0xff95, "KP_7"), (0xff97, "KP_8"),
  (0xff9a, "KP_9"), (0xff9f, "KP_Period"), (0xffae, "KP_Comma")]

abbrev keyXf86SwitchVt1 : Keysym := 0x1008fe01
abbrev keyXf86SwitchVt12 : Keysym := 0x1008fe0c

/-! ## `xkeymap_get_code`

A negative result is `none`, here and below. -/

section

variable (ctx : LkCtx)

/-- `xkeymap_validate_code`. -/
def xkeymapValidateCode (ret : Int) : Option Int := if ret ≤ 0 ∨ ret > 65535 then none else some ret

/-- A result that is returned when it is not negative. -/
def nonneg (ret : Int) : Option Int := if ret ≥ 0 then some ret else none

/-- `xkeymap_lookup_builtin_name`. -/
def xkeymapLookupBuiltinName (name : List Char) : Option Int :=
  if ksymtocode ctx name .to8bit = codeForUnknownKsym then none
  else nonneg (ksymtocode ctx name .to8bit)

/-- `xkeymap_lookup_semantic_keysym`. -/
def xkeymapLookupSemanticKeysym (map : List (Keysym × String)) (symbol : Keysym) : Option Int :=
  (map.find? (·.1 = symbol)).bind fun p => xkeymapLookupBuiltinName ctx (bytes p.2)

/-- `xkeymap_get_code_from_semantic_keysym`. -/
def xkeymapGetCodeFromSemanticKeysym (symbol : Keysym) : Option Int :=
  (xkeymapLookupSemanticKeysym ctx semanticDeadMap symbol).or <|
  (xkeymapLookupSemanticKeysym ctx semanticModifierMap symbol).or <|
  (xkeymapLookupSemanticKeysym ctx semanticApproximationMap symbol).or <|
  if keyXf86SwitchVt1 ≤ symbol ∧ symbol ≤ keyXf86SwitchVt12 then
    xkeymapLookupBuiltinName ctx (bytes "Console_" ++ fmtU (symbol - keyXf86SwitchVt1 + 1))
  else none

variable (ks : Keysyms)

/-- The code of a name, as `xkeymap_get_code_from_name` finds it. -/
def codeOfName (symbuf : List Char) : Int :=
  let ret := ksymtocode ctx symbuf .to8bit
  if ret ≥ 0x80 ∧ ktyp ret = ktLatin then
    let unicode := ksymtocode ctx symbuf .toUnicode
    if unicode ≥ 0x1000 ∧ convertCode ctx ret .toUnicode ≠ U unicode then unicode else ret
  else ret

/-- `xkeymap_get_code_from_name`. -/
def xkeymapGetCodeFromName (symbol : Keysym) : Option Int :=
  (ks.getName symbol).bind fun symbuf => xkeymapValidateCode (codeOfName ctx symbuf)

/-- `xkeymap_get_code_from_unicode`. -/
def xkeymapGetCodeFromUnicode (symbol : Keysym) : Option Int :=
  let xkbUnicode := ks.toUtf32 symbol
  if xkbUnicode < 0x20 ∨ xkbUnicode = 0x7f then none else nonneg (U xkbUnicode)

/-- `isxdigit`. -/
def isxdigit (c : Char) : Bool := (digitVal c).isSome

/-- The value of a `long`, as an `int`. -/
def toInt32 (v : Nat) : Int := (v + 2 ^ 31 : Int) % 2 ^ 32 - 2 ^ 31

/-- `parse_hexcode`. -/
def parseHexcode (symname : List Char) : Int :=
  if symname.length ≥ 4 ∧ (bytes "0x").isPrefixOf symname then
    let value := strtol 16 (symname.drop 2)
    if value ≥ 2 ^ 63 then -1 else convertCode ctx (toInt32 value) .toUnicode
  else if symname.length ≥ 5 ∧ symname.head? = some 'U' ∧ ((symname.drop 1).take 4).all isxdigit then
    let value := strtol 16 (symname.drop 1)
    if value ≥ 2 ^ 63 then -1 else convertCode ctx (U (toInt32 value)) .toUnicode
  else 0

/-- `xkeymap_get_code`. -/
def xkeymapGetCode (symbol : Keysym) : Option Int :=
  if ks.toUtf32 symbol ≥ 0xf000 then none
  else
    match xkeymapGetCodeFromSemanticKeysym ctx symbol with
    | some ret => xkeymapValidateCode ret
    | none =>
      match xkeymapGetCodeFromName ctx ks symbol with
      | some ret => xkeymapValidateCode ret
      | none =>
        match xkeymapGetCodeFromUnicode ks symbol with
        | some ret => xkeymapValidateCode ret
        | none => (ks.getName symbol).bind fun symbuf => xkeymapValidateCode (parseHexcode ctx symbuf)

end

/-- `xkeymap_is_capslockable`. -/
def xkeymapIsCapslockable (ks : Keysyms) (sym : Keysym) (code : Int) : Bool :=
  if ks.toLower sym = sym ∧ ks.toUpper sym = sym then false
  else if code < 0x100 then true
  else code ≥ 0x1000 ∧ U code < 0x100

end Kbd.Xkb
