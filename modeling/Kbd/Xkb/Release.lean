import Kbd.Keymap.Kmap

/-!
# Releasing a modifier (`xkbsupport.c`)

The console looks up the release of a key under the modifiers that are still active, so a pure
modifier key has to be bound in every table that there is.
`xkeymap_fill_modifier_release_bindings` runs after the walk and fills in what is missing.
-/

namespace Kbd.Xkb

open Kbd.Keymap

/-- The locals `modifier_code` and `seen`. -/
structure Modifier where
  modifierCode : Int
  seen : Bool
  deriving DecidableEq, Repr

/-- The loop over the tables that looks for the one code of a key. -/
def modifierLoop (ctx : LkCtx) (keycode : Nat) : List Nat → Modifier → Modifier
  | [], m => m
  | table :: tables, m =>
    if !lkMapExists ctx table || !lkKeyExists ctx table keycode then
      modifierLoop ctx keycode tables m
    else
      let code := lkGetKey ctx table keycode
      if code = kHole then modifierLoop ctx keycode tables m
      else if !m.seen then modifierLoop ctx keycode tables ⟨code, true⟩
      else if code ≠ m.modifierCode then { m with seen := false }
      else modifierLoop ctx keycode tables m

/-- One round of the loop over the tables that writes. -/
def fillTable (keycode : Nat) (modifierCode : Int) (table : Nat) : Lk Unit := do
  let ctx ← get
  if !lkMapExists ctx table || lkKeyExists ctx table keycode then return ()
  lkAddKey table keycode modifierCode

/-- One round of the loop over the keys. -/
def fillKeycode (keycode : Nat) : Lk Unit := do
  let ctx ← get
  let m := modifierLoop ctx keycode (List.range maxNrKeymaps) ⟨kHole, false⟩
  if !m.seen || ktyp m.modifierCode ≠ ktShift then return ()
  (List.range maxNrKeymaps).forM (fillTable keycode m.modifierCode)

/-- `xkeymap_fill_modifier_release_bindings`. -/
def xkeymapFillModifierReleaseBindings : Lk Unit :=
  (List.range nrKeys).forM fillKeycode

end Kbd.Xkb
