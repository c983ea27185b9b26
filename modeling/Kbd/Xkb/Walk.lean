import Kbd.Keymap.Kmap
import Kbd.Xkb.Code

/-!
# Converting an XKB keymap (`xkbsupport.c`)

`xkeymap_walk` fills the key tables of the console from a compiled XKB keymap. The console has no
groups: which one is locked is held in the lock bits of ShiftL, ShiftR and CtrlL, and CtrlR stands for
a held Mode_switch. libxkbcommon is not modelled: `XkbKeymap` has the queries that the code makes, each
a function of the key, the modifier mask and the locked layout.
-/

namespace Kbd.Xkb

open Kbd.Keymap

/-- A compiled keymap. A key that is not in it has no layouts. -/
structure XkbKeymap where
  /-- `xkb_keymap_num_layouts` -/
  numLayouts : Nat
  /-- `xkb_keymap_min_keycode` -/
  minKeycode : Nat
  /-- `xkb_keymap_max_keycode` -/
  maxKeycode : Nat
  /-- `xkb_keymap_num_layouts_for_key` -/
  numLayoutsForKey : Nat → Nat
  /-- `xkb_keymap_num_levels_for_key` -/
  numLevelsForKey : Nat → Nat → Nat
  /-- `xkb_keymap_key_get_syms_by_level` -/
  symsByLevel : Nat → Nat → Nat → List Keysym
  /-- `xkb_state_key_get_layout`; `none` is `XKB_LAYOUT_INVALID` -/
  keyGetLayout : (key mods group : Nat) → Option Nat
  /-- `xkb_state_key_get_level`; `none` is `XKB_LEVEL_INVALID` -/
  keyGetLevel : (key mods group layout : Nat) → Option Nat
  /-- `xkb_state_key_get_consumed_mods` -/
  keyGetConsumedMods : (key mods group : Nat) → Nat
  /-- `xkb_state_key_get_syms` -/
  keyGetSyms : (key mods group : Nat) → List Keysym
  /-- `xkb_state_key_get_utf32` -/
  keyGetUtf32 : (key mods group : Nat) → Nat
  layout_lt : ∀ key mods group layout, keyGetLayout key mods group = some layout →
    layout < numLayoutsForKey key
  level_lt : ∀ key mods group layout level, layout < numLayoutsForKey key →
    keyGetLevel key mods group layout = some level → level < numLevelsForKey key layout
  outside : ∀ key, key < minKeycode ∨ maxKeycode < key → numLayoutsForKey key = 0

/-- `enum xkeymap_modifier_mask`. -/
inductive ModifierMask where
  | shift
  | control
  | alt
  | level3
  deriving DecidableEq, Repr

/-- `struct xkeymap`, without what composing symbols needs. -/
structure Xkeymap where
  keymap : XkbKeymap
  syms : Keysyms
  modifierMasks : ModifierMask → Nat

/-- The fields `mask` and `kernel_bit` of `xkeymap_modifier_rules`. -/
def xkeymapModifierRules : List (ModifierMask × Nat) :=
  [(.shift, mShift), (.control, mCtrl), (.alt, mAlt), (.alt, mAlt), (.level3, mAltgr)]

abbrev nrLayouts : Nat := 4
abbrev evdevOffset : Nat := 8

/-- `layout_switch`. -/
def layoutSwitch : List Nat := [0, mShiftl, mShiftr, mShiftl ||| mShiftr]

/-- `layouts`. -/
def layouts : List (List Nat) := [[0, 0, 0, 0], [0, 1, 1, 0], [0, 1, 2, 0], [0, 1, 3, 2]]

/-- `layouts[num_layouts - 1][group]`. -/
def layoutOf (numLayouts group : Nat) : Nat := (layouts.getD (numLayouts - 1) []).getD group 0

abbrev kShiftllock : Int := K ktLock 4
abbrev kShiftrlock : Int := K ktLock 5
abbrev kCtrlllock : Int := K ktLock 6
abbrev kCtrlr : Int := K ktShift 7

/-- `xkeymap_get_symbol`. -/
def xkeymapGetSymbol (keymap : XkbKeymap) (keycode layout level : Nat) : Option Keysym :=
  (keymap.symsByLevel keycode layout level).head?

/-- The symbols that `xkeymap_group_features` sees, level by level. -/
def levelSyms (keymap : XkbKeymap) (key : Nat) : List Keysym :=
  (List.range (keymap.numLayoutsForKey key)).flatMap fun layout =>
    (List.range (keymap.numLevelsForKey key layout)).filterMap fun level =>
      (keymap.symsByLevel key layout level).head?

/-- `XKEYMAP_GROUP_SWITCH` in the result of `xkeymap_group_features`. -/
def groupSwitchFeature (keymap : XkbKeymap) (key : Nat) : Bool :=
  (levelSyms keymap key).any (· = keyModeSwitch)

/-- `XKEYMAP_GROUP_SELECT` in the result of `xkeymap_group_features`. -/
def groupSelectFeature (keymap : XkbKeymap) (key : Nat) : Bool :=
  (levelSyms keymap key).any fun sym =>
    sym = keyIsoFirstGroup || sym = keyIsoLastGroup || sym = keyIsoPrevGroup

/-- `xkeymap_select_group`. -/
def xkeymapSelectGroup (numLayouts group target : Nat) : Int :=
  let actions := [kHole, kShiftllock, kShiftrlock, kCtrlllock]
  ((actions.zipIdx.find? fun a => layoutOf numLayouts (group ^^^ a.2) = target).map Prod.fst).getD
    kHole

section

variable (x : Xkeymap)

/-- `xkeymap_apply_modifiers`, where `mask` and `selected` are the state. -/
def xkeymapApplyModifiers (key mask selected mods : Nat) (code : Int) : Int :=
  let consumed := x.keymap.keyGetConsumedMods key mask selected
  let syms := x.keymap.keyGetSyms key mask selected
  let unicode := x.keymap.keyGetUtf32 key mask selected
  let code :=
    if mods &&& mCtrl ≠ 0 ∧ consumed &&& x.modifierMasks .control = 0 ∧
        syms.length = 1 ∧ (syms.all fun sym => x.syms.toUtf32 sym ≠ 0) ∧
        (code ≥ 0x1000 ∨ ktyp code = ktLatin ∨ ktyp code = ktLetter) ∧ unicode < 0x80 then
      K ktLatin unicode
    else code
  if mods &&& mAlt ≠ 0 ∧ consumed &&& x.modifierMasks .alt = 0 then
    if code ≥ 0x1000 ∧ U code < 0x80 then K ktMeta (U code)
    else if (ktyp code = ktLatin ∨ ktyp code = ktLetter) ∧ kval code < 0x80 then
      K ktMeta (kval code)
    else code
  else code

/-- The keys that are walked: those of the keymap that the kernel has a number for. -/
def keycodes : List Nat :=
  let min := max x.keymap.minKeycode evdevOffset
  let max := Nat.min x.keymap.maxKeycode (nrKeys + evdevOffset - 1)
  List.range' min (max + 1 - min)

/-- `has_group_switch`. -/
def hasGroupSwitch : Bool := (keycodes x).any (groupSwitchFeature x.keymap)

/-- `group_states`. -/
def groupStates : Nat :=
  if x.keymap.numLayouts > 2 ∧ (keycodes x).any (groupSelectFeature x.keymap) then nrLayouts * 2
  else nrLayouts

/-- `masks[mods]`. -/
def masks (mods : Nat) : Nat :=
  xkeymapModifierRules.foldl (fun mask rule =>
    if mods &&& rule.2 ≠ 0 then mask ||| x.modifierMasks rule.1 else mask) 0

/-- `held`. -/
def slotHeld (slot : Nat) : Bool := slot ≥ groupStates x

/-- `group`. -/
def slotGroup (slot : Nat) : Nat :=
  let base := slot % groupStates x
  (base % nrLayouts) ^^^ (if base ≥ nrLayouts then 3 else 0)

/-- `selected`. -/
def slotSelected (slot : Nat) : Nat :=
  (layoutOf x.keymap.numLayouts (slotGroup x slot) + (slotHeld x slot).toNat) % x.keymap.numLayouts

/-- `table`. -/
def slotTable (slot mods : Nat) : Nat :=
  let base := slot % groupStates x
  let groupTable := layoutSwitch.getD (base % nrLayouts) 0 |||
    (if base ≥ nrLayouts then mCtrll else 0)
  groupTable ||| mods ||| (if slotHeld x slot then mCtrlr else 0)

/-- The symbol of a key in the state that `mask` and `selected` are. -/
def stateSymbol (key mask selected : Nat) : Option Keysym := do
  let layout ← x.keymap.keyGetLayout key mask selected
  let level ← x.keymap.keyGetLevel key mask selected layout
  xkeymapGetSymbol x.keymap key layout level

/-- The code of a symbol that does not change the group. -/
def symbolCode (ctx : LkCtx) (key mask selected mods : Nat) (sym : Keysym) : Option Int :=
  (xkeymapGetCode ctx x.syms sym).map fun code =>
    let unicode (name : String) := ksymtocode ctx (bytes name) .toUnicode
    let code := if code = unicode "ShiftL" ∨ code = unicode "ShiftR" then unicode "Shift" else code
    let code :=
      if code = unicode "ShiftL_Lock" ∨ code = unicode "ShiftR_Lock" then unicode "Shift_Lock"
      else code
    let code := if xkeymapIsCapslockable x.syms sym code then addCapslock ctx code else code
    xkeymapApplyModifiers x key mask selected mods code

/-- The code that `xkeymap_walk` binds in one round of its loops; `none` when it binds none. -/
def cellCode (ctx : LkCtx) (key slot mods : Nat) : Option Int :=
  let numLayouts := x.keymap.numLayouts
  let group := slotGroup x slot
  let selected := slotSelected x slot
  if slotHeld x slot && groupSwitchFeature x.keymap key then some kCtrlr
  else
    (stateSymbol x key (masks x mods) selected).bind fun sym =>
      if sym = keyIsoNextGroup then
        some (ksymtocode ctx
          (bytes (if group = 0 ∨ group = 3 then "ShiftL_Lock" else "ShiftR_Lock")) .toUnicode)
      else if sym = keyIsoPrevGroup then
        some (xkeymapSelectGroup numLayouts group
          ((layoutOf numLayouts group + numLayouts - 1) % numLayouts))
      else if sym = keyIsoFirstGroup ∨ sym = keyIsoLastGroup then
        some (xkeymapSelectGroup numLayouts group
          (if sym = keyIsoLastGroup then 1 % numLayouts else 0))
      else symbolCode x ctx key (masks x mods) selected mods sym

/-- The indices of the three loops, in order. -/
def walkCells : List (Nat × Nat × Nat) :=
  (keycodes x).flatMap fun key =>
    (List.range (groupStates x * if hasGroupSwitch x then 2 else 1)).flatMap fun slot =>
      (List.range 16).map fun mods => (key, slot, mods)

/-- The end of a round: `lk_add_key` unless there is nothing to bind. -/
def bindCode (table index : Nat) : Option Int → Lk Unit
  | none => pure ()
  | some code => lkAddKey table index code

/-- One round of the loops. -/
def walkCell : Nat × Nat × Nat → Lk Unit
  | (key, slot, mods) => do
    let ctx ← get
    bindCode (slotTable x slot mods) (key - evdevOffset) (cellCode x ctx key slot mods)

/-- `xkeymap_walk`; the first component tells whether it returns 0. -/
def xkeymapWalk (ctx : LkCtx) : Bool × LkCtx :=
  if x.keymap.numLayouts = 0 ∨ x.keymap.numLayouts > nrLayouts then (false, ctx)
  else
    match (forM (walkCells x) (walkCell x)).run
        { ctx with keywords := { ctx.keywords with altIsMeta := false } } with
    | .ok _ ctx' => (true, { ctx' with keywords := ctx.keywords })
    | .error _ ctx' => (false, { ctx' with keywords := ctx.keywords })

end

end Kbd.Xkb
