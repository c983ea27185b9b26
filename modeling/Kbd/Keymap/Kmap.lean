import Kbd.Keymap.Context

/-!
# Key bindings (`kmap.c`)

Maps, keys and the single-value definitions that `lk_add_constants` spreads over the maps once all
of them are known.
-/

namespace Kbd.Keymap

/-- `lk_map_exists`. -/
def lkMapExists (ctx : LkCtx) (kTable : Nat) : Bool := (ctx.keymap.get kTable).isSome

/-- `lk_key_exists`. -/
def lkKeyExists (ctx : LkCtx) (kTable kIndex : Nat) : Bool :=
  match ctx.keymap.get kTable with
  | none => false
  | some map => map.get kIndex ≠ 0

/-- `lk_get_key`; -1 when the map is missing. -/
def lkGetKey (ctx : LkCtx) (kTable kIndex : Nat) : Int :=
  match ctx.keymap.get kTable with
  | none => -1
  | some map => if map.get kIndex = 0 then kHole else map.get kIndex - 1

/-- `lk_add_map`. -/
def lkAddMap (kTable : Nat) : Lk Unit :=
  modify fun ctx =>
    if lkMapExists ctx kTable then ctx
    else { ctx with keymap := ctx.keymap.set kTable (some .init) }

/-- `lk_del_key`. -/
def lkDelKey (kTable kIndex : Nat) : Lk Unit := do
  let ctx ← get
  match ctx.keymap.get kTable with
  | none => throw (.unableToGetKeymap kTable)
  | some map =>
    if map.isSet kIndex then
      match map.unset kIndex with
      | none => throw (.unableToUnsetKey kIndex kTable)
      | some map => set { ctx with keymap := ctx.keymap.set kTable (some map) }

/-- Write a cell of an existing map: the `lk_array_set` on the map's own array. -/
def LkCtx.setCell (ctx : LkCtx) (kTable kIndex : Nat) (code : Int) : LkCtx :=
  match ctx.keymap.get kTable with
  | none => ctx
  | some map => { ctx with keymap := ctx.keymap.set kTable (some (map.set kIndex code)) }

/-- The start of `lk_add_key`: get the map, creating it unless a `keymaps` line forbids that. -/
def getOrAddMap (kTable kIndex : Nat) : Lk Unit := do
  let ctx ← get
  if !lkMapExists ctx kTable then
    if ctx.keywords.keymaps then
      throw (.violatesKeymaps kTable kIndex)
    lkAddMap kTable

/-- `lk_add_key` with a bound on its recursion. -/
def lkAddKeyRec : Nat → Nat → Nat → Int → Lk Unit
  | 0, _, _, _ => throw .recursion
  | depth + 1, kTable, kIndex, keycode => do
    let code := keycode + 1
    if keycode = codeForUnknownKsym then
      throw (.badKeycode keycode)
    getOrAddMap kTable kIndex
    let ctx ← get
    if ctx.keywords.altIsMeta && keycode = kHole && lkKeyExists ctx kTable kIndex then
      return ()
    set (ctx.setCell kTable kIndex code)
    let ctx ← get
    if ctx.keywords.altIsMeta then
      let alttable := kTable ||| mAlt
      let type := ktyp keycode
      let val := kval keycode
      if alttable ≠ kTable && lkMapExists ctx alttable && !lkKeyExists ctx alttable kIndex &&
          (type = ktLatin || type = ktLetter) && val < 128 then
        lkAddKeyRec depth alttable kIndex (K ktMeta val)

/-- `lk_add_key`; the recursive call is for a table that has the Alt bit, and makes none. -/
def lkAddKey (kTable kIndex : Nat) (keycode : Int) : Lk Unit :=
  lkAddKeyRec 2 kTable kIndex keycode

/-- `val` is an ASCII letter. -/
def isAsciiLetter (val : Int) : Bool :=
  (97 ≤ val && val ≤ 122) || (65 ≤ val && val ≤ 90)

/-- The array `defs` that `do_constant_key` and `lk_dump_keys` both fill. -/
def letterDefs (val : Int) : List Int :=
  let d0 := K ktLetter val
  let d1 := K ktLetter (Int.xor val 32)
  let ctl := K ktLatin (Int.ldiff val 96)
  let defs := [d0, d1, d0, d1, ctl, ctl, ctl, ctl]
  defs ++ defs.map fun d => K ktMeta (kval d)

/-- `do_constant_key`. No map is created in its loops, so `total` is read once. -/
def doConstantKey (i : Nat) (key : Int) : Lk Unit := do
  let typ := ktyp key
  let val := kval key
  let total := (← get).keymap.total
  if (typ = ktLatin || typ = ktLetter) && isAsciiLetter val then
    let defs := letterDefs val
    (List.range total).forM fun j => do
      let ctx ← get
      if !lkMapExists ctx j then return ()
      if j > 0 && lkKeyExists ctx j i then return ()
      lkAddKey j i (defs.getD (j % 16) 0)
  else
    (List.range' 1 (total - 1)).forM fun j => do
      let ctx ← get
      if !lkMapExists ctx j then return ()
      if lkKeyExists ctx j i then return ()
      lkAddKey j i key

/-- The map `lk_add_constants` reads the single values from. -/
def constantMap (ctx : LkCtx) : Nat :=
  if ctx.keywords.keymaps then
    ((List.range ctx.keymap.total).find? (lkMapExists ctx ·)).getD ctx.keymap.total
  else 0

/-- One round of the loop of `lk_add_constants`, for key `i`. -/
def addConstant (r0 i : Nat) : Lk Unit := do
  let ctx ← get
  if !ctx.keyConstant.get i then return ()
  if !lkMapExists ctx r0 then
    throw .impossible
  doConstantKey i (lkGetKey ctx r0 i)

/-- `lk_add_constants`. -/
def lkAddConstants : Lk Unit := do
  let ctx ← get
  (List.range ctx.keyConstant.total).forM (addConstant (constantMap ctx))

end Kbd.Keymap
