import Kbd.Keymap.Kmap
import Kbd.Keymap.Ksyms

/-!
# Keymap statements (`parser.y`)

A keymap file is a sequence of lines. `Stmt` is what the grammar makes of a line, with the values
its tokens carry, and `execStmt` runs the actions of the line's rules in the order in which they
are reduced.
-/

namespace Kbd.Keymap

/-- The modifier tokens. -/
inductive Modifier where
  | shift
  | control
  | alt
  | altgr
  | shiftl
  | shiftr
  | ctrll
  | ctrlr
  | capsshift
  deriving DecidableEq, Repr

/-- The bit of `ctx->mod` that a modifier sets. -/
def Modifier.mask : Modifier → Nat
  | .shift => mShift
  | .control => mCtrl
  | .alt => mAlt
  | .altgr => mAltgr
  | .shiftl => mShiftl
  | .shiftr => mShiftr
  | .ctrll => mCtrll
  | .ctrlr => mCtrlr
  | .capsshift => mCapsshift

/-- `ctx->mod` after the modifiers of a line. -/
def modMask (mods : List Modifier) : Nat := mods.foldl (fun m q => m ||| q.mask) 0

/-- `range0`: a map number, or two with a dash between them. -/
inductive Range where
  | single (n : Int)
  | dash (lo hi : Int)
  deriving DecidableEq, Repr

inductive Stmt where
  | charset (name : List Char)
  | altIsMeta
  | stringsAsUsual
  | composeAsUsual (charset : Option (List Char))
  | keymaps (ranges : List Range)
  | keycode (n : Int) (values : List Int)
  | modified (mods : List Modifier) (n value : Int)
  | plain (n value : Int)
  | string (sym : Int) (value : List Char)
  | compose (diacr base result : Int)
  deriving DecidableEq, Repr

/-! ## Function strings and compose definitions -/

/-- `lk_add_func`; `strlcpy` has cut the string to the 512 bytes of `kb_string`. -/
def lkAddFunc (kbFunc : Nat) (kbString : List Char) : Lk Unit :=
  modify fun ctx => { ctx with funcTable := ctx.funcTable.set kbFunc (some (kbString.take 511)) }

/-- The conversion of an `int` to `unsigned int`. -/
def toUnsigned (n : Int) : Nat := (n % 2 ^ 32).toNat

/-- `lk_append_compose`, on the values as `int`. -/
def lkAppendCompose (diacr base result : Int) : Lk Unit :=
  modify fun ctx =>
    let direction := if ctx.flags.preferUnicode then Direction.toUnicode else .to8bit
    let conv code := toUnsigned (convertCode ctx code direction)
    { ctx with accentTable := ctx.accentTable.append (some ⟨conv diacr, conv base, conv result⟩) }

/-- `stringvalues` of `strings_as_usual`, without the empty places at its end. -/
def stringvalues : List String := [
  "\x1b[[A", "\x1b[[B", "\x1b[[C", "\x1b[[D", "\x1b[[E", "\x1b[17~", "\x1b[18~", "\x1b[19~",
  "\x1b[20~", "\x1b[21~", "\x1b[23~", "\x1b[24~", "\x1b[25~", "\x1b[26~", "\x1b[28~", "\x1b[29~",
  "\x1b[31~", "\x1b[32~", "\x1b[33~", "\x1b[34~", "\x1b[1~", "\x1b[2~", "\x1b[3~", "\x1b[4~",
  "\x1b[5~", "\x1b[6~"]

def stringsAsUsual : Lk Unit := do
  stringvalues.zipIdx.forM fun (s, i) => lkAddFunc i (bytes s)
  lkAddFunc 255 (bytes "\x1b[Z")

/-- `def_latin1_composes`. -/
def defLatin1Composes : List (Char × Char × Nat) := [
  ('\x60', 'A', 0xc0), ('\x60', 'a', 0xe0), ('\x27', 'A', 0xc1), ('\x27', 'a', 0xe1),
  ('^', 'A', 0xc2), ('^', 'a', 0xe2), ('~', 'A', 0xc3), ('~', 'a', 0xe3), ('\x22', 'A', 0xc4),
  ('\x22', 'a', 0xe4), ('O', 'A', 0xc5), ('o', 'a', 0xe5), ('0', 'A', 0xc5), ('0', 'a', 0xe5),
  ('A', 'A', 0xc5), ('a', 'a', 0xe5), ('A', 'E', 0xc6), ('a', 'e', 0xe6), (',', 'C', 0xc7),
  (',', 'c', 0xe7), ('\x60', 'E', 0xc8), ('\x60', 'e', 0xe8), ('\x27', 'E', 0xc9),
  ('\x27', 'e', 0xe9), ('^', 'E', 0xca), ('^', 'e', 0xea), ('\x22', 'E', 0xcb),
  ('\x22', 'e', 0xeb), ('\x60', 'I', 0xcc), ('\x60', 'i', 0xec), ('\x27', 'I', 0xcd),
  ('\x27', 'i', 0xed), ('^', 'I', 0xce), ('^', 'i', 0xee), ('\x22', 'I', 0xcf),
  ('\x22', 'i', 0xef), ('-', 'D', 0xd0), ('-', 'd', 0xf0), ('~', 'N', 0xd1), ('~', 'n', 0xf1),
  ('\x60', 'O', 0xd2), ('\x60', 'o', 0xf2), ('\x27', 'O', 0xd3), ('\x27', 'o', 0xf3),
  ('^', 'O', 0xd4), ('^', 'o', 0xf4), ('~', 'O', 0xd5), ('~', 'o', 0xf5), ('\x22', 'O', 0xd6),
  ('\x22', 'o', 0xf6), ('/', 'O', 0xd8), ('/', 'o', 0xf8), ('\x60', 'U', 0xd9),
  ('\x60', 'u', 0xf9), ('\x27', 'U', 0xda), ('\x27', 'u', 0xfa), ('^', 'U', 0xdb),
  ('^', 'u', 0xfb), ('\x22', 'U', 0xdc), ('\x22', 'u', 0xfc), ('\x27', 'Y', 0xdd),
  ('\x27', 'y', 0xfd), ('T', 'H', 0xde), ('t', 'h', 0xfe), ('s', 's', 0xdf), ('\x22', 'y', 0xff),
  ('s', 'z', 0xdf), ('i', 'j', 0xff)]

/-- The check of `compose_as_usual` on its character set. -/
def checkCompose : Option (List Char) → Lk Unit
  | some name => if strEq name "iso-8859-1" then pure () else throw (.unknownCompose name)
  | none => pure ()

def composeAsUsual (charset : Option (List Char)) : Lk Unit := do
  checkCompose charset
  defLatin1Composes.forM fun (d, b, r) => lkAppendCompose d.toNat b.toNat r

/-! ## The actions -/

/-- The action of `charsetline`. -/
def charsetline (name : List Char) : Lk Unit := do
  let ctx ← get
  match lkSetCharset ctx name with
  | none => throw (.unknownCharset name)
  | some ctx =>
    -- the first 256 code points of Unicode are those of ISO 8859-1
    let uni := ctx.flags.preferUnicode && !strcaseEq name "iso-8859-1"
    set { ctx with
      keywords := { ctx.keywords with charset := true }
      flags := { ctx.flags with preferUnicode := uni } }

/-- The actions of `range0`. -/
def range0 : Range → Lk Unit
  | .single n => do
    if n < 0 || n ≥ maxNrKeymaps then
      throw (.numberOutOfBounds n)
    lkAddMap n.toNat
  | .dash lo hi => do
    if lo < 0 || lo ≥ maxNrKeymaps || hi < 0 || hi ≥ maxNrKeymaps || lo > hi then
      throw (.rangeOutOfBounds lo hi)
    (List.range' lo.toNat (hi.toNat + 1 - lo.toNat)).forM lkAddMap

/-- The action of `keymapline`. -/
def keymapline : Lk Unit :=
  modify fun ctx => { ctx with keywords := { ctx.keywords with keymaps := true } }

/-- The action of `strline`. -/
def strline (sym : Int) (value : List Char) : Lk Unit := do
  if ktyp sym ≠ ktFn then
    throw (.notFunctionKey sym)
  lkAddFunc (kval sym).toNat value

/-- Kill the old definitions of `key` in every map. -/
def killOldDefs (key : Nat) : Lk Unit := do
  (List.range (← get).keymap.total).forM fun j => do
    if !lkMapExists (← get) j then return ()
    lkDelKey j key

/-- Whether the `i`th map gets a value: a line with one value only writes the first map. -/
def fillsMap (keyLine : List Int) (i : Nat) : Bool := keyLine.length ≠ 1 || i = 0

/-- The loop of `singleline` over the maps of a `keymaps` line, with the number `i` of maps seen so
far. -/
def fillMaps (key : Nat) (keyLine : List Int) : List Nat → Nat → Lk Nat
  | [], i => pure i
  | j :: js, i => do
    if !lkMapExists (← get) j then fillMaps key keyLine js i
    else
      if fillsMap keyLine i then
        lkAddKey j key (keyLine.getD i kHole)
      fillMaps key keyLine js (i + 1)

/-- The values of a line go to the maps of the `keymaps` line. -/
def bindMaps (key : Nat) (keyLine : List Int) : Lk Unit := do
  let i ← fillMaps key keyLine (List.range (← get).keymap.total) 0
  if i < keyLine.length then
    throw (.tooManyEntries keyLine.length)

/-- The values of a line go to the maps 0, 1 and so on. -/
def bindColumns (key : Nat) (keyLine : List Int) : Lk Unit :=
  keyLine.zipIdx.forM fun (val, i) => lkAddKey i key val

/-- A line with one value marks its key for `lk_add_constants`. -/
def markConstant (key : Nat) (keyLine : List Int) : Lk Unit := do
  if keyLine.length = 1 then
    modify fun ctx => { ctx with keyConstant := ctx.keyConstant.set key true }
    killOldDefs key

/-- The action of `singleline` for a complete line. -/
def singleline (n : Int) (keyLine : List Int) : Lk Unit := do
  if n < 0 || n ≥ nrKeys then return ()
  markConstant n.toNat keyLine
  if (← get).keywords.keymaps then bindMaps n.toNat keyLine
  else bindColumns n.toNat keyLine

/-- The action of `singleline` for a line with modifiers, or with `plain`. -/
def modifierline (mod : Nat) (n value : Int) : Lk Unit := do
  if n < 0 || n ≥ nrKeys then return ()
  lkAddKey mod n.toNat value

/-- The actions of `rvalue1`: a line has room for one value for each map. -/
def rvalue1 (values : List Int) : Lk Unit := do
  if values.length > maxNrKeymaps then
    throw (.tooManyEntries (maxNrKeymaps + 1))

def execStmt : Stmt → Lk Unit
  | .charset name => charsetline name
  | .altIsMeta =>
    modify fun ctx => { ctx with keywords := { ctx.keywords with altIsMeta := true } }
  | .stringsAsUsual => do
    stringsAsUsual
    modify fun ctx => { ctx with keywords := { ctx.keywords with strAsUsual := true } }
  | .composeAsUsual charset => composeAsUsual charset
  | .keymaps ranges => do
    ranges.forM range0
    keymapline
  | .keycode n values => do
    rvalue1 values
    singleline n values
  | .modified mods n value => modifierline (modMask mods) n value
  | .plain n value => modifierline 0 n value
  | .string sym value => strline sym value
  | .compose diacr base result => lkAppendCompose diacr base result

/-- A whole keymap. -/
def runStmts (stmts : List Stmt) : Lk Unit := stmts.forM execStmt

end Kbd.Keymap
