import Kbd.Keymap.Kmap
import Kbd.Keymap.Ksyms
import Kbd.Keymap.Stmt

/-!
# Writing a keymap (`dump.c`)

The functions return the text that they print to `fd`. `lk_dump_keys` works on two arrays with
`MAX_NR_KEYMAPS` elements and does not check its indices; here every access is checked, and the
result is `none` if one is out of range.
-/

namespace Kbd.Keymap

/-- `lk_table_shape`. -/
inductive TableShape where
  | default
  | fullTable
  | separateLines
  | untilHole
  deriving DecidableEq, Repr

/-- `MIN_KEYCODE`: on some machines a keyboard may generate keycode zero. -/
def minKeycode (keycodeZero : Bool) : Nat := if keycodeZero then 0 else 1

/-- The keys of the loops of `lk_dump_keys`. -/
def dumpedKeys (keycodeZero : Bool) : List Nat :=
  List.range' (minKeycode keycodeZero) (nrKeys - minKeycode keycodeZero)

/-! ## The `keymaps` line -/

/-- The variables of `lk_dump_keymaps`: the current range is `n - 1` to `m - 1`, `sep` is whether a
range has been printed and `kw` whether the keyword has. -/
structure RangeState where
  n : Nat := 0
  m : Nat := 0
  sep : Bool := false
  kw : Bool := false
  out : List Char := []
  deriving DecidableEq, Repr

/-- Print the current range. -/
def RangeState.print (st : RangeState) : RangeState :=
  let sep := if st.sep then ',' else ' '
  let range :=
    if st.n - 1 = st.m - 1 then fmtU (st.n - 1)
    else fmtU (st.n - 1) ++ '-' :: fmtU (st.m - 1)
  { st with
    kw := true
    out := st.out ++ (if st.kw then [] else bytes "keymaps") ++ sep :: range }

/-- One round of the loop. -/
def RangeState.step (ctx : LkCtx) (st : RangeState) (i : Nat) : RangeState :=
  if !lkMapExists ctx i then
    if st.m = 0 then st
    else { st.print with n := 0, m := 0, sep := true }
  else { st with n := if st.n = 0 then i + 1 else st.n, m := i + 1 }

/-- `lk_dump_keymaps`. -/
def lkDumpKeymaps (ctx : LkCtx) : List Char :=
  let st := (List.range ctx.keymap.total).foldl (RangeState.step ctx) {}
  let st := if st.m ≠ 0 then st.print else st
  st.out ++ (if st.kw then ['\n'] else [])

/-! ## Modifiers and codes -/

/-- `modifiers`. -/
def modifiers : List (String × Nat) :=
  [("shift", 0), ("altgr", 1), ("control", 2), ("alt", 3), ("shiftl", 4), ("shiftr", 5),
    ("ctrll", 6), ("ctrlr", 7), ("capsshift", 8)]

def printMod (x : Nat) : List Char :=
  if x ≠ 0 then
    modifiers.flatMap fun (name, bit) => if x.testBit bit then bytes name ++ ['\t'] else []
  else bytes "plain\t"

/-- How codes are printed: the parameter `numeric`, and whether `fd` is the standard output. A dead2
symbol is printed there, whatever `fd` is. -/
structure PrintStyle where
  numeric : Bool := false
  stdout : Bool := false
  deriving DecidableEq, Repr

/-- The name that `print_keysym` finds in the table of type `t`; an empty name is no name. -/
def symName (t v : Int) : Option String :=
  if v < getSymSize t then (getSym t v).filter (· ≠ "") else none

/-- What `print_keysym` prints after the blank and the plus sign, where the type `t` of the code is
one of the tables'. -/
def keysymText (ctx : LkCtx) (style : PrintStyle) (code t : Int) (plus : Bool) : List Char :=
  let v := kval code
  let width := if plus then 15 else 16
  let number := bytes "0x" ++ fmt04X (toUnsigned code) ++ List.replicate 9 ' ' ++
    (if plus then [] else [' '])
  if style.numeric then number
  else
    match if t = ktLatin then codetoksym ctx code else none with
    | some p => fmtS width (bytes p)
    | none =>
      match symName t v with
      | some p => fmtS width (bytes p)
      | none =>
        match if t = ktMeta && v < 128 then symName ktLatin v else none with
        | some p => bytes "Meta_" ++ fmtS 11 (bytes p)
        | none =>
          match if t = ktDead2 && v < 256 then symName ktLatin v else none with
          | some p => if style.stdout then bytes "dead2_" ++ fmtS 10 (bytes p) else []
          | none => number

/-- `print_keysym`. -/
def printKeysym (ctx : LkCtx) (style : PrintStyle) (code : Int) : List Char :=
  let t := ktyp code
  ' ' ::
    if t ≥ symsSize then
      match if style.numeric then none else codetoksym ctx code with
      | some p => fmtS 16 (bytes p)
      | none => bytes "U+" ++ fmt04X (toUnsigned (U code)) ++ List.replicate 10 ' '
    else if t = ktLetter then '+' :: keysymText ctx style code ktLatin true
    else keysymText ctx style code t false

/-- `keycode %3u =`. -/
def keycodeText (i : Nat) : List Char := bytes "keycode " ++ fmt3U i ++ bytes " ="

/-- `print_bind`. -/
def printBind (ctx : LkCtx) (style : PrintStyle) (bufj : Int) (i j : Nat) : List Char :=
  (if j ≠ 0 then ['\t'] else []) ++ printMod j ++ keycodeText i ++ printKeysym ctx style bufj ++
    ['\n']

/-! ## The arrays of `lk_dump_keys` -/

/-- An array of `MAX_NR_KEYMAPS` integers. -/
abbrev IntArray := Nat → Int

def load (buf : IntArray) (j : Nat) : Option Int :=
  if j < maxNrKeymaps then some (buf j) else none

def store (buf : IntArray) (j : Nat) (v : Int) : Option IntArray :=
  if j < maxNrKeymaps then some (Function.update buf j v) else none

/-- Print something for each element of a list. -/
def printEach {α : Type} (l : List α) (f : α → Option (List Char)) : Option (List Char) :=
  (l.mapM f).map List.flatten

/-- One round of the loop that gets the bindings of key `i` and looks for one that is no hole. -/
def fillStep (ctx : LkCtx) (i : Nat) (s : IntArray × Bool) (j : Nat) : Option (IntArray × Bool) := do
  let buf ← store s.1 j kHole
  let buf ← if lkMapExists ctx j then store buf j (lkGetKey ctx j i) else pure buf
  let v ← load buf j
  pure (buf, s.2 && v = kHole)

/-- `buf` and `all_holes`. -/
def fillBuf (ctx : LkCtx) (i : Nat) : Option (IntArray × Bool) :=
  (List.range ctx.keymap.total).foldlM (fillStep ctx i) (fun _ => 0, true)

/-- Whether map `j` has the binding that a letter gets. -/
def asExpected (ctx : LkCtx) (val : Int) (buf : IntArray) (j : Nat) : Option Bool :=
  if lkMapExists ctx j then do
    let v ← load buf j
    pure !((j ≥ 16 && v ≠ kHole) || (j < 16 && v ≠ (letterDefs val).getD j 0))
  else pure true

/-- The loop that leaves for `unexpected` at the first other binding. -/
def allAsExpected (ctx : LkCtx) (val : Int) (buf : IntArray) : List Nat → Option Bool
  | [] => pure true
  | j :: js => do
    if ← asExpected ctx val buf j then allAsExpected ctx val buf js else pure false

/-- `isasexpected`, for the binding `b0` of map 0. -/
def isAsExpected (ctx : LkCtx) (b0 : Int) (buf : IntArray) : Option Bool :=
  let typ := ktyp b0
  let val := kval b0
  let isletter := (typ = ktLatin || typ = ktLetter) && isAsciiLetter val
  if isletter then allAsExpected ctx val buf (List.range ctx.keymap.total) else pure false

/-- Wipe out the Meta binding in map `j | M_ALT` that map `j` predicts. -/
def zapMeta (ctx : LkCtx) (arrays : IntArray × IntArray) (j : Nat) :
    Option (IntArray × IntArray) := do
  let (buf, zapped) := arrays
  let ja := j ||| mAlt
  if j ≠ ja && lkMapExists ctx ja then
    let v ← load buf j
    if (ktyp v = ktLatin || ktyp v = ktLetter) && kval v < 128 then
      let _ ← load buf ja
      let buf ← store buf ja kHole
      let zapped ← store zapped ja 1
      pure (buf, zapped)
    else pure arrays
  else pure arrays

/-- The arrays `buf` and `zapped` for a line. -/
def zapAll (ctx : LkCtx) (altIsMeta : Bool) (buf : IntArray) : Option (IntArray × IntArray) := do
  let js := List.range ctx.keymap.total
  let zapped ← js.foldlM (fun zapped j => store zapped j 0) (fun _ => 0)
  if altIsMeta then js.foldlM (zapMeta ctx) (buf, zapped) else pure (buf, zapped)

/-- Count the maps whose binding differs from that of map 0 (`bad`), and those that have one
(`count`). -/
def countBad (buf zapped : IntArray) (bc : Nat × Nat) (j : Nat) : Option (Nat × Nat) := do
  if (← load zapped j) ≠ 0 then pure bc
  else
    let v ← load buf j
    let b0 ← load buf 0
    pure (if v ≠ b0 then bc.1 + 1 else bc.1, if v ≠ kHole then bc.2 + 1 else bc.2)

/-- The codes of a long line, and the maps that are left after it. -/
def longLine (ctx : LkCtx) (untilHole : Bool) (style : PrintStyle) (buf : IntArray) :
    List Nat → Option (List Char × List Nat)
  | [] => pure ([], [])
  | j :: js => do
    let v ← load buf j
    if v ≠ kHole && (!untilHole || lkMapExists ctx j) then
      let (text, rest) ← longLine ctx untilHole style buf js
      pure (printKeysym ctx style v ++ text, rest)
    else pure ([], j :: js)

/-- A line with one value, or none, and then the exceptions. -/
def singleEntry (ctx : LkCtx) (style : PrintStyle) (i : Nat) (buf zapped : IntArray) :
    Option (List Char) := do
  let b0 ← load buf 0
  let exceptions ← printEach (List.range' 1 (ctx.keymap.total - 1)) fun j =>
    if lkMapExists ctx j then do
      let v ← load buf j
      if v ≠ b0 && (← load zapped j) = 0 then pure (printBind ctx style v i j) else pure []
    else pure []
  pure ((if b0 ≠ kHole then printKeysym ctx style b0 else []) ++ '\n' :: exceptions)

/-- A line with a value for each map until a hole, and then the exceptions. -/
def longEntry (ctx : LkCtx) (untilHole : Bool) (style : PrintStyle) (i : Nat) (buf : IntArray) :
    Option (List Char) := do
  let (line, rest) ← longLine ctx untilHole style buf (List.range ctx.keymap.total)
  let exceptions ← printEach rest fun j => do
    let v ← load buf j
    pure (if v ≠ kHole then printBind ctx style v i j else [])
  pure (line ++ '\n' :: exceptions)

/-- A line, and the exceptions to it, in the form that avoids `VoidSymbol`. -/
def dumpEntry (ctx : LkCtx) (untilHole : Bool) (style : PrintStyle) (i : Nat)
    (buf zapped : IntArray) : Option (List Char) := do
  let keymapnr := ctx.keymap.total
  let (bad, count) ← (List.range' 1 (keymapnr - 1)).foldlM (countBad buf zapped) (0, 0)
  if bad ≤ count && bad < keymapnr - 1 then singleEntry ctx style i buf zapped
  else longEntry ctx untilHole style i buf

/-- The lines for key `i` in the shapes with shorthands. -/
def dumpShort (ctx : LkCtx) (untilHole : Bool) (style : PrintStyle) (altIsMeta : Bool) (i : Nat)
    (buf : IntArray) : Option (List Char) := do
  let b0 ← load buf 0
  let isasexpected ← isAsExpected ctx b0 buf
  let (buf, zapped) ← zapAll ctx altIsMeta buf
  if isasexpected then
    -- the plus sign of an ordinary letter is suppressed
    pure (keycodeText i ++ printKeysym ctx style (K ktLatin (kval b0)) ++ ['\n'])
  else
    let entry ← dumpEntry ctx untilHole style i buf zapped
    pure (keycodeText i ++ entry)

/-- The lines for key `i`. -/
def dumpKey (ctx : LkCtx) (table : TableShape) (style : PrintStyle) (altIsMeta : Bool) (i : Nat) :
    Option (List Char) := do
  let (buf, allHoles) ← fillBuf ctx i
  if allHoles && table ≠ .fullTable then pure []
  else
    let maps := (List.range ctx.keymap.total).filter (lkMapExists ctx ·)
    match table with
    | .fullTable =>
      let values ← printEach maps fun j => do pure (printKeysym ctx style (← load buf j))
      pure (keycodeText i ++ values ++ ['\n'])
    | .separateLines =>
      let lines ← printEach maps fun j => do pure (printBind ctx style (← load buf j) i j)
      pure (lines ++ ['\n'])
    | .default => dumpShort ctx false style altIsMeta i buf
    | .untilHole => dumpShort ctx true style altIsMeta i buf

/-! ## `lk_dump_keys` -/

/-- Whether the first pass finds no counterexample to `alt_is_meta` in map `j`. The test for -1 that
ends its loop never succeeds, since the map exists. -/
def altIsMetaAt (keycodeZero : Bool) (ctx : LkCtx) (j : Nat) : Bool :=
  let ja := j ||| mAlt
  if j ≠ ja && lkMapExists ctx j && lkMapExists ctx ja then
    (dumpedKeys keycodeZero).all fun i =>
      let buf0 := lkGetKey ctx j i
      !((ktyp buf0 = ktLatin || ktyp buf0 = ktLetter) && kval buf0 < 128) ||
        lkGetKey ctx ja i = K ktMeta (kval buf0)
  else true

/-- The first pass: whether to print `alt_is_meta`. -/
def dumpsAltIsMeta (keycodeZero : Bool) (ctx : LkCtx) (table : TableShape) : Bool :=
  table ≠ .fullTable && table ≠ .separateLines &&
    (List.range ctx.keymap.total).all (altIsMetaAt keycodeZero ctx)

/-- `lk_dump_keys`. -/
def lkDumpKeys (keycodeZero : Bool) (ctx : LkCtx) (table : TableShape) (style : PrintStyle) :
    Option (List Char) :=
  if ctx.keymap.total = 0 then pure []
  else do
    let altIsMeta := dumpsAltIsMeta keycodeZero ctx table
    let keys ← printEach (dumpedKeys keycodeZero) (dumpKey ctx table style altIsMeta)
    pure ((if altIsMeta then bytes "alt_is_meta\n" else []) ++ keys)

/-! ## The messages of `lk_dump_keys` -/

/-- Whether a round of the loop that wipes out Meta bindings prints "impossible: not meta?". -/
def notMeta (ctx : LkCtx) (buf : IntArray) (j : Nat) : Option Bool := do
  let ja := j ||| mAlt
  if j ≠ ja && lkMapExists ctx ja then
    let v ← load buf j
    if (ktyp v = ktLatin || ktyp v = ktLetter) && kval v < 128 then
      pure ((← load buf ja) ≠ K ktMeta (kval v))
    else pure false
  else pure false

/-- How often the rounds for some maps print it. -/
def zapMessages (ctx : LkCtx) : IntArray × IntArray → List Nat → Option Nat
  | _, [] => pure 0
  | arrays, j :: js => do
    let printed ← notMeta ctx arrays.1 j
    let rest ← zapMessages ctx (← zapMeta ctx arrays j) js
    pure (if printed then rest + 1 else rest)

/-- How often the lines for key `i` do. -/
def keyMessages (ctx : LkCtx) (table : TableShape) (altIsMeta : Bool) (i : Nat) : Option Nat := do
  let (buf, allHoles) ← fillBuf ctx i
  if allHoles && table ≠ .fullTable then pure 0
  else
    match table with
    | .fullTable | .separateLines => pure 0
    | .default | .untilHole =>
      if altIsMeta then zapMessages ctx (buf, fun _ => 0) (List.range ctx.keymap.total) else pure 0

/-- How often `lk_dump_keys` does. -/
def lkDumpKeysMessages (keycodeZero : Bool) (ctx : LkCtx) (table : TableShape) : Option Nat :=
  if ctx.keymap.total = 0 then pure 0
  else do
    let altIsMeta := dumpsAltIsMeta keycodeZero ctx table
    let counts ← (dumpedKeys keycodeZero).mapM (keyMessages ctx table altIsMeta)
    pure counts.sum

end Kbd.Keymap
