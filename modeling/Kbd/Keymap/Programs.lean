import Kbd.Keymap.DumpBinary
import Kbd.Keymap.DumpTables
import Kbd.Keymap.Kernel
import Kbd.Keymap.Load
import Kbd.Keymap.Parse

/-!
# The programs (`dumpkeys.c`, `loadkeys.c`)

What `main` does after it has read its options. The messages on the standard error output are left
out, and the standard output takes everything that is written.
-/

namespace Kbd.Keymap

/-- What a program has written, the requests it has made, and whether it exits with `EXIT_SUCCESS`. -/
structure ProgramRun where
  success : Bool
  output : List Char := []
  trace : Trace := []
  deriving DecidableEq, Repr

/-! ## Writing a keymap -/

/-- `lk_dump_keymap`. -/
def lkDumpKeymap (keycodeZero : Bool) (ctx : LkCtx) (table : TableShape) (style : PrintStyle) :
    Option (List Char) := do
  let keys ← lkDumpKeys keycodeZero ctx table style
  pure (lkDumpKeymaps ctx ++ keys ++ lkDumpFuncs ctx)

/-- `lk_dump_keymap2`. -/
def lkDumpKeymap2 (keycodeZero : Bool) (table : TableShape) (style : PrintStyle) :
    Lk (Option (List Char)) := do
  lkAddConstants
  return lkDumpKeymap keycodeZero (← get) table style

/-! ## `dumpkeys` -/

/-- The options of `dumpkeys`, without those for a charset and for information. -/
structure DumpkeysOptions where
  table : TableShape := .default
  numeric : Bool := false
  funcsOnly : Bool := false
  keysOnly : Bool := false
  diacOnly : Bool := false
  deriving DecidableEq, Repr

/-- How codes are printed to the standard output. -/
def DumpkeysOptions.style (opts : DumpkeysOptions) : PrintStyle :=
  { numeric := opts.numeric, stdout := true }

/-- The flags for a keyboard mode. -/
def dumpkeysFlags (kbdMode : Int) : LkFlags := { preferUnicode := kbdMode = kUnicode }

/-- What `main` writes of the keymap of the kernel. -/
def dumpkeysText (keycodeZero : Bool) (opts : DumpkeysOptions) : Lk (Option (List Char)) := do
  let keymap ←
    if !opts.diacOnly && !opts.funcsOnly then lkDumpKeymap2 keycodeZero opts.table opts.style
    else pure (some [])
  let ctx ← get
  let diacs := if !opts.funcsOnly && !opts.keysOnly then lkDumpDiacs ctx else []
  return keymap.map (· ++ diacs)

/-- `main` of `dumpkeys`; there is no `kbdMode` if there is no console or it does not tell its mode. -/
def dumpkeys (keycodeZero : Bool) (opts : DumpkeysOptions) (kbdMode : Option Int)
    (r : KernelReader) : Option ProgramRun :=
  match kbdMode with
  | none => some { success := false }
  | some mode =>
    match (lkKernelKeymap r).run (lkInit (dumpkeysFlags mode)) with
    | .error _ _ => some { success := false }
    | .ok _ ctx =>
      match (dumpkeysText keycodeZero opts).run ctx with
      | .error _ _ => some { success := false }
      | .ok text _ => text.map fun output => { success := true, output }

/-! ## `loadkeys` -/

/-- The options of `loadkeys`, without those for XKB, and two variables of its environment. -/
structure LoadkeysOptions where
  ascii : Bool := false
  bkeymap : Bool := false
  clearcompose : Bool := false
  mktable : Bool := false
  parse : Bool := false
  clearstrings : Bool := false
  unicode : Bool := false
  tkeymap : Option TableShape := none
  /-- `LK_DUMP_NUMERIC` is set -/
  dumpNumeric : Bool := false
  /-- `LK_DUMPKEYS` is set -/
  dumpkeys : Bool := false
  deriving DecidableEq, Repr

/-- How codes are printed to the standard output. -/
def LoadkeysOptions.style (opts : LoadkeysOptions) : PrintStyle :=
  { numeric := opts.dumpNumeric, stdout := true }

/-- A console is needed unless something else is to be done with the keymap. -/
def LoadkeysOptions.console (opts : LoadkeysOptions) : Bool :=
  !opts.mktable && !opts.bkeymap && opts.tkeymap.isNone

/-- The parser flags. On a keyboard in `K_UNICODE` the bit of `-u` is toggled. -/
def loadkeysFlags (opts : LoadkeysOptions) (kbdMode : Option Int) : LkFlags where
  clearCompose := opts.clearcompose
  clearStrings := opts.clearstrings
  unicodeMode := if opts.console && kbdMode = some kUnicode then !opts.unicode else opts.unicode
  preferUnicode :=
    opts.unicode || (opts.console && decide (kbdMode = some kUnicode) && !opts.ascii)

/-- What a keymap is read from. -/
inductive KeymapFile where
  | found (fp : Kbdfile)
  /-- no file has the name -/
  | missing
  /-- the standard input, which has been read before and is closed -/
  | closed
  deriving DecidableEq, Repr

/-- How the reading of the files ends. -/
inductive FilesRead where
  /-- all files are accepted -/
  | accepted (ctx : LkCtx)
  /-- `goto fail`, with whether `rc` is 0 -/
  | stopped (success : Bool)
  deriving DecidableEq, Repr

/-- The files one after the other, from a context with an `rc`. At most `fuel` steps of the scanner are
made for each. What is read from a stream that is closed is undefined. -/
def readFiles (find : FindIncl) (fuel : Nat) : LkCtx → Bool → List KeymapFile → Option FilesRead
  | ctx, _, [] => some (.accepted ctx)
  | _, rc, .missing :: _ => some (.stopped rc)
  | _, _, .closed :: _ => none
  | ctx, _, .found fp :: files =>
    match lkParseKeymap find fuel ctx (List.replicate maxIncludeDepth none) fp with
    | none => none
    | some (false, _) => some (.stopped false)
    | some (true, r) => readFiles find fuel r.parser.ctx true files

/-- What `main` does with the keymap. -/
def loadkeysAct (keycodeZero : Bool) (host : Kbd.Lib.Endian) (ioctl : Ioctl)
    (opts : LoadkeysOptions) (kbdMode : Option Int) (ctx : LkCtx) : Option ProgramRun :=
  if opts.parse then
    if opts.dumpkeys then
      (lkDumpKeymap keycodeZero ctx .separateLines { stdout := true }).map fun keymap =>
        { success := true, output := keymap ++ lkDumpDiacs ctx }
    else some { success := true }
  else if opts.bkeymap then
    match (lkDumpBkeymap (fun _ _ => true) host ctx).run [] with
    | .ok _ file => some { success := true, output := file.map fun b => Char.ofNat b.toNat }
    | .error _ file => some { success := false, output := file.map fun b => Char.ofNat b.toNat }
  else if opts.mktable then
    match lkDumpCtable ctx with
    | .ok text => text.map fun output => { success := true, output }
    | .error _ => some { success := false }
  else match opts.tkeymap with
    | some shape =>
      match (lkDumpKeymap2 keycodeZero shape opts.style).run ctx with
      | .ok keymap ctx => keymap.map fun keymap =>
        { success := true, output := keymap ++ lkDumpDiacs ctx }
      | .error _ _ => some { success := false }
    | none =>
      let (success, trace) := lkLoadKeymap ioctl ctx (kbdMode.getD 0)
      some { success, trace }

/-- `main` of `loadkeys`. The files are those that `-d`, the standard input or the arguments stand
for. -/
def loadkeys (keycodeZero : Bool) (host : Kbd.Lib.Endian) (find : FindIncl) (fuel : Nat)
    (ioctl : Ioctl) (opts : LoadkeysOptions) (kbdMode : Option Int) (files : List KeymapFile) :
    Option ProgramRun :=
  if opts.unicode && opts.ascii then some { success := false }
  else if opts.console && kbdMode.isNone then some { success := false }
  else
    match readFiles find fuel (lkInit (loadkeysFlags opts kbdMode)) false files with
    | none => none
    | some (.stopped success) => some { success }
    | some (.accepted ctx) => loadkeysAct keycodeZero host ioctl opts kbdMode ctx

end Kbd.Keymap
