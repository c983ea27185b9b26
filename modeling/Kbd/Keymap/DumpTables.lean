import Kbd.Keymap.Diacr
import Kbd.Keymap.Dump

/-!
# Writing strings, compose definitions and C tables (`dump.c`)

`isgraph` is that of the C locale.
-/

namespace Kbd.Keymap

/-- `%03o`. -/
def fmt03O (n : Nat) : List Char := (Nat.toDigits 8 n).leftpad 3 '0'

/-- `isgraph`. -/
def isgraph (c : Nat) : Bool := 0x21 ≤ c && c ≤ 0x7e

/-- `%c`. -/
def fmtC (c : Nat) : Char := Char.ofNat (c % 256)

def outchar (c : Nat) (comma : Bool) : List Char :=
  '\x27' ::
    (if c = 0x27 || c = 0x5c then ['\\', fmtC c]
      else if isgraph c then [fmtC c] else '\\' :: fmt03O c) ++
    (if comma then ['\x27', ',', ' '] else ['\x27'])

def dumpchar (c : Nat) (comma : Bool) : List Char :=
  '\x27' ::
    (if c = 0x27 || c = 0x5c then ['\\', fmtC c]
      else if isgraph c || c = 0x20 || c ≥ 0x80 then [fmtC c] else '\\' :: fmt03O c) ++
    (if comma then ['\x27', ',', ' '] else ['\x27'])

/-- `dump_compose_input`. -/
def dumpComposeInput (ctx : LkCtx) (c : Nat) : List Char :=
  if ctx.flags.preferUnicode && c > 0x7f then bytes "U+" ++ fmt04X c else dumpchar c false

/-! ## `lk_dump_funcs` -/

/-- A character of a string. -/
def funcChar (c : Char) : List Char :=
  if c = '\x22' || c = '\\' then ['\\', c]
  else if isgraph c.toNat || c = ' ' then [c]
  else '\\' :: fmt03O (c.toNat % 256)

/-- The line for a string; a null pointer is printed as `(null)`. -/
def funcLine (i : Nat) (s : List Char) : List Char :=
  bytes "string " ++ bytes ((getSym ktFn i).getD "(null)") ++ bytes " = \x22" ++
    (cstr s).flatMap funcChar ++ ['\x22', '\n']

/-- `lk_dump_funcs`. -/
def lkDumpFuncs (ctx : LkCtx) : List Char :=
  (List.range ctx.funcTable.total).flatMap fun i =>
    match ctx.funcTable.get i with
    | none => []
    | some s => funcLine i s

/-- `lk_get_func`: `kb_string` has 512 bytes, the last one for the terminator; `none` is -1. -/
def lkGetFunc (ctx : LkCtx) (kbFunc : Nat) : Option (List Char) :=
  (ctx.funcTable.get kbFunc).map (·.take 511)

/-! ## `lk_dump_diacs` -/

/-- The result of a compose definition. -/
def diacResult (ctx : LkCtx) (result : Nat) : List Char :=
  if ctx.flags.preferUnicode then
    match codetoksym ctx (toSigned (result ^^^ unicodeMask.toNat)) with
    | some ksym => bytes ksym
    | none => bytes "U+" ++ fmt04X result
  else if result > 0xff then bytes "0x" ++ Nat.toDigits 16 result
  else
    match codetoksym ctx result with
    | some ksym => bytes ksym
    | none => dumpchar result false

/-- The line for a compose definition. -/
def diacLine (ctx : LkCtx) (d : LkKbdiacr) : List Char :=
  bytes "compose " ++ dumpComposeInput ctx d.diacr ++ ' ' :: dumpComposeInput ctx d.base ++
    bytes " to " ++ diacResult ctx d.result ++ ['\n']

/-- The entries for which the loop of `lk_dump_diacs` prints a line. -/
def dumpedDiacs (ctx : LkCtx) : List LkKbdiacr :=
  (List.range ctx.accentTable.count).filterMap fun i => ctx.accentTable.get i

/-- `lk_dump_diacs`. -/
def lkDumpDiacs (ctx : LkCtx) : List Char := (dumpedDiacs ctx).flatMap (diacLine ctx)

/-! ## `lk_dump_ctable` -/

/-- `mk_mapname`. -/
def mkMapname (modifier : Nat) : List Char :=
  if modifier % 256 = 0 then bytes "plain"
  else
    ["shift", "altgr", "ctrl", "alt", "shl", "shr", "ctl", "ctr"].zipIdx.foldl (fun buf (name, i) =>
      if modifier.testBit i then buf ++ (if buf = [] then [] else ['_']) ++ bytes name else buf) []

/-- The comment at the top, and the includes. -/
def ctableHead (unicode : Bool) : List Char :=
  bytes "/* Do not edit this file! It was automatically generated by     */\n" ++
  bytes "/*    loadkeys --mktable " ++ (if unicode then bytes "--unicode " else []) ++
  bytes "defkeymap.map > defkeymap.c " ++ List.replicate (if unicode then 1 else 11) ' ' ++
  bytes "*/\n\n" ++ bytes "#include <linux/keyboard.h>\n" ++ bytes "#include <linux/kd.h>\n\n"

/-- The array of a map. -/
def ctableMap (ctx : LkCtx) (i : Nat) : List Char :=
  (if i ≠ 0 then bytes "static " else []) ++ bytes "unsigned short " ++ mkMapname i ++
  bytes "_map[NR_KEYS] = \x7b" ++
  ((List.range nrKeys).flatMap fun j =>
    (if j % 8 = 0 then ['\n'] else []) ++ bytes "\t0x" ++ fmt04X (toUnsigned (U (lkGetKey ctx i j))) ++
      [',']) ++
  bytes "\n\x7d;\n\n"

/-- The last map, 0 if there is none after it. -/
def ctableImax (ctx : LkCtx) : Nat :=
  ((List.range maxNrKeymaps).reverse.find? fun i => i = 0 || lkMapExists ctx i).getD 0

/-- The array of maps. -/
def ctableKeyMaps (ctx : LkCtx) : List Char :=
  let imax := ctableImax ctx
  bytes "unsigned short *key_maps[MAX_NR_KEYMAPS] = \x7b" ++
  ((List.range (imax + 1)).flatMap fun i =>
    (if i % 4 ≠ 0 then [' '] else ['\n', '\t']) ++
      (if lkMapExists ctx i then mkMapname i ++ bytes "_map," else bytes "0,")) ++
  (if imax < maxNrKeymaps - 1 then bytes "\t0" else []) ++
  bytes "\n\x7d;\n\nunsigned int keymap_count = " ++ fmtU ctx.keymap.count ++ bytes ";\n\n"

/-- The number of strings up to the last one. -/
def ctableMaxfunc (ctx : LkCtx) : Nat :=
  ((List.range maxNrFunc).reverse.find? fun i => (ctx.funcTable.get i).isSome).elim 0 (· + 1)

/-- `func_table_offs`: a string takes its bytes and a terminator. -/
def funcTableOffs (ctx : LkCtx) (i : Nat) : Nat :=
  ((List.range i).map fun k => (ctx.funcTable.get k).elim 0 fun s => (cstr s).length + 1).sum

/-- The strings. -/
def ctableFuncs (ctx : LkCtx) : List Char :=
  let maxfunc := ctableMaxfunc ctx
  bytes "/*\n" ++
  bytes " * Philosophy: most people do not define more strings, but they who do\n" ++
  bytes " * often want quite a lot of string space. So, we statically allocate\n" ++
  bytes " * the default and allocate dynamically in chunks of 512 bytes.\n" ++
  bytes " */\n" ++ bytes "\n" ++
  bytes "char func_buf[] = \x7b\n" ++
  ((List.range maxfunc).flatMap fun i =>
    match ctx.funcTable.get i with
    | none => []
    | some s => '\t' :: (cstr s).flatMap (fun c => outchar c.toNat true) ++ bytes "0, \n") ++
  (if maxfunc = 0 then bytes "\t0\n" else []) ++ bytes "\x7d;\n\n" ++
  bytes "char *funcbufptr = func_buf;\n" ++ bytes "int funcbufsize = sizeof(func_buf);\n" ++
  bytes "int funcbufleft = 0;          /* space left */\n" ++ bytes "\n" ++
  bytes "char *func_table[MAX_NR_FUNC] = \x7b\n" ++
  ((List.range maxfunc).flatMap fun i =>
    match ctx.funcTable.get i with
    | some _ => bytes "\tfunc_buf + " ++ fmtU (funcTableOffs ctx i) ++ bytes ",\n"
    | none => bytes "\t0,\n") ++
  (if maxfunc < maxNrFunc then bytes "\t0,\n" else []) ++ bytes "\x7d;\n"

/-- The entries that the last loop of `lk_dump_ctable` prints. It does not look whether there is an
entry; `none` is the access through a null pointer. -/
def ctableDiacs (ctx : LkCtx) : Option (List LkKbdiacr) :=
  (List.range ctx.accentTable.count).mapM fun i => ctx.accentTable.get i

/-- An entry of `accent_table`, at index `i`. -/
def ctableDiac (unicode : Bool) (d : LkKbdiacr) (i : Nat) : List Char :=
  bytes "\t\x7b" ++ outchar d.diacr true ++ outchar d.base true ++
  (if unicode then bytes "0x" ++ fmt04X d.result else outchar d.result false) ++ bytes "\x7d," ++
  (if i % 2 ≠ 0 then ['\n'] else [])

/-- The compose definitions. -/
def ctableAccents (ctx : LkCtx) : Option (List Char) := do
  let unicode := ctx.flags.preferUnicode
  let entries ← ctableDiacs ctx
  pure (bytes "\nstruct kbdiacr" ++ (if unicode then bytes "uc" else []) ++
    bytes " accent_table[MAX_DIACR] = \x7b\n" ++
    (entries.zipIdx.flatMap fun (d, i) => ctableDiac unicode d i) ++
    (if ctx.accentTable.count % 2 ≠ 0 then ['\n'] else []) ++ bytes "\x7d;\n\n" ++
    bytes "unsigned int accent_table_size = " ++ fmtU ctx.accentTable.count ++ bytes ";\n")

/-- `lk_dump_ctable` after `lk_add_constants`. -/
def ctableText (ctx : LkCtx) : Option (List Char) := do
  let accents ← ctableAccents ctx
  pure (ctableHead ctx.flags.preferUnicode ++
    ((List.range maxNrKeymaps).filter (lkMapExists ctx ·)).flatMap (ctableMap ctx) ++
    ctableKeyMaps ctx ++ ctableFuncs ctx ++ accents)

/-- `lk_dump_ctable`. -/
def lkDumpCtable (ctx : LkCtx) : Except LkErr (Option (List Char)) :=
  match lkAddConstants.run ctx with
  | .error e _ => .error e
  | .ok _ ctx => .ok (ctableText ctx)

example : funcChar '\x1b' = ['\\', '0', '3', '3'] ∧ dumpchar 0x27 false = ['\x27', '\\', '\x27', '\x27'] := by
  decide

end Kbd.Keymap
