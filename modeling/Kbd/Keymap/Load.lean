import Kbd.Keymap.Kmap

/-!
# Loading a keymap into the kernel (`loadkeys.c`)

`lk_load_keymap` talks to the console through `ioctl`. A `Request` is a call with its argument, an
`Errno` why it failed, and the `Trace` records what was asked and how it went. The outcome of each
call is given by an arbitrary function of the trace so far, so every pattern of successes and
failures is covered.
-/

namespace Kbd.Keymap

/-- The values of `errno` the code tells apart. -/
inductive Errno where
  | eperm
  | eio
  | einval
  | other (n : Nat)
  deriving DecidableEq, Repr

/-- The requests `lk_load_keymap` makes. -/
inductive Request where
  /-- `KDSKBENT` with `struct kbentry` -/
  | kdskbent (kbTable kbIndex kbValue : Nat)
  /-- `KDSKBMODE` -/
  | kdskbmode (mode : Int)
  /-- `KDSKBSENT` with `struct kbsentry` -/
  | kdskbsent (kbFunc : Nat) (kbString : List Char)
  /-- `KDSKBDIACRUC` with `struct kbdiacrsuc` -/
  | kdskbdiacruc (kbCnt : Nat) (kbdiacruc : List LkKbdiacr)
  /-- `KDSKBDIACR` with `struct kbdiacrs` -/
  | kdskbdiacr (kbCnt : Nat) (kbdiacr : List LkKbdiacr)
  deriving DecidableEq, Repr

/-- The requests made so far, each with its outcome; `none` is success. -/
abbrev Trace := List (Request × Option Errno)

/-- How the console answers a request after a given trace. -/
abbrev Ioctl := Trace → Request → Option Errno

/-- Code that makes requests. -/
abbrev Console (α : Type) := StateM Trace α

abbrev kUnicode : Int := 3
abbrev ucharMax : Int := 255
abbrev ushrtMax : Int := 65535

variable (ioctl : Ioctl)

/-- `lk_ioctl_ptr` and `lk_ioctl_int`. -/
def lkIoctl (req : Request) : Console (Option Errno) :=
  fun tr => (ioctl tr req, tr ++ [(req, ioctl tr req)])

/-- The loop of `set_keymap_table` over the remaining key indices. -/
def setKeymapTableFrom (ctx : LkCtx) (kTable : Nat) : List Nat → Nat → Console (Option Nat)
  | [], count => pure (some count)
  | kIndex :: rest, count =>
    let value := lkGetKey ctx kTable kIndex
    if !lkKeyExists ctx kTable kIndex then setKeymapTableFrom ctx kTable rest count
    else if value < 0 || value > ushrtMax then setKeymapTableFrom ctx kTable rest count
    else do
      match ← lkIoctl ioctl (.kdskbent (kTable % 256) (kIndex % 256) (value.toNat % 65536)) with
      | none => setKeymapTableFrom ctx kTable rest (count + 1)
      | some .eperm => pure none
      | some .eio => pure none
      | some _ => setKeymapTableFrom ctx kTable rest count

/-- `set_keymap_table`; `none` is -1. -/
def setKeymapTable (ctx : LkCtx) (kTable : Nat) : Console (Option Nat) :=
  setKeymapTableFrom ioctl ctx kTable (List.range nrKeys) 0

/-- The loop of `clear_keymap_table` that clears a keymap by hand. -/
def clearByHand (kTable : Nat) : List Nat → Console Bool
  | [] => pure true
  | kIndex :: rest => do
    match ← lkIoctl ioctl (.kdskbent (kTable % 256) (kIndex % 256) kHole.toNat) with
    | none => clearByHand kTable rest
    | some .einval => if kTable ≥ 16 then pure true else pure false
    | some _ => pure false

/-- `clear_keymap_table`; `false` is -1. -/
def clearKeymapTable (kTable : Nat) : Console Bool := do
  match ← lkIoctl ioctl (.kdskbent (kTable % 256) 0 kNosuchmap.toNat) with
  | none => pure true
  | some .einval => clearByHand ioctl kTable (List.range nrKeys)
  | some _ => pure false

/-- The loop of `set_keymap` over the tables; `none` is the early exit. -/
def setKeymapTables (ctx : LkCtx) : List Nat → Nat → Console (Option Nat)
  | [], count => pure (some count)
  | kTable :: rest, count => do
    if lkMapExists ctx kTable then
      match ← setKeymapTable ioctl ctx kTable with
      | none => pure none
      | some ct => setKeymapTables ctx rest (count + ct)
    else if ctx.keywords.keymaps then
      if ← clearKeymapTable ioctl kTable then setKeymapTables ctx rest count else pure none
    else setKeymapTables ctx rest count

/-- `set_keymap`; `none` is -1. -/
def setKeymap (ctx : LkCtx) (kbdMode : Int) : Console (Option Nat) := do
  if ctx.flags.unicodeMode then
    if (← lkIoctl ioctl (.kdskbmode kUnicode)).isSome then return none
  let count ← setKeymapTables ioctl ctx (List.range maxNrKeymaps) 0
  if ctx.flags.unicodeMode then
    if (← lkIoctl ioctl (.kdskbmode kbdMode)).isSome then return none
  return count

/-- The loop of `deffuncs`: a failed call is reported and the loop goes on. -/
def deffuncsFrom (ctx : LkCtx) : List Nat → Nat → Console Nat
  | [], ct => pure ct
  | i :: rest, ct => do
    match ctx.funcTable.get i with
    | some ptr =>
      -- `kb_string` has 512 bytes, the last one for the terminator
      let e ← lkIoctl ioctl (.kdskbsent (i % 256) (ptr.take 511))
      deffuncsFrom ctx rest (if e.isSome then ct else ct + 1)
    | none =>
      if ctx.flags.clearStrings then
        let e ← lkIoctl ioctl (.kdskbsent (i % 256) [])
        deffuncsFrom ctx rest (if e.isSome then ct else ct + 1)
      else deffuncsFrom ctx rest ct

/-- `deffuncs`. -/
def deffuncs (ctx : LkCtx) : Console Nat := deffuncsFrom ioctl ctx (List.range maxNrFunc) 0

/-- The live entries of the accent table, as the loops of `defdiacs` collect them. -/
def liveDiacrs (ctx : LkCtx) : List LkKbdiacr :=
  (List.range ctx.accentTable.total).filterMap fun i => ctx.accentTable.get i

/-- `defdiacs`; `none` is -1. -/
def defdiacs (ctx : LkCtx) : Console (Option Nat) := do
  let count := if ctx.accentTable.count ≥ maxDiacr then maxDiacr - 1 else ctx.accentTable.count
  let live := (liveDiacrs ctx).take count
  if ctx.flags.preferUnicode then
    if (← lkIoctl ioctl (.kdskbdiacruc count live)).isSome then return none
  else
    if live.any fun d => d.diacr > ucharMax || d.base > ucharMax || d.result > ucharMax then
      return none
    if (← lkIoctl ioctl (.kdskbdiacr count live)).isSome then return none
  return some count

/-- The part of `lk_load_keymap` after `set_keymap`, which returned `keyct`; `true` is 0 and `false`
is -1. -/
def loadRest (ctx : LkCtx) : Option Nat → Console Bool
  | none => pure false
  | some _ => do
    let _ ← deffuncs ioctl ctx
    if ctx.accentTable.count > 0 || ctx.flags.clearCompose then
      return (← defdiacs ioctl ctx).isSome
    return true

/-- The part of `lk_load_keymap` after `lk_add_constants`. -/
def loadTables (ctx : LkCtx) (kbdMode : Int) : Console Bool :=
  setKeymap ioctl ctx kbdMode >>= loadRest ioctl ctx

/-- `lk_load_keymap`, with the requests it makes. -/
def lkLoadKeymap (ctx : LkCtx) (kbdMode : Int) : Bool × Trace :=
  match lkAddConstants.run ctx with
  | .error _ _ => (false, [])
  | .ok _ ctx => (loadTables ioctl ctx kbdMode).run []

end Kbd.Keymap
