import Kbd.Keymap.Load
import Kbd.Keymap.Stmt

/-!
# The accent table (`diacr.c`)

Compose definitions may be added at any index, appended and deleted, so the table may have holes.
-/

namespace Kbd.Keymap

/-- The conversion of an `unsigned int` to `int`. -/
def toSigned (n : Nat) : Int :=
  if n % 2 ^ 32 < 2 ^ 31 then (n % 2 ^ 32 : Nat) else (n % 2 ^ 32 : Nat) - 2 ^ 32

/-- `lk_append_diacr`. -/
def lkAppendDiacr (ctx : LkCtx) (dcr : LkKbdiacr) : LkCtx :=
  { ctx with accentTable := ctx.accentTable.append (some dcr) }

/-- `lk_add_diacr`. -/
def lkAddDiacr (ctx : LkCtx) (index : Nat) (dcr : LkKbdiacr) : LkCtx :=
  { ctx with accentTable := ctx.accentTable.set index (some dcr) }

/-- `lk_del_diacr`; `none` is -1. -/
def lkDelDiacr (ctx : LkCtx) (index : Nat) : Option LkCtx :=
  match ctx.accentTable.get index with
  | none => none
  | some _ => (ctx.accentTable.unset index).map fun table => { ctx with accentTable := table }

/-- The entry that `lk_append_compose` makes of its argument. -/
def convertDiacr (ctx : LkCtx) (dcr : LkKbdiacr) : LkKbdiacr :=
  let direction := if ctx.flags.preferUnicode then Direction.toUnicode else .to8bit
  let conv code := toUnsigned (convertCode ctx (toSigned code) direction)
  ⟨conv dcr.diacr, conv dcr.base, conv dcr.result⟩

/-- `lk_append_compose`, as the parser calls it, on a `struct lk_kbdiacr`. -/
def appendCompose (ctx : LkCtx) (dcr : LkKbdiacr) : LkCtx :=
  lkAppendDiacr ctx (convertDiacr ctx dcr)

/-- The calls that change the accent table. -/
inductive DiacrOp where
  | add (index : Nat) (dcr : LkKbdiacr)
  | append (dcr : LkKbdiacr)
  | appendCompose (dcr : LkKbdiacr)
  | del (index : Nat)
  deriving DecidableEq, Repr

/-- The context after a call; one that fails changes nothing. -/
def DiacrOp.apply (ctx : LkCtx) : DiacrOp → LkCtx
  | .add index dcr => lkAddDiacr ctx index dcr
  | .append dcr => lkAppendDiacr ctx dcr
  | .appendCompose dcr => Kbd.Keymap.appendCompose ctx dcr
  | .del index => (lkDelDiacr ctx index).getD ctx

/-- The entry that a call appends. -/
def DiacrOp.appended (ctx : LkCtx) : DiacrOp → Option LkKbdiacr
  | .append dcr => some dcr
  | .appendCompose dcr => some (convertDiacr ctx dcr)
  | _ => none

example : toSigned 5 = 5 ∧ toSigned (2 ^ 32 - 1) = -1 := by decide

end Kbd.Keymap
