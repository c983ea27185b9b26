import Kbd.Keymap.Kmap
import Kbd.Keymap.Text
import Kbd.Lib.Endian

/-!
# Writing a binary keymap (`dump.c`)

`lk_dump_bkeymap` writes the format that busybox reads: a magic, a flag for each table, and the values
of the tables that exist. A value is an `int` of four bytes, of which `fwrite` is given the first two.
`readBkeymap` reads the format back.
-/

namespace Kbd.Keymap

open Kbd.Lib

/-- What makes `lk_dump_bkeymap` fail. -/
inductive BkeymapErr where
  | addConstants (e : LkErr)
  /-- "can not bind key %u to value %d because it is too large" -/
  | tooLarge (key : Nat) (value : Int)
  /-- "Error writing map to file" -/
  | write
  deriving DecidableEq, Repr

/-- Code that writes to a file. -/
abbrev ToFile (α : Type) := EStateM BkeymapErr (List UInt8) α

/-- The 7 bytes of `magic`. -/
def bkeymapMagic : List UInt8 := (bytes "bkeymap").map fun c => UInt8.ofNat c.toNat

example : bkeymapMagic = [0x62, 0x6b, 0x65, 0x79, 0x6d, 0x61, 0x70] := rfl

/-- The flag of a table, a `char`. -/
def bkeymapFlag (ctx : LkCtx) (i : Nat) : UInt8 := if lkMapExists ctx i then 1 else 0

abbrev bkeymapKeys : Nat := nrKeys / 2

section Write

/- `fits` tells whether a call of `fwrite` succeeds, by what has been written and what is to be. -/
variable (fits : List UInt8 → List UInt8 → Bool) (host : Endian)

/-- `fwrite`; a call that fails ends the dump. -/
def fwrite (b : List UInt8) : ToFile Unit := do
  let file ← get
  if fits file b then set (file ++ b) else throw .write

/-- One round of the loop over the keys. -/
def writeBkeymapKey (ctx : LkCtx) (i j : Nat) : ToFile Unit := do
  let value := lkGetKey ctx i j
  if value < 0 ∨ value > 65535 then
    throw (.tooLarge j value)
  fwrite fits ((host.store 4 value.toNat).take 2)

/-- One round of the loop over the tables. -/
def writeBkeymapTable (ctx : LkCtx) (i : Nat) : ToFile Unit :=
  if !lkMapExists ctx i then pure ()
  else (List.range bkeymapKeys).forM (writeBkeymapKey fits host ctx i)

/-- `lk_dump_bkeymap` after `lk_add_constants`. -/
def writeBkeymap (ctx : LkCtx) : ToFile Unit := do
  fwrite fits bkeymapMagic
  (List.range maxNrKeymaps).forM fun i => fwrite fits [bkeymapFlag ctx i]
  (List.range maxNrKeymaps).forM (writeBkeymapTable fits host ctx)

/-- `lk_dump_bkeymap`. -/
def lkDumpBkeymap (ctx : LkCtx) : ToFile Unit :=
  match lkAddConstants.run ctx with
  | .error e _ => throw (.addConstants e)
  | .ok _ ctx => writeBkeymap fits host ctx

end Write

/-! ## Reading -/

/-- Reads `n` values of type `unsigned short`. -/
def readShorts (host : Endian) : Nat → List UInt8 → Option (List Nat × List UInt8)
  | 0, file => some ([], file)
  | n + 1, b :: b' :: file =>
    (readShorts host n file).map fun (values, file) => (host.load [b, b'] :: values, file)
  | _ + 1, _ => none

/-- Reads the values of the tables that have a flag, up to the end of the file. -/
def readTables (host : Endian) : List UInt8 → List UInt8 → Option (List (Option (List Nat)))
  | [], file => if file = [] then some [] else none
  | flag :: flags, file =>
    if flag = 0 then (readTables host flags file).map (none :: ·)
    else do
      let (values, file) ← readShorts host bkeymapKeys file
      (readTables host flags file).map (some values :: ·)

/-- Reads a binary keymap: the values of each table, if there is one. -/
def readBkeymap (host : Endian) (file : List UInt8) : Option (List (Option (List Nat))) :=
  if file.take 7 = bkeymapMagic ∧ 7 + maxNrKeymaps ≤ file.length then
    readTables host ((file.drop 7).take maxNrKeymaps) (file.drop (7 + maxNrKeymaps))
  else none

end Kbd.Keymap
