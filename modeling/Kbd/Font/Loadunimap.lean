import Kbd.Font.Kdfontop
import Kbd.Font.Xtable
import Kbd.Lib.Buffer

/-!
# Unicode map files (`loadunimap.c`)

A line of a map file has a font position, or a range of them, and the code points it stands for, as a
line of a Unicode table does; but what is read are pairs, and their numbers are of type
`unsigned short`. The pairs are collected in an array that grows, and go to the kernel at the end.
-/

namespace Kbd.Font.Unimap

open Kbd.Keymap (bytes cstr digits)
open Kbd.Lib.Buffer

/-- The failures of `loadunimap.c`, each with its message. -/
inductive UnimapErr where
  /-- "Unable to parse number: %s" -/
  | notANumber (p : List Char)
  /-- "Number must not be negative: %ld", or out of the range of a `long` -/
  | negative (v : Int)
  /-- "Number too big: %ld", or out of the range of a `long` -/
  | tooBig (v : Int)
  /-- "%s: Glyph number (0x%x) larger than font length" -/
  | glyphNumber (fp0 : Nat)
  /-- "%s: Bad end of range (0x%x)" -/
  | badRange (fp1 : Nat)
  /-- a range without the code point it needs; no message -/
  | noUnicode
  /-- "%s: Unicode range U+%x-U+%x not of the same length as font position range 0x%x-0x%x" -/
  | rangeMismatch (un0 un1 fp0 fp1 : Nat)
  /-- "unable to find unimap: %s: %m" -/
  | notFound (tblname : List Char)
  /-- an access outside of the array, which the source does not check -/
  | outOfBounds
  /-- a failure of `setfont.c` or `kdmapop.c` -/
  | kfont (err : KfontErr)
  deriving DecidableEq, Repr

/-! ## Lines -/

/-- `str_to_ushort` with base 0. -/
def strToUshort (p : List Char) : Except UnimapErr (Nat × List Char) :=
  match strtol0 p with
  | none => .error (.notANumber p)
  | some (v, e) =>
    if v < 0 then .error (.negative v)
    else if v > 65535 then .error (.tooBig v)
    else .ok (v.toNat, e)

/-- `getunicode`: exactly four digits. Four digits are always a number that fits. -/
def getunicode (p0 : List Char) : Option (Nat × List Char) :=
  match p0.dropWhile isBlank with
  | 'U' :: '+' :: p2 :: p3 :: p4 :: p5 :: p =>
    if !isxdigit p2 || !isxdigit p3 || !isxdigit p4 || !isxdigit p5 || p.head?.any isxdigit then none
    else some (digits 16 [p2, p3, p4, p5] 0, p)
  | _ => none

/-! ## The list -/

/-- `list`, with `listsz` cells, and `listct`. -/
structure UniList where
  list : List Unipair
  listct : Nat
  deriving DecidableEq, Repr

/-- The list at the start of `kfont_load_unicodemap`. -/
def UniList.start : UniList := { list := [], listct := 0 }

/-- Code that fills the list. What it has added stays when it fails. -/
abbrev Parse (α : Type) := EStateM UnimapErr UniList α

/-- `add_unipair`. The new cells have no value yet. -/
def addUnipair (fp un : Nat) : Parse Unit := fun l =>
  let list := if l.listct = l.list.length then l.list ++ List.replicate 4096 ⟨0, 0⟩ else l.list
  match store list l.listct { unicode := un, fontpos := fp } with
  | some list => .ok () { list, listct := (l.listct + 1) % 65536 }
  | none => .error .outOfBounds l

/-- `for (i = fp0; i <= fp1; i++)`, with the code point for each position. -/
def addRange (fp0 fp1 : Nat) (un : Nat → Nat) : Parse Unit :=
  forM (List.range' fp0 (fp1 + 1 - fp0)) fun i => addUnipair i (un i)

/-- The part of `parseline` for a range of positions. -/
def parseRange (p : List Char) (fp0 fp1 : Nat) : Parse Unit :=
  let p := p.dropWhile isBlank
  if (bytes "idem").isPrefixOf p then addRange fp0 fp1 fun i => i
  else
    match getunicode p with
    | none => throw .noUnicode
    | some (un0, p) =>
      match p.dropWhile isBlank with
      | '-' :: p =>
        match getunicode p with
        | none => throw .noUnicode
        | some (un1, _) =>
          if (un1 : Int) - un0 ≠ (fp1 : Int) - fp0 then throw (.rangeMismatch un0 un1 fp0 fp1)
          else
            let un := (un0 + 65536 - fp0) % 65536
            addRange fp0 fp1 fun i => (un + i) % 65536
      | _ => addRange fp0 fp1 fun _ => un0

/-- `while (!getunicode(ctx, &p, &un0))`: a round reads at least one character. -/
def uniLoop (fp0 : Nat) : Nat → List Char → Parse Unit
  | 0, _ => pure ()
  | rounds + 1, p =>
    match getunicode p with
    | none => pure ()
    | some (un0, p) => do
      addUnipair fp0 un0
      uniLoop fp0 rounds p

/-- The end of the range of positions, which is 0 when there is none. -/
def rangeEnd (p : List Char) : Except UnimapErr (Nat × List Char) :=
  match p.dropWhile isBlank with
  | '-' :: p => strToUshort p
  | p => .ok (0, p)

/-- `parseline`. What is left of the line in the end is reported and ignored. -/
def parseline (buffer : List Char) : Parse Unit :=
  let p := buffer.dropWhile isBlank
  if p = [] || p.head? = some '#' then pure ()
  else do
    let (fp0, p) ← MonadExcept.ofExcept (strToUshort p)
    let (fp1, p) ← MonadExcept.ofExcept (rangeEnd p)
    if fp0 ≥ 512 then throw (.glyphNumber fp0)
    else if fp1 ≠ 0 ∧ (fp1 < fp0 ∨ fp1 ≥ 512) then throw (.badRange fp1)
    else if fp1 ≠ 0 then parseRange p fp0 fp1
    else uniLoop fp0 p.length p

/-! ## Files -/

/-- What `parseline` gets of a line: it ends before the newline, and before the first NUL. -/
def lineOf (buffer : List Char) : List Char := (cstr buffer).takeWhile (· ≠ '\n')

/-- The loop of `kfont_load_unicodemap`: a round reads at least one character. A line that is longer
than the buffer is reported, and goes on as another line. -/
def loadLines : Nat → List Char → Parse Unit
  | 0, _ => pure ()
  | rounds + 1, file =>
    if file = [] then pure ()
    else do
      let (buffer, rest) := fgets lineRoom file
      parseline (lineOf buffer)
      loadLines rounds rest

/-- How `kfont_load_unicodemap` succeeds. -/
inductive Loaded where
  | loaded
  /-- "not loading empty unimap" has been reported -/
  | empty
  deriving DecidableEq, Repr

/-- A call of the other parts of the library. -/
def ofKfont {α : Type} (m : Kfont α) : EStateM UnimapErr Trace α := fun tr =>
  match m tr with
  | .ok a tr => .ok a tr
  | .error e tr => .error (.kfont e) tr

/-- `kfont_load_unicodemap`, where `find` is the contents of the file that is found for a name and
`force` the option `kfont_force`. -/
def kfontLoadUnicodemap (k : Kernel) (find : List Char → Option (List Char)) (force : Bool)
    (tblname : List Char) : EStateM UnimapErr Trace Loaded :=
  match find tblname with
  | none => throw (.notFound tblname)
  | some file =>
    match (loadLines file.length file).run UniList.start with
    | .error e _ => throw e
    | .ok () l =>
      if l.listct = 0 ∧ !force then pure .empty
      else do
        ofKfont (kfontPutUnicodemap k (l.list.take l.listct))
        pure .loaded

/-! ## Saving -/

/-- `0x%02x`. -/
def fmtFontpos (n : Nat) : List Char := bytes "0x" ++ (Nat.toDigits 16 n).leftpad 2 '0'

/-- The line of a pair. -/
def pairText (p : Unipair) : List Char :=
  fmtFontpos p.fontpos ++ bytes "\tU+" ++ Kbd.Keymap.fmt04X p.unicode ++ ['\n']

/-- `kfont_save_unicodemap`: the file that is written. -/
def kfontSaveUnicodemap (k : Kernel) : Kfont (List Char) := do
  let unilist ← kfontGetUnicodemap k
  pure (unilist.flatMap pairText)

end Kbd.Font.Unimap
