import Kbd.Font.Psf
import Kbd.Font.Xtable

/-!
# Taking tables out of fonts and putting them in (`psfxtable.c`)

The program `psfxtable`, and the three names under which its options are fixed. The files it is told to
read exist, and it writes none of them. What it has written of a file when it fails is left out.
-/

namespace Kbd.Font

/-- What `psfxtable` is told to do with a font. -/
structure PsfxtableOptions where
  /-- the text of `-it` -/
  itab : Option (List Char) := none
  /-- `-o` -/
  ofil : Bool := false
  /-- `-ot` -/
  otab : Bool := false
  /-- `-nt` -/
  notable : Bool := false
  deriving DecidableEq, Repr

/-- The files that `psfxtable` writes. -/
structure PsfxtableFiles where
  ofil : Option (List UInt8) := none
  otab : Option (List Char) := none
  deriving DecidableEq, Repr

/-- The failures of `psfxtable`, each with its message. -/
inductive PsfxtableErr where
  /-- "Bad magic number on %s", whatever is wrong with the font -/
  | badFont (err : PsfErr)
  /-- "psf file with unknown magic" -/
  | unknownMagic
  /-- what `kfont_read_unicodetable` has reported -/
  | badTable (err : XtableErr)
  /-- "input font does not have an index" -/
  | noIndex
  /-- what `kfont_write_psffont` has reported -/
  | notWritten (err : PsfErr)
  deriving DecidableEq, Repr

/-- `psftype`. -/
def psftypeOf (inbuf : List UInt8) : Except PsfxtableErr Int :=
  if psf1Magic.isPrefixOf inbuf then .ok 1
  else if psf2Magic.isPrefixOf inbuf then .ok 2
  else .error .unknownMagic

/-- `height`, which is computed when there is none. -/
def outHeight (font : PsfFont) : Nat :=
  if font.fontheight = 0 then
    font.fontbuf.length / font.fontlen / max 1 ((font.fontwidth + 7) % 2 ^ 32 / 8)
  else font.fontheight

/-- The table to write: the one of `-it`, or that of the font. -/
def outTable (opts : PsfxtableOptions) (font : PsfFont) (uclistheads : Option (List UnicodeList)) :
    Except PsfxtableErr (Option (List UnicodeList)) :=
  match opts.itab with
  | none => .ok uclistheads
  | some itab =>
    match kfontReadUnicodetable itab font.fontlen with
    | .error err => .error (.badTable err)
    | .ok heads => .ok (some heads)

/-- `-ot`. Only a table that comes from the font is written. -/
def writeOtab (opts : PsfxtableOptions) (font : PsfFont) (hastable : Bool)
    (uclistheads : Option (List UnicodeList)) : Except PsfxtableErr (Option (List Char)) :=
  if !opts.otab then .ok none
  else if !hastable then .error .noIndex
  else .ok (some (kfontWriteUnicodetable font.fontlen (uclistheads.getD [])))

/-- `-o`. -/
def writeOfil (opts : PsfxtableOptions) (font : PsfFont) (psftype : Int)
    (uclistheads : Option (List UnicodeList)) : Except PsfxtableErr (Option (List UInt8)) :=
  if !opts.ofil then .ok none
  else
    match kfontWritePsffont font.fontbuf font.fontwidth (outHeight font) font.fontlen psftype
      (if opts.notable then none else uclistheads) with
    | .error err => .error (.notWritten err)
    | .ok (file, _) => .ok (some file)

/-- `psfxtable` once the font has been read. -/
def psfxtableWrite (opts : PsfxtableOptions) (inbuf : List UInt8) (font : PsfFont)
    (heads : Option (List UnicodeList)) : Except PsfxtableErr PsfxtableFiles := do
  let psftype ← psftypeOf inbuf
  let uclistheads ← outTable opts font heads
  let otab ← writeOtab opts font heads.isSome uclistheads
  let ofil ← writeOfil opts font psftype uclistheads
  pure { ofil, otab }

/-- `psfxtable`. The table of the font is read when none is given. -/
def psfxtable (opts : PsfxtableOptions) (ifil : List UInt8) : Except PsfxtableErr PsfxtableFiles :=
  match readFontfile ifil with
  | .error err => .error (.badFont err)
  | .ok inbuf =>
    match kfontReadPsffont inbuf 0 (if opts.itab.isSome then none else some []) with
    | .error err => .error (.badFont err)
    | .ok (font, heads) => psfxtableWrite opts inbuf font heads

/-- `psfaddtable`. -/
def psfaddtable (infont : List UInt8) (intable : List Char) : Except PsfxtableErr PsfxtableFiles :=
  psfxtable { itab := some intable, ofil := true } infont

/-- `psfgettable`. -/
def psfgettable (infont : List UInt8) : Except PsfxtableErr PsfxtableFiles :=
  psfxtable { otab := true } infont

/-- `psfstriptable`. -/
def psfstriptable (infont : List UInt8) : Except PsfxtableErr PsfxtableFiles :=
  psfxtable { ofil := true, notable := true } infont

end Kbd.Font
