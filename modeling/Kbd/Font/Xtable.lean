import Kbd.Font.Unicode
import Kbd.Keymap.Text

/-!
# Unicode tables as text (`psfxtable.c`)

A line of the text has a font position, or a range of them, and the code points it stands for. What
comes after the last code point that can be read is reported and ignored, so a line with a mistake
may lose its end without the file being refused.
-/

namespace Kbd.Font

open Kbd.Keymap (bytes cstr digitVal digits)

/-- The failures of `psfxtable.c`, each with its message. -/
inductive XtableErr where
  /-- "Unable to parse number: %s" -/
  | notANumber (p : List Char)
  /-- "Number must not be negative: %ld", or out of the range of a `long` -/
  | negative (v : Int)
  /-- "Number too big: %ld", or out of the range of a `long` -/
  | tooBig (v : Int)
  /-- "Warning: line too long" -/
  | lineTooLong
  /-- "Glyph number (0x%x) past end of font" -/
  | pastEnd (fp0 : Int)
  /-- "Bad end of range (0x%x)" -/
  | badRange (fp1 : Int)
  /-- a range without the code point it needs; no message -/
  | noUnicode
  /-- "Corresponding to a range of font positions, there should be a Unicode range" -/
  | noUnicodeRange
  /-- "Unicode range U+%x-U+%x not of the same length as font position range 0x%x-0x%x" -/
  | rangeMismatch (un0 un1 fp0 fp1 : Int)
  deriving DecidableEq, Repr

/-- The test of the loops that skip blanks. -/
def isBlank (c : Char) : Bool := c = ' ' || c = '\t'

/-- `isspace`. -/
def isspace (c : Char) : Bool :=
  c = ' ' || c = '\t' || c = '\n' || c = '\x0b' || c = '\x0c' || c = '\r'

/-- `isxdigit`. -/
def isxdigit (c : Char) : Bool := (digitVal c).isSome

/-- The base that `strtol` goes by when it is given 0, and the text after the prefix. A prefix
without a digit after it is only the digit 0. -/
def strtolBase : List Char → Nat × List Char
  | '0' :: x :: d :: s =>
    if (x = 'x' || x = 'X') && isxdigit d then (16, d :: s) else (8, '0' :: x :: d :: s)
  | '0' :: s => (8, '0' :: s)
  | s => (10, s)

/-- The sign that `strtol` takes before the digits. -/
def strtolSign : List Char → Bool × List Char
  | '-' :: s => (true, s)
  | '+' :: s => (false, s)
  | s => (false, s)

/-- `strtol` with base 0: the value, not cut to a `long`, and the rest; `none` when there is no
number. -/
def strtol0 (p : List Char) : Option (Int × List Char) :=
  let (minus, s) := strtolSign (p.dropWhile isspace)
  let (base, s) := strtolBase s
  let run := s.takeWhile fun c => (digitVal c).any (· < base)
  if run = [] then none
  else some (if minus then -(digits base s 0 : Int) else digits base s 0, s.drop run.length)

/-- `str_to_unicode` with base 0. -/
def strToUnicode (p : List Char) : Except XtableErr (Unicode × List Char) :=
  match strtol0 p with
  | none => .error (.notANumber p)
  | some (v, e) =>
    if v < 0 then .error (.negative v)
    else if v > 0x7fffffff then .error (.tooBig v)
    else .ok (v, e)

/-- `getunicode`: exactly four digits. Four digits are always a number that fits. -/
def getunicode (p0 : List Char) : Option (Unicode × List Char) :=
  match p0.dropWhile isBlank with
  | 'U' :: '+' :: p2 :: p3 :: p4 :: p5 :: p =>
    if !isxdigit p2 || !isxdigit p3 || !isxdigit p4 || !isxdigit p5 || p.head?.any isxdigit then none
    else some (digits 16 [p2, p3, p4, p5] 0, p)
  | _ => none

/-- The loop of `parse_itab_line` after a comma. A comma with no code point after it is not
consumed. -/
def seqLoop : Nat → List Char → UnicodeList → List Char × UnicodeList
  | 0, p, up => (p, up)
  | rounds + 1, p, up =>
    match p with
    | ',' :: p' =>
      match getunicode p' with
      | some (un1, p'') => seqLoop rounds p'' (addseq up un1)
      | none => (p, up)
    | _ => (p, up)

/-- The loop of `parse_itab_line` over the descriptions of a glyph. -/
def uniLoop : Nat → List Char → UnicodeList → List Char × UnicodeList
  | 0, p, up => (p, up)
  | rounds + 1, p, up =>
    match getunicode p with
    | none => (p, up)
    | some (un0, p') =>
      let (p'', up') := seqLoop p'.length p' (addpair up un0)
      uniLoop rounds p'' up'

/-- `addpair` for the positions `fp0` to `fp1`, each with its own code point. -/
def addRange (heads : List UnicodeList) (fp0 fp1 : Int) (uc : Int → Unicode) : List UnicodeList :=
  (List.range (fp1 - fp0 + 1).toNat).foldl
    (fun heads k => heads.modify (fp0.toNat + k) (addpair · (uc (fp0 + k)))) heads

/-- The part of `parse_itab_line` for a range of positions. -/
def parseRange (p : List Char) (fp0 fp1 : Int) (heads : List UnicodeList) :
    Except XtableErr (List UnicodeList) :=
  let p := p.dropWhile isBlank
  if (bytes "idem").isPrefixOf p then .ok (addRange heads fp0 fp1 fun i => i)
  else
    match getunicode p with
    | none => .error .noUnicode
    | some (un0, p) =>
      match p.dropWhile isBlank with
      | '-' :: p =>
        match getunicode p with
        | none => .error .noUnicode
        | some (un1, _) =>
          if un1 - un0 ≠ fp1 - fp0 then .error (.rangeMismatch un0 un1 fp0 fp1)
          else .ok (addRange heads fp0 fp1 fun i => un0 - fp0 + i)
      | _ => .error .noUnicodeRange

/-- The end of the range of positions, which is 0 when there is none. -/
def rangeEnd : List Char → Except XtableErr (Unicode × List Char)
  | '-' :: p => strToUnicode p
  | p => .ok (0, p)

/-- `parse_itab_line` on what `fgets` has put into the buffer. -/
def parseItabLine (buf : List Char) (fontlen : Nat) (heads : List UnicodeList) :
    Except XtableErr (List UnicodeList) :=
  if !(cstr buf).contains '\n' then .error .lineTooLong
  else
    let p := ((cstr buf).takeWhile (· ≠ '\n')).dropWhile isBlank
    if p = [] || p.head? = some '#' then .ok heads
    else do
      let (fp0, p) ← strToUnicode p
      let (fp1, p) ← rangeEnd p
      if fp0 ≥ fontlen then .error (.pastEnd fp0)
      else if fp1 ≠ 0 ∧ (fp1 < fp0 ∨ fp1 ≥ fontlen) then .error (.badRange fp1)
      else if fp1 ≠ 0 then parseRange p fp0 fp1 heads
      else pure (heads.modify fp0.toNat fun up => (uniLoop p.length p up).2)

/-- `fgets` with room for `n` characters: the line and the rest of the file. -/
def fgets : Nat → List Char → List Char × List Char
  | 0, file => ([], file)
  | _ + 1, [] => ([], [])
  | n + 1, c :: file =>
    if c = '\n' then ([c], file)
    else
      let (buf, rest) := fgets n file
      (c :: buf, rest)

/-- The size of `buf` in `kfont_read_unicodetable`, less the byte for the final NUL. -/
abbrev lineRoom : Nat := 65535

/-- The loop of `kfont_read_unicodetable`: a round reads at least one character. -/
def readLines (fontlen : Nat) : Nat → List Char → List UnicodeList →
    Except XtableErr (List UnicodeList)
  | 0, _, heads => .ok heads
  | rounds + 1, file, heads =>
    if file = [] then .ok heads
    else do
      let (buf, rest) := fgets lineRoom file
      let heads ← parseItabLine buf fontlen heads
      readLines fontlen rounds rest heads

/-- `kfont_read_unicodetable`. -/
def kfontReadUnicodetable (file : List Char) (fontlen : Nat) :
    Except XtableErr (List UnicodeList) :=
  readLines fontlen file.length file (List.replicate fontlen clearUniEntry)

/-! ## Writing -/

/-- `%04x` of a `unicode`. -/
def fmtUnicode (uc : Unicode) : List Char := Kbd.Keymap.fmt04X (uc % 2 ^ 32).toNat

/-- `0x%03x`. -/
def fmtPosition (i : Nat) : List Char := bytes "0x" ++ (Nat.toDigits 16 i).leftpad 3 '0'

/-- The code points of one description; the first comes after `sep`. -/
def seqText (sep : String) : List Unicode → List Char
  | [] => []
  | uc :: us => bytes sep ++ bytes "U+" ++ fmtUnicode uc ++ seqText ", " us

/-- The descriptions of a glyph. -/
def listText (sep : String) : UnicodeList → List Char
  | [] => []
  | us :: ul => seqText sep us ++ listText " " ul

/-- The line of a glyph. -/
def glyphText (i : Nat) (ul : UnicodeList) : List Char :=
  fmtPosition i ++ ['\t'] ++ listText "" ul ++ ['\n']

/-- `kfont_write_unicodetable`. -/
def kfontWriteUnicodetable (fontlen : Nat) (uclistheads : List UnicodeList) : List Char :=
  bytes "#\n# Character table extracted from font\n#\n" ++
    ((uclistheads.take fontlen).zipIdx.flatMap fun (ul, i) => glyphText i ul)

end Kbd.Font
