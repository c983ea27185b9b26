import Kbd.Font.Psf

/-!
# Fonts and Unicode maps of the console (`kdfontop.c`, `kdmapop.c`)

The code talks to the kernel through `ioctl`. A `Request` is a call with its argument; the `Trace`
has the requests made so far, and a `Kernel` answers a request by what it has seen. Nothing is said
about the answers here, so the code is followed through every pattern of successes and failures.
-/

namespace Kbd.Font

/-- The values of `errno` the code tells apart. -/
inductive Errno where
  | enosys
  | einval
  | enospc
  | enomem
  | other (n : Nat)
  deriving DecidableEq, Repr

/-- The operations of `KDFONTOP` the code uses. -/
inductive KdFontOp where
  | set
  | get
  | setTall
  | getTall
  deriving DecidableEq, Repr

/-- `struct console_font_op`; `flags` is always 0. -/
structure ConsoleFontOp where
  op : KdFontOp
  width : Nat
  height : Nat
  charcount : Nat
  /-- `none` is a null pointer -/
  data : Option (List UInt8)
  deriving DecidableEq, Repr

/-- `struct unipair`. -/
structure Unipair where
  unicode : Nat
  fontpos : Nat
  deriving DecidableEq, Repr

/-- The requests the code makes. -/
inductive Request where
  | kdgetmode
  | kdfontop (cfo : ConsoleFontOp)
  /-- `GIO_UNIMAP` with room for so many pairs -/
  | gioUnimap (entryCt : Nat)
  /-- `PIO_UNIMAPCLR` with `advised_hashlevel`; the other two fields of the advice are 0 -/
  | pioUnimapclr (hashlevel : Nat)
  | pioUnimap (entries : List Unipair)
  deriving DecidableEq, Repr

/-- The requests made so far. -/
abbrev Trace := List Request

/-- `struct unimapdesc` after `GIO_UNIMAP`, and whether the call has failed. -/
structure UnimapReply where
  errno : Option Errno
  entryCt : Nat
  entries : List Unipair
  deriving DecidableEq, Repr

/-- How the kernel answers. -/
structure Kernel where
  kdgetmode : Trace → Except Errno Nat
  kdfontop : Trace → ConsoleFontOp → Except Errno ConsoleFontOp
  gioUnimap : Trace → Nat → UnimapReply
  pioUnimapclr : Trace → Nat → Option Errno
  pioUnimap : Trace → List Unipair → Option Errno

/-- The failures of the library, each with its message. -/
inductive KfontErr where
  /-- "ioctl(KDGETMODE): %m", or "Console is not in text mode" -/
  | notText
  /-- "ioctl(KDFONTOP): %m" -/
  | kdfontop (errno : Errno)
  /-- "Unable to load such font with such kernel version" -/
  | kernelVersion
  /-- "ioctl(GIO_UNIMAP): %m" -/
  | gioUnimap (errno : Errno)
  /-- "ioctl(PIO_UNIMAPCLR): %m" -/
  | pioUnimapclr (errno : Errno)
  /-- "ioctl(PIO_UNIMAP): %m" -/
  | pioUnimap (errno : Errno)
  /-- "Bad character height %d (limit is 128)" -/
  | badHeight (height : Nat)
  /-- "Bad character width %d (limit is 64)" -/
  | badWidth (width : Nat)
  /-- an access outside of a buffer, which the source does not check -/
  | outOfBounds
  /-- "bug in do_loadtable" -/
  | loadtable
  /-- "Unable to find file: %s", or "Cannot find default font" -/
  | notFound (ifil : List Char)
  /-- "When loading several fonts, all must be psf fonts - %s isn't" -/
  | notPsf (ifil : List Char)
  /-- "When loading several fonts, all must have the same height" -/
  | differentHeight
  /-- "When loading several fonts, all must have the same width" -/
  | differentWidth
  /-- "No final newline in combine file" -/
  | noFinalNewline
  /-- "Too many files to combine" -/
  | tooManyFiles
  /-- "Bad input file size" -/
  | badFileSize
  /-- `exit(EX_USAGE)` of `position_codepage`: the program ends, and no function returns -/
  | exit
  /-- a failure of `psffontop.c` -/
  | psf (err : PsfErr)
  deriving DecidableEq, Repr

/-- Code that makes requests. -/
abbrev Kfont (α : Type) := EStateM KfontErr Trace α

/-- `KD_TEXT`. -/
abbrev kdText : Nat := 0

variable (k : Kernel)

/-! ## Requests -/

def ioctlKdgetmode : Kfont (Except Errno Nat) :=
  fun tr => .ok (k.kdgetmode tr) (tr ++ [.kdgetmode])

def ioctlKdfontop (cfo : ConsoleFontOp) : Kfont (Except Errno ConsoleFontOp) :=
  fun tr => .ok (k.kdfontop tr cfo) (tr ++ [.kdfontop cfo])

def ioctlGioUnimap (entryCt : Nat) : Kfont UnimapReply :=
  fun tr => .ok (k.gioUnimap tr entryCt) (tr ++ [.gioUnimap entryCt])

def ioctlPioUnimapclr (hashlevel : Nat) : Kfont (Option Errno) :=
  fun tr => .ok (k.pioUnimapclr tr hashlevel) (tr ++ [.pioUnimapclr hashlevel])

def ioctlPioUnimap (entries : List Unipair) : Kfont (Option Errno) :=
  fun tr => .ok (k.pioUnimap tr entries) (tr ++ [.pioUnimap entries])

/-! ## Fonts -/

/-- `is_kd_text`. -/
def isKdText : Kfont Bool := do
  match ← ioctlKdgetmode k with
  | .error _ => pure false
  | .ok mode => pure (mode = kdText)

/-- `font_charheight`: the last row that is not blank, with glyphs 32 rows apart. -/
def fontCharheight (buf : List UInt8) (count width : Nat) : Nat :=
  let bw := (width + 7) / 8
  ((List.range 32).reverse.find? fun h => (List.range count).any fun i =>
    (List.range bw).any fun x => buf.getD ((32 * i + h) * bw + x) 0 ≠ 0).elim 0 (· + 1)

/-- The number of glyphs that fit into `MAXFONTSIZE` at the greatest size. -/
abbrev maxCharcount : Nat := maxFontSize / (64 * 128 / 8)

/-- What `kfont_get_font` finds. -/
structure GotFont where
  buf : List UInt8
  count : Nat
  width : Nat
  height : Nat
  vpitch : Nat
  deriving DecidableEq, Repr

/-- The loop of `get_font_kdfontop` that asks for the size of the font: a second time, and with
another operation, when the font is too large for the first. -/
def probeFont : Kfont ConsoleFontOp := do
  let cfo : ConsoleFontOp :=
    { op := .get, width := 32, height := 32, charcount := maxCharcount, data := none }
  match ← ioctlKdfontop k cfo with
  | .ok cfo => pure cfo
  | .error .enospc =>
    match ← ioctlKdfontop k { cfo with op := .getTall, width := 64, height := 128 } with
    | .ok cfo => pure cfo
    | .error e => throw (.kdfontop e)
  | .error e => throw (.kdfontop e)

/-- `get_font_kdfontop` with a buffer that has room for `count` glyphs of the greatest size. -/
def getFontKdfontop (buf : List UInt8) (count : Nat) : Kfont GotFont := do
  if !(← isKdText k) then throw .notText
  else do
    let cfo ← probeFont k
    match ← ioctlKdfontop k { cfo with data := some buf, charcount := count } with
    | .error e => throw (.kdfontop e)
    | .ok cfo =>
      pure { buf := cfo.data.getD [], count := cfo.charcount, width := cfo.width,
             height := cfo.height, vpitch := if cfo.op = .getTall then cfo.height else 32 }

/-- The request of `put_font_kdfontop`. -/
def putFontOp (buf : List UInt8) (count width height vpitch : Nat) : ConsoleFontOp :=
  { op := if vpitch = 32 ∧ width ≤ 32 then .set else .setTall, width, height, charcount := count,
    data := some buf }

/-- The second request, with the number of glyphs rounded up. -/
def retryFontOp (cfo : ConsoleFontOp) (buf : List UInt8) (count : Nat) : ConsoleFontOp :=
  let ct := if count > 256 then 512 else 256
  { cfo with data := some (buf.take (32 * count) ++ List.replicate (32 * ct - 32 * count) 0),
             charcount := ct }

/-- `put_font_kdfontop`. -/
def putFontKdfontop (buf : List UInt8) (count width height vpitch : Nat) : Kfont Unit := do
  if !(← isKdText k) then throw .notText
  else do
    let cfo := putFontOp buf count width height vpitch
    match ← ioctlKdfontop k cfo with
    | .ok _ => pure ()
    | .error .enosys => throw .kernelVersion
    | .error e =>
      if e = .einval ∧ width = 8 ∧ count ≠ 256 ∧ count < 512 then do
        match ← ioctlKdfontop k (retryFontOp cfo buf count) with
        | .ok _ => pure ()
        | .error e => throw (.kdfontop e)
      else throw (.kdfontop e)

/-- `kfont_put_font`. -/
def kfontPutFont (buf : List UInt8) (count width height vpitch : Nat) : Kfont Unit :=
  let width := if width = 0 then 8 else width
  let height := if height = 0 then fontCharheight buf count width else height
  putFontKdfontop k buf count width height vpitch

/-! ## Unicode maps -/

/-- `kfont_get_unicodemap`: the first call finds the number of pairs. -/
def kfontGetUnicodemap : Kfont (List Unipair) := do
  let ud ← ioctlGioUnimap k 0
  match ud.errno with
  | none => pure []
  | some e =>
    if e ≠ .enomem ∨ ud.entryCt = 0 then throw (.gioUnimap e)
    else do
      let ud ← ioctlGioUnimap k ud.entryCt
      match ud.errno with
      | none => pure (ud.entries.take ud.entryCt)
      | some e => throw (.gioUnimap e)

/-- The loop of `kfont_put_unicodemap`, which advises a larger table when there is no memory. -/
def putUnicodemapFrom (ud : List Unipair) : Nat → Nat → Kfont Unit
  | tries, hashlevel => do
    match ← ioctlPioUnimapclr k hashlevel with
    | some e => throw (.pioUnimapclr e)
    | none =>
      match ← ioctlPioUnimap k ud with
      | none => pure ()
      | some e =>
        match tries with
        | 0 => throw (.pioUnimap e)
        | tries + 1 =>
          if e = .enomem then putUnicodemapFrom ud tries (hashlevel + 1) else throw (.pioUnimap e)

/-- `kfont_put_unicodemap` without advice; `advised_hashlevel` goes up to 100. -/
def kfontPutUnicodemap (ud : List Unipair) : Kfont Unit := putUnicodemapFrom k ud 100 0

end Kbd.Font
