import Kbd.Font.Kdfontop
import Kbd.Keymap.Text
import Kbd.Lib.Buffer

/-!
# Loading and saving fonts (`setfont.c`, `appendunicodemap` of `loadunimap.c`)

`try_loadfont` copies the glyphs into a buffer in which each has the room the kernel expects, doubled
in size when this is asked for. Its arithmetic is that of `unsigned int`, and no access is checked:
here one that leaves a buffer is the error `outOfBounds`.

A font file is found by name. It is a PSF file, a list of other fonts to combine, or a plain bitmap
whose size tells its height. `erase_mode` has the value 1: a glyph 32 that is not blank is only
reported.
-/

namespace Kbd.Font

open Kbd.Keymap (bytes cstr fmtU)
open Kbd.Lib.Buffer

/-! ## The buffer of `try_loadfont` -/

/-- The indices of three nested loops, in order. -/
def loopIndices (n m l : Nat) : List (Nat × Nat × Nat) :=
  (List.range n).flatMap fun i => (List.range m).flatMap fun y => (List.range l).map fun x => (i, y, x)

/-- The four lower bits of a byte, each of them twice. -/
def doubledBits (b : UInt8) : UInt8 :=
  (List.range 4).foldl (fun b2 j => if b.toNat &&& 1 <<< j ≠ 0 then b2 ||| UInt8.ofNat (3 <<< (j * 2))
    else b2) 0

/-- Byte `x` of a doubled row, from the byte of the source it comes from. -/
def doubledByte (b : UInt8) (x : Nat) : UInt8 := doubledBits (if x % 2 = 0 then b >>> 4 else b)

/-- The sizes of `try_loadfont` that do not depend on the number of glyphs. -/
structure GlyphSizes where
  bytewidth : Nat
  charsize : Nat
  kbytewidth : Nat
  vpitch : Nat
  kcharsize : Nat
  deriving DecidableEq, Repr

/-- `charsize` and `kcharsize` with doubling or without it. -/
def glyphSizes (double : Bool) (width height vpitch : Nat) : GlyphSizes :=
  let bw := u32 (width + 7) / 8
  let kbw := if double then u32 (2 * width + 7) / 8 else bw
  let vpitch := if double ∧ u32 (2 * height) > vpitch then u32 (2 * height) else vpitch
  { bytewidth := bw, charsize := u32 (height * bw), kbytewidth := kbw, vpitch,
    kcharsize := u32 (vpitch * kbw) }

/-- `buflen`. -/
def buflen (sz : GlyphSizes) (fontsize : Nat) : Nat :=
  u32 (sz.kcharsize * if fontsize < 128 then 128 else fontsize)

/-- One round of the three loops that double the glyphs. -/
def doubleStep (inbuf : List UInt8) (sz : GlyphSizes) (buf : List UInt8) :
    Nat × Nat × Nat → Option (List UInt8)
  | (i, y, x) => do
    let b ← inbuf[u32 (i * sz.charsize + y * sz.bytewidth + x / 2)]?
    let buf ← store buf (u32 (i * sz.kcharsize + y * 2 * sz.kbytewidth + x)) (doubledByte b x)
    store buf (u32 (i * sz.kcharsize + (y * 2 + 1) * sz.kbytewidth + x)) (doubledByte b x)

/-- One round of the loop that copies the glyphs. -/
def copyStep (inbuf : List UInt8) (sz : GlyphSizes) (buf : List UInt8) (i : Nat) :
    Option (List UInt8) := do
  let glyph ← slice inbuf (u32 (i * sz.charsize)) sz.charsize
  copyTo buf (u32 (i * sz.kcharsize)) glyph

/-- The buffer of `try_loadfont`; `none` when an access leaves it or leaves `inbuf`. -/
def fillBuffer (double : Bool) (inbuf : List UInt8) (sz : GlyphSizes) (height fontsize : Nat) :
    Option (List UInt8) :=
  let buf := List.replicate (buflen sz fontsize) 0
  if double then (loopIndices fontsize height sz.kbytewidth).foldlM (doubleStep inbuf sz) buf
  else (List.range fontsize).foldlM (copyStep inbuf sz) buf

/-- The test of glyph 32: whether it is not blank. -/
def eraseCharTest (buf : List UInt8) (sz : GlyphSizes) : Option Bool :=
  (slice buf (u32 (32 * sz.kcharsize)) sz.kcharsize).map fun glyph => glyph.any (· ≠ 0)

/-- Whether the glyphs are doubled: a font that is too large is not. -/
def doubles (doubleSize : Bool) (width height : Nat) : Bool :=
  doubleSize && !(height > 64 || width > 32)

variable (k : Kernel)

/-- `try_loadfont`; `doubleSize` is the option `kfont_double_size`. -/
def tryLoadfont (doubleSize : Bool) (inbuf : List UInt8) (width height vpitch hwunit fontsize : Nat) :
    Kfont Unit :=
  if height < 1 ∨ height > 128 then throw (.badHeight height)
  else if width < 1 ∨ width > 64 then throw (.badWidth width)
  else
    let hwunit := if hwunit = 0 then height else hwunit
    let double := doubles doubleSize width height
    let sz := glyphSizes double width height vpitch
    match fillBuffer double inbuf sz height fontsize with
    | none => throw .outOfBounds
    | some buf =>
      match eraseCharTest buf sz with
      | none => throw .outOfBounds
      | some _ =>
        if double then kfontPutFont k buf fontsize (2 * width) (u32 (2 * hwunit)) sz.vpitch
        else kfontPutFont k buf fontsize width hwunit sz.vpitch

/-- The pitch that `do_loadfont` starts with. -/
def loadPitch (width height : Nat) : Nat := if height ≤ 32 ∧ width ≤ 32 then 32 else height

/-- `do_loadfont`. -/
def doLoadfont (doubleSize : Bool) (inbuf : List UInt8) (width height hwunit fontsize : Nat) :
    Kfont Unit :=
  tryLoadfont k doubleSize inbuf width height (loadPitch width height) hwunit fontsize

/-! ## The table -/

/-- The pairs of `do_loadtable`: sequences are left out. -/
def tablePairs (uclistheads : List UnicodeList) : List Unipair :=
  uclistheads.zipIdx.flatMap fun (ul, i) => ul.filterMap fun us =>
    match us with
    | [uc] => some { unicode := (uc % 65536).toNat, fontpos := i % 65536 }
    | _ => none

/-- `do_loadtable`. -/
def doLoadtable (uclistheads : List UnicodeList) (fontsize : Nat) : Kfont Unit :=
  let up := tablePairs (uclistheads.take fontsize)
  if up.length > 65535 then throw .loadtable else kfontPutUnicodemap k up

/-! ## Font files -/

/-- The files that `findfont` and `findpartialfont` find for a name. -/
structure FontDirs where
  findfont : List Char → Option (List UInt8)
  findpartialfont : List Char → Option (List UInt8)

/-- The arguments of `do_loadfont` and `do_loadtable`. -/
structure LoadArgs where
  inbuf : List UInt8
  width : Nat
  height : Nat
  hwunit : Nat
  fontsize : Nat
  uclistheads : Option (List UnicodeList)
  deriving DecidableEq, Repr

/-- The height when the header does not give one. -/
def fontHeight (font : PsfFont) : Nat :=
  if font.fontheight = 0 then font.fontbuf.length / ((font.fontwidth + 7) / 8 * font.fontlen)
  else font.fontheight

/-- `kfont_read_psffont` on an open file, and what it leaves in `inbuf`. -/
def readPsffontFile (file : List UInt8) (fontpos0 : Nat) (uclistheads : Option (List UnicodeList)) :
    Except PsfErr (PsfFont × Option (List UnicodeList)) := do
  let inbuf ← readFontfile file
  kfontReadPsffont inbuf fontpos0 uclistheads

/-- The variables of the loop of `kfont_load_fonts`. -/
structure BigFont where
  bigfontbuf : List UInt8
  bigfontbuflth : Nat
  bigfontsize : Nat
  bigheight : Nat
  bigwidth : Nat
  uclistheads : Option (List UnicodeList)
  deriving DecidableEq, Repr

/-- The start of the loop; `uclistheads` is not read when `no_u` is set. -/
def BigFont.start (noU : Bool) : BigFont :=
  { bigfontbuf := [], bigfontbuflth := 0, bigfontsize := 0, bigheight := 0, bigwidth := 0,
    uclistheads := if noU then none else some [] }

/-- One round of the loop of `kfont_load_fonts`. -/
def mergeFont (dirs : FontDirs) (big : BigFont) (ifil : List Char) : Except KfontErr BigFont :=
  match dirs.findfont ifil <|> dirs.findpartialfont ifil with
  | none => .error (.notFound ifil)
  | some file =>
    match readPsffontFile file big.bigfontsize big.uclistheads with
    | .error _ => .error (.notPsf ifil)
    | .ok (font, uclistheads) =>
      let height := fontHeight font
      if big.bigheight ≠ 0 ∧ big.bigheight ≠ height then .error .differentHeight
      else if big.bigwidth ≠ 0 ∧ big.bigwidth ≠ font.fontwidth then .error .differentWidth
      else
        let fontbuflth := font.fontbuf.length
        let bigfontbuflth := u32 (big.bigfontbuflth + fontbuflth)
        -- the copy ends where the buffer does, and starts before it when the sum has wrapped
        if bigfontbuflth < fontbuflth then .error .outOfBounds
        else
          .ok { bigfontbuf := big.bigfontbuf.take (bigfontbuflth - fontbuflth) ++ font.fontbuf,
                bigfontbuflth,
                bigfontsize := u32 (big.bigfontsize + font.fontlen),
                bigheight := height, bigwidth := font.fontwidth, uclistheads }

/-- Loads a font and its table. -/
def loadFontAndTable (doubleSize : Bool) (args : LoadArgs) : Kfont Unit := do
  doLoadfont k doubleSize args.inbuf args.width args.height args.hwunit args.fontsize
  match args.uclistheads with
  | some heads => doLoadtable k heads args.fontsize
  | none => pure ()

/-- `kfont_load_fonts` for a number of files other than one. -/
def loadMerged (dirs : FontDirs) (doubleSize : Bool) (ifiles : List (List Char)) (hwunit : Nat)
    (noU : Bool) : Kfont Unit :=
  match ifiles.foldlM (mergeFont dirs) (BigFont.start noU) with
  | .error e => throw e
  | .ok big => loadFontAndTable k doubleSize
      { inbuf := big.bigfontbuf, width := big.bigwidth, height := big.bigheight, hwunit,
        fontsize := big.bigfontsize, uclistheads := big.uclistheads }

/-- `position_codepage`; other heights end the program. -/
def positionCodepage : Nat → Option Nat
  | 8 => some 7732
  | 14 => some 4142
  | 16 => some 40
  | _ => none

/-- The font in a file without any header. -/
def bareFont (inbuf : List UInt8) (iunit hwunit : Nat) : Except KfontErr LoadArgs :=
  let inputlth := inbuf.length
  if inputlth = 9780 then
    match positionCodepage iunit with
    | none => .error .exit
    | some offset => .ok { inbuf := inbuf.drop offset, width := 8, height := iunit, hwunit,
                           fontsize := 256, uclistheads := none }
  else if inputlth = 32768 then
    .ok { inbuf, width := 8, height := 32, hwunit := if hwunit = 0 then 16 else hwunit,
          fontsize := 512, uclistheads := none }
  else
    let rem := inputlth % 256
    if rem = 0 ∨ rem = 40 then
      .ok { inbuf := inbuf.drop rem, width := 8, height := inputlth / 256, hwunit,
            fontsize := 256, uclistheads := none }
    else .error .badFileSize

/-- `combineheader`. -/
def combineheader : List Char := bytes "# combine partial fonts\n"

/-- `MAXIFILES`. -/
abbrev maxIfiles : Nat := 256

/-- The lines of a combine file, each of which is a name up to its first NUL. -/
def combineNames : List Char → List Char → Nat → Except KfontErr (List (List Char))
  | [], [], _ => .ok []
  | [], _ :: _, _ => .error .noFinalNewline
  | q :: rest, p, ifilct =>
    if q ≠ '\n' then combineNames rest (p ++ [q]) ifilct
    else if ifilct = maxIfiles then .error .tooManyFiles
    else do
      let names ← combineNames rest [] (ifilct + 1)
      pure (cstr p :: names)

/-- What `kfont_load_font` makes of a file. -/
inductive FontFile where
  | font (args : LoadArgs)
  | combine (ifiles : List (List Char))
  deriving DecidableEq, Repr

/-- The part of `kfont_load_font` after the file has been found. A file that is too long is not in
`inbuf`, which is empty then. -/
def classifyFont (file : List UInt8) (iunit hwunit : Nat) (noU : Bool) : Except KfontErr FontFile :=
  match readPsffontFile file 0 (if noU then none else some []) with
  | .ok (font, uclistheads) =>
    .ok (.font { inbuf := font.fontbuf, width := font.fontwidth, height := fontHeight font, hwunit,
                 fontsize := font.fontlen, uclistheads })
  | .error _ =>
    let inbuf := (readFontfile file).toOption.getD []
    let text := inbuf.map fun b => Char.ofNat b.toNat
    if combineheader.isPrefixOf text then
      (combineNames (text.drop combineheader.length) [] 0).map .combine
    else (bareFont inbuf iunit hwunit).map .font

/-- The file that `kfont_load_font` opens: an empty name stands for a default. -/
def openFont (dirs : FontDirs) (ifil : List Char) (iunit : Nat) : Option (List UInt8) :=
  if ifil = [] then
    let iunit := if iunit > 32 then 0 else iunit
    if iunit = 0 then
      dirs.findfont (bytes "default") <|> dirs.findfont (bytes "default8x16") <|>
        dirs.findfont (bytes "default8x14") <|> dirs.findfont (bytes "default8x8")
    else dirs.findfont (bytes "default8x" ++ fmtU iunit) <|> dirs.findfont (bytes "default")
  else dirs.findfont ifil

/-- `iunit` as `kfont_load_font` goes on with it: a height that is too large for a default font is
forgotten. -/
def effectiveIunit (ifil : List Char) (iunit : Nat) : Nat :=
  if ifil = [] ∧ iunit > 32 then 0 else iunit

/-- `kfont_load_font`. It calls itself for a combine file with one name, as often as there are such
files in a row: `none` when `depth` calls are not enough. -/
def kfontLoadFont (dirs : FontDirs) (doubleSize : Bool) (hwunit : Nat) (noU : Bool) :
    Nat → List Char → Nat → Option (Kfont Unit)
  | 0, _, _ => none
  | depth + 1, ifil, iunit =>
    match openFont dirs ifil iunit with
    | none => some (throw (.notFound ifil))
    | some file =>
      let iunit := effectiveIunit ifil iunit
      match classifyFont file iunit hwunit noU with
      | .error e => some (throw e)
      | .ok (.font args) => some (loadFontAndTable k doubleSize args)
      | .ok (.combine [ifil]) => kfontLoadFont dirs doubleSize hwunit noU depth ifil iunit
      | .ok (.combine ifiles) => some (loadMerged k dirs doubleSize ifiles hwunit noU)

/-- `kfont_load_fonts`. -/
def kfontLoadFonts (dirs : FontDirs) (doubleSize : Bool) (hwunit : Nat) (noU : Bool) (depth : Nat)
    (ifiles : List (List Char)) (iunit : Nat) : Option (Kfont Unit) :=
  match ifiles with
  | [ifil] => kfontLoadFont k dirs doubleSize hwunit noU depth ifil iunit
  | ifiles => some (loadMerged k dirs doubleSize ifiles hwunit noU)

/-! ## Saving -/

/-- The glyphs of `save_font`, each without the rows after it. -/
def saveGlyphs (buf : List UInt8) (ct charsize kcharsize : Nat) : List UInt8 :=
  (List.range ct).flatMap fun i => (buf.drop (i * kcharsize)).take charsize

/-- `save_font`: what is written, the number of glyphs and whether the table is in UTF-8. -/
def saveFont (unimapFollows : Bool) : Kfont (List UInt8 × Nat × Bool) := do
  let got ← getFontKdfontop k (List.replicate maxFontSize 0) maxCharcount
  let height := if got.height = 0 then fontCharheight got.buf got.count got.width else got.height
  let bw := (got.width + 7) / 8
  let (header, psftype) := writepsffontheader got.width height got.count 1 unimapFollows false
  pure (header ++ saveGlyphs got.buf got.count (height * bw) (got.vpitch * bw), got.count, psftype = 2)

/-- One glyph of `appendunicodemap`. -/
def appendGlyphMap (unilist : List Unipair) (utf8 : Bool) (i : Nat) : Except PsfErr (List UInt8) := do
  let codes ← (unilist.filter (·.fontpos = i)).mapM fun p => appendunicode p.unicode utf8
  pure (codes.flatten ++ appendseparator false utf8)

/-- `appendunicodemap`. -/
def appendunicodemap (fontsize : Nat) (utf8 : Bool) : Kfont (List UInt8) := do
  let unilist ← kfontGetUnicodemap k
  match (List.range fontsize).mapM (appendGlyphMap unilist utf8) with
  | .error e => throw (.psf e)
  | .ok glyphs => pure glyphs.flatten

/-- `kfont_save_font`: the file that is written. -/
def kfontSaveFont (withUnicodemap : Bool) : Kfont (List UInt8) := do
  let (font, ct, utf8) ← saveFont k withUnicodemap
  if withUnicodemap then do
    let table ← appendunicodemap k ct utf8
    pure (font ++ table)
  else pure font

end Kbd.Font
