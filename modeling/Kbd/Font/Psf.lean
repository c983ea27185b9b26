import Kbd.Font.Unicode

/-!
# PSF font files (`psffontop.c`)

A font file is a header, the bitmaps of the glyphs and, where a flag of the header says so, a
description of each glyph. The first format has glyphs of width 8 and its table is in UCS-2; the
second has any size and a table in UTF-8. Files are lists of bytes, and numbers in them are stored
the least significant byte first, as the host has them.

The unsigned arithmetic of the source is that of the natural numbers where its tests keep it below
`2 ^ 32`, and is reduced where they do not.
-/

namespace Kbd.Font

/-- The failures of `psffontop.c`, each with its message. -/
inductive PsfErr where
  /-- "Font is too big" -/
  | tooBig
  /-- "short ucs2 unicode table" -/
  | shortUcs2
  /-- "short utf8 unicode table" -/
  | shortUtf8
  /-- "bad utf8" -/
  | badUtf8
  /-- "short unicode table" -/
  | shortTable
  /-- "Unsupported psf file mode (%d)" -/
  | unsupportedMode (mode : Nat)
  /-- "Unsupported psf version (%d)" -/
  | unsupportedVersion (version : Nat)
  /-- the file has neither magic number; no message -/
  | notPsf
  /-- "zero input font length?" -/
  | zeroLength
  /-- "zero input character size?" -/
  | zeroCharsize
  /-- "font bitmap exceeds input length (%u)" -/
  | exceedsInput (inputlth : Nat)
  /-- "character size %u is invalid for width %u" -/
  | invalidCharsize (charsize fontwidth : Nat)
  /-- "character size %u does not match %ux%u font" -/
  | charsizeMismatch (charsize fontwidth fontheight : Nat)
  /-- "unexpected data after font bitmap" -/
  | unexpectedData
  /-- "font position range %u+%u overflows" -/
  | positionOverflow (fontpos0 fontlen : Nat)
  /-- "Input file: trailing garbage" -/
  | trailingGarbage
  /-- "illegal unicode %d" -/
  | illegalUnicode (u : Int)
  /-- "Cannot write font file" -/
  | cannotWrite
  deriving DecidableEq, Repr

abbrev psf1Mode512 : Nat := 0x01
abbrev psf1ModeHasTab : Nat := 0x02
abbrev psf1ModeHasSeq : Nat := 0x04
abbrev psf1MaxMode : Nat := 0x05
abbrev psf1Separator : Nat := 0xFFFF
abbrev psf1StartSeq : Nat := 0xFFFE
abbrev psf2HasUnicodeTable : Nat := 0x01
abbrev psf2MaxVersion : Nat := 0
abbrev psf2Separator : UInt8 := 0xFF
abbrev psf2StartSeq : UInt8 := 0xFE

/-- `MAXFONTSIZE`. -/
abbrev maxFontSize : Nat := 512 * 64 * 128

/-- `UINT_MAX`. -/
abbrev uintMax : Nat := 2 ^ 32 - 1

/-- A value of type `unsigned int`. -/
def u32 (n : Nat) : Nat := n % 2 ^ 32

/-- `PSF1_MAGIC0` and `PSF1_MAGIC1`. -/
def psf1Magic : List UInt8 := [0x36, 0x04]

/-- `PSF2_MAGIC0` to `PSF2_MAGIC3`. -/
def psf2Magic : List UInt8 := [0x72, 0xb5, 0x4a, 0x86]

/-! ## Reading -/

/-- `assemble_uint32`. -/
def assembleUint32 : List UInt8 → Nat
  | ip0 :: ip1 :: ip2 :: ip3 :: _ =>
    ip0.toNat + ip1.toNat <<< 8 + ip2.toNat <<< 16 + ip3.toNat <<< 24
  | _ => 0

/-- `assemble_ucs2`. -/
def assembleUcs2 : List UInt8 → Except PsfErr (Nat × List UInt8)
  | u1 :: u2 :: inp => .ok (u1.toNat ||| u2.toNat <<< 8, inp)
  | _ => .error .shortUcs2

/-- `assemble_utf8`. -/
def assembleUtf8 (inp : List UInt8) : Except PsfErr (Nat × List UInt8) :=
  match fromUtf8 inp with
  | .ok r => .ok r
  | .error .short => .error .shortUtf8
  | .error .bad => .error .badUtf8

/-- What one round of `get_uni_entry` finds in the table. -/
inductive UniToken where
  | separator
  | startSeq
  | unichar (uc : Nat)
  deriving DecidableEq, Repr

/-- The upper half of the loop of `get_uni_entry`: reads a separator, a start of a sequence or a
code point. -/
def uniToken (utf8 : Bool) : List UInt8 → Except PsfErr (UniToken × List UInt8)
  | [] => .error .shortTable
  | uc :: inp =>
    if utf8 then
      if uc = psf2Separator then .ok (.separator, inp)
      else if uc = psf2StartSeq then .ok (.startSeq, inp)
      else do
        let (unichar, rest) ← assembleUtf8 (uc :: inp)
        pure (.unichar unichar, rest)
    else do
      let (unichar, rest) ← assembleUcs2 (uc :: inp)
      if unichar = psf1Separator then pure (.separator, rest)
      else if unichar = psf1StartSeq then pure (.startSeq, rest)
      else pure (.unichar unichar, rest)

/-- The loop of `get_uni_entry`. A round reads at least one byte, so the rounds are at most the
bytes there are, and when none is left the table is short. -/
def getUniEntryFrom (utf8 : Bool) :
    Nat → UnicodeList → Nat → List UInt8 → Except PsfErr (UnicodeList × List UInt8)
  | 0, _, _, _ => .error .shortTable
  | rounds + 1, up, inseq, inp => do
    match ← uniToken utf8 inp with
    | (.separator, rest) => pure (up, rest)
    | (.startSeq, rest) => getUniEntryFrom utf8 rounds up 1 rest
    | (.unichar uc, rest) =>
      getUniEntryFrom utf8 rounds (if inseq < 2 then addpair up uc else addseq up uc)
        (if inseq ≠ 0 then inseq + 1 else 0) rest

/-- `get_uni_entry`: reads the description of one glyph and gives it with what was not read. -/
def getUniEntry (utf8 : Bool) (inp : List UInt8) : Except PsfErr (UnicodeList × List UInt8) :=
  getUniEntryFrom utf8 inp.length clearUniEntry 0 inp

/-- The loop of `kfont_read_psffont` over the glyphs. -/
def readUniTable (utf8 : Bool) : Nat → List UInt8 → Except PsfErr (List UnicodeList × List UInt8)
  | 0, inp => pure ([], inp)
  | fontlen + 1, inp => do
    let (up, inp) ← getUniEntry utf8 inp
    let (heads, inp) ← readUniTable utf8 fontlen inp
    pure (up :: heads, inp)

/-- `read_fontfile` on a file that can be read. -/
def readFontfile (file : List UInt8) : Except PsfErr (List UInt8) :=
  if file.length > maxFontSize then .error .tooBig else .ok file

/-- What the two headers say. -/
structure PsfHeader where
  fontlen : Nat
  charsize : Nat
  hastable : Bool
  ftoffset : Nat
  fontwidth : Nat
  /-- zero in the first format, which has no such field -/
  fontheight : Nat
  utf8 : Bool
  deriving DecidableEq, Repr

/-- The first part of `kfont_read_psffont`. -/
def readPsfHeader (inputbuf : List UInt8) : Except PsfErr PsfHeader :=
  if inputbuf.length ≥ 4 ∧ psf1Magic.isPrefixOf inputbuf then
    let mode := (inputbuf.getD 2 0).toNat
    if mode > psf1MaxMode then .error (.unsupportedMode mode)
    else .ok {
      fontlen := if mode &&& psf1Mode512 ≠ 0 then 512 else 256
      charsize := (inputbuf.getD 3 0).toNat
      hastable := mode &&& (psf1ModeHasTab ||| psf1ModeHasSeq) ≠ 0
      ftoffset := 4
      fontwidth := 8
      fontheight := 0
      utf8 := false }
  else if inputbuf.length ≥ 32 ∧ psf2Magic.isPrefixOf inputbuf then
    let version := assembleUint32 (inputbuf.drop 4)
    if version > psf2MaxVersion then .error (.unsupportedVersion version)
    else .ok {
      fontlen := assembleUint32 (inputbuf.drop 16)
      charsize := assembleUint32 (inputbuf.drop 20)
      hastable := assembleUint32 (inputbuf.drop 12) &&& psf2HasUnicodeTable ≠ 0
      ftoffset := assembleUint32 (inputbuf.drop 8)
      fontwidth := assembleUint32 (inputbuf.drop 28)
      fontheight := assembleUint32 (inputbuf.drop 24)
      utf8 := true }
  else .error .notPsf

/-- What `kfont_read_psffont` gives of the bitmaps. -/
structure PsfFont where
  fontbuf : List UInt8
  fontwidth : Nat
  fontheight : Nat
  fontlen : Nat
  deriving DecidableEq, Repr

/-- `(width + 7) / 8` without its overflow. -/
def bytewidth (fontwidth : Nat) : Nat := fontwidth / 8 + if fontwidth % 8 = 0 then 0 else 1

/-- The tests of `kfont_read_psffont` on the sizes that the header gives; the result is the height
of the font. -/
def checkPsfHeader (h : PsfHeader) (inputlth : Nat) : Except PsfErr Nat :=
  if h.fontlen = 0 then .error .zeroLength
  else if h.charsize = 0 then .error .zeroCharsize
  else if h.ftoffset > inputlth ∨ h.fontlen > (inputlth - h.ftoffset) / h.charsize then
    .error (.exceedsInput inputlth)
  else if bytewidth h.fontwidth = 0 ∨ h.charsize % bytewidth h.fontwidth ≠ 0 then
    .error (.invalidCharsize h.charsize h.fontwidth)
  else if h.fontheight ≠ 0 ∧ h.fontheight ≠ h.charsize / bytewidth h.fontwidth then
    .error (.charsizeMismatch h.charsize h.fontwidth h.fontheight)
  else if !h.hastable ∧ h.ftoffset + h.fontlen * h.charsize ≠ inputlth then
    .error .unexpectedData
  else .ok (h.charsize / bytewidth h.fontwidth)

/-- The last part of `kfont_read_psffont`: the descriptions of the glyphs. -/
def readPsfTable (h : PsfHeader) (table : List UInt8) : Except PsfErr (List UnicodeList) :=
  if h.hastable then do
    let (heads, rest) ← readUniTable h.utf8 h.fontlen table
    if rest ≠ [] then .error .trailingGarbage else pure heads
  else pure (List.replicate h.fontlen clearUniEntry)

/-- `kfont_read_psffont` on a file in memory. The table is read when the caller gives one; its
glyphs come after the first `fontpos0` of those already there. -/
def kfontReadPsffont (inputbuf : List UInt8) (fontpos0 : Nat)
    (uclistheads : Option (List UnicodeList)) :
    Except PsfErr (PsfFont × Option (List UnicodeList)) := do
  let h ← readPsfHeader inputbuf
  let fontheight ← checkPsfHeader h inputbuf.length
  let fontbuflth := h.fontlen * h.charsize
  let font : PsfFont :=
    { fontbuf := (inputbuf.drop h.ftoffset).take fontbuflth, fontwidth := h.fontwidth,
      fontheight, fontlen := h.fontlen }
  match uclistheads with
  | none => pure (font, none)
  | some heads =>
    if h.fontlen > uintMax - fontpos0 then .error (.positionOverflow fontpos0 h.fontlen)
    else do
      let table ← readPsfTable h (inputbuf.drop (h.ftoffset + fontbuflth))
      pure (font, some (heads.take fontpos0 ++ table))

/-! ## Writing -/

/-- `store_int_le`. -/
def storeIntLe (num : Nat) : List UInt8 :=
  [UInt8.ofNat (num &&& 0xff), UInt8.ofNat (num >>> 8 &&& 0xff),
    UInt8.ofNat (num >>> 16 &&& 0xff), UInt8.ofNat (num >>> 24 &&& 0xff)]

/-- `has_sequences`. -/
def hasSequences (uclistheads : List UnicodeList) (fontlen : Nat) : Bool :=
  (uclistheads.take fontlen).any fun ul => ul.any fun us => 2 ≤ us.length

/-- `~mask` of an `unsigned int`. -/
def complement (mask : Nat) : Nat := 2 ^ 32 - 1 - mask

/-- `while (uc & ~mask)` of `appendunicode`, which fills the bytes of `out` before index `n`. -/
def fillUtf8 : Nat → Nat → Nat → List UInt8 → List UInt8
  | 0, _, _, out => out
  | n + 1, uc, mask, out =>
    if uc &&& complement mask ≠ 0 then
      fillUtf8 n (uc >>> 6) (mask >>> 1) (UInt8.ofNat (0x80 + (uc &&& 0x3f)) :: out)
    else UInt8.ofNat ((uc + complement mask + complement mask) &&& 0xff) :: out

/-- `appendunicode`. -/
def appendunicode (u : Int) (utf8 : Bool) : Except PsfErr (List UInt8) :=
  if u < 0 then .error (.illegalUnicode u)
  else
    let uc := u.toNat
    .ok (if !utf8 then [UInt8.ofNat (uc &&& 0xff), UInt8.ofNat (uc >>> 8 &&& 0xff)]
      else if uc < 0x80 then [UInt8.ofNat uc]
      else fillUtf8 6 uc 0x3f [])

/-- `appendseparator`; an `unsigned short` is written as it is in memory. -/
def appendseparator (seq utf8 : Bool) : List UInt8 :=
  if utf8 then [if seq then psf2StartSeq else psf2Separator]
  else if seq then [0xFE, 0xFF] else [0xFF, 0xFF]

/-- One description of a glyph, as `kfont_write_psffont` writes it. -/
def writeUniSeq (utf8 : Bool) (us : List Unicode) : Except PsfErr (List UInt8) := do
  let codes ← us.mapM (appendunicode · utf8)
  pure ((if 2 ≤ us.length then appendseparator true utf8 else []) ++ codes.flatten)

/-- The descriptions of a glyph and the separator after them. -/
def writeUniEntry (utf8 : Bool) (ul : UnicodeList) : Except PsfErr (List UInt8) := do
  let seqs ← ul.mapM (writeUniSeq utf8)
  pure (seqs.flatten ++ appendseparator false utf8)

/-- The format that `writepsffontheader` writes for a requested one. -/
def headerType (width height fontlen : Nat) (psftype : Int) : Int :=
  if (fontlen ≠ 256 ∧ fontlen ≠ 512) ∨ width ≠ 8 ∨ height > 32 then 2 else psftype

/-- `charsize` of the writer, an `unsigned int`. -/
def writtenCharsize (width height : Nat) : Nat := ((width + 7) % 2 ^ 32 / 8 * height) % 2 ^ 32

/-- `writepsffontheader`; the flags are `WPSFH_HASTAB` and `WPSFH_HASSEQ`. -/
def writepsffontheader (width height fontlen : Nat) (psftype : Int) (hasTab hasSeq : Bool) :
    List UInt8 × Int :=
  let charsize := writtenCharsize width height
  let psftype := headerType width height fontlen psftype
  let header :=
    if psftype = 2 then
      psf2Magic ++ storeIntLe 0 ++ storeIntLe 32 ++
        storeIntLe (if hasTab then psf2HasUnicodeTable else 0) ++ storeIntLe fontlen ++
        storeIntLe charsize ++ storeIntLe height ++ storeIntLe width
    else
      let mode := (if fontlen = 512 then psf1Mode512 else 0) |||
        if hasSeq then psf1ModeHasSeq else if hasTab then psf1ModeHasTab else 0
      psf1Magic ++ [UInt8.ofNat mode, UInt8.ofNat (if charsize ≤ 255 then charsize else 255)]
  (header, psftype)

/-- `kfont_write_psffont`: what is written, and whether its table is in UTF-8. -/
def kfontWritePsffont (fontbuf : List UInt8) (width height fontlen : Nat) (psftype : Int)
    (uclistheads : Option (List UnicodeList)) : Except PsfErr (List UInt8 × Bool) := do
  let charsize := writtenCharsize width height
  let hasTab := uclistheads.isSome
  let hasSeq := (uclistheads.map (hasSequences · fontlen)).getD false
  let (header, psftype) := writepsffontheader width height fontlen psftype hasTab hasSeq
  let utf8 := psftype = 2
  if charsize = 0 ∧ fontlen ≠ 0 then .error .cannotWrite
  else do
    let table ← ((uclistheads.getD []).take fontlen).mapM (writeUniEntry utf8)
    pure (header ++ fontbuf.take (charsize * fontlen) ++ table.flatten, utf8)

end Kbd.Font
