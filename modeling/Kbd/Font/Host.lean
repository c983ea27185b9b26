import Kbd.Font.Psf
import Kbd.Lib.Endian
import Kbd.Lib.Writer

/-!
# PSF files on any host (`psffontop.c`)

Most numbers of a font file go through `store_int_le`, `assemble_uint32` and the like, which give the
bytes an order. The separators of the first format are written as the host has an `unsigned short`,
and the version in the second is compared as the host reads it. Here the order of the host is a
parameter, and a file keeps what was written before a failure.
-/

namespace Kbd.Font

open Kbd.Lib (Endian Datum Writer)

namespace Host

/-! ## Writing -/

/-- `fwrite` of one object. -/
abbrev fwrite (d : Datum) : Writer PsfErr Datum Unit := Writer.emit d

/-- `appendunicode`. -/
def appendunicode (u : Int) (utf8 : Bool) : Writer PsfErr Datum Unit :=
  match Font.appendunicode u utf8 with
  | .ok out => fwrite (.bytes out)
  | .error e => throw e

/-- `appendseparator`: an `unsigned char` or an `unsigned short`. -/
def appendseparator (seq utf8 : Bool) : Writer PsfErr Datum Unit :=
  if utf8 then fwrite (.native 1 (if seq then psf2StartSeq else psf2Separator).toNat)
  else fwrite (.native 2 (if seq then psf1StartSeq else psf1Separator))

/-- One description of a glyph, as `kfont_write_psffont` writes it. -/
def writeUniSeq (utf8 : Bool) (us : List Unicode) : Writer PsfErr Datum Unit := do
  if 2 ≤ us.length then appendseparator true utf8 else pure ()
  forM us (appendunicode · utf8)

/-- The descriptions of a glyph and the separator after them. -/
def writeUniEntry (utf8 : Bool) (ul : UnicodeList) : Writer PsfErr Datum Unit := do
  forM ul (writeUniSeq utf8)
  appendseparator false utf8

/-- `kfont_write_psffont`; the result says whether the table is in UTF-8. -/
def kfontWritePsffont (fontbuf : List UInt8) (width height fontlen : Nat) (psftype : Int)
    (uclistheads : Option (List UnicodeList)) : Writer PsfErr Datum Bool :=
  let charsize := writtenCharsize width height
  let hasTab := uclistheads.isSome
  let hasSeq := (uclistheads.map (hasSequences · fontlen)).getD false
  let (header, psftype) := writepsffontheader width height fontlen psftype hasTab hasSeq
  let utf8 : Bool := psftype = 2
  do
    fwrite (.bytes header)
    if charsize = 0 ∧ fontlen ≠ 0 then throw .cannotWrite
    else do
      fwrite (.bytes (fontbuf.take (charsize * fontlen)))
      forM ((uclistheads.getD []).take fontlen) (writeUniEntry utf8)
      pure utf8

/-- The bytes that are in the file when `kfont_write_psffont` returns. -/
def writtenBytes (host : Endian) (fontbuf : List UInt8) (width height fontlen : Nat) (psftype : Int)
    (uclistheads : Option (List UnicodeList)) : List UInt8 :=
  (Lib.Result.state ((kfontWritePsffont fontbuf width height fontlen psftype uclistheads).run
    [])).flatMap (Datum.render host)

/-! ## Reading -/

variable (host : Endian)

/-- The first part of `kfont_read_psffont`. -/
def readPsfHeader (inputbuf : List UInt8) : Except PsfErr PsfHeader :=
  if inputbuf.length ≥ 4 ∧ psf1Magic.isPrefixOf inputbuf then
    let mode := (inputbuf.getD 2 0).toNat
    if mode > psf1MaxMode then .error (.unsupportedMode mode)
    else .ok {
      fontlen := if mode &&& psf1Mode512 ≠ 0 then 512 else 256
      charsize := (inputbuf.getD 3 0).toNat
      hastable := mode &&& (psf1ModeHasTab ||| psf1ModeHasSeq) ≠ 0
      ftoffset := 4
      fontwidth := 8
      fontheight := 0
      utf8 := false }
  else if inputbuf.length ≥ 32 ∧ psf2Magic.isPrefixOf inputbuf then
    -- the one field that is used as `memcpy` leaves it
    let version := host.load ((inputbuf.drop 4).take 4)
    if version > psf2MaxVersion then .error (.unsupportedVersion version)
    else .ok {
      fontlen := assembleUint32 (inputbuf.drop 16)
      charsize := assembleUint32 (inputbuf.drop 20)
      hastable := assembleUint32 (inputbuf.drop 12) &&& psf2HasUnicodeTable ≠ 0
      ftoffset := assembleUint32 (inputbuf.drop 8)
      fontwidth := assembleUint32 (inputbuf.drop 28)
      fontheight := assembleUint32 (inputbuf.drop 24)
      utf8 := true }
  else .error .notPsf

/-- `kfont_read_psffont` on a file in memory. -/
def kfontReadPsffont (inputbuf : List UInt8) (fontpos0 : Nat)
    (uclistheads : Option (List UnicodeList)) :
    Except PsfErr (PsfFont × Option (List UnicodeList)) := do
  let h ← readPsfHeader host inputbuf
  let fontheight ← checkPsfHeader h inputbuf.length
  let fontbuflth := h.fontlen * h.charsize
  let font : PsfFont :=
    { fontbuf := (inputbuf.drop h.ftoffset).take fontbuflth, fontwidth := h.fontwidth,
      fontheight, fontlen := h.fontlen }
  match uclistheads with
  | none => pure (font, none)
  | some heads =>
    if h.fontlen > uintMax - fontpos0 then .error (.positionOverflow fontpos0 h.fontlen)
    else do
      let table ← readPsfTable h (inputbuf.drop (h.ftoffset + fontbuflth))
      pure (font, some (heads.take fontpos0 ++ table))

end Host

end Kbd.Font
