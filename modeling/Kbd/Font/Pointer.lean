import Kbd.Font.Psf
import Kbd.Lib.Buffer
import Kbd.Lib.Cursor

/-!
# The accesses of `psffontop.c` and `utf8.c`

`Kbd.Font.Psf` takes what is left of a file as a list. Here the same functions have pointers, as the
source has: positions in `inputbuf` and in the array `out`. The source checks no access, and one that
leaves its array is `none`. The sizes are of type `unsigned int`.
-/

namespace Kbd.Font

open Kbd.Lib.Buffer Kbd.Lib.Cursor

/-! ## UTF-8 -/

/-- The value of type `int32_t` for one of type `uint32_t`. -/
def int32 (uc : Nat) : Int := if uc < 2 ^ 31 then uc else uc - 2 ^ 32

/-- The result of `from_utf8`, `*err` and `*inptr`. -/
structure Utf8Result where
  uc : Int
  err : Option Utf8Err
  inptr : Nat
  deriving DecidableEq, Repr

/-- `while (--need)` of `from_utf8`: the value, `bad` and `in`. -/
def continuationAt (mem : List UInt8) : Nat → Nat → Nat → Option (Nat × Bool × Nat)
  | 0, uc, inp => some (uc, false, inp)
  | need + 1, uc, inp => do
    let uc2 ← mem[inp]?
    if uc2.toNat &&& 0xc0 ≠ 0x80 then some (uc, true, inp + 1)
    else continuationAt mem need ((uc <<< 6 ||| uc2.toNat &&& 0x3f) % 2 ^ 32) (inp + 1)

/-- `from_utf8`. -/
def fromUtf8At (mem : List UInt8) (inptr : Nat) (cnt : Int) : Option Utf8Result := do
  let uc ← mem[inptr]?
  let (need, bit) := leadingOnes uc.toNat 8 0
  let uc := uc.toNat &&& (bit + (2 ^ 32 - 1)) % 2 ^ 32
  if cnt ≠ 0 ∧ cnt < need then some { uc := 0, err := some .short, inptr }
  else if need = 1 then some { uc := 0, err := some .bad, inptr }
  else do
    let (uc, bad, inp) ← continuationAt mem (need - 1) uc (inptr + 1)
    if bad then some { uc := 0, err := some .bad, inptr }
    else some { uc := int32 uc, err := none, inptr := inp }

/-- `while (uc & ~mask)` of `appendunicode` and the byte after it, with `n` as it is after the last
`--n`. -/
def fillUtf8At : Nat → Nat → Nat → List UInt8 → Option (Nat × List UInt8)
  | 0, _, _, _ => none
  | n + 1, uc, mask, out =>
    if uc &&& complement mask ≠ 0 then do
      let out ← store out n (UInt8.ofNat (0x80 + (uc &&& 0x3f)))
      fillUtf8At n (uc >>> 6) (mask >>> 1) out
    else do
      let out ← store out n (UInt8.ofNat ((uc + complement mask + complement mask) &&& 0xff))
      some (n, out)

/-- The bytes of `appendunicode`: `n` and `out`. -/
def encodeAt (uc : Nat) (utf8 : Bool) : Option (Nat × List UInt8) :=
  let out : List UInt8 := List.replicate 6 0
  if !utf8 then do
    let out ← store out 5 (UInt8.ofNat (uc >>> 8 &&& 0xff))
    let out ← store out 4 (UInt8.ofNat (uc &&& 0xff))
    some (4, out)
  else if uc < 0x80 then do
    let out ← store out 5 (UInt8.ofNat uc)
    some (5, out)
  else fillUtf8At 6 uc 0x3f out

/-- `appendunicode`, which writes what is in `out` from `n` on. -/
def appendunicodeAt (u : Int) (utf8 : Bool) : Option (Except PsfErr (List UInt8)) :=
  if u < 0 then some (.error (.illegalUnicode u))
  else do
    let (n, out) ← encodeAt u.toNat utf8
    let bytes ← slice out n (6 - n)
    some (.ok bytes)

/-! ## The table -/

variable (mem : List UInt8)

/-- `assemble_ucs2`. -/
def assembleUcs2At (inptr : Nat) (cnt : Int) : Access PsfErr (Nat × Nat) :=
  if cnt < 2 then throw .shortUcs2
  else do
    let u1 ← deref mem inptr
    let u2 ← deref mem (inptr + 1)
    pure (u1.toNat ||| u2.toNat <<< 8, inptr + 2)

/-- `assemble_utf8`; its result is negative when it has reported an error. -/
def assembleUtf8At (inptr : Nat) (cnt : Int) : Access PsfErr (Int × Nat) :=
  match fromUtf8At mem inptr cnt with
  | none => ExceptT.mk none
  | some { uc, err := none, inptr } => pure (uc, inptr)
  | some { err := some .short, .. } => throw .shortUtf8
  | some { err := some .bad, .. } => throw .badUtf8

/-- The upper half of the loop of `get_uni_entry`, with `endptr` at the end of the buffer. A negative
value from `assemble_utf8` would end it without any message. -/
def uniTokenAt (utf8 : Bool) (inptr : Nat) : Access PsfErr (UniToken × Nat) :=
  if inptr = mem.length then throw .shortTable
  else if utf8 then do
    let uc ← deref mem inptr
    if uc = psf2Separator then pure (.separator, inptr + 1)
    else if uc = psf2StartSeq then pure (.startSeq, inptr + 1)
    else do
      let (unichar, inptr) ← assembleUtf8At mem inptr ((mem.length : Int) - inptr)
      if unichar < 0 then throw .badUtf8 else pure (.unichar unichar.toNat, inptr)
  else do
    let (unichar, inptr) ← assembleUcs2At mem inptr ((mem.length : Int) - inptr)
    if unichar = psf1Separator then pure (.separator, inptr)
    else if unichar = psf1StartSeq then pure (.startSeq, inptr)
    else pure (.unichar unichar, inptr)

/-- The loop of `get_uni_entry`. -/
def getUniEntryFromAt (utf8 : Bool) :
    Nat → UnicodeList → Nat → Nat → Access PsfErr (UnicodeList × Nat)
  | 0, _, _, _ => throw .shortTable
  | rounds + 1, up, inseq, inptr => do
    match ← uniTokenAt mem utf8 inptr with
    | (.separator, inptr) => pure (up, inptr)
    | (.startSeq, inptr) => getUniEntryFromAt utf8 rounds up 1 inptr
    | (.unichar uc, inptr) =>
      getUniEntryFromAt utf8 rounds (if inseq < 2 then addpair up uc else addseq up uc)
        (if inseq ≠ 0 then inseq + 1 else 0) inptr

/-- `get_uni_entry`. -/
def getUniEntryAt (utf8 : Bool) (inptr : Nat) : Access PsfErr (UnicodeList × Nat) :=
  getUniEntryFromAt mem utf8 (mem.length - inptr) clearUniEntry 0 inptr

/-- The loop of `kfont_read_psffont` over the glyphs. -/
def readUniTableAt (utf8 : Bool) : Nat → Nat → Access PsfErr (List UnicodeList × Nat)
  | 0, inptr => pure ([], inptr)
  | fontlen + 1, inptr => do
    let (up, inptr) ← getUniEntryAt mem utf8 inptr
    let (heads, inptr) ← readUniTableAt utf8 fontlen inptr
    pure (up :: heads, inptr)

/-! ## The file -/

/-- `inputlth >= size` and `PSF1_MAGIC_OK` or `PSF2_MAGIC_OK`. -/
def hasHeader (size : Nat) (magic : List UInt8) : Access PsfErr Bool :=
  if mem.length ≥ size then
    ExceptT.mk ((slice mem 0 magic.length).map fun bytes => .ok (bytes = magic))
  else pure false

/-- The first part of `kfont_read_psffont`; a header of the second format is copied. -/
def readPsfHeaderAt : Access PsfErr PsfHeader := do
  if ← hasHeader mem 4 psf1Magic then do
    let mode ← deref mem 2
    let mode := mode.toNat
    if mode > psf1MaxMode then throw (.unsupportedMode mode)
    else do
      let charsize ← deref mem 3
      pure {
        fontlen := if mode &&& psf1Mode512 ≠ 0 then 512 else 256
        charsize := charsize.toNat
        hastable := mode &&& (psf1ModeHasTab ||| psf1ModeHasSeq) ≠ 0
        ftoffset := 4
        fontwidth := 8
        fontheight := 0
        utf8 := false }
  else do
    if ← hasHeader mem 32 psf2Magic then do
      let psfhdr : List UInt8 ← ExceptT.mk ((slice mem 0 32).map .ok)
      let version := assembleUint32 (psfhdr.drop 4)
      if version > psf2MaxVersion then throw (.unsupportedVersion version)
      else pure {
        fontlen := assembleUint32 (psfhdr.drop 16)
        charsize := assembleUint32 (psfhdr.drop 20)
        hastable := assembleUint32 (psfhdr.drop 12) &&& psf2HasUnicodeTable ≠ 0
        ftoffset := assembleUint32 (psfhdr.drop 8)
        fontwidth := assembleUint32 (psfhdr.drop 28)
        fontheight := assembleUint32 (psfhdr.drop 24)
        utf8 := true }
    else throw .notPsf

/-- `bytewidth` of `kfont_read_psffont`. -/
def bytewidthAt (fontwidth : Nat) : Nat :=
  u32 (fontwidth / 8 + if fontwidth % 8 = 0 then 0 else 1)

/-- The tests of `kfont_read_psffont` on the sizes, and the height of the font. -/
def checkPsfHeaderAt (h : PsfHeader) (inputlth : Nat) : Except PsfErr Nat :=
  if h.fontlen = 0 then .error .zeroLength
  else if h.charsize = 0 then .error .zeroCharsize
  else if h.ftoffset > inputlth ∨ h.fontlen > (inputlth - h.ftoffset) / h.charsize then
    .error (.exceedsInput inputlth)
  else if bytewidthAt h.fontwidth = 0 ∨ h.charsize % bytewidthAt h.fontwidth ≠ 0 then
    .error (.invalidCharsize h.charsize h.fontwidth)
  else if h.fontheight ≠ 0 ∧ h.fontheight ≠ h.charsize / bytewidthAt h.fontwidth then
    .error (.charsizeMismatch h.charsize h.fontwidth h.fontheight)
  else if !h.hastable ∧ u32 (h.ftoffset + u32 (h.fontlen * h.charsize)) ≠ inputlth then
    .error .unexpectedData
  else .ok (h.charsize / bytewidthAt h.fontwidth)

/-- The last part of `kfont_read_psffont`: the descriptions of the glyphs. -/
def readPsfTableAt (h : PsfHeader) (inptr : Nat) : Access PsfErr (List UnicodeList) :=
  if h.hastable then do
    let (heads, inptr) ← readUniTableAt mem h.utf8 h.fontlen inptr
    if inptr ≠ mem.length then throw .trailingGarbage else pure heads
  else pure (List.replicate h.fontlen clearUniEntry)

/-- The bytes that are read: those of an open file, or those the caller has in memory. -/
def psffontInput (fontf : Option (List UInt8)) (allbuf : List UInt8) : Except PsfErr (List UInt8) :=
  match fontf with
  | some file => readFontfile file
  | none => .ok allbuf

/-- `kfont_read_psffont` on a buffer. The bitmaps are given as their place in the buffer. -/
def readPsffontAt (fontpos0 : Nat) (uclistheads : Option (List UnicodeList)) :
    Access PsfErr (PsfFont × Option (List UnicodeList)) := do
  let h ← readPsfHeaderAt mem
  let fontheight ← ExceptT.mk (some (checkPsfHeaderAt h mem.length))
  let fontbuflth := u32 (h.fontlen * h.charsize)
  let fontbuf : List UInt8 ← ExceptT.mk ((slice mem h.ftoffset fontbuflth).map .ok)
  let font : PsfFont := { fontbuf, fontwidth := h.fontwidth, fontheight, fontlen := h.fontlen }
  match uclistheads with
  | none => pure (font, none)
  | some heads =>
    if h.fontlen > uintMax - fontpos0 then throw (.positionOverflow fontpos0 h.fontlen)
    else do
      let table ← readPsfTableAt mem h (h.ftoffset + fontbuflth)
      pure (font, some (heads.take fontpos0 ++ table))

/-- `kfont_read_psffont`. -/
def kfontReadPsffontAt (fontf : Option (List UInt8)) (allbuf : List UInt8) (fontpos0 : Nat)
    (uclistheads : Option (List UnicodeList)) :
    Access PsfErr (PsfFont × Option (List UnicodeList)) := do
  let inputbuf ← ExceptT.mk (some (psffontInput fontf allbuf))
  readPsffontAt inputbuf fontpos0 uclistheads

end Kbd.Font
