import Kbd.Font.Mapscrn
import Kbd.Lib.Endian

/-!
# Saving and loading screen maps (`mapscrn.c`, `kdmapop.c`, `open_pathname` of `kbdfile.c`)

The kernel has one map, of code points. The older requests are for a map of font positions: they see and
set the codes that go straight to the font, which are the code points from 0xF000 on. A saved map is a
file of bytes, or of code points as the host has them in memory; which of the two is told by the size.
A file that starts with the magic number of an archive is unpacked, whatever it is.
-/

namespace Kbd.Font.Mapscrn

open Kbd.Lib (Endian)

/-- A map as the code has it, of bytes or of code points. -/
abbrev ScreenMap := Vector Nat eTabsz

/-- How the kernel answers `GIO_SCRNMAP` and `GIO_UNISCRNMAP`; there is no answer when a request
fails. -/
structure ScrnReader where
  gioScrnmap : Option ScreenMap
  gioUniscrnmap : Option ScreenMap
  deriving DecidableEq, Repr

/-- The requests that set the map. -/
inductive ScrnRequest where
  | pioScrnmap (map : ScreenMap)
  | pioUniscrnmap (map : ScreenMap)
  deriving DecidableEq, Repr

/-! ## Saving -/

/-- `fwrite` of a map of bytes. -/
def scrnmapBytes (buf : ScreenMap) : List UInt8 := buf.toList.map UInt8.ofNat

/-- `fwrite` of a map of code points. -/
def uniscrnmapBytes (host : Endian) (ubuf : ScreenMap) : List UInt8 :=
  ubuf.toList.flatMap (host.store 2)

/-- `kfont_save_consolemap`: the file it writes; there is none when it cannot read the map. -/
def kfontSaveConsolemap (host : Endian) (r : ScrnReader) : Option (List UInt8) :=
  let havemap :=
    match r.gioUniscrnmap with
    | none => r.gioScrnmap
    -- a map that does not go straight to the font is not saved as bytes
    | some ubuf => r.gioScrnmap.filter fun _ => ubuf.toList.all fun u => u - u % 256 = 0xf000
  (havemap.map scrnmapBytes).or (r.gioUniscrnmap.map (uniscrnmapBytes host))

/-! ## Opening a file -/

/-- The column `magic` of the table `decompressors`. -/
def magics : List (List UInt8) :=
  [[0x1f, 0x8b], [0x1f, 0x9e], [0x42, 0x5a], [0xfd, 0x37], [0x28, 0xb5]]

/-- `open_pathname` takes the file for an archive. -/
def isArchive (file : List UInt8) : Bool := file.length > 2 && magics.any (·.isPrefixOf file)

/-- What is read of a file that `open_pathname` opens. `unpack` is what a decompressor gives for an
archive; there is nothing when it cannot be opened. -/
def openedFile (unpack : List UInt8 → Option (List UInt8)) (file : List UInt8) :
    Option (List UInt8) :=
  if isArchive file then unpack file else some file

/-! ## Loading -/

/-- How `readnewmapfromfile` ends. -/
inductive NewMap where
  | scrnmap (buf : ScreenMap)
  | uniscrnmap (ubuf : ScreenMap)
  | failed (ret : Int)
  deriving DecidableEq, Repr

/-- `-EX_IOERR`. -/
abbrev exIoerr : Int := -74

/-- `readnewmapfromfile` for a file that has been found. The size is that of the file, also where `fd`
reads what an archive has been unpacked to; `none` when the text of a symbolic map does not determine
what is read. -/
def readnewmapfromfile (host : Endian) (size : Nat) (fd : List UInt8) : Option NewMap :=
  if size = eTabsz then
    some (if fd.length < eTabsz then .failed exIoerr
      else .scrnmap (.ofFn fun i => (fd.getD i.val 0).toNat))
  else if size = 2 * eTabsz then
    some (if fd.length < 2 * eTabsz then .failed exIoerr
      else .uniscrnmap (.ofFn fun i => host.load ((fd.drop (2 * i.val)).take 2)))
  else
    (parsemap (fd.map fun b => Char.ofNat b.toNat) straightBuf straightUbuf false).map fun m =>
      if m.ret ≠ 0 then .failed (-1) else if m.u then .uniscrnmap m.ubuf else .scrnmap m.buf

/-- `loadscrnmap` and `kfont_put_uniscrnmap`, with the request. `answer` tells which requests
succeed. -/
def putScrnmap (answer : ScrnRequest → Bool) (req : ScrnRequest) : Int × List ScrnRequest :=
  (if answer req then 0 else -1, [req])

/-- `-EX_DATAERR`. -/
abbrev exDataerr : Int := -65

/-- `kfont_load_consolemap` without a name, or for the file of that name, which is not there if it is not
found: what it returns, and the requests it makes. -/
def kfontLoadConsolemap (host : Endian) (unpack : List UInt8 → Option (List UInt8))
    (answer : ScrnRequest → Bool) (mfil : Option (Option (List UInt8))) :
    Option (Int × List ScrnRequest) :=
  match mfil with
  | none => some (putScrnmap answer (.pioScrnmap straightBuf))
  | some none => some (exDataerr, [])
  | some (some file) =>
    match openedFile unpack file with
    | none => some (exDataerr, [])
    | some fd => (readnewmapfromfile host file.length fd).map fun
      | .scrnmap buf => putScrnmap answer (.pioScrnmap buf)
      | .uniscrnmap ubuf => putScrnmap answer (.pioUniscrnmap ubuf)
      | .failed ret => (ret, [])

/-! ## The kernel -/

/-- The map of the kernel after a request. -/
def ScrnRequest.apply : ScrnRequest → ScreenMap
  | .pioScrnmap map => map.map (0xf000 + ·)
  | .pioUniscrnmap map => map

/-- What the kernel with a map answers, where both requests or only the newer one succeed: the older one
sees the low byte of a code point that goes straight to the font, and something for the others. -/
structure ScrnReader.Reads (r : ScrnReader) (map : ScreenMap) : Prop where
  uniscrnmap : r.gioUniscrnmap = some map
  scrnmap : ∀ buf, r.gioScrnmap = some buf → ∀ i (h : i < eTabsz), buf[i] < 256 ∧
    (0xf000 ≤ map[i] → map[i] < 0xf100 → buf[i] = map[i] - 0xf000)

end Kbd.Font.Mapscrn
