import Kbd.Font.Loadunimap
import Kbd.Font.Setfont

/-!
# PSF files with the default map (`kfont_load_font` of `setfont.c`)

When a default font has no table, `kfont_load_font` is to load the map `def.uni`. That it has none is
seen from `uclistheads`, which is null until `kfont_read_psffont` has allocated the table.
-/

namespace Kbd.Font

open Kbd.Keymap (bytes)
open Unimap (UnimapErr ofKfont kfontLoadUnicodemap)

variable (k : Kernel)

/-- The arguments for a PSF font that has been read. -/
def psfArgs (font : PsfFont) (uclistheads : Option (List UnicodeList)) (hwunit : Nat) : LoadArgs :=
  { inbuf := font.fontbuf, width := font.fontwidth, height := fontHeight font, hwunit,
    fontsize := font.fontlen, uclistheads }

/-- The branch of `kfont_load_font` for a PSF font; `isDefault` is its variable `def`. -/
def loadPsffont (find : List Char → Option (List Char)) (force doubleSize : Bool) (args : LoadArgs)
    (noU isDefault : Bool) : EStateM UnimapErr Trace Unit := do
  ofKfont (doLoadfont k doubleSize args.inbuf args.width args.height args.hwunit args.fontsize)
  match args.uclistheads with
  | some heads => if !noU then ofKfont (doLoadtable k heads args.fontsize) else pure ()
  | none =>
    if !noU && isDefault then do
      let _ ← kfontLoadUnicodemap k find force (bytes "def.uni")
      pure ()
    else pure ()

/-- `kfont_load_font` as far as it goes for a PSF font. -/
def kfontLoadPsf (dirs : FontDirs) (find : List Char → Option (List Char)) (force doubleSize : Bool)
    (hwunit : Nat) (noU : Bool) (ifil : List Char) (iunit : Nat) : EStateM UnimapErr Trace Unit :=
  match openFont dirs ifil iunit with
  | none => throw (.kfont (.notFound ifil))
  | some file =>
    match readPsffontFile file 0 (if noU then none else some []) with
    | .error e => throw (.kfont (.psf e))
    | .ok (font, uclistheads) =>
      loadPsffont k find force doubleSize (psfArgs font uclistheads hwunit) noU (ifil = [])

end Kbd.Font
