import Kbd.Keymap.Text
import Kbd.Lib.FileTree
import Mathlib.Data.List.DropRight

/-!
# Finding a file (`kbdfile.c`)

`kbdfile_find` tries the name itself and then searches a list of directories. What it reads of the
file system are `stat` and `scandir`; every regular file can be opened. A loop that is left early
ends in `Except.error`, with the state it is left in.
-/

namespace Kbd.File

open Kbd.Keymap (bytes)
open Kbd.Lib.FileTree

/-- The fields of `struct kbdfile` that the search uses: `fd` is the file that is open. -/
structure Kbdfile where
  pathname : List Char
  fd : Option Place
  deriving DecidableEq, Repr

/-- `sizeof(fp->pathname)`. -/
def maxpathlen : Nat := 4096

/-- The column `ext` of the table `decompressors`. -/
def extensions : List (List Char) :=
  [bytes ".gz", bytes ".gz", bytes ".bz2", bytes ".xz", bytes ".zst"]

/-- `kbdfile_set_pathname`. -/
def setPathname (fp : Kbdfile) (pathname : List Char) : Kbdfile :=
  { fp with pathname := pathname.take (maxpathlen - 1) }

/-- `kbdfile_pathname_sprintf`, where `pathname` is the text that is printed. -/
def pathnameSprintf (fp : Kbdfile) (pathname : List Char) : Int × Kbdfile :=
  (if pathname.length ≥ maxpathlen then -1 else 0, setPathname fp pathname)

section

variable (fs : FileSystem)

/-- `open_pathname`. -/
def openPathname (fp : Kbdfile) : Int × Kbdfile :=
  match fs.fileAt fp.pathname with
  | some p => (0, { fp with fd := some p })
  | none => (-1, fp)

/-- One round of the loop of `maybe_pipe_open`, which is left when the file could be opened. -/
def tryExtension (pathname : List Char) (fp : Kbdfile) (ext : List Char) : Except Kbdfile Kbdfile :=
  if pathname.length + ext.length ≥ maxpathlen then .ok fp
  else
    let (rc, fp) := openPathname fs { fp with pathname := pathname ++ ext }
    if rc = 0 then .error fp else .ok fp

/-- `maybe_pipe_open`. -/
def maybePipeOpen (fp : Kbdfile) : Int × Kbdfile :=
  let (rc, fp) := openPathname fs fp
  if rc = 0 then (0, fp)
  else
    match extensions.foldlM (tryExtension fs fp.pathname) fp with
    | .error fp' => (0, fp')
    | .ok fp' => (-1, { fp' with pathname := fp.pathname })

/-- One round of the loop of `findfile_by_fullname`. -/
def trySuffix (fnam : List Char) (fp : Kbdfile) (suffix : List Char) : Except Kbdfile Kbdfile :=
  let (rc, fp) := pathnameSprintf fp (fnam ++ suffix)
  if rc < 0 then .ok fp
  else
    let (rc, fp) := maybePipeOpen fs fp
    if rc = 0 then .error fp else .ok fp

/-- `findfile_by_fullname`. -/
def findfileByFullname (fnam : List Char) (suffixes : List (List Char)) (fp : Kbdfile) :
    Int × Kbdfile :=
  match suffixes.foldlM (trySuffix fs fnam) fp with
  | .error fp => (0, fp)
  | .ok fp => (-1, fp)

end

/-- `if (i < *index) *index = i`, where `none` stands for `UINT_MAX`. -/
def lower (i : Nat) : Option Nat → Option Nat
  | none => some i
  | some j => if i < j then some i else some j

/-- The loop of `filecmp` from suffix `i` on, where `p` is the tail of the name; `none` is the result
1, otherwise the result is 0 and `*index` has the value given. -/
def filecmpTail (p : List Char) (index : Option Nat) : List (List Char) → Nat → Option (Option Nat)
  | [], _ => none
  | suf :: sufs, i =>
    if p = suf then some (lower i index)
    else if suf.isPrefixOf p ∧ p.drop suf.length ∈ extensions then some (lower i index)
    else filecmpTail p index sufs (i + 1)

/-- `filecmp`. -/
def filecmp (fname name : List Char) (suf : List (List Char)) (index : Option Nat) :
    Option (Option Nat) :=
  if fname.isPrefixOf name then filecmpTail (name.drop fname.length) index suf 0 else none

/-- `strchr(fnam, '/')`: what stands before the slash and what stands after it. -/
def strchrSlash (fnam : List Char) : Option (List Char × List Char) :=
  match fnam.dropWhile (· ≠ '/') with
  | [] => none
  | _ :: rest => some (fnam.takeWhile (· ≠ '/'), rest)

theorem length_lt_of_strchrSlash {fnam fdir rest : List Char}
    (h : strchrSlash fnam = some (fdir, rest)) : rest.length < fnam.length := by
  have hlen := (List.dropWhile_suffix (· ≠ '/') (l := fnam)).length_le
  unfold strchrSlash at h
  split at h
  · cases h
  · rename_i hd
    cases h
    rw [hd, List.length_cons] at hlen
    omega

/-- What the two scans of `findfile_in_dir` change. -/
structure Scan where
  rc : Int
  index : Option Nat
  fp : Kbdfile

/-- The scan after a recursive call. -/
def Scan.called (s : Scan) (r : Int × Kbdfile) : Scan := { s with rc := r.1, fp := r.2 }

/-- The arguments of `findfile_in_dir` that its loop uses, with its two recursive calls, each for a
subdirectory: `inner` searches for `ff + 1`, `below` for `fnam`. -/
structure ScanArgs where
  fs : FileSystem
  fnam : List Char
  dir : List Char
  recdepth : Nat
  suf : List (List Char)
  secondpass : Bool
  inner : List Char → Kbdfile → Int × Kbdfile
  below : List Char → Kbdfile → Int × Kbdfile

/-- `okdir`. -/
def okdir (a : ScanArgs) (dName : List Char) : Bool := (strchrSlash a.fnam).any (·.1 = dName)

/-- What is done with an entry that may be a directory to descend into. -/
def scanSubdir (a : ScanArgs) (s : Scan) (dName : List Char) : Scan :=
  let path := a.dir ++ '/' :: dName
  if (a.fs.dirAt path).isSome then
    let s := if okdir a dName then s.called (a.inner path s.fp) else s
    if s.rc ≠ 0 ∧ a.recdepth ≠ 0 then s.called (a.below path s.fp) else s
  else s

/-- What is done with an entry that may be the file. -/
def scanFile (a : ScanArgs) (s : Scan) (dName : List Char) : Scan :=
  let path := a.dir ++ '/' :: dName
  let (rc, fp) := pathnameSprintf s.fp path
  let s := { s with fp }
  if rc < 0 then s
  else if (a.fs.fileAt path).isNone then s
  else
    match filecmp a.fnam dName a.suf s.index with
    | none => s
    | some index => { s with rc := 0, index }

/-- One round of the loop of `findfile_in_dir`. -/
def scanEntry (a : ScanArgs) (s : Scan) (dName : List Char) : Except Scan Scan :=
  if dName = ['.'] ∨ dName = ['.', '.'] then .ok s
  else if a.dir.length + dName.length + 2 > maxpathlen then .ok s
  else
    let descend := (a.secondpass && a.recdepth ≠ 0) || okdir a dName
    let s := if descend then scanSubdir a s dName else s
    if descend ∧ s.rc = 0 then .error s
    else if a.secondpass ∨ (strchrSlash a.fnam).isSome then .ok s
    else .ok (scanFile a s dName)

/-- What `findfile_in_dir` does after its first scan. -/
def afterScan (a : ScanArgs) (namelist : List (List Char)) : Except Scan Scan → Int × Kbdfile
  | .error s => (s.rc, s.fp)
  | .ok s =>
    match s.index with
    | some i =>
      if s.rc ≠ 0 then (s.rc, s.fp)
      else
        let (rc, fp) := pathnameSprintf s.fp (a.dir ++ '/' :: (a.fnam ++ a.suf[i]?.getD []))
        if rc ≠ 0 then (rc, fp) else maybePipeOpen a.fs fp
    | none =>
      if a.recdepth > 0 then
        match namelist.foldlM (scanEntry { a with secondpass := true }) s with
        | .error s => (s.rc, s.fp)
        | .ok s => (s.rc, s.fp)
      else (s.rc, s.fp)

/-- The body of `findfile_in_dir`. -/
def scanDir (a : ScanArgs) (fp : Kbdfile) : Int × Kbdfile :=
  let fp := { fp with fd := none }
  match a.fs.scandir a.dir with
  | none => (-1, fp)
  | some namelist =>
    afterScan a namelist (namelist.foldlM (scanEntry a) { rc := 1, index := none, fp })

/-- `findfile_in_dir`. -/
def findfileInDir (fs : FileSystem) (suf : List (List Char)) (fnam dir : List Char) (recdepth : Nat)
    (fp : Kbdfile) : Int × Kbdfile :=
  scanDir
    { fs, fnam, dir, recdepth, suf, secondpass := false
      inner := fun path fp =>
        match h : strchrSlash fnam with
        | none => (1, fp)
        | some (_, rest) =>
          have : rest.length < fnam.length := length_lt_of_strchrSlash h
          findfileInDir fs suf rest path 0 fp
      below := fun path fp =>
        match recdepth with
        | 0 => (1, fp)
        | d + 1 => findfileInDir fs suf fnam path d fp }
    fp
termination_by (fnam.length, recdepth)

/-- The number of trailing stars of an entry of `dirpath`. -/
def recdepthOf (entry : List Char) : Nat := (entry.rtakeWhile (· = '*')).length

/-- The directory of an entry of `dirpath`. -/
def dirOf (entry : List Char) : List Char :=
  let dir := (entry.rdropWhile (· = '*')).rdropWhile (· = '/')
  if dir = [] then bytes "." else dir

/-- One round of the loop of `kbdfile_find`. -/
def tryDirectory (fs : FileSystem) (fnam : List Char) (suffixes : List (List Char)) (fp : Kbdfile)
    (entry : List Char) : Except Kbdfile Kbdfile :=
  let (rc, fp) := findfileInDir fs suffixes fnam (dirOf entry) (recdepthOf entry) fp
  if rc = 0 then .error fp else .ok fp

/-- `kbdfile_find`. -/
def kbdfileFind (fs : FileSystem) (fnam : List Char) (dirpath suffixes : List (List Char))
    (fp : Kbdfile) : Int × Kbdfile :=
  if fp.fd.isSome then (-1, fp)
  else
    let (rc, fp) := maybePipeOpen fs (setPathname fp fnam)
    if rc = 0 then (0, fp)
    else
      let (rc, fp) :=
        if fnam.head? = some '/' then findfileByFullname fs fnam suffixes fp else (-1, fp)
      if rc = 0 then (0, fp)
      else
        match dirpath.foldlM (tryDirectory fs fnam suffixes) fp with
        | .error fp => (0, fp)
        | .ok fp => (1, fp)

end Kbd.File
