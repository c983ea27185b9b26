import Kbd.File.Find
import Kbd.Keymap.Programs

/-!
# Finding keymaps (`analyze.l`, `loadkeys.c`)

Where `find_incl_file` looks for the file of an `include` directive: where the user says, or near the
working directory, near the current file, near what the current file is a link to, and where the keymaps
are installed. The current file is the one at the top of the stack. Memory does not run out. `loadkeys`
looks for the files of its arguments where the user says or where the keymaps are installed.
-/

namespace Kbd.Keymap

open Kbd.Lib.FileTree
open Kbd.File (kbdfileFind maxpathlen)

/-- What the search depends on besides the names. -/
structure InclEnv where
  fs : FileSystem
  /-- `DATADIR "/" KEYMAPDIR` -/
  keymapdir : List Char
  /-- `readlink`; there is none for a file that is no symbolic link -/
  readlink : List Char → Option (List Char)
  /-- `LOADKEYS_INCLUDE_PATH`, if it is set -/
  includePath : Option (List Char)

/-- `include_dirpath0`. -/
def includeDirpath0 : List (List Char) := [[]]

/-- `include_dirpath1`. -/
def includeDirpath1 : List (List Char) := [bytes "../include/", bytes "../../include/"]

/-- `include_dirpath3`. -/
def includeDirpath3 (keymapdir : List Char) : List (List Char) :=
  [keymapdir ++ bytes "/include/", keymapdir ++ bytes "/i386/include/",
    keymapdir ++ bytes "/mac/include/"]

/-- `include_suffixes`. -/
def includeSuffixes : List (List Char) := [[], bytes ".inc"]

/-- `strrchr(path, '/')`: the path up to its last slash, with the slash. -/
def strrchrSlash (path : List Char) : Option (List Char) :=
  if path.contains '/' then some (path.rdropWhile (· ≠ '/')) else none

/-- `include_dirpath2`, for what stands before the last slash of a path. -/
def includeDirpath2 (t0 : List Char) : List (List Char) :=
  [t0, t0 ++ bytes "../include/", t0 ++ bytes "../../include/"]

/-- `find_incl_file_near_fn`. -/
def findInclFileNearFn (env : InclEnv) (filename path : List Char) (fp : Kbd.File.Kbdfile) :
    Int × Kbd.File.Kbdfile :=
  match strrchrSlash path with
  | none => (1, fp)
  | some t0 => kbdfileFind env.fs filename (includeDirpath2 t0) includeSuffixes fp

/-- The path that `find_standard_incl_file` makes of a symbolic link. What a file without a directory
links to is appended to its name. -/
def linkedPath (env : InclEnv) (pathname : List Char) : Option (List Char) :=
  match env.readlink pathname with
  | none => none
  | some buf =>
    if buf = [] || buf.length ≥ maxpathlen then none
    else if buf.head? = some '/' then some buf
    else if pathname.length + buf.length < maxpathlen then
      some ((strrchrSlash pathname).getD pathname ++ buf)
    else none

/-- The last part of `find_standard_incl_file`, with the result so far. -/
def findInstalledInclFile (env : InclEnv) (filename : List Char) (res : Int × Kbd.File.Kbdfile) :
    Int × Kbd.File.Kbdfile :=
  if res.1 ≠ 0 then
    kbdfileFind env.fs filename (includeDirpath3 env.keymapdir) includeSuffixes res.2
  else res

/-- The part of `find_standard_incl_file` for a symbolic link. -/
def findLinkedInclFile (env : InclEnv) (pathname filename : List Char)
    (res : Int × Kbd.File.Kbdfile) : Int × Kbd.File.Kbdfile :=
  if res.1 ≠ 0 then
    match linkedPath env pathname with
    | none => res
    | some path => findInclFileNearFn env filename path res.2
  else res

/-- `find_standard_incl_file`, where `pathname` is that of the current file. -/
def findStandardInclFile (env : InclEnv) (pathname filename : List Char) (fp : Kbd.File.Kbdfile) :
    Int × Kbd.File.Kbdfile :=
  let res := kbdfileFind env.fs filename includeDirpath1 includeSuffixes fp
  let res := if res.1 ≠ 0 then findInclFileNearFn env filename pathname res.2 else res
  if res.1 = -1 then res
  else findInstalledInclFile env filename (findLinkedInclFile env pathname filename res)

/-- One round of the loop of `find_incl_file`. An empty string denotes the system path. -/
def tryUserDir (env : InclEnv) (pathname filename : List Char) (fp : Kbd.File.Kbdfile)
    (p : List Char) : Except (Int × Kbd.File.Kbdfile) Kbd.File.Kbdfile :=
  let res :=
    if p ≠ [] then kbdfileFind env.fs filename [p] includeSuffixes fp
    else findStandardInclFile env pathname filename fp
  if res.1 ≤ 0 then .error res else .ok res.2

/-- `find_incl_file`. -/
def findInclFile (env : InclEnv) (pathname filename : List Char) (fp : Kbd.File.Kbdfile) :
    Int × Kbd.File.Kbdfile :=
  if filename = [] then (1, fp)
  else if filename.head? = some '/' then
    kbdfileFind env.fs filename includeDirpath0 includeSuffixes fp
  else
    match env.includePath with
    | none => findStandardInclFile env pathname filename fp
    | some ev =>
      match (ev.splitOn ':').foldlM (tryUserDir env pathname filename) fp with
      | .error res => res
      | .ok fp => (1, fp)

/-- What the parser is given: the file is read from the place where it is found. -/
def InclEnv.find (env : InclEnv) (content : Lib.FileTree.Place → List Char) : FindIncl :=
  fun pathname filename =>
    let (rc, fp) := findInclFile env pathname filename { pathname := [], fd := none }
    if rc = 0 then fp.fd.map fun place => (fp.pathname, content place) else none

/-! ## The files of `loadkeys` -/

/-- What the files of `loadkeys` depend on besides their names. -/
structure KeymapEnv extends InclEnv where
  /-- `KERNDIR "/"` -/
  kerndir : List Char
  /-- `DEFMAP` -/
  defmap : List Char
  /-- `LOADKEYS_KEYMAP_PATH`, if it is set -/
  keymapPath : Option (List Char)
  /-- what is in a file -/
  content : Lib.FileTree.Place → List Char
  /-- the standard input -/
  stdin : List Char

/-- What `loadkeys` reads a keymap from. -/
inductive KeymapArg where
  | stdin
  /-- `-` once more -/
  | stdinAgain
  | named (name : List Char)
  deriving DecidableEq, Repr

section

variable (env : KeymapEnv)

/-- `dirpath` of `loadkeys.c`. -/
def KeymapEnv.dirpath : List (List Char) :=
  match env.keymapPath with
  | some ev => [ev]
  | none => [env.keymapdir ++ bytes "/**", env.kerndir]

/-- `suffixes` of `loadkeys.c`. -/
def keymapSuffixes : List (List Char) := [[], bytes ".kmap", bytes ".map"]

/-- The file of an argument. -/
def KeymapEnv.openArg : KeymapArg → KeymapFile
  | .stdin => .found { id := 0, pathname := bytes "<stdin>", text := env.stdin }
  | .stdinAgain => .closed
  | .named name =>
    let (rc, fp) := kbdfileFind env.fs name env.dirpath keymapSuffixes { pathname := [], fd := none }
    if rc = 0 then
      match fp.fd with
      | some place =>
        .found { id := 0, pathname := fp.pathname, text := env.content place }
      | none => .missing
    else .missing

/-- `kbdfile_free` closes the standard input after it has been read. -/
def readOnce : Bool → List KeymapArg → List KeymapArg
  | _, [] => []
  | closed, .stdin :: args => (if closed then .stdinAgain else .stdin) :: readOnce true args
  | closed, arg :: args => arg :: readOnce closed args

/-- The default map of `-d`, or the standard input if there are no arguments, and the arguments. -/
def KeymapEnv.args (dflt : Bool) (argv : List (List Char)) : List KeymapArg :=
  readOnce false <|
    (if dflt then [.named env.defmap] else if argv = [] then [.stdin] else []) ++
      argv.map fun arg => if arg = bytes "-" then .stdin else .named arg

/-- `main` of `loadkeys` with the files that are there. -/
def loadkeysMain (keycodeZero : Bool) (host : Kbd.Lib.Endian) (fuel : Nat) (ioctl : Ioctl)
    (opts : LoadkeysOptions) (kbdMode : Option Int) (dflt : Bool) (argv : List (List Char)) :
    Option ProgramRun :=
  loadkeys keycodeZero host (env.find env.content) fuel ioctl opts kbdMode
    ((env.args dflt argv).map env.openArg)

end

end Kbd.Keymap
