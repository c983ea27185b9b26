import Kbd.File.Verify.Stages
import Kbd.Keymap.Include

/-!
# What an `include` directive finds

All searches of `find_incl_file` together are one search in a list of directories (`inclDirs`): the parser
gets the file that the search for `kbdfile_find` finds in this list, or none (`findIncl_reference`).
-/

namespace Kbd.Keymap

open Kbd.Lib.FileTree Kbd.Lib.Search
open Kbd.File (Agrees PathsFit Searched candidates dirNamed found found_append found_eq_reference
  found_nil_of_none kbdfileFind kbdfileFind_agrees kbdfileFind_searched maxpathlen ownFile reference
  search_of_none searched_append)

/-! ## The directories -/

/-- The directories near a file. -/
def nearDirs (path : List Char) : List (List Char) := ((strrchrSlash path).map includeDirpath2).getD []

/-- The directories near what the file is a link to. -/
def linkedDirs (env : InclEnv) (pathname : List Char) : List (List Char) :=
  ((linkedPath env pathname).map nearDirs).getD []

/-- The directories in which `find_standard_incl_file` looks. -/
def standardDirs (env : InclEnv) (pathname : List Char) : List (List Char) :=
  includeDirpath1 ++ nearDirs pathname ++ linkedDirs env pathname ++ includeDirpath3 env.keymapdir

/-- The directories for an element of `LOADKEYS_INCLUDE_PATH`. -/
def userDirs (env : InclEnv) (pathname p : List Char) : List (List Char) :=
  if p ≠ [] then [p] else standardDirs env pathname

/-- The directories in which `find_incl_file` looks. -/
def inclDirs (env : InclEnv) (pathname filename : List Char) : List (List Char) :=
  if filename.head? = some '/' then includeDirpath0
  else
    match env.includePath with
    | none => standardDirs env pathname
    | some ev => (ev.splitOn ':').flatMap (userDirs env pathname)

/-! ## The standard directories -/

section Standard

variable {env : InclEnv} {pathname filename : List Char}

/-- The search near a file, where the name itself has been tried. -/
theorem findInclFileNearFn_searched (path : List Char)
    (hfit : PathsFit env.fs filename (nearDirs path) includeSuffixes)
    (hnone : found env.fs filename [] includeSuffixes = none) {fp : Kbd.File.Kbdfile}
    (hfd : fp.fd = none) : Searched env.fs
      (found env.fs filename (nearDirs path) includeSuffixes)
      (findInclFileNearFn env filename path fp) := by
  unfold nearDirs at hfit ⊢
  unfold findInclFileNearFn
  generalize strrchrSlash path = slash at hfit ⊢
  cases slash with
  | none =>
    rw [Option.map_none, Option.getD_none, hnone]
    exact ⟨⟨by simp, hfd⟩, Int.zero_le_ofNat 1⟩
  | some t0 => exact kbdfileFind_searched hfit hfd

/-- All searches of `find_standard_incl_file` are one. -/
theorem findStandardInclFile_searched
    (hfit : PathsFit env.fs filename (standardDirs env pathname) includeSuffixes)
    {fp : Kbd.File.Kbdfile} (hfd : fp.fd = none) : Searched env.fs
      (found env.fs filename (standardDirs env pathname) includeSuffixes)
      (findStandardInclFile env pathname filename fp) := by
  have hnear {path : List Char} (hsub : nearDirs path ⊆ standardDirs env pathname)
      (hnone : found env.fs filename [] includeSuffixes = none) (fp : Kbd.File.Kbdfile)
      (hfd : fp.fd = none) := findInclFileNearFn_searched path (hfit.mono hsub) hnone hfd
  have hsub₁ : includeDirpath1 ⊆ standardDirs env pathname := by
    intro e he
    simp [standardDirs, he]
  have hsub₂ : nearDirs pathname ⊆ standardDirs env pathname := by
    intro e he
    simp [standardDirs, he]
  have hsub₃ : linkedDirs env pathname ⊆ standardDirs env pathname := by
    intro e he
    simp [standardDirs, he]
  have hsub₄ : includeDirpath3 env.keymapdir ⊆ standardDirs env pathname := by
    intro e he
    simp [standardDirs, he]
  have h₁ := kbdfileFind_searched (hfit.mono hsub₁) hfd
  -- near the current file
  have h₂ := searched_append (findInclFileNearFn env filename pathname) h₁ fun hnone =>
    hnear hsub₂ (found_nil_of_none hnone)
  unfold findStandardInclFile
  dsimp only
  generalize kbdfileFind env.fs filename includeDirpath1 includeSuffixes fp = res₁ at h₂ ⊢
  generalize (if res₁.1 ≠ 0 then findInclFileNearFn env filename pathname res₁.2 else res₁) = res
    at h₂ ⊢
  have hrc := h₂.rc
  rw [if_neg (by omega)]
  -- near what it is a link to
  have h₃ : Searched env.fs (found env.fs filename
      (includeDirpath1 ++ nearDirs pathname ++ linkedDirs env pathname) includeSuffixes)
      (findLinkedInclFile env pathname filename res) := by
    unfold findLinkedInclFile
    unfold linkedDirs at hsub₃ ⊢
    generalize linkedPath env pathname = linked at hsub₃ ⊢
    cases linked with
    | none =>
      rw [Option.map_none, Option.getD_none, List.append_nil]
      simpa only [ite_self] using h₂
    | some path =>
      exact searched_append (findInclFileNearFn env filename path) h₂ fun hnone =>
        hnear hsub₃ (found_nil_of_none hnone)
  -- where the keymaps are installed
  exact searched_append
    (fun fp => kbdfileFind env.fs filename (includeDirpath3 env.keymapdir) includeSuffixes fp) h₃
    fun _ fp hfd => kbdfileFind_searched (hfit.mono hsub₄) hfd

/-- The searches for an element of `LOADKEYS_INCLUDE_PATH`. -/
theorem tryUserDir_ends {p : List Char}
    (hfit : PathsFit env.fs filename (userDirs env pathname p) includeSuffixes)
    {fp : Kbd.File.Kbdfile} (hfd : fp.fd = none) :
    Ends (fun place res => Agrees env.fs (some place) res) (fun fp => fp.fd = none)
      (found env.fs filename (userDirs env pathname p) includeSuffixes)
      (tryUserDir env pathname filename fp p) := by
  have hsearched : Searched env.fs
      (found env.fs filename (userDirs env pathname p) includeSuffixes)
      (if p ≠ [] then kbdfileFind env.fs filename [p] includeSuffixes fp
        else findStandardInclFile env pathname filename fp) := by
    unfold userDirs at hfit ⊢
    split
    · rename_i hne
      rw [if_pos hne] at hfit
      exact kbdfileFind_searched hfit hfd
    · rename_i hempty
      rw [if_neg hempty] at hfit
      exact findStandardInclFile_searched hfit hfd
  unfold tryUserDir
  dsimp only
  generalize (if p ≠ [] then kbdfileFind env.fs filename [p] includeSuffixes fp
    else findStandardInclFile env pathname filename fp) = res at hsearched ⊢
  obtain ⟨hagrees, hrc⟩ := hsearched
  cases hr : found env.fs filename (userDirs env pathname p) includeSuffixes with
  | some place =>
    rw [hr] at hagrees
    rw [if_pos (by rw [hagrees.1])]
    exact ⟨res, rfl, hagrees⟩
  | none =>
    rw [hr] at hagrees
    have hne := hagrees.1
    rw [if_neg (by omega)]
    exact ⟨res.2, rfl, hagrees.2⟩

/-- The searches for several elements are one. -/
theorem findSome?_userDirs : ∀ {ps : List (List Char)}, ps ≠ [] →
    (ps.findSome? fun p => found env.fs filename (userDirs env pathname p) includeSuffixes) =
      found env.fs filename (ps.flatMap (userDirs env pathname)) includeSuffixes := by
  intro ps hne
  induction ps with
  | nil => exact absurd rfl hne
  | cons p ps ih =>
    by_cases hps : ps = []
    · subst hps
      simp
    · rw [List.findSome?_cons, ih hps, List.flatMap_cons, found_append]
      cases found env.fs filename (userDirs env pathname p) includeSuffixes <;> rfl

/-- All searches of `find_incl_file` are one. -/
theorem findInclFile_agrees (hname : filename ≠ [])
    (hfit : PathsFit env.fs filename (inclDirs env pathname filename) includeSuffixes)
    {fp : Kbd.File.Kbdfile} (hfd : fp.fd = none) : Agrees env.fs
      (found env.fs filename (inclDirs env pathname filename) includeSuffixes)
      (findInclFile env pathname filename fp) := by
  unfold inclDirs at hfit ⊢
  rw [findInclFile, if_neg hname]
  split
  · rename_i hfull
    rw [if_pos hfull] at hfit
    exact kbdfileFind_agrees hfit hfd
  rename_i hfull
  rw [if_neg hfull] at hfit
  generalize env.includePath = includePath at hfit ⊢
  cases includePath with
  | none => exact (findStandardInclFile_searched hfit hfd).agrees
  | some ev =>
    dsimp only at hfit ⊢
    have hends : Ends (fun place res => Agrees env.fs (some place) res) (fun fp => fp.fd = none)
        ((ev.splitOn ':').findSome? fun p =>
          found env.fs filename (userDirs env pathname p) includeSuffixes)
        ((ev.splitOn ':').foldlM (tryUserDir env pathname filename) fp) :=
      Ends.foldlM (fun p hp fp hfd => tryUserDir_ends
        (hfit.mono fun e he => List.mem_flatMap.mpr ⟨p, hp, he⟩) hfd) hfd
    rw [findSome?_userDirs (List.splitOn_ne_nil ':' ev)] at hends
    generalize found env.fs filename ((ev.splitOn ':').flatMap (userDirs env pathname))
      includeSuffixes = r at hends ⊢
    cases r with
    | some place =>
      obtain ⟨res, hres, hagrees⟩ := hends
      rw [hres]
      exact hagrees
    | none =>
      obtain ⟨fp', hres, hfd'⟩ := hends
      rw [hres]
      exact ⟨by simp, hfd'⟩

end Standard

/-- The parser gets the file that one search in all directories finds. -/
theorem findIncl_reference (env : InclEnv) (content : Lib.FileTree.Place → List Char)
    (pathname : List Char) {filename : List Char} (hname : filename ≠ [])
    (hfit : PathsFit env.fs filename (inclDirs env pathname filename) includeSuffixes) :
    match found env.fs filename (inclDirs env pathname filename) includeSuffixes with
    | some place => ∃ path, env.find content pathname filename = some (path, content place) ∧
        env.fs.fileAt path = some place
    | none => env.find content pathname filename = none := by
  have hagrees := @findInclFile_agrees env pathname filename hname hfit
    { pathname := [], fd := none } rfl
  unfold InclEnv.find
  generalize findInclFile env pathname filename { pathname := [], fd := none } = res at hagrees ⊢
  obtain ⟨rc, fp⟩ := res
  generalize found env.fs filename (inclDirs env pathname filename) includeSuffixes = r
    at hagrees ⊢
  cases r with
  | some place =>
    obtain ⟨hrc, hfd, hpath⟩ := hagrees
    refine ⟨fp.pathname, (if_pos hrc).trans ?_, hpath⟩
    exact congrArg (Option.map fun place => (fp.pathname, content place)) hfd
  | none => exact if_neg hagrees.1

/-- A tree with one file, in the directory that the user names. -/
def userTree : FileSystem where
  root := [(bytes "d", .dir [(bytes "f.inc", .file)])]
  cwd := []
  good := by
    refine .dir (by decide) (by decide) ?_
    intro e he
    obtain rfl := List.mem_singleton.mp he
    refine .dir (by decide) (by decide) ?_
    intro e he
    obtain rfl := List.mem_singleton.mp he
    exact .file
  cwd_dir := Option.some_ne_none _

@[inherit_doc userTree]
def userEnv : InclEnv where
  fs := userTree
  keymapdir := bytes "/k"
  readlink := fun _ => none
  includePath := some (bytes "/d")

theorem inclDirs_userEnv : inclDirs userEnv [] (bytes "f") = [bytes "/d"] := by decide

theorem pathsFit_userTree {fnam : List Char} (hname : ∀ c ∈ candidates fnam, c.length < maxpathlen)
    (hff : Kbd.File.strchrSlash fnam = none) (hhead : fnam.head? ≠ some '/')
    (suf : List (List Char)) : PathsFit userTree fnam [bytes "/d"] suf where
  name := hname
  fullname := fun hfull => absurd hfull hhead
  search := by
    intro e he path hpath
    have hdir : userTree.dirAt (bytes "/d") = some ([bytes "d"], [(bytes "f.inc", .file)]) := rfl
    have hentry : Kbd.File.dirOf (bytes "/d") = bytes "/d" ∧ Kbd.File.recdepthOf (bytes "/d") = 0 := by
      decide
    rw [List.mem_singleton.mp he, hentry.1, hentry.2] at hpath
    cases hpath with
    | entry hd he =>
      rw [hdir] at hd
      cases hd
      obtain rfl := List.mem_singleton.mp he
      decide
    | inner hff' _ =>
      rw [hff] at hff'
      cases hff'

theorem findIncl_reference_user : ∃ path,
    userEnv.find (fun _ => bytes "strings as usual\n") [] (bytes "f") =
      some (path, bytes "strings as usual\n") ∧
    userTree.fileAt path = some [bytes "d", bytes "f.inc"] := by
  have hincl := findIncl_reference userEnv (fun _ => bytes "strings as usual\n") [] (by decide)
    (inclDirs_userEnv ▸ pathsFit_userTree (by decide) (by decide) (by decide) includeSuffixes)
  have href : found userTree (bytes "f") [bytes "/d"] includeSuffixes =
      some [bytes "d", bytes "f.inc"] := by
    have hname : (candidates (bytes "f")).findSome? userTree.fileAt = none := by decide
    have hdir : dirNamed userTree (bytes "/d") = some ([bytes "d"], [(bytes "f.inc", .file)]) := rfl
    have hown : ownFile includeSuffixes (bytes "f") [(bytes "f.inc", .file)] = some (bytes "f.inc") := by
      decide
    rw [found_eq_reference (by decide), reference, hname, if_neg (by decide), Option.none_or,
      Option.none_or, List.findSome?_cons, hdir, Option.bind_some,
      search_of_none includeSuffixes _ _ _ (by decide), hown]
    rfl
  rw [inclDirs_userEnv] at hincl
  rw [show userEnv.fs = userTree from rfl, href] at hincl
  exact hincl

end Kbd.Keymap
