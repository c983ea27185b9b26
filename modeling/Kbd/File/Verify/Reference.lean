import Kbd.File.Find
import Kbd.Lib.Search

/-!
# What `kbdfile_find` is to find

`reference` says on the tree of files what is looked for and in which order: `kbdfile_find` itself
works on pathnames. `Agrees` compares the two. Here are the parts of `kbdfile.c` that open a file under
one of its names or compare a name with the suffixes.
-/

namespace Kbd.File


open Kbd.Lib.FileTree Kbd.Lib.Search

/-! ## The reference -/

/-- The names under which a file is looked for: plain, then compressed. -/
def candidates (name : List Char) : List (List Char) := name :: extensions.map (name ++ ·)

/-- The directory has a regular file of this name. -/
def isOwnFile (es : List (List Char × Node)) (name : List Char) : Bool :=
  (es.lookup name).any Node.isReg

/-- The file of the directory itself that has the first of the suffixes. -/
def ownFile (suf : List (List Char)) (fnam : List Char) (es : List (List Char × Node)) :
    Option (List Char) :=
  suf.findSome? fun s => (candidates (fnam ++ s)).find? (isOwnFile es)

/-- The subdirectories with their entries. -/
def subdirs (es : List (List Char × Node)) : List (List Char × List (List Char × Node)) :=
  es.filterMap fun e => e.2.entries?.map (e.1, ·)

/-- The search in the directory at `p`, whose entries are `es`. -/
def search (suf : List (List Char)) (fnam : List Char) (depth : Nat) (p : Place)
    (es : List (List Char × Node)) : Option Place :=
  let below : Option Place :=
    match depth with
    | 0 => none
    | d + 1 => (subdirs es).findSome? fun e => search suf fnam d (p ++ [e.1]) e.2
  match h : strchrSlash fnam with
  | none => ((ownFile suf fnam es).map (p ++ [·])).or below
  | some (fdir, rest) =>
    have : rest.length < fnam.length := length_lt_of_strchrSlash h
    let sub := (es.lookup fdir).bind Node.entries?
    let again : Option Place :=
      match depth with
      | 0 => none
      | d + 1 => sub.bind (search suf fnam d (p ++ [fdir]))
    ((sub.bind (search suf rest 0 (p ++ [fdir]))).or again).or below
termination_by (fnam.length, depth)

/-- The directory that an entry of the list names, which is the working directory when nothing stands
before the stars. -/
def dirNamed (fs : FileSystem) (entry : List Char) : Option (Place × List (List Char × Node)) :=
  let name := entry.rdropWhile (· = '*')
  if name = [] then (fs.entriesAt fs.cwd).map (fs.cwd, ·) else fs.dirAt name

/-- The file that is to be found. -/
def reference (fs : FileSystem) (fnam : List Char) (dirpath suffixes : List (List Char)) :
    Option Place :=
  ((candidates fnam).findSome? fs.fileAt).or <|
    (if fnam.head? = some '/' then
      suffixes.findSome? fun s => (candidates (fnam ++ s)).findSome? fs.fileAt
    else none).or <|
    dirpath.findSome? fun entry =>
      (dirNamed fs entry).bind fun d => search suffixes fnam (recdepthOf entry) d.1 d.2

/-! ## What the search means for the pathnames -/

/-- The pathnames that a search in `dir` builds. -/
inductive Builds (fs : FileSystem) : List Char → List Char → Nat → List Char → Prop where
  | entry {fnam dir : List Char} {depth : Nat} {d : Place × List (List Char × Node)}
      {e : List Char × Node} (hdir : fs.dirAt dir = some d) (he : e ∈ d.2) :
      Builds fs fnam dir depth (dir ++ '/' :: e.1)
  | inner {fnam dir fdir rest path : List Char} {depth : Nat}
      (hff : strchrSlash fnam = some (fdir, rest)) (h : Builds fs rest (dir ++ '/' :: fdir) 0 path) :
      Builds fs fnam dir depth path
  | deeper {fnam dir path : List Char} {depth : Nat} {d : Place × List (List Char × Node)}
      {e : List Char × Node} (hdir : fs.dirAt dir = some d) (he : e ∈ d.2)
      (h : Builds fs fnam (dir ++ '/' :: e.1) depth path) : Builds fs fnam dir (depth + 1) path

/-- All pathnames are shorter than the buffer for them. -/
structure PathsFit (fs : FileSystem) (fnam : List Char) (dirpath suffixes : List (List Char)) :
    Prop where
  name : ∀ c ∈ candidates fnam, c.length < maxpathlen
  fullname : fnam.head? = some '/' →
    ∀ s ∈ suffixes, ∀ c ∈ candidates (fnam ++ s), c.length < maxpathlen
  search : ∀ entry ∈ dirpath, ∀ path, Builds fs fnam (dirOf entry) (recdepthOf entry) path →
    path.length < maxpathlen

/-- The file is open under its pathname. -/
def Opened (fs : FileSystem) (p : Place) (fp : Kbdfile) : Prop :=
  fp.fd = some p ∧ fs.fileAt fp.pathname = some p

/-- The result code and the file are those of a search with the result `r`. -/
def Agrees (fs : FileSystem) (r : Option Place) (res : Int × Kbdfile) : Prop :=
  match r with
  | some p => res.1 = 0 ∧ Opened fs p res.2
  | none => res.1 ≠ 0 ∧ res.2.fd = none

/-! ## Opening a file under one of its names -/

section

variable (fs : FileSystem)

/-- A loop over names, each of which is tried. -/
theorem agrees_of_ends {r : Option Place} {x : Except Kbdfile Kbdfile} {rc : Int} (hrc : rc ≠ 0)
    {f : Kbdfile → Kbdfile} (hf : ∀ fp, (f fp).fd = fp.fd)
    (h : Ends (Opened fs) (fun fp => fp.fd = none) r x) :
    Agrees fs r (match (motive := Except Kbdfile Kbdfile → Int × Kbdfile) x with
      | .error fp => (0, fp)
      | .ok fp => (rc, f fp)) := by
  cases r with
  | some p =>
    obtain ⟨fp, rfl, hfp⟩ := h
    exact ⟨rfl, hfp⟩
  | none =>
    obtain ⟨fp, rfl, hfp⟩ := h
    exact ⟨hrc, (hf fp).trans hfp⟩

/-- One round of such a loop. -/
theorem ends_of_agrees {r : Option Place} {res : Int × Kbdfile} (h : Agrees fs r res) :
    Ends (Opened fs) (fun fp => fp.fd = none) r
      (if res.1 = 0 then .error res.2 else .ok res.2 : Except Kbdfile Kbdfile) := by
  cases r with
  | some p =>
    rw [if_pos h.1]
    exact ⟨_, rfl, h.2⟩
  | none =>
    rw [if_neg h.1]
    exact ⟨_, rfl, h.2⟩

omit fs in
theorem setPathname_of_lt {pathname : List Char} (h : pathname.length < maxpathlen) (fp : Kbdfile) :
    setPathname fp pathname = { fp with pathname } := by
  rw [setPathname, List.take_of_length_le (by omega)]

omit fs in
theorem pathnameSprintf_of_lt {pathname : List Char} (h : pathname.length < maxpathlen)
    (fp : Kbdfile) : pathnameSprintf fp pathname = (0, { fp with pathname }) := by
  rw [pathnameSprintf, if_neg (by omega), setPathname_of_lt h]

theorem openPathname_agrees (fp : Kbdfile) (hfd : fp.fd = none) :
    Agrees fs (fs.fileAt fp.pathname) (openPathname fs fp) := by
  rw [openPathname]
  cases h : fs.fileAt fp.pathname with
  | some p => exact ⟨rfl, rfl, h⟩
  | none => exact ⟨by simp, hfd⟩

theorem tryExtension_ends {pathname ext : List Char} {fp : Kbdfile} (hfd : fp.fd = none)
    (hfit : (fs.fileAt (pathname ++ ext)).isSome → (pathname ++ ext).length < maxpathlen) :
    Ends (Opened fs) (fun fp => fp.fd = none) (fs.fileAt (pathname ++ ext))
      (tryExtension fs pathname fp ext) := by
  rw [List.length_append] at hfit
  unfold tryExtension
  split
  · have hnone : fs.fileAt (pathname ++ ext) = none := by
      rw [← Option.not_isSome_iff_eq_none]
      intro h
      have := hfit h
      omega
    rw [hnone]
    exact ⟨fp, rfl, hfd⟩
  · exact ends_of_agrees fs (openPathname_agrees fs { fp with pathname := pathname ++ ext } hfd)

theorem maybePipeOpen_agrees (fp : Kbdfile) (hfd : fp.fd = none)
    (hfit : ∀ c ∈ candidates fp.pathname, (fs.fileAt c).isSome → c.length < maxpathlen) :
    Agrees fs ((candidates fp.pathname).findSome? fs.fileAt) (maybePipeOpen fs fp) := by
  rw [candidates, List.findSome?_cons]
  cases h : fs.fileAt fp.pathname with
  | some p =>
    have hfp : openPathname fs fp = (0, { fp with fd := some p }) := by
      rw [openPathname, h]
    rw [maybePipeOpen, hfp]
    exact ⟨rfl, rfl, h⟩
  | none =>
    have hfp : openPathname fs fp = (-1, fp) := by
      rw [openPathname, h]
    rw [maybePipeOpen, hfp, List.findSome?_map]
    refine agrees_of_ends fs (by decide) (fun _ => rfl) (Ends.foldlM ?_ hfd)
    intro ext hext g hg
    exact tryExtension_ends fs hg (hfit _ (List.mem_cons_of_mem _ (List.mem_map_of_mem hext)))

theorem findfileByFullname_agrees {fnam : List Char} {suffixes : List (List Char)} {fp : Kbdfile}
    (hfd : fp.fd = none)
    (hfit : ∀ s ∈ suffixes, ∀ c ∈ candidates (fnam ++ s), c.length < maxpathlen) :
    Agrees fs (suffixes.findSome? fun s => (candidates (fnam ++ s)).findSome? fs.fileAt)
      (findfileByFullname fs fnam suffixes fp) := by
  refine agrees_of_ends fs (by decide) (fun _ => rfl) (Ends.foldlM ?_ hfd)
  intro s hs g hg
  have hlen : (fnam ++ s).length < maxpathlen := hfit s hs _ List.mem_cons_self
  rw [trySuffix, pathnameSprintf_of_lt hlen]
  exact ends_of_agrees fs (maybePipeOpen_agrees fs { g with pathname := fnam ++ s } hg
    fun c hc _ => hfit s hs c hc)

end

/-! ## Comparing names -/

theorem lower_eq_minIdx (i : Nat) (index : Option Nat) : lower i index = minIdx index (some i) := by
  cases index with
  | none => rfl
  | some j =>
    rw [lower, minIdx]
    split
    · rw [Nat.min_eq_right (by omega)]
    · rw [Nat.min_eq_left (by omega)]

theorem mem_candidates_iff (p suf : List Char) :
    p ∈ candidates suf ↔ p = suf ∨ (suf.isPrefixOf p ∧ p.drop suf.length ∈ extensions) := by
  rw [candidates, List.mem_cons, List.mem_map]
  refine or_congr_right ?_
  rw [List.isPrefixOf_iff_prefix]
  constructor
  · rintro ⟨ext, hext, rfl⟩
    exact ⟨List.prefix_append _ _, by rwa [List.drop_left]⟩
  · rintro ⟨⟨ext, rfl⟩, hext⟩
    rw [List.drop_left] at hext
    exact ⟨ext, hext, rfl⟩

theorem filecmpTail_eq (p : List Char) (index : Option Nat) (sufs : List (List Char)) (i : Nat) :
    filecmpTail p index sufs i
      = (sufs.findIdx? fun s => decide (p ∈ candidates s)).map fun j => lower (i + j) index := by
  induction sufs generalizing i with
  | nil => rfl
  | cons suf sufs ih =>
    rw [filecmpTail, List.findIdx?_cons]
    by_cases h : p ∈ candidates suf
    · rcases (mem_candidates_iff p suf).mp h with heq | hext
      · simp [heq, candidates]
      · simp only [h, decide_true, if_true, Option.map_some, Nat.add_zero]
        rw [if_pos hext, ite_self]
    · have hor := fun h' => h ((mem_candidates_iff p suf).mpr h')
      rw [if_neg fun h' => hor (Or.inl h'), if_neg fun h' => hor (Or.inr h'), ih]
      simp [h, Function.comp_def, Nat.add_assoc, Nat.add_comm 1]

theorem candidates_append (dir name : List Char) :
    candidates (dir ++ name) = (candidates name).map (dir ++ ·) := by
  simp [candidates, Function.comp_def]

/-- `filecmp` gives the first suffix with which the name is one to look for. -/
theorem filecmp_eq (fname name : List Char) (suf : List (List Char)) (index : Option Nat) :
    filecmp fname name suf index
      = (suf.findIdx? fun s => decide (name ∈ candidates (fname ++ s))).map fun i =>
          minIdx index (some i) := by
  rw [filecmp]
  split
  · rename_i h
    obtain ⟨p, rfl⟩ := List.isPrefixOf_iff_prefix.mp h
    rw [List.drop_left, filecmpTail_eq]
    simp [lower_eq_minIdx, candidates_append]
  · rename_i h
    have hnone : (suf.findIdx? fun s => decide (name ∈ candidates (fname ++ s))) = none := by
      rw [List.findIdx?_eq_none_iff]
      intro s _
      rw [decide_eq_false_iff_not, candidates_append, List.mem_map]
      rintro ⟨p, -, rfl⟩
      exact h (List.isPrefixOf_iff_prefix.mpr (List.prefix_append _ _))
    rw [hnone]
    rfl

end Kbd.File
