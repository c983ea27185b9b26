import Kbd.File.Verify.Scan
import Mathlib.Data.Bool.AllAny

/-!
# What `kbdfile_find` finds

`kbdfile_find` finds what the reference finds where the entries that consist of slashes only are read as
the working directory (`kbdfileFind_agrees`): without its trailing slashes nothing is left of the root
directory, and the working directory is searched in its place.
-/

namespace Kbd.File

open Kbd.Keymap (bytes)
open Kbd.Lib.FileTree Kbd.Lib.Search

/-! ## The search in a directory -/

section

variable (fs : FileSystem) (suf : List (List Char))

/-- The arguments of a search, without the second scan. -/
def scanArgs (fnam dir : List Char) (recdepth : Nat) : ScanArgs where
  fs := fs
  fnam := fnam
  dir := dir
  recdepth := recdepth
  suf := suf
  secondpass := false
  inner := fun path fp =>
    match strchrSlash fnam with
    | none => (1, fp)
    | some (_, rest) => findfileInDir fs suf rest path 0 fp
  below := fun path fp =>
    match recdepth with
    | 0 => (1, fp)
    | d + 1 => findfileInDir fs suf fnam path d fp

theorem findfileInDir_eq (fnam dir : List Char) (recdepth : Nat) (fp : Kbdfile) :
    findfileInDir fs suf fnam dir recdepth fp = scanDir (scanArgs fs suf fnam dir recdepth) fp := by
  rw [findfileInDir.eq_def, scanArgs]
  congr 2
  funext path fp
  split <;> rename_i hff <;> simp only [hff]

/-- The results of the call for the rest of the name. -/
def innerSearch (fnam : List Char) (p : Place) (name : List Char) (es : List (List Char × Node)) :
    Option Place :=
  match strchrSlash fnam with
  | none => none
  | some (_, rest) => search suf rest 0 (p ++ [name]) es

/-- The results of the call for the whole name. -/
def belowSearch (fnam : List Char) (depth : Nat) (p : Place) (name : List Char)
    (es : List (List Char × Node)) : Option Place :=
  match depth with
  | 0 => none
  | d + 1 => search suf fnam d (p ++ [name]) es

variable {fnam : List Char} (depth : Nat) (p : Place) (es : List (List Char × Node))

theorem findSome?_subdirs (g : List Char → List (List Char × Node) → Option Place) :
    ((subdirs es).findSome? fun e => g e.1 e.2)
      = es.findSome? fun e => e.2.entries?.bind (g e.1) := by
  rw [subdirs, findSome?_filterMap]
  refine findSome?_congr fun e _ => ?_
  cases e.2.entries? <;> rfl

theorem findSome?_none (l : List (List Char × List (List Char × Node))) :
    (l.findSome? fun _ => (none : Option Place)) = none :=
  List.findSome?_eq_none_iff.mpr fun _ _ => rfl

theorem search_of_none (hff : strchrSlash fnam = none) :
    search suf fnam depth p es = ((ownFile suf fnam es).map (p ++ [·])).or
      (es.findSome? fun e => e.2.entries?.bind (belowSearch suf fnam depth p e.1)) := by
  rw [← findSome?_subdirs]
  cases depth <;> rw [search.eq_def] <;> dsimp only <;> split <;> rename_i h
  · simp [belowSearch, findSome?_none]
  · simp [hff] at h
  · rfl
  · simp [hff] at h

theorem search_of_some {fdir rest : List Char} (hff : strchrSlash fnam = some (fdir, rest)) :
    search suf fnam depth p es =
      (((es.lookup fdir).bind Node.entries?).bind fun es' =>
        (innerSearch suf fnam p fdir es').or (belowSearch suf fnam depth p fdir es')).or
      (es.findSome? fun e => e.2.entries?.bind (belowSearch suf fnam depth p e.1)) := by
  rw [← findSome?_subdirs]
  cases depth <;> rw [search.eq_def] <;> dsimp only <;> split <;> rename_i h
  · simp [hff] at h
  · rw [hff] at h
    cases h
    cases (es.lookup fdir).bind Node.entries? <;> 
      simp [innerSearch, belowSearch, hff, findSome?_none]
  · simp [hff] at h
  · rw [hff] at h
    cases h
    cases (es.lookup fdir).bind Node.entries? <;> simp [innerSearch, belowSearch, hff]

end

/-! ## The two scans -/

theorem foldlM_dots (a : ScanArgs) (s : Scan) (l : List (List Char)) :
    (['.'] :: ['.', '.'] :: l).foldlM (scanEntry a) s = l.foldlM (scanEntry a) s := by
  have h₁ : scanEntry a s ['.'] = .ok s := if_pos (Or.inl rfl)
  have h₂ : scanEntry a s ['.', '.'] = .ok s := if_pos (Or.inr rfl)
  rw [List.foldlM_cons, h₁]
  change List.foldlM (scanEntry a) s (['.', '.'] :: l) = _
  rw [List.foldlM_cons, h₂]
  rfl

theorem agrees_of_scan {fs : FileSystem} {r : Option Place} {x : Except Scan Scan}
    (h : Ends (ScanFound fs) ScanGoing r x) :
    Agrees fs r (match (motive := Except Scan Scan → Int × Kbdfile) x with
      | .error s => (s.rc, s.fp)
      | .ok s => (s.rc, s.fp)) := by
  cases r with
  | some q =>
    obtain ⟨s, rfl, hs⟩ := h
    exact hs
  | none =>
    obtain ⟨s, rfl, hs⟩ := h
    exact ⟨hs.1, hs.2.2⟩

section Level

variable {fs : FileSystem} {suf : List (List Char)} {fnam dir : List Char} {depth : Nat} {p : Place}
  {es : List (List Char × Node)} (hdir : dir ≠ []) (hp : fs.resolve dir = some p)
  (hes : fs.entriesAt p = some es) (hfit : ∀ e ∈ es, (dir ++ '/' :: e.1).length < maxpathlen)
  (hinner : ∀ fdir rest, strchrSlash fnam = some (fdir, rest) → ∀ e ∈ es, e.1 = fdir →
    ∀ es', e.2.entries? = some es' → ∀ fp, Agrees fs (search suf rest 0 (p ++ [e.1]) es')
      (findfileInDir fs suf rest (dir ++ '/' :: e.1) 0 fp))
  (hbelow : ∀ d, depth = d + 1 → ∀ e ∈ es, ∀ es', e.2.entries? = some es' → ∀ fp,
    Agrees fs (search suf fnam d (p ++ [e.1]) es')
      (findfileInDir fs suf fnam (dir ++ '/' :: e.1) d fp))

include hdir hp hes hfit hinner hbelow

/-- One scan for subdirectories, if the recursive calls are right. -/
theorem scan_ends (secondpass : Bool) (hpass : secondpass ∨ (strchrSlash fnam).isSome) {s : Scan}
    (hs : ScanGoing s) :
    let a := { scanArgs fs suf fnam dir depth with secondpass }
    Ends (ScanFound fs) ScanGoing
      (es.findSome? (passEntry a (innerSearch suf fnam p) (belowSearch suf fnam depth p)))
      ((['.'] :: ['.', '.'] :: es.map Prod.fst).foldlM (scanEntry a) s) := by
  intro a
  rw [foldlM_dots]
  refine scan_subdirs hdir hp hes hfit (a := a) rfl rfl hpass ?_ ?_ hs
  · intro e he es' hes' hok fp
    cases hff : strchrSlash fnam with
    | none => simp [okdir, a, scanArgs, hff] at hok
    | some ff =>
      obtain ⟨fdir, rest⟩ := ff
      have hname : fdir = e.1 := by simpa [okdir, a, scanArgs, hff] using hok
      simpa [innerSearch, a, scanArgs, hff] using hinner fdir rest hff e he hname.symm es' hes' fp
  · intro e he es' hes' hdepth fp
    cases depth with
    | zero => exact absurd rfl hdepth
    | succ d => exact hbelow d rfl e he es' hes' fp

/-- The second scan. -/
theorem second_scan {s : Scan} (hs : ScanGoing s)
    (hfirst : ∀ e ∈ es, okdir (scanArgs fs suf fnam dir depth) e.1 → ∀ es', e.2.entries? = some es' →
      innerSearch suf fnam p e.1 es' = none) :
    Agrees fs (es.findSome? fun e => e.2.entries?.bind (belowSearch suf fnam depth p e.1))
      (if depth > 0 then
        match (['.'] :: ['.', '.'] :: es.map Prod.fst).foldlM
          (scanEntry { scanArgs fs suf fnam dir depth with secondpass := true }) s with
        | .error s => (s.rc, s.fp)
        | .ok s => (s.rc, s.fp)
      else (s.rc, s.fp)) := by
  cases depth with
  | zero =>
    have hnone : (es.findSome? fun e => e.2.entries?.bind (belowSearch suf fnam 0 p e.1)) = none := by
      rw [List.findSome?_eq_none_iff]
      intro e _
      cases e.2.entries? <;> rfl
    rw [hnone]
    exact ⟨hs.1, hs.2.2⟩
  | succ d =>
    rw [if_pos (Nat.succ_pos d)]
    have hscan := scan_ends hdir hp hes hfit hinner hbelow true (Or.inl rfl) hs
    have hcongr : (es.findSome? fun e => e.2.entries?.bind (belowSearch suf fnam (d + 1) p e.1))
        = es.findSome? (passEntry { scanArgs fs suf fnam dir (d + 1) with secondpass := true }
            (innerSearch suf fnam p) (belowSearch suf fnam (d + 1) p)) := by
      refine findSome?_congr fun e he => ?_
      cases hsub : e.2.entries? with
      | none => simp [passEntry, hsub]
      | some es' =>
        have hin : (if okdir (scanArgs fs suf fnam dir (d + 1)) e.1 then
            innerSearch suf fnam p e.1 es' else none) = none := by
          split
          · rename_i hok
            exact hfirst e he hok es' hsub
          · rfl
        change belowSearch suf fnam (d + 1) p e.1 es'
          = if (true && decide (d + 1 ≠ 0) || okdir (scanArgs fs suf fnam dir (d + 1)) e.1) = true then
              e.2.entries?.bind fun es' =>
                (if okdir (scanArgs fs suf fnam dir (d + 1)) e.1 then innerSearch suf fnam p e.1 es'
                  else none).or (if d + 1 ≠ 0 then belowSearch suf fnam (d + 1) p e.1 es' else none)
            else none
        rw [hsub, Option.bind_some, hin]
        simp
    rw [hcongr]
    exact agrees_of_scan hscan

omit hdir hfit hinner hbelow in
theorem findfileInDir_of_entries (fp : Kbdfile) :
    findfileInDir fs suf fnam dir depth fp
      = afterScan (scanArgs fs suf fnam dir depth) (['.'] :: ['.', '.'] :: es.map Prod.fst)
          ((['.'] :: ['.', '.'] :: es.map Prod.fst).foldlM
            (scanEntry (scanArgs fs suf fnam dir depth))
            { rc := 1, index := none, fp := { fp with fd := none } }) := by
  have hscandir : fs.scandir dir = some (['.'] :: ['.', '.'] :: es.map Prod.fst) := by
    rw [FileSystem.scandir, FileSystem.dirAt_of_entriesAt hp hes]
    rfl
  have hargs : (scanArgs fs suf fnam dir depth).fs.scandir (scanArgs fs suf fnam dir depth).dir
      = some (['.'] :: ['.', '.'] :: es.map Prod.fst) := hscandir
  rw [findfileInDir_eq, scanDir, hargs]

/-- A name without a slash: the directory's own files come first. -/
theorem level_of_none (hff : strchrSlash fnam = none) (fp : Kbdfile) :
    Agrees fs (search suf fnam depth p es) (findfileInDir fs suf fnam dir depth fp) := by
  have hstart : Scanned none { rc := 1, index := none, fp := { fp with fd := none } } :=
    ⟨rfl, rfl, rfl⟩
  obtain ⟨s, hscan, hs⟩ := scan_files hdir hp hes hfit (a := scanArgs fs suf fnam dir depth) rfl rfl
    hff rfl (List.Subset.refl es) hstart
  have hidx : (suf.findIdx? fun t => es.any (hit fnam es t))
      = suf.findIdx? fun t => ((candidates (fnam ++ t)).find? (isOwnFile es)).isSome :=
    congrArg suf.findIdx? (funext (any_hit es fnam))
  have hown : ownFile suf fnam es = _ := findSome?_eq_bind_findIdx? suf _
  change Scanned (suf.findIdx? fun t => es.any (hit fnam es t)) s at hs
  rw [hidx] at hs
  rw [findfileInDir_of_entries hp hes, foldlM_dots, hscan, search_of_none suf depth p es hff, hown,
    afterScan]
  cases hi : suf.findIdx? fun t => ((candidates (fnam ++ t)).find? (isOwnFile es)).isSome with
  | some i =>
    rw [hi] at hs
    obtain ⟨hlt, hsome, -⟩ := List.findIdx?_eq_some_iff_getElem.mp hi
    obtain ⟨hlen, hopen⟩ := open_own hdir hp hes hfit hsome hs.fd_eq
    obtain ⟨c, hc⟩ := Option.isSome_iff_exists.mp hsome
    have hres : suf[i]?.bind (fun t => (candidates (fnam ++ t)).find? (isOwnFile es)) = some c := by
      rw [List.getElem?_eq_getElem hlt]
      exact hc
    have hprint : pathnameSprintf s.fp (dir ++ '/' :: (fnam ++ suf[i]?.getD []))
        = (0, { s.fp with pathname := dir ++ '/' :: (fnam ++ suf[i]) }) := by
      rw [List.getElem?_eq_getElem hlt]
      exact pathnameSprintf_of_lt hlen s.fp
    rw [hc] at hopen
    rw [hs.index_eq, hs.rc_eq, Option.bind_some, hres]
    change Agrees fs _ (if (0 : Int) ≠ 0 then _ else
      let r := pathnameSprintf s.fp (dir ++ '/' :: (fnam ++ suf[i]?.getD []))
      if r.1 ≠ 0 then r else maybePipeOpen fs r.2)
    rw [hprint]
    exact hopen
  | none =>
    rw [hi] at hs
    rw [hs.index_eq, Option.bind_none, Option.map_none, Option.none_or]
    refine second_scan hdir hp hes hfit hinner hbelow ⟨by rw [hs.rc_eq]; simp, hs.index_eq, hs.fd_eq⟩ ?_
    intro e _ hok
    simp [okdir, scanArgs, hff] at hok

/-- A name with a slash: the subdirectory it names comes first. -/
theorem level_of_some {ff : List Char × List Char} (hff : strchrSlash fnam = some ff) (fp : Kbdfile) :
    Agrees fs (search suf fnam depth p es) (findfileInDir fs suf fnam dir depth fp) := by
  obtain ⟨fdir, rest⟩ := ff
  have hstart : ScanGoing { rc := 1, index := none, fp := { fp with fd := none } } :=
    ⟨by simp, rfl, rfl⟩
  have hscan := scan_ends hdir hp hes hfit hinner hbelow false (Or.inr (by rw [hff]; rfl)) hstart
  -- only the subdirectory that is named is looked at in the first scan
  have hfirst : es.findSome? (passEntry (scanArgs fs suf fnam dir depth) (innerSearch suf fnam p)
      (belowSearch suf fnam depth p))
      = ((es.lookup fdir).bind Node.entries?).bind fun es' =>
        (innerSearch suf fnam p fdir es').or (belowSearch suf fnam depth p fdir es') := by
    rw [Option.bind_assoc]
    have hkey := findSome?_key (FileSystem.nodup_entriesAt hes) fdir fun e => e.2.entries?.bind
      fun es' => (innerSearch suf fnam p e.1 es').or (belowSearch suf fnam depth p e.1 es')
    rw [← hkey]
    refine findSome?_congr fun e _ => ?_
    have hok : okdir (scanArgs fs suf fnam dir depth) e.1 = (fdir == e.1) := by
      rw [Bool.eq_iff_iff]
      simp [okdir, scanArgs, hff]
    have hzero : ∀ es', (if depth ≠ 0 then belowSearch suf fnam depth p e.1 es' else none)
        = belowSearch suf fnam depth p e.1 es' := by
      intro es'
      cases depth <;> rfl
    rw [passEntry, hok]
    change (if (false && decide (depth ≠ 0) || fdir == e.1) = true then e.2.entries?.bind fun es' =>
      (if fdir == e.1 then innerSearch suf fnam p e.1 es' else none).or
        (if depth ≠ 0 then belowSearch suf fnam depth p e.1 es' else none) else none) = _
    cases fdir == e.1 <;> simp [hzero]
  rw [search_of_some suf depth p es hff, ← hfirst, findfileInDir_of_entries hp hes]
  change Ends _ _ (es.findSome? (passEntry (scanArgs fs suf fnam dir depth) _ _))
    (List.foldlM (scanEntry (scanArgs fs suf fnam dir depth)) _ _) at hscan
  cases hr : es.findSome? (passEntry (scanArgs fs suf fnam dir depth) (innerSearch suf fnam p)
      (belowSearch suf fnam depth p)) with
  | some q =>
    rw [hr] at hscan
    obtain ⟨s, hs, hfound⟩ := hscan
    rw [hs]
    exact hfound
  | none =>
    rw [hr] at hscan
    obtain ⟨s, hs, hgoing⟩ := hscan
    rw [hs, Option.none_or, afterScan, hgoing.2.1]
    refine second_scan hdir hp hes hfit hinner hbelow hgoing ?_
    intro e he hok es' hsub
    have hnone := List.findSome?_eq_none_iff.mp hr e he
    rw [passEntry, hok, hsub] at hnone
    simp only [Bool.or_true, if_true, Option.bind_some, Option.or_eq_none_iff] at hnone
    exact hnone.1

end Level

/-- `findfile_in_dir` finds what the search in the directory finds. -/
theorem findfileInDir_agrees {fs : FileSystem} (suf : List (List Char)) (fnam dir : List Char)
    (depth : Nat) {p : Place} {es : List (List Char × Node)} (hdir : dir ≠ [])
    (hp : fs.resolve dir = some p) (hes : fs.entriesAt p = some es)
    (hfit : ∀ path, Builds fs fnam dir depth path → path.length < maxpathlen) (fp : Kbdfile) :
    Agrees fs (search suf fnam depth p es) (findfileInDir fs suf fnam dir depth fp) := by
  have hdirAt := FileSystem.dirAt_of_entriesAt hp hes
  have hentries : ∀ e ∈ es, (dir ++ '/' :: e.1).length < maxpathlen :=
    fun e he => hfit _ (Builds.entry hdirAt he)
  have hne : ∀ name : List Char, dir ++ '/' :: name ≠ [] := fun name => by simp
  have hinner : ∀ fdir rest, strchrSlash fnam = some (fdir, rest) → ∀ e ∈ es, e.1 = fdir →
      ∀ es', e.2.entries? = some es' → ∀ fp, Agrees fs (search suf rest 0 (p ++ [e.1]) es')
        (findfileInDir fs suf rest (dir ++ '/' :: e.1) 0 fp) := by
    intro fdir rest hff e he hname es' hsub fp
    have hlt := length_lt_of_strchrSlash hff
    have hlook := FileSystem.lookup_of_mem hes he
    refine findfileInDir_agrees suf rest _ 0 (hne e.1)
      (FileSystem.resolve_entry hdir hp hes hlook) ?_ ?_ fp
    · rw [FileSystem.entriesAt_append_singleton hes, hlook]
      exact hsub
    · intro path hpath
      exact hfit path (Builds.inner hff (hname ▸ hpath))
  have hbelow : ∀ d, depth = d + 1 → ∀ e ∈ es, ∀ es', e.2.entries? = some es' → ∀ fp,
      Agrees fs (search suf fnam d (p ++ [e.1]) es')
        (findfileInDir fs suf fnam (dir ++ '/' :: e.1) d fp) := by
    intro d hd e he es' hsub fp
    have hlook := FileSystem.lookup_of_mem hes he
    refine findfileInDir_agrees suf fnam _ d (hne e.1)
      (FileSystem.resolve_entry hdir hp hes hlook) ?_ ?_ fp
    · rw [FileSystem.entriesAt_append_singleton hes, hlook]
      exact hsub
    · intro path hpath
      exact hfit path (hd ▸ Builds.deeper hdirAt he hpath)
  cases hff : strchrSlash fnam with
  | none => exact level_of_none hdir hp hes hentries hinner hbelow hff fp
  | some ff => exact level_of_some hdir hp hes hentries hinner hbelow hff fp
termination_by (fnam.length, depth)

/-! ## The list of directories -/

/-- The entry consists of slashes, up to its stars. -/
def SlashesOnly (entry : List Char) : Prop :=
  entry.rdropWhile (· = '*') ≠ [] ∧ ∀ c ∈ entry.rdropWhile (· = '*'), c = '/'

instance (entry : List Char) : Decidable (SlashesOnly entry) :=
  @instDecidableAnd _ _ inferInstance (List.decidableBAll _ _)

theorem dirOf_ne_nil (entry : List Char) : dirOf entry ≠ [] := by
  rw [dirOf]
  split
  · decide
  · assumption

theorem dirAt_append_slash {fs : FileSystem} {dir : List Char} (hdir : dir ≠ []) :
    fs.dirAt (dir ++ ['/']) = fs.dirAt dir := by
  rw [FileSystem.dirAt, FileSystem.dirAt, FileSystem.resolve_append hdir List.not_mem_nil,
    Option.bind_assoc]
  cases fs.resolve dir with
  | none => rfl
  | some p => cases h : fs.entriesAt p <;> simp [FileSystem.step, h]

theorem dirAt_rdropWhile {fs : FileSystem} {dir : List Char}
    (h : dir.rdropWhile (· = '/') ≠ []) : fs.dirAt (dir.rdropWhile (· = '/')) = fs.dirAt dir := by
  induction dir using List.reverseRecOn with
  | nil => rfl
  | append_singleton dir c ih =>
    by_cases hc : c = '/'
    · rw [List.rdropWhile_concat_pos (fun c => decide (c = '/')) dir c (decide_eq_true hc)] at h ⊢
      have hdir : dir ≠ [] := by
        rintro rfl
        exact h rfl
      rw [ih h, hc, dirAt_append_slash hdir]
    · rw [List.rdropWhile_concat_neg (fun c => decide (c = '/')) dir c (by simpa using hc)]

/-- The directory that is searched is the one that is named. -/
theorem dirAt_dirOf {fs : FileSystem} {entry : List Char} (h : ¬ SlashesOnly entry) :
    fs.dirAt (dirOf entry) = dirNamed fs entry := by
  rw [dirOf, dirNamed]
  by_cases hnil : entry.rdropWhile (· = '*') = []
  · simp only [hnil, List.rdropWhile_nil, if_true]
    rw [FileSystem.dirAt]
    change ((fs.resolve ['.']).bind _) = _
    rw [FileSystem.resolve_dot, Option.bind_some]
  · have hne : (entry.rdropWhile (· = '*')).rdropWhile (· = '/') ≠ [] := by
      intro hslash
      refine h ⟨hnil, fun c hc => ?_⟩
      simpa using List.rdropWhile_eq_nil_iff.mp hslash c hc
    rw [if_neg hne, if_neg hnil, dirAt_rdropWhile hne]

theorem tryDirectory_ends {fs : FileSystem} {fnam : List Char} (suffixes : List (List Char))
    {entry : List Char} (hentry : ¬ SlashesOnly entry)
    (hfit : ∀ path, Builds fs fnam (dirOf entry) (recdepthOf entry) path → path.length < maxpathlen)
    (fp : Kbdfile) :
    Ends (Opened fs) (fun fp => fp.fd = none)
      ((dirNamed fs entry).bind fun d => search suffixes fnam (recdepthOf entry) d.1 d.2)
      (tryDirectory fs fnam suffixes fp entry) := by
  refine ends_of_agrees fs ?_
  rw [← dirAt_dirOf hentry]
  cases hd : fs.dirAt (dirOf entry) with
  | none =>
    have hscandir : fs.scandir (dirOf entry) = none := by
      rw [FileSystem.scandir, hd]
      rfl
    have hargs : (scanArgs fs suffixes fnam (dirOf entry) (recdepthOf entry)).fs.scandir
        (scanArgs fs suffixes fnam (dirOf entry) (recdepthOf entry)).dir = none := hscandir
    rw [findfileInDir_eq, scanDir, hargs]
    exact ⟨by simp, rfl⟩
  | some d =>
    obtain ⟨p, hp, hpes⟩ := Option.bind_eq_some_iff.mp hd
    obtain ⟨es, hes, rfl⟩ := Option.map_eq_some_iff.mp hpes
    exact findfileInDir_agrees suffixes fnam (dirOf entry) (recdepthOf entry) (dirOf_ne_nil entry) hp
      hes hfit fp

/-- Where no directory is named by slashes only, `kbdfile_find` finds the file of the reference. -/
theorem kbdfileFind_agrees_of_not_slashes {fs : FileSystem} {fnam : List Char}
    {dirpath suffixes : List (List Char)}
    (hslash : ∀ entry ∈ dirpath, ¬ SlashesOnly entry) (hfit : PathsFit fs fnam dirpath suffixes)
    {fp : Kbdfile} (hfd : fp.fd = none) :
    Agrees fs (reference fs fnam dirpath suffixes) (kbdfileFind fs fnam dirpath suffixes fp) := by
  have hname := maybePipeOpen_agrees fs { fp with pathname := fnam } hfd
    fun c hc _ => hfit.name c hc
  rw [kbdfileFind, if_neg (by simp [hfd]), setPathname_of_lt (hfit.name _ List.mem_cons_self),
    reference]
  generalize maybePipeOpen fs { fp with pathname := fnam } = res₁ at hname ⊢
  obtain ⟨rc₁, fp₁⟩ := res₁
  change Agrees fs ((candidates fnam).findSome? fs.fileAt) (rc₁, fp₁) at hname
  dsimp only
  cases hcand : (candidates fnam).findSome? fs.fileAt with
  | some p =>
    rw [hcand] at hname
    rw [if_pos hname.1]
    exact ⟨rfl, hname.2⟩
  | none =>
    rw [hcand] at hname
    rw [if_neg hname.1, Option.none_or]
    -- a full pathname with the suffixes
    have hfull : Agrees fs
        (if fnam.head? = some '/' then
          suffixes.findSome? fun s => (candidates (fnam ++ s)).findSome? fs.fileAt else none)
        (if fnam.head? = some '/' then findfileByFullname fs fnam suffixes fp₁ else (-1, fp₁)) := by
      split
      · rename_i hhead
        exact findfileByFullname_agrees fs hname.2 (hfit.fullname hhead)
      · exact ⟨by simp, hname.2⟩
    generalize (if fnam.head? = some '/' then findfileByFullname fs fnam suffixes fp₁
      else (-1, fp₁)) = res₂ at hfull ⊢
    obtain ⟨rc₂, fp₂⟩ := res₂
    dsimp only
    generalize (if fnam.head? = some '/' then
      suffixes.findSome? fun s => (candidates (fnam ++ s)).findSome? fs.fileAt else none) = r
      at hfull ⊢
    cases r with
    | some p =>
      rw [if_pos hfull.1]
      exact ⟨rfl, hfull.2⟩
    | none =>
      rw [if_neg hfull.1, Option.none_or]
      refine agrees_of_ends fs (f := id) (by decide) (fun _ => rfl) (Ends.foldlM ?_ hfull.2)
      intro entry hentry g _
      exact tryDirectory_ends suffixes (hslash entry hentry) (hfit.search entry hentry) g

/-! ## Entries of slashes -/

/-- The entry that names the working directory by its name. -/
def dotEntry (depth : Nat) : List Char := '.' :: List.replicate depth '*'

theorem rdropWhile_dotEntry (depth : Nat) : (dotEntry depth).rdropWhile (· = '*') = ['.'] := by
  induction depth with
  | zero => rfl
  | succ n ih =>
    rw [dotEntry, List.replicate_succ', ← List.cons_append]
    exact (List.rdropWhile_concat_pos (fun c => decide (c = '*')) _ '*' rfl).trans ih

theorem recdepthOf_dotEntry (depth : Nat) : recdepthOf (dotEntry depth) = depth := by
  induction depth with
  | zero => rfl
  | succ n ih =>
    rw [recdepthOf, dotEntry, List.replicate_succ', ← List.cons_append,
      List.rtakeWhile_concat_pos (fun c => decide (c = '*')) _ '*' rfl, List.length_append]
    exact congrArg (· + 1) ih

theorem dirOf_dotEntry (depth : Nat) : dirOf (dotEntry depth) = ['.'] := by
  rw [dirOf, rdropWhile_dotEntry]
  rfl

/-- The entry for the directory that is searched. -/
def readEntry (entry : List Char) : List Char :=
  if SlashesOnly entry then dotEntry (recdepthOf entry) else entry

/-- The file that is found: where a directory is named by slashes only, it is the working directory that is
searched. -/
def found (fs : FileSystem) (fnam : List Char) (dirpath suffixes : List (List Char)) :
    Option Place :=
  reference fs fnam (dirpath.map readEntry) suffixes

theorem dirOf_slashes {entry : List Char} (h : SlashesOnly entry) : dirOf entry = ['.'] := by
  have hnil : (entry.rdropWhile (· = '*')).rdropWhile (· = '/') = [] := by
    rw [List.rdropWhile_eq_nil_iff]
    intro c hc
    exact decide_eq_true (h.2 c hc)
  rw [dirOf, hnil]
  rfl

theorem dirOf_readEntry (entry : List Char) : dirOf (readEntry entry) = dirOf entry := by
  rw [readEntry]
  split
  · rename_i h
    rw [dirOf_dotEntry, dirOf_slashes h]
  · rfl

theorem recdepthOf_readEntry (entry : List Char) : recdepthOf (readEntry entry) = recdepthOf entry := by
  rw [readEntry]
  split
  · exact recdepthOf_dotEntry _
  · rfl

theorem not_slashesOnly_readEntry (entry : List Char) : ¬ SlashesOnly (readEntry entry) := by
  rw [readEntry]
  split
  · rw [SlashesOnly, rdropWhile_dotEntry]
    intro hslash
    exact absurd (hslash.2 '.' List.mem_cons_self) (by decide)
  · assumption

section Found

variable {fs : FileSystem} {fnam : List Char} {dirpath suffixes : List (List Char)}

theorem found_eq_reference (h : ∀ entry ∈ dirpath, ¬ SlashesOnly entry) :
    found fs fnam dirpath suffixes = reference fs fnam dirpath suffixes := by
  have hsame : dirpath.map readEntry = dirpath := by
    rw [List.map_congr_left fun entry hentry => show readEntry entry = id entry from
      if_neg (h entry hentry), List.map_id]
  rw [found, hsame]

theorem PathsFit.map_readEntry (h : PathsFit fs fnam dirpath suffixes) :
    PathsFit fs fnam (dirpath.map readEntry) suffixes where
  name := h.name
  fullname := h.fullname
  search := by
    intro entry' hentry' path hpath
    obtain ⟨entry, hentry, rfl⟩ := List.mem_map.mp hentry'
    rw [dirOf_readEntry, recdepthOf_readEntry] at hpath
    exact h.search entry hentry path hpath

theorem kbdfileFind_map_readEntry (fp : Kbdfile) :
    kbdfileFind fs fnam (dirpath.map readEntry) suffixes fp =
      kbdfileFind fs fnam dirpath suffixes fp := by
  have htry (fp : Kbdfile) (entry : List Char) :
      tryDirectory fs fnam suffixes fp (readEntry entry) =
        tryDirectory fs fnam suffixes fp entry := by
    rw [tryDirectory, tryDirectory, dirOf_readEntry, recdepthOf_readEntry]
  simp only [kbdfileFind, List.foldlM_map, htry]

theorem kbdfileFind_agrees (hfit : PathsFit fs fnam dirpath suffixes) {fp : Kbdfile}
    (hfd : fp.fd = none) :
    Agrees fs (found fs fnam dirpath suffixes) (kbdfileFind fs fnam dirpath suffixes fp) := by
  rw [← kbdfileFind_map_readEntry]
  refine kbdfileFind_agrees_of_not_slashes (fun entry' hentry => ?_) hfit.map_readEntry hfd
  obtain ⟨entry, -, rfl⟩ := List.mem_map.mp hentry
  exact not_slashesOnly_readEntry entry

end Found

/-! ## The root directory -/

theorem Agrees.unique {fs : FileSystem} {r r' : Option Place} {res : Int × Kbdfile}
    (h : Agrees fs r res) (h' : Agrees fs r' res) : r = r' := by
  cases r with
  | some p =>
    cases r' with
    | some p' => exact h.2.1.symm.trans h'.2.1
    | none => exact absurd h.1 h'.1
  | none =>
    cases r' with
    | some p' => exact absurd h'.1 h.1
    | none => rfl

/-- The root directory has a file, and the working directory is empty. -/
def rootFile : FileSystem where
  root := [(bytes "f", .file), (bytes "x", .dir [])]
  cwd := [bytes "x"]
  good := by
    refine .dir (by decide) (by decide) ?_
    intro e he
    rcases List.mem_pair.mp he with rfl | rfl
    · exact .file
    · exact .dir (by decide) (by decide) (by simp)
  cwd_dir := Option.some_ne_none []

theorem dirAt_slashes {fs : FileSystem} {dir : List Char} (hne : dir ≠ []) (h : ∀ c ∈ dir, c = '/') :
    fs.dirAt dir = some ([], fs.root) := by
  induction dir using List.reverseRecOn with
  | nil => exact absurd rfl hne
  | append_singleton dir c ih =>
    have hc : c = '/' := h c (by simp)
    subst hc
    by_cases hdir : dir = []
    · subst hdir
      rfl
    · rw [dirAt_append_slash hdir, ih hdir fun c hc => h c (by simp [hc])]

theorem reference_rootFile {entry : List Char} (h : SlashesOnly entry) :
    reference rootFile (bytes "f") [entry] [[]] = some [bytes "f"] := by
  have hdir : dirNamed rootFile entry = some ([], rootFile.root) := by
    rw [dirNamed, if_neg h.1, dirAt_slashes h.1 h.2]
  have hname : (candidates (bytes "f")).findSome? rootFile.fileAt = none := by decide
  have hsearch : search [[]] (bytes "f") (recdepthOf entry) [] rootFile.root = some [bytes "f"] := by
    have hown : ownFile [[]] (bytes "f") rootFile.root = some (bytes "f") := by decide
    rw [search_of_none [[]] _ _ _ (by decide), hown]
    rfl
  rw [reference, hname, if_neg (by decide), Option.none_or, Option.none_or, List.findSome?_cons, hdir,
    Option.bind_some, hsearch]

theorem pathsFit_rootFile {entry : List Char} (h : dirOf entry = ['.']) :
    PathsFit rootFile (bytes "f") [entry] [[]] where
  name := by decide
  fullname := by decide
  search := by
    intro e he path hpath
    rw [List.mem_singleton.mp he, h] at hpath
    have hdot : rootFile.dirAt ['.'] = some ([bytes "x"], []) := rfl
    have hff : strchrSlash (bytes "f") = none := by decide
    generalize recdepthOf entry = depth at hpath
    cases hpath with
    | entry hd he =>
      rw [hdot] at hd
      cases hd
      cases he
    | inner hff' _ =>
      rw [hff] at hff'
      cases hff'
    | deeper hd he _ =>
      rw [hdot] at hd
      cases hd
      cases he

/-- The working directory is searched in place of the root directory, and the file is not found. -/
theorem found_rootFile {entry : List Char} (h : SlashesOnly entry) :
    found rootFile (bytes "f") [entry] [[]] = none := by
  have hname : (candidates (bytes "f")).findSome? rootFile.fileAt = none := by decide
  have hdir : dirNamed rootFile (dotEntry (recdepthOf entry)) = some ([bytes "x"], []) := by
    rw [dirNamed, rdropWhile_dotEntry]
    rfl
  rw [found, List.map_singleton, readEntry, if_pos h, reference, hname, if_neg (by decide),
    Option.none_or, Option.none_or, List.findSome?_cons, hdir, Option.bind_some,
    search_of_none [[]] _ _ _ (by decide)]
  rfl

theorem not_agrees_rootFile {entry : List Char} (h : SlashesOnly entry) :
    ¬ Agrees rootFile (reference rootFile (bytes "f") [entry] [[]])
      (kbdfileFind rootFile (bytes "f") [entry] [[]] ⟨[], none⟩) := by
  intro hagrees
  have hfound := @kbdfileFind_agrees _ _ _ _ (pathsFit_rootFile (dirOf_slashes h)) ⟨[], none⟩ rfl
  rw [reference_rootFile h] at hagrees
  rw [found_rootFile h] at hfound
  exact Option.some_ne_none _ (hagrees.unique hfound)

/-- The file of the reference is found in every list of directories taken from a set if and only if no
entry of the set consists of slashes only. In a single list it is found if and only if it stays the same
where such entries are read as the working directory. -/
theorem kbdfileFind_agrees_iff (S : List Char → Prop) :
    ((∀ (fs : FileSystem) (fnam : List Char) (dirpath suffixes : List (List Char)) (fp : Kbdfile),
      (∀ entry ∈ dirpath, S entry) → fp.fd = none → PathsFit fs fnam dirpath suffixes →
        Agrees fs (reference fs fnam dirpath suffixes)
          (kbdfileFind fs fnam dirpath suffixes fp)) ↔
      ∀ entry, S entry → ¬ SlashesOnly entry) ∧
    ∀ (fs : FileSystem) (fnam : List Char) (dirpath suffixes : List (List Char)) (fp : Kbdfile),
      fp.fd = none → PathsFit fs fnam dirpath suffixes →
        (Agrees fs (reference fs fnam dirpath suffixes) (kbdfileFind fs fnam dirpath suffixes fp) ↔
          reference fs fnam dirpath suffixes = found fs fnam dirpath suffixes) := by
  refine ⟨⟨?_, ?_⟩, ?_⟩
  · intro h entry hS hslash
    exact not_agrees_rootFile hslash (h rootFile (bytes "f") [entry] [[]] ⟨[], none⟩
      (by simpa using hS) rfl (pathsFit_rootFile (dirOf_slashes hslash)))
  · intro h fs fnam dirpath suffixes fp hS hfd hfit
    rw [← found_eq_reference fun entry hentry => h entry (hS entry hentry)]
    exact kbdfileFind_agrees hfit hfd
  · intro fs fnam dirpath suffixes fp hfd hfit
    have hfound := kbdfileFind_agrees hfit hfd
    exact ⟨fun h => h.unique hfound, fun h => h ▸ hfound⟩

/-- With the root directory as the only one to search, its file is not found. -/
theorem not_kbdfileFind_agrees :
    ¬ ∀ (fs : FileSystem) (fnam : List Char) (dirpath suffixes : List (List Char)) (fp : Kbdfile),
      fp.fd = none → PathsFit fs fnam dirpath suffixes →
        Agrees fs (reference fs fnam dirpath suffixes)
          (kbdfileFind fs fnam dirpath suffixes fp) := by
  intro h
  have hslash : SlashesOnly (bytes "/") := by decide
  exact not_agrees_rootFile hslash (h rootFile (bytes "f") [bytes "/"] [[]] ⟨[], none⟩ rfl
    (pathsFit_rootFile (dirOf_slashes hslash)))

end Kbd.File
