import Kbd.File.Verify.Reference

/-!
# The scans of a directory

`findfile_in_dir` reads the entries of a directory once for files and once for subdirectories, with one
result code for both and for its recursive calls. The scan for files ends with the least index of a
suffix that some file has; a scan for subdirectories ends at the first one in which a call finds the
file.
-/

namespace Kbd.File

open Kbd.Lib.FileTree Kbd.Lib.Search

/-! ## The scan for files -/

/-- The scan has found a file with this suffix and none with a lower one. -/
structure Scanned (index : Option Nat) (s : Scan) : Prop where
  index_eq : s.index = index
  rc_eq : s.rc = if index.isSome then 0 else 1
  fd_eq : s.fp.fd = none

/-- The suffixes of which the entry is a file. -/
def hit (fnam : List Char) (es : List (List Char × Node)) (suf : List Char) (e : List Char × Node) :
    Bool :=
  isOwnFile es e.1 && (candidates (fnam ++ suf)).contains e.1

theorem exists_of_isOwnFile {es : List (List Char × Node)} {c : List Char} (h : isOwnFile es c) :
    ∃ e ∈ es, e.1 = c := by
  rw [isOwnFile] at h
  cases hl : es.lookup c with
  | none =>
    rw [hl] at h
    cases h
  | some n =>
    obtain ⟨l₁, l₂, rfl, -⟩ := List.lookup_eq_some_iff.mp hl
    exact ⟨(c, n), by simp, rfl⟩

theorem any_hit (es : List (List Char × Node)) (fnam t : List Char) :
    es.any (hit fnam es t) = ((candidates (fnam ++ t)).find? (isOwnFile es)).isSome := by
  rw [Bool.eq_iff_iff, List.any_eq_true, List.find?_isSome]
  constructor
  · rintro ⟨e, -, he⟩
    rw [hit, Bool.and_eq_true, List.contains_iff_mem] at he
    exact ⟨e.1, he.2, he.1⟩
  · rintro ⟨c, hc, hown⟩
    obtain ⟨e, he, rfl⟩ := exists_of_isOwnFile hown
    refine ⟨e, he, ?_⟩
    rw [hit, Bool.and_eq_true, List.contains_iff_mem]
    exact ⟨hown, hc⟩

theorem slash_not_mem_extensions : ∀ ext ∈ extensions, '/' ∉ ext := by decide

theorem exists_of_mem_candidates {c name : List Char} (hc : c ∈ candidates name) :
    ∃ ext, c = name ++ ext ∧ '/' ∉ ext := by
  rcases List.mem_cons.mp hc with rfl | hc
  · exact ⟨[], by simp, by simp⟩
  · obtain ⟨ext, hext, rfl⟩ := List.mem_map.mp hc
    exact ⟨ext, rfl, slash_not_mem_extensions ext hext⟩

section Dir

variable {fs : FileSystem} {dir : List Char} {p : Place} {es : List (List Char × Node)}
  (hdir : dir ≠ []) (hp : fs.resolve dir = some p) (hes : fs.entriesAt p = some es)
  (hfit : ∀ e ∈ es, (dir ++ '/' :: e.1).length < maxpathlen)

include hdir hp hes

theorem fileAt_mem {e : List Char × Node} (he : e ∈ es) :
    (fs.fileAt (dir ++ '/' :: e.1)).isSome = isOwnFile es e.1 := by
  rw [FileSystem.fileAt_entry hdir hp hes (FileSystem.goodName_of_mem hes he).2.1, isOwnFile]
  split <;> simp_all

include hfit

omit hdir hp in
/-- The tests of the length and for the two entries that every directory has do not apply. -/
theorem scanEntry_eq {a : ScanArgs} (hadir : a.dir = dir) {e : List Char × Node} (he : e ∈ es)
    (s : Scan) :
    scanEntry a s e.1 =
      let descend := (a.secondpass && a.recdepth ≠ 0) || okdir a e.1
      let s := if descend then scanSubdir a s e.1 else s
      if descend ∧ s.rc = 0 then .error s
      else if a.secondpass ∨ (strchrSlash a.fnam).isSome then .ok s
      else .ok (scanFile a s e.1) := by
  subst hadir
  have hlen := hfit e he
  have hgood := FileSystem.goodName_of_mem hes he
  rw [List.length_append, List.length_cons] at hlen
  rw [scanEntry, if_neg, if_neg (by omega)]
  rintro (h | h)
  · exact hgood.2.2.1 h
  · exact hgood.2.2.2 h

theorem scanFile_scanned {a : ScanArgs} (hfs : a.fs = fs) (hadir : a.dir = dir)
    {e : List Char × Node} (he : e ∈ es) {index : Option Nat} {s : Scan} (hs : Scanned index s) :
    Scanned (minIdx index (a.suf.findIdx? fun t => hit a.fnam es t e)) (scanFile a s e.1) := by
  subst hfs hadir
  have hlen := hfit e he
  have hreg := fileAt_mem hdir hp hes he
  rw [scanFile, pathnameSprintf_of_lt hlen]
  dsimp only
  rw [if_neg (Int.lt_irrefl 0)]
  cases hown : isOwnFile es e.1 with
  | false =>
    rw [hown, Option.isSome_eq_false_iff] at hreg
    have hmiss : (a.suf.findIdx? fun t => hit a.fnam es t e) = none := by
      rw [List.findIdx?_eq_none_iff]
      intro t _
      rw [hit, hown, Bool.false_and]
    rw [if_pos hreg, hmiss, minIdx_none]
    exact ⟨hs.1, hs.2, hs.3⟩
  | true =>
    have hsome : ¬ (a.fs.fileAt (a.dir ++ '/' :: e.1)).isNone := by
      intro hnone
      rw [Option.isNone_iff_eq_none] at hnone
      rw [hnone, hown] at hreg
      cases hreg
    have hhit : (fun t => hit a.fnam es t e)
        = fun t => decide (e.1 ∈ candidates (a.fnam ++ t)) := by
      funext t
      rw [hit, hown, Bool.true_and, List.contains_eq_mem]
    rw [if_neg hsome, filecmp_eq, hhit, hs.index_eq]
    cases a.suf.findIdx? fun t => decide (e.1 ∈ candidates (a.fnam ++ t)) with
    | none =>
      rw [minIdx_none]
      exact ⟨rfl, hs.2, hs.3⟩
    | some i =>
      refine ⟨rfl, ?_, hs.3⟩
      cases index <;> rfl

theorem scan_files {a : ScanArgs} (hfs : a.fs = fs) (hadir : a.dir = dir)
    (hff : strchrSlash a.fnam = none) (hpass : a.secondpass = false) {l : List (List Char × Node)}
    (hl : l ⊆ es) {index : Option Nat} {s : Scan} (hs : Scanned index s) :
    ∃ s', (l.map Prod.fst).foldlM (scanEntry a) s = .ok s' ∧
      Scanned (minIdx index (a.suf.findIdx? fun t => l.any (hit a.fnam es t))) s' := by
  induction l generalizing index s with
  | nil =>
    have hnone : (a.suf.findIdx? fun t => [].any (hit a.fnam es t)) = none := by
      rw [List.findIdx?_eq_none_iff]
      intro t _
      rfl
    rw [hnone, minIdx_none]
    exact ⟨s, rfl, hs⟩
  | cons e l ih =>
    rw [List.cons_subset] at hl
    have hstep : scanEntry a s e.1 = .ok (scanFile a s e.1) := by
      rw [scanEntry_eq hes hfit hadir hl.1]
      simp [hff, hpass, okdir]
    obtain ⟨s', h', hs'⟩ := ih hl.2 (scanFile_scanned hdir hp hes hfit hfs hadir hl.1 hs)
    refine ⟨s', ?_, ?_⟩
    · rw [List.map_cons, List.foldlM_cons, hstep]
      exact h'
    · simp only [List.any_cons]
      rw [findIdx?_or, ← minIdx_assoc]
      exact hs'

/-- The file with the suffix that was found is the one of its candidates that comes first. -/
theorem open_own {fnam t : List Char} (hown : ((candidates (fnam ++ t)).find? (isOwnFile es)).isSome)
    {fp : Kbdfile} (hfd : fp.fd = none) :
    (dir ++ '/' :: (fnam ++ t)).length < maxpathlen ∧
      Agrees fs (((candidates (fnam ++ t)).find? (isOwnFile es)).map (p ++ [·]))
        (maybePipeOpen fs { fp with pathname := dir ++ '/' :: (fnam ++ t) }) := by
  have hcons : ∀ c : List Char, dir ++ '/' :: c = (dir ++ ['/']) ++ c := by
    intro c
    rw [List.append_assoc]
    rfl
  have hcand : candidates (dir ++ '/' :: (fnam ++ t))
      = (candidates (fnam ++ t)).map fun c => dir ++ '/' :: c := by
    rw [hcons, candidates_append]
    simp
  obtain ⟨c, hc, hcown⟩ := List.find?_isSome.mp hown
  obtain ⟨e, he, rfl⟩ := exists_of_isOwnFile hcown
  obtain ⟨ext, heq, -⟩ := exists_of_mem_candidates hc
  have hlen := hfit e he
  -- the entry that was seen has no slash in its name, so none of the candidates has one
  have hslash : ∀ c' ∈ candidates (fnam ++ t), '/' ∉ c' := by
    intro c' hc'
    obtain ⟨ext', rfl, hext'⟩ := exists_of_mem_candidates hc'
    have hgood := (FileSystem.goodName_of_mem hes he).2.1
    rw [heq, List.mem_append, not_or] at hgood
    rw [List.mem_append, not_or]
    exact ⟨hgood.1, hext'⟩
  have hfile : ∀ c' ∈ candidates (fnam ++ t),
      fs.fileAt (dir ++ '/' :: c') = if isOwnFile es c' then some (p ++ [c']) else none :=
    fun c' hc' => FileSystem.fileAt_entry hdir hp hes (hslash c' hc')
  constructor
  · rw [heq] at hlen
    simp only [List.length_append, List.length_cons] at hlen ⊢
    omega
  · rw [← findSome?_ite, ← findSome?_congr hfile]
    have hopen := maybePipeOpen_agrees fs { fp with pathname := dir ++ '/' :: (fnam ++ t) } hfd
    simp only [hcand, List.findSome?_map, List.forall_mem_map, Function.comp_def] at hopen
    refine hopen ?_
    intro c' hc' hsome
    rw [hfile c' hc', Option.isSome_ite] at hsome
    obtain ⟨e', he', rfl⟩ := exists_of_isOwnFile hsome
    exact hfit e' he'

end Dir

/-! ## The scans for subdirectories -/

/-- What a round of a scan finds in a subdirectory, if `gi` and `gb` are the results of the two calls. -/
def passEntry (a : ScanArgs) (gi gb : List Char → List (List Char × Node) → Option Place)
    (e : List Char × Node) : Option Place :=
  if (a.secondpass && a.recdepth ≠ 0) || okdir a e.1 then
    e.2.entries?.bind fun es' => (if okdir a e.1 then gi e.1 es' else none).or
      (if a.recdepth ≠ 0 then gb e.1 es' else none)
  else none

/-- The scan has been left with a file. -/
def ScanFound (fs : FileSystem) (q : Place) (s : Scan) : Prop := s.rc = 0 ∧ Opened fs q s.fp

/-- The scan goes on. -/
def ScanGoing (s : Scan) : Prop := s.rc ≠ 0 ∧ s.index = none ∧ s.fp.fd = none

/-- The state after calls with the result `r`. -/
def ScanAfter (fs : FileSystem) (r : Option Place) (s : Scan) : Prop :=
  match r with
  | some q => ScanFound fs q s
  | none => ScanGoing s

theorem ScanGoing.called {fs : FileSystem} {r : Option Place} {res : Int × Kbdfile} {s : Scan}
    (hs : ScanGoing s) (h : Agrees fs r res) : ScanAfter fs r (s.called res) := by
  cases r with
  | some q => exact ⟨h.1, h.2⟩
  | none => exact ⟨h.1, hs.2.1, h.2⟩

theorem ScanAfter.ends {fs : FileSystem} {r : Option Place} {s : Scan} (h : ScanAfter fs r s) :
    Ends (ScanFound fs) ScanGoing r (if s.rc = 0 then .error s else .ok s) := by
  cases r with
  | some q => exact ⟨s, if_pos h.1, h⟩
  | none => exact ⟨s, if_neg h.1, h⟩

section Dir

variable {fs : FileSystem} {dir : List Char} {p : Place} {es : List (List Char × Node)}
  (hdir : dir ≠ []) (hp : fs.resolve dir = some p) (hes : fs.entriesAt p = some es)
  (hfit : ∀ e ∈ es, (dir ++ '/' :: e.1).length < maxpathlen)
  {a : ScanArgs} (hfs : a.fs = fs) (hadir : a.dir = dir)
  {gi gb : List Char → List (List Char × Node) → Option Place}

include hdir hp hes hfit hfs hadir

theorem scanEntry_descend (hpass : a.secondpass ∨ (strchrSlash a.fnam).isSome)
    {e : List Char × Node} (he : e ∈ es)
    (hinner : ∀ es', e.2.entries? = some es' → okdir a e.1 → ∀ fp,
      Agrees fs (gi e.1 es') (a.inner (dir ++ '/' :: e.1) fp))
    (hbelow : ∀ es', e.2.entries? = some es' → a.recdepth ≠ 0 → ∀ fp,
      Agrees fs (gb e.1 es') (a.below (dir ++ '/' :: e.1) fp)) {s : Scan} (hs : ScanGoing s) :
    Ends (ScanFound fs) ScanGoing (passEntry a gi gb e) (scanEntry a s e.1) := by
  rw [scanEntry_eq hes hfit hadir he, passEntry]
  dsimp only
  rw [if_pos hpass]
  cases (a.secondpass && a.recdepth ≠ 0) || okdir a e.1 with
  | false => exact ⟨s, by simp, hs⟩
  | true =>
    simp only [if_true, true_and]
    subst hfs hadir
    rw [scanSubdir, FileSystem.dirAt_entry hdir hp hes (FileSystem.lookup_of_mem hes he)]
    dsimp only
    cases hsub : e.2.entries? with
    | none => exact ⟨s, by simp [hs.1], hs⟩
    | some es' =>
      simp only [Option.map_some, Option.isSome_some, if_true, Option.bind_some]
      refine ScanAfter.ends ?_
      -- the first call, for the rest of the name
      have hfirst : ScanAfter a.fs (if okdir a e.1 then gi e.1 es' else none)
          (if okdir a e.1 then s.called (a.inner (a.dir ++ '/' :: e.1) s.fp) else s) := by
        split
        · rename_i hok
          exact hs.called (hinner es' hsub hok s.fp)
        · exact hs
      generalize (if okdir a e.1 then gi e.1 es' else none) = r at hfirst ⊢
      generalize (if okdir a e.1 then s.called (a.inner (a.dir ++ '/' :: e.1) s.fp) else s) = s₁
        at hfirst ⊢
      cases r with
      | some q =>
        rw [Option.some_or, if_neg fun h => h.1 hfirst.1]
        exact hfirst
      | none =>
        -- the second call, for the whole name
        rw [Option.none_or]
        by_cases hdepth : a.recdepth = 0
        · rw [if_neg fun h => h hdepth, if_neg fun h => h.2 hdepth]
          exact hfirst
        · rw [if_pos hdepth, if_pos ⟨hfirst.1, hdepth⟩]
          exact ScanGoing.called hfirst (hbelow es' hsub hdepth s₁.fp)

theorem scan_subdirs (hpass : a.secondpass ∨ (strchrSlash a.fnam).isSome)
    (hinner : ∀ e ∈ es, ∀ es', e.2.entries? = some es' → okdir a e.1 → ∀ fp,
      Agrees fs (gi e.1 es') (a.inner (dir ++ '/' :: e.1) fp))
    (hbelow : ∀ e ∈ es, ∀ es', e.2.entries? = some es' → a.recdepth ≠ 0 → ∀ fp,
      Agrees fs (gb e.1 es') (a.below (dir ++ '/' :: e.1) fp)) {s : Scan} (hs : ScanGoing s) :
    Ends (ScanFound fs) ScanGoing (es.findSome? (passEntry a gi gb))
      ((es.map Prod.fst).foldlM (scanEntry a) s) := by
  rw [List.foldlM_map]
  refine Ends.foldlM ?_ hs
  intro e he t ht
  exact scanEntry_descend hdir hp hes hfit hfs hadir hpass he (hinner e he) (hbelow e he) ht

end Dir

end Kbd.File
