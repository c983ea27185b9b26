import Kbd.File.Verify.Find

/-!
# One search after the other

A program that calls `kbdfile_find` again, with other directories, where a call has found nothing,
searches a longer list of directories (`searched_append`).
-/

namespace Kbd.File

open Kbd.Lib.FileTree

section Stages

variable {fs : FileSystem} {fnam : List Char} {dirs dirs' suf : List (List Char)}
  {res : Int × Kbdfile}

/-- A search in more directories is a search in the first and then in the others. -/
theorem found_append : found fs fnam (dirs ++ dirs') suf =
    (found fs fnam dirs suf).or (found fs fnam dirs' suf) := by
  unfold found reference
  rw [List.map_append, List.findSome?_append]
  cases (candidates fnam).findSome? fs.fileAt with
  | some p => rfl
  | none =>
    simp only [Option.none_or]
    split
    · cases suf.findSome? fun s => (candidates (fnam ++ s)).findSome? fs.fileAt with
      | some p => rfl
      | none => simp only [Option.none_or]
    · simp only [Option.none_or]

/-- Without directories only the name itself is tried. -/
theorem found_nil_of_none (h : found fs fnam dirs suf = none) :
    found fs fnam [] suf = none := by
  rw [← List.nil_append dirs, found_append, Option.or_eq_none_iff] at h
  exact h.1

/-- The result of a search, and that the code is not that of an error. -/
structure Searched (fs : FileSystem) (r : Option Place) (res : Int × Kbdfile) : Prop where
  agrees : Agrees fs r res
  rc : 0 ≤ res.1

/-- A search that is made only where the one before has found nothing. -/
theorem searched_append (stage : Kbdfile → Int × Kbdfile)
    (h : Searched fs (found fs fnam dirs suf) res)
    (hstage : found fs fnam dirs suf = none → ∀ fp, fp.fd = none →
      Searched fs (found fs fnam dirs' suf) (stage fp)) :
    Searched fs (found fs fnam (dirs ++ dirs') suf) (if res.1 ≠ 0 then stage res.2 else res) := by
  have hagrees := h.agrees
  rw [found_append]
  cases hr : found fs fnam dirs suf with
  | some p =>
    rw [hr] at hagrees
    rw [if_neg (not_not.mpr hagrees.1)]
    exact ⟨hagrees, h.rc⟩
  | none =>
    rw [hr] at hagrees
    rw [if_pos hagrees.1, Option.none_or]
    exact hstage hr res.2 hagrees.2

theorem PathsFit.mono (h : PathsFit fs fnam dirs' suf) (hsub : dirs ⊆ dirs') :
    PathsFit fs fnam dirs suf :=
  ⟨h.name, h.fullname, fun entry hentry => h.search entry (hsub hentry)⟩

/-- On a file that is not open, `kbdfile_find` has no other result than 0 and 1. -/
theorem kbdfileFind_searched (hfit : PathsFit fs fnam dirs suf) {fp : Kbdfile}
    (hfd : fp.fd = none) :
    Searched fs (found fs fnam dirs suf) (kbdfileFind fs fnam dirs suf fp) := by
  refine ⟨kbdfileFind_agrees hfit hfd, ?_⟩
  rw [kbdfileFind, if_neg (by simp [hfd])]
  dsimp only
  split
  · exact Int.le_refl 0
  generalize (if fnam.head? = some '/' then _ else _ : Int × Kbdfile) = res
  split
  · exact Int.le_refl 0
  split
  · exact Int.le_refl 0
  · exact Int.zero_le_ofNat 1

end Stages

end Kbd.File
