import Kbd.Keymap.Verify.AddKey
import Kbd.Keymap.Verify.CodeRange
import Kbd.Keymap.Verify.Constants

/-!
# The cells of the maps

A cell holds a code plus one. As long as `lk_add_key` is given values below `INT_MAX`, no cell is
more than `INT_MAX` or negative; this is so at every moment, also when a call fails halfway.
-/

namespace Kbd.Keymap

open Kbd.Lib

/-- Every cell is unset, or encodes a code of `0..INT_MAX-1`. -/
def CellsOk (c : LkCtx) : Prop :=
  ∀ t map i, c.keymap.get t = some map → map.get i = 0 ∨ 1 ≤ map.get i ∧ map.get i ≤ intMax

theorem cellsOk_iff {c : LkCtx} :
    CellsOk c ↔ ∀ i t v, c.row i t = some v → 0 ≤ v ∧ v < intMax := by
  have hrow (i t : Nat) (map : LkArray Int) (h : c.keymap.get t = some map) :
      c.row i t = if map.get i = 0 then none else some (map.get i - 1) := by
    unfold LkCtx.row lkKeyExists lkGetKey
    by_cases h0 : map.get i = 0
    · simp [h, h0]
    · simp [h, h0]
  constructor
  · intro hc i t v hv
    cases hm : c.keymap.get t with
    | none =>
      have hnone : lkMapExists c t = false := by simp [lkMapExists, hm]
      rw [row_eq_none_of_not_exists hnone] at hv
      cases hv
    | some map =>
      rw [hrow i t map hm] at hv
      split at hv
      · cases hv
      · rename_i h0
        obtain rfl := Option.some.inj hv
        have := (hc t map i hm).resolve_left h0
        omega
  · intro hc t map i hm
    by_cases h0 : map.get i = 0
    · exact .inl h0
    · have hv := hc i t (map.get i - 1) (by rw [hrow i t map hm, if_neg h0])
      exact .inr (by omega)

theorem cellsOk_lkInit (flags : LkFlags) (charset : Nat) : CellsOk (lkInit flags charset) :=
  fun _ _ _ h => nomatch h

/-- What `lk_get_key` returns can be given to `lk_add_key`. -/
theorem CellsOk.lkGetKey {c : LkCtx} (h : CellsOk c) (t i : Nat) : IsValue (lkGetKey c t i) := by
  unfold Keymap.lkGetKey
  have hmax := intMax_eq
  split
  · exact ⟨le_rfl, by decide⟩
  · rename_i map hm
    split
    · exact ⟨by decide, by decide⟩
    · rename_i h0
      have := (h t map i hm).resolve_left h0
      exact ⟨by omega, by omega⟩

/-! ## The functions on keys and maps -/

/-- Every code that is bound satisfies `P`. -/
def CellsIn (P : Int → Prop) (c : LkCtx) : Prop := ∀ i t v, c.row i t = some v → P v

theorem cellsOk_eq : CellsOk = CellsIn fun v => 0 ≤ v ∧ v < intMax :=
  funext fun _ => propext cellsOk_iff

section CellsIn

variable {P : Int → Prop}

theorem CellsIn.lkGetKey {c : LkCtx} (h : CellsIn P c) (hhole : P kHole) {t : Nat}
    (hm : lkMapExists c t = true) (i : Nat) : P (lkGetKey c t i) := by
  by_cases hk : lkKeyExists c t i = true
  · exact h i t _ (if_pos hk)
  · unfold Keymap.lkGetKey
    unfold lkKeyExists at hk
    cases hget : c.keymap.get t with
    | none => simp [lkMapExists, hget] at hm
    | some map =>
      rw [hget] at hk
      simpa only [if_pos (by simpa using hk : map.get i = 0)] using hhole

variable (hP : ∀ v, 0 ≤ v → v < 0x10000 → P v)

include hP

/-- The code itself is bound, and for a letter the one with Alt. -/
theorem keepsIn_lkAddKey (t i : Nat) {v : Int} (hv : v ≠ codeForUnknownKsym → P v) :
    Keeps (CellsIn P) (lkAddKey t i v) := by
  intro c hc
  rw [lkAddKey_run]
  split
  · exact hc
  · rename_i hne
    split
    · exact hc
    · change CellsIn P (c.putKey t i v)
      by_cases hkeep : KeepsKey c t i v
      · rwa [putKey_of_keepsKey hkeep]
      · intro i' t' w hw
        by_cases hi : i' = i
        · subst hi
          rcases row_putKey_cases hne hkeep t' with ⟨-, h⟩ | ⟨-, h⟩ | ⟨-, -, h⟩
          · rw [h] at hw
            obtain rfl := Option.some.inj hw
            exact hv hne
          · rw [h] at hw
            obtain rfl := Option.some.inj hw
            have h0 := kval_nonneg v
            have h1 := kval_lt v
            simp only [K, ktMeta]
            exact hP _ (by omega) (by omega)
          · rw [h] at hw
            exact hc _ _ _ hw
        · rw [row_putKey_ne c t v hi] at hw
          exact hc _ _ _ hw

theorem keepsIn_doConstantKey (i : Nat) {key : Int} (hkey : key ≠ codeForUnknownKsym → P key) :
    Keeps (CellsIn P) (doConstantKey i key) := by
  apply Keeps.get_bind
  intro c hc
  split
  · rename_i hletter
    simp only [Bool.and_eq_true] at hletter
    refine Keeps.forM (fun j _ => Keeps.get_bind fun d hd => ?_) c hc
    split
    · exact hd
    · split
      · exact hd
      · have hrange := letterDefs_range hletter.2 (j % 16)
        exact keepsIn_lkAddKey hP j i (fun _ => hP _ hrange.1 hrange.2) d hd
  · refine Keeps.forM (fun j _ => Keeps.get_bind fun d hd => ?_) c hc
    split
    · exact hd
    · split
      · exact hd
      · exact keepsIn_lkAddKey hP j i hkey d hd

/-- What `lk_add_constants` gives to `lk_add_key` comes from a cell, or is the code of a letter. -/
theorem keepsIn_lkAddConstants : Keeps (CellsIn P) lkAddConstants := by
  apply Keeps.get_bind
  intro c hc
  refine Keeps.forM (fun i _ => Keeps.get_bind fun d hd => ?_) c hc
  split
  · exact hd
  · split
    · exact hd
    · refine keepsIn_doConstantKey hP i (fun hne => ?_) d hd
      by_cases hm : lkMapExists d (constantMap c) = true
      · exact hd.lkGetKey (hP _ (by decide) (by decide)) hm i
      · exact absurd (lkGetKey_of_not_exists (Bool.eq_false_iff.mpr hm) i) hne

end CellsIn

theorem keeps_lkAddKey (t i : Nat) {v : Int} (hv : IsValue v) : Keeps CellsOk (lkAddKey t i v) := by
  have hmax := intMax_eq
  have hv' (hne : v ≠ codeForUnknownKsym) : 0 ≤ v ∧ v < intMax := by
    have h1 := hv.1
    simp only [codeForUnknownKsym] at hne
    exact ⟨by omega, hv.2⟩
  rw [cellsOk_eq]
  exact keepsIn_lkAddKey (fun w h0 hw => ⟨h0, by omega⟩) t i hv'

theorem keeps_lkDelKey (t i : Nat) : Keeps CellsOk (lkDelKey t i) := by
  intro c hc
  by_cases hm : lkMapExists c t = true
  · rw [lkDelKey_run hm]
    change CellsOk (c.delKey t i)
    rw [cellsOk_iff] at hc ⊢
    intro i' t' w hw
    by_cases hi : i' = i
    · subst hi
      rw [row_delKey] at hw
      by_cases ht : t' = t
      · rw [ht, Function.update_self] at hw
        cases hw
      · rw [Function.update_of_ne ht] at hw
        exact hc _ _ _ hw
    · rw [row_delKey_ne c t hi] at hw
      exact hc _ _ _ hw
  · have hget : c.keymap.get t = none := by
      simpa [lkMapExists] using hm
    have hrun : (lkDelKey t i).run c = .error (.unableToGetKeymap t) c := by
      unfold lkDelKey
      rw [Result.bind_of_ok (show (get : Lk LkCtx).run c = .ok c c from rfl), hget]
      rfl
    rw [hrun]
    exact hc

theorem keeps_lkAddMap (t : Nat) : Keeps CellsOk (lkAddMap t) := by
  apply Keeps.modify
  intro c hc
  change CellsOk (c.addMap t)
  rw [cellsOk_iff] at hc ⊢
  intro i t' w hw
  rw [row_addMap] at hw
  exact hc _ _ _ hw

/-! ## The lines -/

theorem keeps_killOldDefs (key : Nat) : Keeps CellsOk (killOldDefs key) := by
  apply Keeps.get_bind
  intro c hc
  refine Keeps.forM (fun j _ => Keeps.get_bind fun d hd => ?_) c hc
  split
  · exact hd
  · exact keeps_lkDelKey j key d hd

theorem keeps_markConstant (key : Nat) (vs : List Int) : Keeps CellsOk (markConstant key vs) := by
  unfold markConstant
  apply Keeps.ite
  · exact fun _ => .bind (.modify fun _ h => h) fun _ => keeps_killOldDefs key
  · exact fun _ => .pure ()

/-- The values of a line, and the filler of `singleline`. -/
def LineValues (vs : List Int) : Prop := ∀ v ∈ vs, IsValue v

theorem isValue_kHole : IsValue kHole := ⟨by decide, by decide⟩

theorem LineValues.getD {vs : List Int} (h : LineValues vs) (i : Nat) :
    IsValue (vs.getD i kHole) := by
  by_cases hi : i < vs.length
  · rw [List.getD_eq_getElem _ _ hi]
    exact h _ (List.getElem_mem hi)
  · rw [List.getD_eq_default _ _ (Nat.not_lt.mp hi)]
    exact isValue_kHole

theorem keeps_fillMaps (key : Nat) {vs : List Int} (hvs : LineValues vs) (js : List Nat) (i : Nat) :
    Keeps CellsOk (fillMaps key vs js i) := by
  induction js generalizing i with
  | nil => exact .pure i
  | cons j js ih =>
    apply Keeps.get_bind
    intro c hc
    split
    · exact ih i c hc
    · split
      · exact Keeps.bind (keeps_lkAddKey j key (hvs.getD i)) (fun _ => ih (i + 1)) c hc
      · exact ih (i + 1) c hc

theorem keeps_bindMaps (key : Nat) {vs : List Int} (hvs : LineValues vs) :
    Keeps CellsOk (bindMaps key vs) := by
  apply Keeps.get_bind
  intro c hc
  refine Keeps.bind (keeps_fillMaps key hvs _ 0) (fun i => ?_) c hc
  exact .ite (fun _ => .throw _) fun _ => .pure ()

theorem keeps_bindColumns (key : Nat) {vs : List Int} (hvs : LineValues vs) :
    Keeps CellsOk (bindColumns key vs) := by
  apply Keeps.forM
  intro q hq
  exact keeps_lkAddKey q.2 key (hvs q.1 (List.fst_mem_of_mem_zipIdx hq))

theorem keeps_singleline (n : Int) {vs : List Int} (hvs : KeyInRange n → LineValues vs) :
    Keeps CellsOk (singleline n vs) := by
  unfold singleline
  apply Keeps.ite
  · exact fun _ => .pure ()
  · intro hn
    have hin : KeyInRange n := outOfRange_eq_false.mp (Bool.eq_false_iff.mpr hn)
    refine .bind (keeps_markConstant _ vs) fun _ => .get_bind fun c hc => ?_
    split
    · exact keeps_bindMaps _ (hvs hin) c hc
    · exact keeps_bindColumns _ (hvs hin) c hc

theorem keeps_modifierline (mod : Nat) (n : Int) {v : Int} (hv : KeyInRange n → IsValue v) :
    Keeps CellsOk (modifierline mod n v) := by
  unfold modifierline
  apply Keeps.ite
  · exact fun _ => .pure ()
  · intro hn
    have hin : KeyInRange n := outOfRange_eq_false.mp (Bool.eq_false_iff.mpr hn)
    exact keeps_lkAddKey mod _ (hv hin)

/-! ## The other statements

They leave the maps alone, or add maps. -/

theorem keeps_lkAddFunc (n : Nat) (str : List Char) : Keeps CellsOk (lkAddFunc n str) :=
  .modify fun _ h => h

theorem keeps_lkAppendCompose (d b r : Int) : Keeps CellsOk (lkAppendCompose d b r) :=
  .modify fun _ h => h

theorem keeps_strline (sym : Int) (value : List Char) : Keeps CellsOk (strline sym value) := by
  unfold strline
  exact .ite (fun _ => .throw _) fun _ => keeps_lkAddFunc _ value

theorem keeps_stringsAsUsual : Keeps CellsOk stringsAsUsual :=
  .bind (.forM fun q _ => keeps_lkAddFunc q.2 _) fun _ => keeps_lkAddFunc 255 _

theorem keeps_composeAsUsual (charset : Option (List Char)) :
    Keeps CellsOk (composeAsUsual charset) := by
  have hcheck : Keeps CellsOk (checkCompose charset) := by
    unfold checkCompose
    split
    · exact .ite (fun _ => .pure ()) fun _ => .throw _
    · exact .pure ()
  exact .bind hcheck fun _ => .forM fun q _ => keeps_lkAppendCompose _ _ _

theorem keeps_charsetline (name : List Char) : Keeps CellsOk (charsetline name) := by
  apply Keeps.get_bind
  intro c hc
  cases hs : lkSetCharset c name with
  | none => exact hc
  | some d =>
    obtain ⟨n, -, rfl⟩ := Option.map_eq_some_iff.mp hs
    exact hc

theorem keeps_keymapline : Keeps CellsOk keymapline := .modify fun _ h => h

theorem keeps_range0 (r : Range) : Keeps CellsOk (range0 r) := by
  cases r with
  | single n => exact .ite (fun _ => .throw _) fun _ => keeps_lkAddMap _
  | dash lo hi => exact .ite (fun _ => .throw _) fun _ => .forM fun t _ => keeps_lkAddMap t

/-- The settings: their statements need no condition. -/
theorem keeps_setting {s : Stmt} (hs : s = .altIsMeta ∨ s = .stringsAsUsual) :
    Keeps CellsOk (execStmt s) := by
  rcases hs with rfl | rfl
  · exact .modify fun _ h => h
  · exact .bind keeps_stringsAsUsual fun _ => .modify fun _ h => h

/-! ## `lk_add_constants` -/

theorem keeps_lkAddConstants : Keeps CellsOk lkAddConstants := by
  have hmax := intMax_eq
  rw [cellsOk_eq]
  exact keepsIn_lkAddConstants fun v h0 hv => ⟨h0, by omega⟩

end Kbd.Keymap
