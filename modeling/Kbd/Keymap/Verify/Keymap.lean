import Kbd.Keymap.Verify.Stmt

/-!
# Invariants of a keymap

Facts about every run of statements: which keywords are set (`execStmt_keywords`), that a statement
leaves the keys of other lines alone (`runStmts_frame`), that maps are never removed, and that
`lk_add_constants` always finds the map it needs (`runStmts_constantsReady`).
-/

namespace Kbd.Keymap

open Kbd.Lib

/-! ## Keywords -/

/-- The keywords that a statement sets. -/
def Stmt.setKeywords (k : LkKeywords) : Stmt → LkKeywords
  | .charset _ => { k with charset := true }
  | .altIsMeta => { k with altIsMeta := true }
  | .stringsAsUsual => { k with strAsUsual := true }
  | .keymaps _ => { k with keymaps := true }
  | _ => k

/-- A loop whose rounds set no keyword sets none. -/
theorem forM_keywords {ι : Type} {f : ι → Lk PUnit} {l : List ι}
    (hf : ∀ a ∈ l, ∀ c c', (f a).run c = .ok () c' → c'.keywords = c.keywords) {c c' : LkCtx}
    (h : (forM l f).run c = .ok () c') : c'.keywords = c.keywords :=
  forM_rel (R := fun c c' => c'.keywords = c.keywords) (fun _ => rfl)
    (fun {a b c} (h₁ : b.keywords = a.keywords) (h₂ : c.keywords = b.keywords) => h₂.trans h₁) hf h

theorem lkAddMap_keywords {t : Nat} {c c' : LkCtx} (h : (lkAddMap t).run c = .ok () c') :
    c'.keywords = c.keywords := by
  rw [lkAddMap_run] at h
  cases h
  exact (SameSettings.addMap c t).keywords

theorem range0_keywords {r : Range} {c c' : LkCtx} (h : (range0 r).run c = .ok () c') :
    c'.keywords = c.keywords := by
  cases r with
  | single n =>
    simp only [range0] at h
    split at h
    · cases h
    · exact lkAddMap_keywords h
  | dash lo hi =>
    simp only [range0] at h
    split at h
    · cases h
    · exact forM_keywords (fun _ _ _ _ => lkAddMap_keywords) h

theorem SameSettings.unbind (c : LkCtx) (i : Nat) : SameSettings c (c.unbind i) :=
  (rowUpdate_unbind c i).settings

theorem startLine_keywords (c : LkCtx) (key : Nat) (vs : List Int) :
    (c.startLine key vs).keywords = c.keywords := by
  unfold LkCtx.startLine
  split
  · exact (SameSettings.unbind _ key).keywords
  · rfl

theorem singleline_keywords {n : Int} {vs : List Int} {c c' : LkCtx}
    (h : (singleline n vs).run c = .ok () c') : c'.keywords = c.keywords := by
  obtain ⟨-, rfl⟩ | ⟨-, -, rfl⟩ := singleline_cases h
  · rfl
  · rw [(SameSettings.putAll _ _ _).keywords, startLine_keywords]

theorem modifierline_keywords {mod : Nat} {n v : Int} {c c' : LkCtx}
    (h : (modifierline mod n v).run c = .ok () c') : c'.keywords = c.keywords := by
  obtain ⟨-, rfl⟩ | ⟨-, -, -, rfl⟩ := modifierline_cases h
  · rfl
  · exact (SameSettings.putKey c _ _ _).keywords

theorem execStmt_keywords {s : Stmt} {c c' : LkCtx} (h : (execStmt s).run c = .ok () c') :
    c'.keywords = s.setKeywords c.keywords := by
  cases s with
  | charset name =>
    simp only [execStmt, charsetline, EStateM.run_bind, EStateM.run_get] at h
    cases hs : lkSetCharset c name with
    | none => simp [hs] at h
    | some c₁ =>
      simp only [hs] at h
      cases h
      obtain ⟨n, -, rfl⟩ := Option.map_eq_some_iff.mp hs
      rfl
  | altIsMeta =>
    cases h
    rfl
  | stringsAsUsual =>
    obtain ⟨c₂, h₂, h⟩ := Result.seq_eq_ok.mp h
    obtain ⟨c₁, h₁, h₂⟩ := Result.seq_eq_ok.mp h₂
    have hk₁ : c₁.keywords = c.keywords := forM_keywords (fun _ _ _ _ h => by cases h; rfl) h₁
    cases h₂
    cases h
    exact congrArg (Stmt.setKeywords · .stringsAsUsual) hk₁
  | composeAsUsual charset =>
    obtain ⟨c₁, h₁, hloop⟩ := Result.seq_eq_ok.mp h
    have hk₁ : c₁.keywords = c.keywords := by
      cases charset with
      | none => cases h₁; rfl
      | some name =>
        simp only [checkCompose] at h₁
        split at h₁ <;> cases h₁
        rfl
    exact (forM_keywords (fun _ _ _ _ h => by cases h; rfl) hloop).trans hk₁
  | keymaps ranges =>
    obtain ⟨c₁, h₁, h⟩ := Result.seq_eq_ok.mp h
    have hk₁ : c₁.keywords = c.keywords := forM_keywords (fun _ _ _ _ => range0_keywords) h₁
    cases h
    exact congrArg (Stmt.setKeywords · (.keymaps ranges)) hk₁
  | keycode n vs =>
    obtain ⟨c₁, h₁, h⟩ := Result.seq_eq_ok.mp h
    simp only [rvalue1] at h₁
    split at h₁
    · cases h₁
    · cases h₁
      exact singleline_keywords h
  | modified mods n v => exact modifierline_keywords h
  | plain n v => exact modifierline_keywords h
  | string sym value =>
    simp only [execStmt, strline] at h
    split at h
    · cases h
    · cases h
      rfl
  | compose d b r =>
    cases h
    rfl

/-- The keywords after a keymap are those its statements set. -/
theorem runStmts_keywords {ss : List Stmt} {c c' : LkCtx} (h : (runStmts ss).run c = .ok () c') :
    c'.keywords = ss.foldl Stmt.setKeywords c.keywords := by
  induction ss generalizing c with
  | nil =>
    cases h
    rfl
  | cons s ss ih =>
    obtain ⟨c₁, h₁, h⟩ := runStmts_cons_eq_ok.mp h
    rw [List.foldl_cons, ← execStmt_keywords h₁]
    exact ih h

/-! ## Other keys, and the set of maps -/

section Step

variable {sc : Scope} {c c' : LkCtx}

theorem row_congr (h : c'.keymap = c.keymap) : c'.row = c.row := by
  funext i t
  unfold LkCtx.row lkKeyExists lkGetKey
  rw [h]

theorem lkMapExists_congr (h : c'.keymap = c.keymap) : lkMapExists c' = lkMapExists c := by
  funext t
  simp only [lkMapExists, h]

/-- A step leaves the keys outside its scope alone. -/
theorem KeyStep.frame (h : KeyStep sc c c') {i : Nat} (hi : ¬ sc.key i) :
    c'.row i = c.row i ∧ c'.keyConstant.get i = c.keyConstant.get i := by
  cases h with
  | @addMap t _ => exact ⟨row_addMap c t i, by rw [(SameSettings.addMap c t).keyConstant]⟩
  | @putKey t j v _ hj _ _ =>
    have hne : i ≠ j := fun h => hi (h ▸ hj)
    exact ⟨row_putKey_ne c t v hne, by rw [(SameSettings.putKey c t j v).keyConstant]⟩
  | @delKey t j hj =>
    have hne : i ≠ j := fun h => hi (h ▸ hj)
    exact ⟨row_delKey_ne c t hne, by rw [(SameSettings.delKey c t j).keyConstant]⟩
  | @mark j hj =>
    have hne : i ≠ j := fun h => hi (h ▸ hj)
    exact ⟨rfl, by simp [hne]⟩
  | settings hm hc _ => exact ⟨congrFun (row_congr hm) i, by rw [hc]⟩

/-- A step removes no map. -/
theorem KeyStep.mono (h : KeyStep sc c c') {t : Nat} (ht : lkMapExists c t = true) :
    lkMapExists c' t = true := by
  cases h with
  | addMap _ => rw [lkMapExists_addMap, ht, Bool.or_true]
  | putKey _ _ _ _ => rw [lkMapExists_putKey, ht, Bool.or_true]
  | delKey _ => rw [lkMapExists_delKey, ht]
  | mark _ => exact ht
  | settings hm _ _ => rw [lkMapExists_congr hm, ht]

/-- After a `keymaps` line, bindings create no map. -/
theorem KeyStep.exist_eq (h : KeyStep sc c c') (hadds : ∀ t, ¬ sc.adds t)
    (hk : c.keywords.keymaps = true) : lkMapExists c' = lkMapExists c := by
  funext t
  cases h with
  | addMap ht => exact absurd ht (hadds _)
  | @putKey t' i v _ _ _ hex =>
    rw [lkMapExists_putKey]
    by_cases ht : t = t'
    · rw [ht, hex hk, Bool.or_true]
    · simp [ht]
  | delKey _ => rw [lkMapExists_delKey]
  | mark _ => rfl
  | settings hm _ _ => rw [lkMapExists_congr hm]

/-- The last map of the array exists. -/
def MapsTight (c : LkCtx) : Prop := ∀ t, c.keymap.total = t + 1 → lkMapExists c t = true

theorem KeyStep.tight (h : KeyStep sc c c') (hc : MapsTight c) : MapsTight c' := by
  intro t ht
  cases h with
  | @addMap t' _ =>
    rw [total_addMap] at ht
    rw [lkMapExists_addMap]
    by_cases htt : t = t'
    · simp [htt]
    · rw [hc t (by omega), Bool.or_true]
  | @putKey t' i v _ _ _ _ =>
    rw [total_putKey] at ht
    rw [lkMapExists_putKey]
    by_cases htt : t = t'
    · simp [htt]
    · rw [hc t (by omega), Bool.or_true]
  | delKey _ =>
    rw [total_delKey] at ht
    rw [lkMapExists_delKey, hc t ht]
  | mark _ => exact hc t ht
  | settings hm _ _ =>
    rw [hm] at ht
    rw [lkMapExists_congr hm, hc t ht]

end Step

section Run

variable {ss : List Stmt} {c c' : LkCtx}

theorem execStmt_frame {s : Stmt} {i : Nat} (hs : s.line ≠ some (i : Int))
    (h : (execStmt s).run c = .ok () c') :
    c'.row i = c.row i ∧ c'.keyConstant.get i = c.keyConstant.get i := by
  refine execStmt_preserves (I := fun d => d.row i = c.row i ∧
    d.keyConstant.get i = c.keyConstant.get i) (fun d d' hd hI => ?_) h ⟨rfl, rfl⟩
  obtain ⟨hr, hk⟩ := hd.frame hs
  exact ⟨hr.trans hI.1, hk.trans hI.2⟩

/-- Statements leave the keys of other lines alone. -/
theorem runStmts_frame {i : Nat} (hss : ∀ s ∈ ss, s.line ≠ some (i : Int))
    (h : (runStmts ss).run c = .ok () c') :
    c'.row i = c.row i ∧ c'.keyConstant.get i = c.keyConstant.get i := by
  refine runStmts_preserves (I := fun d => d.row i = c.row i ∧
    d.keyConstant.get i = c.keyConstant.get i) (fun s hs d d' hd hI => ?_) h ⟨rfl, rfl⟩
  obtain ⟨hr, hk⟩ := execStmt_frame (hss s hs) hd
  exact ⟨hr.trans hI.1, hk.trans hI.2⟩

theorem execStmt_mono {s : Stmt} (h : (execStmt s).run c = .ok () c') {t : Nat}
    (ht : lkMapExists c t = true) : lkMapExists c' t = true :=
  execStmt_preserves (I := fun d => lkMapExists d t = true) (fun _ _ hs => hs.mono) h ht

theorem runStmts_mono (h : (runStmts ss).run c = .ok () c') {t : Nat}
    (ht : lkMapExists c t = true) : lkMapExists c' t = true :=
  runStmts_step_preserves (I := fun d => lkMapExists d t = true) (fun _ _ _ _ hs => hs.mono) h ht

theorem runStmts_tight (h : (runStmts ss).run c = .ok () c') (hc : MapsTight c) : MapsTight c' :=
  runStmts_step_preserves (fun _ _ _ _ hs => hs.tight) h hc

theorem KeyStep.keymaps_mono {sc : Scope} (h : KeyStep sc c c') (hk : c.keywords.keymaps = true) :
    c'.keywords.keymaps = true := by
  cases h with
  | @addMap t _ => rw [(SameSettings.addMap c t).keywords, hk]
  | @putKey t i v _ _ _ _ => rw [(SameSettings.putKey c t i v).keywords, hk]
  | @delKey t i _ => rw [(SameSettings.delKey c t i).keywords, hk]
  | mark _ => exact hk
  | settings _ _ h => exact h hk

/-- Between two `keymaps` lines the set of maps is fixed. -/
theorem runStmts_exist_eq (hss : ∀ s ∈ ss, s.isKeymaps = false) (hk : c.keywords.keymaps = true)
    (h : (runStmts ss).run c = .ok () c') : lkMapExists c' = lkMapExists c := by
  refine (runStmts_step_preserves (I := fun d => d.keywords.keymaps = true ∧
    lkMapExists d = lkMapExists c) (fun s hs d d' hd hI => ⟨hd.keymaps_mono hI.1, ?_⟩) h ⟨hk, rfl⟩).2
  refine (hd.exist_eq (fun t ht => ?_) hI.1).trans hI.2
  exact Bool.false_ne_true ((hss s hs).symm.trans ht.1)

end Run

/-! ## `lk_add_constants` finds its map -/

/-- A key with a mark has a map to read its value from. -/
def Ready (c : LkCtx) : Prop :=
  ∀ i, c.keyConstant.get i = true →
    (c.keywords.keymaps = false → lkMapExists c 0 = true) ∧ ∃ t, lkMapExists c t = true

theorem ready_lkInit (flags : LkFlags) (charset : Nat) : Ready (lkInit flags charset) := by
  intro i hi
  simp [lkInit] at hi

/-- The first binding of a line with one value. -/
theorem lineBindings_singleton (c : LkCtx) (v : Int) :
    lineBindings c [v] =
      if c.keywords.keymaps then (c.maps.head?.map fun m => (m, v)).toList else [(0, v)] := by
  unfold lineBindings
  split
  · cases c.maps with
    | nil => rfl
    | cons m ms =>
      have hrest : fillBindings [v] ms 1 = [] := by
        simp only [fillBindings, List.map_eq_nil_iff, List.filter_eq_nil_iff, fillsMap]
        intro q hq
        have := List.le_snd_of_mem_zipIdx hq
        simp
        omega
      rw [fillBindings_cons, hrest]
      rfl
  · rfl

theorem startLine_exist (c : LkCtx) (key : Nat) (vs : List Int) :
    lkMapExists (c.startLine key vs) = lkMapExists c := by
  unfold LkCtx.startLine
  split
  · rw [(rowUpdate_unbind _ key).exist]
    rfl
  · rfl

/-- A complete line with one value leaves a map behind: without a `keymaps` line it creates map 0,
and with one it fails where there is no map. -/
theorem exists_map_of_line {c : LkCtx} {v : Int} (h : LineOk c [v]) (key : Nat) :
    ((c.putAll key (lineBindings c [v])).keywords.keymaps = false →
      lkMapExists (c.putAll key (lineBindings c [v])) 0 = true) ∧
    ∃ t, lkMapExists (c.putAll key (lineBindings c [v])) t = true := by
  rw [(SameSettings.putAll c key _).keywords]
  simp only [lkMapExists_putAll, lineBindings_singleton]
  by_cases hk : c.keywords.keymaps = true
  · have hlen := h.2 hk
    cases hm : c.maps with
    | nil => simp [hm] at hlen
    | cons m ms => exact ⟨fun hf => absurd hk (by simp [hf]), m, by simp [hk]⟩
  · exact ⟨fun _ => by simp [hk], 0, by simp [hk]⟩

theorem execStmt_ready {s : Stmt} {c c' : LkCtx} (h : (execStmt s).run c = .ok () c')
    (hc : Ready c) : Ready c' := by
  -- the maps of `c` do for every key whose mark is not new
  have hold : ∀ i, c.keyConstant.get i = true →
      (c'.keywords.keymaps = false → lkMapExists c' 0 = true) ∧ ∃ t, lkMapExists c' t = true := by
    intro i hi
    obtain ⟨h0, t, ht⟩ := hc i hi
    refine ⟨fun hk => execStmt_mono h (h0 ?_), t, execStmt_mono h ht⟩
    by_contra hk'
    have := execStmt_preserves (I := fun d => d.keywords.keymaps = true)
      (fun _ _ hs => hs.keymaps_mono) h (Bool.not_eq_false _ ▸ hk')
    rw [hk] at this
    cases this
  intro i hi
  cases s with
  | keycode n vs =>
    obtain ⟨c₁, h₁, hline⟩ := Result.seq_eq_ok.mp h
    simp only [rvalue1] at h₁
    split at h₁
    · cases h₁
    cases h₁
    obtain ⟨-, rfl⟩ | ⟨-, hok, rfl⟩ := singleline_cases hline
    · exact hold i hi
    · by_cases hlen : vs.length = 1
      · obtain ⟨v, rfl⟩ := List.length_eq_one_iff.mp hlen
        exact exists_map_of_line hok n.toNat
      · refine hold i ?_
        rw [(SameSettings.putAll _ _ _).keyConstant] at hi
        simpa [LkCtx.startLine, hlen] using hi
  | modified mods n v =>
    obtain ⟨-, rfl⟩ | ⟨-, -, -, rfl⟩ := modifierline_cases h
    · exact hold i hi
    · exact hold i ((SameSettings.putKey c _ _ _).keyConstant ▸ hi)
  | plain n v =>
    obtain ⟨-, rfl⟩ | ⟨-, -, -, rfl⟩ := modifierline_cases h
    · exact hold i hi
    · exact hold i ((SameSettings.putKey c _ _ _).keyConstant ▸ hi)
  | charset _ | altIsMeta | stringsAsUsual | composeAsUsual _ | keymaps _ | string _ _
  | compose _ _ _ =>
    have hframe := execStmt_frame (i := i) (by simp [Stmt.line]) h
    exact hold i (hframe.2 ▸ hi)

theorem runStmts_ready {ss : List Stmt} {c c' : LkCtx} (h : (runStmts ss).run c = .ok () c')
    (hc : Ready c) : Ready c' :=
  runStmts_preserves (fun _ _ _ _ => execStmt_ready) h hc

/-- Without a `keymaps` line `lk_add_constants` reads from map 0, otherwise from the first map. -/
theorem constantMap_spec {c : LkCtx} (h : ∃ t, lkMapExists c t = true)
    (h0 : c.keywords.keymaps = false → lkMapExists c 0 = true) :
    lkMapExists c (constantMap c) = true ∧ ∀ t < constantMap c, lkMapExists c t = false := by
  unfold constantMap
  split
  · obtain ⟨t, ht⟩ := h
    cases hf : (List.range c.keymap.total).find? (lkMapExists c ·) with
    | none =>
      rw [List.find?_eq_none] at hf
      exact absurd ht (hf t (List.mem_range.mpr (lkMapExists_lt ht)))
    | some m =>
      rw [List.find?_range_eq_some] at hf
      exact ⟨hf.1, fun t' ht' => by simpa using hf.2.2 t' ht'⟩
  · rename_i hk
    exact ⟨h0 (Bool.eq_false_iff.mpr hk), fun t ht => absurd ht (Nat.not_lt_zero t)⟩

theorem Ready.constantsReady {c : LkCtx} (h : Ready c) : ConstantsReady c := by
  intro i hi
  exact (constantMap_spec (h i hi).2 (h i hi).1).1

end Kbd.Keymap
