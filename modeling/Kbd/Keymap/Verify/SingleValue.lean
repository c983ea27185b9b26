import Kbd.Keymap.Verify.Keymap

/-!
# Lines with a single value

`keycode N = v` is written to one map when it is read, and spread over all the others by
`lk_add_constants`, when the set of maps is final. `singleValue_binds` says what comes out: `v`
everywhere if it is not a letter, and otherwise the table of the manual page, `manPageTable`.
-/

namespace Kbd.Keymap

open Kbd.Lib

/-! ## Spreading without `alt_is_meta` -/

namespace Row

variable (exist : Nat → Bool)

@[simp] theorem put_false (r : Row) (t : Nat) (v : Int) :
    r.put exist false t v = Function.update r t (some v) := by
  simp [put, spills]

theorem foldl_fill_false (force : Bool) (val : Nat → Int) {js : List Nat} (hnd : js.Nodup) (r : Row)
    (t : Nat) :
    js.foldl (fill exist false force val) r t =
      if t ∈ js ∧ exist t = true ∧ (force = true ∧ t = 0 ∨ r t = none) then some (val t)
      else r t := by
  induction js generalizing r with
  | nil => simp
  | cons j js ih =>
    obtain ⟨hj, hnd⟩ := List.nodup_cons.mp hnd
    have hstep : fill exist false force val r j t =
        if t = j ∧ exist t = true ∧ (force = true ∧ t = 0 ∨ r t = none) then some (val t)
        else r t := by
      unfold fill
      by_cases ht : t = j
      · subst ht
        by_cases hc : exist t = true ∧ (force = true ∧ t = 0 ∨ r t = none)
        · simp [hc]
        · rw [if_neg (by simpa using hc), if_neg (by simpa using hc)]
      · have hn : ¬ (t = j ∧ exist t = true ∧ (force = true ∧ t = 0 ∨ r t = none)) :=
          fun h => ht h.1
        rw [if_neg hn]
        split
        · rw [put_false, Function.update_of_ne ht]
        · rfl
    rw [List.foldl_cons, ih hnd, hstep]
    by_cases ht : t = j
    · subst ht
      simp [hj]
    · simp [ht]

/-- `do_constant_key` without `alt_is_meta`, table by table. -/
theorem constant_false {total : Nat} (key : Int) (r : Row) {t : Nat} (ht : t < total)
    (hex : exist t = true) :
    r.constant exist false total key t =
      if isLetterCode key then
        if t = 0 ∨ r t = none then some ((letterDefs (kval key)).getD (t % 16) 0) else r t
      else if t ≠ 0 ∧ r t = none then some key else r t := by
  unfold constant
  split
  · rw [foldl_fill_false exist true _ List.nodup_range]
    simp [ht, hex]
  · rw [foldl_fill_false exist false _ List.nodup_range']
    have hmem : t ∈ List.range' 1 (total - 1) ↔ t ≠ 0 := by
      rw [List.mem_range'_1]
      omega
    simp [hmem, hex]

end Row

/-! ## The manual page -/

/-- The table of the manual page for a letter, by modifier combination: the letter and its other
case under Shift, four times Control, then the Meta forms of these eight. -/
def manPageTable (x : Int) : List Int :=
  let other := if 97 ≤ x then x - 32 else x + 32
  let ctl := x % 32
  [K ktLetter x, K ktLetter other, K ktLetter x, K ktLetter other, ctl, ctl, ctl, ctl,
    K ktMeta x, K ktMeta other, K ktMeta x, K ktMeta other, K ktMeta ctl, K ktMeta ctl,
    K ktMeta ctl, K ktMeta ctl]

/-- The array `defs` is the table of the manual page. -/
theorem letterDefs_eq_manPageTable : ∀ val < 123, isAsciiLetter (val : Nat) = true →
    letterDefs (val : Nat) = manPageTable (val : Nat) := by
  decide +kernel

/-! ## The map the value is written to -/

theorem head_maps {c : LkCtx} {m : Nat} (h : c.maps.head? = some m) :
    lkMapExists c m = true ∧ ∀ t < m, lkMapExists c t = false := by
  rw [LkCtx.maps, List.head?_filter, List.find?_range_eq_some] at h
  exact ⟨h.1, fun t ht => by simpa using h.2.2 t ht⟩

/-- There is only one lowest map. -/
theorem lowest_unique {exist : Nat → Bool} {m m' : Nat} (h : exist m = true)
    (hlow : ∀ t < m, exist t = false) (h' : exist m' = true) (hlow' : ∀ t < m', exist t = false) :
    m = m' := by
  rcases Nat.lt_trichotomy m m' with hlt | heq | hgt
  · rw [hlow' m hlt] at h
    cases h
  · exact heq
  · rw [hlow m' hgt] at h'
    cases h'

theorem startLine_row (c : LkCtx) (key : Nat) (v : Int) :
    (c.startLine key [v]).row key = fun _ => none :=
  (rowUpdate_unbind _ key).row

theorem startLine_keyConstant (c : LkCtx) (key : Nat) (v : Int) :
    (c.startLine key [v]).keyConstant.get key = true := by
  change ({ c with keyConstant := c.keyConstant.set key true }.unbind key).keyConstant.get key = true
  rw [(SameSettings.unbind _ key).keyConstant]
  simp

/-- After `keycode n = v` the key is bound in the map that `lk_add_constants` will read, and there
only. -/
theorem execStmt_single {c c' : LkCtx} {n v : Int} (hn : KeyInRange n)
    (halt : c.keywords.altIsMeta = false) (h : (execStmt (.keycode n [v])).run c = .ok () c') :
    c'.row n.toNat = Function.update (fun _ => none) (constantMap c') (some v) ∧
      c'.keyConstant.get n.toNat = true := by
  obtain ⟨c₁, h₁, hline⟩ := Result.seq_eq_ok.mp h
  cases h₁
  obtain ⟨hn', -⟩ | ⟨-, hok, hc'⟩ := singleline_cases hline
  · exact absurd hn hn'
  have hready := exists_map_of_line hok n.toNat
  rw [← hc'] at hready
  obtain ⟨hex, hlow⟩ := constantMap_spec hready.2 hready.1
  have hkw : (c.startLine n.toNat [v]).keywords = c.keywords := startLine_keywords c n.toNat [v]
  have hkw' : c'.keywords = c.keywords := execStmt_keywords h
  -- the line is one binding, of the map that `c'` takes the constants from
  have hb : lineBindings (c.startLine n.toNat [v]) [v] = [(constantMap c', v)] := by
    rw [lineBindings_singleton, hkw]
    by_cases hk : c.keywords.keymaps = true
    · have hlen := hok.2 (hkw ▸ hk)
      cases hm : (c.startLine n.toNat [v]).maps with
      | nil => simp [hm] at hlen
      | cons m ms =>
        obtain ⟨hm0, hmlow⟩ := head_maps (show (c.startLine n.toNat [v]).maps.head? = some m by
          rw [hm]; rfl)
        have hexist : lkMapExists c' = lkMapExists (c.startLine n.toNat [v]) := by
          funext t
          rw [hc', lkMapExists_putAll, lineBindings_singleton, hkw, hm]
          by_cases ht : t = m
          · simp [hk, ht, hm0]
          · simp [hk, ht]
        rw [hexist] at hex hlow
        simp [hk, lowest_unique hm0 hmlow hex hlow]
    · have h0 : constantMap c' = 0 := by simp [constantMap, hkw', hk]
      simp [hk, h0]
  rw [hb] at hc'
  have hv : v ≠ codeForUnknownKsym := hok.1 (constantMap c', v) (hb ▸ List.mem_singleton_self _)
  constructor
  · have hrow := row_putAll (c.startLine n.toNat [v]) n.toNat [(constantMap c', v)]
      (by simpa using hv)
    rw [← hc', hkw, halt, startLine_row] at hrow
    simpa [Row.putAll] using hrow
  · have hset := (SameSettings.putAll (c.startLine n.toNat [v]) n.toNat
      [(constantMap c', v)]).keyConstant
    rw [← hc'] at hset
    rw [hset, startLine_keyConstant]

theorem foldl_setKeywords_keymaps {ss : List Stmt} (hss : ∀ s ∈ ss, s.isKeymaps = false)
    (k : LkKeywords) : (ss.foldl Stmt.setKeywords k).keymaps = k.keymaps := by
  induction ss generalizing k with
  | nil => rfl
  | cons s ss ih =>
    rw [List.forall_mem_cons] at hss
    rw [List.foldl_cons, ih hss.2]
    cases s <;> first | rfl | exact absurd hss.1 (by simp [Stmt.isKeymaps])

theorem foldl_setKeywords_altIsMeta {ss : List Stmt} (hss : Stmt.altIsMeta ∉ ss)
    (k : LkKeywords) : (ss.foldl Stmt.setKeywords k).altIsMeta = k.altIsMeta := by
  induction ss generalizing k with
  | nil => rfl
  | cons s ss ih =>
    rw [List.mem_cons, not_or] at hss
    rw [List.foldl_cons, ih hss.2]
    cases s <;> first | rfl | exact absurd rfl hss.1

/-- Statements other than `keymaps` lines do not change the map the constants are read from. -/
theorem runStmts_constantMap {ss : List Stmt} {c c' : LkCtx} (hss : ∀ s ∈ ss, s.isKeymaps = false)
    (hc : ∃ t, lkMapExists c t = true) (h : (runStmts ss).run c = .ok () c') :
    constantMap c' = constantMap c := by
  have hk : c'.keywords.keymaps = c.keywords.keymaps := by
    rw [runStmts_keywords h, foldl_setKeywords_keymaps hss]
  by_cases hkm : c.keywords.keymaps = true
  · have hex := runStmts_exist_eq hss hkm h
    obtain ⟨h1, h2⟩ := constantMap_spec hc (by simp [hkm])
    obtain ⟨h3, h4⟩ := constantMap_spec (hex ▸ hc) (by simp [hk, hkm])
    rw [hex] at h3 h4
    exact lowest_unique h3 h4 h1 h2
  · simp [constantMap, hk, hkm]

/-! ## After `lk_add_constants` -/

theorem isAsciiLetter_le {val : Int} (h : isAsciiLetter val = true) : 65 ≤ val ∧ val ≤ 122 := by
  simp only [isAsciiLetter, Bool.or_eq_true, Bool.and_eq_true, decide_eq_true_eq] at h
  omega

/-- If the last line for key `n` is `keycode n = v`, no `keymaps` line follows it and `alt_is_meta`
is not used, then `lk_add_constants` succeeds, and it binds `n` to `v` in every map if `v` is not a
letter, and otherwise to `v` in the lowest map and to the letter's row of the manual page's table
in the others. -/
theorem singleValue_binds (flags : LkFlags) (charset : Nat) {T₁ T₂ : List Stmt} {n : Nat}
    (hn : n < nrKeys) {v : Int} {c : LkCtx}
    (hrun : (runStmts (T₁ ++ .keycode n [v] :: T₂)).run (lkInit flags charset) = .ok () c)
    (halt : Stmt.altIsMeta ∉ T₁ ++ T₂) (hlast : ∀ s ∈ T₂, s.line ≠ some (n : Int))
    (hkm : ∀ s ∈ T₂, s.isKeymaps = false) :
    ∃ d m₀, lkAddConstants.run c = .ok () d ∧ lkMapExists d = lkMapExists c ∧
      lkMapExists d m₀ = true ∧ (∀ t < m₀, lkMapExists d t = false) ∧
      (isLetterCode v = false → ∀ t, lkMapExists d t = true → lkGetKey d t n = v) ∧
      (isLetterCode v = true →
        lkGetKey d m₀ n = (if m₀ = 0 then K ktLetter (kval v) else v) ∧
        ∀ t, t ≠ m₀ → lkMapExists d t = true →
          lkGetKey d t n = (manPageTable (kval v)).getD (t % 16) 0) := by
  obtain ⟨c₁, h₁, hrest⟩ := runStmts_append_eq_ok.mp hrun
  obtain ⟨c₂, h₂, h₃⟩ := runStmts_cons_eq_ok.mp hrest
  rw [List.mem_append, not_or] at halt
  have halt₁ : c₁.keywords.altIsMeta = false := by
    rw [runStmts_keywords h₁, foldl_setKeywords_altIsMeta halt.1]
    rfl
  have halt₃ : c.keywords.altIsMeta = false := by
    rw [runStmts_keywords h₃, foldl_setKeywords_altIsMeta halt.2, execStmt_keywords h₂]
    exact halt₁
  -- the row of `n` when everything has been read
  obtain ⟨hrow₂, hconst₂⟩ := execStmt_single (n := (n : Int)) ⟨by omega, by omega⟩ halt₁ h₂
  rw [Int.toNat_natCast] at hrow₂ hconst₂
  obtain ⟨hrow, hconst⟩ := runStmts_frame hlast h₃
  rw [hrow₂] at hrow
  rw [hconst₂] at hconst
  have hready₂ : Ready c₂ := execStmt_ready h₂ (runStmts_ready h₁ (ready_lkInit flags charset))
  have hready : Ready c := runStmts_ready h₃ hready₂
  rw [← runStmts_constantMap hkm (hready₂ n hconst₂).2 h₃] at hrow
  -- what `lk_add_constants` makes of it
  obtain ⟨hm, hlow⟩ := constantMap_spec (hready n hconst).2 (hready n hconst).1
  set m₀ := constantMap c
  obtain ⟨d, hd, hu⟩ := lkAddConstants_run hready.constantsReady
  have hkey : lkGetKey c m₀ n = v := by
    rw [lkGetKey_eq_row hm, hrow]
    simp
  have hget (t : Nat) (ht : lkMapExists d t = true) : lkGetKey d t n =
      ((if isLetterCode v then
          if t = 0 ∨ c.row n t = none then some ((letterDefs (kval v)).getD (t % 16) 0)
          else c.row n t
        else if t ≠ 0 ∧ c.row n t = none then some v else c.row n t).getD kHole) := by
    have htc : lkMapExists c t = true := hu.exist ▸ ht
    have hcr : c.constantRow n = (c.row n).constant (lkMapExists c) false c.keymap.total v := by
      simp only [LkCtx.constantRow, hconst, ↓reduceIte, halt₃]
      rw [show lkGetKey c (constantMap c) n = v from hkey]
    rw [lkGetKey_eq_row ht, hu.row, hcr, Row.constant_false _ v _ (lkMapExists_lt htc) htc]
  refine ⟨d, m₀, hd, hu.exist, hu.exist ▸ hm, hu.exist ▸ hlow, fun hl t ht => ?_,
    fun hl => ⟨?_, fun t hne ht => ?_⟩⟩
  · rw [hget t ht, hl]
    by_cases htm : t = m₀
    · simp [hrow, htm]
    · have h0 : t ≠ 0 := by
        rintro rfl
        have := hu.exist ▸ ht
        rw [hlow 0 (Nat.pos_of_ne_zero (Ne.symm htm))] at this
        cases this
      simp [hrow, htm, h0]
  · rw [hget m₀ (hu.exist ▸ hm), hl]
    by_cases h0 : m₀ = 0
    · simp [h0, letterDefs]
    · simp [h0, hrow]
  · have hval : isAsciiLetter (kval v) = true := (Bool.and_eq_true _ _ ▸ hl).2
    obtain ⟨x, hx⟩ := Int.eq_ofNat_of_zero_le (kval_nonneg v)
    have hx122 := isAsciiLetter_le hval
    rw [hget t ht, hl]
    simp only [↓reduceIte, hrow, Function.update_of_ne hne, or_true, Option.getD_some]
    rw [hx] at hval hx122 ⊢
    rw [letterDefs_eq_manPageTable x (by omega) hval]

/-- A letter, with maps created before and after its line. -/
theorem singleValue_binds_letter :
    ∃ c d, (runStmts ([.modified [.altgr] 31 0x62] ++ .keycode 30 [0x61] ::
        [.modified [.alt] 31 0x63])).run lkInit = .ok () c ∧ lkAddConstants.run c = .ok () d ∧
      lkGetKey d 2 30 = 0xb61 ∧ lkGetKey d 8 30 = 0x861 := by
  obtain ⟨c, hc, hm⟩ : ∃ c, (runStmts ([.modified [.altgr] 31 0x62] ++ .keycode 30 [0x61] ::
      [.modified [.alt] 31 0x63])).run lkInit = .ok () c ∧ [0, 2, 8].all (lkMapExists c) = true :=
    ⟨_, rfl, by decide⟩
  obtain ⟨d, m₀, hd, hex, -, hlow, -, hletter⟩ := singleValue_binds {} 0 (n := 30) (by decide) hc
    (by decide) (by decide) (by decide)
  simp only [List.all_cons, List.all_nil, Bool.and_true, Bool.and_eq_true, ← hex] at hm
  obtain rfl : m₀ = 0 := by
    by_contra h
    exact absurd hm.1 (by simp [hlow 0 (Nat.pos_of_ne_zero h)])
  have hl := hletter (by decide)
  refine ⟨c, d, hc, hd, ?_, ?_⟩
  · rw [hl.2 2 (by decide) hm.2.1]
    decide
  · rw [hl.2 8 (by decide) hm.2.2]
    decide

end Kbd.Keymap
