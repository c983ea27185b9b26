import Kbd.Keymap.Verify.Keymap

/-!
# Calling `lk_add_constants` again

Several functions call `lk_add_constants` on a context that it may have been called on before. The
first call leaves a binding in every map of a marked key, and in map 0 the letter that it spreads,
so that a second call finds nothing to do (`lkAddConstants_again`).
-/

namespace Kbd.Keymap

open Kbd.Lib

namespace Row

variable {exist : Nat → Bool} {alt force : Bool} {val : Nat → Int}

/-! ## Rows only gain bindings -/

/-- A binding that is not forced stays. -/
theorem fill_of_some {r : Row} {t : Nat} {v : Int} (ht : force = true → t ≠ 0) (h : r t = some v)
    (j : Nat) : fill exist alt force val r j t = some v := by
  unfold fill
  split
  · rename_i hj
    have hjt : t ≠ j := by
      rintro rfl
      simp only [h, Option.isNone_some, Bool.or_false, Bool.and_eq_true, decide_eq_true_eq] at hj
      exact ht hj.2.1 hj.2.2
    unfold put
    split
    · exact h
    · split
      · rename_i hs
        -- the Meta binding goes to a free table
        have hne : t ≠ j ||| mAlt := by
          rintro rfl
          simp [spills, h] at hs
        rw [Function.update_of_ne hne, Function.update_of_ne hjt, h]
      · rw [Function.update_of_ne hjt, h]
  · exact h

theorem foldl_fill_of_some {t : Nat} {v : Int} (ht : force = true → t ≠ 0) (js : List Nat) {r : Row}
    (h : r t = some v) : js.foldl (fill exist alt force val) r t = some v := by
  induction js generalizing r with
  | nil => exact h
  | cons j js ih => exact ih (fill_of_some ht h j)

/-- A round binds its own table, to the value of the round unless it was bound before. -/
theorem fill_self {r : Row} {j : Nat} (hj : exist j = true)
    (hfree : r j = none ∨ force = true ∧ j = 0 ∧ val 0 ≠ kHole) :
    fill exist alt force val r j j = some (val j) := by
  have hcond : (exist j && (force && j = 0 || (r j).isNone)) = true := by
    rcases hfree with h | ⟨h, h0, -⟩
    · simp [hj, h]
    · subst h0
      simp [hj, h]
  have hkeep : (alt && val j = kHole && (r j).isSome) = false := by
    rcases hfree with h | ⟨-, rfl, h⟩
    · simp [h]
    · simp [h]
  unfold fill put
  rw [if_pos hcond, hkeep, if_neg Bool.false_ne_true]
  split
  · rename_i hs
    have hne : j ≠ j ||| mAlt := by
      intro h
      simp [spills, ← h] at hs
    rw [Function.update_of_ne hne, Function.update_self]
  · rw [Function.update_self]

/-- Every table of the loop is bound at the end. -/
theorem foldl_fill_isSome {js : List Nat} (h0 : force = true → 0 ∉ js) {r : Row} {j : Nat}
    (hj : j ∈ js) (hex : exist j = true) :
    (js.foldl (fill exist alt force val) r j).isSome = true := by
  induction js generalizing r with
  | nil => cases hj
  | cons k js ih =>
    have h0' : force = true → 0 ∉ js := fun hf h => h0 hf (List.mem_cons_of_mem k h)
    rcases List.mem_cons.mp hj with rfl | hj
    · have hne : force = true → j ≠ 0 := fun hf h => h0 hf (h ▸ List.mem_cons_self)
      obtain ⟨v, hv⟩ : ∃ v, fill exist alt force val r j j = some v := by
        cases hr : r j with
        | none => exact ⟨val j, fill_self hex (.inl hr)⟩
        | some v => exact ⟨v, fill_of_some hne hr j⟩
      rw [List.foldl_cons, foldl_fill_of_some hne js hv]
      rfl
    · exact ih h0' hj

/-- A round for another table leaves map 0 alone, which has no Alt bit. -/
theorem fill_zero {j : Nat} (hj : j ≠ 0) (r : Row) : fill exist alt force val r j 0 = r 0 := by
  have hne : (0 : Nat) ≠ j ||| mAlt := by
    rw [or_mAlt]
    omega
  unfold fill put
  split
  · split
    · rfl
    · split
      · rw [Function.update_of_ne hne, Function.update_of_ne hj.symm]
      · rw [Function.update_of_ne hj.symm]
  · rfl

theorem foldl_fill_zero {js : List Nat} (h0 : 0 ∉ js) (r : Row) :
    js.foldl (fill exist alt force val) r 0 = r 0 := by
  induction js generalizing r with
  | nil => rfl
  | cons j js ih =>
    rw [List.mem_cons, not_or] at h0
    rw [List.foldl_cons, ih h0.2, fill_zero (Ne.symm h0.1)]

/-- Every table but map 0 that exists is bound. -/
def Filled (exist : Nat → Bool) (r : Row) : Prop :=
  ∀ j, j ≠ 0 → exist j = true → (r j).isSome = true

/-- The code of a plain letter is no hole. -/
theorem letter_ne_kHole (v : Int) : K ktLetter (kval v) ≠ kHole := by
  have h0 := kval_nonneg v
  have h1 := kval_lt v
  simp only [K, ktLetter, kHole]
  omega

variable {total : Nat} {key : Int} {r : Row}

/-- The rounds of a letter for the tables after map 0. -/
theorem constant_letter (hl : isLetterCode key = true) (ht : total ≠ 0) (r : Row) :
    constant exist alt total key r =
      (List.range' 1 (total - 1)).foldl
        (fill exist alt true fun j => (letterDefs (kval key)).getD (j % 16) 0)
        (fill exist alt true (fun j => (letterDefs (kval key)).getD (j % 16) 0) r 0) := by
  obtain ⟨n, rfl⟩ := Nat.exists_eq_succ_of_ne_zero ht
  rw [constant, if_pos hl, Nat.succ_sub_one, List.range_eq_range', List.range'_succ]
  rfl

/-! ## What the first call leaves -/

theorem filled_constant (htot : ∀ j, exist j = true → j < total) (r : Row) :
    Filled exist (constant exist alt total key r) := by
  intro j hj hex
  have hlt := htot j hex
  have hmem : j ∈ List.range' 1 (total - 1) := by
    rw [List.mem_range'_1]
    omega
  by_cases hl : isLetterCode key = true
  · rw [constant_letter hl (by omega)]
    exact foldl_fill_isSome (fun _ h => by rw [List.mem_range'_1] at h; omega) hmem hex
  · rw [constant, if_neg hl]
    exact foldl_fill_isSome (fun h => absurd h Bool.false_ne_true) hmem hex

/-- Without a letter map 0 stays as it is. -/
theorem constant_zero (hl : isLetterCode key = false) : constant exist alt total key r 0 = r 0 := by
  rw [constant, if_neg (by simp [hl])]
  exact foldl_fill_zero (fun h => by rw [List.mem_range'_1] at h; omega) r

/-- Otherwise it has the letter. -/
theorem constant_zero_letter (hl : isLetterCode key = true) (h0 : exist 0 = true) (ht : total ≠ 0) :
    constant exist alt total key r 0 = some (K ktLetter (kval key)) := by
  have hval : (letterDefs (kval key)).getD (0 % 16) 0 = K ktLetter (kval key) := rfl
  rw [constant_letter hl ht, foldl_fill_zero (fun h => by rw [List.mem_range'_1] at h; omega)]
  exact fill_self h0 (.inr ⟨rfl, rfl, by rw [hval]; exact letter_ne_kHole key⟩)

/-! ## The second call -/

/-- A round for a table that is bound does nothing, unless it is forced. -/
theorem fill_of_isSome {j : Nat} (hj : force = true → j ≠ 0) (h : exist j = true → (r j).isSome = true) :
    fill exist alt force val r j = r := by
  refine if_neg fun hc => ?_
  simp only [Bool.and_eq_true, Bool.or_eq_true, decide_eq_true_eq, Option.isNone_iff_eq_none] at hc
  obtain ⟨hex, ⟨hf, h0⟩ | hnone⟩ := hc
  · exact hj hf h0
  · have := h hex
    rw [hnone] at this
    cases this

theorem foldl_fill_of_filled (hr : Filled exist r) {js : List Nat} (h0 : 0 ∉ js) :
    js.foldl (fill exist alt force val) r = r := by
  induction js with
  | nil => rfl
  | cons j js ih =>
    rw [List.mem_cons, not_or] at h0
    have hj : j ≠ 0 := Ne.symm h0.1
    rw [List.foldl_cons, fill_of_isSome (fun _ => hj) (hr j hj)]
    exact ih h0.2

/-- The forced round binds map 0 to the letter that it has, and every other map is bound. -/
theorem fill_zero_of_filled (hr : Filled exist r) (h0 : exist 0 = true → r 0 = some (val 0)) :
    fill exist alt true val r 0 = r := by
  unfold fill
  split
  · rename_i hc
    have hex : exist 0 = true := (Bool.and_eq_true _ _ ▸ hc).1
    have hself : Function.update r 0 (some (val 0)) = r := by
      rw [← h0 hex, Function.update_eq_self]
    have hspill : ¬ spills exist alt r 0 (val 0) = true := by
      intro hs
      simp only [spills, Bool.and_eq_true, decide_eq_true_eq, Option.isNone_iff_eq_none] at hs
      have := hr _ hs.1.1.1.2 hs.1.1.2
      rw [hs.1.2] at this
      cases this
    unfold put
    rw [if_neg hspill, hself, ite_self]
  · rfl

/-- Spreading a value over a row in which every map is bound changes nothing, provided a letter is
in map 0 already. -/
theorem constant_of_filled (hr : Filled exist r)
    (h0 : isLetterCode key = true → exist 0 = true → r 0 = some (K ktLetter (kval key))) :
    constant exist alt total key r = r := by
  have hrest : 0 ∉ List.range' 1 (total - 1) := fun h => by
    rw [List.mem_range'_1] at h
    omega
  by_cases hl : isLetterCode key = true
  · by_cases ht : total = 0
    · rw [ht, constant, if_pos hl]
      rfl
    · rw [constant_letter hl ht, fill_zero_of_filled hr (h0 hl)]
      exact foldl_fill_of_filled hr hrest
  · rw [constant, if_neg hl]
    exact foldl_fill_of_filled hr hrest

end Row

/-! ## `lk_add_constants` -/

/-- Where a key has a mark, `lk_add_constants` reads its value from the first map. -/
theorem ConstantsReady.first {c : LkCtx} (h : ConstantsReady c) {i : Nat}
    (hi : c.keyConstant.get i = true) : ∀ t < constantMap c, lkMapExists c t = false := by
  have hex := h i hi
  refine (constantMap_spec ⟨_, hex⟩ fun hk => ?_).2
  have h0 : constantMap c = 0 := if_neg (by simp [hk])
  rwa [h0] at hex

/-- The row that the first call makes of a marked row is left alone by the second one, which reads
its value from the same map. -/
theorem constant_again {exist : Nat → Bool} (alt : Bool) {total r0 : Nat}
    (htot : ∀ j, exist j = true → j < total) (h0 : exist r0 = true)
    (hfirst : ∀ t < r0, exist t = false) (r : Row) :
    let r' := r.constant exist alt total ((r r0).getD kHole)
    r'.constant exist alt total ((r' r0).getD kHole) = r' := by
  intro r'
  have hfill : Row.Filled exist r' := Row.filled_constant htot r
  have ht : total ≠ 0 := Nat.ne_of_gt (Nat.lt_of_le_of_lt (Nat.zero_le _) (htot r0 h0))
  refine Row.constant_of_filled hfill fun hl hex => ?_
  -- with a map 0 the values are read from it
  have hr0 : r0 = 0 := by
    by_contra hne
    rw [hfirst 0 (Nat.pos_of_ne_zero hne)] at hex
    cases hex
  subst hr0
  by_cases hk : isLetterCode ((r 0).getD kHole) = true
  · have hr' : r' 0 = some (K ktLetter (kval ((r 0).getD kHole))) :=
      Row.constant_zero_letter hk h0 ht
    rw [hr', Option.getD_some, kval_K (kval_nonneg _) (kval_lt _)]
  · have hr' : r' 0 = r 0 := Row.constant_zero (Bool.eq_false_iff.mpr hk)
    rw [hr'] at hl
    exact absurd hl hk

/-- A second call of `lk_add_constants` succeeds and leaves every cell of every map as it is. -/
theorem lkAddConstants_again {c c' : LkCtx} (h : lkAddConstants.run c = .ok () c') :
    ∃ c'', lkAddConstants.run c' = .ok () c'' ∧ ∀ t i,
      lkMapExists c'' t = lkMapExists c' t ∧ lkKeyExists c'' t i = lkKeyExists c' t i ∧
        lkGetKey c'' t i = lkGetKey c' t i := by
  have hready := constantsReady_of_run h
  have hu := rowsUpdate_of_run h
  have hmap : constantMap c' = constantMap c := by
    unfold constantMap
    rw [hu.settings.keywords, hu.total, hu.exist]
  have hready' : ConstantsReady c' := by
    intro i hi
    rw [hmap, hu.exist]
    exact hready i (hu.settings.keyConstant ▸ hi)
  obtain ⟨c'', hrun, hu'⟩ := lkAddConstants_run hready'
  have hrow : c''.row = c'.row := by
    rw [hu'.row]
    funext i
    unfold LkCtx.constantRow
    split
    · rename_i hi
      rw [hu.settings.keyConstant] at hi
      have hex := hready i hi
      have hagain := constant_again c.keywords.altIsMeta (fun _ => lkMapExists_lt) hex
        (hready.first hi) (c.row i)
      have hrow : c'.row i = (c.row i).constant (lkMapExists c) c.keywords.altIsMeta
          c.keymap.total ((c.row i (constantMap c)).getD kHole) := by
        rw [hu.row, LkCtx.constantRow, if_pos hi, lkGetKey_eq_row hex]
      rw [lkGetKey_eq_row (by rw [hmap, hu.exist]; exact hex), hmap, hu.exist, hu.total,
        hu.settings.keywords, hrow]
      exact hagain
    · rfl
  refine ⟨c'', hrun, fun t i => ⟨congrFun hu'.exist t, ?_, ?_⟩⟩
  · rw [← isSome_row, ← isSome_row, hrow]
  · by_cases ht : lkMapExists c' t = true
    · rw [lkGetKey_eq_row ht, lkGetKey_eq_row (by rw [hu'.exist]; exact ht), hrow]
    · rw [lkGetKey_of_not_exists (Bool.eq_false_iff.mpr ht),
        lkGetKey_of_not_exists (by rw [hu'.exist]; exact Bool.eq_false_iff.mpr ht)]

/-- A letter in map 0, with a map for Alt. -/
theorem lkAddConstants_again_letter : ∃ c c',
    (runStmts [.altIsMeta, .keycode 30 [0x61], .modified [.alt] 31 0x62]).run lkInit = .ok () c ∧
    lkAddConstants.run c = .ok () c' ∧
    ∃ c'', lkAddConstants.run c' = .ok () c'' ∧ ∀ t i,
      lkMapExists c'' t = lkMapExists c' t ∧ lkKeyExists c'' t i = lkKeyExists c' t i ∧
        lkGetKey c'' t i = lkGetKey c' t i := by
  obtain ⟨c, h⟩ : ∃ c, (runStmts [.altIsMeta, .keycode 30 [0x61], .modified [.alt] 31 0x62]).run
      lkInit = .ok () c := ⟨_, rfl⟩
  obtain ⟨c', hc', -⟩ :=
    lkAddConstants_run (runStmts_ready h (ready_lkInit {} 0)).constantsReady
  exact ⟨c, c', h, hc', lkAddConstants_again hc'⟩

end Kbd.Keymap
