import Kbd.Keymap.Verify.Rounds
import Kbd.Keymap.Verify.SingleValue

/-!
# Complete lines and earlier lines for the same key

Two keymaps that differ only in lines for one key, before a complete line for it, should bind the
key alike. A line with one value removes what was there before; a line with more values only
overwrites the maps it has values for, and leaves the mark of an earlier single-value line and the
bindings of other maps in place. `complete_line_overrides` holds where nothing is left behind
(`LeavesNothing`), and `not_completeLineOverrides` is a keymap in which something is.
-/

namespace Kbd.Keymap

open Kbd.Lib

/-! ## The set of maps -/

theorem total_eq_of_exist {c c' : LkCtx} (hc : MapsTight c) (hc' : MapsTight c')
    (h : lkMapExists c = lkMapExists c') : c.keymap.total = c'.keymap.total := by
  have hle {a b : LkCtx} (ha : MapsTight a) (hab : lkMapExists a = lkMapExists b) :
      a.keymap.total ≤ b.keymap.total := by
    cases ht : a.keymap.total with
    | zero => exact Nat.zero_le _
    | succ t => exact lkMapExists_lt (hab ▸ ha t ht)
  exact Nat.le_antisymm (hle hc h) (hle hc' h.symm)

theorem maps_eq_of_exist {c c' : LkCtx} (hc : MapsTight c) (hc' : MapsTight c')
    (h : lkMapExists c = lkMapExists c') : c.maps = c'.maps := by
  unfold LkCtx.maps
  rw [total_eq_of_exist hc hc' h, h]

theorem exist_eq_of_maps {c c' : LkCtx} (h : c.maps = c'.maps) :
    lkMapExists c = lkMapExists c' := by
  funext t
  rw [Bool.eq_iff_iff, ← mem_maps, ← mem_maps, h]

theorem constantMap_eq_of_exist {c c' : LkCtx} (hc : MapsTight c) (hc' : MapsTight c')
    (hk : c.keywords = c'.keywords) (h : lkMapExists c = lkMapExists c') :
    constantMap c = constantMap c' := by
  unfold constantMap
  rw [total_eq_of_exist hc hc' h, h, hk]

theorem mapsTight_lkInit (flags : LkFlags) (charset : Nat) : MapsTight (lkInit flags charset) :=
  fun _ h => nomatch h

/-! ## Rows after a line -/

/-- Bindings overwrite their own tables; with `alt_is_meta` a hole does not. -/
theorem Row.putAll_congr {alt : Bool} {exist exist' : Nat → Bool} {r r' : Row}
    {bs : List (Nat × Int)}
    (hex : alt = true → ∀ b ∈ bs, isPlainAscii b.2 = true → b.1 ||| mAlt ≠ b.1 →
      exist (b.1 ||| mAlt) = exist' (b.1 ||| mAlt))
    (h : ∀ t, r t = r' t ∨ ∃ v, (t, v) ∈ bs ∧ (alt = true → v ≠ kHole)) :
    Row.putAll alt exist r bs = Row.putAll alt exist' r' bs := by
  induction bs generalizing exist exist' r r' with
  | nil =>
    refine funext fun t => (h t).resolve_right ?_
    rintro ⟨v, hv, -⟩
    cases hv
  | cons b bs ih =>
    refine ih (fun ha b' hb' hplain hne => ?_) fun t => ?_
    · rw [hex ha b' (List.mem_cons_of_mem b hb') hplain hne]
    -- a Meta binding is added in both or in neither
    have hspill : (t = b.1 + mAlt && !b.1.testBit 3 && alt && exist t && isPlainAscii b.2) =
        (t = b.1 + mAlt && !b.1.testBit 3 && alt && exist' t && isPlainAscii b.2) := by
      by_cases hcond : t = b.1 + mAlt ∧ b.1.testBit 3 = false ∧ alt = true ∧ isPlainAscii b.2 = true
      · obtain ⟨rfl, hbit, ha, hplain⟩ := hcond
        have hor := or_mAlt_of_not_testBit hbit
        have hm : mAlt = 8 := rfl
        rw [← hor, hex ha b List.mem_cons_self hplain (by omega)]
      · grind
    rw [put_apply, put_apply, hspill]
    rcases h t with heq | ⟨v, hv, hfirm⟩
    · left
      by_cases ht : t = b.1
      · rw [if_pos ht, if_pos ht, ← ht, heq]
      · rw [if_neg ht, if_neg ht, heq]
    · rcases List.mem_cons.mp hv with rfl | hv
      · left
        have hkeep : (alt && decide (v = kHole)) = false := by
          cases alt with
          | false => rfl
          | true => exact decide_eq_false (hfirm rfl)
        simp [hkeep]
      · exact .inr ⟨v, hv, hfirm⟩

/-- Writing a hole hides what is bound, but `alt_is_meta` keeps it. -/
theorem Row.putAll_holes {alt : Bool} {exist : Nat → Bool} {r : Row} {bs : List (Nat × Int)}
    (h : ∀ b ∈ bs, b.2 = kHole) (t : Nat) :
    (Row.putAll alt exist r bs t).getD kHole =
      if alt = false ∧ t ∈ bs.map Prod.fst then kHole else (r t).getD kHole := by
  induction bs generalizing exist r with
  | nil => simp [Row.putAll]
  | cons b bs ih =>
    rw [List.forall_mem_cons] at h
    rw [Row.putAll, ih h.2, put_apply, h.1, isPlainAscii_kHole, Bool.and_false]
    by_cases ht : t = b.1
    · cases alt with
      | false => simp [ht]
      | true =>
        subst ht
        cases r b.1 <;> simp
    · simp only [ht, if_false, Bool.false_eq_true, List.map_cons, List.mem_cons, false_or]

/-- Without `alt_is_meta`, what there was matters where nothing is written. -/
theorem Row.putAll_false_apply {exist exist' : Nat → Bool} {r r' : Row} {bs : List (Nat × Int)}
    {t : Nat} (h : t ∈ bs.map Prod.fst ∨ r t = r' t) :
    Row.putAll false exist r bs t = Row.putAll false exist' r' bs t := by
  induction bs generalizing exist exist' r r' with
  | nil => exact h.resolve_left List.not_mem_nil
  | cons b bs ih =>
    refine ih ?_
    rw [Row.put_false, Row.put_false]
    by_cases ht : t = b.1
    · exact .inr (by rw [ht, Function.update_self, Function.update_self])
    · rw [Function.update_of_ne ht, Function.update_of_ne ht]
      exact h.imp_left fun hmem => (List.mem_cons.mp hmem).resolve_left ht

theorem Row.putAll_false_of_not_mem {exist : Nat → Bool} {r : Row} {bs : List (Nat × Int)} {t : Nat}
    (h : t ∉ bs.map Prod.fst) : Row.putAll false exist r bs t = r t := by
  induction bs generalizing exist r with
  | nil => rfl
  | cons b bs ih =>
    rw [List.map_cons, List.mem_cons, not_or] at h
    rw [Row.putAll, ih h.2, Row.put_false, Function.update_of_ne h.1]

theorem Row.putAll_append (alt : Bool) (exist : Nat → Bool) (r : Row) (bs bs' : List (Nat × Int)) :
    ∃ exist', Row.putAll alt exist r (bs ++ bs') =
      Row.putAll alt exist' (Row.putAll alt exist r bs) bs' := by
  induction bs generalizing exist r with
  | nil => exact ⟨exist, rfl⟩
  | cons b bs ih => exact ih _ _

/-- The bindings of a line for its values. -/
def valueBindings (c : LkCtx) (vs : List Int) : List (Nat × Int) :=
  if c.keywords.keymaps then fillBindings vs (c.maps.take vs.length) 0 else vs.zipIdx.map Prod.swap

/-- What a line for key `n` does not overwrite: the mark of an earlier single-value line, a binding in a
map for which it has no value and, under `alt_is_meta`, one in a map for which its value is
`VoidSymbol`. -/
structure LeavesNothing (c : LkCtx) (n : Nat) (vs : List Int) : Prop where
  mark : c.keyConstant.get n = false
  row : ∀ t, c.row n t ≠ none →
    ∃ v, (t, v) ∈ lineBindings c vs ∧ (c.keywords.altIsMeta = true → v ≠ kHole)

theorem fillBindings_append (vs : List Int) (ms ms' : List Nat) (i : Nat) :
    fillBindings vs (ms ++ ms') i = fillBindings vs ms i ++ fillBindings vs ms' (i + ms.length) := by
  simp only [fillBindings, List.zipIdx_append, List.filter_append, List.map_append]

/-- The maps after those that get a value. -/
theorem fillBindings_rest {vs : List Int} {ms : List Nat} {i : Nat} (hi : vs.length ≤ i) :
    (∀ b ∈ fillBindings vs ms i, b.2 = kHole ∧ b.1 ∈ ms) ∧
      (vs.length = 1 → fillBindings vs ms i = []) := by
  refine ⟨fun b hb => ?_, fun hone => ?_⟩
  · refine ⟨?_, fst_mem_of_mem_fillBindings hb⟩
    simp only [fillBindings, List.mem_map, List.mem_filter] at hb
    obtain ⟨q, ⟨hq, -⟩, rfl⟩ := hb
    have hle := List.le_snd_of_mem_zipIdx hq
    exact List.getD_eq_default _ _ (by omega)
  · rw [fillBindings, List.map_eq_nil_iff, List.filter_eq_nil_iff]
    intro q hq
    have hle := List.le_snd_of_mem_zipIdx hq
    simp only [fillsMap, hone]
    simp
    omega

/-- A line writes its values and then holes. -/
theorem lineBindings_eq (c : LkCtx) (vs : List Int) : ∃ hs, lineBindings c vs = valueBindings c vs ++ hs ∧
    (∀ b ∈ hs, b.2 = kHole) ∧ (vs.length = 1 → hs = []) ∧
    ∀ b ∈ valueBindings c vs, b.1 ∉ hs.map Prod.fst := by
  unfold lineBindings valueBindings
  split
  · have hsplit := fillBindings_append vs (c.maps.take vs.length) (c.maps.drop vs.length) 0
    rw [List.take_append_drop] at hsplit
    by_cases hlen : c.maps.length ≤ vs.length
    · rw [List.drop_eq_nil_of_le hlen] at hsplit
      exact ⟨[], hsplit, by simp, fun _ => rfl, by simp⟩
    · rw [List.length_take_of_le (by omega), Nat.zero_add] at hsplit
      obtain ⟨hholes, hone⟩ := @fillBindings_rest vs (c.maps.drop vs.length) _ (le_refl vs.length)
      have hnodup : c.maps.Nodup := List.nodup_range.filter _
      refine ⟨_, hsplit, fun b hb => (hholes b hb).1, hone, fun b hb hrest => ?_⟩
      obtain ⟨b', hb', heq⟩ := List.mem_map.mp hrest
      exact List.disjoint_take_drop hnodup (le_refl vs.length) (fst_mem_of_mem_fillBindings hb)
        (heq ▸ (hholes b' hb').2)
  · exact ⟨[], (List.append_nil _).symm, by simp, fun _ => rfl, by simp⟩

theorem startLine_of_length_ne {c : LkCtx} {key : Nat} {vs : List Int} (h : vs.length ≠ 1) :
    c.startLine key vs = c := if_neg h

theorem startLine_maps (c : LkCtx) (key : Nat) (vs : List Int) :
    (c.startLine key vs).maps = c.maps := by
  unfold LkCtx.startLine
  split
  · unfold LkCtx.maps
    rw [(rowUpdate_unbind _ key).exist, (rowUpdate_unbind _ key).total]
    rfl
  · rfl

theorem lineBindings_startLine (c : LkCtx) (key : Nat) (vs : List Int) :
    lineBindings (c.startLine key vs) vs = lineBindings c vs := by
  unfold lineBindings
  rw [startLine_maps, startLine_keywords]

/-- The row of a key after a complete line. -/
theorem execStmt_line_row {c c' : LkCtx} {n : Nat} (hn : n < nrKeys) {vs : List Int}
    (h : (execStmt (.keycode n vs)).run c = .ok () c') :
    c'.row n = Row.putAll c.keywords.altIsMeta (lkMapExists c) ((c.startLine n vs).row n)
        (lineBindings c vs) ∧
      c'.keyConstant.get n = (c.startLine n vs).keyConstant.get n := by
  obtain ⟨c₁, h₁, hline⟩ := Result.seq_eq_ok.mp h
  simp only [rvalue1] at h₁
  split at h₁
  · cases h₁
  cases h₁
  obtain ⟨hn', -⟩ | ⟨-, hok, rfl⟩ := singleline_cases hline
  · exact absurd (show KeyInRange n from ⟨by omega, by omega⟩) hn'
  rw [Int.toNat_natCast] at hok ⊢
  refine ⟨?_, by rw [(SameSettings.putAll _ _ _).keyConstant]⟩
  rw [row_putAll _ _ _ hok.1, startLine_keywords, startLine_exist, lineBindings_startLine]

/-! ## Two keymaps -/

/-- The statements of a keymap other than the lines for key `n`. -/
def withoutLines (n : Nat) (ss : List Stmt) : List Stmt :=
  ss.filter fun s => s.line ≠ some (n : Int)

theorem foldl_setKeywords_withoutLines (n : Nat) (ss : List Stmt) (k : LkKeywords) :
    (withoutLines n ss).foldl Stmt.setKeywords k = ss.foldl Stmt.setKeywords k := by
  induction ss generalizing k with
  | nil => rfl
  | cons s ss ih =>
    by_cases hs : s.line = some (n : Int)
    · have hk : s.setKeywords k = k := by
        cases s <;> first | rfl | exact absurd hs nofun
      simp only [withoutLines, List.filter_cons, hs, ne_eq, not_true, decide_false,
        Bool.false_eq_true, ↓reduceIte, List.foldl_cons, hk]
      exact ih k
    · simp only [withoutLines, List.filter_cons, hs, ne_eq, not_false_eq_true, decide_true,
        ↓reduceIte, List.foldl_cons]
      exact ih _

/-- A complete line for `n` overrides whatever earlier lines for `n` did: two keymaps that differ
only in those, and end with the same maps and keywords, bind `n` alike. -/
def CompleteLineOverrides : Prop :=
  ∀ (flags : LkFlags) (charset : Nat) (T₁ T₁' T₂ : List Stmt) (n : Nat) (vs : List Int)
    (c c' d d' : LkCtx), n < nrKeys → vs ≠ [] →
    withoutLines n T₁ = withoutLines n T₁' → (∀ s ∈ T₂, s.line ≠ some (n : Int)) →
    (runStmts (T₁ ++ .keycode n vs :: T₂)).run (lkInit flags charset) = .ok () c →
    (runStmts (T₁' ++ .keycode n vs :: T₂)).run (lkInit flags charset) = .ok () c' →
    lkMapExists c = lkMapExists c' → c.keywords = c'.keywords →
    lkAddConstants.run c = .ok () d → lkAddConstants.run c' = .ok () d' →
    ∀ t, lkMapExists d t = true → lkGetKey d t n = lkGetKey d' t n

/-- When a line is read in the contexts `c` and `c'`, it leaves the same behind in both: the line has one
value, or there is nothing of key `n` that it does not overwrite; and the maps that its values are written
to, or that `alt_is_meta` adds to, are the same. -/
structure OverridesAt (c c' : LkCtx) (n : Nat) (vs : List Int) : Prop where
  maps : c.keywords.keymaps = true → c.maps.take vs.length = c'.maps.take vs.length
  metas : c.keywords.altIsMeta = true → ∀ b ∈ valueBindings c vs, isPlainAscii b.2 = true →
    b.1 ||| mAlt ≠ b.1 → lkMapExists c (b.1 ||| mAlt) = lkMapExists c' (b.1 ||| mAlt)
  clean : vs.length = 1 ∨ LeavesNothing c n vs ∧ LeavesNothing c' n vs

/-- Nothing that matters for key `n` is different: holes are as good as no bindings, if they are not to be
filled. -/
structure SameKey (c c' : LkCtx) (n : Nat) : Prop where
  mark : c.keyConstant.get n = c'.keyConstant.get n
  marked : c.keyConstant.get n = true → c.row n = c'.row n
  row : ∀ t, (c.row n t).getD kHole = (c'.row n t).getD kHole

section Leaves

variable {c : LkCtx} {n : Nat} {vs : List Int} {bs hs : List (Nat × Int)} (h : LeavesNothing c n vs)
  (hbs : lineBindings c vs = bs ++ hs)

include h hbs

/-- Under `alt_is_meta` a binding is overwritten by a value. -/
theorem LeavesNothing.value (hholes : ∀ b ∈ hs, b.2 = kHole) (halt : c.keywords.altIsMeta = true)
    {t : Nat} (ht : c.row n t ≠ none) : ∃ v, (t, v) ∈ bs ∧ v ≠ kHole := by
  obtain ⟨v, hv, hne⟩ := h.row t ht
  rw [hbs, List.mem_append] at hv
  exact ⟨v, hv.resolve_right fun hrest => hne halt (hholes _ hrest), hne halt⟩

/-- A map without a value has a hole, whether the line writes it or not. -/
theorem LeavesNothing.hole {exist : Nat → Bool} {t : Nat} (ht : t ∉ bs.map Prod.fst) :
    (if false = false ∧ t ∈ hs.map Prod.fst then kHole
      else (Row.putAll false exist (c.row n) bs t).getD kHole) = kHole := by
  split
  · rfl
  · rename_i hrest
    rw [Row.putAll_false_of_not_mem ht]
    have hnone : c.row n t = none := by
      by_contra hne
      obtain ⟨v, hv, -⟩ := h.row t hne
      rw [hbs, List.mem_append] at hv
      exact hv.elim (fun hv => ht (List.mem_map_of_mem hv)) fun hv =>
        hrest ⟨rfl, List.mem_map_of_mem hv⟩
    rw [hnone]
    rfl

end Leaves

section Same

variable {c c' : LkCtx} {n : Nat} {vs : List Int} (hkw : c.keywords = c'.keywords)
  (hov : OverridesAt c c' n vs)

include hkw hov

theorem OverridesAt.valueBindings_eq : valueBindings c vs = valueBindings c' vs := by
  unfold valueBindings
  rw [← hkw]
  split
  · rename_i hk
    rw [hov.maps hk]
  · rfl

/-- Under `alt_is_meta` the values of several make one row of both. -/
theorem OverridesAt.putAll_values (hlen : vs.length ≠ 1) (halt : c.keywords.altIsMeta = true) :
    Row.putAll true (lkMapExists c) (c.row n) (valueBindings c vs) =
      Row.putAll true (lkMapExists c') (c'.row n) (valueBindings c' vs) := by
  obtain ⟨hcl, hcl'⟩ := hov.clean.resolve_left hlen
  obtain ⟨hs, hbs, hholes, -, -⟩ := lineBindings_eq c vs
  obtain ⟨hs', hbs', hholes', -, -⟩ := lineBindings_eq c' vs
  rw [← hov.valueBindings_eq hkw] at hbs' ⊢
  refine Row.putAll_congr (fun _ => hov.metas halt) fun t => ?_
  by_cases hrow : c.row n t = none
  · by_cases hrow' : c'.row n t = none
    · exact .inl (hrow.trans hrow'.symm)
    · obtain ⟨v, hv, hne⟩ := hcl'.value hbs' hholes' (hkw ▸ halt) hrow'
      exact .inr ⟨v, hv, fun _ => hne⟩
  · obtain ⟨v, hv, hne⟩ := hcl.value hbs hholes halt hrow
    exact .inr ⟨v, hv, fun _ => hne⟩

end Same

/-- The line makes the same of the key in both keymaps. -/
theorem line_same {c c' e e' : LkCtx} {n : Nat} (hn : n < nrKeys) {vs : List Int}
    (hkw : c.keywords = c'.keywords) (hov : OverridesAt c c' n vs)
    (h : (execStmt (.keycode n vs)).run c = .ok () e)
    (h' : (execStmt (.keycode n vs)).run c' = .ok () e') : SameKey e e' n := by
  obtain ⟨hrow, hmark⟩ := execStmt_line_row hn h
  obtain ⟨hrow', hmark'⟩ := execStmt_line_row hn h'
  have hvalues := hov.valueBindings_eq hkw
  obtain ⟨hs, hbs, hholes, hone, hnot⟩ := lineBindings_eq c vs
  obtain ⟨hs', hbs', hholes', hone', hnot'⟩ := lineBindings_eq c' vs
  rw [← hkw] at hrow'
  by_cases hlen : vs.length = 1
  · -- both rows are empty before the value is written
    obtain ⟨v, rfl⟩ := List.length_eq_one_iff.mp hlen
    rw [startLine_row, hbs, hone rfl, List.append_nil] at hrow
    rw [startLine_row, hbs', hone' rfl, List.append_nil, ← hvalues] at hrow'
    have hsame : e.row n = e'.row n := by
      rw [hrow, hrow']
      exact Row.putAll_congr hov.metas fun _ => .inl rfl
    refine ⟨?_, fun _ => hsame, fun t => by rw [hsame]⟩
    rw [hmark, hmark', startLine_keyConstant, startLine_keyConstant]
  · obtain ⟨hcl, hcl'⟩ := hov.clean.resolve_left hlen
    rw [startLine_of_length_ne hlen] at hrow hmark
    rw [startLine_of_length_ne hlen] at hrow' hmark'
    rw [hcl.mark] at hmark
    rw [hcl'.mark] at hmark'
    refine ⟨hmark.trans hmark'.symm, fun hno => absurd (hmark.symm.trans hno) nofun, fun t => ?_⟩
    obtain ⟨exist, happ⟩ := Row.putAll_append c.keywords.altIsMeta (lkMapExists c) (c.row n)
      (valueBindings c vs) hs
    obtain ⟨exist', happ'⟩ := Row.putAll_append c.keywords.altIsMeta (lkMapExists c') (c'.row n)
      (valueBindings c' vs) hs'
    rw [hrow, hrow', hbs, hbs', happ, happ', Row.putAll_holes hholes, Row.putAll_holes hholes']
    cases halt : c.keywords.altIsMeta with
    | true =>
      have hno (p : Prop) : ¬ (true = false ∧ p) := fun h => Bool.noConfusion h.1
      rw [if_neg (hno _), if_neg (hno _), hov.putAll_values hkw hlen halt]
    | false =>
      by_cases hvalue : t ∈ (valueBindings c vs).map Prod.fst
      · rw [← hvalues] at hnot' ⊢
        obtain ⟨b, hb, rfl⟩ := List.mem_map.mp hvalue
        rw [if_neg fun hno => hnot b hb hno.2, if_neg fun hno => hnot' b hb hno.2,
          Row.putAll_false_apply (.inl hvalue)]
      · rw [hcl.hole hbs hvalue, hcl'.hole hbs' (hvalues ▸ hvalue)]

/-- Contexts that agree on the maps, the keywords and a key agree on the key after
`lk_add_constants`. -/
theorem constantRow_same {c c' : LkCtx} {n : Nat} (ht : MapsTight c) (ht' : MapsTight c')
    (hex : lkMapExists c = lkMapExists c') (hkw : c.keywords = c'.keywords) (h : SameKey c c' n)
    (t : Nat) : (c.constantRow n t).getD kHole = (c'.constantRow n t).getD kHole := by
  unfold LkCtx.constantRow
  rw [← h.mark]
  split
  · rename_i hmark
    have hrow := h.marked hmark
    have hm := constantMap_eq_of_exist ht ht' hkw hex
    have hget : lkGetKey c (constantMap c) n = lkGetKey c' (constantMap c') n := by
      rw [← hm]
      by_cases hx : lkMapExists c (constantMap c) = true
      · rw [lkGetKey_eq_row hx, lkGetKey_eq_row (hex ▸ hx), hrow]
      · rw [lkGetKey_of_not_exists (Bool.eq_false_iff.mpr hx),
          lkGetKey_of_not_exists (hex ▸ Bool.eq_false_iff.mpr hx)]
    rw [hget, hrow, hex, hkw, total_eq_of_exist ht ht' hex]
  · exact h.row t

/-- Two keymaps that differ only in lines for `n` before a complete line for `n`, and end with the
same maps and keywords, bind `n` alike, provided the line overrides the earlier ones where it is
read. -/
theorem complete_line_overrides (flags : LkFlags) (charset : Nat) {T₁ T₁' T₂ : List Stmt} {n : Nat}
    (hn : n < nrKeys) {vs : List Int} {c₁ c₁' c c' : LkCtx}
    (hsame : withoutLines n T₁ = withoutLines n T₁') (hlast : ∀ s ∈ T₂, s.line ≠ some (n : Int))
    (h₁ : (runStmts T₁).run (lkInit flags charset) = .ok () c₁)
    (h₁' : (runStmts T₁').run (lkInit flags charset) = .ok () c₁')
    (hov : OverridesAt c₁ c₁' n vs)
    (h : (runStmts (.keycode n vs :: T₂)).run c₁ = .ok () c)
    (h' : (runStmts (.keycode n vs :: T₂)).run c₁' = .ok () c')
    (hex : lkMapExists c = lkMapExists c') (hkw : c.keywords = c'.keywords) :
    ∃ d d', lkAddConstants.run c = .ok () d ∧ lkAddConstants.run c' = .ok () d' ∧
      ∀ t, lkGetKey d t n = lkGetKey d' t n := by
  obtain ⟨c₂, h₂, h₃⟩ := runStmts_cons_eq_ok.mp h
  obtain ⟨c₂', h₂', h₃'⟩ := runStmts_cons_eq_ok.mp h'
  have hinit := mapsTight_lkInit flags charset
  have hready := ready_lkInit flags charset
  have ht₁ := runStmts_tight h₁ hinit
  have ht₁' := runStmts_tight h₁' hinit
  have ht := runStmts_tight h ht₁
  have ht' := runStmts_tight h' ht₁'
  have hkw₁ : c₁.keywords = c₁'.keywords := by
    rw [runStmts_keywords h₁, runStmts_keywords h₁', ← foldl_setKeywords_withoutLines n T₁, hsame,
      foldl_setKeywords_withoutLines]
  -- the line makes the same of both, and the rest of the keymap leaves it alone
  have hsame₂ := line_same hn hkw₁ hov h₂ h₂'
  obtain ⟨hrow, hmark⟩ := runStmts_frame hlast h₃
  obtain ⟨hrow', hmark'⟩ := runStmts_frame hlast h₃'
  have hkey : SameKey c c' n := by
    constructor
    · rw [hmark, hmark', hsame₂.mark]
    · rw [hmark, hrow, hrow']
      exact hsame₂.marked
    · rw [hrow, hrow']
      exact hsame₂.row
  obtain ⟨d, hd, hu⟩ := lkAddConstants_run
    (runStmts_ready h (runStmts_ready h₁ hready)).constantsReady
  obtain ⟨d', hd', hu'⟩ := lkAddConstants_run
    (runStmts_ready h' (runStmts_ready h₁' hready)).constantsReady
  have hdex : lkMapExists d = lkMapExists d' := by rw [hu.exist, hu'.exist, hex]
  refine ⟨d, d', hd, hd', fun t => ?_⟩
  by_cases hx : lkMapExists d t = true
  · rw [lkGetKey_eq_row hx, lkGetKey_eq_row (hdex ▸ hx), hu.row, hu'.row,
      constantRow_same ht ht' hex hkw hkey t]
  · rw [lkGetKey_of_not_exists (Bool.eq_false_iff.mpr hx),
      lkGetKey_of_not_exists (hdex ▸ Bool.eq_false_iff.mpr hx)]

/-- Bindings in the first two maps are overwritten by a line of two values. -/
theorem leavesNothing_pair {c : LkCtx} (hk : c.keywords = { altIsMeta := true })
    (hmark : c.keyConstant.get 30 = false) (hmaps : ∀ t, lkMapExists c t = true → t < 2) :
    LeavesNothing c 30 [0x63, 0x64] := by
  refine ⟨hmark, fun t ht => ?_⟩
  have hlt : t < 2 := by
    refine hmaps t (Bool.not_eq_false _ ▸ fun hno => ?_)
    exact ht (row_eq_none_of_not_exists hno 30)
  rw [lineBindings, hk, if_neg Bool.false_ne_true]
  obtain rfl | rfl : t = 0 ∨ t = 1 := by omega
  · exact ⟨0x63, by decide, fun _ => by decide⟩
  · exact ⟨0x64, by decide, fun _ => by decide⟩

/-- A line of one value, and under `alt_is_meta` one of two values, after a line of two values and after no
line at all. -/
theorem complete_line_overrides_lines :
    (∃ c c' d d',
      (runStmts [.keycode 30 [0x61, 0x62], .keycode 30 [0x63], .keycode 31 [0x64, 0x65]]).run lkInit =
        .ok () c ∧
      (runStmts [.keycode 30 [0x63], .keycode 31 [0x64, 0x65]]).run lkInit = .ok () c' ∧
      lkAddConstants.run c = .ok () d ∧ lkAddConstants.run c' = .ok () d' ∧
      ∀ t, lkGetKey d t 30 = lkGetKey d' t 30) ∧
    ∃ c c' d d',
      (runStmts [.altIsMeta, .keycode 30 [0x61, 0x62], .keycode 30 [0x63, 0x64],
        .modified [.alt] 31 0x65]).run lkInit = .ok () c ∧
      (runStmts [.altIsMeta, .keycode 30 [0x63, 0x64], .modified [.alt] 31 0x65]).run lkInit =
        .ok () c' ∧
      lkAddConstants.run c = .ok () d ∧ lkAddConstants.run c' = .ok () d' ∧
      ∀ t, lkGetKey d t 30 = lkGetKey d' t 30 := by
  constructor
  · obtain ⟨c₁, h₁, c, h, hc⟩ : ∃ c₁, (runStmts [.keycode 30 [0x61, 0x62]]).run lkInit = .ok () c₁ ∧
        ∃ c, (runStmts [.keycode 30 [0x63], .keycode 31 [0x64, 0x65]]).run c₁ = .ok () c ∧
          c.maps = [0, 1] ∧ c.keywords = {} ∧ c₁.keywords = {} :=
      ⟨_, rfl, _, rfl, by decide, rfl, rfl⟩
    obtain ⟨c', h', hc'⟩ : ∃ c', (runStmts [.keycode 30 [0x63], .keycode 31 [0x64, 0x65]]).run lkInit =
        .ok () c' ∧ c'.maps = [0, 1] ∧ c'.keywords = {} :=
      ⟨_, rfl, by decide, rfl⟩
    have hov : OverridesAt c₁ lkInit 30 [0x63] :=
      ⟨fun hk => by simp [hc.2.2] at hk, fun hk => by simp [hc.2.2] at hk, .inl rfl⟩
    have hsame : withoutLines 30 [Stmt.keycode 30 [0x61, 0x62]] = withoutLines 30 [] := rfl
    obtain ⟨d, d', hd, hd', hget⟩ := complete_line_overrides {} 0 (n := 30) (by decide) hsame
      (by decide) h₁ rfl hov h h' (exist_eq_of_maps (hc.1.trans hc'.1.symm))
      (hc.2.1.trans hc'.2.symm)
    exact ⟨c, c', d, d', runStmts_append_eq_ok.mpr ⟨c₁, h₁, h⟩, h', hd, hd', hget⟩
  · obtain ⟨c₁, h₁, c, h, hc, hk₁, hmark₁, hmaps₁⟩ : ∃ c₁,
        (runStmts [.altIsMeta, .keycode 30 [0x61, 0x62]]).run lkInit = .ok () c₁ ∧
        ∃ c, (runStmts [.keycode 30 [0x63, 0x64], .modified [.alt] 31 0x65]).run c₁ = .ok () c ∧
          (c.maps = [0, 1, 8] ∧ c.keywords = { altIsMeta := true }) ∧
          c₁.keywords = { altIsMeta := true } ∧ c₁.keyConstant.get 30 = false ∧ c₁.maps = [0, 1] :=
      ⟨_, rfl, _, rfl, ⟨by decide, rfl⟩, rfl, by decide, by decide⟩
    obtain ⟨c₁', h₁', c', h', hc', hk₁', hmark₁', hmaps₁'⟩ : ∃ c₁',
        (runStmts [.altIsMeta]).run lkInit = .ok () c₁' ∧
        ∃ c', (runStmts [.keycode 30 [0x63, 0x64], .modified [.alt] 31 0x65]).run c₁' = .ok () c' ∧
          (c'.maps = [0, 1, 8] ∧ c'.keywords = { altIsMeta := true }) ∧
          c₁'.keywords = { altIsMeta := true } ∧ c₁'.keyConstant.get 30 = false ∧ c₁'.maps = [] :=
      ⟨_, rfl, _, rfl, ⟨by decide, rfl⟩, rfl, by decide, by decide⟩
    have hmetas (t : Nat) (ht : t = 8 ∨ t = 9) : lkMapExists c₁ t = lkMapExists c₁' t := by
      rw [Bool.eq_iff_iff, ← mem_maps, ← mem_maps, hmaps₁, hmaps₁']
      rcases ht with rfl | rfl <;> decide
    have hov : OverridesAt c₁ c₁' 30 [0x63, 0x64] := by
      refine ⟨fun hk => ?_, fun _ => ?_, .inr ⟨leavesNothing_pair hk₁ hmark₁ fun t ht => ?_,
        leavesNothing_pair hk₁' hmark₁' fun t ht => ?_⟩⟩
      · rw [hk₁] at hk
        cases hk
      · rw [valueBindings, hk₁, if_neg Bool.false_ne_true]
        intro b hb _ _
        rcases List.mem_pair.mp hb with rfl | rfl
        · exact hmetas 8 (.inl rfl)
        · exact hmetas 9 (.inr rfl)
      · rw [← mem_maps, hmaps₁] at ht
        rcases List.mem_pair.mp ht with rfl | rfl <;> decide
      · rw [← mem_maps, hmaps₁'] at ht
        cases ht
    have hsame : withoutLines 30 [.altIsMeta, .keycode 30 [0x61, 0x62]] =
        withoutLines 30 [.altIsMeta] := rfl
    obtain ⟨d, d', hd, hd', hget⟩ := complete_line_overrides {} 0 (n := 30) (by decide) hsame
      (by decide) h₁ h₁' hov h h' (exist_eq_of_maps (hc.1.trans hc'.1.symm))
      (hc.2.trans hc'.2.symm)
    exact ⟨c, c', d, d', runStmts_append_eq_ok.mpr ⟨c₁, h₁, h⟩,
      runStmts_append_eq_ok.mpr ⟨c₁', h₁', h'⟩, hd, hd', hget⟩

/-- `altgr keycode 30 = x` survives the complete line `keycode 30 = a b`. -/
theorem not_completeLineOverrides : ¬ CompleteLineOverrides := by
  intro h
  have h2 := h {} 0 [.modified [.altgr] 30 0x78] [] [.modified [.altgr] 31 0x79] 30 [0x61, 0x62]
    _ _ _ _ (by decide) (by decide) rfl (by decide) rfl rfl (exist_eq_of_maps (by decide)) rfl rfl
    rfl 2 rfl
  exact absurd h2 (by decide)

end Kbd.Keymap
