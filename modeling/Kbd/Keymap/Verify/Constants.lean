import Kbd.Keymap.Verify.Kmap

/-!
# `lk_add_constants` on rows

`Row.constant` is the abstract `do_constant_key`: it spreads a single value over the tables of a
row that are still free. `lkAddConstants_run` says that `lk_add_constants` applies it to the row of
every key with a mark, and does nothing else.
-/

namespace Kbd.Keymap

open Kbd.Lib

/-! ## Spreading a value over a row -/

/-- A code that `do_constant_key` treats as a letter. -/
def isLetterCode (key : Int) : Bool :=
  (ktyp key = ktLatin || ktyp key = ktLetter) && isAsciiLetter (kval key)

namespace Row

variable (exist : Nat → Bool) (alt : Bool)

/-- One round of `do_constant_key`: bind table `j` to `val` unless it is bound already. -/
def fill (force : Bool) (val : Nat → Int) (r : Row) (j : Nat) : Row :=
  if exist j && (force && j = 0 || (r j).isNone) then r.put exist alt j (val j) else r

/-- `do_constant_key` on a row. -/
def constant (total : Nat) (key : Int) (r : Row) : Row :=
  if isLetterCode key then
    (List.range total).foldl
      (fill exist alt true fun j => (letterDefs (kval key)).getD (j % 16) 0) r
  else (List.range' 1 (total - 1)).foldl (fill exist alt false fun _ => key) r

end Row

/-- `ctx'` differs from `ctx` in the row of key `i` only, which `f` gives. -/
structure RowUpdate (i : Nat) (f : Row → Row) (ctx ctx' : LkCtx) : Prop where
  settings : SameSettings ctx ctx'
  exist : lkMapExists ctx' = lkMapExists ctx
  total : ctx'.keymap.total = ctx.keymap.total
  row : ctx'.row i = f (ctx.row i)
  other : ∀ i', i' ≠ i → ctx'.row i' = ctx.row i'

namespace RowUpdate

theorem refl (i : Nat) (ctx : LkCtx) : RowUpdate i id ctx ctx :=
  ⟨.refl ctx, rfl, rfl, rfl, fun _ _ => rfl⟩

theorem trans {i : Nat} {f g : Row → Row} {a b c : LkCtx} (h : RowUpdate i f a b)
    (h' : RowUpdate i g b c) : RowUpdate i (g ∘ f) a c where
  settings := h.settings.trans h'.settings
  exist := h'.exist.trans h.exist
  total := h'.total.trans h.total
  row := by rw [h'.row, h.row]; rfl
  other i' hi := (h'.other i' hi).trans (h.other i' hi)

/-- `lk_add_key` on a map that exists. -/
theorem putKey {ctx : LkCtx} {t : Nat} (h : lkMapExists ctx t = true) (i : Nat) {k : Int}
    (hk : k ≠ codeForUnknownKsym) :
    RowUpdate i (fun r => r.put (lkMapExists ctx) ctx.keywords.altIsMeta t k) ctx
      (ctx.putKey t i k) where
  settings := .putKey ctx t i k
  exist := by
    funext t'
    rw [lkMapExists_putKey]
    by_cases ht : t' = t
    · simp [ht, h]
    · simp [ht]
  total := by
    rw [total_putKey]
    have := lkMapExists_lt h
    omega
  row := row_putKey ctx t i hk
  other _ hi := row_putKey_ne ctx t k hi

end RowUpdate

/-- A loop of `lk_add_key` calls on existing maps folds `Row.fill`. -/
theorem forM_fill {i : Nat} {force : Bool} {val : Nat → Int} {js : List Nat}
    (hval : ∀ j, val j ≠ codeForUnknownKsym) {f : Nat → Lk PUnit}
    (hf : ∀ j ctx, (f j).run ctx =
      if lkMapExists ctx j && (force && j = 0 || !lkKeyExists ctx j i) then
        (lkAddKey j i (val j)).run ctx
      else .ok () ctx) (ctx : LkCtx) :
    ∃ ctx', (forM js f).run ctx = .ok () ctx' ∧
      RowUpdate i (fun r => js.foldl
        (Row.fill (lkMapExists ctx) ctx.keywords.altIsMeta force val) r) ctx ctx' := by
  induction js generalizing ctx with
  | nil => exact ⟨ctx, rfl, .refl i ctx⟩
  | cons j js ih =>
    have hround : ∃ c, (f j).run ctx = .ok () c ∧
        RowUpdate i (fun r => Row.fill (lkMapExists ctx) ctx.keywords.altIsMeta force val r j)
          ctx c := by
      rw [hf]
      have hiff : (ctx.row i j).isNone = !lkKeyExists ctx j i := by
        rw [← isSome_row, Option.not_isSome]
      by_cases hc : (lkMapExists ctx j && (force && j = 0 || !lkKeyExists ctx j i)) = true
      · have hm : lkMapExists ctx j = true := (Bool.and_eq_true _ _ ▸ hc).1
        refine ⟨ctx.putKey j i (val j), ?_, ?_⟩
        · rw [if_pos hc, lkAddKey_eq_ok]
          exact ⟨hval j, fun _ => hm, rfl⟩
        · have h := RowUpdate.putKey hm i (hval j)
          refine { h with row := ?_ }
          rw [h.row]
          simp only [Row.fill, hiff, hc, ↓reduceIte]
      · refine ⟨ctx, if_neg hc, { RowUpdate.refl i ctx with row := ?_ }⟩
        simp only [Row.fill, hiff, hc, Bool.false_eq_true, ↓reduceIte]
    obtain ⟨c, hc, hu⟩ := hround
    obtain ⟨c', hc', hu'⟩ := ih c
    refine ⟨c', forM_cons_eq_ok.mpr ⟨c, hc, hc'⟩, ?_⟩
    rw [hu.exist, hu.settings.keywords] at hu'
    exact hu.trans hu'

/-! ## `do_constant_key` -/

/-- Every entry of `defs` is a code. -/
theorem letterDefs_range {val : Int} (h : isAsciiLetter val = true) (i : Nat) :
    0 ≤ (letterDefs val).getD i 0 ∧ (letterDefs val).getD i 0 < 0x10000 := by
  have hall : ∀ n < 123, ∀ d ∈ letterDefs (n : Nat), 0 ≤ d ∧ d < 0x10000 := by decide +kernel
  have hv : 65 ≤ val ∧ val ≤ 122 := by
    simp only [isAsciiLetter, Bool.or_eq_true, Bool.and_eq_true, decide_eq_true_eq] at h
    omega
  obtain ⟨n, rfl⟩ := Int.eq_ofNat_of_zero_le (show 0 ≤ val by omega)
  by_cases hi : i < (letterDefs n).length
  · rw [List.getD_eq_getElem _ _ hi]
    exact hall n (by omega) _ (List.getElem_mem hi)
  · rw [List.getD_eq_default _ _ (Nat.not_lt.mp hi)]
    exact ⟨by decide, by decide⟩

theorem letterDefs_ne {val : Int} (h : isAsciiLetter val = true) (j : Nat) :
    (letterDefs val).getD (j % 16) 0 ≠ codeForUnknownKsym := by
  have hrange := letterDefs_range h (j % 16)
  simp only [codeForUnknownKsym]
  omega

theorem doConstantKey_run (ctx : LkCtx) (i : Nat) {key : Int} (hkey : key ≠ codeForUnknownKsym) :
    ∃ ctx', (doConstantKey i key).run ctx = .ok () ctx' ∧
      RowUpdate i (Row.constant (lkMapExists ctx) ctx.keywords.altIsMeta ctx.keymap.total key)
        ctx ctx' := by
  simp only [doConstantKey, EStateM.run_bind, EStateM.run_get]
  by_cases hl : isLetterCode key = true
  · have hval := letterDefs_ne (show isAsciiLetter (kval key) = true from
      (Bool.and_eq_true _ _ ▸ hl).2)
    have hcond : ((decide (ktyp key = ktLatin) || decide (ktyp key = ktLetter)) &&
        isAsciiLetter (kval key)) = true := hl
    have hrow : Row.constant (lkMapExists ctx) ctx.keywords.altIsMeta ctx.keymap.total key =
        fun r => (List.range ctx.keymap.total).foldl (Row.fill (lkMapExists ctx)
          ctx.keywords.altIsMeta true fun j => (letterDefs (kval key)).getD (j % 16) 0) r := by
      funext r
      rw [Row.constant, if_pos hl]
    simp only [hcond, ↓reduceIte, List.forM_eq_forM, hrow]
    refine forM_fill hval (fun j c => ?_) ctx
    by_cases hm : lkMapExists c j = true
    · rcases Nat.eq_zero_or_pos j with rfl | hj
      · simp [hm]
      · by_cases hs : lkKeyExists c j i = true
        · simp [hm, hs, hj, hj.ne']
        · simp [hm, hs]
    · simp [hm]
  · have hcond : ¬ ((decide (ktyp key = ktLatin) || decide (ktyp key = ktLetter)) &&
        isAsciiLetter (kval key)) = true := hl
    have hrow : Row.constant (lkMapExists ctx) ctx.keywords.altIsMeta ctx.keymap.total key =
        fun r => (List.range' 1 (ctx.keymap.total - 1)).foldl (Row.fill (lkMapExists ctx)
          ctx.keywords.altIsMeta false fun _ => key) r := by
      funext r
      rw [Row.constant, if_neg hl]
    simp only [hcond, Bool.false_eq_true, ↓reduceIte, List.forM_eq_forM, hrow]
    refine forM_fill (fun _ => hkey) (fun j c => ?_) ctx
    by_cases hm : lkMapExists c j = true
    · by_cases hs : lkKeyExists c j i = true
      · simp [hm, hs]
      · simp [hm, hs]
    · simp [hm]

/-! ## `lk_add_constants` -/

/-- The row of key `i` after `lk_add_constants`. -/
def LkCtx.constantRow (ctx : LkCtx) (i : Nat) : Row :=
  if ctx.keyConstant.get i then
    (ctx.row i).constant (lkMapExists ctx) ctx.keywords.altIsMeta ctx.keymap.total
      (lkGetKey ctx (constantMap ctx) i)
  else ctx.row i

theorem lkGetKey_ne {ctx : LkCtx} {t : Nat} (h : lkMapExists ctx t = true) (i : Nat) :
    lkGetKey ctx t i ≠ codeForUnknownKsym := by
  unfold lkGetKey
  unfold lkMapExists at h
  cases hm : ctx.keymap.get t with
  | none => simp [hm] at h
  | some map =>
    simp only [kHole, codeForUnknownKsym]
    split <;> omega

/-- `ctx'` is `ctx` with some rows replaced. -/
structure RowsUpdate (f : Nat → Row) (ctx ctx' : LkCtx) : Prop where
  settings : SameSettings ctx ctx'
  exist : lkMapExists ctx' = lkMapExists ctx
  total : ctx'.keymap.total = ctx.keymap.total
  row : ctx'.row = f

/-- The loop of `lk_add_constants` over the keys `is`, for a map `r0` that exists whenever a mark is
set. Each round changes the row of its own key only, so the value it spreads is the one that was
there at the start. -/
theorem forM_constants {r0 : Nat} {is : List Nat} (hnd : is.Nodup) (ctx : LkCtx)
    (h0 : ∀ i ∈ is, ctx.keyConstant.get i = true → lkMapExists ctx r0 = true) :
    ∃ ctx', (forM is (addConstant r0)).run ctx = .ok () ctx' ∧
      RowsUpdate (fun i => if i ∈ is ∧ ctx.keyConstant.get i = true then
        (ctx.row i).constant (lkMapExists ctx) ctx.keywords.altIsMeta ctx.keymap.total
          (lkGetKey ctx r0 i) else ctx.row i) ctx ctx' := by
  induction is generalizing ctx with
  | nil => exact ⟨ctx, rfl, .refl ctx, rfl, rfl, by simp⟩
  | cons i is ih =>
    obtain ⟨hi, hnd⟩ := List.nodup_cons.mp hnd
    by_cases hc : ctx.keyConstant.get i = true
    · have hm : lkMapExists ctx r0 = true := h0 i List.mem_cons_self hc
      obtain ⟨c, hrun, hu⟩ := doConstantKey_run ctx i (lkGetKey_ne hm i)
      have hkc : c.keyConstant = ctx.keyConstant := hu.settings.keyConstant
      obtain ⟨c', hrun', hu'⟩ := ih hnd c fun i' _ _ => by rw [hu.exist]; exact hm
      refine ⟨c', forM_cons_eq_ok.mpr ⟨c, by simp [addConstant, hc, hm, hrun], hrun'⟩,
        hu.settings.trans hu'.settings, hu'.exist.trans hu.exist, hu'.total.trans hu.total, ?_⟩
      rw [hu'.row]
      funext i'
      rw [hkc, hu.exist, hu.settings.keywords, hu.total]
      by_cases hii : i' = i
      · subst hii
        rw [if_neg (fun h => hi h.1), if_pos ⟨List.mem_cons_self, hc⟩, hu.row]
      · have hget : lkGetKey c r0 i' = lkGetKey ctx r0 i' := by
          rw [lkGetKey_eq_row hm, lkGetKey_eq_row (by rw [hu.exist]; exact hm), hu.other i' hii]
        rw [hget, hu.other i' hii]
        simp only [List.mem_cons, hii, false_or]
    · obtain ⟨c', hrun', hu'⟩ := ih hnd ctx fun i' hi' => h0 i' (List.mem_cons_of_mem i hi')
      refine ⟨c', forM_cons_eq_ok.mpr ⟨ctx, by simp [addConstant, hc], hrun'⟩, hu'.settings, hu'.exist,
        hu'.total, ?_⟩
      rw [hu'.row]
      funext i'
      by_cases hii : i' = i
      · subst hii
        simp [hc, hi]
      · simp only [List.mem_cons, hii, false_or]

/-- A context on which `lk_add_constants` finds the map it reads from. -/
def ConstantsReady (ctx : LkCtx) : Prop :=
  ∀ i, ctx.keyConstant.get i = true → lkMapExists ctx (constantMap ctx) = true

theorem lkAddConstants_eq (ctx : LkCtx) :
    lkAddConstants.run ctx =
      (forM (List.range ctx.keyConstant.total) (addConstant (constantMap ctx))).run ctx :=
  Result.bind_of_ok (EStateM.run_get ctx)

/-- `lk_add_constants` spreads every marked key, and changes nothing else. -/
theorem lkAddConstants_run {ctx : LkCtx} (h : ConstantsReady ctx) :
    ∃ ctx', lkAddConstants.run ctx = .ok () ctx' ∧ RowsUpdate ctx.constantRow ctx ctx' := by
  obtain ⟨ctx', hrun, hu⟩ := forM_constants (List.nodup_range (n := ctx.keyConstant.total)) ctx
    fun i _ => h i
  refine ⟨ctx', (lkAddConstants_eq ctx).trans hrun, { hu with row := ?_ }⟩
  rw [hu.row]
  funext i
  unfold LkCtx.constantRow
  by_cases hc : ctx.keyConstant.get i = true
  · have hlt : i < ctx.keyConstant.total :=
      LkArray.lt_total_of_get_ne (by simp [hc])
    simp [hc, hlt]
  · simp [hc]

/-- Without the map to read from, the loop stops at the first mark. -/
theorem forM_constants_of_missing {r0 : Nat} {is : List Nat} {ctx ctx' : LkCtx}
    (h0 : lkMapExists ctx r0 = false) (h : (forM is (addConstant r0)).run ctx = .ok () ctx') :
    ∀ i ∈ is, ctx.keyConstant.get i = false := by
  induction is with
  | nil => simp
  | cons i is ih =>
    obtain ⟨c, hc, hrest⟩ := forM_cons_eq_ok.mp h
    cases hk : ctx.keyConstant.get i with
    | true => simp [addConstant, hk, h0] at hc
    | false =>
      have hcc : ctx = c := by simpa [addConstant, hk] using hc
      subst hcc
      simpa [hk] using ih hrest

/-- `lk_add_constants` succeeds only where it finds its map. -/
theorem constantsReady_of_run {ctx ctx' : LkCtx} (h : lkAddConstants.run ctx = .ok () ctx') :
    ConstantsReady ctx := by
  intro i hi
  by_contra hm
  rw [lkAddConstants_eq] at h
  have hlt : i < ctx.keyConstant.total :=
    LkArray.lt_total_of_get_ne (by simp [hi])
  have := forM_constants_of_missing (Bool.eq_false_iff.mpr hm) h i (List.mem_range.mpr hlt)
  rw [hi] at this
  cases this

/-- A successful `lk_add_constants` changes rows only. -/
theorem rowsUpdate_of_run {ctx ctx' : LkCtx} (h : lkAddConstants.run ctx = .ok () ctx') :
    RowsUpdate ctx.constantRow ctx ctx' := by
  obtain ⟨c, hc, hu⟩ := lkAddConstants_run (constantsReady_of_run h)
  rw [hc] at h
  cases h
  exact hu

end Kbd.Keymap
