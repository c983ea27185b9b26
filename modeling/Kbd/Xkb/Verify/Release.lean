import Kbd.Xkb.Release
import Kbd.Keymap.Verify.AddKey

/-!
# Modifiers can be released

The first loop over the tables is a search for the one code that a row holds besides holes; the
second fills the free cells of that row. What a call does is therefore stated on rows: `Fills` gives
the row of each key afterwards.
-/

namespace Kbd.Xkb

open Kbd.Keymap Kbd.Lib

/-- The bindings of a key in the tables of the kernel, holes apart, are all `code`, and `code` is a
modifier. -/
structure PureModifier (ctx : LkCtx) (keycode : Nat) (code : Int) : Prop where
  shift : ktyp code = ktShift
  bound : ∃ t < maxNrKeymaps, lkKeyExists ctx t keycode = true ∧ lkGetKey ctx t keycode = code
  only : ∀ t < maxNrKeymaps, lkKeyExists ctx t keycode = true →
    lkGetKey ctx t keycode = kHole ∨ lkGetKey ctx t keycode = code

/-- What the pass does to a context. -/
structure FilledFrom (ctx ctx' : LkCtx) : Prop where
  settings : SameSettings ctx ctx'
  maps : ∀ t, lkMapExists ctx' t = lkMapExists ctx t
  filled : ∀ keycode < nrKeys, ∀ code, PureModifier ctx keycode code → ∀ t < maxNrKeymaps,
    lkMapExists ctx t = true → lkKeyExists ctx t keycode = false →
      lkKeyExists ctx' t keycode = true ∧ lkGetKey ctx' t keycode = code
  kept : ∀ t keycode, lkKeyExists ctx t keycode = true →
    lkKeyExists ctx' t keycode = true ∧ lkGetKey ctx' t keycode = lkGetKey ctx t keycode
  other : ∀ t keycode, (¬ ∃ code, keycode < nrKeys ∧ PureModifier ctx keycode code) →
    lkKeyExists ctx' t keycode = lkKeyExists ctx t keycode ∧
      lkGetKey ctx' t keycode = lkGetKey ctx t keycode
  above : ∀ t keycode, maxNrKeymaps ≤ t →
    lkKeyExists ctx' t keycode = lkKeyExists ctx t keycode ∧
      lkGetKey ctx' t keycode = lkGetKey ctx t keycode

/-! ## The first loop -/

section Search

variable {ctx : LkCtx} {keycode : Nat}

theorem kHole_not_shift {code : Int} (h : ktyp code = ktShift) : code ≠ kHole := by
  rintro rfl
  revert h
  decide

/-- One round of the loop, on the row of the key. -/
theorem modifierLoop_cons (t : Nat) (ts : List Nat) (m : Modifier) :
    modifierLoop ctx keycode (t :: ts) m =
      match ctx.row keycode t with
      | none => modifierLoop ctx keycode ts m
      | some code =>
        if code = kHole then modifierLoop ctx keycode ts m
        else if !m.seen then modifierLoop ctx keycode ts ⟨code, true⟩
        else if code ≠ m.modifierCode then { m with seen := false }
        else modifierLoop ctx keycode ts m := by
  rw [modifierLoop]
  by_cases hk : lkKeyExists ctx t keycode = true
  · have hm : lkMapExists ctx t = true := by
      by_contra hm
      have hrow := row_eq_none_of_not_exists (Bool.eq_false_iff.mpr hm) keycode
      rw [← isSome_row, hrow] at hk
      cases hk
    simp [LkCtx.row, hk, hm]
  · simp [LkCtx.row, hk]

/-- Once a code is known, the loop checks that there is no other. -/
theorem modifierLoop_seen {ts : List Nat} {c code : Int} :
    modifierLoop ctx keycode ts ⟨c, true⟩ = ⟨code, true⟩ ↔
      c = code ∧ ∀ t ∈ ts, ∀ v, ctx.row keycode t = some v → v = kHole ∨ v = code := by
  induction ts with
  | nil => simp [modifierLoop]
  | cons t ts ih =>
    rw [modifierLoop_cons, List.forall_mem_cons]
    cases hrow : ctx.row keycode t with
    | none => simp [ih]
    | some v =>
      by_cases hh : v = kHole
      · simp [hh, ih]
      · by_cases hc : v = c
        · subst hc
          simp only [hh, Bool.not_true, Bool.false_eq_true, ne_eq, not_true_eq_false,
            ↓reduceIte, ih, Option.some.injEq, forall_eq', false_or]
          constructor
          · rintro ⟨hv, h⟩
            exact ⟨hv, hv, h⟩
          · rintro ⟨hv, -, h⟩
            exact ⟨hv, h⟩
        · simp only [hh, hc, Bool.not_true, Bool.false_eq_true, ne_eq, not_false_eq_true,
            ↓reduceIte, Modifier.mk.injEq, and_false, Option.some.injEq, forall_eq', false_or,
            false_iff, not_and]
          rintro rfl h
          exact absurd h hc

/-- The loop finds the code that is bound and has no other code beside it. -/
theorem modifierLoop_eq {ts : List Nat} {c code : Int} (hcode : code ≠ kHole) :
    modifierLoop ctx keycode ts ⟨c, false⟩ = ⟨code, true⟩ ↔
      (∃ t ∈ ts, ctx.row keycode t = some code) ∧
        ∀ t ∈ ts, ∀ v, ctx.row keycode t = some v → v = kHole ∨ v = code := by
  induction ts with
  | nil => simp [modifierLoop]
  | cons t ts ih =>
    rw [modifierLoop_cons, List.forall_mem_cons]
    simp only [List.mem_cons, exists_eq_or_imp]
    cases hrow : ctx.row keycode t with
    | none => simp [ih]
    | some v =>
      by_cases hh : v = kHole
      · simp [hh, ih, hcode.symm]
      · simp only [hh, Bool.not_false, ↓reduceIte, modifierLoop_seen, Option.some.injEq,
          forall_eq', false_or]
        constructor
        · rintro ⟨rfl, h⟩
          exact ⟨.inl rfl, rfl, h⟩
        · rintro ⟨-, h⟩
          exact h

theorem row_eq_some {t : Nat} {v : Int} :
    ctx.row keycode t = some v ↔ lkKeyExists ctx t keycode = true ∧ lkGetKey ctx t keycode = v := by
  unfold LkCtx.row
  split
  · rename_i hk
    simp [hk]
  · rename_i hk
    simp [hk]

/-- The code that is filled in, if there is one. -/
def modifierOf (ctx : LkCtx) (keycode : Nat) : Option Int :=
  let m := modifierLoop ctx keycode (List.range maxNrKeymaps) ⟨kHole, false⟩
  if m.seen ∧ ktyp m.modifierCode = ktShift then some m.modifierCode else none

theorem modifierOf_eq_some {code : Int} :
    modifierOf ctx keycode = some code ↔ PureModifier ctx keycode code := by
  have hiff : modifierOf ctx keycode = some code ↔ ktyp code = ktShift ∧
      modifierLoop ctx keycode (List.range maxNrKeymaps) ⟨kHole, false⟩ = ⟨code, true⟩ := by
    unfold modifierOf
    obtain ⟨c, seen⟩ := modifierLoop ctx keycode (List.range maxNrKeymaps) ⟨kHole, false⟩
    simp only [Option.ite_none_right_eq_some, Option.some.injEq, Modifier.mk.injEq]
    constructor
    · rintro ⟨⟨hs, ht⟩, rfl⟩
      exact ⟨ht, rfl, hs⟩
    · rintro ⟨ht, rfl, hs⟩
      exact ⟨⟨hs, ht⟩, rfl⟩
  rw [hiff]
  constructor
  · rintro ⟨hs, h⟩
    obtain ⟨⟨t, ht, hrow⟩, honly⟩ := (modifierLoop_eq (kHole_not_shift hs)).mp h
    refine ⟨hs, ⟨t, List.mem_range.mp ht, row_eq_some.mp hrow⟩, fun t ht hk => ?_⟩
    exact honly t (List.mem_range.mpr ht) _ (row_eq_some.mpr ⟨hk, rfl⟩)
  · rintro ⟨hs, ⟨t, ht, hbound⟩, honly⟩
    refine ⟨hs, (modifierLoop_eq (kHole_not_shift hs)).mpr
      ⟨⟨t, List.mem_range.mpr ht, row_eq_some.mpr hbound⟩, fun t ht v hv => ?_⟩⟩
    obtain ⟨hk, rfl⟩ := row_eq_some.mp hv
    exact honly t (List.mem_range.mp ht) hk

theorem modifierOf_congr {ctx' : LkCtx} (h : ctx'.row keycode = ctx.row keycode) :
    modifierOf ctx' keycode = modifierOf ctx keycode := by
  have hloop (ts : List Nat) (m : Modifier) :
      modifierLoop ctx' keycode ts m = modifierLoop ctx keycode ts m := by
    induction ts generalizing m with
    | nil => rfl
    | cons t ts ih =>
      simp only [modifierLoop_cons, h, ih]
  unfold modifierOf
  rw [hloop]

end Search

/-! ## The second loop -/

/-- The row of a key after the pass. -/
def filledRow (ctx : LkCtx) (keycode : Nat) (code : Option Int) : Row := fun t =>
  if t < maxNrKeymaps ∧ lkMapExists ctx t = true then (ctx.row keycode t).or code
  else ctx.row keycode t

/-- The effect of a round of the second loop. -/
def fillCell (keycode : Nat) (code : Int) (ctx : LkCtx) (t : Nat) : LkCtx :=
  if !lkMapExists ctx t || lkKeyExists ctx t keycode then ctx else ctx.putKey t keycode code

/-- What filling cells of one key leaves alone. -/
structure SameBut (keycode : Nat) (ctx ctx' : LkCtx) : Prop where
  settings : SameSettings ctx ctx'
  maps : ∀ t, lkMapExists ctx' t = lkMapExists ctx t
  rows : ∀ k, k ≠ keycode → ctx'.row k = ctx.row k

namespace SameBut

variable {keycode : Nat}

theorem refl (ctx : LkCtx) : SameBut keycode ctx ctx := ⟨.refl ctx, fun _ => rfl, fun _ _ => rfl⟩

theorem trans {a b c : LkCtx} (h : SameBut keycode a b) (h' : SameBut keycode b c) :
    SameBut keycode a c :=
  ⟨h.settings.trans h'.settings, fun t => (h'.maps t).trans (h.maps t),
    fun k hk => (h'.rows k hk).trans (h.rows k hk)⟩

end SameBut

section Fill

variable {keycode : Nat} {code : Int}

theorem shift_ne_unknown (hs : ktyp code = ktShift) : code ≠ codeForUnknownKsym := by
  rintro rfl
  revert hs
  decide

theorem not_isPlainAscii_shift (hs : ktyp code = ktShift) : isPlainAscii code = false := by
  simp [isPlainAscii, hs]

theorem fillTable_run (hs : ktyp code = ktShift) (ctx : LkCtx) (t : Nat) :
    (fillTable keycode code t).run ctx = .ok () (fillCell keycode code ctx t) := by
  unfold fillTable fillCell
  rw [EStateM.run_bind]
  change EStateM.run (if (!lkMapExists ctx t || lkKeyExists ctx t keycode) = true then _ else _) ctx = _
  split
  · rfl
  · rename_i hfree
    have hm : lkMapExists ctx t = true := by
      simp only [Bool.or_eq_true, Bool.not_eq_true', not_or, Bool.not_eq_false] at hfree
      exact hfree.1
    exact lkAddKey_eq_ok.mpr ⟨shift_ne_unknown hs, fun _ => hm, rfl⟩

/-- A modifier has no Meta form, so its cell is the only one that changes. -/
theorem row_fillCell (hs : ktyp code = ktShift) (ctx : LkCtx) (t : Nat) :
    (fillCell keycode code ctx t).row keycode =
      if lkMapExists ctx t = true then
        Function.update (ctx.row keycode) t ((ctx.row keycode t).or (some code))
      else ctx.row keycode := by
  unfold fillCell
  by_cases hm : lkMapExists ctx t = true
  · rw [if_pos hm]
    by_cases hk : lkKeyExists ctx t keycode = true
    · obtain ⟨v, hv⟩ := Option.isSome_iff_exists.mp ((isSome_row ctx t keycode).trans hk)
      rw [if_pos (by simp [hk]), hv, Option.some_or, ← hv, Function.update_eq_self]
    · have hnone : ctx.row keycode t = none := by
        rw [← Option.not_isSome_iff_eq_none, isSome_row]
        exact hk
      rw [if_neg (by simp [hm, hk]), row_putKey ctx t keycode (shift_ne_unknown hs)]
      simp [Row.put, Row.spills, kHole_not_shift hs, not_isPlainAscii_shift hs, hnone]
  · simp [hm]

theorem sameBut_fillCell (ctx : LkCtx) (t : Nat) :
    SameBut keycode ctx (fillCell keycode code ctx t) := by
  unfold fillCell
  split
  · exact .refl ctx
  · rename_i hfree
    simp only [Bool.or_eq_true, Bool.not_eq_true', not_or, Bool.not_eq_false] at hfree
    refine ⟨.putKey ctx t keycode code, fun t' => ?_, fun k hk => row_putKey_ne ctx t code hk⟩
    rw [lkMapExists_putKey]
    by_cases ht : t' = t
    · simp [ht, hfree.1]
    · simp [ht]

/-- The second loop. -/
theorem fillCells (hs : ktyp code = ktShift) (ts : List Nat) (ctx : LkCtx) :
    SameBut keycode ctx (ts.foldl (fillCell keycode code) ctx) ∧
      ∀ t, (ts.foldl (fillCell keycode code) ctx).row keycode t =
        if t ∈ ts ∧ lkMapExists ctx t = true then (ctx.row keycode t).or (some code)
        else ctx.row keycode t := by
  induction ts generalizing ctx with
  | nil => exact ⟨.refl ctx, fun t => by simp⟩
  | cons t₀ ts ih =>
    have hone : SameBut keycode ctx (fillCell keycode code ctx t₀) := sameBut_fillCell ctx t₀
    obtain ⟨hsame, hrow⟩ := ih (fillCell keycode code ctx t₀)
    refine ⟨hone.trans hsame, fun t => ?_⟩
    rw [List.foldl_cons, hrow, hone.maps, row_fillCell hs]
    by_cases hm₀ : lkMapExists ctx t₀ = true
    · by_cases ht : t = t₀
      · subst ht
        cases ctx.row keycode t <;> simp [hm₀]
      · simp [hm₀, ht]
    · by_cases ht : t = t₀
      · subst ht
        simp [hm₀]
      · simp [hm₀, ht]

end Fill

/-! ## The loop over the keys -/

/-- The effect of a round for one key. -/
def fillKey (ctx : LkCtx) (keycode : Nat) : LkCtx :=
  match modifierOf ctx keycode with
  | none => ctx
  | some code => (List.range maxNrKeymaps).foldl (fillCell keycode code) ctx

theorem fillKeycode_run (ctx : LkCtx) (keycode : Nat) :
    (fillKeycode keycode).run ctx = .ok () (fillKey ctx keycode) := by
  unfold fillKeycode fillKey modifierOf
  rw [EStateM.run_bind]
  change EStateM.run (if (!(modifierLoop ctx keycode (List.range maxNrKeymaps) ⟨kHole, false⟩).seen ||
    _) = true then _ else _) ctx = _
  set m := modifierLoop ctx keycode (List.range maxNrKeymaps) ⟨kHole, false⟩
  by_cases hm : m.seen = true ∧ ktyp m.modifierCode = ktShift
  · simp only [hm, Bool.not_true, ne_eq, not_true_eq_false, decide_false, Bool.or_self,
      Bool.false_eq_true, ↓reduceIte, and_self]
    exact forM_eq_foldl (I := fun _ => True)
      (fun t _ c _ => ⟨fillTable_run hm.2 c t, trivial⟩) trivial
  · rw [if_pos (by simpa [not_and, imp_iff_not_or] using hm), if_neg hm]
    rfl

theorem fillKey_spec (ctx : LkCtx) (keycode : Nat) :
    SameBut keycode ctx (fillKey ctx keycode) ∧
      (fillKey ctx keycode).row keycode = filledRow ctx keycode (modifierOf ctx keycode) := by
  unfold fillKey
  cases hm : modifierOf ctx keycode with
  | none =>
    refine ⟨.refl ctx, ?_⟩
    funext t
    simp [filledRow]
  | some code =>
    obtain ⟨hsame, hrow⟩ := fillCells (modifierOf_eq_some.mp hm).shift (List.range maxNrKeymaps) ctx
    refine ⟨hsame, ?_⟩
    funext t
    simp only [hrow, filledRow, List.mem_range]

/-- The state after the rounds for distinct keys. -/
theorem fillKeys (ks : List Nat) (hks : ks.Nodup) (ctx : LkCtx) :
    SameSettings ctx (ks.foldl fillKey ctx) ∧
      (∀ t, lkMapExists (ks.foldl fillKey ctx) t = lkMapExists ctx t) ∧
      ∀ k, (ks.foldl fillKey ctx).row k =
        if k ∈ ks then filledRow ctx k (modifierOf ctx k) else ctx.row k := by
  induction ks generalizing ctx with
  | nil => exact ⟨.refl ctx, fun _ => rfl, fun k => by simp⟩
  | cons k₀ ks ih =>
    obtain ⟨hnot, hks⟩ := List.nodup_cons.mp hks
    obtain ⟨hone, hrow₀⟩ := fillKey_spec ctx k₀
    obtain ⟨hset, hmaps, hrow⟩ := ih hks (fillKey ctx k₀)
    refine ⟨hone.settings.trans hset, fun t => (hmaps t).trans (hone.maps t), fun k => ?_⟩
    rw [List.foldl_cons, hrow]
    by_cases hk : k = k₀
    · subst hk
      rw [if_neg hnot, if_pos List.mem_cons_self, hrow₀]
    · have hsame := hone.rows k hk
      -- the later rounds find the same code, since they look at their own row only
      have hfill : filledRow (fillKey ctx k₀) k (modifierOf (fillKey ctx k₀) k) =
          filledRow ctx k (modifierOf ctx k) := by
        rw [modifierOf_congr hsame]
        funext t
        simp only [filledRow, hone.maps, hsame]
      rw [hfill, hsame]
      simp [hk]

theorem xkeymapFillModifierReleaseBindings_run (ctx : LkCtx) :
    xkeymapFillModifierReleaseBindings.run ctx = .ok () ((List.range nrKeys).foldl fillKey ctx) :=
  forM_eq_foldl (I := fun _ => True) (fun k _ c _ => ⟨fillKeycode_run c k, trivial⟩) trivial

/-! ## A second run -/

theorem foldl_eq_self {σ ι : Type} {f : σ → ι → σ} {s : σ} {l : List ι} (h : ∀ a ∈ l, f s a = s) :
    l.foldl f s = s := by
  induction l with
  | nil => rfl
  | cons a l ih =>
    rw [List.forall_mem_cons] at h
    rw [List.foldl_cons, h.1, ih h.2]

/-- A key whose row is already filled is left alone. -/
theorem fillKey_fixed {ctx : LkCtx} {keycode : Nat}
    (h : modifierOf ctx keycode = none ∨ ∀ t < maxNrKeymaps, lkMapExists ctx t = true →
      lkKeyExists ctx t keycode = true) : fillKey ctx keycode = ctx := by
  unfold fillKey
  cases hm : modifierOf ctx keycode with
  | none => rfl
  | some code =>
    have hfull := h.resolve_left (by simp [hm])
    have hcell : ∀ t ∈ List.range maxNrKeymaps, fillCell keycode code ctx t = ctx := by
      intro t ht
      unfold fillCell
      by_cases hmap : lkMapExists ctx t = true
      · simp [hfull t (List.mem_range.mp ht) hmap]
      · simp [hmap]
    exact foldl_eq_self hcell

/-- The row that the pass leaves asks for nothing more. -/
theorem filled_again {ctx ctx' : LkCtx} {keycode : Nat}
    (hmaps : ∀ t, lkMapExists ctx' t = lkMapExists ctx t)
    (hrow : ctx'.row keycode = filledRow ctx keycode (modifierOf ctx keycode)) :
    modifierOf ctx' keycode = none ∨ ∀ t < maxNrKeymaps, lkMapExists ctx' t = true →
      lkKeyExists ctx' t keycode = true := by
  cases hm : modifierOf ctx keycode with
  | none =>
    have hsame : ctx'.row keycode = ctx.row keycode := by
      rw [hrow, hm]
      funext t
      simp [filledRow]
    left
    rw [modifierOf_congr hsame, hm]
  | some code =>
    right
    intro t ht hmap
    rw [hmaps] at hmap
    rw [← isSome_row, hrow, hm, filledRow, if_pos ⟨ht, hmap⟩]
    simp

/-! ## The pass -/

theorem modifierOf_eq_none {ctx : LkCtx} {keycode : Nat}
    (h : ¬ ∃ code, PureModifier ctx keycode code) : modifierOf ctx keycode = none := by
  by_contra hne
  obtain ⟨code, hcode⟩ := Option.ne_none_iff_exists'.mp hne
  exact h ⟨code, modifierOf_eq_some.mp hcode⟩

/-- What the rows say about the cells. -/
theorem filledFrom_of_rows {ctx ctx' : LkCtx} (hset : SameSettings ctx ctx')
    (hmaps : ∀ t, lkMapExists ctx' t = lkMapExists ctx t)
    (hrow : ∀ k, ctx'.row k =
      if k < nrKeys then filledRow ctx k (modifierOf ctx k) else ctx.row k) :
    FilledFrom ctx ctx' := by
  have hcell {t k : Nat} (h : ctx'.row k t = ctx.row k t) :
      lkKeyExists ctx' t k = lkKeyExists ctx t k ∧ lkGetKey ctx' t k = lkGetKey ctx t k := by
    obtain ⟨hex, hget⟩ := cell_congr h fun hm => (hmaps t).trans hm
    refine ⟨hex, ?_⟩
    by_cases hm : lkMapExists ctx t = true
    · exact hget hm
    · rw [Bool.not_eq_true] at hm
      rw [lkGetKey_of_not_exists hm, lkGetKey_of_not_exists ((hmaps t).trans hm)]
  exact {
    settings := hset
    maps := hmaps
    filled := by
      intro k hk code hpure t ht hm hfree
      have hnone : ctx.row k t = none := by
        rw [← Option.not_isSome_iff_eq_none, isSome_row, hfree]
        exact Bool.false_ne_true
      rw [← row_eq_some, hrow, if_pos hk, filledRow, if_pos ⟨ht, hm⟩, hnone, Option.none_or]
      exact modifierOf_eq_some.mpr hpure
    kept := by
      intro t k hk
      have hv : ctx.row k t = some (lkGetKey ctx t k) := row_eq_some.mpr ⟨hk, rfl⟩
      rw [← row_eq_some, hrow]
      split
      · simp [filledRow, hv]
      · exact hv
    other := by
      intro t k hnot
      apply hcell
      rw [hrow]
      split
      · rename_i hk
        rw [modifierOf_eq_none fun ⟨code, hcode⟩ => hnot ⟨code, hk, hcode⟩]
        simp [filledRow]
      · rfl
    above := by
      intro t k ht
      apply hcell
      rw [hrow]
      split
      · exact if_neg fun h => absurd h.1 (Nat.not_lt.mpr ht)
      · rfl }

/-- `xkeymap_fill_modifier_release_bindings` binds every modifier in all tables of the kernel, and
changes nothing else; a second run changes nothing at all. -/
theorem xkeymapFillModifierReleaseBindings_spec (ctx : LkCtx) :
    ∃ ctx', xkeymapFillModifierReleaseBindings.run ctx = .ok () ctx' ∧ FilledFrom ctx ctx' ∧
      xkeymapFillModifierReleaseBindings.run ctx' = .ok () ctx' := by
  obtain ⟨hset, hmaps, hrow⟩ := fillKeys (List.range nrKeys) List.nodup_range ctx
  have hrun := xkeymapFillModifierReleaseBindings_run
  refine ⟨_, hrun ctx, ?_, ?_⟩
  · refine filledFrom_of_rows hset hmaps fun k => (hrow k).trans ?_
    simp only [List.mem_range]
  · rw [hrun]
    refine congrArg (EStateM.Result.ok ()) (foldl_eq_self fun k hk => fillKey_fixed ?_)
    exact filled_again hmaps (by rw [hrow, if_pos hk])

end Kbd.Xkb
