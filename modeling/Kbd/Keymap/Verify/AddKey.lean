import Kbd.Keymap.Verify.Kmap

/-!
# The frame of `lk_add_key`

`lk_add_key` is the one function that binds keys: the parser, the reader of the kernel's tables and
the converter from XKB all write through it. `lkAddKey_frame` says which cells a call changes, and
that a call that fails changes nothing. The sum of the code and one is an `int` in C, so this is
about codes below `INT_MAX`.
-/

namespace Kbd.Keymap

open Kbd.Lib

/-- The call changes nothing: under `alt_is_meta` a hole does not replace a binding. -/
def KeepsKey (ctx : LkCtx) (t i : Nat) (v : Int) : Prop :=
  ctx.keywords.altIsMeta = true ∧ v = kHole ∧ lkKeyExists ctx t i = true

/-- Key `i'` of table `t'` gets the Meta form of `v` when `v` is bound at key `i` of table `t`. -/
structure GetsMeta (ctx : LkCtx) (t i : Nat) (v : Int) (t' i' : Nat) : Prop where
  altIsMeta : ctx.keywords.altIsMeta = true
  table : t' = t ||| mAlt
  ne : t' ≠ t
  key : i' = i
  map : lkMapExists ctx t' = true
  free : lkKeyExists ctx t' i' = false
  ascii : (ktyp v = ktLatin ∨ ktyp v = ktLetter) ∧ kval v < 128

/-- What a successful `lk_add_key` does. -/
structure AddKeyFrame (ctx : LkCtx) (t i : Nat) (v : Int) (ctx' : LkCtx) : Prop where
  settings : SameSettings ctx ctx'
  maps : ∀ t', lkMapExists ctx' t' = true ↔ t' = t ∨ lkMapExists ctx t' = true
  kept : KeepsKey ctx t i v → ctx' = ctx
  cell : ¬ KeepsKey ctx t i v → lkKeyExists ctx' t i = true ∧ lkGetKey ctx' t i = v
  metaCell : ∀ t' i', GetsMeta ctx t i v t' i' →
    lkKeyExists ctx' t' i' = true ∧ lkGetKey ctx' t' i' = K ktMeta (kval v)
  other : ∀ t' i', ¬ (t' = t ∧ i' = i) → ¬ GetsMeta ctx t i v t' i' →
    lkKeyExists ctx' t' i' = lkKeyExists ctx t' i' ∧
      (lkMapExists ctx t' = true → lkGetKey ctx' t' i' = lkGetKey ctx t' i')

/-! ## Cells and rows -/

theorem cell_of_row {ctx : LkCtx} {t i : Nat} {v : Int} (h : ctx.row i t = some v) :
    lkKeyExists ctx t i = true ∧ lkGetKey ctx t i = v := by
  unfold LkCtx.row at h
  split at h
  · rename_i hk
    exact ⟨hk, Option.some.inj h⟩
  · cases h

theorem cell_congr {c c' : LkCtx} {t i : Nat} (hrow : c'.row i t = c.row i t)
    (hmap : lkMapExists c t = true → lkMapExists c' t = true) :
    lkKeyExists c' t i = lkKeyExists c t i ∧
      (lkMapExists c t = true → lkGetKey c' t i = lkGetKey c t i) := by
  refine ⟨by rw [← isSome_row, ← isSome_row, hrow], fun ht => ?_⟩
  rw [lkGetKey_eq_row ht, lkGetKey_eq_row (hmap ht), hrow]

theorem isPlainAscii_iff {v : Int} :
    isPlainAscii v = true ↔ (ktyp v = ktLatin ∨ ktyp v = ktLetter) ∧ kval v < 128 := by
  simp [isPlainAscii]

theorem not_isPlainAscii_kHole : isPlainAscii kHole = false := rfl

/-- The rule by which `Row.put` adds a Meta binding. -/
theorem spills_iff {ctx : LkCtx} {t i : Nat} {v : Int} :
    Row.spills (lkMapExists ctx) ctx.keywords.altIsMeta (ctx.row i) t v = true ↔
      GetsMeta ctx t i v (t ||| mAlt) i := by
  have hfree : (ctx.row i (t ||| mAlt)).isNone = !lkKeyExists ctx (t ||| mAlt) i := by
    rw [← isSome_row, Option.not_isSome]
  unfold Row.spills
  rw [hfree]
  simp only [Bool.and_eq_true, decide_eq_true_eq, Bool.not_eq_true', isPlainAscii_iff]
  constructor
  · rintro ⟨⟨⟨⟨ha, hne⟩, hm⟩, hf⟩, hv⟩
    exact ⟨ha, rfl, hne, rfl, hm, hf, hv⟩
  · rintro ⟨ha, -, hne, -, hm, hf, hv⟩
    exact ⟨⟨⟨⟨ha, hne⟩, hm⟩, hf⟩, hv⟩

/-- Where a hole is kept, `Row.put` leaves the row alone. -/
theorem keepsKey_iff {ctx : LkCtx} {t i : Nat} {v : Int} :
    (ctx.keywords.altIsMeta && v = kHole && (ctx.row i t).isSome) = true ↔ KeepsKey ctx t i v := by
  rw [isSome_row]
  simp [KeepsKey, and_assoc]

/-! ## The frame -/

theorem putKey_of_keepsKey {ctx : LkCtx} {t i : Nat} {v : Int} (h : KeepsKey ctx t i v) :
    ctx.putKey t i v = ctx := by
  obtain ⟨ha, hv, hk⟩ := h
  have hm : lkMapExists ctx t = true := by
    by_contra hm
    rw [← isSome_row, row_eq_none_of_not_exists (Bool.eq_false_iff.mpr hm)] at hk
    cases hk
  have hadd : ctx.addMap t = ctx := if_pos hm
  unfold LkCtx.putKey
  rw [hadd]
  exact if_pos (by simp [ha, hv, hk])

/-- The row of the key after a call that changes something. -/
theorem row_putKey_cases {ctx : LkCtx} {t i : Nat} {v : Int} (hv : v ≠ codeForUnknownKsym)
    (hkeep : ¬ KeepsKey ctx t i v) (t' : Nat) :
    (t' = t ∧ (ctx.putKey t i v).row i t' = some v) ∨
    (GetsMeta ctx t i v t' i ∧ (ctx.putKey t i v).row i t' = some (K ktMeta (kval v))) ∨
    (t' ≠ t ∧ ¬ GetsMeta ctx t i v t' i ∧ (ctx.putKey t i v).row i t' = ctx.row i t') := by
  rw [row_putKey ctx t i hv]
  unfold Row.put
  rw [if_neg (mt keepsKey_iff.mp hkeep)]
  by_cases ht : t' = t
  · subst ht
    left
    refine ⟨rfl, ?_⟩
    split
    · rename_i hs
      rw [Function.update_of_ne (spills_iff.mp hs).ne.symm, Function.update_self]
    · rw [Function.update_self]
  right
  by_cases hg : GetsMeta ctx t i v t' i
  · left
    refine ⟨hg, ?_⟩
    have htab := hg.table
    subst htab
    rw [if_pos (spills_iff.mpr hg), Function.update_self]
    rfl
  · right
    refine ⟨ht, hg, ?_⟩
    split
    · rename_i hs
      have hne : t' ≠ t ||| mAlt := by
        rintro rfl
        exact hg (spills_iff.mp hs)
      rw [Function.update_of_ne hne, Function.update_of_ne ht]
    · rw [Function.update_of_ne ht]

theorem addKeyFrame_putKey (ctx : LkCtx) (t i : Nat) {v : Int} (hv : v ≠ codeForUnknownKsym) :
    AddKeyFrame ctx t i v (ctx.putKey t i v) where
  settings := .putKey ctx t i v
  maps t' := by
    rw [lkMapExists_putKey]
    simp
  kept := putKey_of_keepsKey
  cell hkeep := by
    obtain ⟨-, h⟩ | ⟨hg, -⟩ | ⟨ht, -⟩ := row_putKey_cases hv hkeep t
    · exact cell_of_row h
    · exact absurd rfl hg.ne
    · exact absurd rfl ht
  metaCell t' i' hg := by
    have hkey := hg.key
    subst hkey
    have hkeep : ¬ KeepsKey ctx t i' v := by
      rintro ⟨-, rfl, -⟩
      have := isPlainAscii_iff.mpr hg.ascii
      rw [not_isPlainAscii_kHole] at this
      cases this
    obtain ⟨rfl, -⟩ | ⟨-, h⟩ | ⟨-, hg', -⟩ := row_putKey_cases hv hkeep t'
    · exact absurd rfl hg.ne
    · exact cell_of_row h
    · exact absurd hg hg'
  other t' i' hne hg := by
    by_cases hkeep : KeepsKey ctx t i v
    · rw [putKey_of_keepsKey hkeep]
      exact ⟨rfl, fun _ => rfl⟩
    have hmap : lkMapExists ctx t' = true → lkMapExists (ctx.putKey t i v) t' = true := by
      intro h
      rw [lkMapExists_putKey, h, Bool.or_true]
    refine cell_congr ?_ hmap
    by_cases hi : i' = i
    · subst hi
      obtain ⟨rfl, -⟩ | ⟨hg', -⟩ | ⟨-, -, h⟩ := row_putKey_cases hv hkeep t'
      · exact absurd ⟨rfl, rfl⟩ hne
      · exact absurd hg' hg
      · exact h
    · rw [row_putKey_ne ctx t v hi]

/-- One nested call is enough: a deeper bound on the recursion changes nothing. -/
theorem lkAddKeyRec_run (depth : Nat) (ctx : LkCtx) (t i : Nat) (v : Int) :
    (lkAddKeyRec (depth + 2) t i v).run ctx = (lkAddKey t i v).run ctx := by
  unfold lkAddKey
  rw [lkAddKeyRec_succ_run, lkAddKeyRec_succ_run]
  -- the nested call is for a table with the Alt bit, so it makes no call of its own
  have hnested (d : Nat) (c : LkCtx) : (lkAddKeyRec (d + 1) (t ||| mAlt) i (metaOf v)).run c =
      (lkAddKeyRec 1 (t ||| mAlt) i (metaOf v)).run c := by
    have hor : t ||| mAlt ||| mAlt = t ||| mAlt := by rw [Nat.or_assoc, Nat.or_self]
    rw [lkAddKeyRec_succ_run, lkAddKeyRec_succ_run]
    simp [hor]
  simp only [hnested depth]

/-- What `lk_add_key` does, for every context, table, key and code: a call that succeeds has the
frame above, a call that fails was for an unknown symbol or a map that a `keymaps` line leaves out,
and changes nothing, and the recursion is at most one call deep. -/
theorem lkAddKey_frame (ctx : LkCtx) (t i : Nat) (v : Int) :
    (∀ ctx', (lkAddKey t i v).run ctx = .ok () ctx' → AddKeyFrame ctx t i v ctx') ∧
    (∀ e ctx', (lkAddKey t i v).run ctx = .error e ctx' → ctx' = ctx ∧
      (v = codeForUnknownKsym ∨ ctx.keywords.keymaps = true ∧ lkMapExists ctx t = false)) ∧
    (∀ depth, (lkAddKeyRec (depth + 2) t i v).run ctx = (lkAddKey t i v).run ctx) ∧
    ∀ ctx', (lkAddKey t i v).run ctx ≠ .error .recursion ctx' := by
  refine ⟨fun ctx' h => ?_, fun e ctx' h => ?_, fun depth => lkAddKeyRec_run depth ctx t i v,
    fun ctx' h => ?_⟩
  · obtain ⟨hv, -, rfl⟩ := lkAddKey_eq_ok.mp h
    exact addKeyFrame_putKey ctx t i hv
  · rw [lkAddKey_run] at h
    split at h
    · rename_i hv
      cases h
      exact ⟨rfl, .inl hv⟩
    · split at h
      · rename_i hk
        simp only [Bool.and_eq_true, Bool.not_eq_true'] at hk
        cases h
        exact ⟨rfl, .inr ⟨hk.2, hk.1⟩⟩
      · cases h
  · rw [lkAddKey_run] at h
    split at h
    · cases h
    · split at h
      · cases h
      · cases h

end Kbd.Keymap
