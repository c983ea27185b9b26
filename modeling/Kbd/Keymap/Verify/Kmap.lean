import Kbd.Keymap.Kmap
import Kbd.Lib.Result

/-!
# Bindings as rows

What a context says about one key is a *row*: for each table, the code bound there or nothing
(`LkCtx.row`). `Row.put` is the abstract `lk_add_key`: it writes one table of a row and, under
`alt_is_meta`, adds the Meta binding of a plain ASCII code to the table with the Alt bit when that
table exists and is still free. `lkAddKey_run` gives the whole behaviour of `lk_add_key`, failures
included, and `row_putKey` says that a successful call is `Row.put` on the row of its key and
touches no other row. Everything about bindings is proved on rows.
-/

namespace Kbd.Keymap

open Kbd.Lib

/-- The bindings of one key, table by table. -/
abbrev Row := Nat → Option Int

/-- A plain ASCII code: the codes that `alt_is_meta` gives a Meta form. -/
def isPlainAscii (keycode : Int) : Bool :=
  (ktyp keycode = ktLatin || ktyp keycode = ktLetter) && kval keycode < 128

/-- The Meta form of a code. -/
def metaOf (keycode : Int) : Int := K ktMeta (kval keycode)

namespace Row

variable (exist : Nat → Bool) (alt : Bool)

/-- The table `t | M_ALT` gets a Meta binding along with `keycode` at `t`. -/
def spills (r : Row) (t : Nat) (keycode : Int) : Bool :=
  alt && t ||| mAlt ≠ t && exist (t ||| mAlt) && (r (t ||| mAlt)).isNone && isPlainAscii keycode

/-- `lk_add_key` on a row. -/
def put (r : Row) (t : Nat) (keycode : Int) : Row :=
  if alt && keycode = kHole && (r t).isSome then r
  else if spills exist alt r t keycode then
    Function.update (Function.update r t (some keycode)) (t ||| mAlt) (some (metaOf keycode))
  else Function.update r t (some keycode)

end Row

/-- The row of key `i`. -/
def LkCtx.row (ctx : LkCtx) (i : Nat) : Row := fun t =>
  if lkKeyExists ctx t i then some (lkGetKey ctx t i) else none

/-- The effect of `lk_add_map`. -/
def LkCtx.addMap (ctx : LkCtx) (t : Nat) : LkCtx :=
  if lkMapExists ctx t then ctx else { ctx with keymap := ctx.keymap.set t (some .init) }

/-- The Meta binding that `lk_add_key` adds after it has bound `keycode` at `t`. -/
def LkCtx.putMeta (ctx : LkCtx) (t i : Nat) (keycode : Int) : LkCtx :=
  if ctx.keywords.altIsMeta && t ||| mAlt ≠ t && lkMapExists ctx (t ||| mAlt) &&
      !lkKeyExists ctx (t ||| mAlt) i && isPlainAscii keycode then
    ctx.setCell (t ||| mAlt) i (metaOf keycode + 1)
  else ctx

/-- The effect of a successful `lk_add_key`. -/
def LkCtx.putKey (ctx : LkCtx) (t i : Nat) (keycode : Int) : LkCtx :=
  if ctx.keywords.altIsMeta && keycode = kHole && lkKeyExists (ctx.addMap t) t i then
    ctx.addMap t
  else ((ctx.addMap t).setCell t i (keycode + 1)).putMeta t i keycode

/-! ## Reading a context after an update -/

section Updates

variable (ctx : LkCtx) (t i : Nat) (code : Int)

theorem lkGetKey_eq_row {ctx : LkCtx} {t : Nat} (h : lkMapExists ctx t = true) (i : Nat) :
    lkGetKey ctx t i = (ctx.row i t).getD kHole := by
  unfold LkCtx.row lkKeyExists lkGetKey
  unfold lkMapExists at h
  cases hm : ctx.keymap.get t with
  | none => simp [hm] at h
  | some map =>
    by_cases h0 : map.get i = 0
    · simp [h0]
    · simp [h0]

theorem lkGetKey_of_not_exists {ctx : LkCtx} {t : Nat} (h : lkMapExists ctx t = false) (i : Nat) :
    lkGetKey ctx t i = -1 := by
  unfold lkGetKey
  unfold lkMapExists at h
  cases hm : ctx.keymap.get t with
  | none => rfl
  | some map => simp [hm] at h

theorem row_eq_none_of_not_exists {ctx : LkCtx} {t : Nat} (h : lkMapExists ctx t = false)
    (i : Nat) : ctx.row i t = none := by
  unfold LkCtx.row lkKeyExists
  unfold lkMapExists at h
  cases hm : ctx.keymap.get t with
  | none => simp
  | some map => simp [hm] at h

theorem isSome_row (ctx : LkCtx) (t i : Nat) : (ctx.row i t).isSome = lkKeyExists ctx t i := by
  unfold LkCtx.row
  split <;> simp_all

theorem lkMapExists_lt {ctx : LkCtx} {t : Nat} (h : lkMapExists ctx t = true) :
    t < ctx.keymap.total := by
  apply LkArray.lt_total_of_get_ne
  intro hd
  unfold lkMapExists at h
  rw [hd] at h
  cases h

@[simp] theorem lkMapExists_addMap (t' : Nat) :
    lkMapExists (ctx.addMap t) t' = (decide (t' = t) || lkMapExists ctx t') := by
  unfold LkCtx.addMap
  by_cases h : lkMapExists ctx t = true
  · by_cases ht : t' = t
    · simp [h, ht]
    · simp [h, ht]
  · rw [if_neg h]
    by_cases ht : t' = t
    · simp [ht, lkMapExists]
    · simp [ht, lkMapExists]

@[simp] theorem lkMapExists_setCell (t' : Nat) :
    lkMapExists (ctx.setCell t i code) t' = lkMapExists ctx t' := by
  unfold LkCtx.setCell
  cases hm : ctx.keymap.get t with
  | none => rfl
  | some map =>
    by_cases ht : t' = t
    · subst ht
      simp [lkMapExists, hm]
    · simp [lkMapExists, ht]

@[simp] theorem row_addMap (i' : Nat) : (ctx.addMap t).row i' = ctx.row i' := by
  funext t'
  unfold LkCtx.addMap
  by_cases h : lkMapExists ctx t = true
  · simp [h]
  · have hn : ctx.row i' t = none := row_eq_none_of_not_exists (by simpa using h) i'
    by_cases ht : t' = t
    · subst ht
      rw [hn]
      simp [h, LkCtx.row, lkKeyExists, LkArray.get_init]
    · simp [h, ht, LkCtx.row, lkKeyExists, lkGetKey]

theorem row_setCell_self {ctx : LkCtx} {t : Nat} (h : lkMapExists ctx t = true) (i : Nat)
    {keycode : Int} (hk : keycode ≠ codeForUnknownKsym) :
    (ctx.setCell t i (keycode + 1)).row i = Function.update (ctx.row i) t (some keycode) := by
  have hk0 : keycode + 1 ≠ 0 := by
    simp only [codeForUnknownKsym] at hk
    omega
  funext t'
  unfold LkCtx.setCell
  unfold lkMapExists at h
  cases hm : ctx.keymap.get t with
  | none => simp [hm] at h
  | some map =>
    by_cases ht : t' = t
    · subst ht
      simp [LkCtx.row, lkKeyExists, lkGetKey, hk0]
    · simp [LkCtx.row, lkKeyExists, lkGetKey, ht]

theorem row_setCell_ne (i' : Nat) (hi : i' ≠ i) :
    (ctx.setCell t i code).row i' = ctx.row i' := by
  funext t'
  unfold LkCtx.setCell
  cases hm : ctx.keymap.get t with
  | none => rfl
  | some map =>
    by_cases ht : t' = t
    · subst ht
      simp [LkCtx.row, lkKeyExists, lkGetKey, hi, hm]
    · simp [LkCtx.row, lkKeyExists, lkGetKey, ht]

theorem total_addMap : (ctx.addMap t).keymap.total = max ctx.keymap.total (t + 1) := by
  unfold LkCtx.addMap
  by_cases h : lkMapExists ctx t = true
  · have := lkMapExists_lt h
    simp only [h, ↓reduceIte]
    omega
  · simp [h]

@[simp] theorem total_setCell : (ctx.setCell t i code).keymap.total = ctx.keymap.total := by
  unfold LkCtx.setCell
  cases hm : ctx.keymap.get t with
  | none => rfl
  | some map =>
    have : t < ctx.keymap.total := lkMapExists_lt (by simp [lkMapExists, hm])
    simp only [LkArray.total_set]
    omega

end Updates

/-! ## Fields an update leaves alone -/

/-- The fields other than the key tables. -/
structure SameSettings (c c' : LkCtx) : Prop where
  flags : c'.flags = c.flags
  keywords : c'.keywords = c.keywords
  funcTable : c'.funcTable = c.funcTable
  accentTable : c'.accentTable = c.accentTable
  charset : c'.charset = c.charset
  keyConstant : c'.keyConstant = c.keyConstant

namespace SameSettings

theorem refl (c : LkCtx) : SameSettings c c := ⟨rfl, rfl, rfl, rfl, rfl, rfl⟩

theorem trans {a b c : LkCtx} (h : SameSettings a b) (h' : SameSettings b c) :
    SameSettings a c :=
  ⟨h'.flags.trans h.flags, h'.keywords.trans h.keywords, h'.funcTable.trans h.funcTable,
    h'.accentTable.trans h.accentTable, h'.charset.trans h.charset,
    h'.keyConstant.trans h.keyConstant⟩

theorem addMap (c : LkCtx) (t : Nat) : SameSettings c (c.addMap t) := by
  unfold LkCtx.addMap
  split
  · exact refl c
  · exact ⟨rfl, rfl, rfl, rfl, rfl, rfl⟩

theorem setCell (c : LkCtx) (t i : Nat) (code : Int) : SameSettings c (c.setCell t i code) := by
  unfold LkCtx.setCell
  split
  · exact refl c
  · exact ⟨rfl, rfl, rfl, rfl, rfl, rfl⟩

theorem putMeta (c : LkCtx) (t i : Nat) (k : Int) : SameSettings c (c.putMeta t i k) := by
  unfold LkCtx.putMeta
  split
  · exact setCell c _ i _
  · exact refl c

theorem putKey (c : LkCtx) (t i : Nat) (k : Int) : SameSettings c (c.putKey t i k) := by
  unfold LkCtx.putKey
  split
  · exact addMap c t
  · exact ((addMap c t).trans (setCell _ t i _)).trans (putMeta _ t i k)

end SameSettings

/-! ## `lk_add_key` -/

@[simp] theorem lkMapExists_putMeta (ctx : LkCtx) (t i : Nat) (k : Int) (t' : Nat) :
    lkMapExists (ctx.putMeta t i k) t' = lkMapExists ctx t' := by
  unfold LkCtx.putMeta
  split <;> simp

@[simp] theorem total_putMeta (ctx : LkCtx) (t i : Nat) (k : Int) :
    (ctx.putMeta t i k).keymap.total = ctx.keymap.total := by
  unfold LkCtx.putMeta
  split <;> simp

theorem row_putMeta_ne (ctx : LkCtx) (t : Nat) {i i' : Nat} (k : Int) (hi : i' ≠ i) :
    (ctx.putMeta t i k).row i' = ctx.row i' := by
  unfold LkCtx.putMeta
  split
  · exact row_setCell_ne _ _ _ _ i' hi
  · rfl

theorem lkMapExists_putKey (ctx : LkCtx) (t i : Nat) (k : Int) (t' : Nat) :
    lkMapExists (ctx.putKey t i k) t' = (decide (t' = t) || lkMapExists ctx t') := by
  unfold LkCtx.putKey
  split <;> simp

theorem total_putKey (ctx : LkCtx) (t i : Nat) (k : Int) :
    (ctx.putKey t i k).keymap.total = max ctx.keymap.total (t + 1) := by
  unfold LkCtx.putKey
  split <;> simp [total_addMap]

theorem row_putKey_ne (ctx : LkCtx) (t : Nat) {i i' : Nat} (k : Int) (hi : i' ≠ i) :
    (ctx.putKey t i k).row i' = ctx.row i' := by
  unfold LkCtx.putKey
  split
  · simp
  · rw [row_putMeta_ne _ _ _ hi, row_setCell_ne _ _ _ _ i' hi, row_addMap]

theorem metaOf_ne (k : Int) : metaOf k ≠ codeForUnknownKsym := by
  have h0 := kval_nonneg k
  simp only [metaOf, K, ktMeta, codeForUnknownKsym]
  omega

/-- A successful `lk_add_key` is `Row.put` on the row of its key. -/
theorem row_putKey (ctx : LkCtx) (t i : Nat) {k : Int} (hk : k ≠ codeForUnknownKsym) :
    (ctx.putKey t i k).row i =
      (ctx.row i).put (lkMapExists ctx) ctx.keywords.altIsMeta t k := by
  have hmap : lkMapExists (ctx.addMap t) t = true := by simp
  have hset := row_setCell_self hmap i hk
  have hkey : lkKeyExists (ctx.addMap t) t i = (ctx.row i t).isSome := by
    rw [← isSome_row, row_addMap]
  unfold LkCtx.putKey Row.put
  rw [hkey]
  split
  · simp
  · set c := (ctx.addMap t).setCell t i (k + 1) with hc
    have halt : c.keywords.altIsMeta = ctx.keywords.altIsMeta := by
      rw [((SameSettings.addMap ctx t).trans (SameSettings.setCell _ t i _)).keywords]
    -- the cells that decide on the Meta binding are those of `ctx`, since `t | M_ALT` is not `t`
    have hspill : (c.keywords.altIsMeta && t ||| mAlt ≠ t && lkMapExists c (t ||| mAlt) &&
          !lkKeyExists c (t ||| mAlt) i && isPlainAscii k) =
        Row.spills (lkMapExists ctx) ctx.keywords.altIsMeta (ctx.row i) t k := by
      by_cases hne : t ||| mAlt = t
      · simp [Row.spills, hne]
      · rw [← isSome_row, hset, row_addMap, Function.update_of_ne hne, halt]
        simp [Row.spills, hne, hc]
    unfold LkCtx.putMeta
    rw [hspill]
    split
    · rename_i hs
      have hex : lkMapExists c (t ||| mAlt) = true := by
        simp only [Row.spills, Bool.and_eq_true] at hs
        simp [hc, hs.1.1.2]
      rw [row_setCell_self hex i (metaOf_ne k), hset, row_addMap]
    · rw [hset, row_addMap]

@[simp] theorem lkAddMap_run (ctx : LkCtx) (t : Nat) :
    (lkAddMap t).run ctx = .ok () (ctx.addMap t) := rfl

theorem getOrAddMap_run (ctx : LkCtx) (t i : Nat) :
    (getOrAddMap t i).run ctx =
      if !lkMapExists ctx t && ctx.keywords.keymaps then .error (.violatesKeymaps t i) ctx
      else .ok () (ctx.addMap t) := by
  unfold getOrAddMap
  by_cases hm : lkMapExists ctx t = true
  · simp [hm, LkCtx.addMap]
  · by_cases hkw : ctx.keywords.keymaps = true
    · simp [hm, hkw]
    · simp [hm, hkw]

/-- One level of `lk_add_key`, with the recursive call still in place. -/
theorem lkAddKeyRec_succ_run (depth t i : Nat) (k : Int) (ctx : LkCtx) :
    (lkAddKeyRec (depth + 1) t i k).run ctx =
      if k = codeForUnknownKsym then .error (.badKeycode k) ctx
      else if !lkMapExists ctx t && ctx.keywords.keymaps then .error (.violatesKeymaps t i) ctx
      else if ctx.keywords.altIsMeta && k = kHole && lkKeyExists (ctx.addMap t) t i then
        .ok () (ctx.addMap t)
      else
        let c := (ctx.addMap t).setCell t i (k + 1)
        if c.keywords.altIsMeta && t ||| mAlt ≠ t && lkMapExists c (t ||| mAlt) &&
            !lkKeyExists c (t ||| mAlt) i && isPlainAscii k then
          (lkAddKeyRec depth (t ||| mAlt) i (metaOf k)).run c
        else .ok () c := by
  have halt : (ctx.addMap t).keywords = ctx.keywords := (SameSettings.addMap ctx t).keywords
  rw [lkAddKeyRec]
  by_cases hk : k = codeForUnknownKsym
  · simp [hk]
  · simp only [hk, ↓reduceIte, EStateM.run_bind, getOrAddMap_run]
    by_cases hv : (!lkMapExists ctx t && ctx.keywords.keymaps) = true
    · simp only [hv, ↓reduceIte]
    · simp only [hv, Bool.false_eq_true, ↓reduceIte, EStateM.run_get, halt]
      split
      · rfl
      · simp only [EStateM.run_bind, EStateM.run_set, EStateM.run_get]
        set c := (ctx.addMap t).setCell t i (k + 1)
        by_cases ha : c.keywords.altIsMeta = true
        · simp only [ha, ↓reduceIte, isPlainAscii, metaOf, Bool.true_and, Bool.and_assoc]
          split <;> rfl
        · simp [ha]

theorem metaOf_ne_kHole (k : Int) : metaOf k ≠ kHole := by
  have h0 := kval_nonneg k
  simp only [metaOf, K, ktMeta, kHole]
  omega

/-- The whole of `lk_add_key`: when it fails, and what it does otherwise. The recursive call is for
a map that exists and has the Alt bit, so it binds the Meta code and stops there. -/
theorem lkAddKey_run (ctx : LkCtx) (t i : Nat) (k : Int) :
    (lkAddKey t i k).run ctx =
      if k = codeForUnknownKsym then .error (.badKeycode k) ctx
      else if !lkMapExists ctx t && ctx.keywords.keymaps then .error (.violatesKeymaps t i) ctx
      else .ok () (ctx.putKey t i k) := by
  unfold lkAddKey
  rw [lkAddKeyRec_succ_run]
  by_cases hk : k = codeForUnknownKsym
  · simp only [hk, ↓reduceIte]
  by_cases hv : (!lkMapExists ctx t && ctx.keywords.keymaps) = true
  · simp only [hk, hv, ↓reduceIte]
  simp only [hk, hv, Bool.false_eq_true, ↓reduceIte, LkCtx.putKey]
  split
  · rfl
  · set c := (ctx.addMap t).setCell t i (k + 1)
    unfold LkCtx.putMeta
    split
    · rename_i hs
      have hex : lkMapExists c (t ||| mAlt) = true := by
        simp only [Bool.and_eq_true] at hs
        exact hs.1.1.2
      have hadd : c.addMap (t ||| mAlt) = c := by simp [LkCtx.addMap, hex]
      rw [lkAddKeyRec_succ_run]
      simp [metaOf_ne, metaOf_ne_kHole, hex, hadd]
    · rfl

theorem lkAddKey_eq_ok {ctx ctx' : LkCtx} {t i : Nat} {k : Int} :
    (lkAddKey t i k).run ctx = .ok () ctx' ↔
      k ≠ codeForUnknownKsym ∧ (ctx.keywords.keymaps = true → lkMapExists ctx t = true) ∧
        ctx' = ctx.putKey t i k := by
  rw [lkAddKey_run]
  by_cases hk : k = codeForUnknownKsym
  · simp [hk]
  rw [if_neg hk]
  by_cases hv : (!lkMapExists ctx t && ctx.keywords.keymaps) = true
  · rw [if_pos hv]
    simp only [Bool.and_eq_true, Bool.not_eq_true'] at hv
    simp [hv]
  · rw [if_neg hv]
    have hm : ctx.keywords.keymaps = true → lkMapExists ctx t = true := by
      intro h
      simpa [h] using hv
    constructor
    · intro h
      cases h
      exact ⟨hk, hm, rfl⟩
    · rintro ⟨-, -, rfl⟩
      rfl

end Kbd.Keymap
