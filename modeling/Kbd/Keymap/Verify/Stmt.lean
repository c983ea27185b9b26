import Kbd.Keymap.Stmt
import Kbd.Keymap.Verify.Constants

/-!
# What a statement can do

A statement changes the context in small steps: it adds a map, binds or unbinds a key, marks a key,
or changes fields that have nothing to do with keys (`KeyStep`). `execStmt_steps` says which maps
and which keys the steps of a statement are about, so that a fact kept by every `KeyStep` is kept by
every statement (`execStmt_preserves`) and by every keymap (`runStmts_preserves`).
-/

namespace Kbd.Keymap

open Kbd.Lib Relation

/-! ## Unbinding a key -/

/-- The effect of `lk_del_key` on a map that exists. -/
def LkCtx.delKey (ctx : LkCtx) (t i : Nat) : LkCtx :=
  match ctx.keymap.get t with
  | none => ctx
  | some map =>
    if map.isSet i then
      { ctx with keymap := ctx.keymap.set t (some ⟨map.data.set i 0, map.count - 1⟩) }
    else ctx

theorem lkDelKey_run {ctx : LkCtx} {t : Nat} (h : lkMapExists ctx t = true) (i : Nat) :
    (lkDelKey t i).run ctx = .ok () (ctx.delKey t i) := by
  unfold lkMapExists at h
  unfold lkDelKey LkCtx.delKey
  cases hm : ctx.keymap.get t with
  | none => simp [hm] at h
  | some map =>
    cases hs : map.isSet i with
    | false => simp [hm, hs]
    | true => simp [hm, hs, LkArray.unset_of_isSet hs]

theorem SameSettings.delKey (c : LkCtx) (t i : Nat) : SameSettings c (c.delKey t i) := by
  unfold LkCtx.delKey
  split
  · exact refl c
  · split
    · exact ⟨rfl, rfl, rfl, rfl, rfl, rfl⟩
    · exact refl c

@[simp] theorem lkMapExists_delKey (c : LkCtx) (t i t' : Nat) :
    lkMapExists (c.delKey t i) t' = lkMapExists c t' := by
  unfold LkCtx.delKey
  cases hm : c.keymap.get t with
  | none => rfl
  | some map =>
    by_cases hs : map.isSet i = true
    · by_cases ht : t' = t
      · subst ht
        simp [lkMapExists, hm, hs]
      · simp [lkMapExists, ht, hs]
    · simp [hs]

@[simp] theorem total_delKey (c : LkCtx) (t i : Nat) :
    (c.delKey t i).keymap.total = c.keymap.total := by
  unfold LkCtx.delKey
  cases hm : c.keymap.get t with
  | none => rfl
  | some map =>
    by_cases hs : map.isSet i = true
    · have : t < c.keymap.total := lkMapExists_lt (by simp [lkMapExists, hm])
      simp only [hs, ↓reduceIte, LkArray.total_set]
      omega
    · simp [hs]

theorem row_delKey (c : LkCtx) (t i : Nat) :
    (c.delKey t i).row i = Function.update (c.row i) t none := by
  funext t'
  unfold LkCtx.delKey
  cases hm : c.keymap.get t with
  | none =>
    by_cases ht : t' = t
    · subst ht
      simp [LkCtx.row, lkKeyExists, hm]
    · simp [ht]
  | some map =>
    by_cases hs : map.isSet i = true
    · have hi : i < map.data.length := LkArray.lt_total_of_get_ne (by simpa [LkArray.isSet] using hs)
      have hget : (⟨map.data.set i 0, map.count - 1⟩ : LkArray Int).get i = 0 := by
        simp [LkArray.get, hi]
      by_cases ht : t' = t
      · subst ht
        simp [LkCtx.row, lkKeyExists, hs, hget]
      · simp [LkCtx.row, lkKeyExists, lkGetKey, ht, hs]
    · by_cases ht : t' = t
      · subst ht
        have h0 : map.get i = 0 := by simpa [LkArray.isSet] using hs
        simp [LkCtx.row, lkKeyExists, hm, hs, h0]
      · simp [ht, hs]

theorem row_delKey_ne (c : LkCtx) (t : Nat) {i i' : Nat} (h : i' ≠ i) :
    (c.delKey t i).row i' = c.row i' := by
  funext t'
  unfold LkCtx.delKey
  cases hm : c.keymap.get t with
  | none => rfl
  | some map =>
    by_cases hs : map.isSet i = true
    · have hget : (⟨map.data.set i 0, map.count - 1⟩ : LkArray Int).get i' = map.get i' := by
        simp [LkArray.get, List.getD_eq_getElem?_getD, List.getElem?_set_ne (Ne.symm h)]
      by_cases ht : t' = t
      · subst ht
        simp [LkCtx.row, lkKeyExists, lkGetKey, hm, hs, hget]
      · simp [LkCtx.row, lkKeyExists, lkGetKey, ht, hs]
    · simp [hs]

/-! ## Several bindings of one key -/

/-- Bind key `i` in several tables, one after the other. -/
def LkCtx.putAll (c : LkCtx) (i : Nat) (bs : List (Nat × Int)) : LkCtx :=
  bs.foldl (fun c b => c.putKey b.1 i b.2) c

/-- The same on a row; each binding may create its table. -/
def Row.putAll (alt : Bool) : (Nat → Bool) → Row → List (Nat × Int) → Row
  | _, r, [] => r
  | exist, r, b :: bs => Row.putAll alt (fun t => t = b.1 || exist t) (r.put exist alt b.1 b.2) bs

theorem forM_lkAddKey_eq_ok {c c' : LkCtx} {i : Nat} {bs : List (Nat × Int)} :
    (forM bs fun b => lkAddKey b.1 i b.2).run c = .ok () c' ↔
      (∀ b ∈ bs, b.2 ≠ codeForUnknownKsym ∧
        (c.keywords.keymaps = true → lkMapExists c b.1 = true)) ∧ c' = c.putAll i bs := by
  induction bs generalizing c with
  | nil =>
    rw [forM_nil_eq_ok]
    simp [LkCtx.putAll]
  | cons b bs ih =>
    have hkw : (c.putKey b.1 i b.2).keywords = c.keywords := (SameSettings.putKey c _ _ _).keywords
    -- with a `keymaps` line a binding creates no map, so its maps can be looked up before the loop
    have hex (hb : c.keywords.keymaps = true → lkMapExists c b.1 = true) (t : Nat) :
        (c.keywords.keymaps = true → lkMapExists (c.putKey b.1 i b.2) t = true) ↔
        (c.keywords.keymaps = true → lkMapExists c t = true) := by
      refine forall_congr' fun hk => ?_
      rw [lkMapExists_putKey]
      by_cases ht : t = b.1
      · simp [ht, hb hk]
      · simp [ht]
    simp only [forM_cons_eq_ok, lkAddKey_eq_ok, List.forall_mem_cons]
    constructor
    · rintro ⟨c₁, ⟨hv, hb, rfl⟩, h⟩
      rw [ih] at h
      simp only [hkw, hex hb] at h
      exact ⟨⟨⟨hv, hb⟩, h.1⟩, h.2⟩
    · rintro ⟨⟨⟨hv, hb⟩, h⟩, rfl⟩
      refine ⟨c.putKey b.1 i b.2, ⟨hv, hb, rfl⟩, ih.mpr ?_⟩
      simp only [hkw, hex hb]
      exact ⟨h, rfl⟩

section PutAll

variable (c : LkCtx) (i : Nat) (bs : List (Nat × Int))

theorem SameSettings.putAll : SameSettings c (c.putAll i bs) := by
  induction bs generalizing c with
  | nil => exact refl c
  | cons b bs ih => exact (putKey c b.1 i b.2).trans (ih _)

theorem lkMapExists_putAll (t : Nat) :
    lkMapExists (c.putAll i bs) t = (decide (t ∈ bs.map Prod.fst) || lkMapExists c t) := by
  induction bs generalizing c with
  | nil => simp [LkCtx.putAll]
  | cons b bs ih =>
    have h := ih (c.putKey b.1 i b.2)
    rw [lkMapExists_putKey] at h
    refine h.trans ?_
    simp only [List.map_cons, List.mem_cons]
    by_cases ht : t = b.1
    · simp [ht]
    · simp only [ht, decide_false, Bool.false_or, false_or]

theorem row_putAll_ne {i' : Nat} (h : i' ≠ i) : (c.putAll i bs).row i' = c.row i' := by
  induction bs generalizing c with
  | nil => rfl
  | cons b bs ih => exact (ih _).trans (row_putKey_ne c b.1 b.2 h)

theorem row_putAll (h : ∀ b ∈ bs, b.2 ≠ codeForUnknownKsym) :
    (c.putAll i bs).row i =
      Row.putAll c.keywords.altIsMeta (lkMapExists c) (c.row i) bs := by
  induction bs generalizing c with
  | nil => rfl
  | cons b bs ih =>
    rw [List.forall_mem_cons] at h
    have hex : lkMapExists (c.putKey b.1 i b.2) = fun t => t = b.1 || lkMapExists c t :=
      funext (lkMapExists_putKey c b.1 i b.2)
    refine (ih (c.putKey b.1 i b.2) h.2).trans ?_
    rw [(SameSettings.putKey c b.1 i b.2).keywords, hex, row_putKey c b.1 i h.1]
    rfl

end PutAll

/-! ## Complete lines -/

/-- The existing maps, in ascending order. -/
def LkCtx.maps (c : LkCtx) : List Nat := (List.range c.keymap.total).filter (lkMapExists c)

theorem mem_maps {c : LkCtx} {t : Nat} : t ∈ c.maps ↔ lkMapExists c t = true := by
  rw [LkCtx.maps, List.mem_filter, List.mem_range, and_iff_right_iff_imp]
  exact lkMapExists_lt

/-- The bindings of a line for the maps `ms`, the first of which is the `i`th one. -/
def fillBindings (vs : List Int) (ms : List Nat) (i : Nat) : List (Nat × Int) :=
  ((ms.zipIdx i).filter fun q => fillsMap vs q.2).map fun q => (q.1, vs.getD q.2 kHole)

/-- The bindings that a complete line makes. -/
def lineBindings (c : LkCtx) (vs : List Int) : List (Nat × Int) :=
  if c.keywords.keymaps then fillBindings vs c.maps 0 else vs.zipIdx.map Prod.swap

theorem fillBindings_cons (vs : List Int) (m : Nat) (ms : List Nat) (i : Nat) :
    fillBindings vs (m :: ms) i =
      (if fillsMap vs i then [(m, vs.getD i kHole)] else []) ++
        fillBindings vs ms (i + 1) := by
  unfold fillBindings
  rw [List.zipIdx_cons, List.filter_cons]
  split <;> simp_all

theorem fst_mem_of_mem_fillBindings {vs : List Int} {ms : List Nat} {i : Nat} {b : Nat × Int}
    (h : b ∈ fillBindings vs ms i) : b.1 ∈ ms := by
  simp only [fillBindings, List.mem_map, List.mem_filter] at h
  obtain ⟨q, ⟨hq, -⟩, rfl⟩ := h
  exact List.fst_mem_of_mem_zipIdx hq

/-- The loop over the maps, for maps that exist. -/
theorem fillMaps_eq_ok {key : Nat} {vs : List Int} {js : List Nat} {i n : Nat} {c c' : LkCtx} :
    (fillMaps key vs js i).run c = .ok n c' ↔
      (∀ b ∈ fillBindings vs (js.filter (lkMapExists c)) i, b.2 ≠ codeForUnknownKsym) ∧
        n = i + (js.filter (lkMapExists c)).length ∧
        c' = c.putAll key (fillBindings vs (js.filter (lkMapExists c)) i) := by
  induction js generalizing i c with
  | nil =>
    simp [fillMaps, fillBindings, LkCtx.putAll, eq_comm]
  | cons j js ih =>
    by_cases hj : lkMapExists c j = true
    · rw [List.filter_cons_of_pos hj, fillBindings_cons]
      by_cases hc : fillsMap vs i = true
      · have hex : lkMapExists (c.putKey j key (vs.getD i kHole)) = lkMapExists c := by
          funext t
          rw [lkMapExists_putKey]
          by_cases ht : t = j
          · simp [ht, hj]
          · simp [ht]
        have hrun : (fillMaps key vs (j :: js) i).run c =
            (lkAddKey j key (vs.getD i kHole) >>= fun _ => fillMaps key vs js (i + 1)).run c := by
          simp [fillMaps, hj, hc]
        simp only [hrun, Result.seq_eq_ok, lkAddKey_eq_ok, hc, ↓reduceIte, List.singleton_append,
          List.forall_mem_cons, List.length_cons]
        constructor
        · rintro ⟨c₁, ⟨hv, -, rfl⟩, h⟩
          rw [ih, hex] at h
          exact ⟨⟨hv, h.1⟩, by omega, h.2.2⟩
        · rintro ⟨⟨hv, h⟩, hn, rfl⟩
          refine ⟨_, ⟨hv, fun _ => hj, rfl⟩, ?_⟩
          rw [ih, hex]
          exact ⟨h, by omega, rfl⟩
      · have hrun : (fillMaps key vs (j :: js) i).run c = (fillMaps key vs js (i + 1)).run c := by
          simp [fillMaps, hj, hc]
        rw [hrun, ih]
        simp only [hc, Bool.false_eq_true, ↓reduceIte, List.nil_append, List.length_cons,
          Nat.add_right_comm i 1, ← Nat.add_assoc]
    · have hrun : (fillMaps key vs (j :: js) i).run c = (fillMaps key vs js i).run c := by
        simp [fillMaps, hj]
      rw [hrun, ih, List.filter_cons_of_neg hj]

theorem bindMaps_eq_ok {key : Nat} {vs : List Int} {c c' : LkCtx} :
    (bindMaps key vs).run c = .ok () c' ↔
      (∀ b ∈ fillBindings vs c.maps 0, b.2 ≠ codeForUnknownKsym) ∧ vs.length ≤ c.maps.length ∧
        c' = c.putAll key (fillBindings vs c.maps 0) := by
  have hrun : (bindMaps key vs).run c = (fillMaps key vs (List.range c.keymap.total) 0 >>= fun i =>
      if i < vs.length then throw (.tooManyEntries vs.length) else pure ()).run c := rfl
  rw [hrun, Result.bind_eq_ok]
  simp only [fillMaps_eq_ok, Nat.zero_add]
  change (∃ a s', (_ ∧ a = c.maps.length ∧ s' = c.putAll key (fillBindings vs c.maps 0)) ∧ _) ↔ _
  constructor
  · rintro ⟨n, c₁, ⟨hv, rfl, rfl⟩, h⟩
    split at h
    · cases h
    · cases h
      exact ⟨hv, by omega, rfl⟩
  · rintro ⟨hv, hle, rfl⟩
    refine ⟨_, _, ⟨hv, rfl, rfl⟩, ?_⟩
    rw [if_neg (by omega)]
    rfl

theorem bindColumns_eq_ok {key : Nat} {vs : List Int} {c c' : LkCtx}
    (hk : c.keywords.keymaps = false) :
    (bindColumns key vs).run c = .ok () c' ↔
      (∀ b ∈ vs.zipIdx.map Prod.swap, b.2 ≠ codeForUnknownKsym) ∧
        c' = c.putAll key (vs.zipIdx.map Prod.swap) := by
  have hrun : bindColumns key vs = forM (vs.zipIdx.map Prod.swap) fun b => lkAddKey b.1 key b.2 := by
    rw [List.forM_map]
    rfl
  rw [hrun, forM_lkAddKey_eq_ok]
  simp only [hk, Bool.false_eq_true, false_implies, and_true]

/-- The effect of killing the old definitions of a key. -/
def LkCtx.unbind (c : LkCtx) (i : Nat) : LkCtx := c.maps.foldl (fun c t => c.delKey t i) c

theorem killOldDefs_run (key : Nat) (c : LkCtx) :
    (killOldDefs key).run c = .ok () (c.unbind key) := by
  have hloop (js : List Nat) (c : LkCtx) : (forM js fun j => (do
      if !lkMapExists (← get) j then return ()
      lkDelKey j key : Lk Unit)).run c =
        .ok () ((js.filter (lkMapExists c)).foldl (fun c t => c.delKey t key) c) := by
    induction js generalizing c with
    | nil => rfl
    | cons j js ih =>
      rw [forM_cons_eq_ok]
      by_cases hj : lkMapExists c j = true
      · refine ⟨c.delKey j key, by simp [hj, lkDelKey_run hj], (ih _).trans ?_⟩
        have hex : lkMapExists (c.delKey j key) = lkMapExists c :=
          funext (lkMapExists_delKey c j key)
        rw [List.filter_cons_of_pos hj, hex]
        rfl
      · refine ⟨c, by simp [hj], (ih c).trans ?_⟩
        rw [List.filter_cons_of_neg hj]
  exact (Result.bind_of_ok (EStateM.run_get c)).trans (hloop _ c)

/-- Afterwards the key is bound nowhere. -/
theorem rowUpdate_unbind (c : LkCtx) (i : Nat) :
    RowUpdate i (fun _ _ => none) c (c.unbind i) := by
  have hfold (ms : List Nat) (c : LkCtx) : RowUpdate i (fun r t => if t ∈ ms then none else r t) c
      (ms.foldl (fun c t => c.delKey t i) c) := by
    induction ms generalizing c with
    | nil => exact .refl i c
    | cons m ms ih =>
      have hstep : RowUpdate i (fun r => Function.update r m none) c (c.delKey m i) :=
        ⟨.delKey c m i, funext (lkMapExists_delKey c m i), total_delKey c m i, row_delKey c m i,
          fun i' h => row_delKey_ne c m h⟩
      refine { hstep.trans (ih _) with row := (hstep.trans (ih _)).row.trans ?_ }
      funext t
      by_cases ht : t = m
      · simp [ht]
      · simp [ht]
  have h := hfold c.maps c
  refine { h with row := h.row.trans ?_ }
  funext t
  by_cases ht : lkMapExists c t = true
  · simp [mem_maps, ht]
  · simp [mem_maps, ht, row_eq_none_of_not_exists (Bool.eq_false_iff.mpr ht)]

/-- The context in which the values of a complete line are bound. -/
def LkCtx.startLine (c : LkCtx) (key : Nat) (vs : List Int) : LkCtx :=
  if vs.length = 1 then { c with keyConstant := c.keyConstant.set key true }.unbind key else c

theorem markConstant_run (key : Nat) (vs : List Int) (c : LkCtx) :
    (markConstant key vs).run c = .ok () (c.startLine key vs) := by
  unfold markConstant LkCtx.startLine
  by_cases h : vs.length = 1
  · simp only [h, ↓reduceIte]
    exact (Result.bind_of_ok rfl).trans (killOldDefs_run key _)
  · simp only [h, ↓reduceIte]
    rfl

/-- The values of a complete line can be bound. -/
def LineOk (c : LkCtx) (vs : List Int) : Prop :=
  (∀ b ∈ lineBindings c vs, b.2 ≠ codeForUnknownKsym) ∧
    (c.keywords.keymaps = true → vs.length ≤ c.maps.length)

/-- A complete line for a key in range. -/
theorem singleline_eq_ok {n : Int} (h0 : 0 ≤ n) (hn : n < nrKeys) {vs : List Int} {c c' : LkCtx} :
    (singleline n vs).run c = .ok () c' ↔
      LineOk (c.startLine n.toNat vs) vs ∧
        c' = (c.startLine n.toNat vs).putAll n.toNat (lineBindings (c.startLine n.toNat vs) vs) := by
  have hrange : (decide (n < 0) || decide (n ≥ nrKeys)) = false := by
    simp only [Bool.or_eq_false_iff, decide_eq_false_iff_not]
    omega
  have hrun : (singleline n vs).run c =
      (if (c.startLine n.toNat vs).keywords.keymaps then bindMaps n.toNat vs
        else bindColumns n.toNat vs).run (c.startLine n.toNat vs) := by
    unfold singleline
    simp only [hrange, Bool.false_eq_true, ↓reduceIte]
    exact (Result.bind_of_ok (markConstant_run _ vs c)).trans
      (Result.bind_of_ok (EStateM.run_get _))
  rw [hrun]
  unfold LineOk lineBindings
  by_cases hk : (c.startLine n.toNat vs).keywords.keymaps = true
  · simp only [hk, ↓reduceIte, bindMaps_eq_ok, forall_const, and_assoc]
  · simp only [hk, Bool.false_eq_true, ↓reduceIte, false_implies, and_true,
      bindColumns_eq_ok (Bool.eq_false_iff.mpr hk)]

/-- A key number that a line can be about. -/
def KeyInRange (n : Int) : Prop := 0 ≤ n ∧ n < nrKeys

/-- The test for a key out of range, which both kinds of lines begin with. -/
theorem outOfRange_eq_false {n : Int} :
    (decide (n < 0) || decide (n ≥ nrKeys)) = false ↔ KeyInRange n := by
  simp only [Bool.or_eq_false_iff, decide_eq_false_iff_not, Int.not_lt, ge_iff_le, Int.not_le,
    KeyInRange]

/-- What a complete line does: nothing if its key is out of range. -/
theorem singleline_cases {n : Int} {vs : List Int} {c c' : LkCtx}
    (h : (singleline n vs).run c = .ok () c') :
    (¬ KeyInRange n ∧ c' = c) ∨
    (KeyInRange n ∧ LineOk (c.startLine n.toNat vs) vs ∧
      c' = (c.startLine n.toNat vs).putAll n.toNat (lineBindings (c.startLine n.toNat vs) vs)) := by
  by_cases hn : KeyInRange n
  · exact .inr ⟨hn, (singleline_eq_ok hn.1 hn.2).mp h⟩
  · have hrange := Bool.eq_true_of_not_eq_false (outOfRange_eq_false.not.mpr hn)
    simp only [singleline, hrange, ↓reduceIte] at h
    cases h
    exact .inl ⟨hn, rfl⟩

/-- What a line with modifiers does. -/
theorem modifierline_cases {mod : Nat} {n v : Int} {c c' : LkCtx}
    (h : (modifierline mod n v).run c = .ok () c') :
    (¬ KeyInRange n ∧ c' = c) ∨
    (KeyInRange n ∧ v ≠ codeForUnknownKsym ∧
      (c.keywords.keymaps = true → lkMapExists c mod = true) ∧ c' = c.putKey mod n.toNat v) := by
  simp only [modifierline] at h
  split at h
  · rename_i hn
    cases h
    exact .inl ⟨fun hr => Bool.false_ne_true ((outOfRange_eq_false.mpr hr).symm.trans hn), rfl⟩
  · rename_i hn
    exact .inr ⟨outOfRange_eq_false.mp (Bool.eq_false_iff.mpr hn), lkAddKey_eq_ok.mp h⟩

/-! ## Steps -/

/-- What a statement may be about: the maps it adds, the maps its bindings may create, and the keys
it binds. -/
structure Scope where
  adds : Nat → Prop
  table : Nat → Prop
  key : Nat → Prop

/-- One change of the context within a scope. -/
inductive KeyStep (sc : Scope) : LkCtx → LkCtx → Prop
  | addMap {c : LkCtx} {t : Nat} (ht : sc.adds t) : KeyStep sc c (c.addMap t)
  | putKey {c : LkCtx} {t i : Nat} {v : Int} (ht : lkMapExists c t = true ∨ sc.table t)
      (hi : sc.key i) (hv : v ≠ codeForUnknownKsym)
      (hk : c.keywords.keymaps = true → lkMapExists c t = true) : KeyStep sc c (c.putKey t i v)
  | delKey {c : LkCtx} {t i : Nat} (hi : sc.key i) : KeyStep sc c (c.delKey t i)
  | mark {c : LkCtx} {i : Nat} (hi : sc.key i) :
      KeyStep sc c { c with keyConstant := c.keyConstant.set i true }
  | settings {c c' : LkCtx} (hm : c'.keymap = c.keymap) (hc : c'.keyConstant = c.keyConstant)
      (hk : c.keywords.keymaps = true → c'.keywords.keymaps = true) : KeyStep sc c c'

abbrev KeySteps (sc : Scope) : LkCtx → LkCtx → Prop := ReflTransGen (KeyStep sc)

/-- The key of a definition line. -/
def Stmt.line : Stmt → Option Int
  | .keycode n _ => some n
  | .modified _ n _ => some n
  | .plain n _ => some n
  | _ => none

def Stmt.isKeymaps : Stmt → Bool
  | .keymaps _ => true
  | _ => false

def Stmt.scope (s : Stmt) : Scope where
  adds t := s.isKeymaps = true ∧ t < maxNrKeymaps
  table t := match s with
    | .modified mods _ _ => t = modMask mods
    | _ => t < maxNrKeymaps
  key i := s.line = some (i : Int)

/-- A loop makes the steps of its rounds. -/
theorem forM_steps {ι : Type} {f : ι → Lk PUnit} {sc : Scope} {l : List ι}
    (hf : ∀ a ∈ l, ∀ c c', (f a).run c = .ok () c' → KeySteps sc c c') {c c' : LkCtx}
    (h : (forM l f).run c = .ok () c') : KeySteps sc c c' :=
  forM_rel (fun _ => .refl) (fun h₁ h₂ => h₁.trans h₂) hf h

section Steps

variable {sc : Scope} {c c' : LkCtx}

theorem modify_steps {f : LkCtx → LkCtx} (hf : KeyStep sc c (f c))
    (h : (modify f : Lk PUnit).run c = .ok () c') : KeySteps sc c c' := by
  cases h
  exact .single hf

theorem lkAddFunc_steps {n : Nat} {str : List Char} (h : (lkAddFunc n str).run c = .ok () c') :
    KeySteps sc c c' :=
  modify_steps (.settings rfl rfl id) h

theorem lkAppendCompose_steps {d b r : Int} (h : (lkAppendCompose d b r).run c = .ok () c') :
    KeySteps sc c c' :=
  modify_steps (.settings rfl rfl id) h

theorem range0_steps {r : Range} (htab : ∀ t, t < maxNrKeymaps → sc.adds t)
    (h : (range0 r).run c = .ok () c') : KeySteps sc c c' := by
  cases r with
  | single n =>
    simp only [range0] at h
    split at h
    · cases h
    · rename_i hn
      simp only [Bool.or_eq_true, decide_eq_true_eq] at hn
      exact modify_steps (.addMap (htab _ (by omega))) h
  | dash lo hi =>
    simp only [range0] at h
    split at h
    · cases h
    · rename_i hn
      simp only [Bool.or_eq_true, decide_eq_true_eq] at hn
      refine forM_steps (fun t ht a b hab => ?_) h
      rw [List.mem_range'_1] at ht
      exact modify_steps (.addMap (htab _ (by omega))) hab

theorem putAll_steps {i : Nat} (hi : sc.key i) {bs : List (Nat × Int)}
    (hb : ∀ b ∈ bs, b.2 ≠ codeForUnknownKsym ∧ (lkMapExists c b.1 = true ∨ sc.table b.1) ∧
      (c.keywords.keymaps = true → lkMapExists c b.1 = true)) :
    KeySteps sc c (c.putAll i bs) := by
  induction bs generalizing c with
  | nil => exact .refl
  | cons b bs ih =>
    rw [List.forall_mem_cons] at hb
    obtain ⟨⟨hv, ht, hk⟩, hbs⟩ := hb
    have hmono : ∀ t, lkMapExists c t = true → lkMapExists (c.putKey b.1 i b.2) t = true := by
      intro t h
      rw [lkMapExists_putKey, h, Bool.or_true]
    refine .head (.putKey ht hi hv hk) (ih fun b' h' => ?_)
    obtain ⟨hv', ht', hk'⟩ := hbs b' h'
    rw [(SameSettings.putKey c b.1 i b.2).keywords]
    exact ⟨hv', ht'.imp_left (hmono _), fun h => hmono _ (hk' h)⟩

theorem startLine_steps {i : Nat} (hi : sc.key i) (vs : List Int) :
    KeySteps sc c (c.startLine i vs) := by
  have hfold (ms : List Nat) (c : LkCtx) :
      KeySteps sc c (ms.foldl (fun c t => c.delKey t i) c) := by
    induction ms generalizing c with
    | nil => exact .refl
    | cons m ms ih => exact .head (.delKey hi) (ih _)
  unfold LkCtx.startLine
  split
  · exact .head (.mark hi) (hfold _ _)
  · exact .refl

theorem lineBindings_table {vs : List Int} (hlen : vs.length ≤ maxNrKeymaps) :
    ∀ b ∈ lineBindings c vs, (lkMapExists c b.1 = true ∨ b.1 < maxNrKeymaps) ∧
      (c.keywords.keymaps = true → lkMapExists c b.1 = true) := by
  intro b hb
  unfold lineBindings at hb
  split at hb
  · have := mem_maps.mp (fst_mem_of_mem_fillBindings hb)
    exact ⟨.inl this, fun _ => this⟩
  · rename_i hk
    rw [List.mem_map] at hb
    obtain ⟨q, hq, rfl⟩ := hb
    have := List.snd_lt_of_mem_zipIdx hq
    exact ⟨.inr (by simp only [Prod.fst_swap]; omega), fun h => absurd h hk⟩

theorem singleline_steps {n : Int} {vs : List Int} (hlen : vs.length ≤ maxNrKeymaps)
    (htab : ∀ t, t < maxNrKeymaps → sc.table t) (hkey : ∀ i : Nat, n = i → sc.key i)
    (h : (singleline n vs).run c = .ok () c') : KeySteps sc c c' := by
  obtain ⟨-, rfl⟩ | ⟨hn, ⟨hv, -⟩, rfl⟩ := singleline_cases h
  · exact .refl
  · have hi : sc.key n.toNat := hkey _ (Int.toNat_of_nonneg hn.1).symm
    refine (startLine_steps hi vs).trans (putAll_steps hi fun b hb => ?_)
    obtain ⟨ht, hk⟩ := lineBindings_table hlen b hb
    exact ⟨hv b hb, ht.imp_right (htab _), hk⟩

theorem modifierline_steps {mod : Nat} {n v : Int} (ht : sc.table mod)
    (hkey : ∀ i : Nat, n = i → sc.key i) (h : (modifierline mod n v).run c = .ok () c') :
    KeySteps sc c c' := by
  obtain ⟨-, rfl⟩ | ⟨hn, hv, hk, rfl⟩ := modifierline_cases h
  · exact .refl
  · exact .single (.putKey (.inr ht) (hkey _ (Int.toNat_of_nonneg hn.1).symm) hv hk)

end Steps

/-- A statement makes steps about its own tables and keys only. -/
theorem execStmt_steps {s : Stmt} {c c' : LkCtx} (h : (execStmt s).run c = .ok () c') :
    KeySteps s.scope c c' := by
  cases s with
  | charset name =>
    simp only [execStmt, charsetline, EStateM.run_bind, EStateM.run_get] at h
    cases hs : lkSetCharset c name with
    | none => simp [hs] at h
    | some c₁ =>
      simp only [hs] at h
      cases h
      obtain ⟨n, -, rfl⟩ := Option.map_eq_some_iff.mp hs
      exact .single (.settings rfl rfl id)
  | altIsMeta => exact modify_steps (.settings rfl rfl id) h
  | stringsAsUsual =>
    obtain ⟨c₂, h₂, h⟩ := Result.seq_eq_ok.mp h
    obtain ⟨c₁, h₁, h₂⟩ := Result.seq_eq_ok.mp h₂
    exact ((forM_steps (fun _ _ _ _ => lkAddFunc_steps) h₁).trans (lkAddFunc_steps h₂)).trans
      (modify_steps (.settings rfl rfl id) h)
  | composeAsUsual charset =>
    obtain ⟨c₁, h₁, hloop⟩ := Result.seq_eq_ok.mp h
    have hc : c₁ = c := by
      cases charset with
      | none => cases h₁; rfl
      | some name =>
        simp only [checkCompose] at h₁
        split at h₁ <;> cases h₁
        rfl
    subst hc
    exact forM_steps (fun _ _ _ _ => lkAppendCompose_steps) hloop
  | keymaps ranges =>
    obtain ⟨c₁, h₁, h⟩ := Result.seq_eq_ok.mp h
    have hadds : ∀ t, t < maxNrKeymaps → (Stmt.keymaps ranges).scope.adds t :=
      fun _ ht => ⟨rfl, ht⟩
    exact (forM_steps (fun r _ _ _ => range0_steps hadds) h₁).trans
      (modify_steps (.settings rfl rfl fun _ => rfl) h)
  | keycode n vs =>
    obtain ⟨c₁, h₁, h⟩ := Result.seq_eq_ok.mp h
    simp only [rvalue1] at h₁
    split at h₁
    · cases h₁
    · cases h₁
      exact singleline_steps (by omega) (fun _ => id) (fun _ => congrArg some) h
  | modified mods n v => exact modifierline_steps rfl (fun _ => congrArg some) h
  | plain n v => exact modifierline_steps (show 0 < maxNrKeymaps by decide) (fun _ => congrArg some) h
  | string sym value =>
    simp only [execStmt, strline] at h
    split at h
    · cases h
    · exact lkAddFunc_steps h
  | compose d b r => exact lkAppendCompose_steps h

/-! ## Rules for statements and keymaps -/

/-- What every step of a statement keeps, the statement keeps. -/
theorem execStmt_preserves {s : Stmt} {I : LkCtx → Prop}
    (hstep : ∀ c c', KeyStep s.scope c c' → I c → I c') {c c' : LkCtx}
    (h : (execStmt s).run c = .ok () c') (hI : I c) : I c' := by
  have hs := execStmt_steps h
  clear h
  induction hs with
  | refl => exact hI
  | tail _ hcd ih => exact hstep _ _ hcd ih

theorem runStmts_cons_eq_ok {s : Stmt} {ss : List Stmt} {c c' : LkCtx} :
    (runStmts (s :: ss)).run c = .ok () c' ↔
      ∃ c₁, (execStmt s).run c = .ok () c₁ ∧ (runStmts ss).run c₁ = .ok () c' :=
  forM_cons_eq_ok

theorem runStmts_append_eq_ok {ss ts : List Stmt} {c c' : LkCtx} :
    (runStmts (ss ++ ts)).run c = .ok () c' ↔
      ∃ c₁, (runStmts ss).run c = .ok () c₁ ∧ (runStmts ts).run c₁ = .ok () c' :=
  forM_append_eq_ok

/-- What every statement of a keymap keeps, the keymap keeps. -/
theorem runStmts_preserves {I : LkCtx → Prop} {ss : List Stmt}
    (hstmt : ∀ s ∈ ss, ∀ c c', (execStmt s).run c = .ok () c' → I c → I c') {c c' : LkCtx}
    (h : (runStmts ss).run c = .ok () c') (hI : I c) : I c' := by
  induction ss generalizing c with
  | nil =>
    cases h
    exact hI
  | cons s ss ih =>
    obtain ⟨c₁, h₁, h⟩ := runStmts_cons_eq_ok.mp h
    rw [List.forall_mem_cons] at hstmt
    exact ih hstmt.2 h (hstmt.1 c c₁ h₁ hI)

/-- What every step of every statement keeps, the keymap keeps. -/
theorem runStmts_step_preserves {I : LkCtx → Prop} {ss : List Stmt}
    (hstep : ∀ s ∈ ss, ∀ c c', KeyStep s.scope c c' → I c → I c') {c c' : LkCtx}
    (h : (runStmts ss).run c = .ok () c') (hI : I c) : I c' :=
  runStmts_preserves (fun s hs _ _ hd => execStmt_preserves (hstep s hs) hd) h hI

end Kbd.Keymap
