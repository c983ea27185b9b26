import Kbd.Keymap.Verify.Kmap
import Kbd.Keymap.Verify.Ksyms
import Kbd.Xkb.Walk
import Mathlib.Data.List.Induction

/-!
# The tables that `xkeymap_walk` fills

Each round of the loops of `xkeymap_walk` binds one key in one table, and no two rounds bind the same
key in the same table. So after a walk that succeeds each key has the code of its round.
-/

namespace Kbd.Xkb

open Kbd.Keymap Kbd.Lib

/-! ## The code of a round -/

section Settings

variable {c c' : LkCtx} (hflags : c'.flags = c.flags) (hcharset : c'.charset = c.charset)
  (x : Xkeymap)

include hflags hcharset

theorem xkeymapLookupBuiltinName_congr (name : List Char) :
    xkeymapLookupBuiltinName c' name = xkeymapLookupBuiltinName c name := by
  simp only [xkeymapLookupBuiltinName, ksymtocode_congr hflags hcharset]

theorem xkeymapGetCodeFromSemanticKeysym_congr (sym : Keysym) :
    xkeymapGetCodeFromSemanticKeysym c' sym = xkeymapGetCodeFromSemanticKeysym c sym := by
  simp only [xkeymapGetCodeFromSemanticKeysym, xkeymapLookupSemanticKeysym,
    xkeymapLookupBuiltinName_congr hflags hcharset]

theorem codeOfName_congr (name : List Char) : codeOfName c' name = codeOfName c name := by
  simp only [codeOfName, ksymtocode_congr hflags hcharset, convertCode_congr hflags hcharset]

theorem xkeymapGetCode_congr (ks : Keysyms) (sym : Keysym) :
    xkeymapGetCode c' ks sym = xkeymapGetCode c ks sym := by
  simp only [xkeymapGetCode, xkeymapGetCodeFromSemanticKeysym_congr hflags hcharset,
    xkeymapGetCodeFromName, codeOfName_congr hflags hcharset, parseHexcode,
    convertCode_congr hflags hcharset]

theorem cellCode_congr (key slot mods : Nat) :
    cellCode x c' key slot mods = cellCode x c key slot mods := by
  simp only [cellCode, symbolCode, xkeymapGetCode_congr hflags hcharset,
    ksymtocode_congr hflags hcharset, addCapslock_congr hflags hcharset]

end Settings

/-! ## The place of a round -/

section

variable (x : Xkeymap)

theorem groupStates_cases : groupStates x = 4 ∨ groupStates x = 8 := by
  unfold groupStates
  split
  · exact Or.inr rfl
  · exact Or.inl rfl

/-- `slotTable` as a function of the number of group states. -/
def tableOf (states slot mods : Nat) : Nat :=
  (layoutSwitch.getD (slot % states % 4) 0 ||| (if slot % states ≥ 4 then mCtrll else 0)) ||| mods |||
    (if slot ≥ states then mCtrlr else 0)

theorem slotTable_eq (slot mods : Nat) : slotTable x slot mods = tableOf (groupStates x) slot mods := by
  simp only [slotTable, slotHeld, decide_eq_true_eq]
  rfl

theorem tableOf_four : ∀ slot < 8, ∀ mods < 16,
    tableOf 4 slot mods = 128 * (slot / 4) + 16 * (slot % 4) + mods := by
  decide

theorem tableOf_eight : ∀ slot < 16, ∀ mods < 16, tableOf 8 slot mods = 16 * slot + mods := by
  decide

/-- The table tells the slot and the modifiers. -/
theorem slotTable_inj {slot slot' mods mods' : Nat} (hslot : slot < 2 * groupStates x)
    (hslot' : slot' < 2 * groupStates x) (hmods : mods < 16) (hmods' : mods' < 16)
    (h : slotTable x slot mods = slotTable x slot' mods') : slot = slot' ∧ mods = mods' := by
  rw [slotTable_eq, slotTable_eq] at h
  rcases groupStates_cases x with hs | hs
  · rw [hs] at h hslot hslot'
    rw [tableOf_four slot hslot mods hmods, tableOf_four slot' hslot' mods' hmods'] at h
    omega
  · rw [hs] at h hslot hslot'
    rw [tableOf_eight slot hslot mods hmods, tableOf_eight slot' hslot' mods' hmods'] at h
    omega

theorem mem_keycodes {key : Nat} : key ∈ keycodes x ↔
    x.keymap.minKeycode ≤ key ∧ evdevOffset ≤ key ∧ key ≤ x.keymap.maxKeycode ∧
      key < nrKeys + evdevOffset := by
  simp only [keycodes, List.mem_range'_1, Nat.min_def, evdevOffset, nrKeys]
  split <;> omega

theorem mem_walkCells {key slot mods : Nat} : (key, slot, mods) ∈ walkCells x ↔
    key ∈ keycodes x ∧ slot < groupStates x * (if hasGroupSwitch x then 2 else 1) ∧ mods < 16 := by
  simp only [walkCells, List.mem_flatMap, List.mem_map, List.mem_range, Prod.mk.injEq]
  constructor
  · rintro ⟨_, hkey, _, hslot, _, hmods, rfl, rfl, rfl⟩
    exact ⟨hkey, hslot, hmods⟩
  · rintro ⟨hkey, hslot, hmods⟩
    exact ⟨key, hkey, slot, hslot, mods, hmods, rfl, rfl, rfl⟩

/-- Where a round binds its key: the table and the number of the key. -/
def place : Nat × Nat × Nat → Nat × Nat
  | (key, slot, mods) => (slotTable x slot mods, key - evdevOffset)

theorem place_inj {a b : Nat × Nat × Nat} (ha : a ∈ walkCells x) (hb : b ∈ walkCells x)
    (h : place x a = place x b) : a = b := by
  obtain ⟨key, slot, mods⟩ := a
  obtain ⟨key', slot', mods'⟩ := b
  obtain ⟨hkey, hslot, hmods⟩ := (mem_walkCells x).mp ha
  obtain ⟨hkey', hslot', hmods'⟩ := (mem_walkCells x).mp hb
  obtain ⟨htable, hindex⟩ := Prod.mk.injEq .. ▸ h
  have htwo : groupStates x * (if hasGroupSwitch x then 2 else 1) ≤ 2 * groupStates x := by
    split <;> omega
  obtain ⟨rfl, rfl⟩ := slotTable_inj x (by omega) (by omega) hmods hmods' htable
  have h₁ := ((mem_keycodes x).mp hkey).2.1
  have h₂ := ((mem_keycodes x).mp hkey').2.1
  have hkeys : key = key' := by omega
  rw [hkeys]

end

/-! ## The loop -/

/-- The key is bound to the code. -/
def Bound (ctx : LkCtx) (p : Nat × Nat) (code : Int) : Prop :=
  lkMapExists ctx p.1 = true ∧ ctx.row p.2 p.1 = some code

theorem Bound.lkGetKey {ctx : LkCtx} {p : Nat × Nat} {code : Int} (h : Bound ctx p code) :
    lkGetKey ctx p.1 p.2 = code := by
  rw [lkGetKey_eq_row h.1, h.2]
  rfl

/-- Binding a key where Alt is not Meta changes this key in this table only. -/
theorem bound_putKey {ctx : LkCtx} (halt : ctx.keywords.altIsMeta = false) {p : Nat × Nat} {code : Int}
    (hcode : code ≠ codeForUnknownKsym) : Bound (ctx.putKey p.1 p.2 code) p code := by
  refine ⟨by simp [lkMapExists_putKey], ?_⟩
  rw [row_putKey ctx p.1 p.2 hcode, halt]
  simp [Row.put, Row.spills]

theorem Bound.putKey_ne {ctx : LkCtx} (halt : ctx.keywords.altIsMeta = false) {p q : Nat × Nat}
    {code code' : Int} (hcode : code' ≠ codeForUnknownKsym) (hne : p ≠ q) (h : Bound ctx p code) :
    Bound (ctx.putKey q.1 q.2 code') p code := by
  refine ⟨by simp [lkMapExists_putKey, h.1], ?_⟩
  by_cases hi : p.2 = q.2
  · have ht : p.1 ≠ q.1 := fun ht => hne (Prod.ext ht hi)
    rw [hi, row_putKey ctx q.1 q.2 hcode, halt]
    simp only [Row.put, Row.spills, Bool.false_and, Bool.false_eq_true, if_false]
    rw [Function.update_of_ne ht, ← hi, h.2]
  · rw [row_putKey_ne ctx q.1 code' hi, h.2]

section

variable (x : Xkeymap)

theorem walkCell_run (cell : Nat × Nat × Nat) (ctx : LkCtx) :
    (walkCell x cell).run ctx
      = (bindCode (place x cell).1 (place x cell).2 (cellCode x ctx cell.1 cell.2.1 cell.2.2)).run
          ctx := by
  obtain ⟨key, slot, mods⟩ := cell
  rw [walkCell, EStateM.run_bind, EStateM.run_get]
  rfl

theorem bindCode_none_eq_ok {table index : Nat} {ctx ctx' : LkCtx} :
    (bindCode table index none).run ctx = .ok () ctx' ↔ ctx' = ctx := by
  simp [bindCode, eq_comm]

/-- After some rounds each of them has bound its key. -/
theorem walk_bound {ctx : LkCtx} (halt : ctx.keywords.altIsMeta = false)
    {cells : List (Nat × Nat × Nat)} (hcells : cells ⊆ walkCells x) {ctx' : LkCtx}
    (h : (forM cells (walkCell x)).run ctx = .ok () ctx') :
    SameSettings ctx ctx' ∧ ∀ cell ∈ cells, ∀ code,
      cellCode x ctx cell.1 cell.2.1 cell.2.2 = some code → Bound ctx' (place x cell) code := by
  induction cells using List.reverseRecOn generalizing ctx' with
  | nil =>
    rw [forM_nil_eq_ok] at h
    subst h
    exact ⟨SameSettings.refl _, by simp⟩
  | append_singleton cells cell ih =>
    obtain ⟨s, hs, hcell⟩ := forM_concat_eq_ok.mp h
    rw [List.append_subset] at hcells
    obtain ⟨hset, hbound⟩ := ih hcells.1 hs
    have hmem : cell ∈ walkCells x := hcells.2 (by simp)
    have haltS : s.keywords.altIsMeta = false := by rw [hset.keywords, halt]
    rw [walkCell_run, cellCode_congr hset.flags hset.charset] at hcell
    cases hcode : cellCode x ctx cell.1 cell.2.1 cell.2.2 with
    | none =>
      rw [hcode, bindCode_none_eq_ok] at hcell
      subst hcell
      refine ⟨hset, ?_⟩
      intro c hc code hcc
      rcases List.mem_append.mp hc with hc | hc
      · exact hbound c hc code hcc
      · rw [List.mem_singleton.mp hc, hcode] at hcc
        cases hcc
    | some code =>
      rw [hcode] at hcell
      obtain ⟨hne, -, rfl⟩ := lkAddKey_eq_ok.mp hcell
      refine ⟨hset.trans (SameSettings.putKey s _ _ code), ?_⟩
      intro c hc code' hcc
      by_cases hsame : c = cell
      · rw [hsame, hcode] at hcc
        cases hcc
        rw [hsame]
        exact bound_putKey haltS hne
      · have hc' : c ∈ cells := by
          rcases List.mem_append.mp hc with hc | hc
          · exact hc
          · exact absurd (List.mem_singleton.mp hc) hsame
        refine Bound.putKey_ne haltS hne ?_ (hbound c hc' code' hcc)
        exact fun hp => hsame (place_inj x (hcells.1 hc') hmem hp)

/-- The context in which the loops run. -/
def walkCtx (ctx : LkCtx) : LkCtx :=
  { ctx with keywords := { ctx.keywords with altIsMeta := false } }

theorem cellCode_walkCtx (ctx : LkCtx) (key slot mods : Nat) :
    cellCode x (walkCtx ctx) key slot mods = cellCode x ctx key slot mods := by
  have hflags : (walkCtx ctx).flags = ctx.flags := rfl
  have hcharset : (walkCtx ctx).charset = ctx.charset := rfl
  exact cellCode_congr hflags hcharset x key slot mods

theorem xkeymapWalk_eq_true {ctx ctx' : LkCtx} : xkeymapWalk x ctx = (true, ctx') ↔
    (x.keymap.numLayouts ≠ 0 ∧ x.keymap.numLayouts ≤ nrLayouts) ∧
      ∃ s, (forM (walkCells x) (walkCell x)).run (walkCtx ctx) = .ok () s ∧
        ctx' = { s with keywords := ctx.keywords } := by
  rw [xkeymapWalk, ← walkCtx]
  by_cases hnum : x.keymap.numLayouts = 0 ∨ x.keymap.numLayouts > nrLayouts
  · rw [if_pos hnum]
    constructor
    · intro h
      cases h
    · rintro ⟨⟨h0, h4⟩, -⟩
      rcases hnum with h | h
      · exact absurd h h0
      · omega
  · rw [if_neg hnum]
    rw [not_or] at hnum
    generalize (forM (walkCells x) (walkCell x)).run (walkCtx ctx) = res
    cases res with
    | ok a s =>
      constructor
      · intro h
        cases h
        exact ⟨⟨hnum.1, Nat.le_of_not_lt hnum.2⟩, s, rfl, rfl⟩
      · rintro ⟨-, s', hs, rfl⟩
        cases hs
        rfl
    | error e s =>
      constructor
      · intro h
        cases h
      · rintro ⟨-, s', hs, -⟩
        cases hs

/-- After a walk that returns 0 each key has the code of its round. -/
theorem xkeymapWalk_bound {ctx ctx' : LkCtx} (h : xkeymapWalk x ctx = (true, ctx'))
    {key slot mods : Nat} (hcell : (key, slot, mods) ∈ walkCells x) {code : Int}
    (hcode : cellCode x ctx key slot mods = some code) :
    Bound ctx' (slotTable x slot mods, key - evdevOffset) code := by
  obtain ⟨-, s, hs, rfl⟩ := (xkeymapWalk_eq_true x).mp h
  obtain ⟨-, hbound⟩ := walk_bound x rfl (List.Subset.refl _) hs
  exact hbound (key, slot, mods) hcell code ((cellCode_walkCtx x ctx key slot mods).trans hcode)

/-- A walk returns 0 when no keymaps line limits the tables and every code is known. -/
theorem xkeymapWalk_ok {ctx : LkCtx} (hnum : x.keymap.numLayouts ≠ 0)
    (hnum' : x.keymap.numLayouts ≤ nrLayouts) (hkw : ctx.keywords.keymaps = false)
    (hcode : ∀ cell ∈ walkCells x,
      cellCode x ctx cell.1 cell.2.1 cell.2.2 ≠ some codeForUnknownKsym) :
    ∃ ctx', xkeymapWalk x ctx = (true, ctx') := by
  suffices hloop : ∀ cells ⊆ walkCells x, ∀ s, SameSettings (walkCtx ctx) s →
      ∃ s', (forM cells (walkCell x)).run s = .ok () s' by
    obtain ⟨s, hs⟩ := hloop _ (List.Subset.refl _) _ (SameSettings.refl _)
    exact ⟨_, (xkeymapWalk_eq_true x).mpr ⟨⟨hnum, hnum'⟩, s, hs, rfl⟩⟩
  intro cells
  induction cells with
  | nil =>
    intro _ s _
    exact ⟨s, forM_nil_eq_ok.mpr rfl⟩
  | cons cell cells ih =>
    intro hcells s hset
    rw [List.cons_subset] at hcells
    have hcongr : cellCode x s cell.1 cell.2.1 cell.2.2
        = cellCode x ctx cell.1 cell.2.1 cell.2.2 := by
      rw [cellCode_congr hset.flags hset.charset, cellCode_walkCtx]
    have hstep : ∃ s', (walkCell x cell).run s = .ok () s' ∧ SameSettings s s' := by
      rw [walkCell_run, hcongr]
      cases hc : cellCode x ctx cell.1 cell.2.1 cell.2.2 with
      | none => exact ⟨s, rfl, SameSettings.refl s⟩
      | some code =>
        have hknown : code ≠ codeForUnknownKsym := by
          rintro rfl
          exact hcode cell hcells.1 hc
        have hkw' : s.keywords.keymaps = true → lkMapExists s (place x cell).1 = true := by
          intro hs
          rw [hset.keywords] at hs
          exact absurd (hkw.symm.trans hs) Bool.false_ne_true
        exact ⟨_, lkAddKey_eq_ok.mpr ⟨hknown, hkw', rfl⟩, SameSettings.putKey s _ _ code⟩
    obtain ⟨s₁, h₁, hset₁⟩ := hstep
    obtain ⟨s₂, h₂⟩ := ih hcells.2 s₁ (hset.trans hset₁)
    exact ⟨s₂, forM_cons_eq_ok.mpr ⟨s₁, h₁, h₂⟩⟩

end

end Kbd.Xkb
