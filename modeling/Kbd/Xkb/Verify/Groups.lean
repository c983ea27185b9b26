import Kbd.Keymap.Verify.CodeRange
import Kbd.Xkb.Verify.Walk

/-!
# Groups as lock bits

In XKB the symbols ISO_First_Group, ISO_Last_Group, ISO_Prev_Group and ISO_Next_Group change the locked
group. On the console the keys with these symbols toggle lock bits, one bit for each press. The bits of
ShiftL and ShiftR are a number of a group, and CtrlL inverts both of them, so that every group can be
reached from every other by one press. `Run` lets both sides take the same presses: the bits always
stand for the locked group, and the table that they select has the codes of this group.
-/

namespace Kbd.Xkb

open Kbd.Keymap

/-! ## XKB -/

/-- The symbols that change the locked group. -/
inductive GroupAction where
  | first
  | last
  | prev
  | next
  deriving DecidableEq, Repr

namespace GroupAction

def sym : GroupAction → Keysym
  | first => keyIsoFirstGroup
  | last => keyIsoLastGroup
  | prev => keyIsoPrevGroup
  | next => keyIsoNextGroup

/-- The locked group after the action: ISO_Last_Group locks the second group. -/
def lock (numLayouts : Nat) : GroupAction → Nat → Nat
  | first, _ => 0
  | last, _ => 1 % numLayouts
  | prev, g => (g + numLayouts - 1) % numLayouts
  | next, g => (g + 1) % numLayouts

end GroupAction

/-- A key of the console is pressed with some of Shift, AltGr, Control and Alt, and with Mode_switch
held or not. -/
structure Press where
  keycode : Nat
  mods : Nat
  held : Bool
  deriving DecidableEq, Repr

/-- The symbol of a press while group `g` is locked. -/
def pressSymbol (x : Xkeymap) (g : Nat) (p : Press) : Option Keysym :=
  stateSymbol x (p.keycode + evdevOffset) (masks x p.mods)
    ((g + p.held.toNat) % x.keymap.numLayouts)

/-- There is a key with Mode_switch. -/
def HasModeSwitch (x : Xkeymap) : Prop :=
  ∃ keycode < nrKeys, groupSwitchFeature x.keymap (keycode + evdevOffset) = true

/-- The press can be made. -/
structure Press.Valid (x : Xkeymap) (p : Press) : Prop where
  keycode_lt : p.keycode < nrKeys
  mods_lt : p.mods < 16
  mode_switch : p.held = true → HasModeSwitch x

/-! ## The console -/

/-- The lock bits that stand for the locked group. -/
structure Locks where
  shiftl : Bool
  shiftr : Bool
  ctrll : Bool
  deriving DecidableEq, Repr

namespace Locks

/-- No bit is set. -/
def none : Locks := ⟨false, false, false⟩

/-- The number of the group in `layouts`. -/
def group (l : Locks) : Nat :=
  (l.shiftl.toNat + 2 * l.shiftr.toNat) ^^^ (if l.ctrll then 3 else 0)

/-- The layout that the bits stand for. -/
def layout (numLayouts : Nat) (l : Locks) : Nat := layoutOf numLayouts l.group

/-- A key with the code of a lock toggles the bit of the lock. -/
def press (l : Locks) (code : Int) : Locks :=
  if code = kShiftllock then { l with shiftl := !l.shiftl }
  else if code = kShiftrlock then { l with shiftr := !l.shiftr }
  else if code = kCtrlllock then { l with ctrll := !l.ctrll }
  else l

/-- The table in which a key is looked up. -/
def table (l : Locks) (mods : Nat) (held : Bool) : Nat :=
  (if l.shiftl then mShiftl else 0) ||| (if l.shiftr then mShiftr else 0) |||
    (if l.ctrll then mCtrll else 0) ||| mods ||| (if held then mCtrlr else 0)

end Locks

/-- Presses of keys that change the group, each with what it does to the lock bits and to the locked
group. With three layouts ISO_Next_Group is not among them. -/
inductive Run (x : Xkeymap) (ctx : LkCtx) : List Press → Locks → Nat → Prop where
  | start : Run x ctx [] Locks.none 0
  | press {ps : List Press} {locks : Locks} {g : Nat} (p : Press) (a : GroupAction)
      (hrun : Run x ctx ps locks g) (hvalid : p.Valid x) (hsym : pressSymbol x g p = some a.sym)
      (hnext : a = .next → x.keymap.numLayouts ≠ 3) :
      Run x ctx (ps ++ [p])
        (locks.press (lkGetKey ctx (locks.table p.mods p.held) p.keycode))
        (a.lock x.keymap.numLayouts g)

/-! ## One press -/

theorem selectGroup_layout : ∀ numLayouts < 5, ∀ target < numLayouts, ∀ l r c : Bool,
    let locks : Locks := ⟨l, r, c⟩
    let locks' := locks.press (xkeymapSelectGroup numLayouts locks.group target)
    locks'.layout numLayouts = target ∧ (locks'.ctrll → locks.ctrll ∨ numLayouts > 2) := by
  decide

theorem next_layout : ∀ numLayouts < 5, numLayouts ≠ 0 → numLayouts ≠ 3 → ∀ l r c : Bool,
    let locks : Locks := ⟨l, r, c⟩
    let locks' := locks.press
      (if locks.group = 0 ∨ locks.group = 3 then kShiftllock else kShiftrlock)
    locks'.layout numLayouts = (locks.layout numLayouts + 1) % numLayouts ∧
      locks'.ctrll = locks.ctrll := by
  decide

/-! ## The round of a state -/

section

variable (x : Xkeymap)

/-- The bits can be reached: CtrlL is not among them unless there are tables for it. -/
def Reachable (locks : Locks) : Prop := locks.ctrll = true → groupStates x = 8

/-- The lock bits as a number below `group_states`. -/
def Locks.base (locks : Locks) : Nat :=
  locks.shiftl.toNat + 2 * locks.shiftr.toNat + 4 * locks.ctrll.toNat

/-- The slot of a state of the console. -/
def slotOf (locks : Locks) (held : Bool) : Nat := locks.base + (if held then groupStates x else 0)

section

variable {locks : Locks} (h : Reachable x locks) (held : Bool)

include h

theorem base_lt : locks.base < groupStates x := by
  obtain ⟨l, r, c⟩ := locks
  have hl := Bool.toNat_le l
  have hr := Bool.toNat_le r
  have hc := Bool.toNat_le c
  rcases groupStates_cases x with hs | hs
  · cases c with
    | false =>
      simp only [Locks.base, Bool.toNat_false]
      omega
    | true =>
      have := h rfl
      omega
  · simp only [Locks.base]
    omega

theorem slotOf_mod : slotOf x locks held % groupStates x = locks.base := by
  have hlt := base_lt x h
  cases held with
  | false => simp [slotOf, Nat.mod_eq_of_lt hlt]
  | true => simp [slotOf, Nat.mod_eq_of_lt hlt]

theorem slotHeld_slotOf : slotHeld x (slotOf x locks held) = held := by
  have hlt := base_lt x h
  cases held with
  | false => simpa [slotHeld, slotOf] using hlt
  | true => simp [slotHeld, slotOf]

theorem slotGroup_slotOf : slotGroup x (slotOf x locks held) = locks.group := by
  rw [slotGroup, slotOf_mod x h held]
  obtain ⟨l, r, c⟩ := locks
  cases l <;> cases r <;> cases c <;> rfl

theorem slotTable_slotOf (mods : Nat) :
    slotTable x (slotOf x locks held) mods = locks.table mods held := by
  rw [slotTable, slotOf_mod x h held, slotHeld_slotOf x h held, Locks.table]
  obtain ⟨l, r, c⟩ := locks
  cases l <;> cases r <;> cases c <;> rfl

theorem slotSelected_slotOf : slotSelected x (slotOf x locks held)
    = (locks.layout x.keymap.numLayouts + held.toNat) % x.keymap.numLayouts := by
  rw [slotSelected, slotGroup_slotOf x h, slotHeld_slotOf x h, Locks.layout]

end

theorem mem_keycodes_of_numLayoutsForKey {keycode : Nat} (hkey : keycode < nrKeys)
    (h : x.keymap.numLayoutsForKey (keycode + evdevOffset) ≠ 0) :
    keycode + evdevOffset ∈ keycodes x := by
  have hin : ¬ (keycode + evdevOffset < x.keymap.minKeycode ∨
      x.keymap.maxKeycode < keycode + evdevOffset) := fun hout => h (x.keymap.outside _ hout)
  rw [not_or, Nat.not_lt, Nat.not_lt] at hin
  exact (mem_keycodes x).mpr ⟨hin.1, Nat.le_add_left _ _, hin.2, Nat.add_lt_add_right hkey _⟩

theorem numLayoutsForKey_of_mem_levelSyms {key : Nat} {sym : Keysym}
    (h : sym ∈ levelSyms x.keymap key) : x.keymap.numLayoutsForKey key ≠ 0 := by
  intro h0
  rw [levelSyms, h0] at h
  simp at h

theorem hasGroupSwitch_of_hasModeSwitch (h : HasModeSwitch x) : hasGroupSwitch x = true := by
  obtain ⟨keycode, hkey, hfeature⟩ := h
  obtain ⟨sym, hsym, -⟩ := List.any_eq_true.mp hfeature
  exact List.any_eq_true.mpr ⟨_, mem_keycodes_of_numLayoutsForKey x hkey
    (numLayoutsForKey_of_mem_levelSyms x hsym), hfeature⟩

/-- The symbol of a key in a state is one of those that are seen level by level. -/
theorem mem_levelSyms_of_stateSymbol {key mask selected : Nat} {sym : Keysym}
    (h : stateSymbol x key mask selected = some sym) : sym ∈ levelSyms x.keymap key := by
  rw [stateSymbol] at h
  obtain ⟨layout, hlayout, h⟩ := Option.bind_eq_some_iff.mp h
  obtain ⟨level, hlevel, h⟩ := Option.bind_eq_some_iff.mp h
  have hl := x.keymap.layout_lt _ _ _ _ hlayout
  rw [levelSyms, List.mem_flatMap]
  refine ⟨layout, List.mem_range.mpr hl, List.mem_filterMap.mpr ⟨level, ?_, h⟩⟩
  exact List.mem_range.mpr (x.keymap.level_lt _ _ _ _ _ hl hlevel)

/-- The round of a press. -/
theorem mem_walkCells_of_press {locks : Locks} (h : Reachable x locks) {p : Press} (hp : p.Valid x)
    {sym : Keysym} (hsym : sym ∈ levelSyms x.keymap (p.keycode + evdevOffset)) :
    (p.keycode + evdevOffset, slotOf x locks p.held, p.mods) ∈ walkCells x := by
  have hlt := base_lt x h
  refine (mem_walkCells x).mpr ⟨mem_keycodes_of_numLayoutsForKey x hp.keycode_lt
    (numLayoutsForKey_of_mem_levelSyms x hsym), ?_, hp.mods_lt⟩
  rw [slotOf]
  cases hheld : p.held with
  | false =>
    have : 1 ≤ if hasGroupSwitch x then 2 else 1 := by split <;> omega
    calc locks.base + 0 < groupStates x * 1 := by omega
      _ ≤ groupStates x * (if hasGroupSwitch x then 2 else 1) := Nat.mul_le_mul_left _ this
  | true =>
    rw [hasGroupSwitch_of_hasModeSwitch x (hp.mode_switch hheld)]
    simp only [if_true]
    omega

/-- The code for a key that changes the group. -/
def actionCode (numLayouts : Nat) (locks : Locks) (a : GroupAction) : Int :=
  match a with
  | .next => if locks.group = 0 ∨ locks.group = 3 then kShiftllock else kShiftrlock
  | a => xkeymapSelectGroup numLayouts locks.group (a.lock numLayouts (locks.layout numLayouts))

section

variable {x} {locks : Locks} (h : Reachable x locks) {p : Press}
  (hkey : p.held = true → groupSwitchFeature x.keymap (p.keycode + evdevOffset) = false)

include h hkey

/-- The round of a press, for a key that does not hold Mode_switch itself. -/
theorem cellCode_slotOf (ctx : LkCtx) {sym : Keysym}
    (hsym : pressSymbol x (locks.layout x.keymap.numLayouts) p = some sym) :
    cellCode x ctx (p.keycode + evdevOffset) (slotOf x locks p.held) p.mods =
      if sym = keyIsoNextGroup then
        some (ksymtocode ctx
          (bytes (if locks.group = 0 ∨ locks.group = 3 then "ShiftL_Lock" else "ShiftR_Lock"))
          .toUnicode)
      else if sym = keyIsoPrevGroup then
        some (xkeymapSelectGroup x.keymap.numLayouts locks.group
          ((locks.layout x.keymap.numLayouts + x.keymap.numLayouts - 1) % x.keymap.numLayouts))
      else if sym = keyIsoFirstGroup ∨ sym = keyIsoLastGroup then
        some (xkeymapSelectGroup x.keymap.numLayouts locks.group
          (if sym = keyIsoLastGroup then 1 % x.keymap.numLayouts else 0))
      else
        symbolCode x ctx (p.keycode + evdevOffset) (masks x p.mods)
          ((locks.layout x.keymap.numLayouts + p.held.toNat) % x.keymap.numLayouts) p.mods sym := by
  have hguard : (p.held && groupSwitchFeature x.keymap (p.keycode + evdevOffset)) = false := by
    cases hheld : p.held with
    | false => rfl
    | true => rw [hkey hheld, Bool.and_false]
  rw [pressSymbol] at hsym
  rw [cellCode, slotHeld_slotOf x h, hguard, slotSelected_slotOf x h, hsym, slotGroup_slotOf x h]
  rfl

end

theorem ksymtocode_shiftlLock (ctx : LkCtx) :
    ksymtocode ctx (bytes "ShiftL_Lock") .toUnicode = kShiftllock :=
  ksymtocode_of_isAction ctx (by decide +kernel)

theorem ksymtocode_shiftrLock (ctx : LkCtx) :
    ksymtocode ctx (bytes "ShiftR_Lock") .toUnicode = kShiftrlock :=
  ksymtocode_of_isAction ctx (by decide +kernel)

theorem cellCode_action {x : Xkeymap} {locks : Locks} (h : Reachable x locks) {p : Press}
    (hkey : p.held = true → groupSwitchFeature x.keymap (p.keycode + evdevOffset) = false)
    (ctx : LkCtx) {a : GroupAction}
    (hsym : pressSymbol x (locks.layout x.keymap.numLayouts) p = some a.sym) :
    cellCode x ctx (p.keycode + evdevOffset) (slotOf x locks p.held) p.mods =
      some (actionCode x.keymap.numLayouts locks a) := by
  rw [cellCode_slotOf h hkey ctx hsym]
  cases a with
  | first => rfl
  | last => rfl
  | prev => rfl
  | next =>
    have hnext : GroupAction.next.sym = keyIsoNextGroup := rfl
    rw [if_pos hnext, actionCode]
    split
    · rw [ksymtocode_shiftlLock]
    · rw [ksymtocode_shiftrLock]

/-- What the code of an action does to the lock bits. -/
theorem press_actionCode {numLayouts : Nat} (h0 : numLayouts ≠ 0) (h4 : numLayouts ≤ nrLayouts)
    (locks : Locks) {a : GroupAction} (hnext : a = .next → numLayouts ≠ 3) :
    (locks.press (actionCode numLayouts locks a)).layout numLayouts
        = a.lock numLayouts (locks.layout numLayouts) ∧
      ((locks.press (actionCode numLayouts locks a)).ctrll = true →
        locks.ctrll = true ∨ (numLayouts > 2 ∧ a ≠ .next)) := by
  have h5 : numLayouts < 5 := Nat.lt_succ_of_le h4
  obtain ⟨l, r, c⟩ := locks
  by_cases ha : a = .next
  · subst ha
    obtain ⟨hlayout, hctrll⟩ := next_layout numLayouts h5 h0 (hnext rfl) l r c
    exact ⟨hlayout, fun h => Or.inl (hctrll ▸ h)⟩
  · have hlt : a.lock numLayouts ((⟨l, r, c⟩ : Locks).layout numLayouts) < numLayouts := by
      cases a with
      | first => exact Nat.pos_of_ne_zero h0
      | last => exact Nat.mod_lt _ (Nat.pos_of_ne_zero h0)
      | prev => exact Nat.mod_lt _ (Nat.pos_of_ne_zero h0)
      | next => exact absurd rfl ha
    have hcode : actionCode numLayouts ⟨l, r, c⟩ a = xkeymapSelectGroup numLayouts
        (⟨l, r, c⟩ : Locks).group (a.lock numLayouts ((⟨l, r, c⟩ : Locks).layout numLayouts)) := by
      cases a with
      | next => exact absurd rfl ha
      | _ => rfl
    obtain ⟨hlayout, hctrll⟩ := selectGroup_layout numLayouts h5 _ hlt l r c
    rw [hcode]
    exact ⟨hlayout, fun h => (hctrll h).imp_right fun h2 => ⟨h2, ha⟩⟩

/-- A key with one of the symbols that lock a group makes tables for CtrlL. -/
theorem groupStates_of_action {x : Xkeymap} (hnum : x.keymap.numLayouts > 2) {keycode : Nat}
    (hkey : keycode < nrKeys) {a : GroupAction} (ha : a ≠ .next)
    (hsym : a.sym ∈ levelSyms x.keymap (keycode + evdevOffset)) : groupStates x = 8 := by
  have hfeature : groupSelectFeature x.keymap (keycode + evdevOffset) = true := by
    refine List.any_eq_true.mpr ⟨a.sym, hsym, ?_⟩
    cases a with
    | next => exact absurd rfl ha
    | _ => rfl
  have hmem := mem_keycodes_of_numLayoutsForKey x hkey (numLayoutsForKey_of_mem_levelSyms x hsym)
  unfold groupStates
  exact if_pos ⟨hnum, List.any_eq_true.mpr ⟨_, hmem, hfeature⟩⟩

/-- One press on both sides. -/
theorem press_step {x : Xkeymap} {ctx ctx' : LkCtx} (hwalk : xkeymapWalk x ctx = (true, ctx'))
    {locks : Locks} (hr : Reachable x locks) {p : Press} {a : GroupAction} (hvalid : p.Valid x)
    (hsym : pressSymbol x (locks.layout x.keymap.numLayouts) p = some a.sym)
    (hnext : a = .next → x.keymap.numLayouts ≠ 3)
    (hkey : p.held = true → groupSwitchFeature x.keymap (p.keycode + evdevOffset) = false) :
    let locks' := locks.press (lkGetKey ctx' (locks.table p.mods p.held) p.keycode)
    locks'.layout x.keymap.numLayouts
        = a.lock x.keymap.numLayouts (locks.layout x.keymap.numLayouts) ∧
      Reachable x locks' := by
  obtain ⟨⟨h0, h4⟩, -⟩ := (xkeymapWalk_eq_true x).mp hwalk
  have hmem := mem_levelSyms_of_stateSymbol x hsym
  have hbound := xkeymapWalk_bound x hwalk (mem_walkCells_of_press x hr hvalid hmem)
    (cellCode_action hr hkey ctx hsym)
  have hget := hbound.lkGetKey
  rw [slotTable_slotOf x hr, Nat.add_sub_cancel] at hget
  obtain ⟨hlayout, hctrll⟩ := press_actionCode h0 h4 locks hnext
  intro locks'
  change (locks.press _).layout _ = _ ∧ ((locks.press _).ctrll = true → _)
  rw [hget]
  refine ⟨hlayout, fun h => ?_⟩
  rcases hctrll h with h | ⟨hnum, ha⟩
  · exact hr h
  · exact groupStates_of_action hnum hvalid.keycode_lt ha hmem

end

/-! ## Codes that are known -/

theorem K_nonneg {t v : Int} (ht : 0 ≤ t) (hv : 0 ≤ v) : 0 ≤ K t v := by
  unfold K
  omega

theorem ite_nonneg {c : Prop} [Decidable c] {a b : Int} (ha : 0 ≤ a) (hb : 0 ≤ b) :
    0 ≤ if c then a else b := by
  split
  · exact ha
  · exact hb

theorem xkeymapApplyModifiers_nonneg (x : Xkeymap) (key mask selected mods : Nat) {code : Int}
    (h : 0 ≤ code) : 0 ≤ xkeymapApplyModifiers x key mask selected mods code := by
  have hcode : ∀ {c : Prop} [Decidable c] {n : Nat}, 0 ≤ if c then K ktLatin n else code :=
    fun {c} _ {n} => ite_nonneg (K_nonneg (Int.le_refl 0) (Int.natCast_nonneg n)) h
  unfold xkeymapApplyModifiers
  refine ite_nonneg (ite_nonneg ?_ (ite_nonneg ?_ hcode)) hcode
  · exact K_nonneg (by decide) (U_nonneg hcode)
  · exact K_nonneg (by decide) (kval_nonneg _)

theorem xkeymapGetCode_pos {ctx : LkCtx} {ks : Keysyms} {sym : Keysym} {code : Int}
    (h : xkeymapGetCode ctx ks sym = some code) : 0 < code := by
  have hvalid : ∀ {ret : Int}, xkeymapValidateCode ret = some code → 0 < code := by
    intro ret hret
    unfold xkeymapValidateCode at hret
    split at hret
    · cases hret
    · cases hret
      omega
  unfold xkeymapGetCode at h
  split at h
  · cases h
  · split at h
    · exact hvalid h
    · split at h
      · exact hvalid h
      · split at h
        · exact hvalid h
        · obtain ⟨_, -, h⟩ := Option.bind_eq_some_iff.mp h
          exact hvalid h

/-- The code of a symbol is known, also where the capital is converted. -/
theorem symbolCode_nonneg {x : Xkeymap} {ctx : LkCtx} {key mask selected mods : Nat} {sym : Keysym}
    {code : Int} (h : symbolCode x ctx key mask selected mods sym = some code) : 0 ≤ code := by
  have hshift : 0 ≤ ksymtocode ctx (bytes "Shift") .toUnicode := by
    rw [ksymtocode_of_isAction ctx (show isAction (bytes "Shift") (K ktShift 0) by decide +kernel)]
    decide
  have hlock : 0 ≤ ksymtocode ctx (bytes "Shift_Lock") .toUnicode := by
    rw [ksymtocode_of_isAction ctx (show isAction (bytes "Shift_Lock") (K ktLock 0) by decide +kernel)]
    decide
  have hcaps {c : Int} (hc : 0 ≤ c) :
      0 ≤ if xkeymapIsCapslockable x.syms sym c then addCapslock ctx c else c := by
    split
    · rename_i hlockable
      refine addCapslock_nonneg hc ?_
      unfold xkeymapIsCapslockable at hlockable
      split at hlockable
      · cases hlockable
      · split at hlockable
        · rename_i hlow
          exact Or.inl hlow
        · simp only [decide_eq_true_eq] at hlockable
          exact Or.inr hlockable
    · exact hc
  obtain ⟨c, hc, rfl⟩ := Option.map_eq_some_iff.mp h
  have hpos := xkeymapGetCode_pos hc
  refine xkeymapApplyModifiers_nonneg x key mask selected mods (hcaps ?_)
  exact ite_nonneg hlock (ite_nonneg hshift (by omega))

theorem xkeymapSelectGroup_ne_unknown (numLayouts group target : Nat) :
    xkeymapSelectGroup numLayouts group target ≠ codeForUnknownKsym := by
  have hactions : ∀ a ∈ [kHole, kShiftllock, kShiftrlock, kCtrlllock].zipIdx,
      a.1 ≠ codeForUnknownKsym := by decide
  unfold xkeymapSelectGroup
  dsimp only
  rcases hf : [kHole, kShiftllock, kShiftrlock, kCtrlllock].zipIdx.find? fun a =>
      layoutOf numLayouts (group ^^^ a.2) = target with _ | a
  · rw [hf]
    exact (by decide : kHole ≠ codeForUnknownKsym)
  · rw [hf]
    exact hactions a (List.mem_of_find?_eq_some hf)

/-- No round has the code for an unknown symbol. -/
theorem cellCode_ne_unknown (x : Xkeymap) (ctx : LkCtx) (key slot mods : Nat) :
    cellCode x ctx key slot mods ≠ some codeForUnknownKsym := by
  unfold cellCode
  dsimp only
  split
  · decide
  · intro h
    obtain ⟨sym, -, h⟩ := Option.bind_eq_some_iff.mp h
    split at h
    · have hcode := Option.some.inj h
      split at hcode
      · rw [ksymtocode_shiftlLock] at hcode
        exact absurd hcode (by decide)
      · rw [ksymtocode_shiftrLock] at hcode
        exact absurd hcode (by decide)
    · split at h
      · exact xkeymapSelectGroup_ne_unknown _ _ _ (Option.some.inj h)
      · split at h
        · exact xkeymapSelectGroup_ne_unknown _ _ _ (Option.some.inj h)
        · exact absurd (symbolCode_nonneg h) (by decide)

/-- A walk returns 0 for one to four layouts, when no keymaps line limits the tables. -/
theorem xkeymapWalk_returns {x : Xkeymap} (h0 : x.keymap.numLayouts ≠ 0)
    (h4 : x.keymap.numLayouts ≤ nrLayouts) {ctx : LkCtx} (hkw : ctx.keywords.keymaps = false) :
    ∃ ctx', xkeymapWalk x ctx = (true, ctx') :=
  xkeymapWalk_ok x h0 h4 hkw fun _ _ => cellCode_ne_unknown x ctx _ _ _

/-! ## Runs -/

/-- The key has a symbol that changes the group, in some layout and level. -/
def GroupKey (x : Xkeymap) (keycode : Nat) : Prop :=
  ∃ sym ∈ levelSyms x.keymap (keycode + evdevOffset), sym = keyModeSwitch ∨ ∃ a : GroupAction, sym = a.sym

/-- The console with these lock bits behaves as XKB with this locked group. -/
structure Simulates (x : Xkeymap) (ctx ctx' : LkCtx) (locks : Locks) (g : Nat) : Prop where
  layout_eq : locks.layout x.keymap.numLayouts = g
  binds : ∀ p : Press, p.Valid x → ¬ GroupKey x p.keycode → ∀ sym code,
    pressSymbol x g p = some sym →
    symbolCode x ctx (p.keycode + evdevOffset) (masks x p.mods)
      ((g + p.held.toNat) % x.keymap.numLayouts) p.mods sym = some code →
    lkMapExists ctx' (locks.table p.mods p.held) = true ∧
      lkGetKey ctx' (locks.table p.mods p.held) p.keycode = code

theorem run_layout {x : Xkeymap} {ctx ctx' : LkCtx} (hwalk : xkeymapWalk x ctx = (true, ctx'))
    {ps : List Press} {locks : Locks} {g : Nat} (hrun : Run x ctx' ps locks g)
    (hps : ∀ p ∈ ps, p.held = true →
      groupSwitchFeature x.keymap (p.keycode + evdevOffset) = false) :
    locks.layout x.keymap.numLayouts = g ∧ Reachable x locks := by
  induction hrun with
  | start =>
    obtain ⟨⟨h0, h4⟩, -⟩ := (xkeymapWalk_eq_true x).mp hwalk
    refine ⟨?_, fun h => by cases h⟩
    have hzero : ∀ n < 5, n ≠ 0 → Locks.none.layout n = 0 := by decide
    exact hzero _ (Nat.lt_succ_of_le h4) h0
  | press p a hrun hvalid hsym hnext ih =>
    obtain ⟨rfl, hr⟩ := ih fun q hq => hps q (by simp [hq])
    exact press_step hwalk hr hvalid hsym hnext (hps p (by simp))

/-- After a run in which no key that holds Mode_switch itself is pressed while Mode_switch is held, the
lock bits stand for the locked group and select tables with its codes. -/
theorem simulates_of_walk {x : Xkeymap} {ctx ctx' : LkCtx} (hwalk : xkeymapWalk x ctx = (true, ctx'))
    {ps : List Press} {locks : Locks} {g : Nat} (hrun : Run x ctx' ps locks g)
    (hps : ∀ p ∈ ps, p.held = true →
      groupSwitchFeature x.keymap (p.keycode + evdevOffset) = false) :
    Simulates x ctx ctx' locks g := by
  obtain ⟨rfl, hr⟩ := run_layout hwalk hrun hps
  refine ⟨rfl, ?_⟩
  intro p hvalid hkey sym code hsym hcode
  have hmem := mem_levelSyms_of_stateSymbol x hsym
  have hfeature : groupSwitchFeature x.keymap (p.keycode + evdevOffset) = false := by
    rw [groupSwitchFeature, List.any_eq_false]
    intro s hs
    rw [decide_eq_true_eq]
    exact fun h => hkey ⟨s, hs, Or.inl h⟩
  have hne : ∀ a : GroupAction, sym ≠ a.sym := fun a h => hkey ⟨sym, hmem, Or.inr ⟨a, h⟩⟩
  have hnext : sym ≠ keyIsoNextGroup := hne .next
  have hprev : sym ≠ keyIsoPrevGroup := hne .prev
  have hlock : ¬ (sym = keyIsoFirstGroup ∨ sym = keyIsoLastGroup) :=
    not_or.mpr ⟨hne .first, hne .last⟩
  have hcell := cellCode_slotOf hr (fun _ => hfeature) ctx hsym
  rw [if_neg hnext, if_neg hprev, if_neg hlock, hcode] at hcell
  have hbound := xkeymapWalk_bound x hwalk (mem_walkCells_of_press x hr hvalid hmem) hcell
  rw [slotTable_slotOf x hr, Nat.add_sub_cancel] at hbound
  exact ⟨hbound.1, hbound.lkGetKey⟩

/-- The keymap is converted, and in every such run the console simulates XKB. `convert_xkb_keymap` sets
the keywords itself, and the one for a keymaps line is not among them. -/
theorem run_simulates {x : Xkeymap} (h0 : x.keymap.numLayouts ≠ 0)
    (h4 : x.keymap.numLayouts ≤ nrLayouts) {ctx : LkCtx} (hkw : ctx.keywords.keymaps = false) :
    ∃ ctx', xkeymapWalk x ctx = (true, ctx') ∧
      ∀ (ps : List Press) (locks : Locks) (g : Nat), Run x ctx' ps locks g →
        (∀ p ∈ ps, p.held = true →
          groupSwitchFeature x.keymap (p.keycode + evdevOffset) = false) →
        Simulates x ctx ctx' locks g := by
  obtain ⟨ctx', hwalk⟩ := xkeymapWalk_returns h0 h4 hkw
  exact ⟨ctx', hwalk, fun ps locks g hrun hps => simulates_of_walk hwalk hrun hps⟩

/-! ## A keymap -/

/-- Two layouts and three keys: one holds Mode_switch, the next one locks the second group, or holds
Mode_switch with Shift, and the third one locks the previous group. -/
def switchSyms : Nat → List Keysym
  | 9 => [keyModeSwitch]
  | 10 => [keyIsoLastGroup, keyModeSwitch]
  | 11 => [keyIsoPrevGroup]
  | _ => []

def switchKeymap : XkbKeymap where
  numLayouts := 2
  minKeycode := 9
  maxKeycode := 11
  numLayoutsForKey key := if 9 ≤ key ∧ key ≤ 11 then 1 else 0
  numLevelsForKey key _ := (switchSyms key).length
  symsByLevel key _ level := (switchSyms key)[level]?.toList
  keyGetLayout key _ _ := if 9 ≤ key ∧ key ≤ 11 then some 0 else none
  keyGetLevel key mods _ _ := if key = 10 ∧ mods &&& 1 ≠ 0 then some 1 else some 0
  keyGetConsumedMods key _ _ := if key = 10 then 1 else 0
  keyGetSyms key mods _ := (switchSyms key)[if key = 10 ∧ mods &&& 1 ≠ 0 then 1 else 0]?.toList
  keyGetUtf32 _ _ _ := 0
  layout_lt := by
    intro key mods group layout h
    split at h
    · rename_i hkey
      cases h
      rw [if_pos hkey]
      exact Nat.one_pos
    · cases h
  level_lt := by
    intro key mods group layout level hlayout h
    split at hlayout
    · rename_i hkey
      obtain ⟨h9, h11⟩ := hkey
      split at h
      · rename_i h10
        cases h
        rw [h10.1]
        decide
      · cases h
        interval_cases key <;> decide
    · exact absurd hlayout (Nat.not_lt_zero _)
  outside := by
    intro key h
    rw [if_neg]
    omega

/-- The keymap with what libxkbcommon says of its symbols. -/
def switchXkeymap : Xkeymap where
  keymap := switchKeymap
  syms := {
    toUtf32 := fun _ => 0
    getName := fun sym =>
      if sym = keyModeSwitch then some (bytes "Mode_switch")
      else if sym = keyIsoLastGroup then some (bytes "ISO_Last_Group")
      else if sym = keyIsoPrevGroup then some (bytes "ISO_Prev_Group")
      else none
    toLower := id
    toUpper := id }
  modifierMasks
    | .shift => 1
    | .control => 4
    | .alt => 8
    | .level3 => 128

theorem hasModeSwitch_switch : HasModeSwitch switchXkeymap := ⟨1, by decide, by decide⟩

/-- The second group is locked, and then the previous one while Mode_switch is held. -/
theorem run_simulates_switch : ∃ ctx' locks,
    xkeymapWalk switchXkeymap (lkInit {} 0) = (true, ctx') ∧
      Run switchXkeymap ctx' [⟨2, 0, false⟩, ⟨3, 0, true⟩] locks 0 ∧
      Simulates switchXkeymap (lkInit {} 0) ctx' locks 0 := by
  obtain ⟨ctx', hwalk, hsim⟩ := @run_simulates switchXkeymap (by decide) (by decide) (lkInit {} 0) rfl
  have hlast : Run switchXkeymap ctx' [⟨2, 0, false⟩] _ 1 :=
    .press ⟨2, 0, false⟩ .last .start ⟨by decide, by decide, fun h => by cases h⟩ (by decide)
      (by decide)
  have hprev : Run switchXkeymap ctx' [⟨2, 0, false⟩, ⟨3, 0, true⟩] _ 0 :=
    .press ⟨3, 0, true⟩ .prev hlast ⟨by decide, by decide, fun _ => hasModeSwitch_switch⟩
      (by decide) (by decide)
  exact ⟨ctx', _, hwalk, hprev, hsim _ _ _ hprev (by decide)⟩

/-- A key that locks the second group, and that holds Mode_switch at another level, does not change the
lock bits while Mode_switch is held. -/
theorem not_run_simulates :
    ¬ ∀ (x : Xkeymap) (ctx : LkCtx), x.keymap.numLayouts ≠ 0 → x.keymap.numLayouts ≤ nrLayouts →
      ctx.keywords.keymaps = false → ∃ ctx', xkeymapWalk x ctx = (true, ctx') ∧
        ∀ (ps : List Press) (locks : Locks) (g : Nat), Run x ctx' ps locks g →
          Simulates x ctx ctx' locks g := by
  intro h
  obtain ⟨ctx', hwalk, hall⟩ := h switchXkeymap (lkInit {} 0) (by decide) (by decide) rfl
  have hrun : Run switchXkeymap ctx' [⟨2, 0, true⟩] _ 1 :=
    .press ⟨2, 0, true⟩ .last .start ⟨by decide, by decide, fun _ => hasModeSwitch_switch⟩
      (by decide) (by decide)
  have hsim := (hall _ _ _ hrun).layout_eq
  have hcell : (10, 4, 0) ∈ walkCells switchXkeymap := by decide
  have hheld : (slotHeld switchXkeymap 4 && groupSwitchFeature switchXkeymap.keymap 10) = true := by
    decide
  have hcode : cellCode switchXkeymap (lkInit {} 0) 10 4 0 = some kCtrlr := by
    unfold cellCode
    exact if_pos hheld
  have hget := (xkeymapWalk_bound switchXkeymap hwalk hcell hcode).lkGetKey
  have hget' : lkGetKey ctx' (Locks.none.table 0 true) 2 = kCtrlr := hget
  rw [hget'] at hsim
  exact absurd hsim (by decide)

end Kbd.Xkb
