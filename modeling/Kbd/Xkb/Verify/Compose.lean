import Kbd.Keymap.Verify.Diacr
import Kbd.Keymap.Verify.Letters
import Kbd.Xkb.Verify.Append
import Kbd.Xkb.Verify.Groups
import Kbd.Xkb.Verify.Release
import Mathlib.Data.Finset.Prod

/-!
# Loading the compose definitions of an XKB keymap

The conversion stops at `MAX_DIACR` definitions, and `defdiacs` sends fewer than that. What the
conversion appends is a list, and what `defdiacs` makes of a table that holds a list is decided by
its length and its members.
-/

namespace Kbd.Xkb

open Kbd.Keymap Kbd.Lib

/-! ## A table that holds a list -/

/-- The accent table holds `rules`, from the start and without holes. -/
structure Holds (ctx : LkCtx) (rules : List LkKbdiacr) : Prop where
  count : ctx.accentTable.count = rules.length
  get : ∀ i, ctx.accentTable.get i = rules[i]?

theorem filterMap_getElem?_range {α : Type} (l : List α) :
    (List.range l.length).filterMap (fun i => l[i]?) = l := by
  induction l using List.reverseRecOn with
  | nil => rfl
  | append_singleton l a ih =>
    rw [List.length_append, List.length_singleton, List.range_succ, List.filterMap_append]
    have hleft : (List.range l.length).filterMap (fun i => (l ++ [a])[i]?) =
        (List.range l.length).filterMap fun i => l[i]? :=
      List.filterMap_congr fun i hi => List.getElem?_append_left (List.mem_range.mp hi)
    rw [hleft, ih]
    simp

namespace Holds

variable {ctx : LkCtx} {rules : List LkKbdiacr}

theorem append (h : Holds ctx rules) (rule : LkKbdiacr) :
    Holds (lkAppendDiacr ctx rule) (rules ++ [rule]) where
  count := by
    rw [List.length_append, ← h.count]
    rfl
  get i := by
    change (ctx.accentTable.append (some rule)).get i = _
    rw [LkArray.get_append, h.get, h.count, List.getElem?_append]
    by_cases hlt : i < rules.length
    · rw [if_neg (by omega), if_pos hlt]
    · by_cases heq : i = rules.length
      · simp [heq]
      · rw [if_neg heq, if_neg hlt, List.getElem?_eq_none (by omega),
          List.getElem?_eq_none (by simp; omega)]

theorem foldl (h : Holds ctx []) (rules : List LkKbdiacr) :
    Holds (rules.foldl lkAppendDiacr ctx) rules := by
  induction rules using List.reverseRecOn with
  | nil => exact h
  | append_singleton rules rule ih =>
    rw [List.foldl_append]
    exact ih.append rule

theorem liveDiacrs (h : Holds ctx rules) : liveDiacrs ctx = rules := by
  have hsome (i : Nat) : (ctx.accentTable.get i).isSome = true ↔ i < ctx.accentTable.count := by
    rw [h.get, h.count]
    simp
  rw [NoHoles.liveDiacrs_eq hsome, dumpedDiacs, h.count]
  simp only [h.get]
  exact filterMap_getElem?_range rules

theorem congr {ctx' : LkCtx} (h : Holds ctx rules) (htable : ctx'.accentTable = ctx.accentTable) :
    Holds ctx' rules :=
  ⟨htable ▸ h.count, htable ▸ h.get⟩

end Holds

/-! ## `defdiacs` -/

/-- The request that loads `rules`. -/
def composeRequest (ctx : LkCtx) (rules : List LkKbdiacr) : Request :=
  if ctx.flags.preferUnicode then .kdskbdiacruc rules.length rules
  else .kdskbdiacr rules.length rules

/-- `defdiacs` sends all of `rules`, and does not find that there are too many. -/
structure LoadsAll (ctx : LkCtx) (rules : List LkKbdiacr) : Prop where
  notTooMany : ctx.accentTable.count < maxDiacr
  sends : ∀ (ioctl : Ioctl) (tr : Trace), ((defdiacs ioctl ctx).run tr).2 =
    tr ++ [(composeRequest ctx rules, ioctl tr (composeRequest ctx rules))]

/-- The fields of a definition fit into bytes. -/
def ByteRule (rule : LkKbdiacr) : Prop :=
  rule.diacr ≤ 0xff ∧ rule.base ≤ 0xff ∧ rule.result ≤ 0xff

instance (rule : LkKbdiacr) : Decidable (ByteRule rule) := inferInstanceAs (Decidable (_ ∧ _))

theorem any_large_eq_false {rules : List LkKbdiacr} :
    (rules.any fun d => d.diacr > ucharMax || d.base > ucharMax || d.result > ucharMax) = false ↔
      ∀ rule ∈ rules, ByteRule rule := by
  rw [List.any_eq_false]
  refine forall₂_congr fun rule _ => ?_
  simp only [ucharMax, Bool.or_eq_true, decide_eq_true_eq, ByteRule]
  omega

/-- `defdiacs` on a table that holds a list. -/
theorem Holds.loadsAll_iff {ctx : LkCtx} {rules : List LkKbdiacr} (h : Holds ctx rules) :
    LoadsAll ctx rules ↔
      rules.length < maxDiacr ∧ (ctx.flags.preferUnicode = true ∨ ∀ rule ∈ rules, ByteRule rule) := by
  have hsends (hlen : rules.length < maxDiacr) (ioctl : Ioctl) (tr : Trace) :
      ((defdiacs ioctl ctx).run tr).2 =
        if ctx.flags.preferUnicode = true ∨ ∀ rule ∈ rules, ByteRule rule then
          tr ++ [(composeRequest ctx rules, ioctl tr (composeRequest ctx rules))]
        else tr := by
    have hcount : (if ctx.accentTable.count ≥ maxDiacr then maxDiacr - 1
        else ctx.accentTable.count) = rules.length := by
      rw [h.count, if_neg (by omega)]
    simp only [defdiacs, hcount, h.liveDiacrs, List.take_length, composeRequest]
    cases hu : ctx.flags.preferUnicode with
    | true =>
      simp only [if_true, true_or]
      rw [StateT.run_bind]
      cases hio : ioctl tr (.kdskbdiacruc rules.length rules) <;> simp [lkIoctl, StateT.run, hio] <;>
        rfl
    | false =>
      simp only [Bool.false_eq_true, if_false, false_or]
      by_cases hbytes : ∀ rule ∈ rules, ByteRule rule
      · rw [any_large_eq_false.mpr hbytes, if_pos hbytes]
        simp only [Bool.false_eq_true, if_false]
        rw [StateT.run_bind]
        cases hio : ioctl tr (.kdskbdiacr rules.length rules) <;> simp [lkIoctl, StateT.run, hio] <;>
          rfl
      · rw [if_neg hbytes, if_pos (by rwa [← any_large_eq_false, Bool.not_eq_false] at hbytes)]
        rfl
  constructor
  · intro hload
    have hlen : rules.length < maxDiacr := by
      rw [← h.count]
      exact hload.notTooMany
    refine ⟨hlen, ?_⟩
    by_contra hbytes
    have hrun := hload.sends (fun _ _ => none) []
    rw [hsends hlen, if_neg hbytes] at hrun
    cases hrun
  · rintro ⟨hlen, hbytes⟩
    refine ⟨h.count ▸ hlen, fun ioctl tr => ?_⟩
    rw [hsends hlen, if_pos hbytes]

/-! ## The walk and what it remembers -/

section Walk

variable (x : Xkeymap)

theorem reachableCode_congr {c c' : LkCtx} (hflags : c'.flags = c.flags)
    (hcharset : c'.charset = c.charset) (cell : Nat × Nat × Nat) :
    reachableCode x c' cell = reachableCode x c cell := by
  simp only [reachableCode, reserveShifts, xkeymapGetCode_congr hflags hcharset,
    ksymtocode_congr hflags hcharset]

/-- The symbols that can be typed. -/
def reachableSyms (ctx : LkCtx) : ReachableSyms := (walkCells x).foldl (rememberCell x ctx) []

theorem walkCell_settings {cell : Nat × Nat × Nat} {s s' : LkCtx}
    (h : (walkCell x cell).run s = .ok () s') : SameSettings s s' := by
  rw [walkCell_run] at h
  cases hcode : cellCode x s cell.1 cell.2.1 cell.2.2 with
  | none =>
    rw [hcode, bindCode_none_eq_ok] at h
    exact h ▸ .refl s
  | some code =>
    rw [hcode] at h
    obtain ⟨-, -, rfl⟩ := lkAddKey_eq_ok.mp h
    exact .putKey s _ _ code

/-- A round with `reachable_syms` does what it does without. -/
theorem walkCellReachable_run {ctx : LkCtx} (cell : Nat × Nat × Nat) (reachable : ReachableSyms)
    {s : LkCtx} (hs : SameSettings ctx s) :
    (walkCellReachable x reachable cell).run s =
      match (walkCell x cell).run s with
      | .ok _ s' => .ok (rememberCell x ctx reachable cell) s'
      | .error e s' => .error e s' := by
  have hcode : rememberCell x s reachable cell = rememberCell x ctx reachable cell := by
    rw [rememberCell, reachableCode_congr x hs.flags hs.charset, rememberCell]
  rw [walkCellReachable, EStateM.run_bind, EStateM.run_get]
  change EStateM.run (walkCell x cell >>= fun _ => _) s = _
  rw [EStateM.run_bind]
  cases (walkCell x cell).run s with
  | ok u s' => exact congrArg (EStateM.Result.ok · s') hcode
  | error e s' => rfl

/-- The loops with `reachable_syms` do what they do without. -/
theorem walkLoop_reachable {ctx : LkCtx} (cells : List (Nat × Nat × Nat)) (reachable : ReachableSyms)
    {s : LkCtx} (hs : SameSettings ctx s) :
    (cells.foldlM (walkCellReachable x) reachable).run s =
      match (forM cells (walkCell x)).run s with
      | .ok _ s' => .ok (cells.foldl (rememberCell x ctx) reachable) s'
      | .error e s' => .error e s' := by
  induction cells generalizing reachable s with
  | nil => rfl
  | cons cell cells ih =>
    rw [List.foldlM_cons, List.forM_cons, EStateM.run_bind, EStateM.run_bind,
      walkCellReachable_run x cell reachable hs]
    cases hcell : (walkCell x cell).run s with
    | ok u s' => exact ih _ (hs.trans (walkCell_settings x hcell))
    | error e s' => rfl

/-- The walk with `reachable_syms` does what the walk without does. -/
theorem xkeymapWalkReachable_eq (ctx : LkCtx) :
    xkeymapWalkReachable x ctx =
      ((if (xkeymapWalk x ctx).1 then some (reachableSyms x ctx) else none),
        (xkeymapWalk x ctx).2) := by
  have hflags : (walkCtx ctx).flags = ctx.flags := rfl
  have hcharset : (walkCtx ctx).charset = ctx.charset := rfl
  have hremember : rememberCell x (walkCtx ctx) = rememberCell x ctx := by
    funext reachable cell
    rw [rememberCell, reachableCode_congr x hflags hcharset, rememberCell]
  have hloop := walkLoop_reachable x (walkCells x) [] (SameSettings.refl (walkCtx ctx))
  rw [hremember] at hloop
  unfold xkeymapWalkReachable xkeymapWalk
  rw [← walkCtx, hloop]
  by_cases hnum : x.keymap.numLayouts = 0 ∨ x.keymap.numLayouts > nrLayouts
  · simp [hnum]
  · rw [if_neg hnum, if_neg hnum]
    cases (forM (walkCells x) (walkCell x)).run (walkCtx ctx) <;> rfl

theorem xkeymapWalk_settings {ctx ctx' : LkCtx} (h : xkeymapWalk x ctx = (true, ctx')) :
    SameSettings ctx ctx' := by
  obtain ⟨-, s, hs, rfl⟩ := (xkeymapWalk_eq_true x).mp h
  obtain ⟨hset, -⟩ := walk_bound x rfl (List.Subset.refl _) hs
  exact ⟨hset.flags, rfl, hset.funcTable, hset.accentTable, hset.charset, hset.keyConstant⟩

end Walk

/-! ## The conversion -/

section Convert

variable (qsort : Qsort) (x : Xkeymap)

/-- The candidates that `xkeymap_append_compose_candidates` is called with. -/
def selectedCandidates (compose : List ComposeTableEntry) (ctx : LkCtx) :
    Option (List ComposeCandidate) :=
  (xkeymapSelectComposeCandidates qsort
    (xkeymapCollectComposeCandidates ctx x.syms (reachableSyms x ctx) compose)).map
      fun selected => selected.1.take selected.2

theorem collect_congr {c c' : LkCtx} (hflags : c'.flags = c.flags) (hcharset : c'.charset = c.charset)
    (ks : Keysyms) (reachable : ReachableSyms) (compose : List ComposeTableEntry) :
    xkeymapCollectComposeCandidates c' ks reachable compose =
      xkeymapCollectComposeCandidates c ks reachable compose := by
  have hresult (sym : Keysym) : composeResult c' ks reachable sym = composeResult c ks reachable sym := by
    simp only [composeResult, xkeymapGetCode_congr hflags hcharset]
  have hentry (entry : ComposeTableEntry) : xkeymapComposeCandidateFromEntry c' ks reachable entry =
      xkeymapComposeCandidateFromEntry c ks reachable entry := by
    simp only [xkeymapComposeCandidateFromEntry, hresult]
  rw [xkeymapCollectComposeCandidates, funext hentry, xkeymapCollectComposeCandidates]

variable {qsort x} {compose : List ComposeTableEntry} {ctx ctx' : LkCtx}

theorem convertDiacr_congr (hflags : ctx'.flags = ctx.flags) (hcharset : ctx'.charset = ctx.charset)
    (d : LkKbdiacr) : convertDiacr ctx' d = convertDiacr ctx d := by
  simp only [convertDiacr, hflags, convertCode_congr hflags hcharset]

theorem appendedRules_congr (hflags : ctx'.flags = ctx.flags) (hcharset : ctx'.charset = ctx.charset)
    (l : List ComposeCandidate) : appendedRules ctx' l = appendedRules ctx l := by
  have hpair : storedPair ctx' = storedPair ctx := by
    funext c
    rw [storedPair, convertDiacr_congr hflags hcharset, storedPair]
  simp only [appendedRules, appendedCandidates, newCandidates, hpair,
    convertDiacr_congr hflags hcharset]

theorem flags_foldl (rules : List LkKbdiacr) (ctx : LkCtx) :
    (rules.foldl lkAppendDiacr ctx).flags = ctx.flags := by
  induction rules generalizing ctx with
  | nil => rfl
  | cons rule rules ih => exact ih _

/-- A conversion leaves the definitions that were appended. -/
theorem holds_of_convert (hempty : Holds ctx [])
    (h : convertXkbKeymap qsort x (some compose) ctx = some ctx') :
    ∃ l, selectedCandidates qsort x compose ctx = some l ∧ ctx'.flags = ctx.flags ∧
      Holds ctx' (appendedRules ctx l) := by
  rw [convertXkbKeymap, xkeymapWalkReachable_eq] at h
  cases hwalk : xkeymapWalk x ctx with
  | mk ok walked =>
    rw [hwalk] at h
    cases ok with
    | false => cases h
    | true =>
      have hset := xkeymapWalk_settings x hwalk
      simp only [if_true] at h
      rw [xkeymapCompose, collect_congr hset.flags hset.charset] at h
      cases hselect : xkeymapSelectComposeCandidates qsort
          (xkeymapCollectComposeCandidates ctx x.syms (reachableSyms x ctx) compose) with
      | none =>
        rw [hselect] at h
        cases h
      | some selected =>
        set l := selected.1.take selected.2 with hl
        refine ⟨l, by rw [selectedCandidates, hselect]; rfl, ?_⟩
        have happend : (xkeymapAppendComposeCandidates walked l).1 =
            (appendedRules walked l).foldl lkAppendDiacr walked := (appendLoop_spec walked l).ctx_eq
        obtain ⟨hfill, -⟩ := fillKeys (List.range nrKeys) List.nodup_range
          (xkeymapAppendComposeCandidates walked l).1
        rw [hselect] at h
        simp only [Option.bind_eq_bind, Option.bind_some, ← hl, Option.pure_def, Option.map_some,
          xkeymapFillModifierReleaseBindings_run] at h
        obtain rfl := Option.some.inj h
        rw [appendedRules_congr hset.flags hset.charset] at happend
        refine ⟨?_, ?_⟩
        · rw [hfill.flags, happend, flags_foldl, hset.flags]
        · refine Holds.congr ?_ hfill.accentTable
          rw [happend]
          exact (hempty.congr hset.accentTable).foldl _

/-- `defdiacs` sends every definition that the conversion appends, and does not find too many, exactly
if the candidates have fewer than `MAX_DIACR` different stored inputs and, unless the console takes
Unicode definitions, the stored definitions are bytes. -/
theorem convertXkbKeymap_loadsAll_iff (hempty : Holds ctx [])
    (h : convertXkbKeymap qsort x (some compose) ctx = some ctx') :
    ∃ l, selectedCandidates qsort x compose ctx = some l ∧ liveDiacrs ctx' = appendedRules ctx l ∧
      (LoadsAll ctx' (liveDiacrs ctx') ↔
        (l.map (storedPair ctx)).toFinset.card < maxDiacr ∧
          (ctx.flags.preferUnicode = true ∨
            ∀ c ∈ firsts (storedPair ctx) l, ByteRule (convertDiacr ctx c.diacr))) := by
  obtain ⟨l, hl, hflags, hholds⟩ := holds_of_convert hempty h
  refine ⟨l, hl, hholds.liveDiacrs, ?_⟩
  rw [hholds.liveDiacrs, hholds.loadsAll_iff, hflags, ← length_firsts]
  have hlen : (appendedRules ctx l).length = min maxDiacr (firsts (storedPair ctx) l).length := by
    rw [appendedRules, List.length_map, appendedCandidates, List.length_take, newCandidates]
  have hfew : min maxDiacr (firsts (storedPair ctx) l).length < maxDiacr ↔
      (firsts (storedPair ctx) l).length < maxDiacr := by omega
  rw [hlen, hfew]
  refine and_congr_right fun hlt => or_congr_right ?_
  -- with fewer than `MAX_DIACR` of them all are appended
  rw [appendedRules, appendedCandidates, newCandidates, List.take_of_length_le hlt.le,
    List.forall_mem_map]

end Convert

/-! ## What can be typed -/

section Reachable

variable (x : Xkeymap) (ctx : LkCtx)

theorem code_of_reachableCode {cell : Nat × Nat × Nat} {sym : Keysym} {code : Int}
    (h : reachableCode x ctx cell = some (sym, code)) :
    (xkeymapGetCode ctx x.syms sym).map (reserveShifts ctx) = some code := by
  obtain ⟨key, slot, mods⟩ := cell
  rw [reachableCode] at h
  split at h
  · cases h
  · obtain ⟨s, -, h⟩ := Option.bind_eq_some_iff.mp h
    split at h
    · cases h
    · obtain ⟨c, hc, h⟩ := Option.map_eq_some_iff.mp h
      obtain ⟨rfl, rfl⟩ := Prod.mk.injEq .. ▸ h
      rw [hc]
      rfl

/-- A symbol is remembered once some round has it. -/
theorem lookup_foldl_rememberCell (cells : List (Nat × Nat × Nat)) (sym : Keysym) (code : Int) :
    lookupReachableSym (cells.foldl (rememberCell x ctx) []) sym = some code ↔
      ∃ cell ∈ cells, reachableCode x ctx cell = some (sym, code) := by
  induction cells using List.reverseRecOn generalizing sym code with
  | nil => simp [lookupReachableSym]
  | append_singleton cells cell ih =>
    rw [List.foldl_append, List.foldl_cons, List.foldl_nil, rememberCell]
    simp only [List.mem_append, List.mem_singleton, or_and_right, exists_or, exists_eq_left]
    set reachable := cells.foldl (rememberCell x ctx) []
    cases hcell : reachableCode x ctx cell with
    | none => simp [ih]
    | some p =>
      obtain ⟨s, c⟩ := p
      simp only [rememberReachableSym]
      cases hold : lookupReachableSym reachable s with
      | some c₀ =>
        -- the symbol is known, with the same code
        have hsame : c₀ = c := by
          obtain ⟨cell₀, -, h₀⟩ := (ih s c₀).mp hold
          have hcode := code_of_reachableCode x ctx h₀
          rw [code_of_reachableCode x ctx hcell] at hcode
          exact (Option.some.inj hcode).symm
        rw [Option.isSome_some, if_pos rfl, ih]
        constructor
        · exact .inl
        · rintro (h | h)
          · exact h
          · obtain ⟨rfl, rfl⟩ := Prod.mk.injEq .. ▸ Option.some.inj h
            exact (ih s c).mp (hsame ▸ hold)
      | none =>
        rw [Option.isSome_none, if_neg Bool.false_ne_true, lookupReachableSym, List.lookup_cons]
        by_cases hs : sym = s
        · subst hs
          have hnone : ¬ ∃ cell ∈ cells, reachableCode x ctx cell = some (sym, code) := by
            rw [← ih, hold]
            exact fun h => nomatch h
          simp [hnone]
        · have hbeq : (sym == s) = false := by simpa using hs
          rw [hbeq, ← lookupReachableSym, ih]
          simp [Ne.symm hs]

/-- A symbol can be typed exactly if some round of the walk has it. -/
theorem lookup_reachableSyms {sym : Keysym} {code : Int} :
    lookupReachableSym (reachableSyms x ctx) sym = some code ↔
      ∃ cell ∈ walkCells x, reachableCode x ctx cell = some (sym, code) :=
  lookup_foldl_rememberCell x ctx (walkCells x) sym code

end Reachable

/-! ## A keymap with as many definitions as the kernel can hold

Sixteen keys with the letters from `a` to `p`, and a definition for each pair of them. -/

def IsPairLetter (sym : Nat) : Prop := 97 ≤ sym ∧ sym ≤ 112

instance (sym : Nat) : Decidable (IsPairLetter sym) := inferInstanceAs (Decidable (_ ∧ _))

def pairsKeymap : XkbKeymap where
  numLayouts := 1
  minKeycode := 9
  maxKeycode := 24
  numLayoutsForKey key := if 9 ≤ key ∧ key ≤ 24 then 1 else 0
  numLevelsForKey _ _ := 1
  symsByLevel key _ _ := [key + 88]
  keyGetLayout key _ _ := if 9 ≤ key ∧ key ≤ 24 then some 0 else none
  keyGetLevel _ _ _ _ := some 0
  keyGetConsumedMods _ _ _ := 0
  keyGetSyms key _ _ := [key + 88]
  keyGetUtf32 key _ _ := key + 88
  layout_lt := by
    intro key mods group layout h
    split at h
    · rename_i hkey
      cases h
      rw [if_pos hkey]
      exact Nat.one_pos
    · cases h
  level_lt := by
    intro key mods group layout level _ h
    cases h
    exact Nat.one_pos
  outside := by
    intro key h
    rw [if_neg]
    omega

def pairsXkeymap : Xkeymap where
  keymap := pairsKeymap
  syms := {
    toUtf32 := fun sym => if IsPairLetter sym then sym else 0
    getName := fun sym => if IsPairLetter sym then some [Char.ofNat sym] else none
    toLower := id
    toUpper := fun sym => if IsPairLetter sym then sym - 32 else sym }
  modifierMasks
    | .shift => 1
    | .control => 4
    | .alt => 8
    | .level3 => 128

def pairsCompose : List ComposeTableEntry :=
  (List.range 16).flatMap fun i => (List.range 16).map fun j => ⟨[i + 97, j + 97], 97⟩

section Pairs

variable (ctx : LkCtx) {sym : Nat}

theorem letterName_of_pairLetter (h : IsPairLetter sym) :
    ∃ name, LetterName sym name ∧ bytes name = [Char.ofNat sym] := by
  have hall : ∀ n : Nat, n < 113 → 97 ≤ n →
      isAsciiLetter n = true ∧ (getSym ktLatin n).map bytes = some [Char.ofNat n] := by
    decide +kernel
  obtain ⟨hletter, hbytes⟩ := hall sym (Nat.lt_succ_of_le h.2) h.1
  obtain ⟨name, hname⟩ := exists_letterName hletter
  rw [hname.sym] at hbytes
  exact ⟨name, hname, Option.some.inj hbytes⟩

/-- The code of a letter. -/
theorem xkeymapGetCode_letter (h : IsPairLetter sym) :
    xkeymapGetCode ctx pairsXkeymap.syms sym = some (sym : Int) := by
  obtain ⟨name, hname, hbytes⟩ := letterName_of_pairLetter h
  have hksym : ksymtocode ctx [Char.ofNat sym] .to8bit = sym := by
    rw [← hbytes, ksymtocode_letter ctx hname]
    simp [K, ktLatin]
  have hvalid : xkeymapValidateCode (sym : Int) = some (sym : Int) := by
    rw [xkeymapValidateCode, if_neg]
    unfold IsPairLetter at *
    omega
  have hmaps : ∀ map ∈ [semanticDeadMap, semanticModifierMap, semanticApproximationMap],
      xkeymapLookupSemanticKeysym ctx map sym = none := by
    have hall : ∀ map ∈ [semanticDeadMap, semanticModifierMap, semanticApproximationMap],
        ∀ p ∈ map, 112 < p.1 := by decide
    intro map hmap
    have hnone : map.find? (fun p => p.1 = sym) = none := by
      rw [List.find?_eq_none]
      intro p hp
      have := hall map hmap p hp
      have := h.2
      simp only [decide_eq_true_eq]
      unfold Keysym at *
      omega
    rw [xkeymapLookupSemanticKeysym, hnone]
    rfl
  have hsemantic : xkeymapGetCodeFromSemanticKeysym ctx sym = none := by
    rw [xkeymapGetCodeFromSemanticKeysym, hmaps _ (by simp), hmaps _ (by simp), hmaps _ (by simp),
      if_neg]
    · rfl
    · have := h.2
      unfold keyXf86SwitchVt1 Keysym at *
      omega
  have hname' : pairsXkeymap.syms.getName sym = some [Char.ofNat sym] := if_pos h
  have hutf : pairsXkeymap.syms.toUtf32 sym = sym := if_pos h
  have hcode : codeOfName ctx [Char.ofNat sym] = sym := by
    rw [codeOfName, hksym]
    refine if_neg ?_
    have := h.2
    unfold Keysym at *
    omega
  rw [xkeymapGetCode, hutf, if_neg (by have := h.2; unfold Keysym at *; omega), hsemantic,
    xkeymapGetCodeFromName, hname', Option.bind_some, hcode, hvalid]
  exact hvalid

theorem reserveShifts_letter (h : IsPairLetter sym) : reserveShifts ctx sym = sym := by
  have hcode {s : String} {code : Int} (hs : isAction (bytes s) code = true) (hlarge : 0x100 ≤ code) :
      (sym : Int) ≠ ksymtocode ctx (bytes s) .toUnicode := by
    rw [ksymtocode_of_isAction ctx hs]
    have := h.2
    omega
  -- the modifiers have codes above those of the letters
  have hl := hcode (show isAction (bytes "ShiftL") (K ktShift 4) = true by decide +kernel) (by decide)
  have hr := hcode (show isAction (bytes "ShiftR") (K ktShift 5) = true by decide +kernel) (by decide)
  have hll := hcode (show isAction (bytes "ShiftL_Lock") kShiftllock = true by decide +kernel) (by decide)
  have hrl := hcode (show isAction (bytes "ShiftR_Lock") kShiftrlock = true by decide +kernel) (by decide)
  simp only [reserveShifts, hl, hr, hll, hrl, or_self, if_false]

theorem not_groupSwitch (key : Nat) (h : key ≤ 24) :
    groupSwitchFeature pairsXkeymap.keymap key = false := by
  have hall : ∀ key < 25, groupSwitchFeature pairsXkeymap.keymap key = false := by decide
  exact hall key (Nat.lt_succ_of_le h)

theorem stateSymbol_pairs {key : Nat} (h : 9 ≤ key ∧ key ≤ 24) (mask selected : Nat) :
    stateSymbol pairsXkeymap key mask selected = some (key + 88) := by
  have hlayout : pairsXkeymap.keymap.keyGetLayout key mask selected = some 0 := if_pos h
  rw [stateSymbol, hlayout]
  rfl

theorem isPairLetter_key {key : Nat} (h : 9 ≤ key ∧ key ≤ 24) : IsPairLetter (key + 88) := by
  unfold IsPairLetter
  omega

/-- The symbol of a key is none of the special ones. -/
theorem key_ne {key n : Nat} (h : 9 ≤ key ∧ key ≤ 24) (hn : 200 ≤ n) : key + 88 ≠ n := by
  omega

theorem reachableCode_pairs {key : Nat} (h : 9 ≤ key ∧ key ≤ 24) (slot mods : Nat) :
    reachableCode pairsXkeymap ctx (key, slot, mods) = some (key + 88, ((key + 88 : Nat) : Int)) := by
  have hgroup : ¬ (key + 88 = keyIsoNextGroup ∨ key + 88 = keyIsoPrevGroup ∨
      key + 88 = keyIsoFirstGroup ∨ key + 88 = keyIsoLastGroup) := by
    rintro (h' | h' | h' | h') <;> exact key_ne h (by decide) h'
  rw [reachableCode, not_groupSwitch key h.2, Bool.and_false, if_neg Bool.false_ne_true,
    stateSymbol_pairs h, Option.bind_some, if_neg hgroup,
    xkeymapGetCode_letter ctx (isPairLetter_key h), Option.map_some,
    reserveShifts_letter ctx (isPairLetter_key h)]

/-- Each letter can be typed. -/
theorem lookup_pairs (h : IsPairLetter sym) :
    lookupReachableSym (reachableSyms pairsXkeymap ctx) sym = some (sym : Int) := by
  obtain ⟨key, rfl⟩ : ∃ key, sym = key + 88 := ⟨sym - 88, by unfold IsPairLetter at *; omega⟩
  have hkey : 9 ≤ key ∧ key ≤ 24 := by
    unfold IsPairLetter at h
    omega
  refine (lookup_reachableSyms pairsXkeymap ctx).mpr ⟨(key, 0, 0), ?_, reachableCode_pairs ctx hkey 0 0⟩
  rw [mem_walkCells, mem_keycodes]
  refine ⟨⟨hkey.1, ?_, hkey.2, ?_⟩, ?_, by decide⟩
  · unfold evdevOffset
    omega
  · unfold nrKeys evdevOffset
    omega
  · rcases groupStates_cases pairsXkeymap with hs | hs <;> rw [hs] <;> split <;> decide

/-- The candidate of a pair. -/
theorem candidate_pairs {i j : Nat} (hi : i < 16) (hj : j < 16) :
    ∃ c, xkeymapComposeCandidateFromEntry ctx pairsXkeymap.syms (reachableSyms pairsXkeymap ctx)
        ⟨[i + 97, j + 97], 97⟩ = some c ∧
      c.seq = (i + 97, j + 97) ∧ c.diacr = ⟨i + 97, j + 97, 97⟩ := by
  have hlookup {k : Nat} (hk : k < 16) : lookupReachableSym (reachableSyms pairsXkeymap ctx) (k + 97) =
      some ((k + 97 : Nat) : Int) := lookup_pairs ctx (by unfold IsPairLetter; omega)
  have hinput {k : Nat} (hk : k < 16) : xkeymapComposeInputCode ((k + 97 : Nat) : Int) =
      some ((k + 97 : Nat) : Int) := by
    have htyp : ktyp ((k + 97 : Nat) : Int) = 0 := by
      unfold ktyp
      omega
    rw [xkeymapComposeInputCode, htyp, if_neg (by decide), if_neg (by decide)]
  have hunsigned {k : Nat} (hk : k < 16) : toUnsigned ((k + 97 : Nat) : Int) = k + 97 := by
    unfold toUnsigned
    omega
  have hresult : composeResult ctx pairsXkeymap.syms (reachableSyms pairsXkeymap ctx) 97 =
      some (97, true) := by
    rw [composeResult, hlookup (k := 0) (by decide)]
    rfl
  refine ⟨⟨⟨i + 97, j + 97, 97⟩, (i + 97, j + 97), 97, true,
    xkeymapScoreComposeCandidate pairsXkeymap.syms
      ⟨⟨i + 97, j + 97, 97⟩, (i + 97, j + 97), 97, true, 0⟩⟩, ?_, rfl, rfl⟩
  have hsym : (97 : Keysym) ≠ keyNoSymbol := by decide
  simp only [xkeymapComposeCandidateFromEntry, hlookup hi, hlookup hj, Option.bind_some,
    hinput hi, hinput hj, hresult, if_neg hsym, Option.bind_eq_bind, Option.pure_def,
    hunsigned hi, hunsigned hj]
  rfl

/-- The stored inputs of the candidate of a pair. -/
theorem storedPair_pairs {i j : Nat} (hi : i < 16) (hj : j < 16) {c : ComposeCandidate}
    (hc : c.diacr = ⟨i + 97, j + 97, 97⟩) : storedPair ctx c = (i + 97, j + 97) := by
  have hconv {k : Nat} (hk : k < 16) (d : Direction) :
      toUnsigned (convertCode ctx (toSigned (k + 97)) d) = k + 97 := by
    have hsigned : toSigned (k + 97) = ((k + 97 : Nat) : Int) := by
      unfold toSigned
      omega
    have htyp : ktyp ((k + 97 : Nat) : Int) = 0 := by
      unfold ktyp
      omega
    have hsmall : ((k + 97 : Nat) : Int) < 0x80 ∧ ¬ ((k + 97 : Nat) : Int) ≥ 0x1000 := by omega
    rw [hsigned, convertCode]
    simp only [htyp, hsmall, decide_true, decide_false, Bool.not_false, Bool.and_self, if_true,
      show ¬ (0 : Int) = ktMeta by decide, if_false]
    unfold toUnsigned
    omega
  simp only [storedPair, convertDiacr, hc, hconv hi, hconv hj]

theorem mem_pairsCompose {entry : ComposeTableEntry} :
    entry ∈ pairsCompose ↔ ∃ i < 16, ∃ j < 16, entry = ⟨[i + 97, j + 97], 97⟩ := by
  simp only [pairsCompose, List.mem_flatMap, List.mem_map, List.mem_range, eq_comm]

/-- The selected candidates have as many stored inputs as there are pairs. -/
theorem card_pairs {l : List ComposeCandidate}
    (h : selectedCandidates (fun cmp l => l.mergeSort fun a b => decide (cmp a b ≤ 0)) pairsXkeymap
      pairsCompose ctx = some l) : maxDiacr ≤ (l.map (storedPair ctx)).toFinset.card := by
  obtain ⟨arr, out, hrun, hsel⟩ := xkeymapSelectComposeCandidates_run isQsort_mergeSort
    (xkeymapCollectComposeCandidates ctx pairsXkeymap.syms (reachableSyms pairsXkeymap ctx)
      pairsCompose)
  rw [selectedCandidates, hrun] at h
  obtain rfl := Option.some.inj h
  have hpairs : ((Finset.range 16 ×ˢ Finset.range 16).image fun p => (p.1 + 97, p.2 + 97)) ⊆
      ((arr.take out).map (storedPair ctx)).toFinset := by
    intro pair hpair
    obtain ⟨⟨i, j⟩, hij, rfl⟩ := Finset.mem_image.mp hpair
    obtain ⟨hi, hj⟩ := Finset.mem_product.mp hij
    rw [Finset.mem_range] at hi hj
    obtain ⟨c, hc, hseq, -⟩ := candidate_pairs ctx hi hj
    have hmem := List.mem_filterMap.mpr ⟨_, mem_pairsCompose.mpr ⟨i, hi, j, hj, rfl⟩, hc⟩
    -- what is kept of its sequence is the candidate of the same pair
    obtain ⟨k, hk, hkseq, -⟩ := hsel.best c hmem
    obtain ⟨entry, hentry, hkc⟩ := List.mem_filterMap.mp (hsel.subset k hk)
    obtain ⟨i', hi', j', hj', rfl⟩ := mem_pairsCompose.mp hentry
    obtain ⟨c', hc', hseq', hdiacr'⟩ := candidate_pairs ctx hi' hj'
    rw [hkc] at hc'
    obtain rfl := Option.some.inj hc'
    rw [hkseq, hseq, Prod.mk.injEq] at hseq'
    rw [List.mem_toFinset, List.mem_map]
    refine ⟨k, hk, ?_⟩
    rw [storedPair_pairs ctx hi' hj' hdiacr', hseq'.1, hseq'.2]
  refine le_trans (le_of_eq ?_) (Finset.card_le_card hpairs)
  rw [Finset.card_image_of_injective, Finset.card_product, Finset.card_range]
  intro a b hab
  simp only [Prod.mk.injEq, Nat.add_right_cancel_iff] at hab
  exact Prod.ext hab.1 hab.2

theorem exists_convert_pairs : ∃ ctx',
    convertXkbKeymap (fun cmp l => l.mergeSort fun a b => decide (cmp a b ≤ 0)) pairsXkeymap
      (some pairsCompose) (lkInit { preferUnicode := true } 0) = some ctx' := by
  obtain ⟨walked, hwalk⟩ := @xkeymapWalk_returns pairsXkeymap (by decide) (by decide)
    (lkInit { preferUnicode := true } 0) rfl
  rw [convertXkbKeymap, xkeymapWalkReachable_eq, hwalk]
  simp only [if_true]
  obtain ⟨arr, out, hrun, -⟩ := xkeymapSelectComposeCandidates_run isQsort_mergeSort
    (xkeymapCollectComposeCandidates walked pairsXkeymap.syms
      (reachableSyms pairsXkeymap (lkInit { preferUnicode := true } 0)) pairsCompose)
  rw [xkeymapCompose, hrun]
  simp only [Option.bind_eq_bind, Option.bind_some, Option.pure_def, Option.map_some,
    xkeymapFillModifierReleaseBindings_run]
  exact ⟨_, rfl⟩

theorem holds_lkInit (flags : LkFlags) (charset : Nat) : Holds (lkInit flags charset) [] :=
  ⟨rfl, fun i => LkArray.get_init i⟩

/-- The conversion of this keymap, where the condition does not hold. -/
theorem convertXkbKeymap_loadsAll_pairs : ∃ ctx' l,
    convertXkbKeymap (fun cmp l => l.mergeSort fun a b => decide (cmp a b ≤ 0)) pairsXkeymap
        (some pairsCompose) (lkInit { preferUnicode := true } 0) = some ctx' ∧
      selectedCandidates (fun cmp l => l.mergeSort fun a b => decide (cmp a b ≤ 0)) pairsXkeymap
        pairsCompose (lkInit { preferUnicode := true } 0) = some l ∧
      ¬ LoadsAll ctx' (liveDiacrs ctx') := by
  obtain ⟨ctx', hconvert⟩ := exists_convert_pairs
  obtain ⟨l, hl, -, hiff⟩ := convertXkbKeymap_loadsAll_iff
    (holds_lkInit { preferUnicode := true } 0) hconvert
  refine ⟨ctx', l, hconvert, hl, fun hload => ?_⟩
  have hcard := card_pairs _ hl
  have hlt := (hiff.mp hload).1
  omega

/-- The definitions of a keymap with 256 of them are appended, and one too many for `defdiacs`. -/
theorem not_convertXkbKeymap_loadsAll :
    ¬ ∀ (qsort : Qsort) (x : Xkeymap) (compose : List ComposeTableEntry) (ctx ctx' : LkCtx),
      IsQsort qsort → Holds ctx [] → convertXkbKeymap qsort x (some compose) ctx = some ctx' →
        LoadsAll ctx' (liveDiacrs ctx') := by
  intro h
  obtain ⟨ctx', hconvert⟩ := exists_convert_pairs
  have hempty := holds_lkInit { preferUnicode := true } 0
  have hload := h _ pairsXkeymap pairsCompose _ ctx' isQsort_mergeSort hempty hconvert
  obtain ⟨l, hl, -, hholds⟩ := holds_of_convert hempty hconvert
  rw [hholds.liveDiacrs, hholds.loadsAll_iff] at hload
  have hcard := card_pairs _ hl
  have hlt := hload.1
  rw [appendedRules, List.length_map, appendedCandidates, List.length_take, newCandidates,
    length_firsts] at hlt
  omega

end Pairs

end Kbd.Xkb
