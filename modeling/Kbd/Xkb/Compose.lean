import Kbd.Keymap.Diacr
import Kbd.Lib.Sort
import Kbd.Xkb.Release
import Kbd.Xkb.Walk

/-!
# Compose definitions (`xkbsupport.c`)

The console has one table of compose definitions of limited size, so the sequences of the locale are
scored, the best result of each sequence is kept, and the definitions are appended best first. The
walk remembers which symbols can be typed and with which code. `qsort` is a parameter.
-/

namespace Kbd.Xkb

open Kbd.Keymap Kbd.Lib

/-- `struct compose_candidate`. -/
structure ComposeCandidate where
  diacr : LkKbdiacr
  seq : Keysym × Keysym
  resultSym : Keysym
  resultReachable : Bool
  score : Int
  deriving DecidableEq, Repr

/-! ## Scores -/

section

variable (ks : Keysyms)

/-- `xkeymap_is_dead_keysym`. -/
def xkeymapIsDeadKeysym (sym : Keysym) : Bool :=
  (ks.getName sym).any fun buf => (bytes "dead_").isPrefixOf buf

/-- `xkeymap_compose_code_to_unicode`. -/
def xkeymapComposeCodeToUnicode (code : Nat) : Nat :=
  if code ≥ 0x1000 then code ^^^ 0xf000
  else if ktyp code = ktLatin ∨ ktyp code = ktLetter then code % 256
  else 0

/-- `xkeymap_compose_result_unicode`. -/
def xkeymapComposeResultUnicode (candidate : ComposeCandidate) : Nat :=
  xkeymapComposeCodeToUnicode candidate.diacr.result

/-- `xkeymap_is_ascii_lower`. -/
def xkeymapIsAsciiLower (c : Nat) : Bool := c ≥ 'a'.toNat && c ≤ 'z'.toNat

/-- `xkeymap_is_ascii_upper`. -/
def xkeymapIsAsciiUpper (c : Nat) : Bool := c ≥ 'A'.toNat && c ≤ 'Z'.toNat

/-- `xkeymap_ascii_in_set`. -/
def xkeymapAsciiInSet (c : Nat) (set : String) : Bool := (bytes set).any fun s => c = s.toNat

/-- `xkeymap_is_ascii_vowel`. -/
def xkeymapIsAsciiVowel (c : Nat) : Bool := xkeymapAsciiInSet c "AEIOUYaeiouy"

/-- `xkeymap_is_preferred_console_dead_rule`. -/
def xkeymapIsPreferredConsoleDeadRule (candidate : ComposeCandidate) : Bool :=
  let baseUnicode := xkeymapComposeCodeToUnicode candidate.diacr.base
  if xkeymapIsDeadKeysym ks candidate.seq.2 then false
  else
    match candidate.seq.1 with
    | 0xfe50 => xkeymapAsciiInSet baseUnicode "AEIOUaeiou" -- dead_grave
    | 0xfe54 => xkeymapAsciiInSet baseUnicode "AEIOUaeiou" -- dead_macron
    | 0xfe51 => xkeymapAsciiInSet baseUnicode "ACEILNORSUYZaceilnorsuyz" -- dead_acute
    | 0xfe52 => xkeymapAsciiInSet baseUnicode "ACEGHIJOSUWYaceghijosuwy" -- dead_circumflex
    | 0xfe53 => xkeymapAsciiInSet baseUnicode "AINOUainou" -- dead_tilde
    | 0xfe57 => xkeymapIsAsciiVowel baseUnicode -- dead_diaeresis
    | 0xfe58 => xkeymapAsciiInSet baseUnicode "AUau" -- dead_abovering
    | 0xfe5b => xkeymapAsciiInSet baseUnicode "ACESTacest" -- dead_cedilla
    | 0xfe5a => xkeymapAsciiInSet baseUnicode "CDELNRSTZcdelnrstz" -- dead_caron
    | 0xfe5c => xkeymapAsciiInSet baseUnicode "AEae" -- dead_ogonek
    | 0xfe55 => xkeymapAsciiInSet baseUnicode "AGUagu" -- dead_breve
    | 0xfe59 => xkeymapAsciiInSet baseUnicode "OUou" -- dead_doubleacute
    | 0xfe56 => xkeymapAsciiInSet baseUnicode "CEGILZcegilz" -- dead_abovedot
    | _ => false

/-- What the base character adds to a score. -/
def baseScore (baseUnicode : Nat) : Int :=
  if xkeymapIsAsciiLower baseUnicode then 250
  else if xkeymapIsAsciiUpper baseUnicode then 200
  else if baseUnicode ≥ '0'.toNat ∧ baseUnicode ≤ '9'.toNat ∨ baseUnicode = ' '.toNat then -200
  else if baseUnicode ≠ 0 then -50
  else 0

/-- What the resulting character adds to a score. -/
def resultScore (resultUnicode : Nat) : Int :=
  if resultUnicode > 0 ∧ resultUnicode ≤ 0x00ff then 200
  else if resultUnicode > 0 ∧ resultUnicode ≤ 0x017f then 100
  else if resultUnicode > 0 then 25
  else 0

/-- `xkeymap_score_compose_candidate`. -/
def xkeymapScoreComposeCandidate (candidate : ComposeCandidate) : Int :=
  let baseUnicode :=
    if xkeymapIsDeadKeysym ks candidate.seq.2 then 0
    else xkeymapComposeCodeToUnicode candidate.diacr.base
  (if xkeymapIsDeadKeysym ks candidate.seq.1 then 1000 else 0) +
    (if xkeymapIsPreferredConsoleDeadRule ks candidate then 300 else 0) + baseScore baseUnicode +
    resultScore (xkeymapComposeResultUnicode candidate) -
    (if candidate.resultReachable then 100 else 0)

end

/-! ## Selection -/

/-- `compare_compose_order`. -/
def compareComposeOrder (lhs rhs : Nat) : Int := if lhs < rhs then -1 else if lhs > rhs then 1 else 0

/-- `compare_compose_scores`. -/
def compareComposeScores (lhs rhs : Int) : Int := if lhs < rhs then -1 else if lhs > rhs then 1 else 0

/-- `compare_compose_candidates`. -/
def compareComposeCandidates (lhs rhs : ComposeCandidate) : Int :=
  let ret := compareComposeScores rhs.score lhs.score
  if ret ≠ 0 then ret
  else
    let ret := compareComposeOrder lhs.seq.1 rhs.seq.1
    if ret ≠ 0 then ret
    else
      let ret := compareComposeOrder lhs.seq.2 rhs.seq.2
      if ret ≠ 0 then ret
      else compareComposeOrder lhs.resultSym rhs.resultSym

/-- `compare_compose_candidates_by_sequence`. -/
def compareComposeCandidatesBySequence (lhs rhs : ComposeCandidate) : Int :=
  let ret := compareComposeOrder lhs.seq.1 rhs.seq.1
  if ret ≠ 0 then ret
  else
    let ret := compareComposeOrder lhs.seq.2 rhs.seq.2
    if ret ≠ 0 then ret
    else
      let ret := compareComposeScores rhs.score lhs.score
      if ret ≠ 0 then ret
      else compareComposeOrder lhs.resultSym rhs.resultSym

/-- `compose_candidates_same_sequence`. -/
def composeCandidatesSameSequence (lhs rhs : ComposeCandidate) : Bool :=
  lhs.seq.1 = rhs.seq.1 && lhs.seq.2 = rhs.seq.2

/-- One round of the loop of `xkeymap_select_compose_candidates`, on the array and `out`; `none` is
an access outside the array. -/
def selectRound (st : List ComposeCandidate × Nat) (i : Nat) :
    Option (List ComposeCandidate × Nat) := do
  let (candidates, out) := st
  let candidate ← candidates[i]?
  if out > 0 then
    let last ← candidates[out - 1]?
    if composeCandidatesSameSequence last candidate then return (candidates, out)
  return (candidates.set out candidate, out + 1)

/-- What `qsort` makes of an array of candidates. -/
abbrev Qsort : Type :=
  (ComposeCandidate → ComposeCandidate → Int) → List ComposeCandidate → List ComposeCandidate

variable (qsort : Qsort)

/-- `xkeymap_select_compose_candidates`: the array afterwards and the number that is returned. -/
def xkeymapSelectComposeCandidates (candidates : List ComposeCandidate) :
    Option (List ComposeCandidate × Nat) :=
  let count := candidates.length
  if count < 2 then some (candidates, count)
  else do
    let (candidates, out) ← (List.range count).foldlM selectRound
      (qsort compareComposeCandidatesBySequence candidates, 0)
    return (qsort compareComposeCandidates (candidates.take out) ++ candidates.drop out, out)

/-! ## Candidates -/

/-- `struct xkb_compose_table_entry`. -/
structure ComposeTableEntry where
  /-- `xkb_compose_table_entry_sequence` -/
  sequence : List Keysym
  /-- `xkb_compose_table_entry_keysym` -/
  keysym : Keysym
  deriving DecidableEq, Repr

/-- The symbols that can be typed, each with the code that was found first. -/
abbrev ReachableSyms : Type := List (Keysym × Int)

/-- `lookup_reachable_sym`. -/
def lookupReachableSym (reachable : ReachableSyms) (sym : Keysym) : Option Int :=
  reachable.lookup sym

/-- `remember_reachable_sym`. -/
def rememberReachableSym (reachable : ReachableSyms) (sym : Keysym) (code : Int) : ReachableSyms :=
  if (lookupReachableSym reachable sym).isSome then reachable else (sym, code) :: reachable

/-- `dead_chars`. -/
def deadChars : List Char := bytes "`'^~\",_U.*=cki#o!?+-)(:n;$@"

/-- `xkeymap_compose_input_code`. -/
def xkeymapComposeInputCode (code : Int) : Option Int :=
  if ktyp code = ktDead then (deadChars[(kval code).toNat]?).map fun c => (c.toNat : Int)
  else if ktyp code = ktDead2 then some (U (kval code))
  else some code

abbrev keyNoSymbol : Keysym := 0

section

variable (ctx : LkCtx) (ks : Keysyms) (reachable : ReachableSyms)

/-- The code and the flag `result_reachable` of the result of a definition. -/
def composeResult (keysym : Keysym) : Option (Int × Bool) :=
  match lookupReachableSym reachable keysym with
  | some code => some (code, true)
  | none => (xkeymapGetCode ctx ks keysym).map fun code => (code, false)

/-- `xkeymap_compose_candidate_from_entry`. -/
def xkeymapComposeCandidateFromEntry (entry : ComposeTableEntry) : Option ComposeCandidate :=
  match entry.sequence with
  | [sym₀, sym₁] => do
    if entry.keysym = keyNoSymbol then failure
    let diacr ← (lookupReachableSym reachable sym₀).bind xkeymapComposeInputCode
    let base ← (lookupReachableSym reachable sym₁).bind xkeymapComposeInputCode
    let (result, resultReachable) ← composeResult ctx ks reachable entry.keysym
    let candidate : ComposeCandidate :=
      { diacr := ⟨toUnsigned diacr, toUnsigned base, toUnsigned result⟩
        seq := (sym₀, sym₁)
        resultSym := entry.keysym
        resultReachable
        score := 0 }
    return { candidate with score := xkeymapScoreComposeCandidate ks candidate }
  | _ => none

/-- `xkeymap_collect_compose_candidates`. -/
def xkeymapCollectComposeCandidates (compose : List ComposeTableEntry) : List ComposeCandidate :=
  compose.filterMap (xkeymapComposeCandidateFromEntry ctx ks reachable)

end

/-! ## Appending -/

/-- `compare_kernel_compose_rules`. -/
def compareKernelComposeRules (lhs rhs : LkKbdiacr) : Int :=
  let ret := compareComposeOrder lhs.diacr rhs.diacr
  if ret ≠ 0 then ret else compareComposeOrder lhs.base rhs.base

/-- The context and the locals of `xkeymap_append_compose_candidates`. The tree `seen_rules` is the
list of its members. -/
structure AppendState where
  ctx : LkCtx
  seenRules : List LkKbdiacr
  appended : Nat
  totalRules : Nat

/-- `rule`: the inputs of a candidate as the context stores them. -/
def kernelRule (ctx : LkCtx) (candidate : ComposeCandidate) : LkKbdiacr :=
  let direction := if ctx.flags.preferUnicode then Direction.toUnicode else .to8bit
  { candidate.diacr with
    diacr := toUnsigned (convertCode ctx (toSigned candidate.diacr.diacr) direction)
    base := toUnsigned (convertCode ctx (toSigned candidate.diacr.base) direction) }

/-- One round of the loop of `xkeymap_append_compose_candidates`. -/
def appendRound (st : AppendState) (candidate : ComposeCandidate) : AppendState :=
  let rule := kernelRule st.ctx candidate
  if st.seenRules.any fun seen => compareKernelComposeRules rule seen = 0 then st
  else
    let st := { st with seenRules := rule :: st.seenRules, totalRules := st.totalRules + 1 }
    if st.appended ≥ maxDiacr then st
    else
      { st with
        ctx := appendCompose st.ctx candidate.diacr
        appended := st.appended + 1 }

/-- `xkeymap_append_compose_candidates`: the context afterwards and `total_rules`. -/
def xkeymapAppendComposeCandidates (ctx : LkCtx) (candidates : List ComposeCandidate) :
    LkCtx × Nat :=
  let st := candidates.foldl appendRound ⟨ctx, [], 0, 0⟩
  (st.ctx, st.totalRules)

/-- `xkeymap_compose`. -/
def xkeymapCompose (ks : Keysyms) (reachable : ReachableSyms) (compose : List ComposeTableEntry)
    (ctx : LkCtx) : Option (LkCtx × Nat) := do
  let candidates := xkeymapCollectComposeCandidates ctx ks reachable compose
  let (candidates, selected) ← xkeymapSelectComposeCandidates qsort candidates
  return xkeymapAppendComposeCandidates ctx (candidates.take selected)

/-! ## The conversion -/

section

variable (x : Xkeymap)

/-- The code of a symbol in `xkeymap_walk`: ShiftL and ShiftR are reserved for layout switching. -/
def reserveShifts (ctx : LkCtx) (code : Int) : Int :=
  let unicode (name : String) := ksymtocode ctx (bytes name) .toUnicode
  let code := if code = unicode "ShiftL" ∨ code = unicode "ShiftR" then unicode "Shift" else code
  if code = unicode "ShiftL_Lock" ∨ code = unicode "ShiftR_Lock" then unicode "Shift_Lock" else code

/-- The symbol that a round of `xkeymap_walk` remembers, with its code. -/
def reachableCode (ctx : LkCtx) : Nat × Nat × Nat → Option (Keysym × Int)
  | (key, slot, mods) =>
    if slotHeld x slot && groupSwitchFeature x.keymap key then none
    else
      (stateSymbol x key (masks x mods) (slotSelected x slot)).bind fun sym =>
        if sym = keyIsoNextGroup ∨ sym = keyIsoPrevGroup ∨ sym = keyIsoFirstGroup ∨
            sym = keyIsoLastGroup then none
        else (xkeymapGetCode ctx x.syms sym).map fun code => (sym, reserveShifts ctx code)

/-- What a round of `xkeymap_walk` does to `reachable_syms`. -/
def rememberCell (ctx : LkCtx) (reachable : ReachableSyms) (cell : Nat × Nat × Nat) : ReachableSyms :=
  match reachableCode x ctx cell with
  | some (sym, code) => rememberReachableSym reachable sym code
  | none => reachable

/-- One round of the loops of `xkeymap_walk`, with `reachable_syms`. -/
def walkCellReachable (reachable : ReachableSyms) (cell : Nat × Nat × Nat) : Lk ReachableSyms := do
  let ctx ← get
  walkCell x cell
  return rememberCell x ctx reachable cell

/-- `xkeymap_walk`; `none` is -1. -/
def xkeymapWalkReachable (ctx : LkCtx) : Option ReachableSyms × LkCtx :=
  if x.keymap.numLayouts = 0 ∨ x.keymap.numLayouts > nrLayouts then (none, ctx)
  else
    match ((walkCells x).foldlM (walkCellReachable x) []).run
        { ctx with keywords := { ctx.keywords with altIsMeta := false } } with
    | .ok reachable ctx' => (some reachable, { ctx' with keywords := ctx.keywords })
    | .error _ ctx' => (none, { ctx' with keywords := ctx.keywords })

/-- `convert_xkb_keymap` with a compiled keymap and the compose table of the locale, if there is one;
`none` is -1 or an access outside an array. -/
def convertXkbKeymap (compose : Option (List ComposeTableEntry)) (ctx : LkCtx) : Option LkCtx :=
  match xkeymapWalkReachable x ctx with
  | (none, _) => none
  | (some reachable, ctx) => do
    let ctx ← match compose with
      | none => some ctx
      | some compose => (xkeymapCompose qsort x.syms reachable compose ctx).map Prod.fst
    match xkeymapFillModifierReleaseBindings.run ctx with
    | .ok _ ctx => some ctx
    | .error _ _ => none

end

example : compareComposeScores (-50) 250 = -1 ∧ compareComposeOrder 0xffffffff 0 = 1 := by decide

end Kbd.Xkb
