import Kbd.Keymap.Verify.Ksyms
import Kbd.Lib.Firsts
import Kbd.Xkb.Verify.Select

/-!
# Appending the compose definitions

A definition is looked up by the converted copy of its inputs, and converted again when it is
appended. The two conversions agree, and no appended definition changes later ones, so the loop
appends the first candidate for each pair of inputs that it stores.
-/

namespace Kbd.Xkb

open Kbd.Keymap Kbd.Lib

/-- The inputs of a candidate, as `lk_append_compose` stores them. -/
def storedPair (ctx : LkCtx) (c : ComposeCandidate) : Nat × Nat :=
  ((convertDiacr ctx c.diacr).diacr, (convertDiacr ctx c.diacr).base)

/-- The candidates whose stored inputs did not occur earlier. -/
def newCandidates (ctx : LkCtx) (l : List ComposeCandidate) : List ComposeCandidate :=
  firsts (storedPair ctx) l

/-- Those of them that the accent table is to hold. -/
def appendedCandidates (ctx : LkCtx) (l : List ComposeCandidate) : List ComposeCandidate :=
  (newCandidates ctx l).take maxDiacr

/-- The definitions that are appended. -/
def appendedRules (ctx : LkCtx) (l : List ComposeCandidate) : List LkKbdiacr :=
  (appendedCandidates ctx l).map fun c => convertDiacr ctx c.diacr

section

variable {ctx : LkCtx}

theorem kernelRule_pair (ctx : LkCtx) (c : ComposeCandidate) :
    ((kernelRule ctx c).diacr, (kernelRule ctx c).base) = storedPair ctx c := rfl

/-- Rules are the same to the search tree when their inputs are. -/
theorem compareKernelComposeRules_eq_zero {a b : LkKbdiacr} :
    compareKernelComposeRules a b = 0 ↔ (a.diacr, a.base) = (b.diacr, b.base) := by
  rw [compareKernelComposeRules, Prod.mk.injEq]
  by_cases h : a.diacr = b.diacr
  · simp [compareComposeOrder_eq_zero, h]
  · simp [compareComposeOrder_eq_zero, h]

theorem convertDiacr_append (ctx : LkCtx) (rules : List LkKbdiacr) (d : LkKbdiacr) :
    convertDiacr (rules.foldl lkAppendDiacr ctx) d = convertDiacr ctx d := by
  induction rules generalizing ctx with
  | nil => rfl
  | cons r rules ih =>
    have hflags : (lkAppendDiacr ctx r).flags = ctx.flags := rfl
    have hcharset : (lkAppendDiacr ctx r).charset = ctx.charset := rfl
    have hcode (code : Int) (dir : Direction) :
        convertCode (lkAppendDiacr ctx r) code dir = convertCode ctx code dir :=
      convertCode_congr hflags hcharset code dir
    rw [List.foldl_cons, ih]
    simp only [convertDiacr, hcode]
    rfl

/-- What the loop has done with the candidates `l`. -/
structure AppendedFrom (ctx : LkCtx) (l : List ComposeCandidate) (st : AppendState) : Prop where
  ctx_eq : st.ctx = (appendedRules ctx l).foldl lkAppendDiacr ctx
  seen : ∀ pair, (∃ r ∈ st.seenRules, (r.diacr, r.base) = pair) ↔ pair ∈ l.map (storedPair ctx)
  appended : st.appended = (appendedRules ctx l).length
  total : st.totalRules = (newCandidates ctx l).length

theorem AppendedFrom.nil (ctx : LkCtx) : AppendedFrom ctx [] ⟨ctx, [], 0, 0⟩ :=
  ⟨rfl, by simp, rfl, rfl⟩

/-- A round of the loop. -/
theorem AppendedFrom.append {l : List ComposeCandidate} {st : AppendState}
    (h : AppendedFrom ctx l st) (c : ComposeCandidate) :
    AppendedFrom ctx (l ++ [c]) (appendRound st c) := by
  have hconv (d : LkKbdiacr) : convertDiacr st.ctx d = convertDiacr ctx d := by
    rw [h.ctx_eq, convertDiacr_append]
  have hpair : storedPair st.ctx c = storedPair ctx c := by
    rw [storedPair, hconv, storedPair]
  have hseen : (st.seenRules.any fun seen =>
      compareKernelComposeRules (kernelRule st.ctx c) seen = 0) = true ↔
        storedPair ctx c ∈ l.map (storedPair ctx) := by
    rw [← h.seen, List.any_eq_true]
    refine exists_congr fun r => and_congr_right fun _ => ?_
    rw [decide_eq_true_eq, compareKernelComposeRules_eq_zero, kernelRule_pair, hpair, eq_comm]
  by_cases hold : storedPair ctx c ∈ l.map (storedPair ctx)
  · -- the pair is in the tree
    have hnew : newCandidates ctx (l ++ [c]) = newCandidates ctx l := by
      rw [newCandidates, firsts_append_singleton, if_pos hold, newCandidates]
    have hrules : appendedRules ctx (l ++ [c]) = appendedRules ctx l := by
      rw [appendedRules, appendedCandidates, hnew, appendedRules, appendedCandidates]
    rw [appendRound, if_pos (hseen.mpr hold)]
    refine ⟨hrules ▸ h.ctx_eq, fun pair => ?_, hrules ▸ h.appended, hnew ▸ h.total⟩
    rw [h.seen, List.map_append, List.mem_append, List.map_singleton, List.mem_singleton]
    constructor
    · exact .inl
    · rintro (hpair | rfl)
      · exact hpair
      · exact hold
  · have hnew : newCandidates ctx (l ++ [c]) = newCandidates ctx l ++ [c] := by
      rw [newCandidates, firsts_append_singleton, if_neg hold, newCandidates]
    have hseen' (pair : Nat × Nat) :
        (∃ r ∈ kernelRule st.ctx c :: st.seenRules, (r.diacr, r.base) = pair) ↔
          pair ∈ (l ++ [c]).map (storedPair ctx) := by
      rw [List.exists_mem_cons_iff, h.seen, kernelRule_pair, hpair, List.map_append, List.mem_append,
        List.map_singleton, List.mem_singleton, or_comm, eq_comm]
    have happended := h.appended
    rw [appendedRules, appendedCandidates, List.length_map, List.length_take] at happended
    rw [appendRound, if_neg (by rwa [hseen])]
    dsimp only
    by_cases hfull : st.appended ≥ maxDiacr
    · -- the table is full
      have hrules : appendedRules ctx (l ++ [c]) = appendedRules ctx l := by
        rw [appendedRules, appendedCandidates, hnew, List.take_append_of_le_length (by omega),
          appendedRules, appendedCandidates]
      rw [if_pos hfull]
      exact ⟨hrules ▸ h.ctx_eq, hseen', hrules ▸ h.appended, by simp [hnew, h.total]⟩
    · have hrules : appendedRules ctx (l ++ [c]) =
          appendedRules ctx l ++ [convertDiacr ctx c.diacr] := by
        rw [appendedRules, appendedCandidates, hnew, List.take_of_length_le (by simp; omega),
          List.map_append, appendedRules, appendedCandidates, List.take_of_length_le (by omega)]
        rfl
      rw [if_neg hfull]
      refine ⟨?_, hseen', by simp [hrules, h.appended], by simp [hnew, h.total]⟩
      rw [hrules, List.foldl_append, ← h.ctx_eq]
      change lkAppendDiacr st.ctx (convertDiacr st.ctx c.diacr) = _
      rw [hconv]
      rfl

theorem appendLoop_spec (ctx : LkCtx) (l : List ComposeCandidate) :
    AppendedFrom ctx l (l.foldl appendRound ⟨ctx, [], 0, 0⟩) := by
  induction l using List.reverseRecOn with
  | nil => exact .nil ctx
  | append_singleton l c ih =>
    rw [List.foldl_append]
    exact ih.append c

/-- The definitions that are appended are, in the order of the list, those of the first candidates for
their stored inputs, `MAX_DIACR` of them at most; no two have the same inputs, and `total_rules` is
the number of different inputs. -/
theorem xkeymapAppendComposeCandidates_spec (ctx : LkCtx) (l : List ComposeCandidate) :
    (xkeymapAppendComposeCandidates ctx l).1 =
        (((firsts (storedPair ctx) l).take maxDiacr).map fun c => convertDiacr ctx c.diacr).foldl
          lkAppendDiacr ctx ∧
      ((((firsts (storedPair ctx) l).take maxDiacr).map fun c => convertDiacr ctx c.diacr).map
        fun rule => (rule.diacr, rule.base)).Nodup ∧
      (∀ c ∈ (firsts (storedPair ctx) l).take maxDiacr, ∃ before after, l = before ++ c :: after ∧
        ∀ d ∈ before, storedPair ctx d ≠ storedPair ctx c) ∧
      (xkeymapAppendComposeCandidates ctx l).2 = (l.map (storedPair ctx)).toFinset.card := by
  have h := appendLoop_spec ctx l
  refine ⟨h.ctx_eq, ?_, ?_, ?_⟩
  · rw [List.map_map]
    exact (nodup_map_firsts (storedPair ctx) l).sublist ((List.take_sublist _ _).map _)
  · intro c hc
    obtain ⟨before, after, hl, hnew⟩ :=
      exists_split_of_mem_firsts (storedPair ctx) (List.mem_of_mem_take hc)
    exact ⟨before, after, hl, fun d hd heq => hnew (List.mem_map.mpr ⟨d, hd, heq⟩)⟩
  · exact h.total.trans (length_firsts _ _)

end

end Kbd.Xkb
