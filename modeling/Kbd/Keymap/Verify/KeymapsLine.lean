import Kbd.Keymap.Verify.Keymap
import Kbd.Keymap.Verify.ReadLines

/-!
# The `keymaps` line

`lk_dump_keymaps` prints the set of the maps as ranges (`lkDumpKeymaps_eq`). Reading the line makes
the same set of maps (`reads_keymapsLine`).
-/

namespace Kbd.Keymap

open Kbd.Lib

/-! ## Writing -/

/-- A range, from its first map to its last. -/
abbrev MapRange := Nat × Nat

/-- Whether a range has map `t`. -/
def MapRange.Has (q : MapRange) (t : Nat) : Prop := q.1 ≤ t ∧ t ≤ q.2

def MapRange.text (q : MapRange) : List Char :=
  if q.1 = q.2 then fmtU q.1 else fmtU q.1 ++ '-' :: fmtU q.2

/-- The text of a `keymaps` line without its end. -/
def rangesText : List MapRange → List Char
  | [] => []
  | q :: qs => bytes "keymaps" ++ ' ' :: (q.text ++ qs.flatMap fun q => ',' :: q.text)

/-- A line, unless there are no ranges. -/
def keymapsText (qs : List MapRange) : List Char :=
  rangesText qs ++ (if qs = [] then [] else ['\n'])

theorem rangesText_concat (qs : List MapRange) (q : MapRange) :
    rangesText (qs ++ [q]) = rangesText qs ++ (if qs = [] then bytes "keymaps" else []) ++
      (if qs = [] then ' ' else ',') :: q.text := by
  cases qs with
  | nil => simp [rangesText]
  | cons q' qs => simp [rangesText]

/-- After `k` rounds, with the ranges that are printed. -/
structure RangeInv (c : LkCtx) (k : Nat) (done : List MapRange) (st : RangeState) : Prop where
  out : st.out = rangesText done
  kw : st.kw = decide (done ≠ [])
  sep : st.sep = decide (done ≠ [])
  le : ∀ q ∈ done, q.1 ≤ q.2
  current : (st.n = 0 ∧ st.m = 0) ∨ (1 ≤ st.n ∧ st.n ≤ st.m ∧ st.m = k)
  maps : ∀ t, (lkMapExists c t = true ∧ t < k) ↔
    (∃ q ∈ done, MapRange.Has q t) ∨ (st.n ≤ t + 1 ∧ t + 1 ≤ st.m)

variable {c : LkCtx} {k : Nat} {done : List MapRange} {st : RangeState}

/-- Printing the current range. -/
theorem RangeInv.print_out (h : RangeInv c k done st) :
    st.print.out = rangesText (done ++ [(st.n - 1, st.m - 1)]) := by
  rw [rangesText_concat]
  unfold RangeState.print MapRange.text
  simp only [h.out, h.kw, h.sep]
  by_cases hd : done = [] <;> simp [hd]

theorem RangeInv.print_has (h : RangeInv c k done st) (hm : st.m ≠ 0) (t : Nat) :
    (∃ q ∈ done ++ [(st.n - 1, st.m - 1)], MapRange.Has q t) ↔ lkMapExists c t = true ∧ t < k := by
  have hcur := h.current.resolve_left fun hidle => hm hidle.2
  rw [h.maps t]
  simp only [List.mem_append, List.mem_singleton, or_and_right, exists_or, exists_eq_left]
  refine or_congr_right ?_
  simp only [MapRange.Has]
  omega

theorem RangeInv.print_le (h : RangeInv c k done st) (hm : st.m ≠ 0) :
    ∀ q ∈ done ++ [(st.n - 1, st.m - 1)], q.1 ≤ q.2 := by
  have hcur := h.current.resolve_left fun hidle => hm hidle.2
  intro q hq
  rcases List.mem_append.mp hq with hq | hq
  · exact h.le q hq
  · rw [List.mem_singleton.mp hq]
    dsimp only
    omega

theorem RangeInv.step (h : RangeInv c k done st) :
    ∃ done', RangeInv c (k + 1) done' (st.step c k) := by
  have hcur := h.current
  unfold RangeState.step
  by_cases hex : lkMapExists c k = true
  · -- the current range goes on, or starts
    refine ⟨done, ?_⟩
    simp only [hex, Bool.not_true, Bool.false_eq_true, ↓reduceIte]
    refine ⟨h.out, h.kw, h.sep, h.le, Or.inr ?_, ?_⟩
    · dsimp only
      split <;> omega
    · intro t
      dsimp only
      by_cases ht : t = k
      · subst ht
        have hright : (if st.n = 0 then t + 1 else st.n) ≤ t + 1 ∧ t + 1 ≤ t + 1 := by
          split <;> omega
        exact iff_of_true ⟨hex, by omega⟩ (Or.inr hright)
      · have hlt : t < k + 1 ↔ t < k := by omega
        rw [hlt, h.maps t]
        refine or_congr_right ?_
        split <;> omega
  · have hmaps (t : Nat) : (lkMapExists c t = true ∧ t < k + 1) ↔ (lkMapExists c t = true ∧ t < k) := by
      refine and_congr_right fun ht => ?_
      have hne : t ≠ k := by
        rintro rfl
        exact hex ht
      omega
    simp only [hex, Bool.not_false, ↓reduceIte]
    by_cases hm : st.m = 0
    · refine ⟨done, ?_⟩
      rw [if_pos hm]
      exact ⟨h.out, h.kw, h.sep, h.le, Or.inl (by omega), fun t => by rw [hmaps, h.maps t]⟩
    · -- the current range ends
      refine ⟨done ++ [(st.n - 1, st.m - 1)], ?_⟩
      rw [if_neg hm]
      refine ⟨h.print_out, by simp [RangeState.print], by simp, h.print_le hm, Or.inl ⟨rfl, rfl⟩, ?_⟩
      intro t
      have hempty : ¬ (0 ≤ t + 1 ∧ t + 1 ≤ 0) := by omega
      rw [hmaps, ← h.print_has hm t]
      exact (or_iff_left hempty).symm

theorem rangeInv_foldl (c : LkCtx) (k : Nat) :
    ∃ done, RangeInv c k done ((List.range k).foldl (RangeState.step c) {}) := by
  induction k with
  | zero =>
    refine ⟨[], ⟨rfl, rfl, rfl, by simp, Or.inl ⟨rfl, rfl⟩, ?_⟩⟩
    intro t
    simp
  | succ k ih =>
    obtain ⟨done, h⟩ := ih
    rw [List.range_succ, List.foldl_append]
    exact h.step

/-- The line has the maps, and none if there are no maps. -/
theorem lkDumpKeymaps_eq (c : LkCtx) : ∃ qs : List MapRange, lkDumpKeymaps c = keymapsText qs ∧
    (∀ q ∈ qs, q.1 ≤ q.2) ∧ ∀ t, lkMapExists c t = true ↔ ∃ q ∈ qs, MapRange.Has q t := by
  obtain ⟨done, h⟩ := rangeInv_foldl c c.keymap.total
  have hall (t : Nat) :
      lkMapExists c t = true ↔ (lkMapExists c t = true ∧ t < c.keymap.total) :=
    ⟨fun ht => ⟨ht, lkMapExists_lt ht⟩, And.left⟩
  generalize hst : (List.range c.keymap.total).foldl (RangeState.step c) {} = st at h
  unfold keymapsText
  by_cases hm : st.m = 0
  · refine ⟨done, ?_, h.le, ?_⟩
    · simp only [lkDumpKeymaps, hst, hm, ne_eq, not_true_eq_false, ↓reduceIte, h.out, h.kw]
      by_cases hd : done = [] <;> simp [hd]
    · intro t
      have hempty : ¬ (st.n ≤ t + 1 ∧ t + 1 ≤ 0) := by omega
      rw [hall, h.maps t, hm]
      exact or_iff_left hempty
  · refine ⟨_, ?_, h.print_le hm, ?_⟩
    · simp only [lkDumpKeymaps, hst, hm, ne_eq, not_false_eq_true, ↓reduceIte, h.print_out]
      simp [RangeState.print]
    · intro t
      rw [hall, h.print_has hm t]

/-! ## Reading -/

/-- The range as the grammar has it. -/
def MapRange.toRange (q : MapRange) : Range :=
  if q.1 = q.2 then .single q.1 else .dash q.1 q.2

/-- The maps of a range. -/
def MapRange.list (q : MapRange) : List Nat := List.range' q.1 (q.2 + 1 - q.1)

theorem MapRange.mem_list {q : MapRange} {t : Nat} : t ∈ q.list ↔ q.Has t := by
  rw [MapRange.list, List.mem_range'_1, MapRange.Has]
  omega

/-- Add several maps. -/
def LkCtx.addMaps (c : LkCtx) (ts : List Nat) : LkCtx := ts.foldl LkCtx.addMap c

theorem lkMapExists_addMaps (c : LkCtx) (ts : List Nat) (t : Nat) :
    lkMapExists (c.addMaps ts) t = (decide (t ∈ ts) || lkMapExists c t) := by
  induction ts generalizing c with
  | nil => simp [LkCtx.addMaps]
  | cons t' ts ih =>
    have h := ih (c.addMap t')
    rw [lkMapExists_addMap] at h
    refine h.trans ?_
    by_cases ht : t = t'
    · simp [ht]
    · simp [ht]

theorem row_addMaps (c : LkCtx) (ts : List Nat) (i : Nat) : (c.addMaps ts).row i = c.row i := by
  induction ts generalizing c with
  | nil => rfl
  | cons t ts ih => exact (ih _).trans (row_addMap c t i)

theorem SameSettings.addMaps (c : LkCtx) (ts : List Nat) : SameSettings c (c.addMaps ts) := by
  induction ts generalizing c with
  | nil => exact refl c
  | cons t ts ih => exact (addMap c t).trans (ih _)

theorem forM_lkAddMap_run (ts : List Nat) (c : LkCtx) :
    (forM ts lkAddMap).run c = .ok () (c.addMaps ts) :=
  forM_eq_foldl (I := fun _ => True) (fun t _ c _ => ⟨lkAddMap_run c t, trivial⟩) trivial

theorem range0_run {q : MapRange} (hle : q.1 ≤ q.2) (hlt : q.2 < maxNrKeymaps) (c : LkCtx) :
    (range0 q.toRange).run c = .ok () (c.addMaps q.list) := by
  unfold MapRange.toRange
  by_cases heq : q.1 = q.2
  · have hlist : q.list = [q.1] := by
      rw [MapRange.list, ← heq, Nat.add_sub_cancel_left]
      rfl
    have hin : (decide ((q.1 : Int) < 0) || decide ((q.1 : Int) ≥ maxNrKeymaps)) = false := by
      simp only [Bool.or_eq_false_iff, decide_eq_false_iff_not]
      omega
    rw [if_pos heq, hlist]
    simp only [range0, hin, Bool.false_eq_true, ↓reduceIte, Int.toNat_natCast]
    rfl
  · have hin : (decide ((q.1 : Int) < 0) || decide ((q.1 : Int) ≥ maxNrKeymaps) ||
        decide ((q.2 : Int) < 0) || decide ((q.2 : Int) ≥ maxNrKeymaps) ||
        decide ((q.1 : Int) > q.2)) = false := by
      simp only [Bool.or_eq_false_iff, decide_eq_false_iff_not]
      omega
    rw [if_neg heq]
    simp only [range0, hin, Bool.false_eq_true, ↓reduceIte, Int.toNat_natCast]
    exact forM_lkAddMap_run q.list c

section Read

variable (find : FindIncl) (r : Reader) {p : Parser}

/-- After a range the parser is ready for what comes next. -/
theorem reads_range {done : List Range} {q : MapRange} (hle : q.1 ≤ q.2) (hlt : q.2 < 256)
    (hstate : p.state = .keymaps (.range done)) {a : Char} (ha : a = ',' ∨ a = '\n')
    (s : List Char) :
    ∃ p₁ p₂ : Parser, Reads find r ⟨p, [], q.text ++ a :: s⟩ ⟨p₁, [], a :: s⟩ ∧
      p₂.ctx = p.ctx.addMaps q.list ∧ p₂.mod = p.mod ∧
      ∀ tok, tok = .comma ∨ tok = .eol →
        (feed tok).run p₁ = (rangeNext (done ++ [q.toRange]) tok).run p₂ := by
  have hends : EndsNumber a := by
    rcases ha with rfl | rfl
    · exact Or.inr (Or.inr (Or.inl rfl))
    · exact Or.inr (Or.inr (Or.inr rfl))
  have hnumber : (feed (.number q.1)).run p =
      .ok () { p with state := .keymaps (.number done q.1) } := by
    rw [feed_keymaps hstate]
    rfl
  have hrange := range0_run hle hlt p.ctx
  unfold MapRange.text
  by_cases heq : q.1 = q.2
  · rw [if_pos heq]
    refine ⟨_, { p with ctx := p.ctx.addMaps q.list, state := .keymaps (.number done q.1) },
      reads_number find r (by omega) hends hnumber s, rfl, rfl, ?_⟩
    have htoRange : q.toRange = .single q.1 := if_pos heq
    rw [htoRange] at hrange ⊢
    have hlift : (liftLk (range0 (.single q.1))).run
        { p with state := .keymaps (.number done q.1) } =
        .ok () { p with ctx := p.ctx.addMaps q.list, state := .keymaps (.number done q.1) } :=
      liftLk_eq_ok.mpr ⟨_, hrange, rfl⟩
    rintro tok (rfl | rfl)
    · rw [feed_keymaps rfl]
      exact Result.bind_of_ok hlift
    · rw [feed_keymaps rfl]
      exact Result.bind_of_ok hlift
  · rw [if_neg heq, List.append_assoc, List.cons_append]
    have htoRange : q.toRange = .dash q.1 q.2 := if_neg heq
    rw [htoRange] at hrange ⊢
    have hlift : (liftLk (range0 (.dash q.1 q.2))).run
        { p with state := .keymaps (.dash done q.1) } =
        .ok () { p with ctx := p.ctx.addMaps q.list, state := .keymaps (.dash done q.1) } :=
      liftLk_eq_ok.mpr ⟨_, hrange, rfl⟩
    have hlast : (feed (.number q.2)).run { p with state := .keymaps (.dash done q.1) } =
        .ok () { p with
          ctx := p.ctx.addMaps q.list
          state := .keymaps (.rangeEnd (done ++ [.dash q.1 q.2])) } := by
      rw [feed_keymaps rfl]
      exact Result.bind_of_ok hlift
    refine ⟨{ p with
        ctx := p.ctx.addMaps q.list
        state := .keymaps (.rangeEnd (done ++ [.dash q.1 q.2])) },
      { p with
        ctx := p.ctx.addMaps q.list
        state := .keymaps (.rangeEnd (done ++ [.dash q.1 q.2])) }, ?_, rfl, rfl, ?_⟩
    · refine (reads_number find r (by omega) (Or.inr (Or.inl rfl)) hnumber _).trans ?_
      exact (reads_dash find r rfl _).trans (reads_number find r hlt hends hlast s)
    intro tok _
    rw [feed_keymaps rfl]
    rfl

/-- The context after a `keymaps` line. -/
def LkCtx.afterKeymaps (c : LkCtx) (qs : List MapRange) : LkCtx :=
  let c := c.addMaps (qs.flatMap MapRange.list)
  { c with keywords := { c.keywords with keymaps := true } }

theorem reads_ranges {qs : List MapRange} {q : MapRange} {done : List Range}
    (hle : ∀ q' ∈ q :: qs, q'.1 ≤ q'.2) (hlt : ∀ q' ∈ q :: qs, q'.2 < 256)
    (hstate : p.state = .keymaps (.range done)) (hmod : p.mod = 0) (s : List Char) :
    ∃ p', Between p' (p.ctx.afterKeymaps (q :: qs)) ∧
      Reads find r ⟨p, [], q.text ++ (qs.flatMap (fun q => ',' :: q.text) ++ '\n' :: s)⟩
        ⟨p', [], s⟩ := by
  have hle₀ := hle q List.mem_cons_self
  have hlt₀ := hlt q List.mem_cons_self
  induction qs generalizing p q done with
  | nil =>
    obtain ⟨p₁, p₂, hread, hctx, hmod', hfeed⟩ := reads_range find r hle₀ hlt₀
      hstate (Or.inr rfl) s
    have hlift : (liftLk keymapline).run p₂ = .ok () { p₂ with
        ctx := { p₂.ctx with keywords := { p₂.ctx.keywords with keymaps := true } } } :=
      liftLk_eq_ok.mpr ⟨_, rfl, rfl⟩
    have heol := (hfeed .eol (Or.inr rfl)).trans (Result.bind_of_ok hlift)
    refine ⟨_, ?_, hread.trans (reads_eol find r (Or.inl rfl) heol s)⟩
    refine ⟨?_, rfl, hmod'.trans hmod⟩
    dsimp only
    rw [hctx, LkCtx.afterKeymaps, List.flatMap_singleton]
  | cons q' qs ih =>
    obtain ⟨p₁, p₂, hread, hctx, hmod', hfeed⟩ := reads_range find r hle₀ hlt₀
      hstate (Or.inl rfl) (q'.text ++ (qs.flatMap (fun q => ',' :: q.text) ++ '\n' :: s))
    have hcomma := hfeed .comma (Or.inl rfl)
    obtain ⟨p', hp', hmore⟩ := ih (p := { p₂ with
        state := .keymaps (.range (done ++ [q.toRange])) })
      (fun q hq => hle q (List.mem_cons_of_mem _ hq))
      (fun q hq => hlt q (List.mem_cons_of_mem _ hq)) rfl (hmod'.trans hmod)
      (hle q' (by simp)) (hlt q' (by simp))
    refine ⟨p', ?_, ?_⟩
    · have hafter : p.ctx.afterKeymaps (q :: q' :: qs) = p₂.ctx.afterKeymaps (q' :: qs) := by
        rw [hctx, LkCtx.afterKeymaps, LkCtx.afterKeymaps, List.flatMap_cons, LkCtx.addMaps,
          List.foldl_append]
        rfl
      rw [hafter]
      exact hp'
    · rw [List.flatMap_cons, List.append_assoc, List.cons_append]
      exact hread.trans ((reads_comma find r hcomma _).trans hmore)

/-- The `keymaps` line. -/
theorem reads_keymapsLine {qs : List MapRange} (hne : qs ≠ []) (hle : ∀ q ∈ qs, q.1 ≤ q.2)
    (hlt : ∀ q ∈ qs, q.2 < 256) {c : LkCtx} (hp : Between p c) (s : List Char) :
    ∃ p', Between p' (c.afterKeymaps qs) ∧
      Reads find r ⟨p, [], keymapsText qs ++ s⟩ ⟨p', [], s⟩ := by
  obtain ⟨rfl, hstate, hmod⟩ := hp
  obtain ⟨q, qs, rfl⟩ := List.exists_cons_of_ne_nil hne
  have hkeymaps : (feed .keymaps).run p = .ok () { p with state := .keymaps (.range []) } := by
    rw [feed_top hstate]
    rfl
  have htext : keymapsText (q :: qs) ++ s = bytes "keymaps" ++ ' ' ::
      (q.text ++ (qs.flatMap (fun q => ',' :: q.text) ++ '\n' :: s)) := by
    simp [keymapsText, rangesText]
  obtain ⟨p', hp', hranges⟩ := reads_ranges find r
    (p := { p with state := .keymaps (.range []) }) hle hlt rfl hmod s
  rw [htext]
  refine ⟨p', hp', (reads_keymaps find r hkeymaps _).trans ?_⟩
  exact (Reads.blanks (blanks_replicate 1) _).trans hranges

end Read

end Kbd.Keymap
