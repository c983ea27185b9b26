import Kbd.Xkb.Compose

/-!
# The selection of compose candidates

The first sort brings the candidates of a sequence together, best first; the loop keeps the first of
each group in place; the second sort ranks what was kept. What is kept is described by membership
(`mem_kept_iff`), so it does not depend on the order at the start, and a sorted list with given
members is unique.
-/

namespace Kbd.Xkb

open Kbd.Keymap Kbd.Lib

/-! ## The comparisons -/

section Comparisons

theorem isComparison_order : IsComparison compareComposeOrder where
  swap a b := by
    unfold compareComposeOrder
    split <;> split <;> omega
  trans a b c hab hbc := by
    unfold compareComposeOrder at *
    split at hab <;> split at hbc <;> split <;> omega

theorem isComparison_scores : IsComparison compareComposeScores where
  swap a b := by
    unfold compareComposeScores
    split <;> split <;> omega
  trans a b c hab hbc := by
    unfold compareComposeScores at *
    split at hab <;> split at hbc <;> split <;> omega

theorem compareComposeOrder_neg {a b : Nat} : compareComposeOrder a b < 0 ↔ a < b := by
  unfold compareComposeOrder
  split <;> omega

theorem compareComposeOrder_eq_zero {a b : Nat} : compareComposeOrder a b = 0 ↔ a = b := by
  unfold compareComposeOrder
  split <;> omega

theorem compareComposeOrder_nonpos {a b : Nat} : compareComposeOrder a b ≤ 0 ↔ a ≤ b := by
  unfold compareComposeOrder
  split <;> omega

theorem compareComposeScores_neg {a b : Int} : compareComposeScores a b < 0 ↔ a < b := by
  unfold compareComposeScores
  split <;> omega

theorem compareComposeScores_eq_zero {a b : Int} : compareComposeScores a b = 0 ↔ a = b := by
  unfold compareComposeScores
  split <;> omega

/-- The order of two sequences. -/
def compareSeq (lhs rhs : Keysym × Keysym) : Int :=
  thenBy (fun a b => compareComposeOrder a.1 b.1) (fun a b => compareComposeOrder a.2 b.2) lhs rhs

/-- The order of the results of one sequence. -/
def compareBest (lhs rhs : ComposeCandidate) : Int :=
  thenBy (fun a b => compareComposeScores b.score a.score)
    (fun a b => compareComposeOrder a.resultSym b.resultSym) lhs rhs

theorem isComparison_seq : IsComparison compareSeq :=
  (isComparison_order.on Prod.fst).thenBy (isComparison_order.on Prod.snd)

theorem isComparison_best : IsComparison compareBest :=
  (isComparison_scores.flip.on ComposeCandidate.score).thenBy
    (isComparison_order.on ComposeCandidate.resultSym)

theorem compareSeq_eq_zero {a b : Keysym × Keysym} : compareSeq a b = 0 ↔ a = b := by
  rw [compareSeq, thenBy, Prod.ext_iff]
  split
  · rename_i h
    rw [ne_eq, compareComposeOrder_eq_zero] at h
    simp [h, compareComposeOrder_eq_zero]
  · rename_i h
    rw [ne_eq, not_not, compareComposeOrder_eq_zero] at h
    simp [h, compareComposeOrder_eq_zero]

/-- What makes a result at least as good as another one. -/
theorem compareBest_nonpos {a b : ComposeCandidate} :
    compareBest a b ≤ 0 ↔ b.score < a.score ∨ b.score = a.score ∧ a.resultSym ≤ b.resultSym := by
  rw [compareBest, thenBy_nonpos, compareComposeScores_neg, compareComposeScores_eq_zero,
    compareComposeOrder_nonpos]

theorem bySequence_eq (a b : ComposeCandidate) :
    compareComposeCandidatesBySequence a b =
      thenBy (fun a b => compareSeq a.seq b.seq) compareBest a b := by
  unfold compareComposeCandidatesBySequence compareSeq compareBest thenBy
  by_cases h : compareComposeOrder a.seq.1 b.seq.1 = 0
  · simp [h]
  · simp [h]

theorem isComparison_bySequence : IsComparison compareComposeCandidatesBySequence := by
  rw [funext₂ bySequence_eq]
  exact (isComparison_seq.on ComposeCandidate.seq).thenBy isComparison_best

/-- The order by sequence, then the best first. -/
theorem bySequence_nonpos {a b : ComposeCandidate} :
    compareComposeCandidatesBySequence a b ≤ 0 ↔
      compareSeq a.seq b.seq < 0 ∨ a.seq = b.seq ∧ compareBest a b ≤ 0 := by
  rw [bySequence_eq, thenBy_nonpos, compareSeq_eq_zero]

/-- The order in which the definitions are appended. -/
def Before (a b : ComposeCandidate) : Prop :=
  b.score < a.score ∨ a.score = b.score ∧
    (a.seq.1 < b.seq.1 ∨ a.seq.1 = b.seq.1 ∧
      (a.seq.2 < b.seq.2 ∨ a.seq.2 = b.seq.2 ∧ a.resultSym ≤ b.resultSym))

instance (a b : ComposeCandidate) : Decidable (Before a b) := inferInstanceAs (Decidable (_ ∨ _))

theorem candidates_eq (a b : ComposeCandidate) :
    compareComposeCandidates a b =
      thenBy (fun a b => compareComposeScores b.score a.score)
        (thenBy (fun a b => compareComposeOrder a.seq.1 b.seq.1)
          (thenBy (fun a b => compareComposeOrder a.seq.2 b.seq.2)
            fun a b => compareComposeOrder a.resultSym b.resultSym)) a b := rfl

theorem isComparison_candidates : IsComparison compareComposeCandidates := by
  rw [funext₂ candidates_eq]
  exact (isComparison_scores.flip.on ComposeCandidate.score).thenBy
    ((isComparison_order.on fun c => c.seq.1).thenBy
      ((isComparison_order.on fun c => c.seq.2).thenBy
        (isComparison_order.on ComposeCandidate.resultSym)))

theorem candidates_nonpos {a b : ComposeCandidate} : compareComposeCandidates a b ≤ 0 ↔ Before a b := by
  simp only [candidates_eq, thenBy_nonpos, compareComposeScores_neg, compareComposeScores_eq_zero,
    compareComposeOrder_neg, compareComposeOrder_eq_zero, compareComposeOrder_nonpos, Before]
  rw [eq_comm (a := a.score)]

/-- Ahead of each other are only candidates that agree in all that is compared. -/
theorem Before.antisymm {a b : ComposeCandidate} (hab : Before a b) (hba : Before b a) :
    a.seq = b.seq ∧ a.score = b.score ∧ a.resultSym = b.resultSym := by
  rw [Prod.ext_iff]
  unfold Before Keysym at *
  omega

end Comparisons

/-! ## The loop -/

section Loop

/-- What is kept of the candidates `l` that the loop has seen. -/
structure KeptOf (l kept : List ComposeCandidate) : Prop where
  sublist : kept.Sublist l
  distinct : (kept.map ComposeCandidate.seq).Nodup
  best : ∀ c ∈ l, ∃ k ∈ kept, k.seq = c.seq ∧ compareBest k c ≤ 0
  last : ∀ k ∈ kept.getLast?, ∀ c ∈ l, compareSeq c.seq k.seq ≤ 0

theorem KeptOf.nil : KeptOf [] [] := ⟨.slnil, .nil, by simp, by simp⟩

/-- A candidate whose sequence has been seen is dropped. -/
theorem KeptOf.skip {l kept : List ComposeCandidate} {k c : ComposeCandidate} (h : KeptOf l kept)
    (hk : k ∈ kept.getLast?) (hseq : k.seq = c.seq)
    (hsorted : ∀ a ∈ l, compareComposeCandidatesBySequence a c ≤ 0) : KeptOf (l ++ [c]) kept where
  sublist := h.sublist.trans (List.sublist_append_left l [c])
  distinct := h.distinct
  best d hd := by
    rw [List.mem_append, List.mem_singleton] at hd
    rcases hd with hd | rfl
    · exact h.best d hd
    · have hmem := List.mem_of_mem_getLast? hk
      refine ⟨k, hmem, hseq, ?_⟩
      rcases bySequence_nonpos.mp (hsorted k (h.sublist.subset hmem)) with hlt | ⟨-, hbest⟩
      · rw [compareSeq_eq_zero.mpr hseq] at hlt
        omega
      · exact hbest
  last k' hk' d hd := by
    obtain rfl : k' = k := Option.mem_unique hk' hk
    rw [List.mem_append, List.mem_singleton] at hd
    rcases hd with hd | rfl
    · exact h.last k' hk d hd
    · exact (compareSeq_eq_zero.mpr hseq.symm).le

/-- A candidate with a new sequence is kept. -/
theorem KeptOf.keep {l kept : List ComposeCandidate} {c : ComposeCandidate} (h : KeptOf l kept)
    (hk : ∀ k ∈ kept.getLast?, k.seq ≠ c.seq)
    (hsorted : ∀ a ∈ l, compareComposeCandidatesBySequence a c ≤ 0) :
    KeptOf (l ++ [c]) (kept ++ [c]) := by
  have hle : ∀ a ∈ l, compareSeq a.seq c.seq ≤ 0 := by
    intro a ha
    rcases bySequence_nonpos.mp (hsorted a ha) with hlt | ⟨heq, -⟩
    · exact hlt.le
    · exact (compareSeq_eq_zero.mpr heq).le
  -- a kept candidate with this sequence would stand between the last one and `c`
  have hnew : ∀ a ∈ kept, a.seq ≠ c.seq := by
    intro a ha heq
    obtain ⟨k, hlast⟩ : ∃ k, kept.getLast? = some k :=
      ⟨_, List.getLast?_eq_some_getLast (List.ne_nil_of_mem ha)⟩
    have hak := h.last k hlast a (h.sublist.subset ha)
    have hkc := hle k (h.sublist.subset (List.mem_of_mem_getLast? hlast))
    rw [heq] at hak
    exact hk k hlast (compareSeq_eq_zero.mp (isComparison_seq.eq_zero hkc hak))
  refine ⟨h.sublist.append (List.Sublist.refl [c]), ?_, ?_, ?_⟩
  · rw [List.map_append, List.nodup_append]
    refine ⟨h.distinct, by simp, ?_⟩
    intro s hs t ht
    obtain ⟨a, ha, rfl⟩ := List.mem_map.mp hs
    obtain rfl : t = c.seq := by simpa using ht
    exact hnew a ha
  · intro d hd
    rw [List.mem_append, List.mem_singleton] at hd
    rcases hd with hd | rfl
    · obtain ⟨k, hmem, hkd⟩ := h.best d hd
      exact ⟨k, List.mem_append_left _ hmem, hkd⟩
    · exact ⟨d, by simp, rfl, (isComparison_best.eq_zero_self d).le⟩
  · intro k hlast d hd
    obtain rfl : c = k := by simpa using hlast
    rw [List.mem_append, List.mem_singleton] at hd
    rcases hd with hd | rfl
    · exact hle d hd
    · exact (compareSeq_eq_zero.mpr rfl).le

/-- A round that finds the sequence at the end of what is kept. -/
theorem selectRound_skip {arr : List ComposeCandidate} {out i : Nat} {k c : ComposeCandidate}
    (hc : arr[i]? = some c) (hout : out > 0) (hk : arr[out - 1]? = some k) (hseq : k.seq = c.seq) :
    selectRound (arr, out) i = some (arr, out) := by
  have hsame : composeCandidatesSameSequence k c = true := by
    simp [composeCandidatesSameSequence, hseq]
  simp [selectRound, hc, hout, hk, hsame]

/-- A round that does not. -/
theorem selectRound_keep {arr : List ComposeCandidate} {out i : Nat} {c : ComposeCandidate}
    (hc : arr[i]? = some c) (hk : out > 0 → ∃ k, arr[out - 1]? = some k ∧ k.seq ≠ c.seq) :
    selectRound (arr, out) i = some (arr.set out c, out + 1) := by
  by_cases hout : out > 0
  · obtain ⟨k, hk, hseq⟩ := hk hout
    have hsame : composeCandidatesSameSequence k c = false := by
      rw [ne_eq, Prod.ext_iff, not_and] at hseq
      simpa [composeCandidatesSameSequence] using hseq
    simp [selectRound, hc, hout, hk, hsame]
  · simp [selectRound, hc, hout]

/-- A round of the loop: the array starts with what is kept, and the rest is untouched. -/
theorem selectRound_spec {l kept gap rest : List ComposeCandidate} {c : ComposeCandidate}
    (h : KeptOf l kept) (hlen : kept.length + gap.length = l.length)
    (hsorted : ∀ a ∈ l, compareComposeCandidatesBySequence a c ≤ 0) :
    ∃ kept' gap', KeptOf (l ++ [c]) kept' ∧ kept'.length + gap'.length = (l ++ [c]).length ∧
      selectRound (kept ++ gap ++ c :: rest, kept.length) l.length =
        some (kept' ++ gap' ++ rest, kept'.length) := by
  have hread : (kept ++ gap ++ c :: rest)[l.length]? = some c := by
    rw [List.getElem?_append_right (by simp [hlen]), List.length_append, hlen]
    simp
  have hlast (hout : kept.length > 0) : (kept ++ gap ++ c :: rest)[kept.length - 1]? =
      kept.getLast? := by
    rw [List.append_assoc, List.getElem?_append_left (by omega), List.getLast?_eq_getElem?]
  by_cases hdrop : ∃ k ∈ kept.getLast?, k.seq = c.seq
  · obtain ⟨k, hk, hseq⟩ := hdrop
    have hout : kept.length > 0 := List.length_pos_of_mem (List.mem_of_mem_getLast? hk)
    refine ⟨kept, gap ++ [c], h.skip hk hseq hsorted, by simp; omega, ?_⟩
    rw [selectRound_skip hread hout ((hlast hout).trans hk) hseq]
    simp
  · push Not at hdrop
    have hround := selectRound_keep hread fun hout => by
      obtain ⟨k, hk⟩ : ∃ k, kept.getLast? = some k :=
        ⟨_, List.getLast?_eq_some_getLast (List.ne_nil_of_length_pos hout)⟩
      exact ⟨k, (hlast hout).trans hk, hdrop k hk⟩
    rw [hround]
    cases gap with
    | nil =>
      refine ⟨kept ++ [c], [], h.keep hdrop hsorted, by simpa using hlen, ?_⟩
      rw [List.append_nil, List.set_append_right _ _ le_rfl]
      simp
    | cons g gap =>
      refine ⟨kept ++ [c], gap ++ [c], h.keep hdrop hsorted, by simp at hlen ⊢; omega, ?_⟩
      rw [List.append_assoc, List.set_append_right _ _ le_rfl]
      simp

/-- The rest of the loop. -/
theorem selectLoop_spec (rest : List ComposeCandidate) {l kept gap : List ComposeCandidate}
    (h : KeptOf l kept) (hlen : kept.length + gap.length = l.length)
    (hsorted : (l ++ rest).Pairwise fun a b => compareComposeCandidatesBySequence a b ≤ 0) :
    ∃ kept' gap', KeptOf (l ++ rest) kept' ∧ kept'.length + gap'.length = (l ++ rest).length ∧
      (List.range' l.length rest.length).foldlM selectRound (kept ++ gap ++ rest, kept.length) =
        some (kept' ++ gap', kept'.length) := by
  induction rest generalizing l kept gap with
  | nil => exact ⟨kept, gap, by simpa using h, by simpa using hlen, by simp⟩
  | cons c rest ih =>
    have hc : ∀ a ∈ l, compareComposeCandidatesBySequence a c ≤ 0 := fun a ha =>
      (List.pairwise_append.mp hsorted).2.2 a ha c List.mem_cons_self
    obtain ⟨kept₁, gap₁, h₁, hlen₁, hround⟩ : ∃ kept₁ gap₁, KeptOf (l ++ [c]) kept₁ ∧
        kept₁.length + gap₁.length = (l ++ [c]).length ∧
          selectRound (kept ++ gap ++ c :: rest, kept.length) l.length =
            some (kept₁ ++ gap₁ ++ rest, kept₁.length) :=
      selectRound_spec h hlen hc
    rw [List.append_cons] at hsorted
    obtain ⟨kept', gap', h', hlen', hloop⟩ := ih h₁ hlen₁ hsorted
    refine ⟨kept', gap', by rwa [List.append_cons], by rwa [List.append_cons], ?_⟩
    rw [List.length_cons, List.range'_succ, List.foldlM_cons, hround]
    rw [List.length_append, List.length_singleton] at hloop
    exact hloop

end Loop

/-! ## The result -/

section Result

variable {qsort : Qsort} {l : List ComposeCandidate}

/-- What a selection returns: the kept candidates stand first, in order. -/
structure Selected (l arr : List ComposeCandidate) (out : Nat) : Prop where
  length : arr.length = l.length
  out_le : out ≤ l.length
  sorted : (arr.take out).Pairwise Before
  subset : ∀ c ∈ arr.take out, c ∈ l
  distinct : ((arr.take out).map ComposeCandidate.seq).Nodup
  best : ∀ c ∈ l, ∃ k ∈ arr.take out, k.seq = c.seq ∧ compareBest k c ≤ 0

/-- Candidates of which only one is there are selected as they are. -/
theorem selected_self (h : l.length < 2) : Selected l l l.length where
  length := rfl
  out_le := le_rfl
  sorted := by
    rw [List.take_length]
    match l, h with
    | [], _ => exact .nil
    | [c], _ => exact List.pairwise_singleton _ c
  subset c hc := by rwa [List.take_length] at hc
  distinct := by
    rw [List.take_length]
    match l, h with
    | [], _ => exact .nil
    | [c], _ => exact List.nodup_singleton _
  best c hc := ⟨c, by rwa [List.take_length], rfl, (isComparison_best.eq_zero_self c).le⟩

/-- The loop between the two sorts stays inside the array. -/
theorem xkeymapSelectComposeCandidates_run (hq : IsQsort qsort) (l : List ComposeCandidate) :
    ∃ arr out, xkeymapSelectComposeCandidates qsort l = some (arr, out) ∧ Selected l arr out := by
  by_cases hcount : l.length < 2
  · exact ⟨l, l.length, by simp [xkeymapSelectComposeCandidates, hcount], selected_self hcount⟩
  · set s := qsort compareComposeCandidatesBySequence l with hs
    have hperm : s.Perm l := hq.perm _ l
    have hnil : ([] : List ComposeCandidate).length + ([] : List ComposeCandidate).length =
        ([] : List ComposeCandidate).length := rfl
    obtain ⟨kept, gap, hkept, hlen, hloop⟩ :=
      selectLoop_spec s KeptOf.nil hnil (hq.sorted _ isComparison_bySequence l)
    rw [List.nil_append] at hkept hlen
    rw [List.length_nil, List.append_nil, List.nil_append, ← List.range_eq_range',
      hperm.length_eq] at hloop
    have hsort := hq.perm compareComposeCandidates kept
    refine ⟨qsort compareComposeCandidates kept ++ gap, kept.length, ?_, ?_⟩
    · simp only [xkeymapSelectComposeCandidates, hcount, if_false, ← hs, hloop]
      simp
    · have htake : (qsort compareComposeCandidates kept ++ gap).take kept.length =
          qsort compareComposeCandidates kept := by
        rw [← hsort.length_eq, List.take_left]
      constructor
      case length =>
        rw [List.length_append, hsort.length_eq, hlen, hperm.length_eq]
      case out_le =>
        rw [← hperm.length_eq]
        omega
      case sorted =>
        rw [htake]
        exact (hq.sorted _ isComparison_candidates kept).imp candidates_nonpos.mp
      case subset =>
        intro c hc
        rw [htake, hsort.mem_iff] at hc
        exact hperm.mem_iff.mp (hkept.sublist.subset hc)
      case distinct =>
        rw [htake]
        exact (hsort.map _).nodup_iff.mpr hkept.distinct
      case best =>
        intro c hc
        obtain ⟨k, hk, hbest⟩ := hkept.best c (hperm.mem_iff.mpr hc)
        exact ⟨k, by rwa [htake, hsort.mem_iff], hbest⟩

/-- Candidates that are not told apart by sequence, score and result are the same. -/
def Told (l : List ComposeCandidate) : Prop :=
  ∀ a ∈ l, ∀ b ∈ l, a.seq = b.seq → a.score = b.score → a.resultSym = b.resultSym → a = b

namespace Selected

variable {arr arr' : List ComposeCandidate} {out out' : Nat}

/-- The kept candidate of a sequence is better than the others. -/
theorem best_of_mem (h : Selected l arr out) {k c : ComposeCandidate} (hk : k ∈ arr.take out)
    (hc : c ∈ l) (hseq : k.seq = c.seq) : compareBest k c ≤ 0 := by
  obtain ⟨k', hk', hseq', hbest⟩ := h.best c hc
  rwa [List.inj_on_of_nodup_map h.distinct hk hk' (hseq.trans hseq'.symm)]

/-- What is kept, by membership. -/
theorem mem_kept_iff (h : Selected l arr out) (htold : Told l) {c : ComposeCandidate} :
    c ∈ arr.take out ↔ c ∈ l ∧ ∀ d ∈ l, c.seq = d.seq → compareBest c d ≤ 0 := by
  constructor
  · intro hc
    exact ⟨h.subset c hc, fun d hd hseq => h.best_of_mem hc hd hseq⟩
  · rintro ⟨hc, hbest⟩
    obtain ⟨k, hk, hseq, hkc⟩ := h.best c hc
    have hck := compareBest_nonpos.mp (hbest k (h.subset k hk) hseq.symm)
    rw [compareBest_nonpos] at hkc
    have heq : c = k := htold c hc k (h.subset k hk) hseq.symm (by omega)
      (by unfold Keysym at *; omega)
    exact heq ▸ hk

/-- The order of the candidates makes no difference. -/
theorem unique (h : Selected l arr out) {l' : List ComposeCandidate} (h' : Selected l' arr' out')
    (htold : Told l) (hperm : l'.Perm l) : out' = out ∧ arr'.take out' = arr.take out := by
  have htold' : Told l' := fun a ha b hb =>
    htold a (hperm.mem_iff.mp ha) b (hperm.mem_iff.mp hb)
  have hmem : ∀ c, c ∈ arr'.take out' ↔ c ∈ arr.take out := by
    intro c
    simp only [h'.mem_kept_iff htold', h.mem_kept_iff htold, hperm.mem_iff]
  have htake : (arr'.take out').Perm (arr.take out) :=
    (List.perm_ext_iff_of_nodup (List.Nodup.of_map _ h'.distinct)
      (List.Nodup.of_map _ h.distinct)).mpr hmem
  have heq : arr'.take out' = arr.take out := by
    refine List.Perm.eq_of_pairwise ?_ h'.sorted h.sorted htake
    intro a b ha hb hab hba
    obtain ⟨hseq, hscore, hresult⟩ := hab.antisymm hba
    exact htold a (h.subset a ((hmem a).mp ha)) b (h.subset b hb) hseq hscore hresult
  refine ⟨?_, heq⟩
  have hlen := congrArg List.length heq
  rwa [List.length_take_of_le (h'.length ▸ h'.out_le), List.length_take_of_le (h.length ▸ h.out_le)]
    at hlen

end Selected

/-- The prefix that is kept does not depend on the order of the candidates; it has exactly one for
each sequence, the one with the highest score and, among those, the smallest result; and it is in
order of score, sequence and result. -/
theorem xkeymapSelectComposeCandidates_spec (hq : IsQsort qsort)
    (htold : ∀ a ∈ l, ∀ b ∈ l,
      a.seq = b.seq → a.score = b.score → a.resultSym = b.resultSym → a = b) :
    ∃ arr out, xkeymapSelectComposeCandidates qsort l = some (arr, out) ∧
      arr.length = l.length ∧ out ≤ l.length ∧
      (∀ l', l'.Perm l → ∃ arr', xkeymapSelectComposeCandidates qsort l' = some (arr', out) ∧
        arr'.take out = arr.take out) ∧
      ((arr.take out).map ComposeCandidate.seq).Nodup ∧
      (∀ seq, seq ∈ (arr.take out).map ComposeCandidate.seq ↔ seq ∈ l.map ComposeCandidate.seq) ∧
      (∀ c ∈ arr.take out, c ∈ l ∧ ∀ d ∈ l, d.seq = c.seq →
        d.score < c.score ∨ d.score = c.score ∧ c.resultSym ≤ d.resultSym) ∧
      (arr.take out).Pairwise Before := by
  obtain ⟨arr, out, hrun, h⟩ := xkeymapSelectComposeCandidates_run hq l
  refine ⟨arr, out, hrun, h.length, h.out_le, ?_, h.distinct, ?_, ?_, h.sorted⟩
  · intro l' hperm
    obtain ⟨arr', out', hrun', h'⟩ := xkeymapSelectComposeCandidates_run hq l'
    obtain ⟨rfl, htake⟩ := h.unique h' htold hperm
    exact ⟨arr', hrun', htake⟩
  · intro seq
    rw [List.mem_map, List.mem_map]
    constructor
    · rintro ⟨c, hc, rfl⟩
      exact ⟨c, h.subset c hc, rfl⟩
    · rintro ⟨c, hc, rfl⟩
      obtain ⟨k, hk, hseq, -⟩ := h.best c hc
      exact ⟨k, hk, hseq⟩
  · intro c hc
    exact ⟨h.subset c hc, fun d hd hseq => compareBest_nonpos.mp (h.best_of_mem hc hd hseq.symm)⟩

/-- The candidates of the test of the source that keeps the best of a sequence. -/
def dedupCandidates : List ComposeCandidate := [
  ⟨⟨1, 2, 3⟩, (10, 20), 30, false, 10⟩, ⟨⟨4, 5, 6⟩, (40, 50), 60, false, 15⟩,
  ⟨⟨7, 8, 9⟩, (10, 20), 31, false, 20⟩]

theorem xkeymapSelectComposeCandidates_dedup :
    ∃ arr out, xkeymapSelectComposeCandidates
        (fun cmp l => l.mergeSort fun a b => decide (cmp a b ≤ 0)) dedupCandidates =
          some (arr, out) ∧ (arr.take out).Pairwise Before := by
  obtain ⟨arr, out, hrun, -, -, -, -, -, -, hsorted⟩ :=
    xkeymapSelectComposeCandidates_spec (l := dedupCandidates) isQsort_mergeSort (by decide)
  exact ⟨arr, out, hrun, hsorted⟩

end Result

end Kbd.Xkb
