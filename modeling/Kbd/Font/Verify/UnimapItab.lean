import Kbd.Font.Verify.UnimapSyntax

/-!
# The two readers of map lines

`psfaddtable` reads the lines of a Unicode table with code of its own. Where both readers know a line,
they take it for the same pairs: the lines must have no sequences, no blank before the dash of a range,
and no range of positions with one code point.
-/

namespace Kbd.Font.Unimap

open Kbd.Keymap (bytes digitVal cstr)
open Kbd.Lib

/-! ## The calls of `parse_itab_line` -/

/-- A call that adds to the glyph `fp`. -/
inductive ItabCall where
  | addpair (fp : Nat) (uc : Unicode)
  | addseq (fp : Nat) (uc : Unicode)
  deriving DecidableEq, Repr

def ItabCall.run (heads : List UnicodeList) : ItabCall → List UnicodeList
  | .addpair fp uc => heads.modify fp (Font.addpair · uc)
  | .addseq fp uc => heads.modify fp (Font.addseq · uc)

/-- The calls of `seqLoop`. -/
def seqCalls (fp0 : Nat) : Nat → List Char → List Char × List ItabCall
  | 0, p => (p, [])
  | rounds + 1, p =>
    match p with
    | ',' :: p' =>
      match Font.getunicode p' with
      | some (un1, p'') =>
        let (q, calls) := seqCalls fp0 rounds p''
        (q, .addseq fp0 un1 :: calls)
      | none => (p, [])
    | _ => (p, [])

/-- The calls of `uniLoop`. -/
def uniCalls (fp0 : Nat) : Nat → List Char → List ItabCall
  | 0, _ => []
  | rounds + 1, p =>
    match Font.getunicode p with
    | none => []
    | some (un0, p') =>
      let (p'', calls) := seqCalls fp0 p'.length p'
      .addpair fp0 un0 :: calls ++ uniCalls fp0 rounds p''

/-- The calls of `addRange`. -/
def addRangeCalls (fp0 fp1 : Int) (uc : Int → Unicode) : List ItabCall :=
  (List.range (fp1 - fp0 + 1).toNat).map fun k => .addpair (fp0.toNat + k) (uc (fp0 + k))

/-- The calls of `parseRange`. -/
def rangeCalls (p : List Char) (fp0 fp1 : Int) : Except XtableErr (List ItabCall) :=
  let p := p.dropWhile isBlank
  if (bytes "idem").isPrefixOf p then .ok (addRangeCalls fp0 fp1 fun i => i)
  else
    match Font.getunicode p with
    | none => .error .noUnicode
    | some (un0, p) =>
      match p.dropWhile isBlank with
      | '-' :: p =>
        match Font.getunicode p with
        | none => .error .noUnicode
        | some (un1, _) =>
          if un1 - un0 ≠ fp1 - fp0 then .error (.rangeMismatch un0 un1 fp0 fp1)
          else .ok (addRangeCalls fp0 fp1 fun i => un0 - fp0 + i)
      | _ => .error .noUnicodeRange

/-- The calls of `parse_itab_line`, in order. -/
def itabCalls (buf : List Char) (fontlen : Nat) : Except XtableErr (List ItabCall) :=
  if !(cstr buf).contains '\n' then .error .lineTooLong
  else
    let p := ((cstr buf).takeWhile (· ≠ '\n')).dropWhile isBlank
    if p = [] || p.head? = some '#' then .ok []
    else do
      let (fp0, p) ← strToUnicode p
      let (fp1, p) ← Font.rangeEnd p
      if fp0 ≥ fontlen then .error (.pastEnd fp0)
      else if fp1 ≠ 0 ∧ (fp1 < fp0 ∨ fp1 ≥ fontlen) then .error (.badRange fp1)
      else if fp1 ≠ 0 then rangeCalls p fp0 fp1
      else pure (uniCalls fp0.toNat p.length p)

theorem seqLoop_other {p : List Char} (h : ∀ p', p ≠ ',' :: p') (rounds : Nat) (up : UnicodeList) :
    seqLoop rounds p up = (p, up) := by
  cases rounds with
  | zero => rfl
  | succ rounds =>
    unfold seqLoop
    split
    · exact absurd rfl (h _)
    · rfl

theorem seqCalls_other {p : List Char} (h : ∀ p', p ≠ ',' :: p') (fp0 rounds : Nat) :
    seqCalls fp0 rounds p = (p, []) := by
  cases rounds with
  | zero => rfl
  | succ rounds =>
    unfold seqCalls
    split
    · exact absurd rfl (h _)
    · rfl

theorem seqLoop_comma (rounds : Nat) (p : List Char) (up : UnicodeList) :
    seqLoop (rounds + 1) (',' :: p) up =
      match Font.getunicode p with
      | some (un1, p') => seqLoop rounds p' (addseq up un1)
      | none => (',' :: p, up) := rfl

theorem seqCalls_comma (fp0 rounds : Nat) (p : List Char) :
    seqCalls fp0 (rounds + 1) (',' :: p) =
      match Font.getunicode p with
      | some (un1, p') =>
        ((seqCalls fp0 rounds p').1, .addseq fp0 un1 :: (seqCalls fp0 rounds p').2)
      | none => (',' :: p, []) := rfl

/-- Where the loop after a comma stops does not depend on the list, and what it does to the list are
its calls. -/
theorem seqLoop_eq (fp0 rounds : Nat) (p : List Char) :
    (∀ up, (seqLoop rounds p up).1 = (seqCalls fp0 rounds p).1) ∧
      ∀ heads, (seqCalls fp0 rounds p).2.foldl ItabCall.run heads =
        heads.modify fp0 fun up => (seqLoop rounds p up).2 := by
  induction rounds generalizing p with
  | zero => exact ⟨fun _ => rfl, fun heads => (List.modify_id fp0 heads).symm⟩
  | succ rounds ih =>
    by_cases hp : ∃ p', p = ',' :: p'
    · obtain ⟨p, rfl⟩ := hp
      simp only [seqLoop_comma, seqCalls_comma]
      rcases Font.getunicode p with _ | ⟨un1, p'⟩
      · exact ⟨fun _ => rfl, fun heads => (List.modify_id fp0 heads).symm⟩
      · obtain ⟨hfst, hcalls⟩ := ih p'
        refine ⟨fun up => hfst _, fun heads => ?_⟩
        dsimp only
        rw [List.foldl_cons, hcalls, ItabCall.run, List.modify_modify_eq]
        rfl
    · have hother : ∀ p', p ≠ ',' :: p' := fun p' h => hp ⟨p', h⟩
      simp only [seqLoop_other hother, seqCalls_other hother]
      exact ⟨fun _ => trivial, fun heads => (List.modify_id fp0 heads).symm⟩

theorem foldl_uniCalls (fp0 rounds : Nat) (p : List Char) (heads : List UnicodeList) :
    (uniCalls fp0 rounds p).foldl ItabCall.run heads =
      heads.modify fp0 fun up => (Font.uniLoop rounds p up).2 := by
  induction rounds generalizing p heads with
  | zero => exact (List.modify_id fp0 heads).symm
  | succ rounds ih =>
    simp only [Font.uniLoop]
    rw [uniCalls]
    rcases Font.getunicode p with _ | ⟨un0, p'⟩
    · exact (List.modify_id fp0 heads).symm
    · obtain ⟨hfst, hcalls⟩ := seqLoop_eq fp0 p'.length p'
      dsimp only
      rw [List.cons_append, List.foldl_cons, List.foldl_append, hcalls, ih, ItabCall.run,
        List.modify_modify_eq, List.modify_modify_eq]
      simp only [hfst]
      rfl

theorem foldl_addRangeCalls (fp0 fp1 : Int) (uc : Int → Unicode) (heads : List UnicodeList) :
    (addRangeCalls fp0 fp1 uc).foldl ItabCall.run heads = Font.addRange heads fp0 fp1 uc := by
  rw [addRangeCalls, List.foldl_map]
  rfl

theorem parseRange_eq_calls (p : List Char) (fp0 fp1 : Int) (heads : List UnicodeList) :
    Font.parseRange p fp0 fp1 heads =
      (rangeCalls p fp0 fp1).map (·.foldl ItabCall.run heads) := by
  simp only [Font.parseRange, rangeCalls, ← foldl_addRangeCalls]
  split
  · rfl
  rcases Font.getunicode (p.dropWhile isBlank) with _ | ⟨un0, p⟩
  · rfl
  dsimp only
  cases p.dropWhile isBlank with
  | nil => rfl
  | cons c q =>
    by_cases hc : c = '-'
    · subst hc
      rcases hget : Font.getunicode q with _ | ⟨un1, q'⟩
      · simp only [hget]
        rfl
      · simp only [hget]
        split <;> rfl
    · simp only [List.cons.injEq, hc, false_and, imp_self, implies_true]
      rfl

/-- `parse_itab_line` makes its calls one after the other, or fails before the first. -/
theorem parseItabLine_eq_calls (buf : List Char) (fontlen : Nat) (heads : List UnicodeList) :
    parseItabLine buf fontlen heads = (itabCalls buf fontlen).map (·.foldl ItabCall.run heads) := by
  simp only [parseItabLine, itabCalls, parseRange_eq_calls]
  split
  · rfl
  split
  · rfl
  rcases strToUnicode (((cstr buf).takeWhile (· ≠ '\n')).dropWhile isBlank) with e | ⟨fp0, p⟩
  · rfl
  change (Font.rangeEnd p >>= fun a => _) = (Font.rangeEnd p >>= fun a => _).map _
  rcases Font.rangeEnd p with e | ⟨fp1, p⟩
  · rfl
  change (if fp0 ≥ (fontlen : Int) then _ else _) = Except.map _ (if fp0 ≥ (fontlen : Int) then _ else _)
  split
  · rfl
  split
  · rfl
  split
  · rfl
  · exact congrArg Except.ok (foldl_uniCalls _ _ _ _).symm

/-! ## Where the readers agree -/

/-- The call for a pair. -/
def ItabCall.ofPair (p : Unipair) : ItabCall := .addpair p.fontpos p.unicode

/-- Both readers fail, or both add the same pairs. -/
def Agree (ps : Except UnimapErr (List Unipair)) (calls : Except XtableErr (List ItabCall)) : Prop :=
  match ps with
  | .error _ => ∃ e, calls = .error e
  | .ok ps => calls = .ok (ps.map ItabCall.ofPair)

theorem getunicode_some {p p' : List Char} {un : Nat} (h : getunicode p = some (un, p')) :
    un < 65536 ∧ ∃ word, p.dropWhile isBlank = word ++ p' ∧ word.length = 6 := by
  constructor
  · have hle := @getunicode_le p p' un (by rw [getunicode_eq, h]; rfl)
    omega
  · rw [getunicode] at h
    split at h
    · rename_i c2 c3 c4 c5 q heq
      split at h
      · cases h
      · cases h
        exact ⟨['U', '+', c2, c3, c4, c5], heq, rfl⟩
    · cases h

theorem getunicode_subset {p p' : List Char} {un : Nat} (h : getunicode p = some (un, p')) :
    p' ⊆ p := by
  obtain ⟨-, word, hword, -⟩ := getunicode_some h
  intro c hc
  refine List.dropWhile_subset isBlank ?_
  rw [hword]
  exact List.mem_append_right word hc

theorem font_getunicode_none {p : List Char} (h : getunicode p = none) : Font.getunicode p = none := by
  rw [getunicode_eq, h]
  rfl

theorem font_getunicode_some {p p' : List Char} {un : Nat} (h : getunicode p = some (un, p')) :
    Font.getunicode p = some ((un : Int), p') := by
  rw [getunicode_eq, h]
  rfl

/-- The code points of one position, where there is no comma. -/
theorem uniCalls_eq {fp0 : Nat} {p : List Char} (hcomma : ',' ∉ p) {m n : Nat}
    (hm : (p.dropWhile isBlank).length ≤ m) (hn : (p.dropWhile isBlank).length ≤ n) :
    uniCalls fp0 n p = (uniPairs fp0 m p).map ItabCall.ofPair := by
  induction n generalizing p m with
  | zero =>
    have hnil : p.dropWhile isBlank = [] := List.eq_nil_of_length_eq_zero (by omega)
    rw [uniPairs_eq_nil (getunicode_eq_none (by simp [hnil]))]
    rfl
  | succ n ih =>
    cases hget : getunicode p with
    | none => rw [uniPairs_eq_nil hget, uniCalls, font_getunicode_none hget, List.map_nil]
    | some r =>
      obtain ⟨un, p'⟩ := r
      obtain ⟨-, word, hword, hlen⟩ := getunicode_some hget
      have hcomma' : ',' ∉ p' := fun hmem => hcomma (getunicode_subset hget hmem)
      rw [hword, List.length_append] at hm hn
      obtain ⟨m, rfl⟩ : ∃ k, m = k + 1 := ⟨m - 1, by omega⟩
      have hdrop := List.length_dropWhile_le isBlank p'
      have hother : ∀ q, p' ≠ ',' :: q := by
        rintro q rfl
        exact hcomma' List.mem_cons_self
      rw [uniPairs, hget, uniCalls, font_getunicode_some hget]
      dsimp only
      rw [seqCalls_other hother, List.map_cons, ih hcomma' (m := m) (by omega) (by omega)]
      rfl

theorem addRangeCalls_eq {fp0 fp1 : Nat} {un : Nat → Nat} {uc : Int → Unicode}
    (huc : ∀ i, fp0 ≤ i → i ≤ fp1 → uc i = un i) :
    addRangeCalls fp0 fp1 uc = (rangePairs fp0 fp1 un).map ItabCall.ofPair := by
  rw [addRangeCalls, rangePairs, List.map_map, List.range'_eq_map_range, List.map_map,
    show ((fp1 : Int) - fp0 + 1).toNat = fp1 + 1 - fp0 by omega]
  refine List.map_congr_left fun k hk => ?_
  rw [List.mem_range] at hk
  have := huc (fp0 + k) (by omega) (by omega)
  rw [Int.natCast_add] at this
  simp only [Function.comp_apply, ItabCall.ofPair, Int.toNat_natCast, this]

/-- What comes after a range of positions, where it is not one code point. -/
theorem rangeCalls_agree {p : List Char} {fp0 fp1 : Nat} (hle : fp0 ≤ fp1) (hfp : fp1 < 512)
    (hone : ∀ un q, getunicode p = some (un, q) → (q.dropWhile isBlank).head? = some '-') :
    Agree (rangeLinePairs p fp0 fp1) (rangeCalls p fp0 fp1) := by
  rw [← getunicode_dropWhile] at hone
  simp only [rangeLinePairs, rangeCalls]
  split
  · exact congrArg Except.ok (addRangeCalls_eq fun i _ _ => rfl)
  cases hget : getunicode (p.dropWhile isBlank) with
  | none =>
    rw [font_getunicode_none hget]
    exact ⟨_, rfl⟩
  | some r =>
    obtain ⟨un0, q⟩ := r
    have hdash := hone un0 q hget
    obtain ⟨q', hq⟩ : ∃ q', q.dropWhile isBlank = '-' :: q' := by
      cases hq : q.dropWhile isBlank with
      | nil =>
        rw [hq] at hdash
        cases hdash
      | cons c q' =>
        rw [hq] at hdash
        cases hdash
        exact ⟨q', rfl⟩
    have hun0 := (getunicode_some hget).1
    rw [font_getunicode_some hget]
    simp only [hq]
    cases hget' : getunicode q' with
    | none =>
      rw [font_getunicode_none hget']
      exact ⟨_, rfl⟩
    | some r' =>
      obtain ⟨un1, q''⟩ := r'
      have hun1 := (getunicode_some hget').1
      rw [font_getunicode_some hget']
      dsimp only
      by_cases hlen : (un1 : Int) - un0 ≠ (fp1 : Int) - fp0
      · rw [if_pos hlen, if_pos hlen]
        exact ⟨_, rfl⟩
      · rw [if_neg hlen, if_neg hlen]
        have heq := not_not.mp hlen
        refine congrArg Except.ok (addRangeCalls_eq fun i hi hi' => ?_)
        rw [ushort_shift (by omega) (by omega) hi]
        exact (by omega : (un0 : Int) - fp0 + i = ((un0 + (i - fp0) : Nat) : Int))

/-- The numbers that both readers take for a position. -/
theorem strToUnicode_of_strToUshort {p q : List Char} {n : Nat} (h : strToUshort p = .ok (n, q)) :
    strToUnicode p = .ok ((n : Int), q) ∧ strtol0 p = some ((n : Int), q) := by
  rw [strToUshort] at h
  split at h
  · cases h
  · rename_i v e hv
    split at h
    · cases h
    · split at h
      · cases h
      · cases h
        have hn : ((v.toNat : Nat) : Int) = v := by omega
        rw [hn, strToUnicode, hv]
        simp only
        rw [if_neg (by omega), if_neg (by omega)]
        exact ⟨rfl, trivial⟩

/-- A number that only the other reader takes is no position of the font. -/
theorem strToUnicode_of_error {p : List Char} {err : UnimapErr} (h : strToUshort p = .error err) :
    (∃ e, strToUnicode p = .error e) ∨ ∃ v q, strToUnicode p = .ok (v, q) ∧ 65535 < v := by
  rw [strToUshort] at h
  rw [strToUnicode]
  rcases hv : strtol0 p with _ | ⟨v, e⟩
  · exact Or.inl ⟨_, rfl⟩
  · rw [hv] at h
    dsimp only at h ⊢
    split at h
    · rename_i hneg
      rw [if_pos hneg]
      exact Or.inl ⟨_, rfl⟩
    · rename_i hneg
      rw [if_neg hneg]
      split at h
      · rename_i hbig
        by_cases hint : v > 0x7fffffff
        · rw [if_pos hint]
          exact Or.inl ⟨_, rfl⟩
        · rw [if_neg hint]
          exact Or.inr ⟨v, e, rfl, hbig⟩
      · cases h

/-- The lines that both readers know. -/
structure CommonLine (s : List Char) : Prop where
  chars : ∀ c ∈ s, IsLineChar c
  comma : ',' ∉ s
  /-- no blank between the first number and a dash that follows it -/
  dash : ∀ v p, strtol0 (s.dropWhile isBlank) = some (v, p) →
    (p.dropWhile isBlank).head? = some '-' → p.head? = some '-'
  /-- a range of positions is not followed by a single code point -/
  one : ∀ v p w q, strtol0 (s.dropWhile isBlank) = some (v, '-' :: p) → strtol0 p = some (w, q) →
    ∀ un q', getunicode q = some (un, q') → (q'.dropWhile isBlank).head? = some '-'

/-- The part of `parse_itab_line` after the newline is found. -/
theorem itabCalls_line {s : List Char} (hs : ∀ c ∈ s, IsLineChar c) (fontlen : Nat) :
    itabCalls (s ++ ['\n']) fontlen =
      if s.dropWhile isBlank = [] ∨ (s.dropWhile isBlank).head? = some '#' then .ok []
      else strToUnicode (s.dropWhile isBlank) >>= fun (fp0, p) =>
        Font.rangeEnd p >>= fun (fp1, p) =>
          if fp0 ≥ fontlen then .error (.pastEnd fp0)
          else if fp1 ≠ 0 ∧ (fp1 < fp0 ∨ fp1 ≥ fontlen) then .error (.badRange fp1)
          else if fp1 ≠ 0 then rangeCalls p fp0 fp1
          else .ok (uniCalls fp0.toNat p.length p) := by
  have hcstr : cstr (s ++ ['\n']) = s ++ ['\n'] := by
    rw [cstr, List.takeWhile_append_of_pos fun c hc => by simpa using (hs c hc).2]
    rfl
  have hline : (s ++ ['\n']).takeWhile (· ≠ '\n') = s := by
    rw [List.takeWhile_append_of_pos fun c hc => by simpa using (hs c hc).1]
    simp
  simp only [itabCalls, hcstr, hline]
  rw [if_neg (by simp)]
  by_cases hblank : s.dropWhile isBlank = [] ∨ (s.dropWhile isBlank).head? = some '#'
  · rw [if_pos hblank, if_pos (by simpa using hblank)]
  · rw [if_neg hblank, if_neg (by simpa using hblank)]
    rfl

theorem strtol0_subset {p q : List Char} {v : Int} (h : strtol0 p = some (v, q)) : q ⊆ p := by
  have hsign : ∀ s, (strtolSign s).2 ⊆ s := by
    intro s
    unfold strtolSign
    split
    · exact List.subset_cons_self _ _
    · exact List.subset_cons_self _ _
    · exact List.Subset.refl _
  have hbase : ∀ s, (strtolBase s).2 ⊆ s := by
    intro s
    unfold strtolBase
    split
    · split
      · exact List.Subset.trans (List.subset_cons_self _ _) (List.subset_cons_self _ _)
      · exact List.Subset.refl _
    · exact List.Subset.refl _
    · exact List.Subset.refl _
  simp only [strtol0] at h
  split at h
  · cases h
  · cases h
    exact List.Subset.trans (List.drop_subset _ _)
      (List.Subset.trans (hbase _) (List.Subset.trans (hsign _) (List.dropWhile_subset _)))

theorem rangeEnd_other {p : List Char} (h : (p.dropWhile isBlank).head? ≠ some '-') :
    rangeEnd p = .ok (0, p.dropWhile isBlank) ∧ Font.rangeEnd p = .ok (0, p) := by
  constructor
  · rw [rangeEnd]
    split
    · rename_i heq
      rw [heq] at h
      exact absurd rfl h
    · rfl
  · unfold Font.rangeEnd
    split
    · exact absurd rfl h
    · rfl

/-- The tests of the positions and what comes after them. -/
theorem agree_of_positions {fp0 fp1 : Nat} {p q : List Char} (hq : ',' ∉ q)
    (hp : p.dropWhile isBlank = q.dropWhile isBlank)
    (hone : ∀ un q', getunicode q = some (un, q') → fp1 ≠ 0 → (q'.dropWhile isBlank).head? = some '-') :
    Agree
      (if fp0 ≥ 512 then .error (.glyphNumber fp0)
      else if fp1 ≠ 0 ∧ (fp1 < fp0 ∨ fp1 ≥ 512) then .error (.badRange fp1)
      else if fp1 ≠ 0 then rangeLinePairs p fp0 fp1
      else .ok (uniPairs fp0 p.length p))
      (if (fp0 : Int) ≥ (512 : Nat) then .error (.pastEnd fp0)
      else if (fp1 : Int) ≠ 0 ∧ ((fp1 : Int) < fp0 ∨ (fp1 : Int) ≥ (512 : Nat)) then
        .error (.badRange fp1)
      else if (fp1 : Int) ≠ 0 then rangeCalls q fp0 fp1
      else .ok (uniCalls (fp0 : Int).toNat q.length q)) := by
  by_cases hglyph : fp0 ≥ 512
  · have hglyph' : (fp0 : Int) ≥ (512 : Nat) := by omega
    rw [if_pos hglyph, if_pos hglyph']
    exact ⟨_, rfl⟩
  have hglyph' : ¬ (fp0 : Int) ≥ (512 : Nat) := by omega
  rw [if_neg hglyph, if_neg hglyph']
  by_cases hbad : fp1 ≠ 0 ∧ (fp1 < fp0 ∨ fp1 ≥ 512)
  · have hbad' : (fp1 : Int) ≠ 0 ∧ ((fp1 : Int) < fp0 ∨ (fp1 : Int) ≥ (512 : Nat)) := by omega
    rw [if_pos hbad, if_pos hbad']
    exact ⟨_, rfl⟩
  have hbad' : ¬ ((fp1 : Int) ≠ 0 ∧ ((fp1 : Int) < fp0 ∨ (fp1 : Int) ≥ (512 : Nat))) := by omega
  rw [if_neg hbad, if_neg hbad']
  by_cases hend : fp1 ≠ 0
  · have hend' : (fp1 : Int) ≠ 0 := by omega
    have hrange : rangeLinePairs p fp0 fp1 = rangeLinePairs q fp0 fp1 := by
      rw [rangeLinePairs, hp, rangeLinePairs]
    rw [if_pos hend, if_pos hend', hrange]
    exact rangeCalls_agree (by omega) (by omega) fun un q' hget => hone un q' hget hend
  · have hend' : ¬ (fp1 : Int) ≠ 0 := by omega
    have huni : uniPairs fp0 p.length p = uniPairs fp0 p.length q := by
      rw [← uniPairs_dropWhile, hp, uniPairs_dropWhile]
    rw [if_neg hend, if_neg hend', huni]
    refine congrArg Except.ok (uniCalls_eq hq ?_ (List.length_dropWhile_le _ _))
    rw [← hp]
    exact List.length_dropWhile_le _ _

/-- Both readers take a line of the common syntax for the same calls. -/
theorem agree_of_common {s : List Char} (h : CommonLine s) :
    Agree (linePairs s) (itabCalls (s ++ ['\n']) 512) := by
  have hdash := h.dash
  have hone := h.one
  have hcomma : ',' ∉ s.dropWhile isBlank := fun hmem => h.comma (List.dropWhile_subset _ hmem)
  rw [itabCalls_line h.chars, linePairs]
  generalize s.dropWhile isBlank = p at hdash hone hcomma
  dsimp only
  by_cases hblank : p = [] ∨ p.head? = some '#'
  · rw [if_pos hblank, if_pos (by simpa using hblank)]
    rfl
  rw [if_neg hblank, if_neg (by simpa using hblank)]
  -- a number that is too big for one reader is no position for the other
  have hbig : ∀ {v : Int}, 65535 < v → v ≥ (512 : Nat) := by
    intro v hv
    omega
  cases hfp0 : strToUshort p with
  | error err =>
    rcases strToUnicode_of_error hfp0 with ⟨e, he⟩ | ⟨v, q, hv, hlarge⟩
    · rw [he]
      exact ⟨e, rfl⟩
    · rw [hv]
      change Agree (.error err) (Font.rangeEnd q >>= fun a => _)
      cases Font.rangeEnd q with
      | error e => exact ⟨e, rfl⟩
      | ok r => exact ⟨_, if_pos (hbig hlarge)⟩
  | ok r =>
    obtain ⟨fp0, q⟩ := r
    obtain ⟨hnum, hstrtol⟩ := strToUnicode_of_strToUshort hfp0
    have hq : ',' ∉ q := fun hmem => hcomma (strtol0_subset hstrtol hmem)
    rw [hnum]
    change Agree (rangeEnd q >>= fun a => _) (Font.rangeEnd q >>= fun a => _)
    by_cases hrange : (q.dropWhile isBlank).head? = some '-'
    · obtain ⟨q', rfl⟩ : ∃ q', q = '-' :: q' := by
        have hhead := hdash _ _ hstrtol hrange
        cases q with
        | nil => cases hhead
        | cons c q' =>
          cases hhead
          exact ⟨q', rfl⟩
      change Agree (strToUshort q' >>= fun a => _) (strToUnicode q' >>= fun a => _)
      cases hfp1 : strToUshort q' with
      | error err =>
        rcases strToUnicode_of_error hfp1 with ⟨e, he⟩ | ⟨v, q'', hv, hlarge⟩
        · rw [he]
          exact ⟨e, rfl⟩
        · have hv0 : v ≠ 0 := by
            rintro rfl
            exact absurd hlarge (by decide)
          rw [hv]
          change Agree (.error err) (if (fp0 : Int) ≥ (512 : Nat) then _
            else if v ≠ 0 ∧ (v < fp0 ∨ v ≥ (512 : Nat)) then _ else _)
          split
          · exact ⟨_, rfl⟩
          · exact ⟨_, if_pos ⟨hv0, Or.inr (hbig hlarge)⟩⟩
      | ok r =>
        obtain ⟨fp1, q''⟩ := r
        obtain ⟨hnum', hstrtol'⟩ := strToUnicode_of_strToUshort hfp1
        have hq'' : ',' ∉ q'' := fun hmem =>
          hq (List.mem_cons_of_mem _ (strtol0_subset hstrtol' hmem))
        rw [hnum']
        exact agree_of_positions hq'' rfl fun un r hget _ => hone _ _ _ _ hstrtol hstrtol' un r hget
    · obtain ⟨h1, h2⟩ := rangeEnd_other hrange
      rw [h1, h2]
      exact agree_of_positions hq (List.dropWhile_idempotent _ _) fun _ _ _ h0 => absurd rfl h0

/-- On a line of the common syntax the two readers do the same. -/
theorem parseline_parseItabLine {s : List Char} (h : CommonLine s) :
    (∃ e e', (∀ l, (parseline s).run l = .error e l) ∧
      ∀ heads, parseItabLine (s ++ ['\n']) 512 heads = .error e') ∨
    ∃ ps, parseline s = addUnipairs ps ∧
      (∀ l, l.Valid → ∃ l', (parseline s).run l = .ok () l') ∧
      itabCalls (s ++ ['\n']) 512 = .ok (ps.map ItabCall.ofPair) ∧
      ∀ heads, parseItabLine (s ++ ['\n']) 512 heads =
        .ok ((ps.map ItabCall.ofPair).foldl ItabCall.run heads) := by
  have hagree := agree_of_common h
  cases hps : linePairs s with
  | error e =>
    rw [hps] at hagree
    obtain ⟨e', he'⟩ := hagree
    refine Or.inl ⟨e, e', fun l => ?_, fun heads => ?_⟩
    · rw [parseline_eq, hps]
      rfl
    · rw [parseItabLine_eq_calls, he']
      rfl
  | ok ps =>
    rw [hps] at hagree
    have hcalls : itabCalls (s ++ ['\n']) 512 = .ok (ps.map ItabCall.ofPair) := hagree
    have hline : parseline s = addUnipairs ps := by
      rw [parseline_eq, hps]
      rfl
    refine Or.inr ⟨ps, hline, fun l hl => ?_, hcalls, fun heads => ?_⟩
    · obtain ⟨l', hl', -⟩ := addUnipairs_spec hl ps
      exact ⟨l', by rw [hline, hl']⟩
    · rw [parseItabLine_eq_calls, hcalls]
      rfl

/-- `0-1 U+0041-U+0042`. -/
def commonText : List Char := bytes "0-1 U+0041-U+0042"

theorem parseline_parseItabLine_range :
    (∃ e e', (∀ l, (parseline commonText).run l = .error e l) ∧
      ∀ heads, parseItabLine (commonText ++ ['\n']) 512 heads = .error e') ∨
    ∃ ps, parseline commonText = addUnipairs ps ∧
      (∀ l, l.Valid → ∃ l', (parseline commonText).run l = .ok () l') ∧
      itabCalls (commonText ++ ['\n']) 512 = .ok (ps.map ItabCall.ofPair) ∧
      ∀ heads, parseItabLine (commonText ++ ['\n']) 512 heads =
        .ok ((ps.map ItabCall.ofPair).foldl ItabCall.run heads) := by
  refine parseline_parseItabLine ⟨isLineChar_of_all (by decide), by decide, ?_, ?_⟩
  · intro v p hv hdash
    have : strtol0 (commonText.dropWhile isBlank) = some (0, bytes "-1 U+0041-U+0042") := by decide
    cases this.symm.trans hv
    rfl
  · intro v p w q hv hw un q' hget
    have h0 : strtol0 (commonText.dropWhile isBlank) = some (0, bytes "-1 U+0041-U+0042") := by decide
    have h1 : strtol0 (bytes "1 U+0041-U+0042") = some (1, bytes " U+0041-U+0042") := by decide
    have h2 : getunicode (bytes " U+0041-U+0042") = some (0x41, bytes "-U+0042") := by decide
    cases h0.symm.trans hv
    cases h1.symm.trans hw
    cases h2.symm.trans hget
    rfl

end Kbd.Font.Unimap
