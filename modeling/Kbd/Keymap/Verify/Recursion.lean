import Kbd.Keymap.Verify.CodeRange

/-!
# The recursion of `ksymtocode`

`ksymtocode` calls itself on a name without its prefix and on the official name of a synonym. Which
calls it makes is in `calls`; a name without a prefix that is no synonym makes none, and official names
are such names. `ksymtocodeCalls` follows the source call by call and has no result when the calls go
deeper than a bound, so that it has one says that the recursion ends.
-/

namespace Kbd.Keymap

/-- `ksymtocode` with a bound on the depth of its calls; `none` when it is passed. -/
def ksymtocodeCalls (ctx : LkCtx) : Nat → List Char → Direction → Option Int
  | 0, _, _ => none
  | depth + 1, s, direction => do
    let dir := direction.resolve ctx
    if let some s' := dropLit "Meta_" s then
      let keycode ← ksymtocodeCalls ctx depth s' .to8bit
      if ktyp keycode = ktLatin then
        return K ktMeta (kval keycode)
      else if dir = .toUnicode then
        return 0
    if let some s' := dropLit "dead2_" s then
      let keycode ← ksymtocodeCalls ctx depth s' .to8bit
      if ktyp keycode = ktLatin then
        return K ktDead2 (kval keycode)
    if let some code := ktLatinSearch ctx s dir then
      return code
    if let some code := typeSearch s then
      return code
    if let some p := synonyms.find? fun p => strEq s p.1 then
      return ← ksymtocodeCalls ctx depth (bytes p.2) dir
    return otherCharsets ctx s dir

/-- The calls that `ksymtocode` makes at most. -/
def calls (ctx : LkCtx) (s : List Char) (d : Direction) : List (List Char × Direction) :=
  ((dropLit "Meta_" s).toList.map fun s' => (s', .to8bit)) ++
    ((dropLit "dead2_" s).toList.map fun s' => (s', .to8bit)) ++
    (synonyms.find? fun p => strEq s p.1).toList.map fun p => (bytes p.2, d.resolve ctx)

section

variable {ctx : LkCtx} {depth : Nat} {s : List Char} {d : Direction}

/-- When the calls that it makes have their results, so has `ksymtocode`. -/
theorem ksymtocodeCalls_succ {n : Nat} (h : ∀ c ∈ calls ctx s d,
      ksymtocodeCalls ctx depth c.1 c.2 = some (ksymtocodeRec ctx n c.1 c.2)) :
    ksymtocodeCalls ctx (depth + 1) s d = some (ksymtocodeRec ctx (n + 1) s d) := by
  have hmeta : ∀ s', dropLit "Meta_" s = some s' →
      ksymtocodeCalls ctx depth s' .to8bit = some (ksymtocodeRec ctx n s' .to8bit) :=
    fun s' hs' => h (s', .to8bit) (by simp [calls, hs'])
  have hdead : ∀ s', dropLit "dead2_" s = some s' →
      ksymtocodeCalls ctx depth s' .to8bit = some (ksymtocodeRec ctx n s' .to8bit) :=
    fun s' hs' => h (s', .to8bit) (by simp [calls, hs'])
  have hsyn : ∀ p, (synonyms.find? fun p => strEq s p.1) = some p →
      ksymtocodeCalls ctx depth (bytes p.2) (d.resolve ctx) =
        some (ksymtocodeRec ctx n (bytes p.2) (d.resolve ctx)) :=
    fun p hp => h (bytes p.2, d.resolve ctx) (by simp [calls, hp])
  rw [ksymtocodeCalls, ksymtocodeRec_succ, ownCode]
  generalize d.resolve ctx = dir at *
  -- what is left after the forms with a prefix
  have hrest : (do
      if let some code := ktLatinSearch ctx s dir then
        return code
      if let some code := typeSearch s then
        return code
      if let some p := synonyms.find? fun p => strEq s p.1 then
        return ← ksymtocodeCalls ctx depth (bytes p.2) dir
      return otherCharsets ctx s dir : Option Int) =
      some ((((ktLatinSearch ctx s dir).or (typeSearch s)).or
        ((synonyms.find? fun p => strEq s p.1).map fun p =>
          ksymtocodeRec ctx n (bytes p.2) dir)).getD (otherCharsets ctx s dir)) := by
    cases ktLatinSearch ctx s dir with
    | some code => rfl
    | none =>
      cases typeSearch s with
      | some code => rfl
      | none =>
        cases hf : synonyms.find? fun p => strEq s p.1 with
        | some p => exact hsyn p hf
        | none => rfl
  -- and after the first of them
  have hdeadForm : (do
      if let some s' := dropLit "dead2_" s then
        let keycode ← ksymtocodeCalls ctx depth s' .to8bit
        if ktyp keycode = ktLatin then
          return K ktDead2 (kval keycode)
      if let some code := ktLatinSearch ctx s dir then
        return code
      if let some code := typeSearch s then
        return code
      if let some p := synonyms.find? fun p => strEq s p.1 then
        return ← ksymtocodeCalls ctx depth (bytes p.2) dir
      return otherCharsets ctx s dir : Option Int) =
      some ((((((dropLit "dead2_" s).bind fun s' =>
          if ktyp (ksymtocodeRec ctx n s' .to8bit) = ktLatin then
            some (K ktDead2 (kval (ksymtocodeRec ctx n s' .to8bit)))
          else none).or (ktLatinSearch ctx s dir)).or (typeSearch s)).or
        ((synonyms.find? fun p => strEq s p.1).map fun p =>
          ksymtocodeRec ctx n (bytes p.2) dir)).getD (otherCharsets ctx s dir)) := by
    cases hd : dropLit "dead2_" s with
    | none => simpa only [Option.bind_none, Option.none_or] using hrest
    | some s' =>
      simp only [hdead s' hd, Option.bind_eq_bind, Option.bind_some]
      split
      · rfl
      · simpa only [Option.none_or] using hrest
  cases hm : dropLit "Meta_" s with
  | none => simpa only [Option.bind_none, Option.none_or] using hdeadForm
  | some s' =>
    simp only [hmeta s' hm, Option.bind_eq_bind, Option.bind_some]
    split
    · rfl
    · split
      · rfl
      · simp only [Option.none_or]
        exact hdeadForm

/-- The calls that are made go no deeper than `n`. -/
def Within (ctx : LkCtx) : Nat → List Char → Direction → Prop
  | 0, _, _ => False
  | n + 1, s, d => ∀ c ∈ calls ctx s d, Within ctx n c.1 c.2

/-- Then a bound that is higher makes no difference. -/
theorem ksymtocodeCalls_of_within {n : Nat} (h : Within ctx n s d) (more : Nat) :
    ksymtocodeCalls ctx (n + more) s d = some (ksymtocodeRec ctx n s d) := by
  induction n generalizing s d with
  | zero => exact h.elim
  | succ n ih =>
    rw [Nat.add_right_comm]
    exact ksymtocodeCalls_succ fun c hc => ih (h c hc)

/-! ## The depth -/

theorem length_of_dropLit {lit : String} {s' : List Char} (h : dropLit lit s = some s')
    (hlit : bytes lit ≠ []) : s'.length < s.length := by
  unfold dropLit at h
  split at h
  · rename_i hpre
    obtain ⟨rest, rfl⟩ := List.isPrefixOf_iff_prefix.mp hpre
    cases h
    have := List.length_pos_iff.mpr hlit
    simp
    omega
  · cases h

/-- No call is made for the official name of a synonym. -/
theorem calls_official {p : String × String} (hp : p ∈ synonyms) : calls ctx (bytes p.2) d = [] := by
  have hall : (synonyms.all fun p => (dropLit "Meta_" (bytes p.2)).isNone &&
      (dropLit "dead2_" (bytes p.2)).isNone && !synonymBits.testBit (textBit (bytes p.2)) &&
      !strEq (bytes p.2) "multiplication") = true := by
    decide +kernel
  have hchecked := List.all_eq_true.mp hall p hp
  simp only [Bool.and_eq_true, Option.isNone_iff_eq_none, Bool.not_eq_true'] at hchecked
  obtain ⟨⟨⟨hmeta, hdead⟩, hbit⟩, hmul⟩ := hchecked
  have hnone : (synonyms.find? fun q => strEq (bytes p.2) q.1) = none := by
    rw [List.find?_eq_none]
    intro q hq heq
    rw [synonym_of_testBit hbit hq heq, hmul] at heq
    cases heq
  simp [calls, hmeta, hdead, hnone]

theorem within_of_length (ctx : LkCtx) (n : Nat) (s : List Char) (d : Direction) (h : s.length < n) :
    Within ctx (n + 1) s d := by
  induction n generalizing s d with
  | zero => omega
  | succ n ih =>
    intro c hc
    simp only [calls, List.mem_append, List.mem_map, Option.mem_toList] at hc
    rcases hc with (⟨s', hs', rfl⟩ | ⟨s', hs', rfl⟩) | ⟨p, hp, rfl⟩
    · have := length_of_dropLit hs' (by decide)
      exact ih s' _ (by omega)
    · have := length_of_dropLit hs' (by decide)
      exact ih s' _ (by omega)
    · have hnone : calls ctx (bytes p.2) (d.resolve ctx) = [] :=
        calls_official (List.mem_of_find?_eq_some hp)
      intro c hc
      simp only [hnone, List.not_mem_nil] at hc

/-- The recursion of `ksymtocode` ends within the depth that it is given, and the result is the code
for an unknown symbol, a code of a type that there is, or a Unicode one of 16 bits. -/
theorem ksymtocode_total (ctx : LkCtx) (s : List Char) (d : Direction) :
    (∀ more, ksymtocodeCalls ctx (s.length + 2 + more) s d = some (ksymtocode ctx s d)) ∧
      (ksymtocode ctx s d = codeForUnknownKsym ∨
        0 ≤ ksymtocode ctx s d ∧ ksymtocode ctx s d < 0x1000 ∧ ktyp (ksymtocode ctx s d) < symsSize ∨
        0x1000 ≤ ksymtocode ctx s d ∧ ksymtocode ctx s d ≤ 0xffff) := by
  have hwithin := within_of_length ctx (s.length + 1) s d (Nat.lt_succ_self _)
  refine ⟨fun more => ksymtocodeCalls_of_within hwithin more, ?_⟩
  rcases ksymtocodeRec_range ctx (s.length + 2) s d with h | h | h
  · exact .inl h
  · exact .inr (.inl h)
  · exact .inr (.inr ⟨h.1, Int.lt_add_one_iff.mp h.2⟩)

end

end Kbd.Keymap
