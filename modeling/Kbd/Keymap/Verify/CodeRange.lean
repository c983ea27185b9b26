import Kbd.Keymap.Verify.Names

/-!
# The range of codes

What the symbol tables give fits into 16 bits, so a value of a keymap is below `INT_MAX` when its
number is: a conversion that finds no symbol leaves the code as it is. Where the conversion goes on
to calculate with the code of a symbol, that symbol is known: it is the name of a character.
-/

namespace Kbd.Keymap

/-! ## `U` -/

theorem U_nonneg {x : Int} (h : 0 ≤ x) : 0 ≤ U x := by
  have := U_eq h
  omega

theorem U_lt {x : Int} (h : 0 ≤ x) (hx : x < 0x10000) : U x < 0x10000 := by
  have := U_eq h
  omega

/-! ## Searches -/

section Option

variable {α : Type} {P : α → Prop}

theorem forall_mem_or {a b : Option α} (ha : ∀ v ∈ a, P v) (hb : ∀ v ∈ b, P v) :
    ∀ v ∈ a.or b, P v := by
  cases a with
  | none => exact hb
  | some w => exact ha

theorem forall_mem_map {β : Type} {f : β → α} {a : Option β} (h : ∀ w ∈ a, P (f w)) :
    ∀ v ∈ a.map f, P v := by
  cases a with
  | none => exact fun _ hv => nomatch hv
  | some w =>
    intro v hv
    obtain rfl := Option.some.inj hv
    exact h w rfl

theorem forall_getD {a : Option α} {d : α} (ha : ∀ v ∈ a, P v) (hd : a = none → P d) :
    P (a.getD d) := by
  cases a with
  | none => exact hd rfl
  | some w => exact ha w rfl

end Option

/-! ## The tables -/

/-- The values of a character set, in both notations, have 16 bits. -/
structure Cs.Small (cs : Cs) : Prop where
  values : cs.start + cs.charnames.length ≤ 0x10000
  unis : ∀ p ∈ cs.charnames, 0 < p.uni ∧ p.uni < 0x10000 ∨ p.name = ""

/-- The values of a character set are codes of a type that exists, and the Unicode values are not those
that `U` takes to such a code. -/
structure Cs.Checked (cs : Cs) : Prop extends cs.Small where
  traditional : cs.start + cs.charnames.length ≤ 0xf00
  unicode : ∀ p ∈ cs.charnames, p.uni < 0xf000 ∨ p.name = ""

theorem checked_of_mem {cs : Cs} (hcs : cs ∈ charsets) : cs.Checked := by
  have hall : (charsets.all fun cs => decide (cs.start + cs.charnames.length ≤ 0xf00) &&
      cs.charnames.all fun p =>
        decide (0 < p.uni) && decide (p.uni < 0xf000) || decide (p.name = "")) = true := by
    decide +kernel
  have h := List.all_eq_true.mp hall cs hcs
  simp only [Bool.and_eq_true, decide_eq_true_eq, List.all_eq_true, Bool.or_eq_true] at h
  refine { values := by omega, unis := fun p hp => ?_, traditional := h.1, unicode := fun p hp => ?_ }
  · exact (h.2 p hp).imp (fun hu => ⟨hu.1, by omega⟩) id
  · exact (h.2 p hp).imp (fun hu => hu.2) id

theorem checked_default : (default : Cs).Checked where
  values := by decide
  unis p hp := nomatch hp
  traditional := by decide
  unicode p hp := nomatch hp

theorem checked_getD (n : Nat) : (charsets.getD n default).Checked := by
  by_cases hn : n < charsets.length
  · rw [List.getD_eq_getElem _ _ hn]
    exact checked_of_mem (List.getElem_mem hn)
  · rw [List.getD_eq_default _ _ (Nat.not_lt.mp hn)]
    exact checked_default

/-- A code that a table gives. -/
def IsSymCode (code : Int) : Prop := 0 ≤ code ∧ code < 0x10000

/-- A code of a type that has a table, or a Unicode one. -/
def IsTableCode (code : Int) : Prop :=
  0 ≤ code ∧ code < 0x1000 ∧ ktyp code < symsSize ∨ 0x1000 ≤ code ∧ code < 0x10000

theorem IsTableCode.isSymCode {code : Int} (h : IsTableCode code) : IsSymCode code := by
  rcases h with h | h
  · exact ⟨h.1, by omega⟩
  · exact ⟨by omega, h.2⟩

theorem symsSize_eq : symsSize = 15 := rfl

/-- A code of type 0 whose value does not fit into a byte has another type. -/
theorem isTableCode_latin {v : Nat} (h : v < 0xf00) : IsTableCode (K ktLatin v) := by
  left
  simp only [K, ktLatin, ktyp, symsSize_eq]
  omega

theorem isTableCode_K {t v : Int} (ht : 0 ≤ t ∧ t < 15) (hv : 0 ≤ v ∧ v < 0x100) :
    IsTableCode (K t v) := by
  left
  rw [ktyp_K hv.1 hv.2, symsSize_eq]
  simp only [K]
  omega

theorem isTableCode_U {u : Nat} (h0 : 0 < u) (h : u < 0xf000) : IsTableCode (U u) := by
  right
  have := U_eq (Int.natCast_nonneg u)
  omega

theorem Cs.Checked.indexOf {cs : Cs} (h : cs.Checked) {s : List Char} {i : Nat}
    (hi : cs.indexOf s = some i) : IsTableCode (K ktLatin (cs.start + i : Nat)) := by
  have hlt := (List.findIdx?_eq_some_iff_getElem.mp hi).1
  have := h.traditional
  exact isTableCode_latin (by omega)

theorem Cs.Checked.getCharsetUni {cs : Cs} (h : cs.Checked) (s : List Char) :
    Keymap.getCharsetUni cs s < 0xf000 := by
  unfold Keymap.getCharsetUni
  cases hf : cs.charnames.find? fun p => p.name ≠ "" && strEq s p.name with
  | none => decide
  | some p =>
    have hp := List.find?_some hf
    simp only [Bool.and_eq_true, decide_eq_true_eq] at hp
    exact (h.unicode p (List.mem_of_find?_eq_some hf)).resolve_right hp.1

theorem currentCharset_checked (ctx : LkCtx) : (currentCharset ctx).Checked :=
  checked_getD ctx.charset

/-! ## `ksymtocode` -/

theorem ktLatinSearch_range {ctx : LkCtx} {s : List Char} {d : Direction} :
    ∀ v ∈ ktLatinSearch ctx s d, IsTableCode v := by
  intro code hcode
  obtain ⟨w, hw, rfl⟩ := Option.map_eq_some_iff.mp hcode
  obtain ⟨v, hv, hw⟩ := Option.bind_eq_some_iff.mp hw
  obtain rfl := Option.some.inj hw
  refine forall_mem_or (P := fun v : Nat => IsTableCode (K ktLatin v)) ?_ ?_ v hv
  · intro v hv
    split at hv
    · cases hv
    · obtain ⟨i, hi, rfl⟩ := Option.map_eq_some_iff.mp hv
      exact (currentCharset_checked ctx).indexOf hi
  · intro v hv
    have hlt := (List.findIdx?_eq_some_iff_getElem.mp hv).1
    have hlen : iso646Syms.length = 256 := by decide +kernel
    rw [List.length_take, hlen] at hlt
    exact isTableCode_latin (by omega)

theorem typeSearch_range {s : List Char} : ∀ v ∈ typeSearch s, IsTableCode v := by
  intro v hv
  obtain ⟨i, hi, hv⟩ := List.exists_of_findSome?_eq_some hv
  obtain ⟨w, hw, rfl⟩ := Option.map_eq_some_iff.mp hv
  obtain ⟨j, hj, hw⟩ := Option.bind_eq_some_iff.mp hw
  obtain rfl := Option.some.inj hw
  have hlt := (List.findIdx?_eq_some_iff_getElem.mp hj).1
  have hlen : (symsByType.all fun table => decide (table.length ≤ 256)) = true := by decide +kernel
  have hi15 : i < symsByType.length := by
    have := List.mem_range'_1.mp hi
    have : 0 < symsByType.length := by decide
    omega
  have htable : (symsByType.getD i []).length ≤ 256 := by
    rw [List.getD_eq_getElem _ _ hi15]
    exact of_decide_eq_true (List.all_eq_true.mp hlen _ (List.getElem_mem hi15))
  have h15 : symsByType.length = 15 := rfl
  apply isTableCode_K <;> omega

theorem unicodeSearch_range {ctx : LkCtx} {s : List Char} :
    ∀ v ∈ unicodeSearch ctx s, IsTableCode v := by
  intro v hv
  obtain ⟨cs, hcs, hv⟩ := List.exists_of_findSome?_eq_some hv
  have hchecked : cs.Checked := by
    rcases List.mem_cons.mp hcs with rfl | hcs
    · exact currentCharset_checked ctx
    · exact checked_of_mem (List.mem_of_mem_eraseIdx hcs)
  have huni := hchecked.getCharsetUni s
  simp only at hv
  split at hv
  · obtain rfl := Option.some.inj hv
    exact isTableCode_U (by omega) huni
  · cases hv

theorem tryCharsetSearch_range {s : List Char} : ∀ v ∈ tryCharsetSearch s, IsTableCode v := by
  intro v hv
  obtain ⟨n, -, hv⟩ := List.exists_of_findSome?_eq_some hv
  obtain ⟨i, hi, rfl⟩ := Option.map_eq_some_iff.mp hv
  exact (checked_getD n).indexOf hi

/-- A code of a symbol, or the code for an unknown one. -/
def IsKsym (code : Int) : Prop := code = codeForUnknownKsym ∨ IsSymCode code

theorem IsKsym.bounds {code : Int} (h : IsKsym code) : -1 ≤ code ∧ code < 0x10000 := by
  rcases h with rfl | ⟨h0, h1⟩
  · decide
  · omega

/-- What `ksymtocode` returns. -/
def IsResult (code : Int) : Prop := code = codeForUnknownKsym ∨ IsTableCode code

theorem otherCharsets_range (ctx : LkCtx) (s : List Char) (d : Direction) :
    IsResult (otherCharsets ctx s d) := by
  unfold otherCharsets
  apply forall_getD
  · intro v hv
    split at hv
    · exact .inr (unicodeSearch_range v hv)
    · exact .inr (tryCharsetSearch_range v hv)
  · exact fun _ => .inl rfl

/-- The forms with a prefix, and the searches before the synonyms. -/
def ownCode (ctx : LkCtx) (depth : Nat) (s : List Char) (dir : Direction) : Option Int :=
  let metaForm := (dropLit "Meta_" s).bind fun s' =>
    let keycode := ksymtocodeRec ctx depth s' .to8bit
    if ktyp keycode = ktLatin then some (K ktMeta (kval keycode))
    else if dir = .toUnicode then some 0
    else none
  let dead2Form := (dropLit "dead2_" s).bind fun s' =>
    let keycode := ksymtocodeRec ctx depth s' .to8bit
    if ktyp keycode = ktLatin then some (K ktDead2 (kval keycode)) else none
  ((metaForm.or dead2Form).or (ktLatinSearch ctx s dir)).or (typeSearch s)

theorem ksymtocodeRec_succ (ctx : LkCtx) (depth : Nat) (s : List Char) (d : Direction) :
    ksymtocodeRec ctx (depth + 1) s d =
      ((ownCode ctx depth s (d.resolve ctx)).or
        ((synonyms.find? fun p => strEq s p.1).map fun p =>
          ksymtocodeRec ctx depth (bytes p.2) (d.resolve ctx))).getD
        (otherCharsets ctx s (d.resolve ctx)) := rfl

theorem ownCode_range {ctx : LkCtx} {depth : Nat} {s : List Char} {dir : Direction} :
    ∀ v ∈ ownCode ctx depth s dir, IsTableCode v := by
  have hkval (keycode : Int) : 0 ≤ kval keycode ∧ kval keycode < 0x100 :=
    ⟨kval_nonneg keycode, kval_lt keycode⟩
  apply forall_mem_or (forall_mem_or (forall_mem_or ?_ ?_) ktLatinSearch_range) typeSearch_range
  · intro v hv
    obtain ⟨s', -, hv⟩ := Option.bind_eq_some_iff.mp hv
    simp only at hv
    split at hv
    · obtain rfl := Option.some.inj hv
      exact isTableCode_K (by decide) (hkval _)
    · split at hv
      · obtain rfl := Option.some.inj hv
        exact .inl ⟨le_rfl, by decide, by decide⟩
      · cases hv
  · intro v hv
    obtain ⟨s', -, hv⟩ := Option.bind_eq_some_iff.mp hv
    simp only at hv
    split at hv
    · obtain rfl := Option.some.inj hv
      exact isTableCode_K (by decide) (hkval _)
    · cases hv

/-- `ksymtocode` gives a code of 16 bits, or says that there is none. -/
theorem ksymtocodeRec_range (ctx : LkCtx) (depth : Nat) (s : List Char) (d : Direction) :
    IsResult (ksymtocodeRec ctx depth s d) := by
  induction depth generalizing s d with
  | zero => exact .inl rfl
  | succ depth ih =>
    rw [ksymtocodeRec_succ]
    apply forall_getD
    · apply forall_mem_or
      · exact fun v hv => .inr (ownCode_range v hv)
      · exact forall_mem_map fun p _ => ih _ _
    · exact fun _ => otherCharsets_range ctx s _

theorem ksymtocode_range (ctx : LkCtx) (s : List Char) (d : Direction) :
    IsKsym (ksymtocode ctx s d) :=
  (ksymtocodeRec_range ctx _ s d).imp_right IsTableCode.isSymCode

/-! ## Names of characters -/

/-- A name that some character set has. -/
def IsCharname (s : List Char) : Prop := ∃ cs ∈ charsets, 0 < getCharsetUni cs s

/-- The name of a character is found in Unicode, unless it is found before. -/
theorem unicodeSearch_isSome {s : List Char} (h : IsCharname s) (ctx : LkCtx) :
    (unicodeSearch ctx s).isSome = true := by
  obtain ⟨cs, hcs, huni⟩ := h
  have hmem : cs ∈ currentCharset ctx :: charsets.eraseIdx ctx.charset := by
    obtain ⟨i, hi, rfl⟩ := List.mem_iff_getElem.mp hcs
    by_cases heq : i = ctx.charset
    · subst heq
      rw [currentCharset, List.getD_eq_getElem _ _ hi]
      exact List.mem_cons_self
    · exact List.mem_cons_of_mem _ (List.mem_eraseIdx_iff_getElem.mpr ⟨i, hi, heq, rfl⟩)
  rw [unicodeSearch, List.findSome?_isSome_iff]
  exact ⟨cs, hmem, by simp [huni]⟩

theorem isCharname_of_mem {cs : Cs} (hcs : cs ∈ charsets) {p : Sym} (hp : p ∈ cs.charnames)
    (hne : p.name ≠ "") : IsCharname (bytes p.name) := by
  refine ⟨cs, hcs, ?_⟩
  unfold getCharsetUni
  cases hf : cs.charnames.find? fun q => q.name ≠ "" && strEq (bytes p.name) q.name with
  | none =>
    have hnot := List.find?_eq_none.mp hf p hp
    simp [hne, strEq] at hnot
  | some q =>
    have hq := List.find?_some hf
    simp only [Bool.and_eq_true, decide_eq_true_eq] at hq
    exact (((checked_of_mem hcs).unis q (List.mem_of_find?_eq_some hf)).resolve_right hq.1).1

/-- The name of a character has a Unicode value when the official name has one where it is a
synonym. -/
theorem ksymtocodeRec_nonneg {ctx : LkCtx} {depth : Nat} {s : List Char} (hs : IsCharname s)
    (hsyn : ∀ q ∈ synonyms, strEq s q.1 = true →
      0 ≤ ksymtocodeRec ctx depth (bytes q.2) .toUnicode) :
    0 ≤ ksymtocodeRec ctx (depth + 1) s .toUnicode := by
  rw [ksymtocodeRec_succ]
  apply forall_getD
  · apply forall_mem_or
    · exact fun v hv => (ownCode_range v hv).isSymCode.1
    · apply forall_mem_map
      intro q hq
      have heq : strEq s q.1 = true :=
        List.find?_some (p := fun r : String × String => strEq s r.1) hq
      exact hsyn q (List.mem_of_find?_eq_some hq) heq
  · intro _
    obtain ⟨v, hv⟩ := Option.isSome_iff_exists.mp (unicodeSearch_isSome hs ctx)
    change 0 ≤ (unicodeSearch ctx s).getD codeForUnknownKsym
    rw [hv]
    exact (unicodeSearch_range v hv).isSymCode.1

/-- `multiply` is the name of a character, and no synonym. -/
theorem multiply_nonneg (ctx : LkCtx) (depth : Nat) :
    0 ≤ ksymtocodeRec ctx (depth + 1) (bytes "multiply") .toUnicode := by
  have hcs : currentCharset (lkInit) ∈ charsets := List.mem_cons_self
  have huni : 0 < getCharsetUni (currentCharset lkInit) (bytes "multiply") := by decide +kernel
  have hnone : (synonyms.all fun q => !strEq (bytes "multiply") q.1) = true := by decide +kernel
  apply ksymtocodeRec_nonneg ⟨_, hcs, huni⟩
  intro q hq heq
  have hnot := List.all_eq_true.mp hnone q hq
  rw [heq] at hnot
  cases hnot

/-- The name that the current character set has for a value has a Unicode value. -/
theorem ksymtocode_nameAt {ctx : LkCtx} {v : Nat} {name : String}
    (h : (currentCharset ctx).nameAt v = some name) :
    0 ≤ ksymtocode ctx (bytes name) .toUnicode := by
  unfold Cs.nameAt at h
  split at h
  · cases h
  · obtain ⟨p, hp, h⟩ := Option.bind_eq_some_iff.mp h
    split at h
    · rename_i hne
      obtain rfl := Option.some.inj h
      have hmem : p ∈ (currentCharset ctx).charnames := List.mem_of_getElem? hp
      have hcs : currentCharset ctx ∈ charsets := by
        by_cases hlt : ctx.charset < charsets.length
        · rw [currentCharset, List.getD_eq_getElem _ _ hlt]
          exact List.getElem_mem hlt
        · rw [currentCharset, List.getD_eq_default _ _ (Nat.not_lt.mp hlt)] at hmem
          cases hmem
      apply ksymtocodeRec_nonneg (isCharname_of_mem hcs hmem hne)
      intro q hq heq
      obtain rfl := synonym_of_mem_charset hcs hmem hne hq heq
      exact multiply_nonneg ctx _
    · cases h

/-! ## Values -/

theorem intMax_eq : ((intMax : Nat) : Int) = 0x7fffffff := rfl

/-- A value that `lk_add_key` can add one to; -1 is refused by it. -/
def IsValue (v : Int) : Prop := -1 ≤ v ∧ v < intMax

theorem IsKsym.isValue {code : Int} (h : IsKsym code) : IsValue code := by
  have hb := h.bounds
  have hmax := intMax_eq
  exact ⟨hb.1, by omega⟩

/-- The name of a code with a letter's type is that of a character. -/
theorem codetoksym_letter {ctx : LkCtx} {code : Int} (h : ktyp code = ktLetter) :
    codetoksym ctx code = (currentCharset ctx).nameAt (kval code).toNat := by
  have hcode := K_ktyp_kval code
  have h0 := kval_nonneg code
  have h1 := kval_lt code
  rw [h] at hcode
  simp only [K, ktLetter] at hcode
  have hneg : ¬ code < 0 := by omega
  have hlt : code < 0x1000 := by omega
  have hbig : ¬ code < 0x80 := by omega
  simp [codetoksym, hneg, hlt, hbig, h]

theorem K_letter_isValue {v : Int} (h : 0 ≤ v ∧ v < 0x100) : IsValue (K ktLetter v) :=
  IsKsym.isValue (.inr (isTableCode_K (by decide) h).isSymCode)

/-- The conversion that `convert_code` makes when the notations differ. -/
theorem convertResult_isValue {ctx : LkCtx} {code : Int} (hcode : IsValue code) (h0 : 0 ≤ code)
    (dir : Direction) :
    IsValue (
      let result := match codetoksym ctx code with
        | some ksym => ksymtocode ctx (bytes ksym) dir
        | none => code
      if dir = .toUnicode && ktyp code = ktLetter && U result < 0x100 then K ktLetter (U result)
      else result) := by
  cases hname : codetoksym ctx code with
  | none =>
    simp only
    split
    · rename_i h
      simp only [Bool.and_eq_true, decide_eq_true_eq] at h
      exact K_letter_isValue ⟨U_nonneg h0, h.2⟩
    · exact hcode
  | some name =>
    simp only
    split
    · rename_i h
      simp only [Bool.and_eq_true, decide_eq_true_eq] at h
      obtain ⟨⟨rfl, hk⟩, hlow⟩ := h
      rw [codetoksym_letter hk] at hname
      exact K_letter_isValue ⟨U_nonneg (ksymtocode_nameAt hname), hlow⟩
    · exact (ksymtocode_range ctx _ dir).isValue

theorem convertCode_isValue {ctx : LkCtx} {code : Int} (hcode : IsValue code) (h0 : 0 ≤ code) :
    IsValue (convertCode ctx code .toAuto) := by
  have hU : U code < 0x80 → IsValue (U code) := fun hlt =>
    IsKsym.isValue (.inr ⟨U_nonneg h0, by omega⟩)
  have hauto : (decide (Direction.toAuto = .toUnicode)) = false := rfl
  unfold convertCode
  simp only [hauto, Bool.false_and, Bool.false_eq_true, if_false]
  split
  · exact hcode
  · split
    · exact hcode
    · split
      · rename_i h
        simp only [Bool.and_eq_true, decide_eq_true_eq] at h
        exact hU h.2
      · split
        · exact hcode
        · exact convertResult_isValue hcode h0 _

theorem addCapslock_isValue {ctx : LkCtx} {code : Int} (hcode : IsValue code) (h0 : 0 ≤ code) :
    IsValue (addCapslock ctx code) := by
  unfold addCapslock
  split
  · exact K_letter_isValue ⟨kval_nonneg code, kval_lt code⟩
  · split
    · rename_i h
      exact K_letter_isValue ⟨U_nonneg h0, h⟩
    · exact convertCode_isValue hcode h0

/-- A capital of the first 256 characters has a code: where it is converted, its own name gives it. -/
theorem addCapslock_nonneg {ctx : LkCtx} {code : Int} (h0 : 0 ≤ code)
    (h : code < 0x100 ∨ (0x1000 ≤ code ∧ U code < 0x100)) : 0 ≤ addCapslock ctx code := by
  have hletter {v : Int} (hv : 0 ≤ v) : 0 ≤ K ktLetter v := by
    unfold K ktLetter
    omega
  unfold addCapslock
  split
  · exact hletter (kval_nonneg code)
  rename_i hlatin
  split
  · exact hletter (U_nonneg h0)
  rename_i hU
  have hlt : code < 0x100 := by omega
  have htyp : ktyp code = ktLatin := by
    unfold ktyp ktLatin
    omega
  have hcond : ctx.flags.preferUnicode = true ∧ 0x80 ≤ code := by
    simpa [htyp] using hlatin
  have hname : codetoksym ctx code = (currentCharset ctx).nameAt (kval code).toNat := by
    have h1 : ¬ code < 0 := by omega
    have h2 : code < 0x1000 := by omega
    have h3 : ¬ code < 0x80 := by omega
    simp [codetoksym, h1, h2, h3, htyp, show ¬ ktLatin = ktMeta by decide]
  have hdir : Direction.toAuto.resolve ctx = .toUnicode := if_pos hcond.1
  have hsmall : ¬ code ≥ 0x1000 := by omega
  have hbig : ¬ code < 0x80 := by omega
  simp only [convertCode, hdir, htyp, hsmall, hbig, hname, show ¬ ktLatin = ktMeta by decide,
    show ¬ ktLatin = ktLetter by decide, decide_true, decide_false, Bool.not_false, Bool.and_false,
    Bool.false_and, Bool.or_false, Bool.and_true, if_false, reduceCtorEq, Bool.false_eq_true]
  cases hat : (currentCharset ctx).nameAt (kval code).toNat with
  | none => exact h0
  | some name => exact ksymtocode_nameAt hat

/-! ## `INT_MAX` -/

/-- No symbol has the code `INT_MAX`, so every conversion leaves it. -/
theorem convertCode_intMax (ctx : LkCtx) : convertCode ctx intMax .toAuto = intMax := by
  have hsym : codetoksym ctx intMax = none := by
    have hbig : U intMax = 0x7fff0fff := by decide
    have hnone : charsets.findSome? (fun cs => cs.nameOfUni (U intMax)) = none := by
      rw [List.findSome?_eq_none_iff]
      intro cs hcs
      rw [Cs.nameOfUni, Option.map_eq_none_iff, List.find?_eq_none]
      intro p hp heq
      simp only [Bool.and_eq_true, decide_eq_true_eq, hbig] at heq
      have := ((checked_of_mem hcs).unis p hp).resolve_right heq.2
      omega
    have h0 : ¬ ((intMax : Nat) : Int) < 0 := by decide
    have h1 : ¬ ((intMax : Nat) : Int) < 0x1000 := by decide
    have h2 : ¬ U intMax < 0x80 := by decide
    rw [codetoksym, if_neg h0, if_neg h1, if_neg h2, hnone]
  have hmeta : ¬ ktyp intMax = ktMeta := by decide
  have hascii : ¬ U intMax < 0x80 := by decide
  have huni : decide (((intMax : Nat) : Int) ≥ 0x1000) = true := by decide
  have hauto : (decide (Direction.toAuto = .toUnicode)) = false := rfl
  have hletter : decide (ktyp intMax = ktLetter) = false := by decide
  simp only [convertCode, hmeta, hascii, huni, hauto, hsym, hletter, if_false, Bool.not_true,
    Bool.false_and, Bool.and_false, decide_false, Bool.false_eq_true, ite_self]

theorem addCapslock_intMax (ctx : LkCtx) : addCapslock ctx intMax = intMax := by
  have hlatin : ¬ (decide (ktyp intMax = ktLatin) &&
      (!ctx.flags.preferUnicode || decide (((intMax : Nat) : Int) < 0x80))) = true := by
    have h : decide (ktyp intMax = ktLatin) = false := by decide
    rw [h, Bool.false_and]
    exact Bool.false_ne_true
  have hlow : ¬ U intMax < 0x100 := by decide
  rw [addCapslock, if_neg hlatin, if_neg hlow, convertCode_intMax]

end Kbd.Keymap
