import Kbd.Keymap.Kernel
import Kbd.Keymap.Verify.Compose
import Kbd.Keymap.Verify.KeyTables

/-!
# What is read from the kernel

The three functions of `kernel.c` ask for one thing after the other and stop at the first request
that fails. For the first entry of a table `K_NOSUCHMAP` says that there is no such table, and the
rest of it is not asked for. So a run either ends with a context that holds what the kernel has shown
(`LkCtx.Holds`), or names the first of the requests that has failed (`KernelReader.Fails`).
-/

namespace Kbd.Keymap

open Kbd.Lib

/-! ## What the kernel has -/

/-- What the kernel keeps for the keyboard. -/
structure Keyboard where
  tables : KeyTables
  strings : Nat → List Char
  accents : List LkKbdiacr

/-- The context `c` says what the kernel has. -/
structure LkCtx.Holds (c : LkCtx) (k : Keyboard) : Prop where
  keywords : c.keywords = {}
  keyConstant : c.keyConstant = .init
  tight : MapsTight c
  maps : ∀ t, lkMapExists c t = true ↔ t < maxNrKeymaps ∧ (k.tables t).isSome = true
  keys : ∀ t i, lkKeyExists c t i = true ↔
    t < maxNrKeymaps ∧ i < nrKeys ∧ (k.tables t).isSome = true
  values : ∀ t i v, t < maxNrKeymaps → i < nrKeys → k.tables.cell t i = some v → lkGetKey c t i = v
  strings : ∀ i, c.funcTable.get i =
    if i < maxNrFunc ∧ k.strings i ≠ [] then some ((k.strings i).take 511) else none
  noHoles : NoHoles c
  accents : liveDiacrs c = k.accents

/-! ## The answers -/

namespace KernelReader

variable (r : KernelReader)

/-- The kernel shows a table `t`. -/
def allocated (t : Nat) : Bool :=
  match r.kdgkbent t 0 with
  | .ok kbValue => kbValue ≠ kNosuchmap.toNat
  | .error _ => false

/-- The value of an entry that is answered. -/
def value (t i : Nat) : Nat := (r.kdgkbent t i).toOption.getD 0

/-- What the answers show. -/
def keyboard : Keyboard where
  tables t := if r.allocated t then some (r.value t) else none
  strings i := (r.kdgkbsent i).toOption.getD []
  accents := r.kdgkbdiacruc.toOption.getD []

/-- The entries that are asked for. -/
def Asks (t i : Nat) : Prop := t < maxNrKeymaps ∧ i < nrKeys ∧ (i = 0 ∨ r.allocated t = true)

/-- The order of the entries. -/
def Before (t' i' t i : Nat) : Prop := t' < t ∨ t' = t ∧ i' < i

/-- What is asked for before entry `i` of table `t` is answered. -/
def AnswersTo (t i : Nat) : Prop :=
  ∀ t' i', r.Asks t' i' → Before t' i' t i → r.kdgkbent t' i' = .ok (r.value t' i')

/-- What is asked for is answered. -/
structure Answers : Prop where
  entries : ∀ t i, r.Asks t i → r.kdgkbent t i = .ok (r.value t i)
  strings : ∀ i < maxNrFunc, r.kdgkbsent i = .ok (r.keyboard.strings i)
  accents : r.kdgkbdiacruc = .ok r.keyboard.accents

/-- The errors, each for the first request that is not answered. -/
inductive Fails : KernelErr → Prop
  | entry {t i : Nat} {errno : Errno} (hasks : r.Asks t i) (hfails : r.kdgkbent t i = .error errno)
      (hbefore : r.AnswersTo t i) : Fails (.kdgkbent errno i t)
  | string {i : Nat} {errno : Errno} (hi : i < maxNrFunc) (hfails : r.kdgkbsent i = .error errno)
      (hbefore : ∀ j < i, r.kdgkbsent j = .ok (r.keyboard.strings j))
      (hentries : r.AnswersTo maxNrKeymaps 0) : Fails (.kdgkbsent errno)
  | accents {errno : Errno} (hfails : r.kdgkbdiacruc = .error errno)
      (hstrings : ∀ j < maxNrFunc, r.kdgkbsent j = .ok (r.keyboard.strings j))
      (hentries : r.AnswersTo maxNrKeymaps 0) : Fails (.kdgkbdiacr errno)

variable {r}

theorem value_of_ok {t i v : Nat} (h : r.kdgkbent t i = .ok v) : r.value t i = v := by
  rw [value, h]
  rfl

theorem allocated_of_ok {t v : Nat} (h : r.kdgkbent t 0 = .ok v) :
    r.allocated t = true ↔ v ≠ kNosuchmap.toNat := by
  rw [allocated, h]
  exact decide_eq_true_iff

/-- An entry that is answered as well. -/
theorem AnswersTo.succ {t i v : Nat} (h : r.AnswersTo t i) (hv : r.kdgkbent t i = .ok v) :
    r.AnswersTo t (i + 1) := by
  intro t' i' hasks hbefore
  by_cases heq : t' = t ∧ i' = i
  · obtain ⟨rfl, rfl⟩ := heq
    rw [hv, value_of_ok hv]
  · exact h t' i' hasks (by unfold Before at hbefore ⊢; omega)

end KernelReader

/-! ## The tables -/

/-- The context has what is before entry `i` of table `t`. -/
structure ReadTo (r : KernelReader) (flags : LkFlags) (charset t i : Nat) (d : LkCtx) : Prop where
  settings : SameSettings (lkInit flags charset) d
  tight : MapsTight d
  answers : r.AnswersTo t i
  maps : ∀ t', lkMapExists d t' = true ↔
    r.allocated t' = true ∧ t' < maxNrKeymaps ∧ KernelReader.Before t' 0 t i
  keys : ∀ t' i', d.row i' t' = if r.allocated t' = true ∧ t' < maxNrKeymaps ∧ i' < nrKeys ∧
    (t' < t ∨ t' = t ∧ i' < i) then some (r.value t' i' : Int) else none

section Tables

variable {r : KernelReader} {flags : LkFlags} {charset t i : Nat} {d : LkCtx}

theorem readTo_lkInit (r : KernelReader) (flags : LkFlags) (charset : Nat) :
    ReadTo r flags charset 0 0 (lkInit flags charset) := by
  have hnone (t' i' : Nat) : ¬ KernelReader.Before t' i' 0 0 := by
    unfold KernelReader.Before
    omega
  refine ⟨.refl _, mapsTight_lkInit flags charset, fun t' i' _ h => absurd h (hnone t' i'), ?_, ?_⟩
  · intro t'
    have hmap : lkMapExists (lkInit flags charset) t' = false := rfl
    simp [hnone, hmap]
  · intro t' i'
    simp [LkCtx.row, lkKeyExists, lkInit]

/-- A table that is not there is passed over. -/
theorem ReadTo.skip (h : ReadTo r flags charset t 0 d) {v : Nat} (hv : r.kdgkbent t 0 = .ok v)
    (halloc : r.allocated t = false) : ReadTo r flags charset (t + 1) 0 d := by
  refine ⟨h.settings, h.tight, ?_, ?_, ?_⟩
  · intro t' i' hasks hbefore
    rcases Nat.lt_or_ge t' t with hlt | hge
    · exact h.answers t' i' hasks (.inl hlt)
    · obtain rfl : t' = t := by unfold KernelReader.Before at hbefore; omega
      obtain rfl : i' = 0 := hasks.2.2.resolve_right (by simp [halloc])
      rw [hv, KernelReader.value_of_ok hv]
  · intro t'
    rw [h.maps]
    by_cases ht : t' = t
    · simp [ht, halloc]
    · have : KernelReader.Before t' 0 t 0 ↔ KernelReader.Before t' 0 (t + 1) 0 := by
        unfold KernelReader.Before
        omega
      rw [this]
  · intro t' i'
    rw [h.keys]
    by_cases ht : t' = t
    · simp [ht, halloc]
    · have : (t' < t ∨ t' = t ∧ i' < 0) ↔ (t' < t + 1 ∨ t' = t + 1 ∧ i' < 0) := by omega
      simp only [this]

/-- A table that has been read to its end. -/
theorem ReadTo.next (h : ReadTo r flags charset t nrKeys d) : ReadTo r flags charset (t + 1) 0 d := by
  refine ⟨h.settings, h.tight, ?_, ?_, ?_⟩
  · intro t' i' hasks hbefore
    have := hasks.2.1
    exact h.answers t' i' hasks (by unfold KernelReader.Before at hbefore ⊢; omega)
  · intro t'
    have : KernelReader.Before t' 0 t nrKeys ↔ KernelReader.Before t' 0 (t + 1) 0 := by
      unfold KernelReader.Before nrKeys
      omega
    rw [h.maps, this]
  · intro t' i'
    have : (i' < nrKeys ∧ (t' < t ∨ t' = t ∧ i' < nrKeys)) ↔
        (i' < nrKeys ∧ (t' < t + 1 ∨ t' = t + 1 ∧ i' < 0)) := by omega
    rw [h.keys]
    simp only [this]

/-- An entry that is read. -/
theorem ReadTo.put (h : ReadTo r flags charset t i d) (ht : t < maxNrKeymaps) (hi : i < nrKeys)
    {v : Nat} (hv : r.kdgkbent t i = .ok v) (halloc : r.allocated t = true) :
    ReadTo r flags charset t (i + 1) (d.putKey t i v) := by
  have hne : (v : Int) ≠ codeForUnknownKsym := by
    simp only [codeForUnknownKsym]
    omega
  have halt : d.keywords.altIsMeta = false := by rw [h.settings.keywords]; rfl
  refine ⟨h.settings.trans (.putKey d t i v), ?_, h.answers.succ hv, ?_, ?_⟩
  · intro t' ht'
    rw [total_putKey] at ht'
    rw [lkMapExists_putKey]
    by_cases heq : t' = t
    · simp [heq]
    · rw [h.tight t' (by omega), Bool.or_true]
  · intro t'
    rw [lkMapExists_putKey, Bool.or_eq_true, decide_eq_true_eq, h.maps]
    constructor
    · rintro (rfl | ⟨ha, hlt, hbefore⟩)
      · exact ⟨halloc, ht, .inr ⟨rfl, Nat.succ_pos i⟩⟩
      · exact ⟨ha, hlt, by unfold KernelReader.Before at hbefore ⊢; omega⟩
    · rintro ⟨ha, hlt, hbefore⟩
      by_cases heq : t' = t
      · exact .inl heq
      · exact .inr ⟨ha, hlt, by unfold KernelReader.Before at hbefore ⊢; omega⟩
  · intro t' i'
    by_cases hii : i' = i
    · subst hii
      rw [row_putKey d t i' hne, halt, Row.put_false]
      by_cases heq : t' = t
      · subst heq
        simp [halloc, ht, hi, KernelReader.value_of_ok hv]
      · have : (t' < t ∨ t' = t ∧ i' < i') ↔ (t' < t ∨ t' = t ∧ i' < i' + 1) := by omega
        rw [Function.update_of_ne heq, h.keys]
        simp only [this]
    · have : (t' < t ∨ t' = t ∧ i' < i) ↔ (t' < t ∨ t' = t ∧ i' < i + 1) := by omega
      rw [row_putKey_ne d t v hii, h.keys]
      simp only [this]

theorem callLk_run_ok {x : Lk Unit} {c c' : LkCtx} (h : x.run c = .ok () c') :
    (callLk x).run c = .ok () c' := by
  change callLk x c = _
  unfold callLk
  rw [h]

/-- `lk_add_key` does not fail here: no `keymaps` line has been read, and the value is one. -/
theorem ReadTo.lkAddKey_run (h : ReadTo r flags charset t i d) (v : Nat) :
    (callLk (lkAddKey t i v)).run d = .ok () (d.putKey t i v) := by
  refine callLk_run_ok (lkAddKey_eq_ok.mpr ⟨?_, fun hk => ?_, rfl⟩)
  · simp only [codeForUnknownKsym]
    omega
  · rw [h.settings.keywords] at hk
    cases hk

/-- The rest of a table that is there. -/
theorem kernelTableFrom_post (ht : t < maxNrKeymaps) (halloc : r.allocated t = true) {k : Nat}
    (hik : i + k = nrKeys) (h : ReadTo r flags charset t i d) :
    Post (fun _ => ReadTo r flags charset (t + 1) 0) r.Fails
      ((kernelTableFrom r t (List.range' i k)).run d) := by
  induction k generalizing i d with
  | zero =>
    obtain rfl : i = nrKeys := hik
    exact h.next
  | succ k ih =>
    have hi : i < nrKeys := by omega
    have hin : ¬ (i : Int) > ucharMax := by simp only [ucharMax, nrKeys] at hi ⊢; omega
    have htm : t % 256 = t := Nat.mod_eq_of_lt ht
    have him : i % 256 = i := Nat.mod_eq_of_lt hi
    simp only [List.range'_succ, kernelTableFrom, hin, ↓reduceIte, htm, him]
    cases hv : r.kdgkbent t i with
    | error errno => exact .entry ⟨ht, hi, .inr halloc⟩ hv h.answers
    | ok v =>
      have hmap : ¬ (i = 0 ∧ v = kNosuchmap.toNat) := by
        rintro ⟨rfl, hno⟩
        exact (KernelReader.allocated_of_ok hv).mp halloc hno
      simp only [hmap, ↓reduceIte]
      rw [Result.bind_of_ok (h.lkAddKey_run v)]
      exact ih (by omega) (h.put ht hi hv halloc)

/-- A round of the loop over the tables. -/
theorem kernelTable_post (ht : t < maxNrKeymaps) (h : ReadTo r flags charset t 0 d) :
    Post (fun _ => ReadTo r flags charset (t + 1) 0) r.Fails ((kernelTable r t).run d) := by
  have htin : ¬ (t : Int) > ucharMax := by simp only [ucharMax, maxNrKeymaps] at ht ⊢; omega
  have hasks : r.Asks t 0 := ⟨ht, by decide, .inl rfl⟩
  have hrange : List.range nrKeys = List.range' 0 nrKeys := List.range_eq_range'
  have htm : t % 256 = t := Nat.mod_eq_of_lt ht
  have hzero : ¬ ((0 : Nat) : Int) > ucharMax := by decide
  simp only [kernelTable, htin, ↓reduceIte, hrange]
  by_cases halloc : r.allocated t = true
  · exact kernelTableFrom_post ht halloc (Nat.zero_add _) h
  · rw [Bool.not_eq_true] at halloc
    have hcons : List.range' 0 nrKeys = 0 :: List.range' 1 255 := rfl
    simp only [hcons, kernelTableFrom, hzero, ↓reduceIte, htm, Nat.zero_mod]
    cases hv : r.kdgkbent t 0 with
    | error errno => exact .entry hasks hv h.answers
    | ok v =>
      have hmap : (0 : Nat) = 0 ∧ v = kNosuchmap.toNat := by
        refine ⟨rfl, ?_⟩
        by_contra hne
        rw [(KernelReader.allocated_of_ok hv).mpr hne] at halloc
        cases halloc
      simp only [hmap]
      exact h.skip hv halloc

/-- `lk_kernel_keys` on a fresh context. -/
theorem lkKernelKeys_post (r : KernelReader) (flags : LkFlags) (charset : Nat) :
    Post (fun _ => ReadTo r flags charset maxNrKeymaps 0) r.Fails
      ((lkKernelKeys r).run (lkInit flags charset)) := by
  refine Post.bind (Post.forM_range (I := fun t => ReadTo r flags charset t 0)
    (fun t ht d h => kernelTable_post ht h) (readTo_lkInit r flags charset)) fun _ d h => ?_
  rw [callLk_run_ok (lkAddConstants_of_init h.settings.keyConstant)]
  exact h

end Tables

/-! ## The strings and the accent table -/

/-- The strings below `n` have been read into a context that was `c`. -/
structure FuncsTo (r : KernelReader) (c : LkCtx) (n : Nat) (d : LkCtx) : Prop where
  other : d = { c with funcTable := d.funcTable }
  answers : ∀ j < n, r.kdgkbsent j = .ok (r.keyboard.strings j)
  strings : ∀ i, d.funcTable.get i =
    if i < n ∧ r.keyboard.strings i ≠ [] then some ((r.keyboard.strings i).take 511) else none

section Strings

variable {r : KernelReader} {c d : LkCtx} {n : Nat}

/-- A round of the loop over the strings. -/
theorem kernelFunc_post (hentries : r.AnswersTo maxNrKeymaps 0) (hn : n < maxNrFunc)
    (h : FuncsTo r c n d) :
    Post (fun _ => FuncsTo r c (n + 1)) r.Fails ((kernelFunc r n).run d) := by
  have hin : ¬ (n : Int) > ucharMax := by simp only [ucharMax, maxNrFunc] at hn ⊢; omega
  have hmod : n % 256 = n := Nat.mod_eq_of_lt hn
  simp only [kernelFunc, hin, ↓reduceIte, hmod]
  cases hs : r.kdgkbsent n with
  | error errno => exact .string hn hs h.answers hentries
  | ok s =>
    have hstring : r.keyboard.strings n = s := by
      simp only [KernelReader.keyboard, hs]
      rfl
    have hanswers : ∀ j < n + 1, r.kdgkbsent j = .ok (r.keyboard.strings j) := by
      intro j hj
      rcases Nat.lt_succ_iff_lt_or_eq.mp hj with hlt | rfl
      · exact h.answers j hlt
      · rw [hs, hstring]
    by_cases hempty : s = []
    · simp only [hempty, ↓reduceIte]
      refine ⟨h.other, hanswers, fun i => ?_⟩
      rw [h.strings]
      by_cases hi : i = n
      · simp [hi, hstring, hempty]
      · have : i < n ↔ i < n + 1 := by omega
        simp only [this]
    · simp only [hempty, ↓reduceIte]
      have hrun : (lkAddFunc n s).run d =
          .ok () { d with funcTable := d.funcTable.set n (some (s.take 511)) } := rfl
      rw [callLk_run_ok hrun]
      refine ⟨?_, hanswers, fun i => ?_⟩
      · rw [h.other]
      · change (d.funcTable.set n (some (s.take 511))).get i = _
        rw [LkArray.get_set, h.strings]
        by_cases hi : i = n
        · simp [hi, hstring, hempty]
        · have : i < n ↔ i < n + 1 := by omega
          simp only [hi, ↓reduceIte, this]

/-- `lk_kernel_funcs`, where there are no strings before. -/
theorem lkKernelFuncs_post (hentries : r.AnswersTo maxNrKeymaps 0)
    (hc : c.funcTable = .init) :
    Post (fun _ => FuncsTo r c maxNrFunc) r.Fails ((lkKernelFuncs r).run c) := by
  refine Post.forM_range (I := FuncsTo r c) (fun n hn d h => kernelFunc_post hentries hn h) ?_
  refine ⟨rfl, fun j hj => absurd hj (Nat.not_lt_zero j), fun i => ?_⟩
  have hget : c.funcTable.get i = none := by rw [hc]; exact LkArray.get_init i
  simp [hget]

end Strings

section Accents

variable {c : LkCtx}

/-- Adding the next entry is appending it. -/
theorem lkAddDiacr_count (h : NoHoles c) (d : LkKbdiacr) :
    lkAddDiacr c c.accentTable.count d = lkAppendDiacr c d := by
  have hfree : c.accentTable.get c.accentTable.count = none := by
    rw [← Option.not_isSome_iff_eq_none, h]
    omega
  have hunset : (c.accentTable.resize c.accentTable.count).isSet c.accentTable.count = false := by
    rw [LkArray.isSet, LkArray.get_resize, hfree]
    rfl
  have hset : c.accentTable.set c.accentTable.count (some d) = c.accentTable.append (some d) := by
    simp only [LkArray.set, hunset]
    rfl
  rw [lkAddDiacr, lkAppendDiacr, hset]

theorem kernelDiacrs_run (h : NoHoles c) (ar : List LkKbdiacr) :
    ((ar.zipIdx c.accentTable.count).forM fun p =>
        (modify fun ctx => lkAddDiacr ctx p.2 p.1 : Kernel Unit)).run c =
      .ok () (ar.foldl lkAppendDiacr c) := by
  induction ar generalizing c with
  | nil => rfl
  | cons d ar ih =>
    have hrun : (modify fun ctx => lkAddDiacr ctx c.accentTable.count d : Kernel Unit).run c =
        .ok () (lkAppendDiacr c d) := by
      rw [← lkAddDiacr_count h]
      rfl
    have hcount : (lkAppendDiacr c d).accentTable.count = c.accentTable.count + 1 := rfl
    rw [List.zipIdx_cons]
    refine (Result.bind_of_ok hrun).trans ?_
    rw [← hcount]
    exact ih (h.append d)

theorem foldl_lkAppendDiacr (c : LkCtx) (ds : List LkKbdiacr) :
    ds.foldl lkAppendDiacr c = { c with accentTable := (ds.foldl lkAppendDiacr c).accentTable } := by
  induction ds generalizing c with
  | nil => rfl
  | cons d ds ih => exact ih (lkAppendDiacr c d)

end Accents

/-- A context that has read everything holds what the answers show. -/
theorem ReadTo.holds {r : KernelReader} {flags : LkFlags} {charset : Nat} {c₁ c₂ : LkCtx}
    (h₁ : ReadTo r flags charset maxNrKeymaps 0 c₁) (h₂ : FuncsTo r c₁ maxNrFunc c₂) :
    (r.keyboard.accents.foldl lkAppendDiacr c₂).Holds r.keyboard := by
  set c := r.keyboard.accents.foldl lkAppendDiacr c₂ with hc
  have hother : c = { c₁ with funcTable := c₂.funcTable, accentTable := c.accentTable } := by
    rw [hc, foldl_lkAppendDiacr, h₂.other]
  have hkeymap : c.keymap = c₁.keymap := by rw [hother]
  have htables (t : Nat) : (r.keyboard.tables t).isSome = r.allocated t := by
    simp only [KernelReader.keyboard]
    cases r.allocated t <;> rfl
  have hmaps (t : Nat) : lkMapExists c t = true ↔
      t < maxNrKeymaps ∧ (r.keyboard.tables t).isSome = true := by
    rw [lkMapExists_congr hkeymap, h₁.maps, htables]
    unfold KernelReader.Before
    constructor
    · rintro ⟨ha, ht, -⟩
      exact ⟨ht, ha⟩
    · rintro ⟨ht, ha⟩
      exact ⟨ha, ht, .inl ht⟩
  have hrow (t i : Nat) : c.row i t =
      if r.allocated t = true ∧ t < maxNrKeymaps ∧ i < nrKeys then some (r.value t i : Int)
      else none := by
    have horder : (i < nrKeys ∧ (t < maxNrKeymaps ∨ t = maxNrKeymaps ∧ i < 0)) ↔
        (i < nrKeys ∧ t < maxNrKeymaps) := by omega
    rw [row_congr hkeymap, h₁.keys]
    congr 1
    rw [horder, eq_iff_iff]
    tauto
  have haccents : c₂.accentTable = .init := by
    rw [h₂.other]
    exact h₁.settings.accentTable
  have hempty : NoHoles c₂ := by
    intro i
    rw [haccents]
    exact noHoles_lkInit flags charset i
  obtain ⟨hholes, hdumped⟩ := hempty.appendAll r.keyboard.accents
  rw [← hc] at hholes hdumped
  refine ⟨?_, ?_, ?_, hmaps, ?_, ?_, ?_, hholes, ?_⟩
  · rw [hother]
    exact h₁.settings.keywords
  · rw [hother]
    exact h₁.settings.keyConstant
  · intro t ht
    rw [lkMapExists_congr hkeymap]
    rw [hkeymap] at ht
    exact h₁.tight t ht
  · intro t i
    rw [← isSome_row, hrow, htables]
    split
    · simp only [Option.isSome_some, true_iff]
      tauto
    · simp only [Option.isSome_none, Bool.false_eq_true, false_iff]
      tauto
  · intro t i v ht hi hv
    have hex : lkMapExists c t = true := by
      rw [hmaps]
      refine ⟨ht, ?_⟩
      cases hk : r.keyboard.tables t with
      | none => simp [KeyTables.cell, hk] at hv
      | some table => rfl
    have ha : r.allocated t = true := by rw [← htables, ((hmaps t).mp hex).2]
    have hval : r.value t i = v := by
      simpa [KeyTables.cell, KernelReader.keyboard, ha] using hv
    rw [lkGetKey_eq_row hex, hrow, if_pos ⟨ha, ht, hi⟩, hval]
    rfl
  · intro i
    rw [hother]
    exact h₂.strings i
  · have hcount : dumpedDiacs c₂ = [] := by
      rw [dumpedDiacs, haccents]
      rfl
    rw [hholes.liveDiacrs_eq, hdumped, hcount, List.nil_append]

theorem lkKernelKeymap_post (r : KernelReader) (flags : LkFlags) (charset : Nat) :
    Post (fun _ c => r.Answers ∧ c.Holds r.keyboard ∧ c.flags = flags ∧ c.charset = charset) r.Fails
      ((lkKernelKeymap r).run (lkInit flags charset)) := by
  refine Post.bind (lkKernelKeys_post r flags charset) fun _ c₁ h₁ => ?_
  refine Post.bind (lkKernelFuncs_post h₁.answers h₁.settings.funcTable) fun _ c₂ h₂ => ?_
  unfold lkKernelDiacrs
  cases ha : r.kdgkbdiacruc with
  | error errno => exact .accents ha h₂.answers h₁.answers
  | ok ar =>
    have har : r.keyboard.accents = ar := by
      simp only [KernelReader.keyboard, ha]
      rfl
    have hinit : c₂.accentTable = .init := by
      rw [h₂.other]
      exact h₁.settings.accentTable
    have hholes : NoHoles c₂ := by
      intro i
      rw [hinit]
      exact noHoles_lkInit flags charset i
    have hzero : c₂.accentTable.count = 0 := by rw [hinit]; rfl
    have hrun := kernelDiacrs_run hholes ar
    rw [hzero] at hrun
    change Post _ _ (EStateM.run (ar.zipIdx.forM fun p =>
      (modify fun ctx => lkAddDiacr ctx p.2 p.1 : Kernel Unit)) c₂)
    rw [hrun]
    have hholds := h₁.holds h₂
    have hother := foldl_lkAppendDiacr c₂ ar
    rw [har] at hholds
    refine ⟨⟨?_, h₂.answers, har ▸ ha⟩, hholds, ?_, ?_⟩
    · exact fun t i hasks => h₁.answers t i hasks (.inl hasks.1)
    · rw [hother, h₂.other]
      exact h₁.settings.flags
    · rw [hother, h₂.other]
      exact h₁.settings.charset

/-- `lk_kernel_keymap` reads what the kernel has into a fresh context, or names the first request
that the kernel does not answer; it never fails for a reason of its own. -/
theorem lkKernelKeymap_spec (r : KernelReader) (flags : LkFlags) (charset : Nat) :
    match (lkKernelKeymap r).run (lkInit flags charset) with
    | .ok _ c => r.Answers ∧ c.Holds r.keyboard ∧ c.flags = flags ∧ c.charset = charset
    | .error err _ => r.Fails err := by
  have hpost := lkKernelKeymap_post r flags charset
  revert hpost
  cases (lkKernelKeymap r).run (lkInit flags charset) with
  | ok _ c => exact id
  | error err c => exact id

end Kbd.Keymap
