import Kbd.Keymap.Verify.Load

/-!
# Loading into the kernel's key tables

`KeyTables` models the keyboard tables of the kernel and `Request.apply` what a successful request
does to them. When every request of `lk_load_keymap` succeeds, the tables end up as the context says
and nothing else in them changes (`lkLoadKeymap_tables`). The proof computes the list of the
requests: `Issues reqs a` says that a console computation makes the requests `reqs` and returns `a`
in the case that all of them succeed.
-/

namespace Kbd.Keymap

open Kbd.Lib

/-! ## Computations that succeed -/

section Requests

variable {α β : Type} {ioctl : Ioctl} {P : Request → Prop}

/-- If all its requests succeed, `x` makes the requests `reqs` and returns `a`. -/
def Issues (x : Console α) (reqs : List Request) (a : α) : Prop :=
  ∀ tr, (∀ q ∈ (x.run tr).2, q.2 = none) → x.run tr = (a, tr ++ reqs.map fun r => (r, none))

theorem Issues.pure (a : α) : Issues (pure a : Console α) [] a := fun tr _ => by
  change (a, tr) = _
  simp

theorem Issues.bind {x : Console α} {f : α → Console β} {reqs reqs' : List Request} {a : α} {b : β}
    (hx : Issues x reqs a) (hf : ∀ a, Emits P (f a)) (hfa : Issues (f a) reqs' b) :
    Issues (x >>= f) (reqs ++ reqs') b := by
  intro tr h
  change ∀ q ∈ ((f (x.run tr).1).run (x.run tr).2).2, q.2 = none at h
  change (f (x.run tr).1).run (x.run tr).2 = _
  obtain ⟨ext, he, -⟩ := hf (x.run tr).1 (x.run tr).2
  have h1 := hx tr fun q hq => h q (by rw [he]; exact List.mem_append_left _ hq)
  rw [h1] at h ⊢
  rw [hfa _ h]
  simp

theorem Issues.lkIoctl (req : Request) : Issues (lkIoctl ioctl req) [req] none := by
  intro tr h
  have h0 : ioctl tr req = none := h (req, ioctl tr req) (List.mem_append_right _ (by simp))
  change (ioctl tr req, tr ++ [(req, ioctl tr req)]) = _
  rw [h0]
  rfl

end Requests

/-! ## The kernel's tables -/

/-- The kernel's keyboard tables: which are allocated, and what their cells hold. -/
abbrev KeyTables := Nat → Option (Nat → Nat)

/-- A successful request. A new table is filled with `dflt`. -/
def Request.apply (dflt : Nat) (k : KeyTables) : Request → KeyTables
  | .kdskbent t i v =>
    if i = 0 ∧ v = kNosuchmap.toNat then Function.update k t none
    else Function.update k t (some (Function.update ((k t).getD fun _ => dflt) i v))
  | _ => k

/-- The tables after the successful requests of a trace. -/
def kernelAfter (dflt : Nat) (k : KeyTables) (tr : Trace) : KeyTables :=
  tr.foldl (fun k q => if q.2 = none then q.1.apply dflt k else k) k

/-- Cell `i` of table `t`, if the table is allocated. -/
def KeyTables.cell (k : KeyTables) (t i : Nat) : Option Nat := (k t).map fun table => table i

/-- Key `i` of map `t` has a value that fits the kernel's cells. -/
def isLoadable (ctx : LkCtx) (t i : Nat) : Bool :=
  i < nrKeys && lkKeyExists ctx t i && 0 ≤ lkGetKey ctx t i && lkGetKey ctx t i ≤ ushrtMax

/-- The requests of `set_keymap_table` for the keys `is`, if all succeed. -/
def tableReqs (ctx : LkCtx) (t : Nat) (is : List Nat) : List Request :=
  (is.filter (isLoadable ctx t)).map fun i => .kdskbent t i (lkGetKey ctx t i).toNat

/-- The requests of `set_keymap` for table `t`, if all succeed. -/
def mapReqs (ctx : LkCtx) (t : Nat) : List Request :=
  if lkMapExists ctx t then tableReqs ctx t (List.range nrKeys)
  else if ctx.keywords.keymaps then [.kdskbent t 0 kNosuchmap.toNat]
  else []

/-! ## The requests of a load -/

section Issued

variable (ioctl : Ioctl) (ctx : LkCtx)

theorem setKeymapTableFrom_issues {t : Nat} (ht : t < maxNrKeymaps) {is : List Nat}
    (his : ∀ i ∈ is, i < nrKeys) (count : Nat) :
    ∃ n, Issues (setKeymapTableFrom ioctl ctx t is count) (tableReqs ctx t is) (some n) := by
  induction is generalizing count with
  | nil => exact ⟨count, .pure _⟩
  | cons i is ih =>
    have ih := ih fun j hj => his j (List.mem_cons_of_mem i hj)
    have hi : i < nrKeys := his i List.mem_cons_self
    simp only [setKeymapTableFrom]
    by_cases hx : lkKeyExists ctx t i = true
    · by_cases hv : (lkGetKey ctx t i < 0 || lkGetKey ctx t i > ushrtMax) = true
      · have hs : isLoadable ctx t i = false := by
          simp only [Bool.or_eq_true, decide_eq_true_eq] at hv
          simp only [isLoadable, Bool.and_eq_false_iff, decide_eq_false_iff_not]
          omega
        simpa [hx, hv, tableReqs, hs] using ih count
      · have hs : isLoadable ctx t i = true := by
          simp only [Bool.or_eq_true, decide_eq_true_eq] at hv
          simp only [isLoadable, Bool.and_eq_true, decide_eq_true_eq]
          exact ⟨⟨⟨hi, hx⟩, by omega⟩, by omega⟩
        have hval : (lkGetKey ctx t i).toNat % 65536 = (lkGetKey ctx t i).toNat := by
          simp only [Bool.or_eq_true, decide_eq_true_eq, ushrtMax] at hv
          omega
        obtain ⟨n, h⟩ := ih (count + 1)
        have hreqs : tableReqs ctx t (i :: is) =
            [.kdskbent t i (lkGetKey ctx t i).toNat] ++ tableReqs ctx t is := by
          simp [tableReqs, hs]
        refine ⟨n, ?_⟩
        rw [hreqs]
        simp only [hx, hv, Bool.not_true, Bool.false_eq_true, ↓reduceIte, Nat.mod_eq_of_lt ht,
          Nat.mod_eq_of_lt hi, hval]
        refine Issues.bind (P := IsKdskbent) (.lkIoctl _) (fun e => ?_) h
        rcases e with - | (- | - | - | n)
        · exact setKeymapTableFrom_emits ioctl ctx t is _
        · exact .pure _
        · exact .pure _
        · exact setKeymapTableFrom_emits ioctl ctx t is _
        · exact setKeymapTableFrom_emits ioctl ctx t is _
    · have hs : isLoadable ctx t i = false := by simp [isLoadable, hx]
      simpa [hx, tableReqs, hs] using ih count

theorem clearKeymapTable_issues {t : Nat} (ht : t < maxNrKeymaps) :
    Issues (clearKeymapTable ioctl t) [.kdskbent t 0 kNosuchmap.toNat] true := by
  simp only [clearKeymapTable, Nat.mod_eq_of_lt ht]
  refine Issues.bind (P := IsKdskbent) (.lkIoctl _) (fun e => ?_) (.pure true)
  rcases e with - | (- | - | - | n)
  · exact .pure _
  · exact .pure _
  · exact .pure _
  · exact clearByHand_emits ioctl t _
  · exact .pure _

theorem setKeymapTables_issues {ts : List Nat} (hts : ∀ t ∈ ts, t < maxNrKeymaps) (count : Nat) :
    ∃ n, Issues (setKeymapTables ioctl ctx ts count) (ts.flatMap (mapReqs ctx)) (some n) := by
  induction ts generalizing count with
  | nil => exact ⟨count, .pure _⟩
  | cons t ts ih =>
    have ih := ih fun t' h => hts t' (List.mem_cons_of_mem t h)
    have ht := hts t List.mem_cons_self
    simp only [setKeymapTables, List.flatMap_cons, mapReqs]
    by_cases hm : lkMapExists ctx t = true
    · obtain ⟨ct, hct⟩ := setKeymapTableFrom_issues ioctl ctx ht
        (fun i (hi : i ∈ List.range nrKeys) => List.mem_range.mp hi) 0
      obtain ⟨n, h⟩ := ih (count + ct)
      refine ⟨n, ?_⟩
      simp only [hm, ↓reduceIte]
      refine Issues.bind (P := IsKdskbent) hct (fun ct => ?_) h
      cases ct with
      | none => exact .pure _
      | some ct => exact setKeymapTables_emits ioctl ctx ts _
    · by_cases hk : ctx.keywords.keymaps = true
      · obtain ⟨n, h⟩ := ih count
        refine ⟨n, ?_⟩
        simp only [hm, hk, Bool.false_eq_true, ↓reduceIte]
        refine Issues.bind (P := IsKdskbent) (clearKeymapTable_issues ioctl ht) (fun ok => ?_) h
        cases ok with
        | true => exact setKeymapTables_emits ioctl ctx ts _
        | false => exact .pure _
      · simpa [hm, hk] using ih count

/-- The switches of the keyboard mode around the key entries. -/
def modeReqs (mode : Int) : List Request :=
  if ctx.flags.unicodeMode then [.kdskbmode mode] else []

theorem setKeymap_issues (kbdMode : Int) :
    ∃ n, Issues (setKeymap ioctl ctx kbdMode)
      (modeReqs ctx kUnicode ++ ((List.range maxNrKeymaps).flatMap (mapReqs ctx) ++
        modeReqs ctx kbdMode)) (some n) := by
  obtain ⟨n, h⟩ := setKeymapTables_issues ioctl ctx
    (fun t (ht : t ∈ List.range maxNrKeymaps) => List.mem_range.mp ht) 0
  refine ⟨n, ?_⟩
  -- the kind of the requests does not matter here, only that the trace grows
  have hany {α : Type} {P : Request → Prop} {x : Console α} (hx : Emits P x) :
      Emits (fun _ => True) x := hx.mono fun _ _ => trivial
  have htabs := hany (setKeymapTables_emits ioctl ctx (List.range maxNrKeymaps) 0)
  by_cases hu : ctx.flags.unicodeMode = true
  · have hback : ∀ count : Option Nat, Emits (fun _ => True) (do
        if (← lkIoctl ioctl (.kdskbmode kbdMode)).isSome then return none else return count) := by
      intro count
      refine .bind (.lkIoctl trivial) fun e => ?_
      cases e <;> exact .pure _
    simp only [setKeymap, hu, ↓reduceIte, modeReqs]
    refine Issues.bind (P := fun _ => True) (.lkIoctl _) (fun e => ?_) ?_
    · cases e with
      | some e => exact .pure _
      | none => exact .bind htabs hback
    · refine Issues.bind (P := fun _ => True) h hback ?_
      have hend : Issues (pure (some n) : Console (Option Nat)) [] (some n) := .pure _
      refine Issues.bind (P := fun _ => True) (.lkIoctl _) (fun e => ?_) hend
      cases e <;> exact .pure _
  · simp only [setKeymap, hu, Bool.false_eq_true, ↓reduceIte, modeReqs, List.nil_append]
    exact Issues.bind (P := fun _ => True) h (fun _ => .pure _) (.pure _)

end Issued

/-! ## Their effect -/

section Applied

variable (dflt : Nat)

/-- The tables after requests that all succeed. -/
def applyAll (k : KeyTables) (reqs : List Request) : KeyTables :=
  reqs.foldl (fun k r => r.apply dflt k) k

theorem kernelAfter_append (k : KeyTables) (tr tr' : Trace) :
    kernelAfter dflt k (tr ++ tr') = kernelAfter dflt (kernelAfter dflt k tr) tr' :=
  List.foldl_append

theorem kernelAfter_succeeded (k : KeyTables) (reqs : List Request) :
    kernelAfter dflt k (reqs.map fun r => (r, none)) = applyAll dflt k reqs := by
  simp [kernelAfter, applyAll, List.foldl_map]

/-- Requests other than key entries leave the key tables alone. -/
theorem kernelAfter_of_not_kdskbent (k : KeyTables) {tr : Trace}
    (h : ∀ q ∈ tr, ¬ IsKdskbent q.1) : kernelAfter dflt k tr = k := by
  induction tr with
  | nil => rfl
  | cons q tr ih =>
    have hq : q.1.apply dflt k = k := by
      have := h q List.mem_cons_self
      cases hr : q.1 <;> simp_all [IsKdskbent, Request.apply]
    simp only [kernelAfter, List.foldl_cons, hq, ite_self]
    exact ih fun q' h' => h q' (List.mem_cons_of_mem q h')

/-- Table `t` after loading the keys `is` of its map. -/
theorem applyAll_tableReqs (ctx : LkCtx) {t : Nat} (h0 : lkGetKey ctx t 0 ≠ kNosuchmap)
    (k : KeyTables) (is : List Nat) :
    applyAll dflt k (tableReqs ctx t is) t =
      if is.any (isLoadable ctx t) then
        some fun i => if i ∈ is ∧ isLoadable ctx t i then (lkGetKey ctx t i).toNat
          else ((k t).getD fun _ => dflt) i
      else k t := by
  induction is generalizing k with
  | nil => rfl
  | cons i is ih =>
    cases hs : isLoadable ctx t i with
    | false =>
      have hreqs : tableReqs ctx t (i :: is) = tableReqs ctx t is := by simp [tableReqs, hs]
      rw [hreqs, ih]
      simp only [List.any_cons, hs, Bool.false_or]
      split
      · congr 1
        funext j
        by_cases hj : j = i
        · simp [hj, hs]
        · simp [hj]
      · rfl
    | true =>
      have hi : ¬ (i = 0 ∧ (lkGetKey ctx t i).toNat = kNosuchmap.toNat) := by
        rintro ⟨rfl, h⟩
        simp only [isLoadable, Bool.and_eq_true, decide_eq_true_eq] at hs
        simp only [kNosuchmap] at h h0
        omega
      have hreqs : applyAll dflt k (tableReqs ctx t (i :: is)) =
          applyAll dflt (Function.update k t (some (Function.update ((k t).getD fun _ => dflt) i
            (lkGetKey ctx t i).toNat))) (tableReqs ctx t is) := by
        simp [applyAll, tableReqs, hs, Request.apply, hi]
      rw [hreqs, ih]
      simp only [List.any_cons, hs, Bool.true_or, ↓reduceIte, Function.update_self,
        Option.getD_some]
      split
      · congr 1
        funext j
        by_cases hj : j = i
        · subst hj
          simp [hs]
        · simp [hj]
      · rename_i hany
        congr 1
        funext j
        by_cases hj : j = i
        · subst hj
          simp [hs]
        · have : ¬ (j ∈ is ∧ isLoadable ctx t j = true) := fun h =>
            hany (List.any_eq_true.mpr ⟨j, h⟩)
          simp [hj, this]

/-- What the context makes of the table that was `old` before. -/
def loadedTable (ctx : LkCtx) (t : Nat) (old : Option (Nat → Nat)) : Option (Nat → Nat) :=
  if lkMapExists ctx t then
    if (List.range nrKeys).any (isLoadable ctx t) then
      some fun i => if isLoadable ctx t i then (lkGetKey ctx t i).toNat
        else (old.getD fun _ => dflt) i
    else old
  else if ctx.keywords.keymaps then none else old

theorem applyAll_mapReqs_self (ctx : LkCtx) {t : Nat}
    (h0 : lkMapExists ctx t = true → lkGetKey ctx t 0 ≠ kNosuchmap) (k : KeyTables) :
    applyAll dflt k (mapReqs ctx t) t = loadedTable dflt ctx t (k t) := by
  unfold mapReqs loadedTable
  split
  · rename_i hm
    rw [applyAll_tableReqs dflt ctx (h0 hm)]
    split
    · congr 1
      funext i
      have hi : (i ∈ List.range nrKeys ∧ isLoadable ctx t i = true) ↔ isLoadable ctx t i = true := by
        rw [List.mem_range, and_iff_right_iff_imp]
        intro h
        simp only [isLoadable, Bool.and_eq_true, decide_eq_true_eq] at h
        exact h.1.1.1
      simp only [hi]
    · rfl
  · split
    · simp [applyAll, Request.apply]
    · rfl

theorem applyAll_ne {t : Nat} {reqs : List Request}
    (h : ∀ r ∈ reqs, ∃ t' i v, r = .kdskbent t' i v ∧ t' ≠ t) (k : KeyTables) :
    applyAll dflt k reqs t = k t := by
  induction reqs generalizing k with
  | nil => rfl
  | cons r reqs ih =>
    obtain ⟨t', i, v, rfl, ht⟩ := h r List.mem_cons_self
    have := ih (fun r' h' => h r' (List.mem_cons_of_mem _ h')) (Request.apply dflt k (.kdskbent t' i v))
    simp only [applyAll, List.foldl_cons] at this ⊢
    rw [this]
    simp only [Request.apply]
    split <;> rw [Function.update_of_ne (Ne.symm ht)]

theorem applyAll_mapReqs_ne (ctx : LkCtx) {t t' : Nat} (h : t' ≠ t) (k : KeyTables) :
    applyAll dflt k (mapReqs ctx t') t = k t := by
  refine applyAll_ne dflt (fun r hr => ?_) k
  unfold mapReqs at hr
  split at hr
  · simp only [tableReqs, List.mem_map] at hr
    obtain ⟨i, -, rfl⟩ := hr
    exact ⟨t', i, _, rfl, h⟩
  · split at hr
    · rw [List.mem_singleton] at hr
      exact ⟨t', 0, _, hr, h⟩
    · cases hr

/-- The loop of `set_keymap`: each table is brought up to date once, by its own requests. -/
theorem applyAll_flatMap (ctx : LkCtx) {ts : List Nat} (hnd : ts.Nodup)
    (h0 : ∀ t, lkMapExists ctx t = true → lkGetKey ctx t 0 ≠ kNosuchmap) (k : KeyTables) (t : Nat) :
    applyAll dflt k (ts.flatMap (mapReqs ctx)) t =
      if t ∈ ts then loadedTable dflt ctx t (k t) else k t := by
  induction ts generalizing k with
  | nil => rfl
  | cons t' ts ih =>
    obtain ⟨ht', hnd⟩ := List.nodup_cons.mp hnd
    have hsplit : applyAll dflt k ((t' :: ts).flatMap (mapReqs ctx)) =
        applyAll dflt (applyAll dflt k (mapReqs ctx t')) (ts.flatMap (mapReqs ctx)) := by
      simp [applyAll]
    rw [hsplit, ih hnd]
    by_cases ht : t = t'
    · subst ht
      simp [ht', applyAll_mapReqs_self dflt ctx (h0 t)]
    · rw [applyAll_mapReqs_ne dflt ctx (Ne.symm ht)]
      simp [ht]

end Applied

/-- If every request of `lk_load_keymap` succeeds, the kernel's tables are those of the context. -/
theorem kernelAfter_lkLoadKeymap {ioctl : Ioctl} {ctx ctx' : LkCtx} {kbdMode : Int} (dflt : Nat)
    (prior : KeyTables) (hc : lkAddConstants.run ctx = .ok () ctx')
    (h0 : ∀ t, lkMapExists ctx' t = true → lkGetKey ctx' t 0 ≠ kNosuchmap)
    (hok : ∀ q ∈ (lkLoadKeymap ioctl ctx kbdMode).2, q.2 = none) {t : Nat} (ht : t < maxNrKeymaps) :
    kernelAfter dflt prior (lkLoadKeymap ioctl ctx kbdMode).2 t =
      loadedTable dflt ctx' t (prior t) := by
  have hrun : (lkLoadKeymap ioctl ctx kbdMode).2 =
      ((loadRest ioctl ctx' ((setKeymap ioctl ctx' kbdMode).run []).1).run
        ((setKeymap ioctl ctx' kbdMode).run []).2).2 := by
    unfold lkLoadKeymap
    rw [hc]
    rfl
  obtain ⟨ext, hext, hP⟩ := loadRest_emits ioctl ctx' ((setKeymap ioctl ctx' kbdMode).run []).1
    ((setKeymap ioctl ctx' kbdMode).run []).2
  rw [hrun, hext] at hok
  obtain ⟨n, hn⟩ := setKeymap_issues ioctl ctx' kbdMode
  have hset := hn [] fun q hq => hok q (List.mem_append_left _ hq)
  have hother : ∀ q ∈ ext, ¬ IsKdskbent q.1 := by
    intro q hq
    have := hP q hq
    cases hr : q.1 <;> simp_all [IsKdskbent, IsOther]
  have hmode : ∀ mode, ∀ q ∈ (modeReqs ctx' mode).map fun r => (r, (none : Option Errno)),
      ¬ IsKdskbent q.1 := by
    intro mode q hq
    unfold modeReqs at hq
    split at hq
    · obtain rfl : q = (.kdskbmode mode, none) := by simpa using hq
      exact id
    · cases hq
  rw [hrun, hext, hset, kernelAfter_append, kernelAfter_of_not_kdskbent dflt _ hother]
  simp only [List.nil_append, List.map_append, kernelAfter_append]
  rw [kernelAfter_of_not_kdskbent dflt _ (hmode kUnicode),
    kernelAfter_of_not_kdskbent dflt _ (hmode kbdMode), kernelAfter_succeeded,
    applyAll_flatMap dflt ctx' List.nodup_range h0, if_pos (List.mem_range.mpr ht)]

/-- The kernel's tables after a load in which every request succeeds: the keys of the existing maps
are there, the other cells of their tables keep their value (or get the default in a new table),
and the tables without a map are dropped if there was a `keymaps` line and left alone otherwise. -/
theorem lkLoadKeymap_tables {ioctl : Ioctl} {ctx ctx' : LkCtx} {kbdMode : Int} (dflt : Nat)
    (prior : KeyTables) (hc : lkAddConstants.run ctx = .ok () ctx')
    (h0 : ∀ t, lkMapExists ctx' t = true → lkGetKey ctx' t 0 ≠ kNosuchmap)
    (hok : ∀ q ∈ (lkLoadKeymap ioctl ctx kbdMode).2, q.2 = none) {t : Nat} (ht : t < maxNrKeymaps) :
    let kernel := kernelAfter dflt prior (lkLoadKeymap ioctl ctx kbdMode).2
    (lkMapExists ctx' t = true →
      (∀ i < nrKeys, lkKeyExists ctx' t i = true → ∀ v : Nat, v ≤ 65535 → lkGetKey ctx' t i = v →
        kernel.cell t i = some v) ∧
      (∀ i, ¬ (i < nrKeys ∧ lkKeyExists ctx' t i = true ∧ 0 ≤ lkGetKey ctx' t i ∧
          lkGetKey ctx' t i ≤ 65535) →
        kernel.cell t i = prior.cell t i ∨ prior t = none ∧ kernel.cell t i = some dflt)) ∧
    (lkMapExists ctx' t = false →
      kernel t = if ctx'.keywords.keymaps then none else prior t) := by
  intro kernel
  have hk : kernel t = loadedTable dflt ctx' t (prior t) :=
    kernelAfter_lkLoadKeymap dflt prior hc h0 hok ht
  refine ⟨fun hm => ⟨fun i hi hx v hv hval => ?_, fun i hi => ?_⟩, fun hm => ?_⟩
  · have hl : isLoadable ctx' t i = true := by
      simp only [isLoadable, hx, hval, Bool.and_eq_true, decide_eq_true_eq, ushrtMax]
      exact ⟨⟨⟨hi, trivial⟩, by omega⟩, by omega⟩
    have hany : (List.range nrKeys).any (isLoadable ctx' t) = true :=
      List.any_eq_true.mpr ⟨i, List.mem_range.mpr hi, hl⟩
    simp [KeyTables.cell, hk, loadedTable, hm, hany, hl, hval]
  · have hl : isLoadable ctx' t i = false := by
      rw [Bool.eq_false_iff]
      intro h
      simp only [isLoadable, Bool.and_eq_true, decide_eq_true_eq] at h
      exact hi ⟨h.1.1.1, h.1.1.2, h.1.2, h.2⟩
    unfold KeyTables.cell
    rw [hk]
    simp only [loadedTable, hm, ↓reduceIte]
    split
    · cases hp : prior t with
      | none => simp [hl]
      | some table => simp [hl]
    · exact .inl rfl
  · simp [hk, loadedTable, hm]

/-- One binding after a `keymaps` line, loaded into a kernel with two tables. -/
theorem lkLoadKeymap_tables_single :
    let ctx := { (lkInit).putKey 0 30 0x61 with keywords := { keymaps := true } }
    let prior : KeyTables := fun t => if t < 2 then some fun _ => 0x7f else none
    let kernel := kernelAfter 0x200 prior (lkLoadKeymap (fun _ _ => none) ctx 0).2
    kernel.cell 0 30 = some 0x61 ∧ kernel.cell 0 31 = some 0x7f ∧ kernel 1 = none := by
  intro ctx prior kernel
  have hc : lkAddConstants.run ctx = .ok () ctx := rfl
  have h0 : ∀ t, lkMapExists ctx t = true → lkGetKey ctx t 0 ≠ kNosuchmap := by
    intro t ht
    obtain rfl : t = 0 := by
      have : t < 1 := lkMapExists_lt ht
      omega
    decide
  have hok : ∀ q ∈ (lkLoadKeymap (fun _ _ => none) ctx 0).2, q.2 = none := by decide +kernel
  have hfirst := (lkLoadKeymap_tables 0x200 prior hc h0 hok (t := 0) (by decide)).1 rfl
  refine ⟨hfirst.1 30 (by decide) rfl 0x61 (by decide) rfl, ?_,
    (lkLoadKeymap_tables 0x200 prior hc h0 hok (t := 1) (by decide)).2 rfl⟩
  exact (hfirst.2 31 fun h => absurd h.2.1 (by decide)).resolve_right fun h => nomatch h.1

end Kbd.Keymap
