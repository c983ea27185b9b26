import Kbd.Keymap.Verify.Kernel

/-!
# The keyboard of the kernel

`Keyboard` is what the kernel keeps for the keyboard, and a trace of `lk_load_keymap` is replayed on
it. A load whose requests all succeed leaves the kernel with what the context says
(`lkLoadKeymap_keyboard`), so loading what has been read from a kernel restores it
(`lkLoadKeymap_lkKernelKeymap`).
-/

namespace Kbd.Keymap

open Kbd.Lib

/-! ## Replaying requests -/

section Replay

/- A new table is filled with `dflt`; in `KDSKBDIACR` the kernel converts the fields of an entry by
`conv`. -/
variable (dflt : Nat) (conv : LkKbdiacr → LkKbdiacr)

/-- A successful request. -/
def Keyboard.apply (k : Keyboard) : Request → Keyboard
  | .kdskbent t i v => { k with tables := (Request.kdskbent t i v).apply dflt k.tables }
  | .kdskbmode _ => k
  | .kdskbsent i s => { k with strings := Function.update k.strings i s }
  | .kdskbdiacruc n ds => { k with accents := ds.take n }
  | .kdskbdiacr n ds => { k with accents := (ds.take n).map conv }

/-- The keyboard after the successful requests of a trace. -/
def Keyboard.after (k : Keyboard) (tr : Trace) : Keyboard :=
  tr.foldl (fun k q => if q.2 = none then k.apply dflt conv q.1 else k) k

/-- The keyboard after requests that all succeed. -/
def Keyboard.applyAll (k : Keyboard) (reqs : List Request) : Keyboard :=
  reqs.foldl (fun k req => k.apply dflt conv req) k

variable {dflt conv}

theorem Keyboard.after_succeeded (k : Keyboard) (reqs : List Request) :
    k.after dflt conv (reqs.map fun req => (req, none)) = k.applyAll dflt conv reqs := by
  simp [Keyboard.after, Keyboard.applyAll, List.foldl_map]

theorem Keyboard.applyAll_append (k : Keyboard) (reqs reqs' : List Request) :
    k.applyAll dflt conv (reqs ++ reqs') = (k.applyAll dflt conv reqs).applyAll dflt conv reqs' :=
  List.foldl_append

theorem Keyboard.applyAll_cons (k : Keyboard) (req : Request) (reqs : List Request) :
    k.applyAll dflt conv (req :: reqs) = (k.apply dflt conv req).applyAll dflt conv reqs := rfl

/-- The key tables are those of the replay on tables. -/
theorem Keyboard.tables_applyAll (k : Keyboard) (reqs : List Request) :
    (k.applyAll dflt conv reqs).tables = Kbd.Keymap.applyAll dflt k.tables reqs := by
  induction reqs generalizing k with
  | nil => rfl
  | cons req reqs ih =>
    rw [Keyboard.applyAll_cons, ih]
    cases req <;> rfl

end Replay

/-! ## The requests of the rest of a load -/

section Issued

variable (ioctl : Ioctl) (ctx : LkCtx)

/-- The string that `deffuncs` sends for function key `i`. -/
def sentString (i : Nat) : Option (List Char) :=
  match ctx.funcTable.get i with
  | some ptr => some (ptr.take 511)
  | none => if ctx.flags.clearStrings then some [] else none

/-- The requests of `deffuncs` for the strings `is`, if all succeed. -/
def funcReqs (is : List Nat) : List Request :=
  is.filterMap fun i => (sentString ctx i).map (.kdskbsent i)

theorem deffuncsFrom_issues {is : List Nat} (his : ∀ i ∈ is, i < maxNrFunc) (ct : Nat) :
    ∃ n, Issues (deffuncsFrom ioctl ctx is ct) (funcReqs ctx is) n := by
  induction is generalizing ct with
  | nil => exact ⟨ct, .pure _⟩
  | cons i is ih =>
    rw [List.forall_mem_cons] at his
    have hmod : i % 256 = i := Nat.mod_eq_of_lt his.1
    have hsent (s : List Char) (hs : sentString ctx i = some s) :
        funcReqs ctx (i :: is) = [.kdskbsent i s] ++ funcReqs ctx is := by
      simp [funcReqs, hs]
    simp only [deffuncsFrom, hmod]
    cases hi : ctx.funcTable.get i with
    | some ptr =>
      obtain ⟨n, h⟩ := ih his.2 (ct + 1)
      rw [hsent (ptr.take 511) (by simp [sentString, hi])]
      exact ⟨n, Issues.bind (P := IsOther) (.lkIoctl _)
        (fun e => deffuncsFrom_emits ioctl ctx is _) h⟩
    | none =>
      by_cases hclear : ctx.flags.clearStrings = true
      · obtain ⟨n, h⟩ := ih his.2 (ct + 1)
        rw [hsent [] (by simp [sentString, hi, hclear])]
        simp only [hclear, ↓reduceIte]
        exact ⟨n, Issues.bind (P := IsOther) (.lkIoctl _)
          (fun e => deffuncsFrom_emits ioctl ctx is _) h⟩
      · have hskip : funcReqs ctx (i :: is) = funcReqs ctx is := by
          simp [funcReqs, sentString, hi, hclear]
        rw [hskip]
        simp only [hclear, Bool.false_eq_true, ↓reduceIte]
        exact ih his.2 ct

/-- The `kb_cnt` of `defdiacs`. -/
def sentCount : Nat :=
  if ctx.accentTable.count ≥ maxDiacr then maxDiacr - 1 else ctx.accentTable.count

/-- The entries that `defdiacs` sends. -/
def sentDiacrs : List LkKbdiacr := (liveDiacrs ctx).take (sentCount ctx)

/-- The fields of the entries that are sent fit into those of `struct kbdiacr`. -/
def fitsKbdiacr : Bool :=
  !(sentDiacrs ctx).any fun d => d.diacr > ucharMax || d.base > ucharMax || d.result > ucharMax

/-- The requests of `defdiacs`, if they succeed. -/
def diacrReqs : List Request :=
  if ctx.flags.preferUnicode then [.kdskbdiacruc (sentCount ctx) (sentDiacrs ctx)]
  else if fitsKbdiacr ctx then [.kdskbdiacr (sentCount ctx) (sentDiacrs ctx)]
  else []

theorem defdiacs_eq : defdiacs ioctl ctx =
    if ctx.flags.preferUnicode then do
      if (← lkIoctl ioctl (.kdskbdiacruc (sentCount ctx) (sentDiacrs ctx))).isSome then return none
      return some (sentCount ctx)
    else if !fitsKbdiacr ctx then return none
    else do
      if (← lkIoctl ioctl (.kdskbdiacr (sentCount ctx) (sentDiacrs ctx))).isSome then return none
      return some (sentCount ctx) := by
  simp only [defdiacs, fitsKbdiacr, Bool.not_not]
  rfl

theorem defdiacs_issues :
    ∃ n : Option Nat, Issues (defdiacs ioctl ctx) (diacrReqs ctx) n ∧
      n.isSome = (ctx.flags.preferUnicode || fitsKbdiacr ctx) := by
  have hsend (req : Request) : Issues (do
      if (← lkIoctl ioctl req).isSome then return none
      return some (sentCount ctx) : Console (Option Nat)) [req] (some (sentCount ctx)) := by
    have hend : Issues (pure (some (sentCount ctx)) : Console (Option Nat)) [] _ := .pure _
    refine Issues.bind (P := IsOther) (.lkIoctl _) (fun e => ?_) hend
    cases e <;> exact .pure _
  rw [defdiacs_eq, diacrReqs]
  by_cases hu : ctx.flags.preferUnicode = true
  · simp only [hu, ↓reduceIte, Bool.true_or]
    exact ⟨_, hsend _, rfl⟩
  · by_cases hfits : fitsKbdiacr ctx = true
    · simp only [hu, hfits, Bool.not_true, Bool.false_eq_true, ↓reduceIte, Bool.or_true]
      exact ⟨_, hsend _, rfl⟩
    · simp only [hu, hfits, Bool.not_false, Bool.false_eq_true, ↓reduceIte, Bool.or_false]
      exact ⟨none, .pure _, rfl⟩

/-- The accent table is sent. -/
def sendsDiacrs : Bool := ctx.accentTable.count > 0 || ctx.flags.clearCompose

/-- The requests after `set_keymap`, if all succeed. -/
def restReqs : List Request :=
  funcReqs ctx (List.range maxNrFunc) ++ if sendsDiacrs ctx then diacrReqs ctx else []

/-- What `lk_load_keymap` returns if all its requests succeed. -/
def loadsDiacrs : Bool := !sendsDiacrs ctx || ctx.flags.preferUnicode || fitsKbdiacr ctx

theorem loadRest_issues (n : Nat) :
    Issues (loadRest ioctl ctx (some n)) (restReqs ctx) (loadsDiacrs ctx) := by
  obtain ⟨m, hfuncs⟩ := deffuncsFrom_issues ioctl ctx
    (fun i (hi : i ∈ List.range maxNrFunc) => List.mem_range.mp hi) 0
  obtain ⟨n', hdiacs, hsome⟩ := defdiacs_issues ioctl ctx
  have hsends : (ctx.accentTable.count > 0 || ctx.flags.clearCompose) = sendsDiacrs ctx := rfl
  simp only [loadRest, restReqs, hsends]
  refine Issues.bind (P := IsOther) hfuncs (fun ct => ?_) ?_
  · split
    · exact .bind (defdiacs_emits ioctl ctx) fun n => .pure _
    · exact .pure _
  · by_cases h : sendsDiacrs ctx = true
    · have hret : n'.isSome = loadsDiacrs ctx := by
        rw [hsome, loadsDiacrs, h]
        rfl
      have hend : Issues (pure n'.isSome : Console Bool) [] (loadsDiacrs ctx) := hret ▸ .pure _
      simp only [h, ↓reduceIte]
      rw [← List.append_nil (diacrReqs ctx)]
      exact Issues.bind (P := IsOther) hdiacs (fun n => .pure _) hend
    · have hret : loadsDiacrs ctx = true := by simp [loadsDiacrs, h]
      simp only [h, Bool.false_eq_true, ↓reduceIte, hret]
      exact .pure _

/-- The requests of a load that all succeed. -/
theorem loadTables_issues (kbdMode : Int) :
    Issues (loadTables ioctl ctx kbdMode)
      ((modeReqs ctx kUnicode ++ ((List.range maxNrKeymaps).flatMap (mapReqs ctx) ++
        modeReqs ctx kbdMode)) ++ restReqs ctx) (loadsDiacrs ctx) := by
  obtain ⟨n, hn⟩ := setKeymap_issues ioctl ctx kbdMode
  exact Issues.bind (P := IsOther) hn (fun n => loadRest_emits ioctl ctx n)
    (loadRest_issues ioctl ctx n)

end Issued

/-! ## Their effect -/

/-- The accent table after a load whose requests all succeed. -/
def loadedAccents (ctx : LkCtx) (conv : LkKbdiacr → LkKbdiacr) (old : List LkKbdiacr) :
    List LkKbdiacr :=
  if !sendsDiacrs ctx then old
  else if ctx.flags.preferUnicode then sentDiacrs ctx
  else if fitsKbdiacr ctx then (sentDiacrs ctx).map conv
  else old

section Applied

variable (dflt : Nat) (conv : LkKbdiacr → LkKbdiacr) (ctx : LkCtx) (k : Keyboard)

/-- A key entry or a mode switch. -/
def IsKeyOrMode : Request → Prop
  | .kdskbent .. => True
  | .kdskbmode _ => True
  | _ => False

/-- Key entries and mode switches leave the strings and the accent table alone. -/
theorem Keyboard.applyAll_keys {reqs : List Request} (h : ∀ req ∈ reqs, IsKeyOrMode req) :
    (k.applyAll dflt conv reqs).strings = k.strings ∧
      (k.applyAll dflt conv reqs).accents = k.accents := by
  induction reqs generalizing k with
  | nil => exact ⟨rfl, rfl⟩
  | cons req reqs ih =>
    rw [List.forall_mem_cons] at h
    rw [Keyboard.applyAll_cons, (ih _ h.2).1, (ih _ h.2).2]
    cases req with
    | kdskbent t i v => exact ⟨rfl, rfl⟩
    | kdskbmode mode => exact ⟨rfl, rfl⟩
    | kdskbsent i s => exact absurd h.1 id
    | kdskbdiacruc n ds => exact absurd h.1 id
    | kdskbdiacr n ds => exact absurd h.1 id

theorem isKeyOrMode_of_mem_mapReqs {t : Nat} {req : Request} (h : req ∈ mapReqs ctx t) :
    IsKeyOrMode req := by
  unfold mapReqs at h
  split at h
  · simp only [tableReqs, List.mem_map] at h
    obtain ⟨i, -, rfl⟩ := h
    trivial
  · split at h
    · obtain rfl := List.mem_singleton.mp h
      trivial
    · cases h

theorem isKeyOrMode_of_mem_modeReqs {mode : Int} {req : Request} (h : req ∈ modeReqs ctx mode) :
    IsKeyOrMode req := by
  unfold modeReqs at h
  split at h
  · obtain rfl := List.mem_singleton.mp h
    trivial
  · cases h

/-- The strings that are sent. -/
theorem Keyboard.applyAll_funcReqs (is : List Nat) :
    (∀ j, (k.applyAll dflt conv (funcReqs ctx is)).strings j =
      if j ∈ is then (sentString ctx j).getD (k.strings j) else k.strings j) ∧
    (k.applyAll dflt conv (funcReqs ctx is)).accents = k.accents := by
  induction is generalizing k with
  | nil => exact ⟨fun _ => rfl, rfl⟩
  | cons i is ih =>
    cases hi : sentString ctx i with
    | none =>
      have hskip : funcReqs ctx (i :: is) = funcReqs ctx is := by simp [funcReqs, hi]
      rw [hskip]
      refine ⟨fun j => ?_, (ih k).2⟩
      rw [(ih k).1]
      by_cases hj : j = i
      · simp [hj, hi]
      · simp [hj]
    | some s =>
      have hcons : funcReqs ctx (i :: is) = .kdskbsent i s :: funcReqs ctx is := by
        simp [funcReqs, hi]
      obtain ⟨hstrings, haccents⟩ := ih (k.apply dflt conv (.kdskbsent i s))
      rw [hcons, Keyboard.applyAll_cons]
      refine ⟨fun j => ?_, haccents⟩
      rw [hstrings]
      have hput : (k.apply dflt conv (.kdskbsent i s)).strings j = if j = i then s else k.strings j :=
        Function.update_apply ..
      rw [hput]
      by_cases hj : j = i
      · simp [hj, hi]
      · simp [hj]

theorem Keyboard.applyAll_restReqs :
    (∀ j, (k.applyAll dflt conv (restReqs ctx)).strings j =
      if j < maxNrFunc then (sentString ctx j).getD (k.strings j) else k.strings j) ∧
    (k.applyAll dflt conv (restReqs ctx)).accents = loadedAccents ctx conv k.accents := by
  obtain ⟨hstrings, haccents⟩ := k.applyAll_funcReqs dflt conv ctx (List.range maxNrFunc)
  simp only [List.mem_range] at hstrings
  have htake : (sentDiacrs ctx).take (sentCount ctx) = sentDiacrs ctx := by
    rw [sentDiacrs, List.take_take, Nat.min_self]
  rw [restReqs, Keyboard.applyAll_append]
  set k₁ := k.applyAll dflt conv (funcReqs ctx (List.range maxNrFunc)) with hk₁
  by_cases hsends : sendsDiacrs ctx = true
  · simp only [hsends, ↓reduceIte, loadedAccents, Bool.not_true, Bool.false_eq_true, diacrReqs]
    split
    · exact ⟨hstrings, htake⟩
    · split
      · exact ⟨hstrings, congrArg (List.map conv) htake⟩
      · exact ⟨hstrings, haccents⟩
  · simp only [hsends, Bool.false_eq_true, ↓reduceIte, loadedAccents, Bool.not_false]
    exact ⟨hstrings, haccents⟩

end Applied

/-- The keyboard after a load whose requests all succeed: the tables are brought up to date with the
maps of the context, the strings with its strings, and the accent table is replaced if there is
anything to send. The load fails for the one reason that an entry does not fit. -/
theorem lkLoadKeymap_keyboard {ioctl : Ioctl} {ctx ctx' : LkCtx} {kbdMode : Int} (dflt : Nat)
    (conv : LkKbdiacr → LkKbdiacr) (k : Keyboard) (hc : lkAddConstants.run ctx = .ok () ctx')
    (h0 : ∀ t, lkMapExists ctx' t = true → lkGetKey ctx' t 0 ≠ kNosuchmap)
    (hok : ∀ q ∈ (lkLoadKeymap ioctl ctx kbdMode).2, q.2 = none) :
    let k' := k.after dflt conv (lkLoadKeymap ioctl ctx kbdMode).2
    (∀ t < maxNrKeymaps, k'.tables t = loadedTable dflt ctx' t (k.tables t)) ∧
    (∀ j < maxNrFunc, k'.strings j = (sentString ctx' j).getD (k.strings j)) ∧
    k'.accents = loadedAccents ctx' conv k.accents ∧
    (lkLoadKeymap ioctl ctx kbdMode).1 = loadsDiacrs ctx' := by
  intro k'
  have hload : lkLoadKeymap ioctl ctx kbdMode = (loadTables ioctl ctx' kbdMode).run [] := by
    unfold lkLoadKeymap
    rw [hc]
  have hissues := loadTables_issues ioctl ctx' kbdMode [] (hload ▸ hok)
  rw [List.nil_append] at hissues
  set reqs := (modeReqs ctx' kUnicode ++ ((List.range maxNrKeymaps).flatMap (mapReqs ctx') ++
    modeReqs ctx' kbdMode)) with hreqs
  have hkeys : ∀ req ∈ reqs, IsKeyOrMode req := by
    intro req hreq
    rw [hreqs, List.mem_append, List.mem_append, List.mem_flatMap] at hreq
    rcases hreq with h | ⟨t, -, h⟩ | h
    · exact isKeyOrMode_of_mem_modeReqs ctx' h
    · exact isKeyOrMode_of_mem_mapReqs ctx' h
    · exact isKeyOrMode_of_mem_modeReqs ctx' h
  have hk' : k' = (k.applyAll dflt conv reqs).applyAll dflt conv (restReqs ctx') := by
    change k.after dflt conv (lkLoadKeymap ioctl ctx kbdMode).2 = _
    rw [hload, hissues, Keyboard.after_succeeded, Keyboard.applyAll_append]
  obtain ⟨hstrings, haccents⟩ := k.applyAll_keys dflt conv hkeys
  obtain ⟨hstrings', haccents'⟩ := (k.applyAll dflt conv reqs).applyAll_restReqs dflt conv ctx'
  refine ⟨fun t ht => ?_, fun j hj => ?_, ?_, ?_⟩
  · rw [← kernelAfter_lkLoadKeymap dflt k.tables hc h0 hok ht]
    have htables : k'.tables = kernelAfter dflt k.tables (lkLoadKeymap ioctl ctx kbdMode).2 := by
      rw [hk', ← Keyboard.applyAll_append, Keyboard.tables_applyAll, hload, hissues,
        kernelAfter_succeeded]
    rw [htables]
  · rw [hk', hstrings' j, if_pos hj, hstrings]
  · rw [hk', haccents', haccents]
  · rw [hload, hissues]

/-! ## Loads in which requests fail -/

/-- The requests that a load of `ctx` can make. -/
inductive LkCtx.Sends (ctx : LkCtx) (kbdMode : Int) : Request → Prop
  | key {t i : Nat} (ht : t < maxNrKeymaps) (hkey : isLoadable ctx t i = true) :
      Sends ctx kbdMode (.kdskbent t i (lkGetKey ctx t i).toNat)
  | clear {t : Nat} (ht : t < maxNrKeymaps) (hmap : lkMapExists ctx t = false)
      (hkeymaps : ctx.keywords.keymaps = true) : Sends ctx kbdMode (.kdskbent t 0 kNosuchmap.toNat)
  | hole {t i : Nat} (ht : t < maxNrKeymaps) (hi : i < nrKeys) (hmap : lkMapExists ctx t = false)
      (hkeymaps : ctx.keywords.keymaps = true) : Sends ctx kbdMode (.kdskbent t i kHole.toNat)
  | mode {mode : Int} (hmode : mode = kUnicode ∨ mode = kbdMode) : Sends ctx kbdMode (.kdskbmode mode)
  | string {i : Nat} {s : List Char} (hi : i < maxNrFunc) (hs : sentString ctx i = some s) :
      Sends ctx kbdMode (.kdskbsent i s)
  | diacrsuc (hsends : sendsDiacrs ctx = true) (hu : ctx.flags.preferUnicode = true) :
      Sends ctx kbdMode (.kdskbdiacruc (sentCount ctx) (sentDiacrs ctx))
  | diacrs (hsends : sendsDiacrs ctx = true) (hu : ctx.flags.preferUnicode = false)
      (hfits : fitsKbdiacr ctx = true) :
      Sends ctx kbdMode (.kdskbdiacr (sentCount ctx) (sentDiacrs ctx))

section Sent

variable (ioctl : Ioctl) (ctx : LkCtx) {kbdMode : Int}

theorem setKeymapTableFrom_sends {t : Nat} (ht : t < maxNrKeymaps) {is : List Nat}
    (his : ∀ i ∈ is, i < nrKeys) (count : Nat) :
    Emits (ctx.Sends kbdMode) (setKeymapTableFrom ioctl ctx t is count) := by
  induction is generalizing count with
  | nil => exact .pure _
  | cons i is ih =>
    rw [List.forall_mem_cons] at his
    have ih := ih his.2
    simp only [setKeymapTableFrom]
    split
    · exact ih count
    · rename_i hx
      split
      · exact ih count
      · rename_i hv
        simp only [Bool.or_eq_true, decide_eq_true_eq, ushrtMax] at hv
        have hval : (lkGetKey ctx t i).toNat % 65536 = (lkGetKey ctx t i).toNat := by omega
        have hkey : isLoadable ctx t i = true := by
          simp only [Bool.not_eq_true, Bool.not_eq_false'] at hx
          simp only [isLoadable, hx, Bool.and_eq_true, decide_eq_true_eq, ushrtMax]
          exact ⟨⟨⟨his.1, trivial⟩, by omega⟩, by omega⟩
        rw [Nat.mod_eq_of_lt ht, Nat.mod_eq_of_lt his.1, hval]
        refine .bind (.lkIoctl (.key ht hkey)) fun e => ?_
        rcases e with - | (- | - | - | n)
        · exact ih _
        · exact .pure _
        · exact .pure _
        · exact ih _
        · exact ih _

theorem clearByHand_sends {t : Nat} (ht : t < maxNrKeymaps) (hmap : lkMapExists ctx t = false)
    (hkeymaps : ctx.keywords.keymaps = true) {is : List Nat} (his : ∀ i ∈ is, i < nrKeys) :
    Emits (ctx.Sends kbdMode) (clearByHand ioctl t is) := by
  induction is with
  | nil => exact .pure _
  | cons i is ih =>
    rw [List.forall_mem_cons] at his
    simp only [clearByHand, Nat.mod_eq_of_lt ht, Nat.mod_eq_of_lt his.1]
    refine .bind (.lkIoctl (.hole ht his.1 hmap hkeymaps)) fun e => ?_
    rcases e with - | (- | - | - | n)
    · exact ih his.2
    · exact .pure _
    · exact .pure _
    · by_cases h : t ≥ 16
      · simp only [h, ↓reduceIte]
        exact .pure _
      · simp only [h, ↓reduceIte]
        exact .pure _
    · exact .pure _

theorem setKeymapTables_sends {ts : List Nat} (hts : ∀ t ∈ ts, t < maxNrKeymaps) (count : Nat) :
    Emits (ctx.Sends kbdMode) (setKeymapTables ioctl ctx ts count) := by
  have hrange : ∀ i ∈ List.range nrKeys, i < nrKeys := fun i hi => List.mem_range.mp hi
  induction ts generalizing count with
  | nil => exact .pure _
  | cons t ts ih =>
    rw [List.forall_mem_cons] at hts
    simp only [setKeymapTables]
    split
    · refine .bind (setKeymapTableFrom_sends ioctl ctx hts.1 hrange 0) fun ct => ?_
      cases ct with
      | none => exact .pure _
      | some ct => exact ih hts.2 _
    · rename_i hmap
      rw [Bool.not_eq_true] at hmap
      split
      · rename_i hkeymaps
        have hclear : Emits (ctx.Sends kbdMode) (clearKeymapTable ioctl t) := by
          simp only [clearKeymapTable, Nat.mod_eq_of_lt hts.1]
          refine .bind (.lkIoctl (.clear hts.1 hmap hkeymaps)) fun e => ?_
          rcases e with - | (- | - | - | n)
          · exact .pure _
          · exact .pure _
          · exact .pure _
          · exact clearByHand_sends ioctl ctx hts.1 hmap hkeymaps hrange
          · exact .pure _
        refine .bind hclear fun ok => ?_
        cases ok with
        | true => exact ih hts.2 _
        | false => exact .pure _
      · exact ih hts.2 _

theorem setKeymap_sends (kbdMode : Int) :
    Emits (ctx.Sends kbdMode) (setKeymap ioctl ctx kbdMode) := by
  have htabs : Emits (ctx.Sends kbdMode) (setKeymapTables ioctl ctx (List.range maxNrKeymaps) 0) :=
    setKeymapTables_sends ioctl ctx (fun t ht => List.mem_range.mp ht) 0
  have hback (count : Option Nat) : Emits (ctx.Sends kbdMode) (do
      if (← lkIoctl ioctl (.kdskbmode kbdMode)).isSome then return none else return count) := by
    refine .bind (.lkIoctl (.mode (.inr rfl))) fun e => ?_
    cases e <;> exact .pure _
  unfold setKeymap
  by_cases hu : ctx.flags.unicodeMode = true
  · simp only [hu, ↓reduceIte]
    refine .bind (.lkIoctl (.mode (.inl rfl))) fun e => ?_
    cases e with
    | some e => exact .pure _
    | none => exact .bind htabs hback
  · simp only [hu, Bool.false_eq_true, ↓reduceIte]
    exact .bind htabs fun _ => .pure _

theorem deffuncsFrom_sends {is : List Nat} (his : ∀ i ∈ is, i < maxNrFunc) (ct : Nat) :
    Emits (ctx.Sends kbdMode) (deffuncsFrom ioctl ctx is ct) := by
  induction is generalizing ct with
  | nil => exact .pure _
  | cons i is ih =>
    rw [List.forall_mem_cons] at his
    have hmod : i % 256 = i := Nat.mod_eq_of_lt his.1
    simp only [deffuncsFrom, hmod]
    cases hi : ctx.funcTable.get i with
    | some ptr =>
      have hs : sentString ctx i = some (ptr.take 511) := by simp [sentString, hi]
      exact .bind (.lkIoctl (.string his.1 hs)) fun e => ih his.2 _
    | none =>
      by_cases hclear : ctx.flags.clearStrings = true
      · have hs : sentString ctx i = some [] := by simp [sentString, hi, hclear]
        simp only [hclear, ↓reduceIte]
        exact .bind (.lkIoctl (.string his.1 hs)) fun e => ih his.2 _
      · simp only [hclear, Bool.false_eq_true, ↓reduceIte]
        exact ih his.2 _

theorem defdiacs_sends (hsends : sendsDiacrs ctx = true) :
    Emits (ctx.Sends kbdMode) (defdiacs ioctl ctx) := by
  have hend {req : Request} (hreq : ctx.Sends kbdMode req) : Emits (ctx.Sends kbdMode) (do
      if (← lkIoctl ioctl req).isSome then return none
      return some (sentCount ctx) : Console (Option Nat)) := by
    refine .bind (.lkIoctl hreq) fun e => ?_
    cases e <;> exact .pure _
  rw [defdiacs_eq]
  split
  · rename_i hu
    exact hend (.diacrsuc hsends hu)
  · rename_i hu
    split
    · exact .pure _
    · rename_i hfits
      exact hend (.diacrs hsends (Bool.eq_false_iff.mpr hu) (by simpa using hfits))

theorem loadRest_sends (keyct : Option Nat) :
    Emits (ctx.Sends kbdMode) (loadRest ioctl ctx keyct) := by
  cases keyct with
  | none => exact .pure _
  | some _ =>
    refine .bind (deffuncsFrom_sends ioctl ctx
      (fun i (hi : i ∈ List.range maxNrFunc) => List.mem_range.mp hi) 0) fun _ => ?_
    split
    · rename_i hsends
      exact .bind (defdiacs_sends ioctl ctx hsends) fun _ => .pure _
    · exact .pure _

/-- The requests of a load are those that the context asks for. -/
theorem lkLoadKeymap_sends {ctx ctx' : LkCtx} (hc : lkAddConstants.run ctx = .ok () ctx') :
    ∀ q ∈ (lkLoadKeymap ioctl ctx kbdMode).2, ctx'.Sends kbdMode q.1 := by
  have hemits : Emits (ctx'.Sends kbdMode) (loadTables ioctl ctx' kbdMode) :=
    .bind (setKeymap_sends ioctl ctx' kbdMode) (loadRest_sends ioctl ctx')
  obtain ⟨ext, hext, hP⟩ := hemits []
  unfold lkLoadKeymap
  rw [hc]
  change ∀ q ∈ ((loadTables ioctl ctx' kbdMode).run []).2, _
  rw [hext]
  exact hP

end Sent

/-- The table is dropped by a load of `ctx`, or a load may do so. -/
def drops (ctx : LkCtx) (t : Nat) : Bool :=
  t < maxNrKeymaps && (!lkMapExists ctx t && ctx.keywords.keymaps ||
    isLoadable ctx t 0 && lkGetKey ctx t 0 = kNosuchmap)

/-- What can become of cell `i` of table `t` while `ctx` is loaded. -/
inductive LkCtx.Leaves (ctx : LkCtx) (dflt : Nat) (k : Keyboard) (t i : Nat) : Option Nat → Prop
  /-- the cell is as before -/
  | same : Leaves ctx dflt k t i (k.tables.cell t i)
  /-- the key of the context -/
  | key (ht : t < maxNrKeymaps) (hkey : isLoadable ctx t i = true)
      (hval : ¬ (i = 0 ∧ lkGetKey ctx t i = kNosuchmap)) :
      Leaves ctx dflt k t i (some (lkGetKey ctx t i).toNat)
  /-- another cell of a new table -/
  | fresh (ht : t < maxNrKeymaps)
      (h : k.tables t = none ∧ lkMapExists ctx t = true ∨ drops ctx t = true) :
      Leaves ctx dflt k t i (some dflt)
  /-- the table is dropped -/
  | dropped (h : drops ctx t = true) : Leaves ctx dflt k t i none
  /-- the table is cleared by hand -/
  | hole (h : drops ctx t = true) : Leaves ctx dflt k t i (some kHole.toNat)

section Safe

variable {ctx : LkCtx} {kbdMode : Int} {dflt : Nat} {conv : LkKbdiacr → LkKbdiacr} {k : Keyboard}

/-- The keyboard during a load of `ctx`, when it was `k` before. -/
structure LkCtx.Reaches (ctx : LkCtx) (dflt : Nat) (conv : LkKbdiacr → LkKbdiacr)
    (k k' : Keyboard) : Prop where
  cells : ∀ t i, ctx.Leaves dflt k t i (k'.tables.cell t i)
  strings : ∀ i, k'.strings i = k.strings i ∨ i < maxNrFunc ∧ sentString ctx i = some (k'.strings i)
  accents : k'.accents = k.accents ∨ k'.accents = loadedAccents ctx conv k.accents

theorem LkCtx.Reaches.refl (ctx : LkCtx) (dflt : Nat) (conv : LkKbdiacr → LkKbdiacr)
    (k : Keyboard) : ctx.Reaches dflt conv k k :=
  ⟨fun _ _ => .same, fun _ => .inl rfl, .inl rfl⟩

variable {k' : Keyboard}

theorem isLoadable_nonneg {t i : Nat} (h : isLoadable ctx t i = true) : 0 ≤ lkGetKey ctx t i := by
  simp only [isLoadable, Bool.and_eq_true, decide_eq_true_eq] at h
  exact h.1.2

theorem lkMapExists_of_isLoadable {t i : Nat} (h : isLoadable ctx t i = true) :
    lkMapExists ctx t = true := by
  simp only [isLoadable, Bool.and_eq_true] at h
  by_contra hno
  rw [Bool.not_eq_true] at hno
  have hrow := row_eq_none_of_not_exists hno (i := i)
  have hx := isSome_row ctx t i
  rw [hrow, h.1.1.2] at hx
  cases hx

/-- A table that is there during the load, or dropped. -/
theorem LkCtx.Reaches.of_none (h : ctx.Reaches dflt conv k k') {t : Nat}
    (hmap : lkMapExists ctx t = true ∨ drops ctx t = true) (hnone : k'.tables t = none) :
    k.tables t = none ∧ lkMapExists ctx t = true ∨ drops ctx t = true := by
  have hcell : k'.tables.cell t 0 = none := by simp [KeyTables.cell, hnone]
  have hleaves := h.cells t 0
  generalize hx : k'.tables.cell t 0 = x at hleaves
  cases hleaves with
  | same =>
    rcases hmap with hmap | hdrops
    · rw [hcell] at hx
      exact .inl ⟨Option.map_eq_none_iff.mp hx.symm, hmap⟩
    · exact .inr hdrops
  | dropped hdrops => exact .inr hdrops
  | key _ _ _ => rw [hcell] at hx; cases hx
  | fresh _ _ => rw [hcell] at hx; cases hx
  | hole _ => rw [hcell] at hx; cases hx

/-- An entry that is stored. -/
theorem LkCtx.Reaches.store (h : ctx.Reaches dflt conv k k') {t i v : Nat} (ht : t < maxNrKeymaps)
    (hmap : lkMapExists ctx t = true ∨ drops ctx t = true)
    (hv : ctx.Leaves dflt k t i (some v)) (hne : ¬ (i = 0 ∧ v = kNosuchmap.toNat)) :
    ctx.Reaches dflt conv k (k'.apply dflt conv (.kdskbent t i v)) := by
  refine ⟨fun t' j => ?_, h.strings, h.accents⟩
  simp only [Keyboard.apply, Request.apply, hne, ↓reduceIte, KeyTables.cell]
  by_cases ht' : t' = t
  · subst ht'
    rw [Function.update_self, Option.map_some]
    by_cases hj : j = i
    · subst hj
      rwa [Function.update_self]
    · rw [Function.update_of_ne hj]
      cases hk : k'.tables t' with
      | none => exact .fresh ht (h.of_none hmap hk)
      | some table =>
        have := h.cells t' j
        rwa [KeyTables.cell, hk] at this
  · rw [Function.update_of_ne ht']
    exact h.cells t' j

/-- A table that is dropped. -/
theorem LkCtx.Reaches.drop (h : ctx.Reaches dflt conv k k') {t : Nat} (hdrops : drops ctx t = true) :
    ctx.Reaches dflt conv k (k'.apply dflt conv (.kdskbent t 0 kNosuchmap.toNat)) := by
  refine ⟨fun t' j => ?_, h.strings, h.accents⟩
  simp only [Keyboard.apply, Request.apply, and_self, ↓reduceIte, KeyTables.cell]
  by_cases ht' : t' = t
  · subst ht'
    rw [Function.update_self]
    exact .dropped hdrops
  · rw [Function.update_of_ne ht']
    exact h.cells t' j

/-- A request of the load. -/
theorem LkCtx.Reaches.apply (h : ctx.Reaches dflt conv k k') {req : Request}
    (hreq : ctx.Sends kbdMode req) : ctx.Reaches dflt conv k (k'.apply dflt conv req) := by
  have hsent : (sentDiacrs ctx).take (sentCount ctx) = sentDiacrs ctx := by
    rw [sentDiacrs, List.take_take, Nat.min_self]
  cases hreq with
  | @key t i ht hkey =>
    have hnonneg := isLoadable_nonneg hkey
    have hiff : (lkGetKey ctx t i).toNat = kNosuchmap.toNat ↔ lkGetKey ctx t i = kNosuchmap := by
      simp only [kNosuchmap]
      omega
    by_cases hdrop : i = 0 ∧ lkGetKey ctx t i = kNosuchmap
    · obtain ⟨rfl, hval⟩ := hdrop
      rw [hval]
      exact h.drop (by simp [drops, ht, hkey, hval])
    · exact h.store ht (.inl (lkMapExists_of_isLoadable hkey)) (.key ht hkey hdrop)
        (by rwa [hiff])
  | @clear t ht hmap hkeymaps => exact h.drop (by simp [drops, ht, hmap, hkeymaps])
  | @hole t i ht hi hmap hkeymaps =>
    have hdrops : drops ctx t = true := by simp [drops, ht, hmap, hkeymaps]
    exact h.store ht (.inr hdrops) (.hole hdrops) (by simp [kHole, kNosuchmap])
  | mode _ => exact h
  | @string i s hi hs =>
    refine ⟨h.cells, fun j => ?_, h.accents⟩
    simp only [Keyboard.apply, Function.update_apply]
    by_cases hj : j = i
    · subst hj
      simp [hi, hs]
    · simp only [hj, ↓reduceIte]
      exact h.strings j
  | diacrsuc hsends hu =>
    refine ⟨h.cells, h.strings, .inr ?_⟩
    simpa [Keyboard.apply, loadedAccents, hsends, hu] using hsent
  | diacrs hsends hu hfits =>
    refine ⟨h.cells, h.strings, .inr ?_⟩
    simp [Keyboard.apply, loadedAccents, hsends, hu, hfits, hsent]

/-- Requests of the load, whatever becomes of them. -/
theorem LkCtx.Reaches.after (h : ctx.Reaches dflt conv k k') {tr : Trace}
    (htr : ∀ q ∈ tr, ctx.Sends kbdMode q.1) :
    ctx.Reaches dflt conv k (k'.after dflt conv tr) := by
  induction tr generalizing k' with
  | nil => exact h
  | cons q tr ih =>
    rw [List.forall_mem_cons] at htr
    have hstep : ctx.Reaches dflt conv k (if q.2 = none then k'.apply dflt conv q.1 else k') := by
      split
      · exact h.apply htr.1
      · exact h
    exact ih hstep htr.2

end Safe

/-- Whatever requests fail, a load puts nothing into the kernel that is not in the context: each cell
is as it was, or has the key of the context, or belongs to a table that is new or dropped; each
string is as it was or that of the context, and the accent table is the old one or the one that was
sent. -/
theorem lkLoadKeymap_safe (ioctl : Ioctl) (ctx : LkCtx) (kbdMode : Int) (dflt : Nat)
    (conv : LkKbdiacr → LkKbdiacr) (k : Keyboard) :
    ((∃ e c, lkAddConstants.run ctx = .error e c) ∧ (lkLoadKeymap ioctl ctx kbdMode).2 = []) ∨
    ∃ ctx', lkAddConstants.run ctx = .ok () ctx' ∧
      ctx'.Reaches dflt conv k (k.after dflt conv (lkLoadKeymap ioctl ctx kbdMode).2) := by
  cases hc : lkAddConstants.run ctx with
  | error e c =>
    left
    refine ⟨⟨e, c, rfl⟩, ?_⟩
    rw [lkLoadKeymap, hc]
  | ok _ ctx' =>
    right
    exact ⟨ctx', rfl, (LkCtx.Reaches.refl ctx' dflt conv k).after (lkLoadKeymap_sends ioctl hc)⟩

end Kbd.Keymap
