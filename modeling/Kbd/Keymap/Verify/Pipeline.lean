import Kbd.Keymap.Verify.Codes
import Kbd.Keymap.Verify.KernelRoundTrip
import Kbd.Keymap.Verify.SameText
import Kbd.Keymap.Verify.Text

/-!
# Saving a keymap as a text and loading it

`dumpkeys` writes what the kernel has, and `loadkeys` reads it and loads a kernel. What this kernel has
in the end is what the first one had, but for the keys that have no lines, the bindings that a shape
with shorthands does not give back, and the last entry of a full accent table (`dumpkeys_loadkeys`).
-/

namespace Kbd.Keymap

open Kbd.Lib

/-! ## The runs of the programs -/

/-- The options with which `dumpkeys` writes the whole keymap. -/
structure DumpkeysOptions.Whole (opts : DumpkeysOptions) : Prop where
  funcsOnly : opts.funcsOnly = false
  keysOnly : opts.keysOnly = false
  diacOnly : opts.diacOnly = false

/-- The options with which `loadkeys` loads the keymap. -/
structure LoadkeysOptions.Loads (opts : LoadkeysOptions) : Prop where
  bkeymap : opts.bkeymap = false
  mktable : opts.mktable = false
  parse : opts.parse = false
  tkeymap : opts.tkeymap = none
  exclusive : (opts.unicode && opts.ascii) = false

theorem dumpkeys_eq {keycodeZero : Bool} {opts : DumpkeysOptions} (hopts : opts.Whole) {mode : Int}
    {r : KernelReader} {c : LkCtx} {keymap : List Char}
    (hrun : (lkKernelKeymap r).run (lkInit (dumpkeysFlags mode)) = .ok () c)
    (hinit : c.keyConstant = .init)
    (hdump : lkDumpKeymap keycodeZero c opts.table opts.style = some keymap) :
    dumpkeys keycodeZero opts (some mode) r =
      some { success := true, output := keymap ++ lkDumpDiacs c } := by
  have hkeymap : (lkDumpKeymap2 keycodeZero opts.table opts.style).run c =
      .ok (some keymap) c := by
    unfold lkDumpKeymap2
    rw [Result.bind_of_ok (lkAddConstants_of_init hinit), ← hdump]
    rfl
  have htext : (dumpkeysText keycodeZero opts).run c =
      .ok (some (keymap ++ lkDumpDiacs c)) c := by
    simp only [dumpkeysText, hopts.diacOnly, hopts.funcsOnly, hopts.keysOnly, Bool.not_false,
      Bool.and_self, ↓reduceIte]
    rw [Result.bind_of_ok hkeymap]
    rfl
  simp only [dumpkeys, hrun, htext]
  rfl

/-- A single file that is accepted. -/
theorem readFiles_singleton {find : FindIncl} {fuel : Nat} {ctx : LkCtx} {fp : Kbdfile} {r : Reader}
    (hparse : lkParseKeymap find fuel ctx emptyStack fp = some (true, r)) (rc : Bool) :
    readFiles find fuel ctx rc [.found fp] = some (.accepted r.parser.ctx) := by
  simp only [readFiles]
  rw [← emptyStack, hparse]

theorem loadkeys_eq (keycodeZero : Bool) (host : Endian) (ioctl : Ioctl) {find : FindIncl}
    {fuel : Nat} {opts : LoadkeysOptions} (hopts : opts.Loads) {mode : Int} {fp : Kbdfile}
    {r : Reader} (hparse : lkParseKeymap find fuel (lkInit (loadkeysFlags opts (some mode)))
      emptyStack fp = some (true, r)) :
    loadkeys keycodeZero host find fuel ioctl opts (some mode) [.found fp] =
      some {
        success := (lkLoadKeymap ioctl r.parser.ctx mode).1
        trace := (lkLoadKeymap ioctl r.parser.ctx mode).2 } := by
  simp only [loadkeys, hopts.exclusive, Option.isNone_some, Bool.and_false, Bool.false_eq_true,
    ↓reduceIte, readFiles_singleton hparse, loadkeysAct, hopts.parse, hopts.bkeymap, hopts.mktable,
    hopts.tkeymap, Option.getD_some]

/-! ## What can be written -/

/-- The tables of a keyboard. -/
def Keyboard.maps (k : Keyboard) : List Nat :=
  (List.range maxNrKeymaps).filter fun t => (k.tables t).isSome

/-- What is printed for the codes, the strings and the accent table of a keyboard stands for them. -/
structure Keyboard.Prints (k : Keyboard) (unicode : Bool) (style : PrintStyle) : Prop where
  cells : ∀ t < maxNrKeymaps, ∀ i < nrKeys, ∀ v, k.tables.cell t i = some v →
    IsReadBack unicode style v
  strings : ∀ i < maxNrFunc, FuncString (k.strings i)
  accents : ∀ d ∈ k.accents, IsAccent unicode d

/-- Key `i` is bound to an action in some table. -/
def Keyboard.Binds (k : Keyboard) (i : Nat) : Prop :=
  ∃ t < maxNrKeymaps, ∃ v, k.tables.cell t i = some v ∧ v ≠ kHole.toNat

/-- Key `i` has lines. -/
def Keyboard.Writes (k : Keyboard) (keycodeZero : Bool) (table : TableShape) (i : Nat) : Prop :=
  i ∈ dumpedKeys keycodeZero ∧ (table = .fullTable ∨ k.Binds i)

section Holds

variable {c : LkCtx} {k : Keyboard} {style : PrintStyle} {table : TableShape}

theorem LkCtx.Holds.total_le (h : c.Holds k) : c.keymap.total ≤ maxNrKeymaps :=
  total_le_of_maps h.tight fun t ht => ((h.maps t).mp ht).1

theorem LkCtx.Holds.maps_eq (h : c.Holds k) : c.maps = k.maps := by
  have hexist (t : Nat) (ht : t ∈ List.range maxNrKeymaps) :
      (k.tables t).isSome = lkMapExists c t := by
    rw [Bool.eq_iff_iff, h.maps]
    exact ⟨fun hs => ⟨List.mem_range.mp ht, hs⟩, And.right⟩
  have hrest : (List.range' c.keymap.total (maxNrKeymaps - c.keymap.total)).filter (lkMapExists c) =
      [] := by
    rw [List.filter_eq_nil_iff]
    intro t ht hex
    have := (List.mem_range'_1.mp ht).1
    exact absurd (lkMapExists_lt hex) (by omega)
  rw [Keyboard.maps, List.filter_congr hexist, ← range_append_range' h.total_le, List.filter_append,
    hrest, List.append_nil]
  rfl

/-- The values of the rows. -/
theorem LkCtx.Holds.rowVal (h : c.Holds k) {t i : Nat} (hi : i < nrKeys) :
    c.rowVal i t = if lkMapExists c t = true then (((k.tables.cell t i).getD 0 : Nat) : Int) else kHole := by
  unfold LkCtx.rowVal
  split
  · rename_i ht
    obtain ⟨hlt, hsome⟩ := (h.maps t).mp ht
    obtain ⟨table, hk⟩ := Option.isSome_iff_exists.mp hsome
    rw [h.lkGetKey hlt hi hk, KeyTables.cell, hk]
    rfl
  · rfl

theorem LkCtx.Holds.binds_iff (h : c.Holds k) {i : Nat} (hi : i < nrKeys) :
    c.allHoles i = false ↔ k.Binds i := by
  have hhole : ((kHole.toNat : Nat) : Int) = kHole := rfl
  rw [LkCtx.allHoles, List.all_eq_false]
  constructor
  · rintro ⟨t, -, hval⟩
    rw [decide_eq_true_eq, h.rowVal hi] at hval
    split at hval
    · rename_i ht
      obtain ⟨hlt, hsome⟩ := (h.maps t).mp ht
      obtain ⟨f, hf⟩ := Option.isSome_iff_exists.mp hsome
      have hcell : k.tables.cell t i = some (f i) := by rw [KeyTables.cell, hf]; rfl
      refine ⟨t, hlt, f i, hcell, fun hv => hval ?_⟩
      rw [hcell, Option.getD_some, hv, hhole]
    · exact absurd rfl hval
  · rintro ⟨t, hlt, v, hcell, hv⟩
    have hsome : (k.tables t).isSome = true := by
      cases hk : k.tables t with
      | none =>
        rw [KeyTables.cell, hk] at hcell
        cases hcell
      | some f => rfl
    have ht : lkMapExists c t = true := (h.maps t).mpr ⟨hlt, hsome⟩
    refine ⟨t, List.mem_range.mpr (lkMapExists_lt ht), ?_⟩
    rw [decide_eq_true_eq, h.rowVal hi, if_pos ht, hcell, Option.getD_some]
    omega

theorem LkCtx.Holds.writes_iff (h : c.Holds k) {keycodeZero : Bool} (i : Nat) :
    c.Writes keycodeZero table i ↔ k.Writes keycodeZero table i :=
  and_congr_right fun hi => or_congr_right (h.binds_iff (mem_dumpedKeys.mp hi).2)

theorem LkCtx.Holds.writable (h : c.Holds k) (hk : k.Valid) (hcharset : c.charset = 0)
    (hprints : k.Prints c.flags.preferUnicode style)
    (hcount : (if table = .fullTable then 2 else 1) ≤ k.maps.length) :
    Writable table style c := by
  refine ⟨h.tight, fun t ht => ((h.maps t).mp ht).1, h.maps_eq ▸ hcount, fun t i hkey => ?_,
    fun i s hs => ?_, h.noHoles, fun d hd => diacrReadsBack hcharset
      (hprints.accents d (h.accents ▸ hd))⟩
  · obtain ⟨ht, hi, hsome⟩ := (h.keys t i).mp hkey
    obtain ⟨f, hf⟩ := Option.isSome_iff_exists.mp hsome
    have hcell : k.tables.cell t i = some (f i) := by rw [KeyTables.cell, hf]; rfl
    have hread := hprints.cells t ht i hi _ hcell
    have hmode : c.flags.preferUnicode = true ∨ f i < 0x1000 := by
      cases hu : c.flags.preferUnicode with
      | true => exact .inl rfl
      | false =>
        have hlow := hread.1
        rw [hu, if_neg Bool.false_ne_true] at hlow
        exact .inr (by omega)
    have hle := hk.cells t i _ hcell
    rw [h.lkGetKey ht hi hf, readsBack_iff_isReadBack hcharset style (by omega) hmode]
    exact hread
  · rw [h.strings] at hs
    split at hs
    · rename_i hi
      have hstring := hprints.strings i hi.1
      rw [List.take_of_length_le hstring.length] at hs
      rw [← Option.some.inj hs]
      exact ⟨hstring, funcReadsBack c hi.1⟩
    · cases hs

end Holds

/-! ## The values that are read -/

section Values

variable {c : LkCtx} {keycodeZero m : Bool} {table : TableShape} {i : Nat} {P : Int → Prop}

/-- What holds of the codes of a key, of Meta codes, of what a letter stands for and of a hole holds of
what is read for the key. -/
theorem restoredVal_of (hval : ∀ t, P (c.rowVal i t)) (hmeta : ∀ v, P (metaOf v)) (hhole : P kHole)
    (hletter : ∀ v, isAsciiLetter v = true → ∀ j, P ((letterDefs v).getD (j % 16) 0)) (t : Nat) :
    P (c.restoredVal m i t) := by
  unfold LkCtx.restoredVal
  split
  · exact hhole
  split
  · rename_i h
    have hascii := (Bool.and_eq_true _ _ ▸ (letterRow_spec h).1).2
    rw [Row.spreadVal_letter hascii]
    exact hletter _ hascii t
  split
  · unfold Row.spreadVal
    split
    · exact hval t
    split
    · exact hmeta _
    unfold Row.spreadCode
    split
    · rename_i hl
      exact hletter _ (Bool.and_eq_true _ _ ▸ hl).2 t
    · exact hval 0
  · unfold Row.lineVal
    split
    · exact hval t
    split
    · exact hmeta _
    · exact hhole

theorem readVal_of (hval : ∀ t, P (c.rowVal i t)) (hmeta : ∀ v, P (metaOf v)) (hhole : P kHole)
    (hletter : ∀ v, isAsciiLetter v = true → ∀ j, P ((letterDefs v).getD (j % 16) 0)) (t : Nat) :
    P (c.readVal keycodeZero table i t) := by
  cases table with
  | fullTable | separateLines => exact hval t
  | default | untilHole => exact restoredVal_of hval hmeta hhole hletter t

/-- The lines of key `i` give its bindings back: those of a shape without shorthands always do. -/
def LkCtx.GivesBack (c : LkCtx) (keycodeZero : Bool) (table : TableShape) (i : Nat) : Prop :=
  WritesShort table → c.Restored (dumpsAltIsMeta keycodeZero c table) i

theorem readVal_eq_iff (hi : i ∈ dumpedKeys keycodeZero) :
    (∀ t, lkMapExists c t = true → c.readVal keycodeZero table i t = c.rowVal i t) ↔
      c.GivesBack keycodeZero table i := by
  have hlong (h : ¬ WritesShort table) (t : Nat) :
      c.readVal keycodeZero table i t = c.rowVal i t := by
    cases table with
    | fullTable | separateLines => rfl
    | default => exact absurd (.inl rfl) h
    | untilHole => exact absurd (.inr rfl) h
  by_cases htable : WritesShort table
  · have hval (t : Nat) : c.readVal keycodeZero table i t =
        c.restoredVal (dumpsAltIsMeta keycodeZero c table) i t := by
      rcases htable with rfl | rfl <;> rfl
    simp only [hval]
    rw [restoredVal_eq_iff (metaForms_of_dumped hi)]
    exact ⟨fun h _ => h, fun h => h htable⟩
  · exact iff_of_true (fun t _ => hlong htable t) fun h => absurd h htable

/-- The codes of a letter are no `K_NOSUCHMAP`. -/
theorem letterDefs_ne_kNosuchmap {v : Int} (h : isAsciiLetter v = true) (t : Nat) :
    (letterDefs v).getD (t % 16) 0 ≠ kNosuchmap := by
  have hall : ∀ n < 123, isAsciiLetter (n : Nat) = true →
      ∀ k < 16, (letterDefs (n : Nat)).getD k 0 ≠ kNosuchmap := by decide +kernel
  have hv : 65 ≤ v ∧ v ≤ 122 := by
    simp only [isAsciiLetter, Bool.or_eq_true, Bool.and_eq_true, decide_eq_true_eq] at h
    omega
  obtain ⟨n, rfl⟩ := Int.eq_ofNat_of_zero_le (show 0 ≤ v by omega)
  exact hall n (by omega) h _ (Nat.mod_lt _ (by decide))

/-- What is read for a key of a kernel can be loaded, and for key 0 it is not the value for no table. -/
theorem LkCtx.Holds.readVal {k : Keyboard} (h : c.Holds k) (hk : k.Valid) (hi : i < nrKeys) (t : Nat) :
    (0 ≤ c.readVal keycodeZero table i t ∧ c.readVal keycodeZero table i t ≤ 65535) ∧
      (i = 0 → c.readVal keycodeZero table i t ≠ kNosuchmap) := by
  refine readVal_of (P := fun v => (0 ≤ v ∧ v ≤ 65535) ∧ (i = 0 → v ≠ kNosuchmap)) (fun t => ?_)
    (fun v => ?_) ⟨by decide, fun _ => by decide⟩ (fun v hv j => ?_) t
  · rw [h.rowVal hi]
    split
    · rename_i ht
      obtain ⟨table, htable⟩ := Option.isSome_iff_exists.mp ((h.maps t).mp ht).2
      have hcell : k.tables.cell t i = some (table i) := by rw [KeyTables.cell, htable]; rfl
      have hle := hk.cells t i _ hcell
      rw [hcell, Option.getD_some]
      refine ⟨by omega, ?_⟩
      rintro rfl hno
      refine hk.heads t (hcell.trans (congrArg some ?_))
      rw [← Int.toNat_natCast (table 0), hno]
    · exact ⟨by decide, fun _ => by decide⟩
  · have h0 := kval_nonneg v
    have h1 := kval_lt v
    simp only [metaOf, K, ktMeta, kNosuchmap]
    omega
  · have hrange := letterDefs_range hv (j % 16)
    exact ⟨by omega, fun _ => letterDefs_ne_kNosuchmap hv j⟩

end Values

/-! ## Loading what has been read -/

section Loaded

variable {c d d' : LkCtx} {k : Keyboard} {keycodeZero : Bool} {table : TableShape}

/-- What is known of the context that is loaded. -/
structure Loads (keycodeZero : Bool) (table : TableShape) (c d' : LkCtx) : Prop where
  keymaps : d'.keywords.keymaps = true
  maps : lkMapExists d' = lkMapExists c
  keys : ∀ t i, isLoadable d' t i = true ↔ lkMapExists c t = true ∧ c.Writes keycodeZero table i
  values : ∀ t i, isLoadable d' t i = true → lkGetKey d' t i = c.readVal keycodeZero table i t
  heads : ∀ t, lkMapExists d' t = true → lkGetKey d' t 0 ≠ kNosuchmap

theorem WrittenAs.loads (h : WrittenAs keycodeZero table c d) (hholds : c.Holds k) (hk : k.Valid)
    (hrun : lkAddConstants.run d = .ok () d') : Loads keycodeZero table c d' := by
  have hu := rowsUpdate_of_run hrun
  have hmaps : lkMapExists d' = lkMapExists c := hu.exist.trans h.maps
  have hrow (i t : Nat) (ht : lkMapExists c t = true) : d'.row i t =
      if c.Writes keycodeZero table i then some (c.readVal keycodeZero table i t) else none := by
    rw [hu.row, h.rows i t ht]
  have hget (i t : Nat) (ht : lkMapExists c t = true) : lkGetKey d' t i =
      if c.Writes keycodeZero table i then c.readVal keycodeZero table i t else kHole := by
    rw [lkGetKey_eq_row (hmaps ▸ ht), hrow i t ht]
    split <;> rfl
  have hkeys (t i : Nat) : isLoadable d' t i = true ↔
      lkMapExists c t = true ∧ c.Writes keycodeZero table i := by
    unfold isLoadable
    simp only [Bool.and_eq_true, decide_eq_true_eq, ← isSome_row, ushrtMax]
    constructor
    · rintro ⟨⟨⟨-, hkey⟩, -⟩, -⟩
      have ht : lkMapExists c t = true := by
        by_contra hno
        rw [row_eq_none_of_not_exists (by rw [hmaps]; exact Bool.eq_false_iff.mpr hno)] at hkey
        cases hkey
      rw [hrow i t ht] at hkey
      split at hkey
      · exact ⟨ht, ‹_›⟩
      · cases hkey
    · rintro ⟨ht, hwrites⟩
      have hi := (mem_dumpedKeys.mp hwrites.1).2
      have hval := (@LkCtx.Holds.readVal c keycodeZero table i k hholds hk hi t).1
      rw [hrow i t ht, hget i t ht, if_pos hwrites, if_pos hwrites]
      exact ⟨⟨⟨hi, rfl⟩, hval.1⟩, hval.2⟩
  refine ⟨?_, hmaps, hkeys, fun t i hload => ?_, fun t ht => ?_⟩
  · rw [hu.settings.keywords]
    exact h.keymaps
  · obtain ⟨ht, hwrites⟩ := (hkeys t i).mp hload
    rw [hget i t ht, if_pos hwrites]
  · rw [hget 0 t (hmaps ▸ ht)]
    split
    · exact (hholds.readVal hk (by decide) t).2 rfl
    · decide

/-- The keyboard `k'` has been loaded over `k₀` with the text of `k`, which was written for the
context `c`. -/
structure Keyboard.LoadedFrom (keycodeZero : Bool) (table : TableShape) (flags : LkFlags) (dflt : Nat)
    (c : LkCtx) (k k₀ k' : Keyboard) : Prop where
  /-- a table that `k` does not have is dropped -/
  dropped : ∀ t < maxNrKeymaps, k.tables t = none → k'.tables t = none
  /-- a key with lines is as in `k`, exactly if its lines give it back -/
  written : ∀ i, k.Writes keycodeZero table i →
    ((∀ t < maxNrKeymaps, k'.tables.cell t i = k.tables.cell t i) ↔ c.GivesBack keycodeZero table i)
  /-- a key without lines is as in `k₀` -/
  kept : ∀ i < nrKeys, ¬ k.Writes keycodeZero table i → ∀ t < maxNrKeymaps,
    (k.tables t).isSome = true → (k₀.tables t).isSome = true →
      k'.tables.cell t i = k₀.tables.cell t i
  /-- or as the kernel makes it in a new table -/
  fresh : ∀ i < nrKeys, ¬ k.Writes keycodeZero table i → ∀ t < maxNrKeymaps,
    (k.tables t).isSome = true → k₀.tables t = none →
      (∃ j, k.Writes keycodeZero table j) → k'.tables.cell t i = some dflt
  strings : ∀ i < maxNrFunc, k'.strings i = if k.strings i ≠ [] then k.strings i
    else if flags.clearStrings = true then [] else k₀.strings i
  accents : k'.accents = if k.accents ≠ [] then k.accents.take (maxDiacr - 1)
    else if flags.clearCompose = true then [] else k₀.accents

section Cells

variable {t i : Nat} (dflt : Nat) (old : Option (Nat → Nat))

theorem Loads.cell_of_writes (h : Loads keycodeZero table c d') (ht : lkMapExists c t = true)
    (hi : c.Writes keycodeZero table i) : (loadedTable dflt d' t old).map (fun table => table i) =
      some (c.readVal keycodeZero table i t).toNat := by
  have hload : isLoadable d' t i = true := (h.keys t i).mpr ⟨ht, hi⟩
  have hany : (List.range nrKeys).any (isLoadable d' t) = true :=
    List.any_eq_true.mpr ⟨i, List.mem_range.mpr (mem_dumpedKeys.mp hi.1).2, hload⟩
  have hmap : lkMapExists d' t = true := h.maps ▸ ht
  simp only [loadedTable, hmap, hany, ↓reduceIte, Option.map_some, hload, h.values t i hload]

theorem Loads.cell_of_not_writes (h : Loads keycodeZero table c d') (ht : lkMapExists c t = true)
    (hi : ¬ c.Writes keycodeZero table i)
    (hnew : old.isSome = true ∨ ∃ j, c.Writes keycodeZero table j) :
    (loadedTable dflt d' t old).map (fun table => table i) =
      some ((old.getD fun _ => dflt) i) := by
  have hload : isLoadable d' t i = false := by
    rw [Bool.eq_false_iff, Ne, h.keys]
    exact fun hno => hi hno.2
  have hmap : lkMapExists d' t = true := h.maps ▸ ht
  simp only [loadedTable, hmap, ↓reduceIte]
  split
  · simp [hload]
  · rename_i hany
    rcases hnew with hsome | ⟨j, hj⟩
    · obtain ⟨f, rfl⟩ := Option.isSome_iff_exists.mp hsome
      rfl
    · refine absurd (List.any_eq_true.mpr ⟨j, ?_, (h.keys t j).mpr ⟨ht, hj⟩⟩) hany
      exact List.mem_range.mpr (mem_dumpedKeys.mp hj.1).2

end Cells

/-- A kernel that is loaded with the context. -/
theorem Loads.loadedFrom (h : Loads keycodeZero table c d') (hholds : c.Holds k) (hk : k.Valid)
    {flags : LkFlags} {dflt : Nat} {k₀ k' : Keyboard}
    (htables : ∀ t < maxNrKeymaps, k'.tables t = loadedTable dflt d' t (k₀.tables t))
    (hstrings : ∀ i < maxNrFunc, k'.strings i = if k.strings i ≠ [] then k.strings i
      else if flags.clearStrings = true then [] else k₀.strings i)
    (haccents : k'.accents = if k.accents ≠ [] then k.accents.take (maxDiacr - 1)
      else if flags.clearCompose = true then [] else k₀.accents) :
    Keyboard.LoadedFrom keycodeZero table flags dflt c k k₀ k' := by
  have hexist (t : Nat) (ht : t < maxNrKeymaps) :
      lkMapExists c t = true ↔ (k.tables t).isSome = true := by
    rw [hholds.maps]
    exact and_iff_right ht
  have hdropped (t : Nat) (ht : t < maxNrKeymaps) (hno : k.tables t = none) :
      k'.tables t = none := by
    have hmap : lkMapExists d' t = false := by
      rw [h.maps, Bool.eq_false_iff, Ne, hexist t ht, hno]
      exact Bool.false_ne_true
    rw [htables t ht, loadedTable, hmap, h.keymaps]
    rfl
  have hwrites (i : Nat) : c.Writes keycodeZero table i ↔ k.Writes keycodeZero table i :=
    hholds.writes_iff i
  refine ⟨hdropped, fun i hkey => ?_, fun i _ hkey t ht hsome hold => ?_,
    fun i _ hkey t ht hsome hold hline => ?_, hstrings, haccents⟩
  · have hi := (hwrites i).mpr hkey
    obtain ⟨-, hlt⟩ := mem_dumpedKeys.mp hi.1
    rw [← readVal_eq_iff hi.1]
    constructor
    · intro hcells t ht
      obtain ⟨htm, hsome⟩ := (hholds.maps t).mp ht
      have hcell := hcells t htm
      rw [KeyTables.cell, htables t htm, h.cell_of_writes dflt _ ht hi] at hcell
      rw [hholds.rowVal hlt, if_pos ht, ← hcell, Option.getD_some,
        Int.toNat_of_nonneg (hholds.readVal hk hlt t).1.1]
    · intro hvals t ht
      cases hsome : k.tables t with
      | none => rw [KeyTables.cell, KeyTables.cell, hdropped t ht hsome, hsome]
      | some f =>
        have hex : lkMapExists c t = true := (hexist t ht).mpr (by rw [hsome]; rfl)
        have hcell : k.tables.cell t i = some (f i) := by rw [KeyTables.cell, hsome]; rfl
        rw [KeyTables.cell, htables t ht, h.cell_of_writes dflt _ hex hi, hvals t hex,
          hholds.rowVal hlt, if_pos hex, hcell, Option.getD_some, Int.toNat_natCast]
  · rw [← hwrites i] at hkey
    rw [KeyTables.cell, htables t ht,
      h.cell_of_not_writes dflt _ ((hexist t ht).mpr hsome) hkey (.inl hold)]
    obtain ⟨f, hf⟩ := Option.isSome_iff_exists.mp hold
    rw [KeyTables.cell, hf]
    rfl
  · rw [← hwrites i] at hkey
    obtain ⟨j, hj⟩ := hline
    rw [KeyTables.cell, htables t ht, h.cell_of_not_writes dflt _ ((hexist t ht).mpr hsome) hkey
      (.inr ⟨j, (hwrites j).mpr hj⟩), hold]
    rfl

end Loaded

/-! ## From one kernel to another -/

/-- The context of a keyboard with other flags. -/
theorem LkCtx.Holds.withFlags {c : LkCtx} {k : Keyboard} (h : c.Holds k) (f : LkFlags) :
    ({ c with flags := f } : LkCtx).Holds k :=
  ⟨h.keywords, h.keyConstant, h.tight, h.maps, h.keys, h.values, h.strings, h.noHoles, h.accents⟩

/-- The kernel that is loaded with a context that has been read from the text. -/
theorem WrittenAs.loadedFrom {keycodeZero : Bool} {table : TableShape} {c d : LkCtx} {k : Keyboard}
    (h : WrittenAs keycodeZero table c d) (hholds : c.Holds k) (hk : k.Valid) (dflt : Nat)
    {conv : LkKbdiacr → LkKbdiacr} (hdiacrs : ∀ dcr ∈ k.accents, KeepsDiacr c.flags conv dcr)
    {ioctl : Ioctl} {mode : Int} (k₀ : Keyboard)
    (hok : ∀ q ∈ (lkLoadKeymap ioctl d mode).2, q.2 = none) :
    (lkLoadKeymap ioctl d mode).1 = true ∧ Keyboard.LoadedFrom keycodeZero table c.flags dflt c k k₀
      (k₀.after dflt conv (lkLoadKeymap ioctl d mode).2) := by
  obtain ⟨d', hrun, hu⟩ := lkAddConstants_run h.ready
  have hloads := h.loads hholds hk hrun
  have hflags : d'.flags = c.flags := hu.settings.flags.trans h.flags
  have hholes : NoHoles d' := by
    intro i
    rw [hu.settings.accentTable]
    exact h.noHoles i
  have hlive : liveDiacrs d' = k.accents := by
    rw [liveDiacrs, hu.settings.accentTable]
    exact h.accents.trans hholds.accents
  obtain ⟨htables, hstrings, haccents, hret⟩ :=
    lkLoadKeymap_keyboard dflt conv k₀ hrun hloads.heads hok
  rw [← hlive, ← hflags] at hdiacrs
  obtain ⟨hrest, hloaded⟩ := hholes.loadedAccents hdiacrs k₀.accents
  rw [hlive, hflags] at hloaded
  refine ⟨by rw [hret, hrest], hloads.loadedFrom hholds hk htables (fun i hi => ?_) ?_⟩
  · have hfunc : d'.funcTable.get i =
        if i < maxNrFunc ∧ k.strings i ≠ [] then some ((k.strings i).take 511) else none := by
      rw [hu.settings.funcTable, h.strings, hholds.strings]
    rw [hstrings i hi, sentString_of_strings hk hi hfunc, hflags]
    by_cases hempty : k.strings i = []
    · by_cases hclear : c.flags.clearStrings = true
      · simp [hempty, hclear]
      · simp [hempty, hclear]
    · simp [hempty]
  · rw [haccents, hloaded]

/-- What `dumpkeys` writes, and how the parser reads it. -/
theorem dumpkeys_read {k : Keyboard} (hk : k.Valid) {mode : Int} {dopts : DumpkeysOptions}
    (hdopts : dopts.Whole) {f : LkFlags} (hprefer : f.preferUnicode = decide (mode = kUnicode))
    (hcount : (if dopts.table = .fullTable then 2 else 1) ≤ k.maps.length)
    (hprints : k.Prints (decide (mode = kUnicode)) dopts.style) (keycodeZero : Bool)
    (find : FindIncl) (id : Nat) (pathname : List Char) :
    ∃ c keymap fuel r, (lkKernelKeymap k.reader).run (lkInit (dumpkeysFlags mode)) = .ok () c ∧
      c.Holds k ∧ lkDumpKeymap keycodeZero c dopts.table dopts.style = some keymap ∧
      dumpkeys keycodeZero dopts (some mode) k.reader =
        some { success := true, output := keymap ++ lkDumpDiacs c } ∧
      lkParseKeymap find fuel (lkInit f) emptyStack ⟨id, pathname, keymap ++ lkDumpDiacs c⟩ =
        some (true, r) ∧
      c.flags.preferUnicode = f.preferUnicode ∧
      WrittenAs keycodeZero dopts.table { c with flags := f } r.parser.ctx := by
  obtain ⟨c, hrun, hholds, hflags, hcharset⟩ := lkKernelKeymap_reader hk (dumpkeysFlags mode) 0
  have hw : Writable dopts.table dopts.style { c with flags := f } :=
    (hholds.withFlags f).writable hk hcharset (hprefer ▸ hprints) hcount
  obtain ⟨keymap, hdump, htriple⟩ := @Writable.textTriple_lkDumpKeymap find keycodeZero _ _ _ hw
  have hpf : f.preferUnicode = c.flags.preferUnicode := by
    rw [hflags]
    exact hprefer
  rw [lkDumpKeymap_withFlags hholds.total_le] at hdump
  rw [@lkDumpDiacs_congr c { c with flags := f } hpf rfl hholds.noHoles hw.noHoles rfl] at htriple
  have hstart : lkInit ({ c with flags := f } : LkCtx).flags c.charset = lkInit f := by rw [hcharset]
  obtain ⟨fuel, r, hparse, hwritten⟩ :=
    @TextTriple.accepted find _ (lkInit f) ⟨id, pathname, keymap ++ lkDumpDiacs c⟩
      (htriple.mono (fun d hd => hd.trans hstart.symm) fun d hd => hd)
  exact ⟨c, keymap, fuel, r, hrun, hholds, hdump,
    dumpkeys_eq hdopts hrun hholds.keyConstant hdump, hparse, hpf.symm, hwritten⟩

/-- Both programs one after the other. -/
theorem dumpkeys_loadkeys {k : Keyboard} (hk : k.Valid) {mode : Int} {dopts : DumpkeysOptions}
    {lopts : LoadkeysOptions} (hdopts : dopts.Whole) (hlopts : lopts.Loads)
    (hprefer : (loadkeysFlags lopts (some mode)).preferUnicode = decide (mode = kUnicode))
    (hcount : (if dopts.table = .fullTable then 2 else 1) ≤ k.maps.length)
    (hprints : k.Prints (decide (mode = kUnicode)) dopts.style) (dflt : Nat)
    (conv : LkKbdiacr → LkKbdiacr)
    (hdiacrs : ∀ d ∈ k.accents, KeepsDiacr (loadkeysFlags lopts (some mode)) conv d)
    (keycodeZero : Bool) (host : Endian) (find : FindIncl) (id : Nat) (pathname : List Char) :
    ∃ c text fuel, (lkKernelKeymap k.reader).run (lkInit (dumpkeysFlags mode)) = .ok () c ∧
      dumpkeys keycodeZero dopts (some mode) k.reader = some { success := true, output := text } ∧
      ∀ (ioctl : Ioctl) (k₀ : Keyboard), ∃ run, loadkeys keycodeZero host find fuel ioctl lopts
          (some mode) [.found ⟨id, pathname, text⟩] = some run ∧ run.output = [] ∧
        ((∀ q ∈ run.trace, q.2 = none) → run.success = true ∧
          Keyboard.LoadedFrom keycodeZero dopts.table (loadkeysFlags lopts (some mode)) dflt c k k₀
            (k₀.after dflt conv run.trace)) := by
  obtain ⟨c, keymap, fuel, r, hrun, hholds, -, htext, hparse, -, hwritten⟩ :=
    dumpkeys_read hk hdopts hprefer hcount hprints keycodeZero find id pathname
  refine ⟨c, _, fuel, hrun, htext,
    fun ioctl k₀ => ⟨_, loadkeys_eq keycodeZero host ioctl hlopts hparse, rfl, fun hok => ?_⟩⟩
  obtain ⟨hret, hloaded⟩ := hwritten.loadedFrom (hholds.withFlags _) hk dflt hdiacrs k₀ hok
  exact ⟨hret, hloaded.dropped, hloaded.written, hloaded.kept, hloaded.fresh, hloaded.strings,
    hloaded.accents⟩

theorem smallKeyboard_prints : smallKeyboard.Prints true { stdout := true } := by
  refine ⟨fun t _ i _ v hv => ?_, fun i _ => ?_, fun d hd => ?_⟩
  · rcases cell_smallKeyboard hv with ⟨rfl, -⟩ | rfl <;> decide
  · have hstring : smallKeyboard.strings i = ['\x1b', '[', '[', 'A'] ∨ smallKeyboard.strings i = [] := by
      simp only [smallKeyboard]
      split
      · exact .inl rfl
      · exact .inr rfl
    rcases hstring with h | h <;> rw [h] <;> exact ⟨by simp, by simp, by simp⟩
  · obtain rfl := List.mem_singleton.mp hd
    exact ⟨by decide, by decide, by decide, by decide⟩

theorem dumpkeys_loadkeys_small : ∃ text fuel,
    dumpkeys false { table := .separateLines } (some kUnicode) smallKeyboard.reader =
      some { success := true, output := text } ∧
    ∀ (ioctl : Ioctl) (k₀ : Keyboard), ∃ run, loadkeys false .little (findText []) fuel ioctl {}
        (some kUnicode) [.found ⟨0, [], text⟩] = some run ∧
      ((∀ q ∈ run.trace, q.2 = none) →
        let k' := k₀.after kHole.toNat id run.trace
        run.success = true ∧ k'.tables 1 = none ∧ k'.tables.cell 0 30 = some 0xb61 ∧
          k'.strings 0 = ['\x1b', '[', '[', 'A'] ∧ k'.accents = [⟨0x60, 0x41, 0xc0⟩]) := by
  obtain ⟨c, text, fuel, -, hdump, hload⟩ := @dumpkeys_loadkeys _ smallKeyboard_valid kUnicode
    { table := .separateLines } {} ⟨rfl, rfl, rfl⟩ ⟨rfl, rfl, rfl, rfl, rfl⟩ rfl (by decide)
    smallKeyboard_prints kHole.toNat id (fun _ _ => .inl rfl) false .little (findText []) 0 []
  refine ⟨text, fuel, hdump, fun ioctl k₀ => ?_⟩
  obtain ⟨run, hrun, -, hloaded⟩ := hload ioctl k₀
  refine ⟨run, hrun, fun hok => ?_⟩
  obtain ⟨hret, h⟩ := hloaded hok
  have hwrites : smallKeyboard.Writes false .separateLines 30 :=
    ⟨by decide, .inr ⟨0, by decide, 0xb61, by decide, by decide⟩⟩
  have hback : c.GivesBack false .separateLines 30 := fun hshort => by
    rcases hshort with hno | hno <;> cases hno
  exact ⟨hret, h.dropped 1 (by decide) rfl, (h.written 30 hwrites).mpr hback 0 (by decide),
    h.strings 0 (by decide), h.accents⟩

end Kbd.Keymap
