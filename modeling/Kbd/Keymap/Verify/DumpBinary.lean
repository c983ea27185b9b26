import Kbd.Keymap.DumpBinary
import Kbd.Keymap.Verify.Kmap
import Kbd.Lib.Result

/-!
# Binary keymaps

What `lk_dump_bkeymap` writes for a value are the first two bytes of an `int`. Where the low bytes come
first these are the value as an `unsigned short`, and elsewhere they are its high part, which is zero.
The file has the layout on a host of the second kind only if all values are zero.
-/

namespace Kbd.Keymap

open Kbd.Lib

/-- The tables that exist, in order. -/
def bkeymapTables (ctx : LkCtx) : List Nat := (List.range maxNrKeymaps).filter (lkMapExists ctx ·)

/-- A value is written for key `j` of table `i`. -/
def InBkeymap (ctx : LkCtx) (i j : Nat) : Prop :=
  i < maxNrKeymaps ∧ lkMapExists ctx i = true ∧ j < bkeymapKeys

/-- The value is one that an `unsigned short` holds. -/
def IsUshort (value : Int) : Prop := 0 ≤ value ∧ value ≤ 65535

/-- The values of a table. -/
def tableValues (ctx : LkCtx) (i : Nat) : List Nat :=
  (List.range bkeymapKeys).map fun j => (lkGetKey ctx i j).toNat

/-- The bindings of a context, as far as the format has them. -/
def bkeymapBindings (ctx : LkCtx) : List (Option (List Nat)) :=
  (List.range maxNrKeymaps).map fun i =>
    if lkMapExists ctx i then some (tableValues ctx i) else none

/-- The file is the binary keymap of a context: the magic, a flag for each table, and the values of the
tables that exist as integers of the host. It is read back as the bindings. -/
structure IsBkeymap (host : Endian) (ctx : LkCtx) (file : List UInt8) : Prop where
  layout : file = bkeymapMagic ++ (List.range maxNrKeymaps).map (bkeymapFlag ctx) ++
    (bkeymapTables ctx).flatMap fun i => (tableValues ctx i).flatMap (host.store 2)
  readBack : readBkeymap host file = some (bkeymapBindings ctx)

/-! ## What is written -/

/-- A success appends `out` and means that `p` holds, and where all writes fit `p` is enough. -/
structure Appends (fits : List UInt8 → List UInt8 → Bool) (m : ToFile Unit) (out : List UInt8)
    (p : Prop) : Prop where
  ok : ∀ file file', m.run file = .ok () file' → p ∧ file' = file ++ out
  run : (∀ file b, fits file b = true) → p → ∀ file, m.run file = .ok () (file ++ out)

namespace Appends

variable {fits : List UInt8 → List UInt8 → Bool} {m m' : ToFile Unit} {out out' : List UInt8}
  {p q : Prop}

theorem of_fwrite (b : List UInt8) : Appends fits (fwrite fits b) b True := by
  have hrun (file : List UInt8) : (fwrite fits b).run file =
      if fits file b then .ok () (file ++ b) else .error .write file := by
    rw [fwrite, EStateM.run_bind]
    change EStateM.run (if fits file b = true then _ else _) file = _
    split
    · rfl
    · rfl
  refine ⟨fun file file' h => ?_, fun hfits _ file => ?_⟩
  · rw [hrun] at h
    split at h
    · cases h
      exact ⟨trivial, rfl⟩
    · cases h
  · rw [hrun, if_pos (hfits file b)]

theorem of_pure : Appends fits (pure ()) [] True := by
  refine ⟨fun file file' h => ?_, fun _ _ file => ?_⟩
  · cases h
    exact ⟨trivial, (List.append_nil file).symm⟩
  · rw [List.append_nil]
    rfl

theorem seq (h : Appends fits m out p) (h' : Appends fits m' out' q) :
    Appends fits (do m; m') (out ++ out') (p ∧ q) := by
  refine ⟨fun file file' hrun => ?_, fun hfits hpq file => ?_⟩
  · obtain ⟨mid, hm, hm'⟩ := Result.seq_eq_ok.mp hrun
    obtain ⟨hp, rfl⟩ := h.ok file mid hm
    obtain ⟨hq, rfl⟩ := h'.ok _ _ hm'
    exact ⟨⟨hp, hq⟩, List.append_assoc ..⟩
  · rw [Result.bind_of_ok (h.run hfits hpq.1 file), h'.run hfits hpq.2, List.append_assoc]

/-- A check before a writer. -/
theorem guard {c : Prop} [Decidable c] (e : BkeymapErr) (h : Appends fits m out p) :
    Appends fits (do
      if c then
        throw e
      m) out (¬ c ∧ p) := by
  refine ⟨fun file file' hrun => ?_, fun hfits hcp file => ?_⟩
  · by_cases hc : c
    · rw [if_pos hc] at hrun
      cases hrun
    · rw [if_neg hc] at hrun
      obtain ⟨hp, hout⟩ := h.ok file file' hrun
      exact ⟨⟨hc, hp⟩, hout⟩
  · rw [if_neg hcp.1]
    exact h.run hfits hcp.2 file

theorem congr (h : Appends fits m out p) (hout : out = out') (hpq : p ↔ q) :
    Appends fits m out' q := by
  rwa [← hout, ← propext hpq]

theorem forM {ι : Type} {f : ι → ToFile Unit} {out : ι → List UInt8} {p : ι → Prop}
    (h : ∀ a, Appends fits (f a) (out a) (p a)) (l : List ι) :
    Appends fits (l.forM f) (l.flatMap out) (∀ a ∈ l, p a) := by
  induction l with
  | nil => simpa using of_pure
  | cons a l ih =>
    rw [List.forall_mem_cons, List.flatMap_cons]
    exact (h a).seq ih

end Appends

section Write

variable (fits : List UInt8 → List UInt8 → Bool) (host : Endian) (ctx : LkCtx)

/-- The bytes that are written for a value. -/
def valueBytes (value : Nat) : List UInt8 := (host.store 4 value).take 2

theorem appends_key (i j : Nat) :
    Appends fits (writeBkeymapKey fits host ctx i j) (valueBytes host (lkGetKey ctx i j).toNat)
      (IsUshort (lkGetKey ctx i j)) := by
  refine ((Appends.of_fwrite _).guard _).congr rfl ?_
  rw [IsUshort, and_true]
  omega

theorem appends_table (i : Nat) :
    Appends fits (writeBkeymapTable fits host ctx i)
      (if lkMapExists ctx i then (tableValues ctx i).flatMap (valueBytes host) else [])
      (lkMapExists ctx i = true → ∀ j < bkeymapKeys, IsUshort (lkGetKey ctx i j)) := by
  unfold writeBkeymapTable
  by_cases hm : lkMapExists ctx i = true
  · simp only [hm, Bool.not_true, Bool.false_eq_true, ↓reduceIte, forall_const]
    refine (Appends.forM (appends_key fits host ctx i) _).congr ?_ ?_
    · rw [tableValues, List.flatMap_map]
    · simp only [List.mem_range]
  · simp only [hm, Bool.not_false, ↓reduceIte]
    exact Appends.of_pure.congr rfl (by simp)

theorem flatMap_filter_eq {α β : Type} (p : α → Bool) (f : α → List β) (l : List α) :
    (l.filter p).flatMap f = l.flatMap fun a => if p a then f a else [] := by
  induction l with
  | nil => rfl
  | cons a l ih =>
    by_cases h : p a = true
    · simp [h, ih]
    · simp [h, ih]

/-- All that is written, and what makes it fail. -/
theorem appends_bkeymap :
    Appends fits (writeBkeymap fits host ctx)
      (bkeymapMagic ++ (List.range maxNrKeymaps).map (bkeymapFlag ctx) ++
        (bkeymapTables ctx).flatMap fun i => (tableValues ctx i).flatMap (valueBytes host))
      (∀ i j, InBkeymap ctx i j → IsUshort (lkGetKey ctx i j)) := by
  have hflag (i : Nat) : Appends fits (fwrite fits [bkeymapFlag ctx i]) [bkeymapFlag ctx i] True :=
    Appends.of_fwrite _
  have hflags := Appends.forM hflag (List.range maxNrKeymaps)
  have htables := Appends.forM (appends_table fits host ctx) (List.range maxNrKeymaps)
  refine ((Appends.of_fwrite bkeymapMagic).seq (hflags.seq htables)).congr ?_ ?_
  · rw [List.append_assoc, bkeymapTables, flatMap_filter_eq, List.map_eq_flatMap]
  · simp only [List.mem_range, InBkeymap]
    constructor
    · rintro ⟨-, -, h⟩ i j ⟨hi, hm, hj⟩
      exact h i hi hm j hj
    · intro h
      exact ⟨trivial, fun _ _ => trivial, fun i hi hm j hj => h i j ⟨hi, hm, hj⟩⟩

end Write

/-! ## The two bytes of a value -/

theorem valueBytes_little (value : Nat) : valueBytes .little value = Endian.little.store 2 value :=
  Endian.take_store_little 2 2 value

theorem valueBytes_big (value : Nat) :
    valueBytes .big value = Endian.big.store 2 (value / 65536) :=
  Endian.take_store_big 2 2 value

theorem store_eq_store_iff (host : Endian) {m n : Nat} (hm : m < 65536) (hn : n < 65536) :
    host.store 2 m = host.store 2 n ↔ m = n := by
  constructor
  · intro h
    have hload {v : Nat} (hv : v < 256 ^ 2) : host.load (host.store 2 v) = v := host.load_store hv
    rw [← hload hm, h, hload hn]
  · rintro rfl
    rfl

/-- The bytes are those of an `unsigned short`. -/
theorem valueBytes_eq_iff (host : Endian) {value : Nat} (h : value < 65536) :
    valueBytes host value = host.store 2 value ↔ host = .little ∨ value = 0 := by
  cases host with
  | little => simp [valueBytes_little]
  | big =>
    rw [valueBytes_big, store_eq_store_iff .big (by omega) h]
    simp only [reduceCtorEq, false_or]
    omega

/-! ## Reading back -/

theorem readShorts_flatMap (host : Endian) {values : List Nat} (h : ∀ v ∈ values, v < 65536)
    (rest : List UInt8) :
    readShorts host values.length (values.flatMap (host.store 2) ++ rest) = some (values, rest) := by
  induction values with
  | nil => rfl
  | cons v values ih =>
    rw [List.forall_mem_cons] at h
    obtain ⟨b, b', hb⟩ : ∃ b b', host.store 2 v = [b, b'] :=
      List.length_eq_two.mp (host.length_store 2 v)
    have hload : host.load (host.store 2 v) = v := host.load_store h.1
    rw [hb] at hload
    rw [List.flatMap_cons, hb]
    simp [readShorts, ih h.2, hload]

/-- The flags and the values of tables are read back as these tables. -/
theorem readTables_flatMap (host : Endian) (ctx : LkCtx) (is : List Nat)
    (h : ∀ i ∈ is, lkMapExists ctx i = true → ∀ v ∈ tableValues ctx i, v < 65536) :
    readTables host (is.map (bkeymapFlag ctx))
        (is.flatMap fun i =>
          if lkMapExists ctx i then (tableValues ctx i).flatMap (host.store 2) else []) =
      some (is.map fun i => if lkMapExists ctx i then some (tableValues ctx i) else none) := by
  induction is with
  | nil => rfl
  | cons i is ih =>
    rw [List.forall_mem_cons] at h
    have hrest := ih h.2
    rw [List.map_cons, List.flatMap_cons, List.map_cons, readTables]
    by_cases hm : lkMapExists ctx i = true
    · have hlen : (tableValues ctx i).length = bkeymapKeys := by simp [tableValues]
      have hread := readShorts_flatMap host (h.1 hm) (is.flatMap fun i =>
          if lkMapExists ctx i then (tableValues ctx i).flatMap (host.store 2) else [])
      rw [hlen] at hread
      simp [bkeymapFlag, hm, hread, hrest]
    · simp [bkeymapFlag, hm, hrest]

section Layout

variable {host : Endian} {ctx : LkCtx}

theorem mem_bkeymapTables {i : Nat} :
    i ∈ bkeymapTables ctx ↔ i < maxNrKeymaps ∧ lkMapExists ctx i = true := by
  simp [bkeymapTables]

/-- A property of all values that are written. -/
theorem forall_tableValues {P : Nat → Prop} :
    (∀ i ∈ bkeymapTables ctx, ∀ v ∈ tableValues ctx i, P v) ↔
      ∀ i j, InBkeymap ctx i j → P (lkGetKey ctx i j).toNat := by
  simp only [mem_bkeymapTables, tableValues, List.mem_map, List.mem_range, InBkeymap]
  constructor
  · rintro h i j ⟨hi, hm, hj⟩
    exact h i ⟨hi, hm⟩ _ ⟨j, hj, rfl⟩
  · rintro h i ⟨hi, hm⟩ v ⟨j, hj, rfl⟩
    exact h i j ⟨hi, hm, hj⟩

theorem values_lt (h : ∀ i j, InBkeymap ctx i j → IsUshort (lkGetKey ctx i j)) :
    ∀ i ∈ bkeymapTables ctx, ∀ v ∈ tableValues ctx i, v < 65536 := by
  refine forall_tableValues.mpr fun i j hij => ?_
  have hv := h i j hij
  rw [IsUshort] at hv
  omega

theorem readBkeymap_layout (h : ∀ i j, InBkeymap ctx i j → IsUshort (lkGetKey ctx i j)) :
    readBkeymap host (bkeymapMagic ++ (List.range maxNrKeymaps).map (bkeymapFlag ctx) ++
      (bkeymapTables ctx).flatMap fun i => (tableValues ctx i).flatMap (host.store 2)) =
      some (bkeymapBindings ctx) := by
  have hmagic : bkeymapMagic.length = 7 := rfl
  have hflags : ((List.range maxNrKeymaps).map (bkeymapFlag ctx)).length = maxNrKeymaps := by simp
  have htables := readTables_flatMap host ctx (List.range maxNrKeymaps) fun i hi hm =>
    values_lt h i (mem_bkeymapTables.mpr ⟨List.mem_range.mp hi, hm⟩)
  rw [← flatMap_filter_eq] at htables
  generalize (List.range maxNrKeymaps).map (bkeymapFlag ctx) = flags at hflags htables ⊢
  have hhead : (bkeymapMagic ++ flags).length = 7 + maxNrKeymaps := by
    rw [List.length_append, hmagic, hflags]
  have hlen (l : List UInt8) : 7 + maxNrKeymaps ≤ (bkeymapMagic ++ flags ++ l).length := by
    rw [List.length_append, hhead]
    omega
  rw [readBkeymap, if_pos ⟨by rw [List.append_assoc, List.take_left' hmagic], hlen _⟩,
    List.drop_left' hhead, List.append_assoc, List.drop_left' hmagic, List.take_left' hflags]
  exact htables

/-- What is written has the layout when every value is written as an `unsigned short`. -/
theorem written_eq_iff (h : ∀ i j, InBkeymap ctx i j → IsUshort (lkGetKey ctx i j)) :
    IsBkeymap host ctx (bkeymapMagic ++ (List.range maxNrKeymaps).map (bkeymapFlag ctx) ++
        (bkeymapTables ctx).flatMap fun i => (tableValues ctx i).flatMap (valueBytes host)) ↔
      host = .little ∨ ∀ i j, InBkeymap ctx i j → lkGetKey ctx i j = 0 := by
  have hlen (v : Nat) : (valueBytes host v).length = (host.store 2 v).length := by
    rw [valueBytes, List.length_take, host.length_store, host.length_store]
    rfl
  have hbytes : ((bkeymapTables ctx).flatMap fun i => (tableValues ctx i).flatMap (valueBytes host)) =
        ((bkeymapTables ctx).flatMap fun i => (tableValues ctx i).flatMap (host.store 2)) ↔
      host = .little ∨ ∀ i j, InBkeymap ctx i j → lkGetKey ctx i j = 0 := by
    rw [← List.flatMap_assoc, ← List.flatMap_assoc, flatMap_eq_flatMap_iff hlen]
    have hval : (∀ i ∈ bkeymapTables ctx, ∀ v ∈ tableValues ctx i,
          valueBytes host v = host.store 2 v) ↔
        ∀ i j, InBkeymap ctx i j → host = .little ∨ lkGetKey ctx i j = 0 := by
      rw [forall_tableValues]
      refine forall₃_congr fun i j hij => ?_
      have hv := h i j hij
      rw [IsUshort] at hv
      rw [valueBytes_eq_iff host (by omega), Int.toNat_eq_zero]
      have : lkGetKey ctx i j ≤ 0 ↔ lkGetKey ctx i j = 0 := by omega
      rw [this]
    rw [List.forall_mem_flatMap, hval]
    cases host with
    | little => simp
    | big => simp
  constructor
  · intro hb
    exact hbytes.mp (List.append_cancel_left hb.layout)
  · intro hc
    have heq := hbytes.mpr hc
    rw [heq]
    exact ⟨rfl, readBkeymap_layout h⟩

end Layout

/-! ## The dump -/

/-- What is asked of the dump of a context: a file that it leaves is the binary keymap of the context
with its single values spread, and it fails when one of the values is not an `unsigned short`. -/
structure DumpsBkeymap (fits : List UInt8 → List UInt8 → Bool) (host : Endian) (ctx : LkCtx) :
    Prop where
  file : ∀ file, (lkDumpBkeymap fits host ctx).run [] = .ok () file →
    ∃ ctx', lkAddConstants.run ctx = .ok () ctx' ∧ IsBkeymap host ctx' file
  range : ∀ ctx', lkAddConstants.run ctx = .ok () ctx' →
    (∃ i j, InBkeymap ctx' i j ∧ ¬ IsUshort (lkGetKey ctx' i j)) →
      ∀ file, (lkDumpBkeymap fits host ctx).run [] ≠ .ok () file

theorem lkDumpBkeymap_of_constants {ctx ctx' : LkCtx} (h : lkAddConstants.run ctx = .ok () ctx')
    (fits : List UInt8 → List UInt8 → Bool) (host : Endian) :
    lkDumpBkeymap fits host ctx = writeBkeymap fits host ctx' := by
  rw [lkDumpBkeymap, h]

theorem lkDumpBkeymap_of_error {ctx ctx' : LkCtx} {e : LkErr}
    (h : lkAddConstants.run ctx = .error e ctx') (fits : List UInt8 → List UInt8 → Bool)
    (host : Endian) (file : List UInt8) : (lkDumpBkeymap fits host ctx).run [] ≠ .ok () file := by
  rw [lkDumpBkeymap, h]
  intro h
  cases h

/-- A context whose single values are spread already, all in range. -/
theorem dumpsBkeymap_of_range {host : Endian} {ctx ctx' : LkCtx}
    (hconst : lkAddConstants.run ctx = .ok () ctx')
    (hval : ∀ i j, InBkeymap ctx' i j → IsUshort (lkGetKey ctx' i j)) :
    (∀ fits, DumpsBkeymap fits host ctx) ↔
      host = .little ∨ ∀ i j, InBkeymap ctx' i j → lkGetKey ctx' i j = 0 := by
  have hdump := lkDumpBkeymap_of_constants hconst
  rw [← written_eq_iff hval]
  constructor
  · intro h
    have hrun := (appends_bkeymap _ host ctx').run (fun _ _ => rfl) hval []
    rw [← hdump fun _ _ => true] at hrun
    obtain ⟨c, hc, hb⟩ := (h fun _ _ => true).file _ hrun
    rw [hconst] at hc
    cases hc
    exact hb
  · intro h fits
    refine ⟨fun file hrun => ⟨ctx', hconst, ?_⟩, fun c hc ⟨i, j, hij, hne⟩ => ?_⟩
    · rw [hdump] at hrun
      obtain ⟨-, rfl⟩ := (appends_bkeymap fits host ctx').ok [] file hrun
      exact h
    · rw [hconst] at hc
      cases hc
      exact absurd (hval i j hij) hne

/-- A value that is out of range makes the dump fail. -/
theorem dumpsBkeymap_of_not_range {ctx ctx' : LkCtx} (hconst : lkAddConstants.run ctx = .ok () ctx')
    {i j : Nat} (hij : InBkeymap ctx' i j) (hne : ¬ IsUshort (lkGetKey ctx' i j))
    (fits : List UInt8 → List UInt8 → Bool) (host : Endian) : DumpsBkeymap fits host ctx := by
  have hfail (file : List UInt8) : (lkDumpBkeymap fits host ctx).run [] ≠ .ok () file := by
    intro hrun
    rw [lkDumpBkeymap_of_constants hconst] at hrun
    exact hne (((appends_bkeymap fits host ctx').ok [] file hrun).1 i j hij)
  exact ⟨fun file hrun => absurd hrun (hfail file), fun _ _ _ => hfail⟩

/-- The dump is right where the low bytes of an integer come first. Elsewhere it is right when the
values are all zero, or one of them is out of range, so that it fails. -/
theorem dumpsBkeymap_iff (host : Endian) (ctx : LkCtx) :
    (∀ fits, DumpsBkeymap fits host ctx) ↔
      host = .little ∨ ∀ ctx', lkAddConstants.run ctx = .ok () ctx' →
        (∃ i j, InBkeymap ctx' i j ∧ ¬ IsUshort (lkGetKey ctx' i j)) ∨
          ∀ i j, InBkeymap ctx' i j → lkGetKey ctx' i j = 0 := by
  cases hconst : lkAddConstants.run ctx with
  | error e ctx' =>
    have hne := lkDumpBkeymap_of_error hconst
    refine iff_of_true (fun fits => ⟨fun file h => absurd h (hne fits host file), ?_⟩)
      (.inr fun c h => nomatch h)
    intro c h
    rw [hconst] at h
    cases h
  | ok a ctx' =>
    by_cases hval : ∀ i j, InBkeymap ctx' i j → IsUshort (lkGetKey ctx' i j)
    · rw [dumpsBkeymap_of_range hconst hval]
      refine or_congr_right ⟨fun h c hc => ?_, fun h => ?_⟩
      · cases hc
        exact .inr h
      · refine (h ctx' rfl).resolve_left ?_
        rintro ⟨i, j, hij, hne⟩
        exact hne (hval i j hij)
    · simp only [not_forall] at hval
      obtain ⟨i, j, hij, hne⟩ := hval
      refine iff_of_true (fun fits => dumpsBkeymap_of_not_range hconst hij hne fits host) (.inr ?_)
      intro c hc
      cases hc
      exact .inl ⟨i, j, hij, hne⟩

/-- One empty table: its keys are all holes, and a hole is not zero. -/
theorem not_dumpsBkeymap_empty_table :
    ¬ ∀ (fits : List UInt8 → List UInt8 → Bool) (host : Endian) (ctx : LkCtx),
      DumpsBkeymap fits host ctx := by
  intro h
  set ctx : LkCtx := (lkInit).addMap 0
  have hkey (i j : Nat) (hm : lkMapExists ctx i = true) : lkGetKey ctx i j = kHole := by
    have hrow : ctx.row j i = none := by
      rw [row_addMap]
      simp [lkInit, LkCtx.row, lkKeyExists]
    rw [lkGetKey_eq_row hm, hrow]
    rfl
  have hval : ∀ i j, InBkeymap ctx i j → IsUshort (lkGetKey ctx i j) := by
    rintro i j ⟨-, hm, -⟩
    rw [hkey i j hm]
    exact ⟨by decide, by decide⟩
  rcases (dumpsBkeymap_of_range rfl hval).mp (fun fits => h fits .big ctx) with hbig | hzero
  · cases hbig
  · have h0 := hzero 0 0 ⟨by decide, by decide, by decide⟩
    rw [hkey 0 0 (by decide)] at h0
    revert h0
    decide

end Kbd.Keymap
