import Kbd.Keymap.Verify.Letters
import Kbd.Keymap.Verify.MetaCells
import Kbd.Keymap.Verify.RoundTrip
import Kbd.Keymap.Verify.ShortRow
import Mathlib.Data.List.TakeWhile

/-!
# Reading the shapes with shorthands

Each key has a line with a number of values (`lineLength`) and lines for its exceptions
(`isException`). They are read into the row `readRow`, from the row without bindings.
-/

namespace Kbd.Keymap

open Kbd.Lib

/-! ## The lines of a key -/

section Lines

variable (c : LkCtx) (m : Bool) (i : Nat)

/-- The number of values in the line of a key, other than a letter. -/
def LkCtx.lineLength : Nat :=
  if c.isSingle m i then if c.rowVal i 0 ≠ kHole then 1 else 0
  else ((List.range c.keymap.total).takeWhile fun j => c.bufVal m i j ≠ kHole).length

/-- Map `j` has a line of its own for the key. -/
def LkCtx.isException (j : Nat) : Bool :=
  if c.isSingle m i then j ≠ 0 && lkMapExists c j && c.bufVal m i j ≠ c.rowVal i 0 && !c.zapped m i j
  else c.lineLength m i ≤ j && c.bufVal m i j ≠ kHole

/-- The bindings of the lines for single maps. -/
def LkCtx.exceptions : List Nat := (List.range c.keymap.total).filter (c.isException m i)

variable {c m i}

theorem zapped_zero : c.zapped m i 0 = false := Row.not_predicted_of_testBit (by simp)

theorem bufVal_zero : c.bufVal m i 0 = c.rowVal i 0 := by
  rw [LkCtx.bufVal, zapped_zero, if_neg Bool.false_ne_true]

theorem bufVal_of_not_zapped {j : Nat} (h : c.zapped m i j = false) :
    c.bufVal m i j = c.rowVal i j := by
  rw [LkCtx.bufVal, h, if_neg Bool.false_ne_true]

theorem bufVal_ne_iff {j : Nat} :
    c.bufVal m i j ≠ kHole ↔ c.zapped m i j = false ∧ c.rowVal i j ≠ kHole := by
  unfold LkCtx.bufVal
  cases c.zapped m i j <;> simp

theorem exists_of_rowVal_ne {j : Nat} (h : c.rowVal i j ≠ kHole) : lkMapExists c j = true := by
  by_contra hj
  exact h (if_neg hj)

theorem range_append_range' {k n : Nat} (h : k ≤ n) :
    List.range k ++ List.range' k (n - k) = List.range n := by
  obtain ⟨e, rfl⟩ := Nat.exists_eq_add_of_le h
  rw [Nat.add_sub_cancel_left, List.range_eq_range', List.range_eq_range',
    List.range'_append_1.symm, Nat.zero_add]

/-- The maps before the first hole. -/
theorem takeWhile_range (p : Nat → Bool) (n : Nat) :
    (List.range n).takeWhile p = List.range ((List.range n).takeWhile p).length := by
  have hpre := List.takeWhile_prefix p (l := List.range n)
  rw [List.prefix_iff_eq_take, List.take_range] at hpre
  have hle : ((List.range n).takeWhile p).length ≤ n := by
    have := (List.takeWhile_prefix p (l := List.range n)).length_le
    rwa [List.length_range] at this
  rw [Nat.min_eq_left hle] at hpre
  exact hpre

/-- The maps from there on. -/
theorem dropWhile_range (p q : Nat → Bool) (n : Nat) :
    ((List.range n).dropWhile p).filter q =
      (List.range n).filter fun j => decide (((List.range n).takeWhile p).length ≤ j) && q j := by
  have htake := takeWhile_range p n
  generalize ((List.range n).takeWhile p).length = k at htake ⊢
  have hsplit : List.range k ++ (List.range n).dropWhile p = List.range n := by
    rw [← htake, List.takeWhile_append_dropWhile]
  have hle : k ≤ n := by
    have hlen := congrArg List.length hsplit
    simp only [List.length_append, List.length_range] at hlen
    omega
  have hrange := range_append_range' hle
  have hdrop : (List.range n).dropWhile p = List.range' k (n - k) :=
    List.append_cancel_left (hsplit.trans hrange.symm)
  have hlow : (List.range k).filter (fun j => decide (k ≤ j) && q j) = [] := by
    rw [List.filter_eq_nil_iff]
    intro j hj
    rw [List.mem_range] at hj
    simp [Nat.not_le.mpr hj]
  rw [hdrop, ← hrange, List.filter_append, hlow, List.nil_append]
  apply List.filter_congr
  intro j hj
  simp [(List.mem_range'_1.mp hj).1]

/-- The maps of the line have bindings that are printed. -/
theorem bufVal_of_lt_lineLength {j : Nat} (hj : j < c.lineLength m i) :
    c.bufVal m i j ≠ kHole := by
  unfold LkCtx.lineLength at hj
  split at hj
  · split at hj
    · rename_i h0
      obtain rfl : j = 0 := by omega
      rwa [bufVal_zero]
    · omega
  · have hmem := List.mem_range.mpr hj
    rw [← takeWhile_range] at hmem
    have hne := List.mem_takeWhile_imp hmem
    exact of_decide_eq_true hne

/-- The exceptions have bindings that are not predicted. -/
theorem exception_spec {j : Nat} (h : c.isException m i j = true) :
    lkMapExists c j = true ∧ c.zapped m i j = false := by
  unfold LkCtx.isException at h
  split at h
  · simp only [Bool.and_eq_true, Bool.not_eq_true'] at h
    exact ⟨h.1.1.2, h.2⟩
  · simp only [Bool.and_eq_true, decide_eq_true_eq] at h
    obtain ⟨hz, hne⟩ := bufVal_ne_iff.mp h.2
    exact ⟨exists_of_rowVal_ne hne, hz⟩

theorem mem_exceptions {j : Nat} : j ∈ c.exceptions m i ↔ c.isException m i j = true := by
  rw [LkCtx.exceptions, List.mem_filter, List.mem_range, and_iff_right_iff_imp]
  exact fun h => lkMapExists_lt (exception_spec h).1

/-- The lines of a key that is no letter. -/
theorem shortLines_eq (h : c.isLetterRow i = false) :
    c.shortLines m i = .keycode i ((List.range (c.lineLength m i)).map (c.rowVal i)) ::
      (c.exceptions m i).map fun j => .bind i j (c.rowVal i j) := by
  have hbinds : (c.exceptions m i).map (fun j => DumpLine.bind i j (c.rowVal i j)) =
      (c.exceptions m i).map fun j => DumpLine.bind i j (c.bufVal m i j) := by
    apply List.map_congr_left
    intro j hj
    rw [bufVal_of_not_zapped (exception_spec (mem_exceptions.mp hj)).2]
  rw [LkCtx.shortLines, if_neg (by simp [h]), hbinds]
  by_cases hs : c.isSingle m i = true
  · have hvals : (if c.bufVal m i 0 ≠ kHole then [c.bufVal m i 0] else []) =
        (List.range (c.lineLength m i)).map (c.rowVal i) := by
      rw [LkCtx.lineLength, if_pos hs, bufVal_zero]
      split <;> rfl
    have hexc : (List.range' 1 (c.keymap.total - 1)).filter (fun j =>
        lkMapExists c j && decide (c.bufVal m i j ≠ c.bufVal m i 0) && !c.zapped m i j) =
        c.exceptions m i := by
      unfold LkCtx.exceptions LkCtx.isException
      simp only [hs, ↓reduceIte, bufVal_zero]
      cases htotal : c.keymap.total with
      | zero => rfl
      | succ k =>
        rw [List.range_eq_range', List.range'_succ, List.filter_cons_of_neg (by simp),
          Nat.add_sub_cancel]
        apply List.filter_congr
        intro j hj
        have hj0 : j ≠ 0 := by
          have := (List.mem_range'_1.mp hj).1
          omega
        simp [hj0]
    rw [if_pos hs, LkCtx.singleLines, hvals, hexc]
  · have hlen : c.lineLength m i =
        ((List.range c.keymap.total).takeWhile fun j => c.bufVal m i j ≠ kHole).length := if_neg hs
    have hvals : ((List.range c.keymap.total).takeWhile fun j => c.bufVal m i j ≠ kHole).map
        (c.bufVal m i) = (List.range (c.lineLength m i)).map (c.rowVal i) := by
      rw [takeWhile_range, ← hlen]
      apply List.map_congr_left
      intro j hj
      have hne := bufVal_of_lt_lineLength (List.mem_range.mp hj)
      rw [bufVal_of_not_zapped (bufVal_ne_iff.mp hne).1]
    have hexc : ((List.range c.keymap.total).dropWhile fun j => c.bufVal m i j ≠ kHole).filter
        (fun j => c.bufVal m i j ≠ kHole) = c.exceptions m i := by
      rw [dropWhile_range, ← hlen]
      unfold LkCtx.exceptions LkCtx.isException
      simp only [hs, Bool.false_eq_true, ↓reduceIte]
    rw [if_neg hs, LkCtx.longLines, hvals, hexc]

end Lines

/-! ## What is read for a key -/

section Rows

variable (c : LkCtx) (m : Bool) (i : Nat)

/-- What a line with values for the first `n` maps binds map `j` to. -/
def LkCtx.lineValue (n j : Nat) : Int := if j < n then c.rowVal i j else kHole

/-- The bindings of the exceptions. -/
def LkCtx.exceptionBindings : List (Nat × Int) := (c.exceptions m i).map fun j => (j, c.rowVal i j)

/-- The row of a key after its line. -/
def LkCtx.firstRow : Row :=
  if c.isLetterRow i then
    Row.put (lkMapExists c) m (fun _ => none) 0 (K ktLatin (kval (c.rowVal i 0)))
  else if c.lineLength m i = 1 then Row.put (lkMapExists c) m (fun _ => none) 0 (c.rowVal i 0)
  else
    Row.putAll m (lkMapExists c) (fun _ => none)
      (c.maps.map fun j => (j, c.lineValue i (c.lineLength m i) j))

/-- The row of a key after all of its lines. -/
def LkCtx.readRow : Row :=
  if c.allHoles i then fun _ => none
  else if c.isLetterRow i then c.firstRow m i
  else Row.putAll m (lkMapExists c) (c.firstRow m i) (c.exceptionBindings m i)

/-- The line of a key has a single value. -/
def LkCtx.isMarked : Bool := !c.allHoles i && (c.isLetterRow i || c.lineLength m i = 1)

/-- The context `d` has been read up to the keys `ks` of what is written for `c`. -/
structure ShortRead (d : LkCtx) (ks : List Nat) : Prop where
  flags : d.flags = c.flags
  charset : d.charset = c.charset
  keymaps : d.keywords.keymaps = true
  altIsMeta : d.keywords.altIsMeta = m
  maps : d.maps = c.maps
  marks : ∀ i, d.keyConstant.get i = (decide (i ∈ ks) && c.isMarked m i)
  rows : ∀ i, d.row i = if i ∈ ks then c.readRow m i else fun _ => none

variable {c m i} {d : LkCtx} {ks : List Nat}

theorem ShortRead.exist (h : ShortRead c m d ks) : lkMapExists d = lkMapExists c :=
  exist_eq_of_maps h.maps

/-- One more key has been read. -/
theorem ShortRead.next (h : ShortRead c m d ks) {d' : LkCtx} (hflags : d'.flags = d.flags)
    (hcharset : d'.charset = d.charset) (hkeywords : d'.keywords = d.keywords)
    (hmaps : d'.maps = d.maps) (hmark : d'.keyConstant.get i = c.isMarked m i)
    (hmarks : ∀ i', i' ≠ i → d'.keyConstant.get i' = d.keyConstant.get i')
    (hrow : d'.row i = c.readRow m i) (hrows : ∀ i', i' ≠ i → d'.row i' = d.row i') :
    ShortRead c m d' (i :: ks) where
  flags := hflags.trans h.flags
  charset := hcharset.trans h.charset
  keymaps := by rw [hkeywords, h.keymaps]
  altIsMeta := by rw [hkeywords, h.altIsMeta]
  maps := hmaps.trans h.maps
  marks i' := by
    by_cases hi : i' = i
    · rw [hi, hmark]
      simp
    · rw [hmarks i' hi, h.marks]
      simp [hi]
  rows i' := by
    by_cases hi : i' = i
    · rw [hi, hrow]
      simp
    · rw [hrows i' hi, h.rows]
      simp [hi]

end Rows

/-! ## Reading the line of a key -/

section FirstLine

variable {c d : LkCtx} {m : Bool} {ks : List Nat} {i : Nat}

/-- A line binds its key, and marks it if it has one value. -/
structure FirstLine (c d : LkCtx) (m : Bool) (i : Nat) (vs : List Int) (d' : LkCtx) : Prop where
  run : (singleline i vs).run d = .ok () d'
  flags : d'.flags = d.flags
  charset : d'.charset = d.charset
  keywords : d'.keywords = d.keywords
  maps : d'.maps = d.maps
  mark : d'.keyConstant.get i = decide (vs.length = 1)
  marks : ∀ i', i' ≠ i → d'.keyConstant.get i' = d.keyConstant.get i'
  row : d'.row i = c.firstRow m i
  rows : ∀ i', i' ≠ i → d'.row i' = d.row i'

/-- The strings and the compose definitions are left alone. -/
structure SameOther (c c' : LkCtx) : Prop where
  funcTable : c'.funcTable = c.funcTable
  accentTable : c'.accentTable = c.accentTable

theorem SameSettings.sameOther {c c' : LkCtx} (h : SameSettings c c') : SameOther c c' :=
  ⟨h.funcTable, h.accentTable⟩

theorem SameOther.trans {a b c : LkCtx} (h : SameOther a b) (h' : SameOther b c) : SameOther a c :=
  ⟨h'.funcTable.trans h.funcTable, h'.accentTable.trans h.accentTable⟩

theorem FirstLine.sameOther {vs : List Int} {d' : LkCtx} (h : FirstLine c d m i vs d')
    (hi : i < nrKeys) : SameOther d d' := by
  obtain ⟨-, hd'⟩ := (singleline_eq_ok (by omega) (by omega)).mp h.run
  have hstart : SameOther d (d.startLine i vs) := by
    unfold LkCtx.startLine
    split
    · have hu := rowUpdate_unbind { d with keyConstant := d.keyConstant.set i true } i
      exact ⟨hu.settings.funcTable, hu.settings.accentTable⟩
    · exact ⟨rfl, rfl⟩
  rw [hd', Int.toNat_natCast]
  exact hstart.trans (SameSettings.putAll _ _ _).sameOther

/-- The first maps are those with the values of the line. -/
theorem maps_eq_range (n : Nat) (hn : ∀ j < n, lkMapExists c j = true) :
    c.maps = List.range n ++ (List.range' n (c.keymap.total - n)).filter (lkMapExists c) := by
  have hle : n ≤ c.keymap.total := by
    cases n with
    | zero => exact Nat.zero_le _
    | succ k => exact lkMapExists_lt (hn k (Nat.lt_succ_self k))
  have hfirst : (List.range n).filter (lkMapExists c) = List.range n := by
    rw [List.filter_eq_self]
    exact fun j hj => hn j (List.mem_range.mp hj)
  rw [LkCtx.maps, ← range_append_range' hle, List.filter_append, hfirst]

/-- A line with one value. -/
theorem firstLine_one (h : ShortRead c m d ks) (hi : i < nrKeys) (h0 : lkMapExists c 0 = true)
    {v : Int} (hv : v ≠ codeForUnknownKsym)
    (hrow : c.firstRow m i = Row.put (lkMapExists c) m (fun _ => none) 0 v) :
    ∃ d', FirstLine c d m i [v] d' := by
  have hfirst : d.maps.head? = some 0 := by
    rw [h.maps, maps_eq_range 1 fun j hj => by rwa [show j = 0 by omega]]
    rfl
  have hline : lineBindings (d.startLine i [v]) [v] = [(0, v)] := by
    rw [lineBindings_startLine, lineBindings_singleton, if_pos h.keymaps, hfirst]
    rfl
  have hsame := SameSettings.putAll (d.startLine i [v]) i [(0, v)]
  have hunbind := rowUpdate_unbind { d with keyConstant := d.keyConstant.set i true } i
  have hstart : d.startLine i [v] =
      { d with keyConstant := d.keyConstant.set i true }.unbind i := if_pos rfl
  have hexist : lkMapExists (d.startLine i [v]) = lkMapExists c :=
    (startLine_exist d i [v]).trans h.exist
  have hvs : ∀ b ∈ [((0 : Nat), v)], b.2 ≠ codeForUnknownKsym := by simpa using hv
  refine ⟨(d.startLine i [v]).putAll i [(0, v)], ?_, ?_, ?_, ?_, ?_, ?_, ?_, ?_, ?_⟩
  · rw [singleline_eq_ok (by omega) (by omega), Int.toNat_natCast, LineOk, hline]
    refine ⟨⟨hvs, fun _ => ?_⟩, rfl⟩
    rw [startLine_maps]
    cases hm : d.maps with
    | nil =>
      rw [hm] at hfirst
      cases hfirst
    | cons t ts => simp
  · rw [hsame.flags, hstart, hunbind.settings.flags]
  · rw [hsame.charset, hstart, hunbind.settings.charset]
  · rw [hsame.keywords, startLine_keywords]
  · have hmaps : ((d.startLine i [v]).putAll i [(0, v)]).maps = (d.startLine i [v]).maps := by
      apply maps_putAll
      intro b hb
      obtain rfl := List.mem_singleton.mp hb
      rw [hexist, h0]
    rw [hmaps, startLine_maps]
  · rw [hsame.keyConstant, startLine_keyConstant]
    rfl
  · intro i' hi'
    rw [hsame.keyConstant, hstart, hunbind.settings.keyConstant]
    simp [hi']
  · rw [row_putAll _ _ _ hvs, startLine_keywords, startLine_row, hexist, h.altIsMeta, hrow]
    rfl
  · intro i' hi'
    rw [row_putAll_ne _ _ _ hi', hstart, hunbind.other i' hi']
    rfl

/-- A line with another number of values. -/
theorem firstLine_values (h : ShortRead c m d ks) (hi : i < nrKeys) (hks : i ∉ ks) {n : Nat}
    (hn : n ≠ 1) (hexist : ∀ j < n, lkMapExists c j = true)
    (hrow : c.firstRow m i = Row.putAll m (lkMapExists c) (fun _ => none)
      (c.maps.map fun j => (j, c.lineValue i n j))) :
    ∃ d', FirstLine c d m i ((List.range n).map (c.rowVal i)) d' := by
  have hlen : ((List.range n).map (c.rowVal i)).length ≠ 1 := by
    rwa [List.length_map, List.length_range]
  have hmaps := maps_eq_range n hexist
  have hline : lineBindings d ((List.range n).map (c.rowVal i)) =
      c.maps.map fun j => (j, c.lineValue i n j) := by
    rw [lineBindings, if_pos h.keymaps, h.maps]
    apply fillBindings_getD (c.lineValue i n) hlen
    intro l hl
    rw [Nat.zero_add]
    by_cases hln : l < n
    · have hmap : c.maps.getD l 0 = l := by
        rw [hmaps, List.getD_append _ _ _ _ (by simpa using hln)]
        simp [hln]
      rw [hmap, LkCtx.lineValue, if_pos hln]
      simp [hln]
    · have hmap : n ≤ c.maps.getD l 0 := by
        rw [hmaps, List.length_append, List.length_range] at hl
        rw [hmaps, List.getD_append_right _ _ _ _ (by simpa using hln), List.length_range,
          List.getD_eq_getElem _ _ (show l - n < _ by omega)]
        exact (List.mem_range'_1.mp (List.mem_of_mem_filter (List.getElem_mem _))).1
      rw [LkCtx.lineValue, if_neg (Nat.not_lt.mpr hmap)]
      simp [hln]
  have hsame := SameSettings.putAll d i (c.maps.map fun j => (j, c.lineValue i n j))
  have hvs : ∀ b ∈ c.maps.map (fun j => (j, c.lineValue i n j)), b.2 ≠ codeForUnknownKsym := by
    intro b hb
    obtain ⟨j, -, rfl⟩ := List.mem_map.mp hb
    dsimp only
    unfold LkCtx.lineValue
    split
    · exact rowVal_ne i j
    · decide
  refine ⟨d.putAll i (c.maps.map fun j => (j, c.lineValue i n j)), ?_, hsame.flags, hsame.charset,
    hsame.keywords, ?_, ?_, ?_, ?_, ?_⟩
  · rw [singleline_eq_ok (by omega) (by omega), Int.toNat_natCast, startLine_of_length_ne hlen,
      LineOk, hline]
    refine ⟨⟨hvs, fun _ => ?_⟩, rfl⟩
    rw [h.maps, hmaps]
    simp
  · apply maps_putAll
    intro b hb
    obtain ⟨j, hj, rfl⟩ := List.mem_map.mp hb
    rw [h.exist]
    exact mem_maps.mp hj
  · rw [hsame.keyConstant, h.marks]
    simp [hks, hn]
  · intro i' _
    rw [hsame.keyConstant]
  · rw [row_putAll _ _ _ hvs, h.altIsMeta, h.exist, h.rows, if_neg hks, hrow]
  · intro i' hi'
    rw [row_putAll_ne _ _ _ hi']

end FirstLine

/-! ## Reading all lines of a key -/

theorem letterRow_spec {c : LkCtx} {i : Nat} (h : c.isLetterRow i = true) :
    isLetterCode (c.rowVal i 0) = true ∧ lkMapExists c 0 = true := by
  rw [LkCtx.isLetterRow, Bool.and_eq_true] at h
  refine ⟨h.1, exists_of_rowVal_ne (i := i) ?_⟩
  exact Row.kHole_ne_of_isPlainAscii (Row.isPlainAscii_of_isLetterCode h.1)

/-- What is printed for a letter is read back. -/
theorem readsBack_letterRow {c : LkCtx} {i : Nat} (h : c.isLetterRow i = true) (ctx : LkCtx)
    (style : PrintStyle) : ReadsBack ctx style (K ktLatin (kval (c.rowVal i 0))) := by
  have hletter := (Bool.and_eq_true _ _ ▸ (letterRow_spec h).1).2
  obtain ⟨n, hn⟩ := Int.eq_ofNat_of_zero_le (kval_nonneg (c.rowVal i 0))
  rw [hn] at hletter ⊢
  exact readsBack_letter ctx style hletter

section Key

variable (find : FindIncl) (r : Reader) {c d : LkCtx} {m : Bool} {style : PrintStyle}
  {ks : List Nat} {p : Parser}

/-- What the shapes with shorthands print for a key. -/
theorem keyLines_of_short {table : TableShape} (htable : table = .default ∨ table = .untilHole)
    (i : Nat) : c.keyLines table m i = if c.allHoles i then [] else c.shortLines m i := by
  rcases htable with rfl | rfl <;> rfl

theorem lineLength_le (hmaps : ∀ t, lkMapExists c t = true → t < maxNrKeymaps) (i : Nat) :
    c.lineLength m i ≤ maxNrKeymaps := by
  cases hn : c.lineLength m i with
  | zero => exact Nat.zero_le _
  | succ k =>
    have hk := bufVal_of_lt_lineLength (m := m) (c := c) (i := i) (j := k) (by omega)
    exact hmaps k (exists_of_rowVal_ne (bufVal_ne_iff.mp hk).2)

/-- The line of a key that is no letter. -/
theorem exists_firstLine (h : ShortRead c m d ks) {i : Nat} (hi : i < nrKeys) (hks : i ∉ ks)
    (hletter : c.isLetterRow i = false) :
    ∃ d', FirstLine c d m i ((List.range (c.lineLength m i)).map (c.rowVal i)) d' := by
  have hexist (j : Nat) (hj : j < c.lineLength m i) : lkMapExists c j = true :=
    exists_of_rowVal_ne (bufVal_ne_iff.mp (bufVal_of_lt_lineLength hj)).2
  have hrow : c.firstRow m i =
      if c.lineLength m i = 1 then Row.put (lkMapExists c) m (fun _ => none) 0 (c.rowVal i 0)
      else Row.putAll m (lkMapExists c) (fun _ => none)
        (c.maps.map fun j => (j, c.lineValue i (c.lineLength m i) j)) := by
    rw [LkCtx.firstRow, hletter, if_neg Bool.false_ne_true]
  by_cases hn : c.lineLength m i = 1
  · rw [if_pos hn] at hrow
    rw [hn]
    exact firstLine_one h hi (hexist 0 (by omega)) (rowVal_ne i 0) hrow
  · rw [if_neg hn] at hrow
    exact firstLine_values h hi hks hn hexist hrow

/-- The lines of a key are read, and change nothing but the keymap. -/
theorem reads_shortKey_sameOther (hmaps : ∀ t, lkMapExists c t = true → t < maxNrKeymaps)
    (hback : ∀ i t, ReadsBack c style (c.rowVal i t)) {i : Nat} (hi : i < nrKeys)
    (h : ShortRead c m d ks) (hks : i ∉ ks) (hp : Between p d) (s : List Char) :
    ∃ p' d', Between p' d' ∧ ShortRead c m d' (i :: ks) ∧ SameOther d d' ∧
      Reads find r ⟨p, [], (if c.allHoles i then [] else c.shortLines m i).flatMap
        (DumpLine.text c style) ++ s⟩ ⟨p', [], s⟩ := by
  by_cases hholes : c.allHoles i = true
  · refine ⟨p, d, hp, h.next rfl rfl rfl rfl ?_ (fun _ _ => rfl) ?_ fun _ _ => rfl, ⟨rfl, rfl⟩, ?_⟩
    · rw [h.marks]
      simp [hks, LkCtx.isMarked, hholes]
    · rw [h.rows, if_neg hks, LkCtx.readRow, if_pos hholes]
    · rw [if_pos hholes]
      exact .refl _
  rw [if_neg hholes]
  by_cases hletter : c.isLetterRow i = true
  · have hrow : c.firstRow m i = Row.put (lkMapExists c) m (fun _ => none) 0
        (K ktLatin (kval (c.rowVal i 0))) := if_pos hletter
    have hv : K ktLatin (kval (c.rowVal i 0)) ≠ codeForUnknownKsym := by
      have := kval_nonneg (c.rowVal i 0)
      simp only [K, ktLatin, codeForUnknownKsym]
      omega
    obtain ⟨d', hd'⟩ := firstLine_one h hi (letterRow_spec hletter).2 hv hrow
    obtain ⟨p', hp', hread⟩ := reads_completeLine find r hp h.flags h.charset hi (by simp)
      (by simpa using readsBack_letterRow hletter c style) hd'.run s
    have hlines : c.shortLines m i = [.keycode i [K ktLatin (kval (c.rowVal i 0))]] :=
      if_pos hletter
    refine ⟨p', d', hp', h.next hd'.flags hd'.charset hd'.keywords hd'.maps ?_ hd'.marks ?_
      hd'.rows, hd'.sameOther hi, ?_⟩
    · rw [hd'.mark]
      simp [LkCtx.isMarked, hholes, hletter]
    · rw [hd'.row, LkCtx.readRow, if_neg hholes, if_pos hletter]
    · rw [hlines, List.flatMap_singleton]
      exact hread
  · have hletter' := Bool.eq_false_iff.mpr hletter
    obtain ⟨d', hd'⟩ := exists_firstLine h hi hks hletter'
    have hlen : ((List.range (c.lineLength m i)).map (c.rowVal i)).length ≤ maxNrKeymaps := by
      rw [List.length_map, List.length_range]
      exact lineLength_le hmaps i
    have hvals : ∀ v ∈ (List.range (c.lineLength m i)).map (c.rowVal i), ReadsBack c style v := by
      intro v hv
      obtain ⟨j, -, rfl⟩ := List.mem_map.mp hv
      exact hback i j
    have hflags := hd'.flags.trans h.flags
    have hcharset := hd'.charset.trans h.charset
    have hexist : lkMapExists d' = lkMapExists c := exist_eq_of_maps (hd'.maps.trans h.maps)
    have hjs : ∀ j ∈ c.exceptions m i, j < 256 ∧ lkMapExists d' j = true := by
      intro j hj
      have hex := (exception_spec (mem_exceptions.mp hj)).1
      exact ⟨hmaps j hex, hexist ▸ hex⟩
    obtain ⟨p₁, hp₁, hline⟩ := reads_completeLine find r hp h.flags h.charset hi hlen hvals hd'.run
      (((c.exceptions m i).map fun j => DumpLine.bind i j (c.rowVal i j)).flatMap
        (DumpLine.text c style) ++ s)
    obtain ⟨p', hp', hbinds⟩ := reads_binds find r hflags hcharset hi hjs (fun j _ => hback i j) hp₁ s
    have hsame := SameSettings.putAll d' i (c.exceptionBindings m i)
    have hne : ∀ b ∈ c.exceptionBindings m i, b.2 ≠ codeForUnknownKsym := by
      intro b hb
      obtain ⟨j, -, rfl⟩ := List.mem_map.mp hb
      exact rowVal_ne i j
    have hmaps' : ∀ b ∈ c.exceptionBindings m i, lkMapExists d' b.1 = true := by
      intro b hb
      obtain ⟨j, hj, rfl⟩ := List.mem_map.mp hb
      exact (hjs j hj).2
    refine ⟨p', d'.putAll i (c.exceptionBindings m i), hp', h.next (hsame.flags.trans hd'.flags)
      (hsame.charset.trans hd'.charset) (hsame.keywords.trans hd'.keywords)
      ((maps_putAll hmaps').trans hd'.maps) ?_ ?_ ?_ ?_, (hd'.sameOther hi).trans hsame.sameOther, ?_⟩
    · rw [hsame.keyConstant, hd'.mark]
      simp [LkCtx.isMarked, hholes, hletter']
    · intro i' hi'
      rw [hsame.keyConstant, hd'.marks i' hi']
    · rw [row_putAll _ _ _ hne, hd'.keywords, h.altIsMeta, hexist, hd'.row, LkCtx.readRow,
        if_neg hholes, if_neg hletter]
    · intro i' hi'
      rw [row_putAll_ne _ _ _ hi', hd'.rows i' hi']
    · rw [shortLines_eq hletter', List.flatMap_cons, List.append_assoc]
      exact hline.trans hbinds

theorem reads_shortKey (hmaps : ∀ t, lkMapExists c t = true → t < maxNrKeymaps)
    (hback : ∀ i t, ReadsBack c style (c.rowVal i t)) {i : Nat} (hi : i < nrKeys)
    (h : ShortRead c m d ks) (hks : i ∉ ks) (hp : Between p d) (s : List Char) :
    ∃ p' d', Between p' d' ∧ ShortRead c m d' (i :: ks) ∧
      Reads find r ⟨p, [], (if c.allHoles i then [] else c.shortLines m i).flatMap
        (DumpLine.text c style) ++ s⟩ ⟨p', [], s⟩ := by
  obtain ⟨p', d', hp', hd', -, hread⟩ :=
    reads_shortKey_sameOther find r hmaps hback hi h hks hp s
  exact ⟨p', d', hp', hd', hread⟩

end Key

end Kbd.Keymap
