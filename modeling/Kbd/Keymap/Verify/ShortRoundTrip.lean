import Kbd.Keymap.Verify.Bounds
import Kbd.Keymap.Verify.ShortLines

/-!
# Reading back a keymap that is written in short

The shapes with shorthands do not always give the bindings back. For a key the first line stands for
more than was written into it when it has a single value, and for less when it leaves out a Meta
binding whose map without Alt comes after its values. `LkCtx.Restored` says when neither happens, and
`roundTrips_iff` that this is exact.
-/

namespace Kbd.Keymap

open Kbd.Lib

/-! ## The claim on a context -/

/-- What is written for a context is read, in a context with the same settings, as the same maps with
the same bindings. -/
def RoundTrips (find : FindIncl) (keycodeZero : Bool) (style : PrintStyle) (id : Nat) (pathname : List Char)
    (table : TableShape) (c : LkCtx) : Prop :=
  ∃ keys fuel r c', lkDumpKeys keycodeZero c table style = some keys ∧
    lkParseKeymap find fuel (lkInit c.flags c.charset) emptyStack
      ⟨id, pathname, lkDumpKeymaps c ++ keys⟩ = some (true, r) ∧
    lkAddConstants.run r.parser.ctx = .ok () c' ∧
    (∀ t, lkMapExists c' t = lkMapExists c t) ∧
    ∀ t i, lkMapExists c t = true → minKeycode keycodeZero ≤ i → i < nrKeys →
      lkGetKey c' t i = lkGetKey c t i

/-- The bindings of a key are restored. A key without bindings always is. The line of a letter is
extended to all maps, also to those from 16 on, where it has holes. A single value is extended to the
maps that are neither exceptions nor predicted. A line with no value, or with several, loses the
predicted bindings whose map without Alt has its value on a line of its own. -/
def LkCtx.Restored (c : LkCtx) (m : Bool) (i : Nat) : Prop :=
  c.allHoles i = true ∨
    if c.isLetterRow i then ∀ t ∈ c.maps, t < 16
    else if c.lineLength m i = 1 then
      ∀ t ∈ c.maps, c.isException m i t = false → c.zapped m i t = false →
        Row.spreadCode (c.rowVal i 0) t = c.rowVal i t
    else ∀ t ∈ c.maps, c.zapped m i t = true → t - mAlt < c.lineLength m i

instance (c : LkCtx) (m : Bool) (i : Nat) : Decidable (c.Restored m i) :=
  inferInstanceAs (Decidable (_ ∨ ite _ _ (ite _ _ _)))

/-! ## What is read for a key -/

section Key

variable {c d : LkCtx} {m : Bool} {ks : List Nat}

/-- What is read for a key in the map `t`. -/
def LkCtx.restoredVal (c : LkCtx) (m : Bool) (i t : Nat) : Int :=
  if c.allHoles i then kHole
  else if c.isLetterRow i then
    Row.spreadVal (lkMapExists c) m (c.rowVal i) (fun _ => false) (K ktLatin (kval (c.rowVal i 0))) t
  else if c.lineLength m i = 1 then
    Row.spreadVal (lkMapExists c) m (c.rowVal i) (c.isException m i) (c.rowVal i 0) t
  else Row.lineVal (lkMapExists c) m (c.rowVal i) (c.isException m i) (c.lineLength m i) t

/-- The predicted bindings are the Meta forms of those that predict them. -/
def LkCtx.MetaForms (c : LkCtx) (m : Bool) (i : Nat) : Prop :=
  ∀ t, c.zapped m i t = true → c.rowVal i t = metaOf (c.rowVal i (t - mAlt))

theorem metaForms_of_dumped {keycodeZero : Bool} {table : TableShape} {i : Nat}
    (hi : i ∈ dumpedKeys keycodeZero) : c.MetaForms (dumpsAltIsMeta keycodeZero c table) i := by
  intro t hz
  obtain ⟨hm, hbit, hex, hplain⟩ := Row.predicted_iff.mp hz
  have hle : mAlt ≤ t := Nat.ge_two_pow_of_testBit hbit
  have hor : (t - mAlt) ||| mAlt = t := by
    rw [Row.or_mAlt_of_not_testBit (Row.testBit_sub_mAlt hbit), Nat.sub_add_cancel hle]
  have h8 : mAlt = 8 := rfl
  have hmeta := meta_of_first_pass hm hi (j := t - mAlt) (by omega) (hor.symm ▸ hex) hplain
  rwa [hor] at hmeta

theorem rowVal_of_not_exists {i t : Nat} (h : lkMapExists c t = false) : c.rowVal i t = kHole :=
  if_neg (Bool.eq_false_iff.mp h)

theorem rowVal_of_allHoles {i t : Nat} (h : c.allHoles i = true) : c.rowVal i t = kHole := by
  cases hex : lkMapExists c t with
  | false => exact rowVal_of_not_exists hex
  | true =>
    exact of_decide_eq_true (List.all_eq_true.mp h t (List.mem_range.mpr (lkMapExists_lt hex)))

theorem isException_zero {i : Nat} (h : c.lineLength m i = 1) : c.isException m i 0 = false := by
  unfold LkCtx.isException
  split
  · rfl
  · simp [h]

/-- The exceptions of a line with other than one value. -/
theorem isException_iff {i : Nat} (hn : c.lineLength m i ≠ 1) (t : Nat) :
    c.isException m i t = true ↔
      c.lineLength m i ≤ t ∧ c.zapped m i t = false ∧ c.rowVal i t ≠ kHole := by
  by_cases hs : c.isSingle m i = true
  · have h0 : c.rowVal i 0 = kHole := by
      by_contra hne
      apply hn
      rw [LkCtx.lineLength, if_pos hs, if_pos hne]
    have hlen : c.lineLength m i = 0 := by
      rw [LkCtx.lineLength, if_pos hs, if_neg (not_not.mpr h0)]
    rw [LkCtx.isException, if_pos hs, hlen, h0, ← bufVal_ne_iff]
    simp only [Bool.and_eq_true, decide_eq_true_eq, Bool.not_eq_true']
    constructor
    · exact fun h => ⟨Nat.zero_le _, h.1.2⟩
    · rintro ⟨-, hne⟩
      obtain ⟨hz, hval⟩ := bufVal_ne_iff.mp hne
      refine ⟨⟨⟨?_, exists_of_rowVal_ne hval⟩, hne⟩, hz⟩
      rintro rfl
      exact hval h0
  · rw [LkCtx.isException, if_neg hs, ← bufVal_ne_iff]
    simp

/-- The bindings of a letter. -/
theorem letterRow_vals {i : Nat} (h : c.isLetterRow i = true) {t : Nat}
    (hex : lkMapExists c t = true) :
    (t < 16 → c.rowVal i t = (letterDefs (kval (c.rowVal i 0))).getD t 0) ∧
      (16 ≤ t → c.rowVal i t = kHole) := by
  rw [LkCtx.isLetterRow, Bool.and_eq_true, List.all_eq_true] at h
  have hexp := h.2 t (List.mem_range.mpr (lkMapExists_lt hex))
  simp only [LkCtx.expectedAt, hex, Bool.not_true, Bool.false_or, Bool.not_eq_true',
    Bool.or_eq_false_iff, Bool.and_eq_false_iff, decide_eq_false_iff_not, ne_eq, not_not] at hexp
  exact ⟨fun hlt => hexp.2.resolve_left (not_not.mpr hlt),
    fun hge => hexp.1.resolve_left (not_not.mpr hge)⟩

/-- The condition says exactly that the bindings of the key are restored. -/
theorem restoredVal_eq_iff {i : Nat} (hmeta : c.MetaForms m i) :
    (∀ t, lkMapExists c t = true → c.restoredVal m i t = c.rowVal i t) ↔ c.Restored m i := by
  unfold LkCtx.restoredVal LkCtx.Restored
  by_cases hholes : c.allHoles i = true
  · simp [hholes, rowVal_of_allHoles hholes]
  simp only [hholes, Bool.false_eq_true, ↓reduceIte, false_or, mem_maps]
  by_cases hletter : c.isLetterRow i = true
  · have hasc := (Bool.and_eq_true _ _ ▸ (letterRow_spec hletter).1).2
    simp only [hletter, ↓reduceIte]
    exact Row.spreadVal_letter_iff hasc (fun t hex => (letterRow_vals hletter hex).1)
      fun t hex => (letterRow_vals hletter hex).2
  simp only [hletter, Bool.false_eq_true, ↓reduceIte]
  by_cases hn : c.lineLength m i = 1
  · simp only [hn, ↓reduceIte]
    exact Row.spreadVal_eq_iff (fun t => rowVal_of_not_exists) hmeta
  · simp only [hn, ↓reduceIte]
    have hvals (t : Nat) (ht : t < c.lineLength m i) :=
      bufVal_ne_iff.mp (bufVal_of_lt_lineLength ht)
    rw [Row.lineVal_eq_iff hmeta hvals fun t _ => isException_iff hn t]
    exact forall_congr' fun t => ⟨fun h _ => h, fun h hz => h (Row.predicted_iff.mp hz).2.2.1 hz⟩

theorem constantMap_of_zero (h : lkMapExists d 0 = true) : constantMap d = 0 := by
  have hspec := constantMap_spec ⟨0, h⟩ fun _ => h
  by_contra hne
  have hno := hspec.2 0 (Nat.pos_of_ne_zero hne)
  rw [h] at hno
  cases hno

/-- The exceptions of a line with one value are not predicted. -/
theorem not_predicted_of_bound {i : Nat} {t : Nat} (h : Row.isBound (c.isException m i) t = true) :
    Row.predicted (lkMapExists c) m (Row.boundTo (c.rowVal i) (c.rowVal i 0)) t = false := by
  have hval : Row.boundTo (c.rowVal i) (c.rowVal i 0) = c.rowVal i := by
    funext s
    unfold Row.boundTo
    split
    · rename_i hs
      rw [hs]
    · rfl
  rw [hval]
  simp only [Row.isBound, Bool.or_eq_true, decide_eq_true_eq] at h
  rcases h with rfl | h
  · exact zapped_zero
  · exact (exception_spec h).2

/-- The row of a key that has been read, after `lk_add_constants`: a key with bindings has one in each
map. -/
theorem constantRow_eq_ite (h : ShortRead c m d ks) {i t : Nat} (hi : i ∈ ks)
    (hex : lkMapExists c t = true) :
    d.constantRow i t = if c.allHoles i then none else some (c.restoredVal m i t) := by
  have hlt (t : Nat) (ht : lkMapExists c t = true) : t < c.keymap.total := lkMapExists_lt ht
  have hlt' (t : Nat) (ht : lkMapExists c t = true) : t < d.keymap.total :=
    lkMapExists_lt (h.exist ▸ ht)
  have hmark : d.keyConstant.get i = c.isMarked m i := by rw [h.marks, decide_eq_true hi, Bool.true_and]
  have hrow : d.row i = c.readRow m i := by rw [h.rows, if_pos hi]
  -- the row of a marked key, when its code is in map 0
  have hspread {key : Int} (hmarked : c.isMarked m i = true) (hex0 : lkMapExists c 0 = true)
      (hkey : c.readRow m i 0 = some key) :
      d.constantRow i = (c.readRow m i).constant (lkMapExists c) m d.keymap.total key := by
    rw [LkCtx.constantRow, hmark, if_pos hmarked, hrow, h.exist, h.altIsMeta,
      constantMap_of_zero (h.exist ▸ hex0), lkGetKey_eq_row (h.exist ▸ hex0), hrow, hkey]
    rfl
  unfold LkCtx.restoredVal
  by_cases hholes : c.allHoles i = true
  · have hmarked : c.isMarked m i = false := by simp [LkCtx.isMarked, hholes]
    rw [if_pos hholes, LkCtx.constantRow, hmark, hmarked, hrow, LkCtx.readRow, if_pos hholes]
    rfl
  rw [if_neg hholes, if_neg hholes]
  by_cases hletter : c.isLetterRow i = true
  · have hex0 := (letterRow_spec hletter).2
    have hread : c.readRow m i =
        Row.put (lkMapExists c) m (fun _ => none) 0 (K ktLatin (kval (c.rowVal i 0))) := by
      rw [LkCtx.readRow, if_neg hholes, if_pos hletter, LkCtx.firstRow, if_pos hletter]
    have hkey : K ktLatin (kval (c.rowVal i 0)) ≠ kHole := by
      have := kval_lt (c.rowVal i 0)
      simp only [K, ktLatin, kHole]
      omega
    have h0 : c.readRow m i 0 = some (K ktLatin (kval (c.rowVal i 0))) := by
      rw [hread, Row.put_apply]
      simp
    have hone := @Row.constant_one (lkMapExists c) m (c.rowVal i) (fun _ => false) _ c.keymap.total _
      hex0 hkey rfl (fun t ht => absurd ht Bool.false_ne_true)
      (fun t ht _ => by
        have ht0 : t = 0 := by simpa [Row.isBound] using ht
        rw [ht0]
        exact Row.not_predicted_of_testBit (by simp)) hlt hlt' t hex
    have hempty : (List.range c.keymap.total).filter (fun _ => false) = [] := by simp
    rw [hempty] at hone
    rw [if_pos hletter, hspread (by simp [LkCtx.isMarked, hholes, hletter]) hex0 h0, hread]
    exact hone
  rw [if_neg hletter]
  have hread : c.readRow m i =
      Row.putAll m (lkMapExists c) (c.firstRow m i) (c.exceptionBindings m i) := by
    rw [LkCtx.readRow, if_neg hholes, if_neg hletter]
  by_cases hn : c.lineLength m i = 1
  · have h0 : c.rowVal i 0 ≠ kHole :=
      (bufVal_ne_iff.mp (bufVal_of_lt_lineLength (m := m) (by omega))).2
    have hex0 := exists_of_rowVal_ne h0
    have hexc (t : Nat) (ht : c.isException m i t = true) : lkMapExists c t = true :=
      (exception_spec ht).1
    have hfirst : c.firstRow m i =
        Row.put (lkMapExists c) m (fun _ => none) 0 (c.rowVal i 0) := by
      rw [LkCtx.firstRow, if_neg hletter, if_pos hn]
    rw [hfirst] at hread
    have hkey : c.readRow m i 0 = some (c.rowVal i 0) := by
      rw [hread]
      refine (congrFun (@Row.putAll_one _ m (c.rowVal i) _ _ _ hex0 (isException_zero hn) hexc
        (hlt 0 hex0)) 0).trans ?_
      rw [Row.afterRounds_bound (fun t ht _ => not_predicted_of_bound ht) (hlt 0 hex0)]
      rfl
    rw [if_pos hn, hspread (by simp [LkCtx.isMarked, hholes, hn]) hex0 hkey, hread]
    exact Row.constant_one hex0 h0 (isException_zero hn) hexc
      (fun t ht _ => not_predicted_of_bound ht) hlt hlt' hex
  · have hmarked : c.isMarked m i = false := by simp [LkCtx.isMarked, hn, hletter]
    have hfirst : c.firstRow m i = Row.putAll m (lkMapExists c) (fun _ => none)
        (c.maps.map fun j => (j, c.lineValue i (c.lineLength m i) j)) := by
      rw [LkCtx.firstRow, if_neg hletter, if_neg hn]
    have hvals (t : Nat) (ht : t < c.lineLength m i) :
        lkMapExists c t = true ∧ c.rowVal i t ≠ kHole := by
      have hne := (bufVal_ne_iff.mp (bufVal_of_lt_lineLength ht)).2
      exact ⟨exists_of_rowVal_ne hne, hne⟩
    have hexc (t : Nat) (ht : c.isException m i t = true) :
        lkMapExists c t = true ∧ c.rowVal i t ≠ kHole :=
      ⟨(exception_spec ht).1, ((isException_iff hn t).mp ht).2.2⟩
    rw [if_neg hn, LkCtx.constantRow, hmark, hmarked, if_neg Bool.false_ne_true, hrow, hread, hfirst]
    exact Row.putAll_values hlt hvals hexc hex

theorem constantRow_eq_restoredVal (h : ShortRead c m d ks) {i t : Nat} (hi : i ∈ ks)
    (hex : lkMapExists c t = true) : (d.constantRow i t).getD kHole = c.restoredVal m i t := by
  rw [constantRow_eq_ite h hi hex]
  split
  · rename_i hholes
    rw [LkCtx.restoredVal, if_pos hholes]
    rfl
  · rfl

end Key

/-! ## The whole text -/

/-- A context after the line that is printed for `m`. -/
def LkCtx.setAltIsMeta (d : LkCtx) (m : Bool) : LkCtx :=
  if m then { d with keywords := { d.keywords with altIsMeta := true } } else d

/-- The line `alt_is_meta`. -/
theorem reads_altIsMetaLine (find : FindIncl) (r : Reader) {p : Parser} {d : LkCtx} (c : LkCtx)
    (style : PrintStyle) (hp : Between p d) (m : Bool) (s : List Char) :
    ∃ p', Between p' (d.setAltIsMeta m) ∧
      Reads find r ⟨p, [], (if m then [DumpLine.altIsMeta] else []).flatMap
        (DumpLine.text c style) ++ s⟩ ⟨p', [], s⟩ := by
  cases m with
  | false => exact ⟨p, hp, .refl _⟩
  | true =>
    obtain ⟨rfl, hstate, hmod⟩ := hp
    have hfeed : (feed .altIsMeta).run p = .ok () { p with state := .setting .altIsMeta } := by
      rw [feed_top hstate]
      rfl
    have hkeyword : Reads find r ⟨p, [], bytes "alt_is_meta" ++ '\n' :: s⟩
        ⟨{ p with state := .setting .altIsMeta }, [], '\n' :: s⟩ :=
      reads_keyword find r (by decide) (noBlank_cons.mpr (by decide)) rfl rfl (by simp) hfeed s
    have heol : (feed .eol).run { p with state := .setting .altIsMeta } = .ok () { p with
        ctx := p.ctx.setAltIsMeta true, state := .top, stmts := p.stmts ++ [.altIsMeta] } := rfl
    refine ⟨_, ?_, hkeyword.trans (reads_eol find r (Or.inl rfl) heol s)⟩
    exact ⟨rfl, rfl, hmod⟩

/-- After the first lines the maps are there and hold nothing. -/
theorem shortRead_start {c : LkCtx} (hc : MapsTight c) {qs : List MapRange}
    (hqs : ∀ t, lkMapExists c t = true ↔ ∃ q ∈ qs, MapRange.Has q t) (m : Bool) :
    ShortRead c m (((lkInit c.flags c.charset).afterKeymaps qs).setAltIsMeta m) [] := by
  have hstart := restores_afterKeymaps hc hqs
  have hrow (i : Nat) : ((lkInit c.flags c.charset).afterKeymaps qs).row i = fun _ => none := by
    change ((lkInit c.flags c.charset).addMaps _).row i = _
    rw [row_addMaps]
    rfl
  generalize (lkInit c.flags c.charset).afterKeymaps qs = d at hstart hrow
  have hmark (i : Nat) : d.keyConstant.get i = false := by
    rw [hstart.keyConstant]
    exact LkArray.get_init i
  cases m with
  | false =>
    exact ⟨hstart.flags, hstart.charset, hstart.keymaps, hstart.altIsMeta, hstart.maps, hmark, hrow⟩
  | true => exact ⟨hstart.flags, hstart.charset, hstart.keymaps, rfl, hstart.maps, hmark, hrow⟩

/-- The marks of what has been read are on keys with a binding in map 0. -/
theorem constantsReady_of_shortRead {c d : LkCtx} {m : Bool} {ks : List Nat}
    (h : ShortRead c m d ks) : ConstantsReady d := by
  intro i hi
  rw [h.marks] at hi
  simp only [LkCtx.isMarked, Bool.and_eq_true, Bool.or_eq_true, decide_eq_true_eq] at hi
  have h0 : lkMapExists c 0 = true := by
    rcases hi.2.2 with hletter | hn
    · exact (letterRow_spec hletter).2
    · exact exists_of_rowVal_ne (i := i)
        (bufVal_ne_iff.mp (bufVal_of_lt_lineLength (m := m) (by omega))).2
  rw [← h.exist] at h0
  exact (constantMap_of_zero h0).symm ▸ h0

theorem mem_dumpedKeys {keycodeZero : Bool} {i : Nat} :
    i ∈ dumpedKeys keycodeZero ↔ minKeycode keycodeZero ≤ i ∧ i < nrKeys := by
  rw [dumpedKeys, List.mem_range'_1]
  cases keycodeZero <;> simp only [minKeycode] <;> omega

/-- The shapes with shorthands. -/
def WritesShort (table : TableShape) : Prop := table = .default ∨ table = .untilHole

section Whole

variable (find : FindIncl) {keycodeZero : Bool} {style : PrintStyle} {id : Nat}
  {pathname : List Char} {c : LkCtx} {table : TableShape}

/-- The text that is written, for a keymap with maps. -/
theorem reads_shortText (r : Reader) {p : Parser} (hc : MapsTight c) (h0 : c.keymap.total ≠ 0)
    (hmaps : ∀ t, lkMapExists c t = true → t < maxNrKeymaps) (htable : WritesShort table)
    (hback : ∀ i t, ReadsBack c style (c.rowVal i t))
    (hp : Between p (lkInit c.flags c.charset)) :
    ∃ p' d, Between p' d ∧
      ShortRead c (dumpsAltIsMeta keycodeZero c table) d ((dumpedKeys keycodeZero).reverse ++ []) ∧
      Reads find r ⟨p, [], lkDumpKeymaps c ++
        (c.dumpLines keycodeZero table).flatMap (DumpLine.text c style)⟩ ⟨p', [], []⟩ := by
  obtain ⟨qs, hqsText, hle, hqs⟩ := lkDumpKeymaps_eq c
  have hqsne : qs ≠ [] := by
    rintro rfl
    obtain ⟨t, ht⟩ := Nat.exists_eq_succ_of_ne_zero h0
    obtain ⟨q, hq, -⟩ := (hqs t).mp (hc t ht)
    cases hq
  have hlt : ∀ q ∈ qs, q.2 < 256 := by
    intro q hq
    exact hmaps q.2 ((hqs q.2).mpr ⟨q, hq, hle q hq, Nat.le_refl _⟩)
  set m := dumpsAltIsMeta keycodeZero c table with hm
  have hlines : (c.dumpLines keycodeZero table).flatMap (DumpLine.text c style) =
      (if m then [DumpLine.altIsMeta] else []).flatMap (DumpLine.text c style) ++
        (dumpedKeys keycodeZero).flatMap fun i =>
          (c.keyLines table m i).flatMap (DumpLine.text c style) := by
    rw [LkCtx.dumpLines, if_neg h0, List.flatMap_append, List.flatMap_assoc]
  obtain ⟨p₁, hp₁, hkeymaps⟩ := reads_keymapsLine find r hqsne hle hlt hp
    ((c.dumpLines keycodeZero table).flatMap (DumpLine.text c style))
  obtain ⟨p₂, hp₂, haltIsMeta⟩ := reads_altIsMetaLine find r c style hp₁ m
    ((dumpedKeys keycodeZero).flatMap fun i =>
      (c.keyLines table m i).flatMap (DumpLine.text c style))
  obtain ⟨p', ⟨d, hp', hd⟩, hkeys⟩ := reads_each find r
    (I := fun ks p => ∃ d, Between p d ∧ ShortRead c m d ks)
    (f := fun i => (c.keyLines table m i).flatMap (DumpLine.text c style))
    (fun i hi ks p s hks hI => by
      obtain ⟨d, hp, hd⟩ := hI
      obtain ⟨p', d', hp', hd', hread⟩ := reads_shortKey find r hmaps hback hi hd hks hp s
      rw [← keyLines_of_short htable] at hread
      exact ⟨p', ⟨d', hp', hd'⟩, hread⟩)
    (fun i hi => (mem_dumpedKeys.mp hi).2) List.nodup_range' (fun _ _ => List.not_mem_nil)
    ⟨_, hp₂, shortRead_start hc hqs m⟩
  rw [← hqsText, hlines] at hkeymaps
  rw [hlines]
  exact ⟨p', d, hp', hd, hkeymaps.trans (haltIsMeta.trans hkeys)⟩

/-- Without maps nothing is written. -/
theorem lkDumpKeymaps_of_total_zero (h0 : c.keymap.total = 0) : lkDumpKeymaps c = [] := by
  unfold lkDumpKeymaps
  rw [h0]
  rfl

/-- What is written in a shape with shorthands is read as the same maps, with the bindings
`restoredVal`. -/
theorem lkParseKeymap_reads_short (hc : MapsTight c)
    (hmaps : ∀ t, lkMapExists c t = true → t < maxNrKeymaps) (htable : WritesShort table)
    (hback : ∀ t i, lkKeyExists c t i = true → ReadsBack c style (lkGetKey c t i)) :
    ∃ keys fuel r c', lkDumpKeys keycodeZero c table style = some keys ∧
      lkParseKeymap find fuel (lkInit c.flags c.charset) emptyStack
        ⟨id, pathname, lkDumpKeymaps c ++ keys⟩ = some (true, r) ∧
      lkAddConstants.run r.parser.ctx = .ok () c' ∧
      lkMapExists c' = lkMapExists c ∧
      ∀ t i, lkMapExists c t = true → i ∈ dumpedKeys keycodeZero →
        lkGetKey c' t i = c.restoredVal (dumpsAltIsMeta keycodeZero c table) i t := by
  have hdump := lkDumpKeys_eq (total_le_of_maps hc hmaps) keycodeZero table style
  by_cases h0 : c.keymap.total = 0
  · have hno (t : Nat) : lkMapExists c t = false := by
      rw [Bool.eq_false_iff]
      intro ht
      exact absurd (lkMapExists_lt ht) (by omega)
    have hlines : c.dumpLines keycodeZero table = [] := if_pos h0
    rw [hlines] at hdump
    rw [lkDumpKeymaps_of_total_zero h0]
    set fp : Kbdfile := ⟨id, pathname, []⟩
    obtain ⟨fuel, r, hparse, hctx⟩ := @accepted_of_reads find _ _ fp _ (.refl _) (between_start _ fp)
    refine ⟨[], fuel, r, lkInit c.flags c.charset, hdump, hparse, ?_, ?_, ?_⟩
    · rw [hctx]
      exact lkAddConstants_of_init rfl
    · funext t
      rw [hno]
      rfl
    · intro t i ht
      rw [hno] at ht
      cases ht
  · set fp : Kbdfile := ⟨id, pathname, lkDumpKeymaps c ++
      (c.dumpLines keycodeZero table).flatMap (DumpLine.text c style)⟩ with hfp
    obtain ⟨p', d, hp', hd, hread⟩ := reads_shortText find
      (startReader (lkInit c.flags c.charset) fp) hc h0 hmaps htable (readsBack_rowVal hback)
      (between_start _ fp)
    obtain ⟨fuel, r, hparse, hctx⟩ := accepted_of_reads hread hp'
    obtain ⟨c', hrun, hu⟩ := lkAddConstants_run (constantsReady_of_shortRead hd)
    have hexist : lkMapExists c' = lkMapExists c := hu.exist.trans hd.exist
    refine ⟨_, fuel, r, c', hdump, hparse, hctx ▸ hrun, hexist, ?_⟩
    intro t i ht hi
    rw [lkGetKey_eq_row (hexist ▸ ht), hu.row]
    exact constantRow_eq_restoredVal hd (by simpa using hi) ht

/-- Whatever the fuel, an accepted text has one result. -/
theorem lkParseKeymap_unique {ctx : LkCtx} {fp : Kbdfile} {fuel fuel' : Nat} {ok ok' : Bool}
    {r r' : Reader} (h : lkParseKeymap find fuel ctx emptyStack fp = some (ok, r))
    (h' : lkParseKeymap find fuel' ctx emptyStack fp = some (ok', r')) : (ok, r) = (ok', r') := by
  rw [lkParseKeymap_eq] at h h'
  obtain ⟨res, hrun, hres⟩ := Option.map_eq_some_iff.mp h
  obtain ⟨res', hrun', hres'⟩ := Option.map_eq_some_iff.mp h'
  obtain ⟨t, ht, hlast⟩ := Machine.exists_last hrun
  obtain ⟨t', ht', hlast'⟩ := Machine.exists_last hrun'
  obtain rfl := Machine.last_unique ht hlast ht' hlast'
  obtain rfl := Sum.inr.inj (hlast.symm.trans hlast')
  rw [← hres, ← hres']

/-- The keymap is restored exactly if the bindings of each of its keys are. -/
theorem roundTrips_iff (hc : MapsTight c)
    (hmaps : ∀ t, lkMapExists c t = true → t < maxNrKeymaps) (htable : WritesShort table)
    (hback : ∀ t i, lkKeyExists c t i = true → ReadsBack c style (lkGetKey c t i)) :
    RoundTrips find keycodeZero style id pathname table c ↔
      ∀ i ∈ dumpedKeys keycodeZero, c.Restored (dumpsAltIsMeta keycodeZero c table) i := by
  obtain ⟨keys, fuel, r, c', hdump, hparse, hrun, hexist, hget⟩ :=
    @lkParseKeymap_reads_short find keycodeZero style id pathname c table hc hmaps htable hback
  have hrestored (i : Nat) (hi : i ∈ dumpedKeys keycodeZero) :
      c.Restored (dumpsAltIsMeta keycodeZero c table) i ↔
        ∀ t, lkMapExists c t = true → lkGetKey c' t i = lkGetKey c t i := by
    rw [← restoredVal_eq_iff (metaForms_of_dumped hi)]
    refine forall_congr' fun t => imp_congr_right fun ht => ?_
    rw [hget t i ht hi, LkCtx.rowVal, if_pos ht]
  constructor
  · rintro ⟨keys₂, fuel₂, r₂, c₂, hdump₂, hparse₂, hrun₂, -, hget₂⟩ i hi
    obtain rfl := Option.some.inj (hdump.symm.trans hdump₂)
    have hsame := lkParseKeymap_unique find hparse hparse₂
    simp only [Prod.mk.injEq, true_and] at hsame
    subst hsame
    rw [hrun] at hrun₂
    cases hrun₂
    obtain ⟨hmin, hlt⟩ := mem_dumpedKeys.mp hi
    exact (hrestored i hi).mpr fun t ht => hget₂ t i ht hmin hlt
  · intro h
    refine ⟨keys, fuel, r, c', hdump, hparse, hrun, fun t => congrFun hexist t, ?_⟩
    intro t i ht hmin hlt
    have hi : i ∈ dumpedKeys keycodeZero := mem_dumpedKeys.mpr ⟨hmin, hlt⟩
    exact (hrestored i hi).mp (h i hi) t ht

end Whole

/-! ## Keymaps that have been loaded -/

/-- What `lk_parse_keymap` and `lk_add_constants` leave is tight. -/
theorem mapsTight_of_parsed {find : FindIncl} {fuel : Nat} {flags : LkFlags} {charset : Nat}
    {fp : Kbdfile} {r : Reader} {c : LkCtx}
    (hparse : lkParseKeymap find fuel (lkInit flags charset) emptyStack fp = some (true, r))
    (hrun : lkAddConstants.run r.parser.ctx = .ok () c) : MapsTight c := by
  have htight := runStmts_tight (runStmts_of_accepted hparse) (mapsTight_lkInit flags charset)
  have hu := rowsUpdate_of_run hrun
  intro t ht
  rw [hu.exist]
  exact htight t (hu.total ▸ ht)

/-- A keymap that has been loaded and is written in a shape with shorthands is restored exactly if
the bindings of each of its keys are. -/
theorem lkParseKeymap_lkDumpKeys_short {find₀ : FindIncl} {fuel : Nat} {flags : LkFlags}
    {charset : Nat} {fp : Kbdfile} {r : Reader} {c : LkCtx} (find : FindIncl)
    (keycodeZero : Bool) (style : PrintStyle) (id : Nat) (pathname : List Char) {table : TableShape}
    (hparse : lkParseKeymap find₀ fuel (lkInit flags charset) emptyStack fp = some (true, r))
    (hrun : lkAddConstants.run r.parser.ctx = .ok () c)
    (hmaps : ∀ t, lkMapExists c t = true → t < maxNrKeymaps) (htable : WritesShort table)
    (hback : ∀ t i, lkKeyExists c t i = true → ReadsBack c style (lkGetKey c t i)) :
    RoundTrips find keycodeZero style id pathname table c ↔
      ∀ i ∈ dumpedKeys keycodeZero, c.Restored (dumpsAltIsMeta keycodeZero c table) i :=
  roundTrips_iff find (mapsTight_of_parsed hparse hrun) hmaps htable hback

/-- A context with two maps, and key 30 in them. -/
def pairCtx (v w : Int) : LkCtx :=
  ((lkInit {} 0).afterKeymaps [(0, 1)]).putAll 30 [(0, v), (1, w)]

section Pair

variable {v w : Int}

theorem pairCtx_exists (t : Nat) : lkMapExists (pairCtx v w) t = decide (t < 2) := by
  have hstart : lkMapExists ((lkInit {} 0).afterKeymaps [(0, 1)]) t =
      (decide (t ∈ [0, 1]) || false) := lkMapExists_addMaps (lkInit {} 0) [0, 1] t
  rw [pairCtx, lkMapExists_putAll, hstart, Bool.eq_iff_iff]
  simp only [List.map_cons, List.map_nil, List.mem_cons, List.not_mem_nil, or_false, Bool.or_false,
    Bool.or_eq_true, decide_eq_true_eq]
  omega

/-- A text that is parsed as `pairCtx`, after `lk_add_constants`. -/
theorem pairCtx_of_parse {fuel : Nat} {text : String}
    (h : (lkParseKeymap (findText []) fuel (lkInit {} 0) emptyStack (fileOf text)).any
      fun res => res.1 && decide (res.2.parser.ctx = pairCtx v w)) :
    ∃ r, lkParseKeymap (findText []) fuel (lkInit {} 0) emptyStack (fileOf text) = some (true, r) ∧
      lkAddConstants.run r.parser.ctx = .ok () (pairCtx v w) := by
  obtain ⟨⟨ok, r⟩, hparse, hres⟩ := (Option.any_eq_true _ _).mp h
  simp only [Bool.and_eq_true, decide_eq_true_eq] at hres
  obtain ⟨rfl, hctx⟩ := hres
  refine ⟨r, hparse, ?_⟩
  have hsame := SameSettings.putAll ((lkInit {} 0).afterKeymaps [(0, 1)]) 30 [(0, v), (1, w)]
  have hmarks := SameSettings.addMaps (lkInit {} 0) [0, 1]
  rw [hctx]
  exact lkAddConstants_of_init (hsame.keyConstant.trans hmarks.keyConstant)

/-- The codes of the context are read back if those of its key are. -/
theorem pairCtx_readsBack
    (h : ∀ t < 2, ReadsBack (pairCtx v w) {} (lkGetKey (pairCtx v w) t 30)) (t i : Nat)
    (hkey : lkKeyExists (pairCtx v w) t i = true) :
    ReadsBack (pairCtx v w) {} (lkGetKey (pairCtx v w) t i) := by
  have hlt : t < 2 := by
    by_contra hlt
    rw [← isSome_row, row_eq_none_of_not_exists (by simp [pairCtx_exists, hlt])] at hkey
    cases hkey
  by_cases hi : i = 30
  · exact hi ▸ h t hlt
  · have hrow : (pairCtx v w).row i = fun _ => none := by
      rw [pairCtx, row_putAll_ne _ _ _ hi]
      exact row_addMaps _ _ _
    rw [← isSome_row, hrow] at hkey
    cases hkey

end Pair

theorem lkParseKeymap_lkDumpKeys_short_pair : ∃ r c,
    lkParseKeymap (findText []) 40 (lkInit {} 0) emptyStack
      (fileOf "keymaps 0-1\nkeycode 30 = F1 F2\n") = some (true, r) ∧
    lkAddConstants.run r.parser.ctx = .ok () c ∧
    RoundTrips (findText []) false {} 0 [] .default c := by
  have htext : (lkParseKeymap (findText []) 40 (lkInit {} 0) emptyStack
      (fileOf "keymaps 0-1\nkeycode 30 = F1 F2\n")).any
        fun res => res.1 && decide (res.2.parser.ctx = pairCtx (K ktFn 0) (K ktFn 1)) := by
    decide +kernel
  obtain ⟨r, hparse, hrun⟩ := pairCtx_of_parse htext
  refine ⟨r, _, hparse, hrun, (lkParseKeymap_lkDumpKeys_short (findText []) false {} 0 [] hparse
    hrun (fun t ht => ?_) (Or.inl rfl) (pairCtx_readsBack (by decide +kernel))).mpr
      (by decide +kernel)⟩
  rw [pairCtx_exists, decide_eq_true_eq] at ht
  exact Nat.lt_trans ht (by decide)

/-- Of `F1 VoidSymbol` only `F1` is written, which is read as `F1` in both maps. -/
theorem not_lkParseKeymap_lkDumpKeys_short :
    ¬ ∀ find₀ fuel flags charset fp r c find keycodeZero style id pathname table,
      lkParseKeymap find₀ fuel (lkInit flags charset) emptyStack fp = some (true, r) →
      lkAddConstants.run r.parser.ctx = .ok () c →
      (∀ t, lkMapExists c t = true → t < maxNrKeymaps) → WritesShort table →
      (∀ t i, lkKeyExists c t i = true → ReadsBack c style (lkGetKey c t i)) →
        RoundTrips find keycodeZero style id pathname table c := by
  intro hall
  have htext : (lkParseKeymap (findText []) 40 (lkInit {} 0) emptyStack
      (fileOf "keymaps 0-1\nkeycode 30 = F1 VoidSymbol\n")).any
        fun res => res.1 && decide (res.2.parser.ctx = pairCtx (K ktFn 0) kHole) := by
    decide +kernel
  obtain ⟨r, hparse, hrun⟩ := pairCtx_of_parse htext
  have hmaps (t : Nat) (ht : lkMapExists (pairCtx (K ktFn 0) kHole) t = true) :
      t < maxNrKeymaps := by
    rw [pairCtx_exists, decide_eq_true_eq] at ht
    exact Nat.lt_trans ht (by decide)
  have hback := @pairCtx_readsBack (K ktFn 0) kHole (by decide +kernel)
  have htrip := hall _ _ _ _ _ _ _ (findText []) false {} 0 [] .default hparse hrun hmaps
    (Or.inl rfl) hback
  rw [roundTrips_iff (findText []) (mapsTight_of_parsed hparse hrun) hmaps (Or.inl rfl) hback] at htrip
  exact absurd (htrip 30 (by decide)) (by decide +kernel)

end Kbd.Keymap
