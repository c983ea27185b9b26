import Kbd.Keymap.Programs
import Kbd.Keymap.Verify.Compose
import Kbd.Keymap.Verify.ShortRoundTrip

/-!
# Reading a whole written keymap

`TextTriple` is a triple for texts: in a context in which one thing holds, between two lines, a text is
read and leaves a context in which another holds. The rules for it are those for machines. With them
the parts of a written keymap are put together: the text that `lk_dump_keymap` and `lk_dump_diacs`
write in any of the shapes is read as what `WrittenAs` says (`textTriple_lkDumpKeymap`).
-/

namespace Kbd.Keymap

open Kbd.Lib

/-! ## Triples -/

/-- Between two lines, in front of the text `s` or of blanks before it, with a context in which `P`
holds. But for the string of the scanner, the rest of the reader is as in `r₀`. -/
def AtLine (r₀ : Reader) (P : LkCtx → Prop) (s : List Char) (r : Reader) : Prop :=
  ∃ p c u b, P c ∧ Between p c ∧ Blanks b ∧
    r = { r₀ with str := u }.at (Place.after ⟨p, [], s⟩ b)

/-- In a context in which `P` holds the text `w` is read, whatever comes after it, and leaves a context
in which `Q` holds. -/
def TextTriple (find : FindIncl) (P : LkCtx → Prop) (w : List Char) (Q : LkCtx → Prop) : Prop :=
  ∀ r₀ s, Machine.Leads (readStep find) (AtLine r₀ P (w ++ s)) (AtLine r₀ Q s)

namespace TextTriple

variable {find : FindIncl} {P Q R : LkCtx → Prop} {w w' : List Char}

theorem append (h : TextTriple find P w Q) (h' : TextTriple find Q w' R) : TextTriple find P (w ++ w') R := by
  intro r₀ s
  rw [List.append_assoc]
  exact (h r₀ _).trans (h' r₀ s)

/-- The rule of consequence. -/
theorem mono {P' Q' : LkCtx → Prop} (h : TextTriple find P w Q) (hP : ∀ c, P' c → P c)
    (hQ : ∀ c, Q c → Q' c) : TextTriple find P' w Q' := by
  intro r₀ s
  refine (h r₀ s).mono ?_ ?_
  · rintro r ⟨p, c, u, b, hc, hr⟩
    exact ⟨p, c, u, b, hP c hc, hr⟩
  · rintro r ⟨p, c, u, b, hc, hr⟩
    exact ⟨p, c, u, b, hQ c hc, hr⟩

/-- The rule for a loop, with an invariant on what it has done. -/
theorem flatMap {α : Type} {I : List α → LkCtx → Prop} {f : α → List Char} {as : List α}
    (h : ∀ done a rest, as = done ++ a :: rest → TextTriple find (I done) (f a) (I (done ++ [a]))) :
    TextTriple find (I []) (as.flatMap f) (I as) := fun r₀ =>
  Machine.Leads.flatMap (A := fun done => AtLine r₀ (I done)) fun done a rest has =>
    h done a rest has r₀

theorem of_reads (h : ∀ (r : Reader) p c s, P c → Between p c → ∃ p' c', Between p' c' ∧ Q c' ∧
    Reads find r ⟨p, [], w ++ s⟩ ⟨p', [], s⟩) : TextTriple find P w Q := by
  rintro r₀ s r ⟨p, c, u, b, hc, hp, hb, rfl⟩
  obtain ⟨p', c', hp', hc', hread⟩ := h { r₀ with str := u } p c s hc hp
  obtain ⟨b', hb', hsteps⟩ := hread b hb
  exact ⟨_, hsteps, p', c', u, b', hc', hp', hb', rfl⟩

theorem of_readsString (h : ∀ p c s, P c → Between p c → ∃ p' c', Between p' c' ∧ Q c' ∧
    ReadsString find ⟨p, [], w ++ s⟩ ⟨p', [], s⟩) : TextTriple find P w Q := by
  rintro r₀ s r ⟨p, c, u, b, hc, hp, hb, rfl⟩
  obtain ⟨p', c', hp', hc', hread⟩ := h p c s hc hp
  obtain ⟨u', b', hb', hsteps⟩ := hread { r₀ with str := u } b hb
  exact ⟨_, hsteps, p', c', u', b', hc', hp', hb', rfl⟩

/-- A text that is taken is accepted. -/
theorem accepted {ctx : LkCtx} {fp : Kbdfile} (h : TextTriple find (· = ctx) fp.text Q) :
    ∃ fuel r, lkParseKeymap find fuel ctx emptyStack fp = some (true, r) ∧ Q r.parser.ctx := by
  have hstart : AtLine (startReader ctx fp) (· = ctx) (fp.text ++ []) (startReader ctx fp) := by
    rw [List.append_nil]
    exact ⟨_, ctx, _, [], rfl, between_start ctx fp, blanks_nil, rfl⟩
  obtain ⟨r, hsteps, p, c, u, b, hc, hp, hb, rfl⟩ := h (startReader ctx fp) [] _ hstart
  obtain ⟨fuel, r, hrun, rfl⟩ := accepted_of_steps hb hsteps hp
  exact ⟨fuel, r, hrun, hc⟩

end TextTriple

/-! ## The keys -/

section Keys

variable (keycodeZero : Bool) (table : TableShape) (c d : LkCtx)

/-- Key `i` has lines. -/
def LkCtx.Writes (i : Nat) : Prop :=
  i ∈ dumpedKeys keycodeZero ∧ (table = .fullTable ∨ c.allHoles i = false)

instance (i : Nat) : Decidable (c.Writes keycodeZero table i) := inferInstanceAs (Decidable (_ ∧ _))

/-- What is read for a key with lines in the map `t`. -/
def LkCtx.readVal (i t : Nat) : Int :=
  match table with
  | .fullTable | .separateLines => c.rowVal i t
  | .default | .untilHole => c.restoredVal (dumpsAltIsMeta keycodeZero c table) i t

/-- The keymap of `d` has what is written for `c`, after `lk_add_constants`. -/
structure KeysRead : Prop where
  flags : d.flags = c.flags
  charset : d.charset = c.charset
  keymaps : d.keywords.keymaps = true
  ready : ConstantsReady d
  maps : lkMapExists d = lkMapExists c
  rows : ∀ i t, lkMapExists c t = true → d.constantRow i t =
    if c.Writes keycodeZero table i then some (c.readVal keycodeZero table i t) else none

variable {keycodeZero table c d}

/-- The strings and the accent table are something else. -/
theorem KeysRead.congr (h : KeysRead keycodeZero table c d) (funcs : LkArray (Option (List Char)))
    (accents : LkArray (Option LkKbdiacr)) :
    KeysRead keycodeZero table c { d with funcTable := funcs, accentTable := accents } :=
  ⟨h.flags, h.charset, h.keymaps, h.ready, h.maps, h.rows⟩

/-- The lines for the keys `done` have been read, in a shape without shorthands. -/
structure KeysTo (table : TableShape) (c : LkCtx) (done : List Nat) (d : LkCtx) : Prop where
  restores : ∃ ks, Restores c d ks
  rows : ∀ i t, lkMapExists c t = true → d.row i t =
    if i ∈ done ∧ (table = .fullTable ∨ c.allHoles i = false) then some (c.rowVal i t) else none
  other : SameOther (lkInit c.flags c.charset) d

theorem KeysTo.readKey {done : List Nat} (h : KeysTo table c done d) {i : Nat} (hi : i ∉ done) :
    KeysTo table c (done ++ [i]) (c.readKey table d i) := by
  obtain ⟨ks, hks⟩ := h.restores
  have hmem (i' : Nat) (hne : i' ≠ i) : i' ∈ done ++ [i] ↔ i' ∈ done := by simp [hne]
  unfold LkCtx.readKey
  split
  · rename_i hno
    refine ⟨h.restores, fun i' t ht => ?_, h.other⟩
    rw [h.rows i' t ht]
    by_cases hii : i' = i
    · subst hii
      simp [hi, hno]
    · simp only [hmem i' hii]
  · rename_i hwrites
    have hwrites' : table = .fullTable ∨ c.allHoles i = false := by
      by_contra hno
      rw [not_or, Bool.not_eq_false] at hno
      exact hwrites hno
    have hne : ∀ b ∈ c.bindings i, b.2 ≠ codeForUnknownKsym := by
      intro b hb
      obtain ⟨j, -, rfl⟩ := List.mem_map.mp hb
      exact rowVal_ne i j
    refine ⟨⟨_, hks.putAll i⟩, fun i' t ht => ?_, h.other.trans (SameSettings.putAll d i _).sameOther⟩
    by_cases hii : i' = i
    · subst hii
      rw [row_putAll d i' _ hne, hks.altIsMeta, LkCtx.bindings, Row.putAll_map,
        if_pos (mem_maps.mpr ht), if_pos ⟨by simp, hwrites'⟩]
    · rw [row_putAll_ne d i _ hii, h.rows i' t ht]
      simp only [hmem i' hii]

theorem KeysTo.keysRead (h : KeysTo table c (dumpedKeys keycodeZero) d)
    (htable : table = .fullTable ∨ table = .separateLines) : KeysRead keycodeZero table c d := by
  obtain ⟨ks, hks⟩ := h.restores
  have hmark (i : Nat) : d.keyConstant.get i = false := by
    rw [hks.keyConstant]
    exact LkArray.get_init i
  have hval (i t : Nat) : c.readVal keycodeZero table i t = c.rowVal i t := by
    rcases htable with rfl | rfl <;> rfl
  refine ⟨hks.flags, hks.charset, hks.keymaps, fun i hi => ?_, hks.exist, fun i t ht => ?_⟩
  · rw [hmark] at hi
    cases hi
  · rw [LkCtx.constantRow, hmark, if_neg Bool.false_ne_true, h.rows i t ht, hval]
    rfl

/-- After all lines, in a shape with shorthands. -/
theorem keysRead_of_shortRead
    (h : ShortRead c (dumpsAltIsMeta keycodeZero c table) d (dumpedKeys keycodeZero).reverse)
    (htable : WritesShort table) : KeysRead keycodeZero table c d := by
  refine ⟨h.flags, h.charset, h.keymaps, constantsReady_of_shortRead h, h.exist, fun i t ht => ?_⟩
  have hval : c.readVal keycodeZero table i t =
      c.restoredVal (dumpsAltIsMeta keycodeZero c table) i t := by
    rcases htable with rfl | rfl <;> rfl
  have hshape : table ≠ .fullTable := by
    rcases htable with rfl | rfl <;> decide
  by_cases hi : i ∈ dumpedKeys keycodeZero
  · rw [constantRow_eq_ite h (List.mem_reverse.mpr hi) ht, hval]
    by_cases hholes : c.allHoles i = true
    · simp [LkCtx.Writes, hshape, hholes]
    · simp [LkCtx.Writes, hi, hholes]
  · have hmark : d.keyConstant.get i = false := by
      rw [h.marks]
      simp [hi]
    rw [LkCtx.constantRow, hmark, if_neg Bool.false_ne_true, h.rows]
    simp [LkCtx.Writes, hi]

end Keys

/-- What a context must be like for its text to be read back: the array of the maps ends with a map,
there are as many maps as the shape needs, and what is printed for each code, string and compose
definition stands for it. -/
structure Writable (table : TableShape) (style : PrintStyle) (c : LkCtx) : Prop where
  tight : MapsTight c
  maps : ∀ t, lkMapExists c t = true → t < maxNrKeymaps
  count : (if table = .fullTable then 2 else 1) ≤ c.maps.length
  cells : ∀ t i, lkKeyExists c t i = true → ReadsBack c style (lkGetKey c t i)
  strings : ∀ i s, c.funcTable.get i = some s → FuncString s ∧ FuncReadsBack c i
  noHoles : NoHoles c
  accents : ∀ d ∈ liveDiacrs c, DiacrReadsBack c d

section Whole

variable {find : FindIncl} {keycodeZero : Bool} {style : PrintStyle} {table : TableShape} {c : LkCtx}

theorem Writable.total_ne (h : Writable table style c) : c.keymap.total ≠ 0 := by
  intro h0
  have hcount := h.count
  rw [LkCtx.maps, h0] at hcount
  split at hcount <;> simp at hcount

theorem Writable.length_le (h : Writable table style c) : c.maps.length ≤ maxNrKeymaps := by
  have hle := List.length_filter_le (lkMapExists c) (List.range c.keymap.total)
  rw [List.length_range] at hle
  exact Nat.le_trans hle (total_le_of_maps h.tight h.maps)

/-- The `keymaps` line. -/
theorem Writable.textTriple_keymaps (h : Writable table style c) :
    ∃ qs : List MapRange, (∀ t, lkMapExists c t = true ↔ ∃ q ∈ qs, MapRange.Has q t) ∧
      TextTriple find (· = lkInit c.flags c.charset) (lkDumpKeymaps c)
        (· = (lkInit c.flags c.charset).afterKeymaps qs) := by
  obtain ⟨qs, htext, hle, hqs⟩ := lkDumpKeymaps_eq c
  have hne : qs ≠ [] := by
    rintro rfl
    obtain ⟨t, ht⟩ := Nat.exists_eq_succ_of_ne_zero h.total_ne
    obtain ⟨q, hq, -⟩ := (hqs t).mp (h.tight t ht)
    cases hq
  have hlt : ∀ q ∈ qs, q.2 < 256 := by
    intro q hq
    exact h.maps q.2 ((hqs q.2).mpr ⟨q, hq, hle q hq, Nat.le_refl _⟩)
  refine ⟨qs, hqs, .of_reads fun r p c' s hc' hp => ?_⟩
  obtain ⟨p', hp', hread⟩ := reads_keymapsLine find r hne hle hlt hp s
  rw [htext]
  exact ⟨p', _, hp', by rw [hc'], hread⟩

theorem sameOther_afterKeymaps (c : LkCtx) (qs : List MapRange) : SameOther c (c.afterKeymaps qs) := by
  have hsame := SameSettings.addMaps c (qs.flatMap MapRange.list)
  exact ⟨hsame.funcTable, hsame.accentTable⟩

/-- A key that is read is not one of those before it. -/
theorem key_of_split {done rest : List Nat} {i : Nat}
    (h : dumpedKeys keycodeZero = done ++ i :: rest) : i < nrKeys ∧ i ∉ done := by
  have hnodup : (dumpedKeys keycodeZero).Nodup := List.nodup_range'
  have hmem : i ∈ dumpedKeys keycodeZero := by
    rw [h]
    simp
  rw [h, List.nodup_append] at hnodup
  exact ⟨(mem_dumpedKeys.mp hmem).2, fun hi => hnodup.2.2 i hi i List.mem_cons_self rfl⟩

/-- The lines of the keys, in a shape without shorthands. -/
theorem Writable.textTriple_longKeys (h : Writable table style c)
    (htable : table = .fullTable ∨ table = .separateLines) {qs : List MapRange}
    (hqs : ∀ t, lkMapExists c t = true ↔ ∃ q ∈ qs, MapRange.Has q t) :
    TextTriple find (· = (lkInit c.flags c.charset).afterKeymaps qs)
      ((c.dumpLines keycodeZero table).flatMap (DumpLine.text c style))
      fun d => KeysRead keycodeZero table c d ∧ SameOther (lkInit c.flags c.charset) d := by
  have hlines : (c.dumpLines keycodeZero table).flatMap (DumpLine.text c style) =
      (dumpedKeys keycodeZero).flatMap fun i =>
        (c.keyLines table false i).flatMap (DumpLine.text c style) := by
    have hm : dumpsAltIsMeta keycodeZero c table = false := by
      rcases htable with rfl | rfl <;> rfl
    rw [LkCtx.dumpLines, if_neg h.total_ne, hm, ← List.flatMap_assoc]
    rfl
  have hall : WritesAll c table := by
    have hcount := h.count
    rcases htable with rfl | rfl
    · exact .inr ⟨rfl, hcount⟩
    · exact .inl ⟨rfl, hcount⟩
  have hstart : KeysTo table c [] ((lkInit c.flags c.charset).afterKeymaps qs) := by
    refine ⟨⟨[], restores_afterKeymaps h.tight hqs⟩, fun i t _ => ?_, sameOther_afterKeymaps _ qs⟩
    change ((lkInit c.flags c.charset).addMaps _).row i t = _
    rw [row_addMaps, if_neg fun hno => List.not_mem_nil hno.1]
    rfl
  rw [hlines]
  refine (TextTriple.flatMap (I := KeysTo table c) fun done i rest hsplit =>
    .of_reads fun r p d s hd hp => ?_).mono (fun d hd => hd ▸ hstart) fun d hd =>
      ⟨hd.keysRead htable, hd.other⟩
  obtain ⟨hi, hnew⟩ := key_of_split hsplit
  obtain ⟨ks, hks⟩ := hd.restores
  obtain ⟨p', hp', hread⟩ := reads_readKey find r hall h.maps h.length_le hi
    (fun t _ => readsBack_rowVal h.cells i t) hks hp s
  exact ⟨p', _, hp', hd.readKey hnew, hread⟩

/-- The lines of the keys, in a shape with shorthands. -/
theorem Writable.textTriple_shortKeys (h : Writable table style c) (htable : WritesShort table)
    {qs : List MapRange} (hqs : ∀ t, lkMapExists c t = true ↔ ∃ q ∈ qs, MapRange.Has q t) :
    TextTriple find (· = (lkInit c.flags c.charset).afterKeymaps qs)
      ((c.dumpLines keycodeZero table).flatMap (DumpLine.text c style))
      fun d => KeysRead keycodeZero table c d ∧ SameOther (lkInit c.flags c.charset) d := by
  set m := dumpsAltIsMeta keycodeZero c table with hm
  set start := (lkInit c.flags c.charset).afterKeymaps qs with hstartdef
  have hlines : (c.dumpLines keycodeZero table).flatMap (DumpLine.text c style) =
      (if m then [DumpLine.altIsMeta] else []).flatMap (DumpLine.text c style) ++
        (dumpedKeys keycodeZero).flatMap fun i =>
          (c.keyLines table m i).flatMap (DumpLine.text c style) := by
    rw [LkCtx.dumpLines, if_neg h.total_ne, List.flatMap_append, List.flatMap_assoc]
  have hother : SameOther (lkInit c.flags c.charset) (start.setAltIsMeta m) := by
    have hsame := sameOther_afterKeymaps (lkInit c.flags c.charset) qs
    cases m <;> exact ⟨hsame.funcTable, hsame.accentTable⟩
  have hhead : TextTriple find (· = start)
      ((if m then [DumpLine.altIsMeta] else []).flatMap (DumpLine.text c style))
      (· = start.setAltIsMeta m) := by
    refine .of_reads fun r p d s hd hp => ?_
    obtain ⟨p', hp', hread⟩ := reads_altIsMetaLine find r c style hp m s
    exact ⟨p', _, hp', by rw [hd], hread⟩
  have hkeys : TextTriple find
      (fun d => ShortRead c m d ([] : List Nat).reverse ∧ SameOther (lkInit c.flags c.charset) d)
      ((dumpedKeys keycodeZero).flatMap fun i =>
        (c.keyLines table m i).flatMap (DumpLine.text c style))
      fun d => ShortRead c m d (dumpedKeys keycodeZero).reverse ∧
        SameOther (lkInit c.flags c.charset) d := by
    refine TextTriple.flatMap (I := fun done d => ShortRead c m d done.reverse ∧
      SameOther (lkInit c.flags c.charset) d) fun done i rest hsplit =>
        .of_reads fun r p d s hd hp => ?_
    obtain ⟨hi, hnew⟩ := key_of_split hsplit
    rw [← List.mem_reverse] at hnew
    obtain ⟨p', d', hp', hd', hsame, hread⟩ := reads_shortKey_sameOther find r h.maps
      (readsBack_rowVal h.cells) hi hd.1 hnew hp s
    rw [← keyLines_of_short htable] at hread
    refine ⟨p', d', hp', ⟨?_, hd.2.trans hsame⟩, hread⟩
    rwa [List.reverse_append]
  rw [hlines]
  refine hhead.append (hkeys.mono ?_ ?_)
  · rintro d rfl
    exact ⟨shortRead_start h.tight hqs m, hother⟩
  · rintro d ⟨hd, hsame⟩
    exact ⟨keysRead_of_shortRead hd htable, hsame⟩

/-! ## The strings and the compose definitions -/

/-- The lines of the strings. -/
theorem Writable.textTriple_funcs (h : Writable table style c) :
    TextTriple find
      (fun d => KeysRead keycodeZero table c d ∧ SameOther (lkInit c.flags c.charset) d)
      (lkDumpFuncs c)
      fun d => KeysRead keycodeZero table c d ∧ d.accentTable = .init ∧
        ∀ i, d.funcTable.get i = c.funcTable.get i := by
  refine (TextTriple.flatMap (I := fun done d => KeysRead keycodeZero table c d ∧
    d.accentTable = .init ∧ ∀ i, d.funcTable.get i =
      if i ∈ done then c.funcTable.get i else none) fun done i rest _ =>
        .of_readsString fun p d s hd hp => ?_).mono ?_ ?_
  · obtain ⟨hkeys, haccents, hfuncs⟩ := hd
    cases hi : c.funcTable.get i with
    | none =>
      refine ⟨p, d, hp, ⟨hkeys, haccents, fun j => ?_⟩, .of_reads fun r => .refl _⟩
      rw [hfuncs]
      by_cases hj : j = i
      · simp [hj, hi]
      · simp [hj]
    | some str =>
      obtain ⟨hstr, name, hname, hback⟩ := h.strings i str hi
      rw [← ksymtocode_congr hkeys.flags hkeys.charset] at hback
      obtain ⟨p', hp', hread⟩ := reads_funcLine find hp hname hback hstr s
      refine ⟨p', d.putFunc i str, hp', ⟨hkeys.congr _ d.accentTable, haccents, fun j => ?_⟩, hread⟩
      change (d.funcTable.set i (some str)).get j = _
      rw [LkArray.get_set, hfuncs]
      by_cases hj : j = i
      · simp [hj, hi]
      · simp [hj]
  · rintro d ⟨hkeys, hsame⟩
    refine ⟨hkeys, hsame.accentTable, fun i => ?_⟩
    rw [hsame.funcTable, if_neg List.not_mem_nil]
    exact LkArray.get_init i
  · rintro d ⟨hkeys, haccents, hfuncs⟩
    refine ⟨hkeys, haccents, fun i => ?_⟩
    rw [hfuncs]
    split
    · rfl
    · rename_i hi
      rw [List.mem_range, Nat.not_lt] at hi
      exact (LkArray.get_of_total_le hi).symm

/-- The context `d` has what is written for `c`. -/
structure WrittenAs (keycodeZero : Bool) (table : TableShape) (c d : LkCtx) : Prop
    extends KeysRead keycodeZero table c d where
  strings : ∀ i, d.funcTable.get i = c.funcTable.get i
  noHoles : NoHoles d
  accents : liveDiacrs d = liveDiacrs c

/-- The lines of the compose definitions. -/
theorem Writable.textTriple_diacs (h : Writable table style c) :
    TextTriple find
      (fun d => KeysRead keycodeZero table c d ∧ d.accentTable = .init ∧
        ∀ i, d.funcTable.get i = c.funcTable.get i)
      (lkDumpDiacs c) (WrittenAs keycodeZero table c) := by
  have hlive := h.noHoles.liveDiacrs_eq
  refine (TextTriple.flatMap (I := fun done d => KeysRead keycodeZero table c d ∧ NoHoles d ∧
    dumpedDiacs d = done ∧ ∀ i, d.funcTable.get i = c.funcTable.get i) fun done dcr rest hsplit =>
      .of_reads fun r p d s hd hp => ?_).mono ?_ ?_
  · obtain ⟨hkeys, hholes, hdone, hfuncs⟩ := hd
    have hdcr := h.accents dcr (by rw [hlive, hsplit]; simp)
    obtain ⟨p', hp', hread⟩ := reads_diacLine find r hdcr hkeys.flags hkeys.charset hp s
    refine ⟨p', lkAppendDiacr d dcr, hp', ⟨hkeys.congr d.funcTable _, hholes.append dcr, ?_, hfuncs⟩,
      hread⟩
    rw [dumpedDiacs_append, hdone]
  · rintro d ⟨hkeys, haccents, hfuncs⟩
    refine ⟨hkeys, fun i => ?_, ?_, hfuncs⟩
    · rw [haccents]
      exact noHoles_lkInit c.flags c.charset i
    · rw [dumpedDiacs, haccents]
      rfl
  · rintro d ⟨hkeys, hholes, hdone, hfuncs⟩
    exact ⟨hkeys, hfuncs, hholes, by rw [hholes.liveDiacrs_eq, hdone, hlive]⟩

/-! ## The whole text -/

/-- What is written for a context is read as this context. -/
theorem Writable.textTriple_lkDumpKeymap (h : Writable table style c) :
    ∃ keymap, lkDumpKeymap keycodeZero c table style = some keymap ∧
      TextTriple find (· = lkInit c.flags c.charset) (keymap ++ lkDumpDiacs c)
        (WrittenAs keycodeZero table c) := by
  have hdump := lkDumpKeys_eq (total_le_of_maps h.tight h.maps) keycodeZero table style
  obtain ⟨qs, hqs, hkeymaps⟩ := @Writable.textTriple_keymaps find style table c h
  have hkeys : TextTriple find (· = (lkInit c.flags c.charset).afterKeymaps qs)
      ((c.dumpLines keycodeZero table).flatMap (DumpLine.text c style))
      fun d => KeysRead keycodeZero table c d ∧ SameOther (lkInit c.flags c.charset) d := by
    cases table with
    | fullTable => exact h.textTriple_longKeys (.inl rfl) hqs
    | separateLines => exact h.textTriple_longKeys (.inr rfl) hqs
    | default => exact h.textTriple_shortKeys (.inl rfl) hqs
    | untilHole => exact h.textTriple_shortKeys (.inr rfl) hqs
  refine ⟨_, ?_, ((hkeymaps.append hkeys).append h.textTriple_funcs).append h.textTriple_diacs⟩
  rw [lkDumpKeymap, hdump]
  rfl

end Whole

end Kbd.Keymap
