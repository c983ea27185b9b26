import Kbd.Keymap.Verify.Include
import Kbd.Keymap.Verify.KeymapsLine
import Kbd.Keymap.Verify.Override

/-!
# Reading back a written keymap

In the shapes without shorthands every binding is printed, and a context that is written and read
again has the same maps with the same bindings (`lkParseKeymap_lkDumpKeys`), as long as each code is
read back from what is printed for it.
-/

namespace Kbd.Keymap

open Kbd.Lib

/-! ## The bindings of a key -/

theorem Row.putAll_map (f : Nat → Int) (js : List Nat) (exist : Nat → Bool) (r : Row) (t : Nat) :
    Row.putAll false exist r (js.map fun j => (j, f j)) t = if t ∈ js then some (f t) else r t := by
  induction js generalizing exist r with
  | nil => rfl
  | cons j js ih =>
    refine (ih _ _).trans ?_
    rw [put_false]
    by_cases ht : t = j
    · simp [ht]
    · simp [ht]

theorem maps_putAll {c : LkCtx} {i : Nat} {bs : List (Nat × Int)}
    (h : ∀ b ∈ bs, lkMapExists c b.1 = true) : (c.putAll i bs).maps = c.maps := by
  induction bs generalizing c with
  | nil => rfl
  | cons b bs ih =>
    rw [List.forall_mem_cons] at h
    have hex : lkMapExists (c.putKey b.1 i b.2) = lkMapExists c := by
      funext t
      rw [lkMapExists_putKey]
      by_cases ht : t = b.1
      · simp [ht, h.1]
      · simp [ht]
    have htotal : (c.putKey b.1 i b.2).keymap.total = c.keymap.total := by
      have := lkMapExists_lt h.1
      rw [total_putKey]
      omega
    refine (ih (c := c.putKey b.1 i b.2) fun b' hb' => hex ▸ h.2 b' hb').trans ?_
    rw [LkCtx.maps, LkCtx.maps, hex, htotal]

/-- A line with other than one value binds each map to the value at its place. -/
theorem fillBindings_getD (f : Nat → Int) {vs : List Int} (hlen : vs.length ≠ 1) {ms : List Nat}
    {k : Nat} (hvs : ∀ l < ms.length, vs.getD (k + l) kHole = f (ms.getD l 0)) :
    fillBindings vs ms k = ms.map fun j => (j, f j) := by
  induction ms generalizing k with
  | nil => rfl
  | cons m ms ih =>
    have hhead : vs.getD k kHole = f m := hvs 0 (Nat.succ_pos _)
    have htail := ih (k := k + 1) fun l hl => by
      rw [Nat.add_assoc, Nat.add_comm 1 l, hvs (l + 1) (Nat.succ_lt_succ hl)]
      rfl
    have hfills : fillsMap vs k = true := by simp [fillsMap, hlen]
    rw [fillBindings_cons, if_pos hfills, hhead, htail]
    rfl

/-! ## What has been read -/

/-- The context `d` has been read up to the keys `ks` of what is written for `c`. -/
structure Restores (c d : LkCtx) (ks : List Nat) : Prop where
  flags : d.flags = c.flags
  charset : d.charset = c.charset
  keymaps : d.keywords.keymaps = true
  altIsMeta : d.keywords.altIsMeta = false
  keyConstant : d.keyConstant = .init
  maps : d.maps = c.maps
  rows : ∀ i t, lkMapExists c t = true →
    (d.row i t).getD kHole = if i ∈ ks then c.rowVal i t else kHole

/-- The bindings of key `i`. -/
def LkCtx.bindings (c : LkCtx) (i : Nat) : List (Nat × Int) := c.maps.map fun j => (j, c.rowVal i j)

theorem rowVal_ne {c : LkCtx} (i t : Nat) : c.rowVal i t ≠ codeForUnknownKsym := by
  unfold LkCtx.rowVal
  split
  · exact lkGetKey_ne ‹_› i
  · decide

section Restores

variable {c d : LkCtx} {ks : List Nat}

theorem Restores.exist (h : Restores c d ks) : lkMapExists d = lkMapExists c :=
  exist_eq_of_maps h.maps

/-- Binding a key as in `c`. -/
theorem Restores.putAll (h : Restores c d ks) (i : Nat) :
    Restores c (d.putAll i (c.bindings i)) (i :: ks) := by
  have hsame := SameSettings.putAll d i (c.bindings i)
  have hmaps : ∀ b ∈ c.bindings i, lkMapExists d b.1 = true := by
    intro b hb
    obtain ⟨j, hj, rfl⟩ := List.mem_map.mp hb
    rw [h.exist]
    exact mem_maps.mp hj
  have hne : ∀ b ∈ c.bindings i, b.2 ≠ codeForUnknownKsym := by
    intro b hb
    obtain ⟨j, -, rfl⟩ := List.mem_map.mp hb
    exact rowVal_ne i j
  refine ⟨hsame.flags.trans h.flags, hsame.charset.trans h.charset, ?_, ?_,
    hsame.keyConstant.trans h.keyConstant, (maps_putAll hmaps).trans h.maps, ?_⟩
  · rw [hsame.keywords, h.keymaps]
  · rw [hsame.keywords, h.altIsMeta]
  · intro i' t ht
    by_cases hi : i' = i
    · subst hi
      rw [row_putAll d i' _ hne, h.altIsMeta, LkCtx.bindings, Row.putAll_map, if_pos (mem_maps.mpr ht)]
      simp
    · rw [row_putAll_ne d i _ hi, h.rows i' t ht]
      simp [hi]

/-- A key without bindings. -/
theorem Restores.skip (h : Restores c d ks) {i : Nat} (hi : i ∉ ks) (hholes : c.allHoles i = true) :
    Restores c d (i :: ks) := by
  refine { h with rows := ?_ }
  intro i' t ht
  rw [h.rows i' t ht]
  by_cases hii : i' = i
  · subst hii
    have hhole : c.rowVal i' t = kHole := by
      have := List.all_eq_true.mp hholes t (List.mem_range.mpr (lkMapExists_lt ht))
      exact of_decide_eq_true this
    simp [hi, hhole]
  · simp [hii]

end Restores

/-! ## The lines of a key -/

section Lines

variable {c d : LkCtx} {ks : List Nat}

/-- A line of the full table binds its key. -/
theorem singleline_fullTable (h : Restores c d ks) (hlen : c.maps.length ≠ 1) {i : Nat}
    (hi : i < nrKeys) :
    (singleline i (c.maps.map (c.rowVal i))).run d = .ok () (d.putAll i (c.bindings i)) := by
  have hlen' : (c.maps.map (c.rowVal i)).length ≠ 1 := by rwa [List.length_map]
  have hline : lineBindings d (c.maps.map (c.rowVal i)) = c.bindings i := by
    rw [lineBindings, if_pos h.keymaps, h.maps]
    exact fillBindings_getD (c.rowVal i) hlen' fun l hl => by simp [hl]
  rw [singleline_eq_ok (by omega) (by omega), startLine_of_length_ne hlen', Int.toNat_natCast, hline]
  refine ⟨⟨?_, ?_⟩, rfl⟩
  · rw [hline]
    intro b hb
    obtain ⟨j, -, rfl⟩ := List.mem_map.mp hb
    exact rowVal_ne i j
  · intro _
    rw [List.length_map, h.maps]

/-- A line for one map binds the key in this map. -/
theorem modifierline_run {j i : Nat} {v : Int} (hi : i < nrKeys) (hv : v ≠ codeForUnknownKsym)
    (hj : lkMapExists d j = true) : (modifierline j i v).run d = .ok () (d.putKey j i v) := by
  have hin : (decide ((i : Int) < 0) || decide ((i : Int) ≥ nrKeys)) = false :=
    outOfRange_eq_false.mpr ⟨by omega, by omega⟩
  simp only [modifierline, hin, Bool.false_eq_true, ↓reduceIte, Int.toNat_natCast]
  exact lkAddKey_eq_ok.mpr ⟨hv, fun _ => hj, rfl⟩

variable (find : FindIncl) (r : Reader) {p : Parser} {style : PrintStyle}

/-- The lines for the maps `js`. -/
theorem reads_binds (hflags : d.flags = c.flags) (hcharset : d.charset = c.charset) {i : Nat}
    (hi : i < nrKeys) {js : List Nat} (hjs : ∀ j ∈ js, j < 256 ∧ lkMapExists d j = true)
    (hback : ∀ j ∈ js, ReadsBack c style (c.rowVal i j)) (hp : Between p d) (s : List Char) :
    ∃ p', Between p' (d.putAll i (js.map fun j => (j, c.rowVal i j))) ∧
      Reads find r ⟨p, [], (js.map fun j => DumpLine.bind i j (c.rowVal i j)).flatMap
        (DumpLine.text c style) ++ s⟩ ⟨p', [], s⟩ := by
  induction js generalizing d p with
  | nil => exact ⟨p, hp, .refl _⟩
  | cons j js ih =>
    rw [List.forall_mem_cons] at hjs hback
    have hsame := SameSettings.putKey d j i (c.rowVal i j)
    have hrun := modifierline_run (d := d) hi (rowVal_ne (c := c) i j) hjs.1.2
    obtain ⟨p₁, hp₁, hfirst⟩ := reads_bindLine find r hp hflags hcharset hi hjs.1.1
      hback.1 hrun ((js.map fun j => DumpLine.bind i j (c.rowVal i j)).flatMap
        (DumpLine.text c style) ++ s)
    have hexist : ∀ j' ∈ js, j' < 256 ∧ lkMapExists (d.putKey j i (c.rowVal i j)) j' = true := by
      intro j' hj'
      refine ⟨(hjs.2 j' hj').1, ?_⟩
      rw [lkMapExists_putKey, (hjs.2 j' hj').2, Bool.or_true]
    obtain ⟨p', hp', hmore⟩ := ih (hsame.flags.trans hflags) (hsame.charset.trans hcharset) hexist
      hback.2 hp₁
    refine ⟨p', hp', ?_⟩
    rw [List.map_cons, List.flatMap_cons, List.append_assoc]
    exact hfirst.trans hmore

/-- The lines of several keys, one key after the other. -/
theorem reads_each {I : List Nat → Parser → Prop} {f : Nat → List Char}
    (hstep : ∀ i < nrKeys, ∀ ks p s, i ∉ ks → I ks p →
      ∃ p', I (i :: ks) p' ∧ Reads find r ⟨p, [], f i ++ s⟩ ⟨p', [], s⟩)
    {is : List Nat} (his : ∀ i ∈ is, i < nrKeys) (hnd : is.Nodup) (hks : ∀ i ∈ is, i ∉ ks)
    (hI : I ks p) :
    ∃ p', I (is.reverse ++ ks) p' ∧ Reads find r ⟨p, [], is.flatMap f⟩ ⟨p', [], []⟩ := by
  induction is generalizing p ks with
  | nil => exact ⟨p, hI, .refl _⟩
  | cons i is ih =>
    rw [List.forall_mem_cons] at his hks
    obtain ⟨hi, hnd⟩ := List.nodup_cons.mp hnd
    obtain ⟨p₁, hI₁, hfirst⟩ := hstep i his.1 ks p (is.flatMap f) hks.1 hI
    have hks' : ∀ i' ∈ is, i' ∉ i :: ks := by
      intro i' hi'
      rw [List.mem_cons, not_or]
      exact ⟨fun heq => hi (heq ▸ hi'), hks.2 i' hi'⟩
    obtain ⟨p', hI', hmore⟩ := ih his.2 hnd hks' hI₁
    refine ⟨p', ?_, ?_⟩
    · rwa [List.reverse_cons, List.append_assoc, List.singleton_append]
    · rw [List.flatMap_cons]
      exact hfirst.trans hmore

/-- The shapes without shorthands, with the number of maps that they need. -/
def WritesAll (c : LkCtx) (table : TableShape) : Prop :=
  table = .separateLines ∧ 1 ≤ c.maps.length ∨ table = .fullTable ∧ 2 ≤ c.maps.length

/-- The context after the lines for a key, which bind it unless there are none. -/
def LkCtx.readKey (c : LkCtx) (table : TableShape) (d : LkCtx) (i : Nat) : LkCtx :=
  if table ≠ .fullTable ∧ c.allHoles i = true then d else d.putAll i (c.bindings i)

/-- The lines for a key. -/
theorem reads_readKey {table : TableShape} (htable : WritesAll c table)
    (hmaps : ∀ t, lkMapExists c t = true → t < maxNrKeymaps) (hlen : c.maps.length ≤ maxNrKeymaps)
    {i : Nat} (hi : i < nrKeys) (hback : ∀ t, lkMapExists c t = true → ReadsBack c style (c.rowVal i t))
    (h : Restores c d ks) (hp : Between p d) (s : List Char) :
    ∃ p', Between p' (c.readKey table d i) ∧
      Reads find r ⟨p, [], (c.keyLines table false i).flatMap (DumpLine.text c style) ++ s⟩
        ⟨p', [], s⟩ := by
  have hvals : ∀ j ∈ c.maps, ReadsBack c style (c.rowVal i j) :=
    fun j hj => hback j (mem_maps.mp hj)
  rcases htable with ⟨rfl, -⟩ | ⟨rfl, htwo⟩
  · by_cases hholes : c.allHoles i = true
    · refine ⟨p, ?_, ?_⟩
      · rwa [LkCtx.readKey, if_pos ⟨by decide, hholes⟩]
      · simp only [LkCtx.keyLines, hholes, ↓reduceIte]
        exact .refl _
    · have hjs : ∀ j ∈ c.maps, j < 256 ∧ lkMapExists d j = true := by
        intro j hj
        rw [h.exist]
        exact ⟨hmaps j (mem_maps.mp hj), mem_maps.mp hj⟩
      obtain ⟨p', hp', hread⟩ := reads_binds find r h.flags h.charset hi hjs hvals hp
        (DumpLine.blank.text c style ++ s)
      refine ⟨p', ?_, ?_⟩
      · rwa [LkCtx.readKey, if_neg fun hno => hholes hno.2]
      · simp only [LkCtx.keyLines, hholes, Bool.false_eq_true, ↓reduceIte, List.flatMap_append,
          List.flatMap_singleton, List.append_assoc]
        exact hread.trans (reads_blankLine find r hp' s)
  · have hrun := singleline_fullTable h (by omega) hi
    have hback' : ∀ v ∈ c.maps.map (c.rowVal i), ReadsBack c style v := by
      intro v hv
      obtain ⟨j, hj, rfl⟩ := List.mem_map.mp hv
      exact hvals j hj
    obtain ⟨p', hp', hread⟩ := reads_completeLine find r hp h.flags h.charset hi
      (by rwa [List.length_map]) hback' hrun s
    refine ⟨p', ?_, ?_⟩
    · rwa [LkCtx.readKey, if_neg fun hno => hno.1 rfl]
    · rw [LkCtx.keyLines, List.flatMap_singleton]
      exact hread

theorem reads_keyLines {table : TableShape} (htable : WritesAll c table)
    (hmaps : ∀ t, lkMapExists c t = true → t < maxNrKeymaps) (hlen : c.maps.length ≤ maxNrKeymaps)
    {i : Nat} (hi : i < nrKeys) (hback : ∀ t, lkMapExists c t = true → ReadsBack c style (c.rowVal i t))
    (h : Restores c d ks) (hks : i ∉ ks) (hp : Between p d) (s : List Char) :
    ∃ p' d', Between p' d' ∧ Restores c d' (i :: ks) ∧
      Reads find r ⟨p, [], (c.keyLines table false i).flatMap (DumpLine.text c style) ++ s⟩
        ⟨p', [], s⟩ := by
  obtain ⟨p', hp', hread⟩ := reads_readKey find r htable hmaps hlen hi hback h hp s
  refine ⟨p', _, hp', ?_, hread⟩
  unfold LkCtx.readKey
  split
  · rename_i hholes
    exact h.skip hks hholes.2
  · exact h.putAll i

/-- The lines for several keys. -/
theorem reads_keys {table : TableShape} (htable : WritesAll c table)
    (hmaps : ∀ t, lkMapExists c t = true → t < maxNrKeymaps) (hlen : c.maps.length ≤ maxNrKeymaps)
    {is : List Nat} (his : ∀ i ∈ is, i < nrKeys) (hnd : is.Nodup) (hks : ∀ i ∈ is, i ∉ ks)
    (hback : ∀ i t, lkMapExists c t = true → ReadsBack c style (c.rowVal i t))
    (h : Restores c d ks) (hp : Between p d) :
    ∃ p' d', Between p' d' ∧ Restores c d' (is.reverse ++ ks) ∧
      Reads find r ⟨p, [], (is.flatMap (c.keyLines table false)).flatMap (DumpLine.text c style)⟩
        ⟨p', [], []⟩ := by
  obtain ⟨p', ⟨d', hp', h'⟩, hread⟩ := reads_each find r
    (I := fun ks p => ∃ d, Between p d ∧ Restores c d ks)
    (f := fun i => (c.keyLines table false i).flatMap (DumpLine.text c style))
    (fun i hi ks p s hks ⟨d, hp, h⟩ => by
      obtain ⟨p', d', hp', h', hread⟩ :=
        reads_keyLines find r htable hmaps hlen hi (hback i) h hks hp s
      exact ⟨p', ⟨d', hp', h'⟩, hread⟩)
    his hnd hks ⟨d, hp, h⟩
  refine ⟨p', d', hp', h', ?_⟩
  rw [List.flatMap_assoc]
  exact hread

end Lines

/-! ## The whole text -/

theorem between_start (ctx : LkCtx) (fp : Kbdfile) : Between (startReader ctx fp).parser ctx :=
  ⟨rfl, rfl, rfl⟩

/-- A reader at the end of the last file, between two lines, accepts. -/
theorem accepted_of_steps {find : FindIncl} {ctx d : LkCtx} {fp : Kbdfile} {p' : Parser}
    {u b : List Char} (hb : Blanks b)
    (hsteps : Machine.Steps (readStep find) (startReader ctx fp)
      ({ startReader ctx fp with str := u }.at (Place.after ⟨p', [], []⟩ b)))
    (hp' : Between p' d) :
    ∃ fuel r, lkParseKeymap find fuel ctx emptyStack fp = some (true, r) ∧ r.parser.ctx = d := by
  have hend := steps_blanks find { startReader ctx fp with str := u } (q := ⟨p', [], []⟩)
    (Or.inl rfl) hb (by simp [NoBlank])
  set last : Reader := { startReader ctx fp with str := u }.at ⟨p', [], []⟩ with hlastdef
  have hpop : last.stackPop.buffers = [] := rfl
  have hstate : last.stackPop.parser.state = .top := by
    rw [parser_stackPop]
    exact hp'.state
  have hlast : readStep find last = .inr (true, last.stackPop) := by
    rw [@readStep_eof find last [] rfl, if_pos hpop, feedToken, hstate]
    rfl
  obtain ⟨fuel, hrun⟩ := (hsteps.trans hend).run (Machine.run_succ_inr hlast 0)
  refine ⟨fuel, last.stackPop.stackPop, ?_, ?_⟩
  · rw [lkParseKeymap_eq, hrun]
    rfl
  · rw [parser_stackPop, parser_stackPop]
    exact hp'.ctx

/-- A text that is read up to its end, between two lines, is accepted. -/
theorem accepted_of_reads {find : FindIncl} {ctx d : LkCtx} {fp : Kbdfile} {p' : Parser}
    (hread : Reads find (startReader ctx fp) ⟨(startReader ctx fp).parser, [], fp.text⟩ ⟨p', [], []⟩)
    (hp' : Between p' d) :
    ∃ fuel r, lkParseKeymap find fuel ctx emptyStack fp = some (true, r) ∧ r.parser.ctx = d := by
  obtain ⟨b, hb, hsteps⟩ := hread [] blanks_nil
  exact accepted_of_steps (u := (startReader ctx fp).str) hb hsteps hp'

theorem addMaps_tight {c : LkCtx} (hc : MapsTight c) (ts : List Nat) : MapsTight (c.addMaps ts) := by
  induction ts generalizing c with
  | nil => exact hc
  | cons t ts ih =>
    have hstep : KeyStep ⟨fun _ => True, fun _ => True, fun _ => True⟩ c (c.addMap t) :=
      .addMap trivial
    exact ih (hstep.tight hc)

/-- After the `keymaps` line the maps are there and hold nothing. -/
theorem restores_afterKeymaps {c : LkCtx} (hc : MapsTight c) {qs : List MapRange}
    (hqs : ∀ t, lkMapExists c t = true ↔ ∃ q ∈ qs, MapRange.Has q t) :
    Restores c ((lkInit c.flags c.charset).afterKeymaps qs) [] := by
  have hinit (t : Nat) : lkMapExists (lkInit c.flags c.charset) t = false := rfl
  have hrow (i : Nat) : (lkInit c.flags c.charset).row i = fun _ => none := rfl
  have hsame := SameSettings.addMaps (lkInit c.flags c.charset) (qs.flatMap MapRange.list)
  have hexist : lkMapExists ((lkInit c.flags c.charset).addMaps (qs.flatMap MapRange.list)) =
      lkMapExists c := by
    funext t
    rw [lkMapExists_addMaps, hinit, Bool.or_false, Bool.eq_iff_iff, decide_eq_true_eq, hqs t,
      List.mem_flatMap]
    simp only [MapRange.mem_list]
  have htight := addMaps_tight (mapsTight_lkInit c.flags c.charset) (qs.flatMap MapRange.list)
  refine ⟨hsame.flags, hsame.charset, rfl, ?_, hsame.keyConstant, ?_, ?_⟩
  · change ((lkInit c.flags c.charset).addMaps _).keywords.altIsMeta = false
    rw [hsame.keywords]
    rfl
  · exact maps_eq_of_exist htight hc hexist
  · intro i t _
    change (((lkInit c.flags c.charset).addMaps _).row i t).getD kHole = _
    rw [row_addMaps, hrow]
    rfl

theorem total_le_of_maps {c : LkCtx} (hc : MapsTight c)
    (hmaps : ∀ t, lkMapExists c t = true → t < maxNrKeymaps) : c.keymap.total ≤ maxNrKeymaps := by
  cases ht : c.keymap.total with
  | zero => exact Nat.zero_le _
  | succ t => exact hmaps t (hc t ht)

/-- What is printed for a binding is read back, also where there is none. -/
theorem readsBack_rowVal {c : LkCtx} {style : PrintStyle}
    (hback : ∀ t i, lkKeyExists c t i = true → ReadsBack c style (lkGetKey c t i)) (i t : Nat) :
    ReadsBack c style (c.rowVal i t) := by
  unfold LkCtx.rowVal
  split
  · rename_i ht
    by_cases hkey : lkKeyExists c t i = true
    · exact hback t i hkey
    · have hrow : c.row i t = none := by
        rw [← Option.not_isSome_iff_eq_none, isSome_row]
        exact hkey
      rw [lkGetKey_eq_row ht, hrow]
      exact readsBack_kHole c style
  · exact readsBack_kHole c style

/-- A context without single-value lines is left as it is. -/
theorem lkAddConstants_of_init {d : LkCtx} (h : d.keyConstant = .init) :
    lkAddConstants.run d = .ok () d := by
  rw [lkAddConstants_eq, h]
  rfl

/-- What is written in a shape without shorthands is read as the same maps with the same bindings. The
array of the maps ends with a map in every context, since it only grows when one is added. -/
theorem lkParseKeymap_lkDumpKeys (find : FindIncl) (keycodeZero : Bool) (style : PrintStyle) (id : Nat)
    (pathname : List Char) {c : LkCtx} {table : TableShape} (hc : MapsTight c)
    (hmaps : ∀ t, lkMapExists c t = true → t < maxNrKeymaps) (htable : WritesAll c table)
    (hback : ∀ t i, lkKeyExists c t i = true → ReadsBack c style (lkGetKey c t i)) :
    ∃ keys fuel r c', lkDumpKeys keycodeZero c table style = some keys ∧
      lkParseKeymap find fuel (lkInit c.flags c.charset) emptyStack
        ⟨id, pathname, lkDumpKeymaps c ++ keys⟩ = some (true, r) ∧
      lkAddConstants.run r.parser.ctx = .ok () c' ∧
      (∀ t, lkMapExists c' t = lkMapExists c t) ∧
      ∀ t i, lkMapExists c t = true → minKeycode keycodeZero ≤ i → i < nrKeys →
        lkGetKey c' t i = lkGetKey c t i := by
  have htotal := total_le_of_maps hc hmaps
  have hlen : c.maps.length ≤ maxNrKeymaps := by
    have hle := List.length_filter_le (lkMapExists c) (List.range c.keymap.total)
    rw [List.length_range] at hle
    exact Nat.le_trans hle htotal
  have hone : 1 ≤ c.maps.length := by
    rcases htable with ⟨-, h⟩ | ⟨-, h⟩ <;> omega
  have h0 : c.keymap.total ≠ 0 := by
    intro h
    rw [LkCtx.maps, h] at hone
    simp at hone
  obtain ⟨qs, hqsText, hle, hqs⟩ := lkDumpKeymaps_eq c
  have hqsne : qs ≠ [] := by
    rintro rfl
    obtain ⟨t, ht⟩ := List.exists_mem_of_length_pos hone
    obtain ⟨q, hq, -⟩ := (hqs t).mp (mem_maps.mp ht)
    cases hq
  have hlt : ∀ q ∈ qs, q.2 < 256 := by
    intro q hq
    exact hmaps q.2 ((hqs q.2).mpr ⟨q, hq, hle q hq, Nat.le_refl _⟩)
  have hlines : c.dumpLines keycodeZero table =
      (dumpedKeys keycodeZero).flatMap (c.keyLines table false) := by
    have hm : dumpsAltIsMeta keycodeZero c table = false := by
      rcases htable with ⟨rfl, -⟩ | ⟨rfl, -⟩ <;> rfl
    rw [LkCtx.dumpLines, if_neg h0, hm]
    rfl
  have hmem (i : Nat) : i ∈ dumpedKeys keycodeZero ↔ minKeycode keycodeZero ≤ i ∧ i < nrKeys := by
    rw [dumpedKeys, List.mem_range'_1]
    cases keycodeZero <;> simp only [minKeycode] <;> omega
  set fp : Kbdfile := ⟨id, pathname, lkDumpKeymaps c ++
    (c.dumpLines keycodeZero table).flatMap (DumpLine.text c style)⟩ with hfp
  obtain ⟨p₁, hp₁, hkeymaps⟩ := reads_keymapsLine find
    (startReader (lkInit c.flags c.charset) fp) hqsne hle hlt (between_start _ fp)
    ((c.dumpLines keycodeZero table).flatMap (DumpLine.text c style))
  obtain ⟨p', d, hp', hd, hkeys⟩ := reads_keys find
    (startReader (lkInit c.flags c.charset) fp) htable hmaps hlen
    (fun i hi => ((hmem i).mp hi).2) List.nodup_range' (fun _ _ => List.not_mem_nil)
    (fun i t _ => readsBack_rowVal hback i t) (restores_afterKeymaps hc hqs) hp₁
  rw [← hqsText] at hkeymaps
  rw [← hlines] at hkeys
  obtain ⟨fuel, r, hparse, hctx⟩ := accepted_of_reads (hkeymaps.trans hkeys) hp'
  refine ⟨_, fuel, r, d, lkDumpKeys_eq htotal keycodeZero table style, hparse, ?_, ?_, ?_⟩
  · rw [hctx]
    exact lkAddConstants_of_init hd.keyConstant
  · intro t
    rw [hd.exist]
  · intro t i ht hmin hi
    have hin : i ∈ (dumpedKeys keycodeZero).reverse ++ [] := by
      rw [List.append_nil, List.mem_reverse]
      exact (hmem i).mpr ⟨hmin, hi⟩
    have hex : lkMapExists d t = true := by rw [hd.exist, ht]
    rw [lkGetKey_eq_row hex, hd.rows i t ht, if_pos hin, LkCtx.rowVal, if_pos ht]

/-- A context with a letter key and its shifted form. -/
def letterCtx : LkCtx := ((lkInit {} 0).putKey 0 30 (K ktLetter 97)).putKey 1 30 (K ktLetter 65)

theorem lkParseKeymap_lkDumpKeys_letter :
    ∃ keys fuel r c', lkDumpKeys false letterCtx .fullTable {} = some keys ∧
      lkParseKeymap (findText []) fuel (lkInit letterCtx.flags letterCtx.charset) emptyStack
        ⟨0, [], lkDumpKeymaps letterCtx ++ keys⟩ = some (true, r) ∧
      lkAddConstants.run r.parser.ctx = .ok () c' ∧
      (∀ t, lkMapExists c' t = lkMapExists letterCtx t) ∧
      ∀ t i, lkMapExists letterCtx t = true → minKeycode false ≤ i → i < nrKeys →
        lkGetKey c' t i = lkGetKey letterCtx t i := by
  have htotal : letterCtx.keymap.total = 2 := by decide
  have hmaps (t : Nat) (ht : lkMapExists letterCtx t = true) : t < 2 := htotal ▸ lkMapExists_lt ht
  have htight : MapsTight letterCtx := by
    intro t ht
    obtain rfl : t = 1 := by omega
    decide
  have hcodes : ∀ t < 2, ReadsBack letterCtx {} (lkGetKey letterCtx t 30) := by decide +kernel
  refine lkParseKeymap_lkDumpKeys (findText []) false {} 0 [] htight
    (fun t ht => Nat.lt_trans (hmaps t ht) (by decide)) (Or.inr ⟨rfl, by decide⟩) ?_
  intro t i hkey
  by_cases hi : i = 30
  · subst hi
    have ht : t < 2 := by
      refine hmaps t (Bool.not_eq_false _ ▸ fun hno => ?_)
      rw [← isSome_row, row_eq_none_of_not_exists hno] at hkey
      cases hkey
    exact hcodes t ht
  · rw [← isSome_row, letterCtx, row_putKey_ne _ _ _ hi, row_putKey_ne _ _ _ hi] at hkey
    cases hkey

end Kbd.Keymap
