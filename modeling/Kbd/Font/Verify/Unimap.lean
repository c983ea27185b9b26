import Kbd.Font.Loadunimap
import Kbd.Font.Verify.Restore

/-!
# What a map file loads

The array of pairs has room for every pair that is added, but its count is of type `unsigned short`:
up to 65535 pairs the array has all of them in order, and after that it is filled again from its start.
A file that was saved is within this bound, and loads the map it was saved from.
-/

namespace Kbd.Font.Unimap

open Kbd.Keymap (bytes digitVal cstr)
open Kbd.Lib Kbd.Lib.Buffer

/-! ## The list -/

/-- The pairs in the array. -/
def UniList.pairs (l : UniList) : List Unipair := l.list.take l.listct

/-- The next pair has a cell, or there will be one. -/
structure UniList.Valid (l : UniList) : Prop where
  le : l.listct ≤ l.list.length
  lt : l.listct < 65536

theorem UniList.valid_start : UniList.start.Valid := ⟨Nat.le_refl 0, by decide⟩

theorem UniList.Valid.length_pairs {l : UniList} (h : l.Valid) : l.pairs.length = l.listct := by
  rw [UniList.pairs, List.length_take, Nat.min_eq_left h.le]

/-- `add_unipair` stays in its array. -/
theorem addUnipair_spec {l : UniList} (h : l.Valid) (fp un : Nat) :
    ∃ l', (addUnipair fp un).run l = .ok () l' ∧ l'.Valid ∧ l'.listct = (l.listct + 1) % 65536 ∧
      (l.listct < 65535 → l'.pairs = l.pairs ++ [{ unicode := un, fontpos := fp }]) := by
  obtain ⟨hle, hlt⟩ := h
  have hlist : ∃ list, (if l.listct = l.list.length then
        l.list ++ List.replicate 4096 (⟨0, 0⟩ : Unipair) else l.list) = list ∧
      l.listct < list.length ∧ list.take l.listct = l.pairs := by
    refine ⟨_, rfl, ?_⟩
    split
    · rw [List.length_append, List.length_replicate, List.take_append_of_le_length hle]
      exact ⟨by omega, rfl⟩
    · exact ⟨by omega, rfl⟩
  obtain ⟨list, heq, hcell, htake⟩ := hlist
  refine ⟨{ list := list.set l.listct ⟨un, fp⟩, listct := (l.listct + 1) % 65536 }, ?_, ⟨?_, ?_⟩, rfl, ?_⟩
  · change addUnipair fp un l = _
    simp only [addUnipair, heq, store, hcell, if_true]
  · rw [List.length_set]
    have := Nat.mod_le (l.listct + 1) 65536
    dsimp only
    omega
  · exact Nat.mod_lt _ (by decide)
  · intro hroom
    have hmod : (l.listct + 1) % 65536 = l.listct + 1 := Nat.mod_eq_of_lt (by omega)
    rw [UniList.pairs]
    dsimp only
    rw [hmod, List.take_succ_eq_append_getElem (by rwa [List.length_set]), List.getElem_set_self,
      List.take_set_of_le (Nat.le_refl _), htake]

/-- Several calls of `add_unipair`. -/
def addUnipairs (ps : List Unipair) : Parse Unit := forM ps fun p => addUnipair p.fontpos p.unicode

theorem addUnipairs_cons (p : Unipair) (ps : List Unipair) :
    addUnipairs (p :: ps) = (do addUnipair p.fontpos p.unicode; addUnipairs ps) :=
  List.forM_cons

theorem addUnipairs_append (ps qs : List Unipair) :
    addUnipairs (ps ++ qs) = (do addUnipairs ps; addUnipairs qs) :=
  List.forM_append

theorem addUnipairs_spec {l : UniList} (h : l.Valid) (ps : List Unipair) :
    ∃ l', (addUnipairs ps).run l = .ok () l' ∧ l'.Valid ∧
      l'.listct = (l.listct + ps.length) % 65536 ∧
      (l.listct + ps.length ≤ 65535 → l'.pairs = l.pairs ++ ps) := by
  induction ps generalizing l with
  | nil => exact ⟨l, rfl, h, (Nat.mod_eq_of_lt h.lt).symm, fun _ => (List.append_nil _).symm⟩
  | cons p ps ih =>
    obtain ⟨l₁, hadd, hvalid, hct, hpairs⟩ := addUnipair_spec h p.fontpos p.unicode
    obtain ⟨l', hl', hvalid', hct', hpairs'⟩ := ih hvalid
    refine ⟨l', ?_, hvalid', ?_, ?_⟩
    · rw [addUnipairs_cons, Result.bind_of_ok hadd]
      exact hl'
    · rw [hct', hct, List.length_cons]
      omega
    · intro hroom
      rw [List.length_cons] at hroom
      have hct₁ : l₁.listct = l.listct + 1 := hct.trans (Nat.mod_eq_of_lt (by omega))
      rw [hpairs' (by omega), hpairs (by omega), List.append_assoc]
      rfl

/-! ## The pairs of a line -/

/-- The pairs of a range of positions. -/
def rangePairs (fp0 fp1 : Nat) (un : Nat → Nat) : List Unipair :=
  (List.range' fp0 (fp1 + 1 - fp0)).map fun i => { unicode := un i, fontpos := i }

/-- What `parseRange` adds. -/
def rangeLinePairs (p : List Char) (fp0 fp1 : Nat) : Except UnimapErr (List Unipair) :=
  let p := p.dropWhile isBlank
  if (bytes "idem").isPrefixOf p then .ok (rangePairs fp0 fp1 fun i => i)
  else
    match getunicode p with
    | none => .error .noUnicode
    | some (un0, p) =>
      match p.dropWhile isBlank with
      | '-' :: p =>
        match getunicode p with
        | none => .error .noUnicode
        | some (un1, _) =>
          if (un1 : Int) - un0 ≠ (fp1 : Int) - fp0 then .error (.rangeMismatch un0 un1 fp0 fp1)
          else
            let un := (un0 + 65536 - fp0) % 65536
            .ok (rangePairs fp0 fp1 fun i => (un + i) % 65536)
      | _ => .ok (rangePairs fp0 fp1 fun _ => un0)

/-- What `uniLoop` adds. -/
def uniPairs (fp0 : Nat) : Nat → List Char → List Unipair
  | 0, _ => []
  | rounds + 1, p =>
    match getunicode p with
    | none => []
    | some (un0, p) => { unicode := un0, fontpos := fp0 } :: uniPairs fp0 rounds p

/-- What `parseline` adds, or its error. -/
def linePairs (buffer : List Char) : Except UnimapErr (List Unipair) :=
  let p := buffer.dropWhile isBlank
  if p = [] || p.head? = some '#' then .ok []
  else do
    let (fp0, p) ← strToUshort p
    let (fp1, p) ← rangeEnd p
    if fp0 ≥ 512 then .error (.glyphNumber fp0)
    else if fp1 ≠ 0 ∧ (fp1 < fp0 ∨ fp1 ≥ 512) then .error (.badRange fp1)
    else if fp1 ≠ 0 then rangeLinePairs p fp0 fp1
    else pure (uniPairs fp0 p.length p)

theorem addRange_eq (fp0 fp1 : Nat) (un : Nat → Nat) :
    addRange fp0 fp1 un = addUnipairs (rangePairs fp0 fp1 un) := by
  rw [addUnipairs, rangePairs, List.forM_map]
  rfl

theorem uniLoop_eq (fp0 rounds : Nat) (p : List Char) :
    uniLoop fp0 rounds p = addUnipairs (uniPairs fp0 rounds p) := by
  induction rounds generalizing p with
  | zero => rfl
  | succ rounds ih =>
    rw [uniLoop, uniPairs]
    rcases getunicode p with _ | ⟨un0, p⟩
    · rfl
    · rw [addUnipairs_cons, ← ih]

theorem parseRange_eq (p : List Char) (fp0 fp1 : Nat) :
    parseRange p fp0 fp1 = MonadExcept.ofExcept (rangeLinePairs p fp0 fp1) >>= addUnipairs := by
  simp only [parseRange, rangeLinePairs, addRange_eq]
  split
  · rfl
  rcases getunicode (p.dropWhile isBlank) with _ | ⟨un0, p⟩
  · rfl
  dsimp only
  cases p.dropWhile isBlank with
  | nil => rfl
  | cons c q =>
    by_cases hc : c = '-'
    · subst hc
      rcases hget : getunicode q with _ | ⟨un1, q'⟩
      · simp only [hget]
        rfl
      · simp only [hget]
        split <;> rfl
    · simp only [List.cons.injEq, hc, false_and, imp_self, implies_true]
      rfl

/-- All of the pairs of a line are added after the last test that can fail. -/
theorem parseline_eq (buffer : List Char) :
    parseline buffer = MonadExcept.ofExcept (linePairs buffer) >>= addUnipairs := by
  simp only [parseline, linePairs, parseRange_eq, uniLoop_eq]
  split
  · rfl
  rcases strToUshort (buffer.dropWhile isBlank) with e | ⟨fp0, p⟩
  · rfl
  change (MonadExcept.ofExcept (rangeEnd p) >>= fun a => _ : Parse Unit) =
    MonadExcept.ofExcept (rangeEnd p >>= fun a => _) >>= addUnipairs
  rcases rangeEnd p with e | ⟨fp1, p⟩
  · rfl
  change (if fp0 ≥ 512 then _ else _ : Parse Unit) =
    MonadExcept.ofExcept (if fp0 ≥ 512 then _ else _) >>= addUnipairs
  split
  · rfl
  split
  · rfl
  split <;> rfl

/-- A line that fails leaves the list as it was. -/
theorem parseline_spec {l : UniList} (h : l.Valid) (buffer : List Char) :
    match linePairs buffer with
    | .error e => (parseline buffer).run l = .error e l
    | .ok ps => ∃ l', (parseline buffer).run l = .ok () l' ∧ l'.Valid ∧
        l'.listct = (l.listct + ps.length) % 65536 ∧
        (l.listct + ps.length ≤ 65535 → l'.pairs = l.pairs ++ ps) := by
  rw [parseline_eq]
  rcases linePairs buffer with e | ps
  · rfl
  · exact addUnipairs_spec h ps

/-! ## Files -/

/-- The lines of a file as `parseline` gets them. -/
def fileLines : Nat → List Char → List (List Char)
  | 0, _ => []
  | rounds + 1, file =>
    if file = [] then []
    else lineOf (fgets lineRoom file).1 :: fileLines rounds (fgets lineRoom file).2

/-- The pairs that the lines of a file add, in order. -/
def filePairs (file : List Char) : Except UnimapErr (List Unipair) :=
  ((fileLines file.length file).mapM linePairs).map List.flatten

theorem loadLines_eq (rounds : Nat) (file : List Char) :
    loadLines rounds file = forM (fileLines rounds file) parseline := by
  induction rounds generalizing file with
  | zero => rfl
  | succ rounds ih =>
    rw [loadLines, fileLines]
    split
    · rfl
    · rw [List.forM_cons, ← ih]

/-- A run over lines that are all accepted adds their pairs; otherwise it fails. -/
theorem forM_parseline_spec {l : UniList} (h : l.Valid) (lines : List (List Char)) :
    match (lines.mapM linePairs).map List.flatten with
    | .error e => ∃ l', (forM lines parseline).run l = .error e l'
    | .ok ps => (forM lines parseline).run l = (addUnipairs ps).run l := by
  induction lines generalizing l with
  | nil => rfl
  | cons line lines ih =>
    rw [List.mapM_cons, List.forM_cons, parseline_eq]
    rcases linePairs line with e | ps
    · exact ⟨l, rfl⟩
    obtain ⟨l₁, hadd, hvalid, -⟩ := addUnipairs_spec h ps
    have hrest := ih hvalid
    have hline : ((MonadExcept.ofExcept (.ok ps) >>= addUnipairs : Parse Unit) >>= fun _ =>
        forM lines parseline).run l = (forM lines parseline).run l₁ :=
      Result.bind_of_ok hadd
    rw [hline]
    change match (lines.mapM linePairs >>= fun pss => pure (ps :: pss)).map List.flatten with
      | .error e => _
      | .ok ps => _
    cases hpss : lines.mapM linePairs with
    | error e =>
      rw [hpss] at hrest
      exact hrest
    | ok pss =>
      rw [hpss] at hrest
      change _ = (addUnipairs (ps ++ pss.flatten)).run l
      rw [addUnipairs_append, Result.bind_of_ok hadd]
      exact hrest

/-- What the loop of `kfont_load_unicodemap` makes of a file. -/
theorem loadLines_spec (file : List Char) :
    match filePairs file with
    | .error e => ∃ l, (loadLines file.length file).run UniList.start = .error e l
    | .ok ps => ∃ l, (loadLines file.length file).run UniList.start = .ok () l ∧
        l.listct = ps.length % 65536 ∧ (ps.length ≤ 65535 → l.pairs = ps) := by
  have hlines := forM_parseline_spec UniList.valid_start (fileLines file.length file)
  rw [loadLines_eq, filePairs]
  cases hps : ((fileLines file.length file).mapM linePairs).map List.flatten with
  | error e =>
    rw [hps] at hlines
    exact hlines
  | ok ps =>
    rw [hps] at hlines
    obtain ⟨l, hadd, -, hct, hpairs⟩ := addUnipairs_spec UniList.valid_start ps
    have hstart : UniList.start.listct = 0 := rfl
    rw [hstart, Nat.zero_add] at hct hpairs
    exact ⟨l, hlines.trans hadd, hct, hpairs⟩

/-! ## What the kernel gets -/

section Load

variable {k : Kernel} {find : List Char → Option (List Char)} {force : Bool} {tblname file : List Char}

/-- A file whose pairs fit loads as its list of pairs does. -/
theorem kfontLoadUnicodemap_run (hfind : find tblname = some file) {ps : List Unipair}
    (hps : filePairs file = .ok ps) (hlen : ps.length ≤ 65535) (hne : ps ≠ [] ∨ force = true)
    (tr : Trace) :
    (kfontLoadUnicodemap k find force tblname).run tr =
      (do ofKfont (kfontPutUnicodemap k ps); pure Loaded.loaded).run tr := by
  have hspec := loadLines_spec file
  rw [hps] at hspec
  obtain ⟨l, hl, hct, hpairs⟩ := hspec
  have hnot : ¬ (l.listct = 0 ∧ (!force) = true) := by
    rintro ⟨h0, hforce⟩
    rcases hne with hne | hne
    · have hpos := List.length_pos_of_ne_nil hne
      omega
    · rw [hne] at hforce
      cases hforce
  have hlist : l.list.take l.listct = ps := hpairs hlen
  simp only [kfontLoadUnicodemap, hfind, hl, hnot, if_false, hlist]

theorem ofKfont_eq {α : Type} (m : Kfont α) (tr : Trace) :
    (ofKfont m).run tr = match m.run tr with
      | .ok a tr => .ok a tr
      | .error e tr => .error (.kfont e) tr := rfl

theorem ofKfont_run {α : Type} {m : Kfont α} {tr tr' : Trace} {a : α}
    (h : m.run tr = .ok a tr') : (ofKfont m).run tr = .ok a tr' := by
  rw [ofKfont_eq, h]

theorem ofKfont_ok {α : Type} {m : Kfont α} {tr tr' : Trace} {a : α}
    (h : (ofKfont m).run tr = .ok a tr') : m.run tr = .ok a tr' := by
  cases hm : m.run tr with
  | ok b tr₁ =>
    rw [ofKfont_run hm] at h
    cases h
    rfl
  | error e tr₁ =>
    rw [ofKfont_eq, hm] at h
    cases h

/-- What a load that succeeds has sent. -/
theorem kfontLoadUnicodemap_sent (hfind : find tblname = some file) {tr tr' : Trace}
    (h : (kfontLoadUnicodemap k find force tblname).run tr = .ok .loaded tr') :
    ∃ (ps : List Unipair) (l : UniList), filePairs file = .ok ps ∧
      (ps.length ≤ 65535 → l.pairs = ps) ∧ MapSent l.pairs tr tr' := by
  have hspec := loadLines_spec file
  cases hps : filePairs file with
  | error e =>
    rw [hps] at hspec
    obtain ⟨l, hl⟩ := hspec
    simp only [kfontLoadUnicodemap, hfind, hl] at h
    cases h
  | ok ps =>
    rw [hps] at hspec
    obtain ⟨l, hl, -, hpairs⟩ := hspec
    simp only [kfontLoadUnicodemap, hfind, hl] at h
    split at h
    · cases h
    · obtain ⟨u, tr₁, hput, h⟩ := Result.bind_eq_ok.mp h
      cases h
      exact ⟨ps, l, rfl, hpairs, kfontPutUnicodemap_sent (ofKfont_ok hput)⟩

end Load

/-- The kernel gets every pair of a file in order, once its map is cleared, and a file with more pairs
than `entry_ct` can count is refused. -/
def LoadsEveryPair (file : List Char) : Prop :=
  ∀ (k : Kernel) (find : List Char → Option (List Char)) (force : Bool) (tblname : List Char)
    (tr : Trace), find tblname = some file →
    (∀ tr', (kfontLoadUnicodemap k find force tblname).run tr = .ok .loaded tr' →
      ∃ ps, filePairs file = .ok ps ∧ MapSent ps tr tr') ∧
    ∀ ps, filePairs file = .ok ps → 65535 < ps.length →
      ∃ e tr', (kfontLoadUnicodemap k find force tblname).run tr = .error e tr'

/-- A longer file is not refused: its count starts again at 0. -/
theorem LoadsEveryPair.length_le {file : List Char} (h : LoadsEveryPair file) {ps : List Unipair}
    (hps : filePairs file = .ok ps) : ps.length ≤ 65535 := by
  by_contra hlong
  have hspec := loadLines_spec file
  rw [hps] at hspec
  obtain ⟨l, hl, -⟩ := hspec
  obtain ⟨e, tr', herr⟩ := (h acceptingKernel (fun _ => some file) true [] [] rfl).2 ps hps (by omega)
  have htakes : TakesMap acceptingKernel (l.list.take l.listct) := ⟨fun _ _ => rfl, fun _ => rfl⟩
  simp only [kfontLoadUnicodemap, hl, Bool.not_true, Bool.false_eq_true, and_false, if_false] at herr
  rw [Result.bind_of_ok (ofKfont_run (htakes.run []))] at herr
  cases herr

theorem loadsEveryPair_iff (file : List Char) :
    LoadsEveryPair file ↔ ∀ ps, filePairs file = .ok ps → ps.length ≤ 65535 := by
  constructor
  · intro h ps hps
    exact h.length_le hps
  · intro hlen k find force tblname tr hfind
    refine ⟨fun tr' hrun => ?_, fun ps hps hlong => ?_⟩
    · obtain ⟨ps, l, hps, hpairs, hsent⟩ := kfontLoadUnicodemap_sent hfind hrun
      rw [hpairs (hlen ps hps)] at hsent
      exact ⟨ps, hps, hsent⟩
    · have := hlen ps hps
      omega

/-! ## A saved map -/

theorem getunicode_eq (p : List Char) :
    Font.getunicode p = (getunicode p).map fun (un, p) => ((un : Int), p) := by
  unfold Font.getunicode getunicode
  split <;> grind

theorem getunicode_fmt04X {un : Nat} (hun : un < 65536) {blanks rest : List Char}
    (hblanks : ∀ c ∈ blanks, isBlank c = true) (hrest : ∀ c ∈ rest.head?, digitVal c = none) :
    getunicode (blanks ++ ('U' :: '+' :: (Kbd.Keymap.fmt04X un ++ rest))) = some (un, rest) := by
  have hread := getunicode_fmtUnicode (Int.natCast_nonneg un) (by omega) hblanks hrest
  have hfmt : fmtUnicode (un : Int) = Kbd.Keymap.fmt04X un := by
    rw [fmtUnicode, Int.emod_eq_of_lt (by omega) (by omega), Int.toNat_natCast]
  rw [hfmt, getunicode_eq] at hread
  obtain ⟨⟨un', p⟩, hget, heq⟩ := Option.map_eq_some_iff.mp hread
  rw [hget]
  cases heq
  rfl

theorem strToUshort_fmtFontpos {n : Nat} (hn : n < 65536) {rest : List Char}
    (hrest : ∀ c ∈ rest.head?, digitVal c = none) :
    strToUshort (fmtFontpos n ++ rest) = .ok (n, rest) := by
  have hstrtol : strtol0 (fmtFontpos n ++ rest) = some ((n : Int), rest) :=
    strtol0_leftpad 2 n hrest
  have hneg : ¬ (n : Int) < 0 := by omega
  have hbig : ¬ (n : Int) > 65535 := by omega
  simp only [strToUshort, hstrtol, hneg, hbig, if_false, Int.toNat_natCast]

/-- The line of a pair without its end. -/
def pairBody (p : Unipair) : List Char :=
  fmtFontpos p.fontpos ++ '\t' :: 'U' :: '+' :: Kbd.Keymap.fmt04X p.unicode

theorem pairText_eq (p : Unipair) : pairText p = pairBody p ++ ['\n'] := by
  rw [pairText, pairBody, show bytes "\tU+" = ['\t', 'U', '+'] from rfl]
  simp

/-- A pair that the kernel can have. -/
structure PairFits (p : Unipair) : Prop where
  fontpos_lt : p.fontpos < 512
  unicode_lt : p.unicode < 65536

theorem linePairs_pairBody {p : Unipair} (h : PairFits p) : linePairs (pairBody p) = .ok [p] := by
  have hfp := h.fontpos_lt
  have hnumber : strToUshort (pairBody p) =
      .ok (p.fontpos, '\t' :: 'U' :: '+' :: Kbd.Keymap.fmt04X p.unicode) := by
    refine strToUshort_fmtFontpos (by omega) ?_
    intro c hc
    cases hc
    rfl
  have hend : rangeEnd ('\t' :: 'U' :: '+' :: Kbd.Keymap.fmt04X p.unicode) =
      .ok (0, 'U' :: '+' :: Kbd.Keymap.fmt04X p.unicode) := rfl
  have hread : getunicode ('U' :: '+' :: Kbd.Keymap.fmt04X p.unicode) = some (p.unicode, []) := by
    have := @getunicode_fmt04X _ h.unicode_lt [] [] (by simp) (by simp)
    rwa [List.append_nil] at this
  have hpairs : uniPairs p.fontpos ('U' :: '+' :: Kbd.Keymap.fmt04X p.unicode).length
      ('U' :: '+' :: Kbd.Keymap.fmt04X p.unicode) = [p] := by
    rw [List.length_cons, uniPairs, hread]
    rfl
  have hstart : (pairBody p).dropWhile isBlank = pairBody p := rfl
  have hfirst : (pairBody p).head? = some '0' := rfl
  have hne : pairBody p ≠ [] := by
    intro hnil
    rw [hnil] at hfirst
    cases hfirst
  have hlt : ¬ p.fontpos ≥ 512 := by omega
  simp only [linePairs, hstart]
  rw [if_neg (by simp [hne, hfirst])]
  simp only [hnumber, hend, hlt, hpairs, bind, Except.bind, pure, Except.pure, ne_eq, not_true,
    false_and, if_false]

theorem isLineChar_pairBody {p : Unipair} : ∀ c ∈ pairBody p, IsLineChar c := by
  have hprefix : ∀ c ∈ bytes "0x", IsLineChar c := isLineChar_of_all (by decide)
  have hmiddle : ∀ c ∈ bytes "\tU+", IsLineChar c := isLineChar_of_all (by decide)
  intro c hc
  rcases List.mem_append.mp hc with hc | hc
  · rcases List.mem_append.mp hc with hc | hc
    · exact hprefix c hc
    · exact isLineChar_leftpad c hc
  · rcases List.mem_append.mp (show c ∈ bytes "\tU+" ++ Kbd.Keymap.fmt04X p.unicode from hc) with
      hc | hc
    · exact hmiddle c hc
    · exact isLineChar_leftpad c hc

theorem length_pairBody {p : Unipair} (h : PairFits p) : (pairBody p).length < lineRoom := by
  have hfp := h.fontpos_lt
  have hun := h.unicode_lt
  have hfontpos : (Nat.toDigits 16 p.fontpos).length ≤ 3 :=
    (Nat.length_toDigits_le_iff (by decide) (by decide)).mpr (by omega)
  have hunicode : (Nat.toDigits 16 p.unicode).length ≤ 4 :=
    (Nat.length_toDigits_le_iff (by decide) (by decide)).mpr (by omega)
  have hlength : (pairBody p).length = 2 + max 2 (Nat.toDigits 16 p.fontpos).length +
      (max 4 (Nat.toDigits 16 p.unicode).length + 3) := by
    simp only [pairBody, fmtFontpos, Kbd.Keymap.fmt04X, List.length_append, List.length_cons,
      List.length_leftpad]
    rfl
  have hroom : lineRoom = 65535 := rfl
  rw [hlength, hroom]
  omega

theorem lineOf_pairText (p : Unipair) : lineOf (pairText p) = pairBody p := by
  have hchars : ∀ c ∈ pairBody p, IsLineChar c := isLineChar_pairBody
  have hcstr : cstr (pairText p) = pairBody p ++ ['\n'] := by
    rw [pairText_eq, cstr, List.takeWhile_append_of_pos fun c hc => by simpa using (hchars c hc).2]
    rfl
  rw [lineOf, hcstr, List.takeWhile_append_of_pos fun c hc => by simpa using (hchars c hc).1]
  simp

theorem fileLines_pairText {ps : List Unipair} (hps : ∀ p ∈ ps, PairFits p) {rounds : Nat}
    (hrounds : ps.length ≤ rounds) : fileLines rounds (ps.flatMap pairText) = ps.map pairBody := by
  induction ps generalizing rounds with
  | nil => cases rounds <;> rfl
  | cons p ps ih =>
    obtain ⟨n, rfl⟩ : ∃ n, rounds = n + 1 := ⟨rounds - 1, by simp at hrounds; omega⟩
    rw [List.forall_mem_cons] at hps
    have hget : fgets lineRoom ((p :: ps).flatMap pairText) = (pairText p, ps.flatMap pairText) := by
      rw [List.flatMap_cons, pairText_eq, List.append_assoc]
      exact fgets_line (fun c hc => (isLineChar_pairBody c hc).1) (length_pairBody hps.1)
    rw [fileLines, if_neg (by simp [pairText_eq]), hget, lineOf_pairText,
      ih hps.2 (by simp at hrounds; omega), List.map_cons]

theorem length_le_flatMap_pairText (ps : List Unipair) : ps.length ≤ (ps.flatMap pairText).length := by
  induction ps with
  | nil => exact Nat.le_refl _
  | cons p ps ih =>
    rw [List.flatMap_cons, List.length_append, pairText_eq, List.length_append, List.length_cons,
      List.length_singleton]
    omega

/-- The pairs of a file are those that were written. -/
theorem filePairs_pairText {ps : List Unipair} (hps : ∀ p ∈ ps, PairFits p) :
    filePairs (ps.flatMap pairText) = .ok ps := by
  have hlines : (ps.map pairBody).mapM linePairs = .ok (ps.map fun p => [p]) := by
    induction ps with
    | nil => rfl
    | cons p ps ih =>
      rw [List.forall_mem_cons] at hps
      rw [List.map_cons, List.mapM_cons, linePairs_pairBody hps.1, ih hps.2]
      rfl
  rw [filePairs, fileLines_pairText hps (length_le_flatMap_pairText ps), hlines]
  change Except.ok (ps.map fun p => [p]).flatten = _
  rw [← List.flatMap_def, List.flatMap_singleton']

/-- A file with one pair more than `entry_ct` can count. -/
theorem not_loadsEveryPair_wraps :
    ¬ LoadsEveryPair ((List.replicate 65536 (⟨0x41, 0⟩ : Unipair)).flatMap pairText) := by
  intro h
  have hfits : ∀ p ∈ List.replicate 65536 (⟨0x41, 0⟩ : Unipair), PairFits p := by
    intro p hp
    rw [List.eq_of_mem_replicate hp]
    exact ⟨by decide, by decide⟩
  have hlen := h.length_le (filePairs_pairText hfits)
  rw [List.length_replicate] at hlen
  omega

/-- A map that is saved is loaded as it was. -/
theorem kfontLoadUnicodemap_save {k : Kernel} {unimap : List Unipair} (hshow : ShowsMap k unimap)
    (hpos : 1 ≤ unimap.length) (hfits : ∀ p ∈ unimap, PairFits p) (tr : Trace) :
    ∃ file tr', (kfontSaveUnicodemap k).run tr = .ok file tr' ∧
      ∀ (k' : Kernel) (find : List Char → Option (List Char)) (force : Bool) (tblname : List Char)
        (tr : Trace), find tblname = some file →
        (kfontLoadUnicodemap k' find force tblname).run tr =
          (do ofKfont (kfontPutUnicodemap k' unimap); pure Loaded.loaded).run tr ∧
        (TakesMap k' unimap → (kfontLoadUnicodemap k' find force tblname).run tr =
          .ok .loaded (tr ++ [.pioUnimapclr 0, .pioUnimap unimap])) := by
  obtain ⟨tr', hget⟩ := hshow.kfontGetUnicodemap_run tr
  refine ⟨unimap.flatMap pairText, tr', ?_, ?_⟩
  · rw [kfontSaveUnicodemap, Result.bind_of_ok hget]
    rfl
  · intro k' find force tblname tr hfind
    have hrun : (kfontLoadUnicodemap k' find force tblname).run tr = _ :=
      kfontLoadUnicodemap_run hfind (filePairs_pairText hfits) hshow.length_le (Or.inl (List.ne_nil_of_length_pos hpos)) tr
    refine ⟨hrun, fun htakes => ?_⟩
    rw [hrun, Result.bind_of_ok (ofKfont_run (htakes.run tr))]
    rfl

/-- A map with a glyph for two code points and a code point that comes twice. -/
def somePairs : List Unipair := [⟨0x42, 1⟩, ⟨0x41, 0⟩, ⟨0xfffd, 0⟩, ⟨0x41, 511⟩]

theorem kfontLoadUnicodemap_save_pairs :
    ∃ file tr', (kfontSaveUnicodemap (consoleKernel dotFont somePairs)).run [] = .ok file tr' ∧
      ∀ (k' : Kernel) (find : List Char → Option (List Char)) (force : Bool) (tblname : List Char)
        (tr : Trace), find tblname = some file →
        (kfontLoadUnicodemap k' find force tblname).run tr =
          (do ofKfont (kfontPutUnicodemap k' somePairs); pure Loaded.loaded).run tr ∧
        (TakesMap k' somePairs → (kfontLoadUnicodemap k' find force tblname).run tr =
          .ok .loaded (tr ++ [.pioUnimapclr 0, .pioUnimap somePairs])) := by
  refine kfontLoadUnicodemap_save ⟨by decide, fun _ _ => rfl⟩ (by decide) (fun p hp => ?_) []
  have hall : ∀ p ∈ somePairs, p.fontpos < 512 ∧ p.unicode < 65536 := by decide
  exact ⟨(hall p hp).1, (hall p hp).2⟩

end Kbd.Font.Unimap
