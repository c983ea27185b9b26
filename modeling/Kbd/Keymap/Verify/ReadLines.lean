import Kbd.Keymap.Verify.Dump
import Kbd.Keymap.Verify.ReadBack

/-!
# Reading the lines that are written

Each line of `lk_dump_keymaps` and `lk_dump_keys` is read as its statement.
-/

namespace Kbd.Keymap

open Kbd.Lib

variable (find : FindIncl) (r : Reader) {p p' : Parser}

/-! ## Words outside of values -/

/-- A keyword, before a character that goes on with no rule. -/
theorem reads_keyword {w : List Char} {a : Char} {t : Token} (hw : w ≠ []) (hblank : NoBlank w)
    (hm : munch (rules .initial) (w ++ [a]) = some (.token t, w.length))
    (hdead : (w ++ [a]).foldl advance (rules .initial) = []) (htok : t ≠ .eof)
    (hfeed : (feed t).run p = .ok () p') (s : List Char) :
    Reads find r ⟨p, [], w ++ a :: s⟩ ⟨p', [], a :: s⟩ := by
  have hmunch : munch (rules .initial) (w ++ a :: s) = some (.token t, w.length) := by
    rw [List.append_cons, munch_append_of_dead hdead, hm]
  exact .token (Or.inl rfl) hw hblank hmunch (by simp) (fun _ => rfl) htok hfeed

/-- The word of a modifier. -/
def Modifier.word : Modifier → List Char
  | .shift => bytes "shift"
  | .control => bytes "control"
  | .alt => bytes "alt"
  | .altgr => bytes "altgr"
  | .shiftl => bytes "shiftl"
  | .shiftr => bytes "shiftr"
  | .ctrll => bytes "ctrll"
  | .ctrlr => bytes "ctrlr"
  | .capsshift => bytes "capsshift"

theorem reads_modifier (m : Modifier) (hfeed : (feed (.modifier m)).run p = .ok () p')
    (s : List Char) : Reads find r ⟨p, [], m.word ++ '\t' :: s⟩ ⟨p', [], '\t' :: s⟩ := by
  cases m <;>
    exact reads_keyword find r (by decide) (noBlank_cons.mpr (by decide)) rfl rfl (by simp) hfeed s

theorem reads_plain (hfeed : (feed .plain).run p = .ok () p') (s : List Char) :
    Reads find r ⟨p, [], bytes "plain" ++ '\t' :: s⟩ ⟨p', [], '\t' :: s⟩ :=
  reads_keyword find r (by decide) (noBlank_cons.mpr (by decide)) rfl rfl (by simp) hfeed s

theorem reads_keycode (hfeed : (feed .keycode).run p = .ok () p') (s : List Char) :
    Reads find r ⟨p, [], bytes "keycode" ++ ' ' :: s⟩ ⟨p', [], ' ' :: s⟩ :=
  reads_keyword find r (by decide) (noBlank_cons.mpr (by decide)) rfl rfl (by simp) hfeed s

theorem reads_keymaps (hfeed : (feed .keymaps).run p = .ok () p') (s : List Char) :
    Reads find r ⟨p, [], bytes "keymaps" ++ ' ' :: s⟩ ⟨p', [], ' ' :: s⟩ :=
  reads_keyword find r (by decide) (noBlank_cons.mpr (by decide)) rfl rfl (by simp) hfeed s

/-! ## Numbers -/

/-- A number of a map or a key, as it is printed: it is zero or does not start with a zero. -/
def isDecimal (n : Nat) : Bool :=
  match fmtU n with
  | [] => false
  | d :: ds =>
    (d :: ds == ['0'] || ['1', '2', '3', '4', '5', '6', '7', '8', '9'].contains d) &&
      ds.all (fun c => '0' ≤ c && c ≤ '9') && strtol 0 (d :: ds) == n

theorem isDecimal_of_lt {n : Nat} (hn : n < 256) : isDecimal n = true := by
  have hall : (List.range 256).all isDecimal = true := by decide +kernel
  exact List.all_eq_true.mp hall n (List.mem_range.mpr hn)

/-- What comes after a number. -/
def EndsNumber (a : Char) : Prop := a = ' ' ∨ a = '-' ∨ a = ',' ∨ a = '\n'

theorem munch_number {n : Nat} (hn : n < 256) {a : Char} (ha : EndsNumber a) (s : List Char) :
    munch (rules .initial) (fmtU n ++ a :: s) = some (.number, (fmtU n).length) ∧
      strtol 0 (fmtU n) = n ∧ ∃ d ds, fmtU n = d :: ds ∧ WordChar d := by
  have hdec := isDecimal_of_lt hn
  unfold isDecimal at hdec
  split at hdec
  · cases hdec
  rename_i d ds htext
  simp only [Bool.and_eq_true, Bool.or_eq_true, beq_iff_eq] at hdec
  obtain ⟨⟨hd, hds⟩, hval⟩ := hdec
  rw [htext]
  rcases hd with hd | hd
  · obtain ⟨rfl, rfl⟩ := List.cons.inj hd
    refine ⟨?_, hval, _, _, rfl, by decide⟩
    have hmunch (b : Char) (hdead : ['0', b].foldl advance (rules .initial) = [])
        (hm : munch (rules .initial) ['0', b] = some (.number, 1)) :
        munch (rules .initial) ('0' :: b :: s) = some (.number, 1) := by
      rw [← hm]
      exact munch_append_of_dead hdead s
    rcases ha with rfl | rfl | rfl | rfl <;> exact hmunch _ rfl rfl
  · have hrest : ∀ b ∈ (a :: s).head?, ('0' ≤ b && b ≤ '9') = false := by
      intro b hb
      obtain rfl := Option.some.inj hb
      rcases ha with rfl | rfl | rfl | rfl <;> decide
    have hadv : advance (rules .initial) d =
        [(.number, .star decDigit), (.any, .eps), (.echo, .eps)] ∧ WordChar d := by
      simp only [List.contains_cons, List.contains_nil, Bool.or_false, Bool.or_eq_true, beq_iff_eq]
        at hd
      rcases hd with rfl | rfl | rfl | rfl | rfl | rfl | rfl | rfl | rfl <;>
        exact ⟨rfl, by decide⟩
    exact ⟨munch_run hadv.1 (by simp) (List.all_eq_true.mp hds) hrest, hval, _, _, rfl, hadv.2⟩

theorem reads_number {n : Nat} (hn : n < 256) {a : Char} (ha : EndsNumber a)
    (hfeed : (feed (.number n)).run p = .ok () p') (s : List Char) :
    Reads find r ⟨p, [], fmtU n ++ a :: s⟩ ⟨p', [], a :: s⟩ := by
  obtain ⟨hm, hval, d, ds, htext, hd⟩ := munch_number hn ha s
  have hact (r : Reader) : lexAction find (r.at ⟨p, [], a :: s⟩) (fmtU n) .number =
      (r.at ⟨p, [], a :: s⟩, some (.number n)) := by
    have hint : parseInt (fmtU n) 0 = some (n : Int) := by
      unfold parseInt intMax
      rw [hval, if_neg (by omega)]
    simp only [lexAction, hint, Option.map_some, Option.getD_some]
  refine .token (Or.inl rfl) (by simp [htext]) ?_ hm (by decide) hact (by simp) hfeed
  rw [htext]
  exact noBlank_cons.mpr hd.not_blank

/-! ## Single characters -/

/-- A character that is a token, and that no rule goes on after. -/
theorem reads_char {a : Char} {t : Token} (hblank : ¬ IsBlank a)
    (hadv : advance (rules .initial) a = [(.token t, .eps), (.any, .eps), (.echo, .eps)])
    (htok : t ≠ .eof) (hfeed : (feed t).run p = .ok () p') (s : List Char) :
    Reads find r ⟨p, [], a :: s⟩ ⟨p', [], s⟩ :=
  .token (w := [a]) (Or.inl rfl) (by simp) (noBlank_cons.mpr hblank)
    (munch_single hadv (by simp) s) (by simp) (fun _ => rfl) htok hfeed

theorem reads_dash (hfeed : (feed .dash).run p = .ok () p') (s : List Char) :
    Reads find r ⟨p, [], '-' :: s⟩ ⟨p', [], s⟩ :=
  reads_char find r (by decide) rfl (by simp) hfeed s

theorem reads_comma (hfeed : (feed .comma).run p = .ok () p') (s : List Char) :
    Reads find r ⟨p, [], ',' :: s⟩ ⟨p', [], s⟩ :=
  reads_char find r (by decide) rfl (by simp) hfeed s

/-- The equals sign starts the values. -/
theorem reads_equals (hfeed : (feed .equals).run { p with keyLine := [] } = .ok () p')
    (s : List Char) : Reads find r ⟨p, [], '=' :: s⟩ ⟨p', [.rvalue], s⟩ := by
  have hadv : advance (rules .initial) '=' = [(.equals, .eps), (.any, .eps), (.echo, .eps)] := rfl
  exact .token (w := ['=']) (Or.inl rfl) (by simp) (noBlank_cons.mpr (by decide))
    (munch_single hadv (by simp) s) (by simp) (fun _ => rfl) (by simp) hfeed

/-- The end of a line ends its start conditions. -/
theorem reads_eol {st : List Start} (hst : LineStart st) (hfeed : (feed .eol).run p = .ok () p')
    (s : List Char) : Reads find r ⟨p, st, '\n' :: s⟩ ⟨p', [], s⟩ := by
  have hadv : advance (rules (st.headD .initial)) '\n' = [(.eol, .eps), (.echo, .eps)] := by
    rcases hst with rfl | rfl <;> rfl
  exact .token (w := ['\n']) hst (by simp) (noBlank_cons.mpr (by decide))
    (munch_single hadv (by simp) s) (by simp) (fun _ => rfl) (by simp) hfeed

/-! ## Lines -/

/-- The parser is between two lines. -/
structure Between (p : Parser) (c : LkCtx) : Prop where
  ctx : p.ctx = c
  state : p.state = .top
  mod : p.mod = 0

/-- The start of a line up to its values. -/
theorem reads_keycodeText {p₁ p₂ : Parser} {i : Nat} (hi : i < 256)
    (hkeycode : (feed .keycode).run p = .ok () p₁) (hnumber : (feed (.number i)).run p₁ = .ok () p₂)
    (hequals : (feed .equals).run { p₂ with keyLine := [] } = .ok () p') (s : List Char) :
    Reads find r ⟨p, [], keycodeText i ++ s⟩ ⟨p', [.rvalue], s⟩ := by
  have htext : keycodeText i ++ s = bytes "keycode" ++ ' ' ::
      (List.replicate (3 - (fmtU i).length) ' ' ++ (fmtU i ++ ' ' :: '=' :: s)) := by
    have h₁ : bytes "keycode " = bytes "keycode" ++ [' '] := rfl
    have h₂ : bytes " =" = [' ', '='] := rfl
    simp only [keycodeText, fmt3U, List.leftpad, h₁, h₂, List.append_assoc, List.cons_append,
      List.nil_append]
  rw [htext]
  have hblank : Blanks (' ' :: List.replicate (3 - (fmtU i).length) ' ') :=
    blanks_replicate (3 - (fmtU i).length + 1)
  refine (reads_keycode find r hkeycode _).trans ?_
  refine (Reads.blanks hblank _).trans ?_
  refine (reads_number find r hi (Or.inl rfl) hnumber _).trans ?_
  refine (Reads.blanks (blanks_replicate 1) _).trans ?_
  exact reads_equals find r hequals s

theorem feed_eol_values {n : Int} {c : LkCtx} (hstate : p.state = .keycode (.values n))
    (hrun : (singleline n p.keyLine).run p.ctx = .ok () c) :
    (feed .eol).run p =
      .ok () { p with ctx := c, state := .top, stmts := p.stmts ++ [.keycode n p.keyLine] } := by
  have hlift : (liftLk (singleline n p.keyLine)).run p = .ok () { p with ctx := c } :=
    liftLk_eq_ok.mpr ⟨c, hrun, rfl⟩
  rw [feed_keycode hstate]
  exact (Result.bind_of_ok (EStateM.run_get p)).trans (Result.bind_of_ok hlift)

/-- A complete line. -/
theorem reads_completeLine {c c₀ c' : LkCtx} {style : PrintStyle} {i : Nat} {vs : List Int}
    (hp : Between p c₀) (hflags : c₀.flags = c.flags) (hcharset : c₀.charset = c.charset)
    (hi : i < 256) (hlen : vs.length ≤ maxNrKeymaps) (hback : ∀ v ∈ vs, ReadsBack c style v)
    (hrun : (singleline i vs).run c₀ = .ok () c') (s : List Char) :
    ∃ p', Between p' c' ∧
      Reads find r ⟨p, [], (DumpLine.keycode i vs).text c style ++ s⟩ ⟨p', [], s⟩ := by
  obtain ⟨rfl, hstate, hmod⟩ := hp
  have hkeycode : (feed .keycode).run p = .ok () { p with state := .keycode .start } := by
    rw [feed_top hstate]
    rfl
  have htext : (DumpLine.keycode i vs).text c style ++ s =
      keycodeText i ++ (vs.flatMap (printKeysym c style) ++ '\n' :: s) := by
    simp [DumpLine.text]
  have hline := reads_keycodeText find r hi hkeycode rfl rfl
    (vs.flatMap (printKeysym c style) ++ '\n' :: s)
  have hvals := reads_values find r (n := i) hback s
    (p := { p with keyLine := [], state := .keycode (.values i) }) hflags hcharset rfl
    (by simpa using hlen)
  rw [List.nil_append] at hvals
  rw [htext]
  refine ⟨_, ?_, hline.trans (hvals.trans (reads_eol find r (Or.inr rfl) (feed_eol_values rfl hrun) s))⟩
  exact ⟨rfl, rfl, hmod⟩

/-! ## Lines for one map -/

/-- The modifiers in the order in which they are printed, with their bits. -/
def Modifier.bits : List (Modifier × Nat) := [
  (.shift, 0), (.altgr, 1), (.control, 2), (.alt, 3), (.shiftl, 4), (.shiftr, 5), (.ctrll, 6),
  (.ctrlr, 7), (.capsshift, 8)]

/-- The modifiers that are printed for map `j`. -/
def modsOf (j : Nat) : List Modifier := (Modifier.bits.filter fun q => j.testBit q.2).map Prod.fst

theorem modMask_modsOf {j : Nat} (hj : j < 256) : modMask (modsOf j) = j := by
  have hall : (List.range 256).all (fun j => modMask (modsOf j) == j) = true := by decide +kernel
  exact beq_iff_eq.mp (List.all_eq_true.mp hall j (List.mem_range.mpr hj))

theorem printMod_eq {j : Nat} (h0 : j ≠ 0) :
    printMod j = (modsOf j).flatMap fun m => m.word ++ ['\t'] := by
  have hmodifiers : (modifiers.map fun q => (bytes q.1, q.2)) =
      Modifier.bits.map fun q => (q.1.word, q.2) := rfl
  have hprint : printMod j = (modifiers.map fun q => (bytes q.1, q.2)).flatMap
      fun q => if j.testBit q.2 then q.1 ++ ['\t'] else [] := by
    rw [printMod, if_pos h0, List.flatMap_map]
  rw [hprint, hmodifiers, modsOf, List.flatMap_map, List.flatMap_map, flatMap_ite]

/-- Modifiers after others. -/
theorem reads_moreModifiers {mods : List Modifier} (ms : List Modifier)
    (hstate : p.state = .line (.modifiers mods)) (s : List Char) :
    Reads find r ⟨p, [], ms.flatMap (fun m => m.word ++ ['\t']) ++ s⟩
      ⟨{ p with
        mod := ms.foldl (fun x m => x ||| m.mask) p.mod
        state := .line (.modifiers (mods ++ ms)) }, [], s⟩ := by
  induction ms generalizing p mods with
  | nil =>
    rw [List.append_nil, ← hstate]
    exact .refl _
  | cons m ms ih =>
    have hfeed : (feed (.modifier m)).run p = .ok () { p with
        mod := p.mod ||| m.mask, state := .line (.modifiers (mods ++ [m])) } := by
      rw [feed_line hstate]
      rfl
    have hmore := ih (p := { p with
      mod := p.mod ||| m.mask, state := .line (.modifiers (mods ++ [m])) }) rfl
    rw [List.append_assoc, List.singleton_append] at hmore
    rw [List.flatMap_cons, List.append_assoc, List.append_assoc]
    refine (reads_modifier find r m hfeed _).trans ?_
    exact (Reads.blanks (blanks_singleton (Or.inr rfl)) _).trans hmore

/-- The modifiers of a line. -/
theorem reads_modifiers {ms : List Modifier} (hne : ms ≠ []) (hstate : p.state = .top)
    (hmod : p.mod = 0) (s : List Char) :
    Reads find r ⟨p, [], ms.flatMap (fun m => m.word ++ ['\t']) ++ s⟩
      ⟨{ p with mod := modMask ms, state := .line (.modifiers ms) }, [], s⟩ := by
  obtain ⟨m, ms, rfl⟩ := List.exists_cons_of_ne_nil hne
  have hfeed : (feed (.modifier m)).run p = .ok () { p with
      mod := p.mod ||| m.mask, state := .line (.modifiers [m]) } := by
    rw [feed_top hstate]
    rfl
  have hmore := reads_moreModifiers find r (p := { p with
    mod := p.mod ||| m.mask, state := .line (.modifiers [m]) }) ms rfl s
  have hmask : modMask (m :: ms) = ms.foldl (fun x m => x ||| m.mask) (p.mod ||| m.mask) := by
    rw [hmod]
    rfl
  rw [List.flatMap_cons, List.append_assoc, List.append_assoc, hmask]
  refine (reads_modifier find r m hfeed _).trans ?_
  exact (Reads.blanks (blanks_singleton (Or.inr rfl)) _).trans hmore

/-- The map of a line for one map. -/
def LineKind.map (mod : Nat) : LineKind → Nat
  | .modified _ => mod
  | .plain => 0

theorem feed_eol_line {kind : LineKind} {n v : Int} {c : LkCtx}
    (hstate : p.state = .line (.value kind n v))
    (hrun : (modifierline (kind.map p.mod) n v).run p.ctx = .ok () c) :
    ∃ p', (feed .eol).run p = .ok () p' ∧ Between p' c := by
  rw [feed_line hstate]
  cases kind with
  | modified mods =>
    have hlift : (liftLk (modifierline p.mod n v)).run p = .ok () { p with ctx := c } :=
      liftLk_eq_ok.mpr ⟨c, hrun, rfl⟩
    exact ⟨_, (Result.bind_of_ok (EStateM.run_get p)).trans (Result.bind_of_ok hlift), rfl, rfl, rfl⟩
  | plain =>
    have hlift : (liftLk (modifierline 0 n v)).run p = .ok () { p with ctx := c } :=
      liftLk_eq_ok.mpr ⟨c, hrun, rfl⟩
    exact ⟨_, Result.bind_of_ok hlift, rfl, rfl, rfl⟩

section Line

variable {c c' : LkCtx} {style : PrintStyle} {i : Nat} {v : Int}

/-- A line for one map after its modifiers. -/
theorem reads_keyLine {kind : LineKind}
    (hkeycode : (feed .keycode).run p = .ok () { p with state := .line (.keycode kind) })
    (hflags : p.ctx.flags = c.flags) (hcharset : p.ctx.charset = c.charset) (hi : i < 256)
    (hback : ReadsBack c style v)
    (hrun : (modifierline (kind.map p.mod) i v).run p.ctx = .ok () c') (s : List Char) :
    ∃ p', Between p' c' ∧
      Reads find r ⟨p, [], keycodeText i ++ (printKeysym c style v ++ '\n' :: s)⟩
        ⟨p', [], s⟩ := by
  have hline := reads_keycodeText find r hi hkeycode rfl rfl
    (printKeysym c style v ++ '\n' :: s)
  have hrest : ∀ a ∈ ('\n' :: s).head?, a = ' ' ∨ a = '\n' := by simp
  have hval := reads_lineValue find r (n := i)
    (p := { p with keyLine := [], state := .line (.equals kind i) }) hflags hcharset rfl hback hrest
  obtain ⟨p', heol, hp'⟩ := feed_eol_line (n := i) (v := v)
    (p := { p with keyLine := [], state := .line (.value kind i v) }) rfl hrun
  exact ⟨p', hp', hline.trans (hval.trans (reads_eol find r (Or.inr rfl) heol s))⟩

/-- A line for map `j`. -/
theorem reads_bindLine {c₀ : LkCtx} {j : Nat} (hp : Between p c₀) (hflags : c₀.flags = c.flags)
    (hcharset : c₀.charset = c.charset) (hi : i < 256) (hj : j < 256) (hback : ReadsBack c style v)
    (hrun : (modifierline j i v).run c₀ = .ok () c') (s : List Char) :
    ∃ p', Between p' c' ∧
      Reads find r ⟨p, [], (DumpLine.bind i j v).text c style ++ s⟩ ⟨p', [], s⟩ := by
  obtain ⟨rfl, hstate, hmod⟩ := hp
  have htext : (DumpLine.bind i j v).text c style ++ s = (if j ≠ 0 then ['\t'] else []) ++
      (printMod j ++ (keycodeText i ++ (printKeysym c style v ++ '\n' :: s))) := by
    simp only [DumpLine.text, printBind, List.append_assoc, List.singleton_append]
  rw [htext]
  by_cases h0 : j = 0
  · subst h0
    have hplain : (feed .plain).run p = .ok () { p with state := .line .plain } := by
      rw [feed_top hstate]
      rfl
    have hmods := reads_plain find r hplain
      (keycodeText i ++ (printKeysym c style v ++ '\n' :: s))
    obtain ⟨p', hp', hrest⟩ := reads_keyLine find r
      (p := { p with state := .line .plain }) rfl hflags hcharset hi hback hrun s
    refine ⟨p', hp', hmods.trans ?_⟩
    exact (Reads.blanks (blanks_singleton (Or.inr rfl)) _).trans hrest
  · rw [if_pos h0, printMod_eq h0]
    have hmask := modMask_modsOf hj
    have hne : modsOf j ≠ [] := by
      intro hnil
      rw [hnil] at hmask
      exact h0 hmask.symm
    have hmods := reads_modifiers find r hne hstate hmod
      (keycodeText i ++ (printKeysym c style v ++ '\n' :: s))
    rw [hmask] at hmods
    obtain ⟨p', hp', hrest⟩ := reads_keyLine find r
      (p := { p with mod := j, state := .line (.modifiers (modsOf j)) }) rfl hflags hcharset hi hback
      hrun s
    refine ⟨p', hp', ?_⟩
    exact (Reads.blanks (blanks_singleton (Or.inr rfl)) _).trans (hmods.trans hrest)

theorem reads_blankLine {c₀ : LkCtx} (hp : Between p c₀) (s : List Char) :
    Reads find r ⟨p, [], DumpLine.blank.text c style ++ s⟩ ⟨p, [], s⟩ := by
  have hfeed : (feed .eol).run p = .ok () p := by
    rw [feed_top hp.state]
    rfl
  exact reads_eol find r (Or.inl rfl) hfeed s

end Line

end Kbd.Keymap
