import Kbd.Keymap.Verify.Bounds
import Kbd.Keymap.Verify.Cells

/-!
# Values that can be incremented

`lk_add_key` adds one to the values of a line. The scanner takes numbers up to `INT_MAX`, where its
message says "less than", and this is the only number that comes out of the conversions too large:
as long as no value of a key is written so, neither `lk_add_key` nor `lk_get_key` overflows.
-/

namespace Kbd.Keymap

open Kbd.Lib

/-- The numbers of an `int`. -/
def InInt (x : Int) : Prop := -2 ^ 31 ≤ x ∧ x ≤ intMax

/-- The end of the line gives `v` to `lk_add_key`: a value of the line, or the filler for a map that
it has no value for. -/
def Parser.Hands (p : Parser) (v : Int) : Prop :=
  match p.state with
  | .keycode (.values n) => KeyInRange n ∧ (v = kHole ∨ v ∈ p.keyLine)
  | .line (.value _ n w) => KeyInRange n ∧ v = w
  | _ => False

/-- No sum of `lk_add_key` and no difference of `lk_get_key` is out of range, for the line that is
read and for `lk_add_constants` after it; and the cells are in range. -/
structure NoOverflow (p : Parser) : Prop where
  cells : CellsOk p.ctx
  line : ∀ v, p.Hands v → InInt (v + 1) ∧ InInt (metaOf v + 1)
  getKey : ∀ t map i, p.ctx.keymap.get t = some map → map.get i ≠ 0 → InInt (map.get i - 1)
  key : ∀ t i, InInt (lkGetKey p.ctx t i + 1)
  constants : CellsOk (Result.state (lkAddConstants.run p.ctx))

/-- The next token is taken as a value, or after the `+` of one, of a key in range. -/
def Parser.TakesValue (p : Parser) : Prop :=
  match p.state with
  | .keycode (.values n) => KeyInRange n
  | .keycode (.plus n) => KeyInRange n
  | .line (.equals _ n) => KeyInRange n
  | .line (.plus _ n) => KeyInRange n
  | _ => False

/-- The number that the scanner is about to read. -/
def Reader.nextNumber (r : Reader) : Option Int :=
  match r.buffers with
  | (a :: buf) :: _ =>
    match munch (rules r.cond) (a :: buf) with
    | some (.number, n) => parseInt ((a :: buf).take n) 0
    | _ => none
  | _ => none

/-- The next match is `INT_MAX`, as a value of a key. -/
def Reader.ReadsIntMax (r : Reader) : Prop :=
  r.parser.TakesValue ∧ r.nextNumber = some (intMax : Int)

/-! ## Tokens -/

/-- The range of the numbers that come with a token. -/
def Token.InRange : Token → Prop
  | .number n => 0 ≤ n ∧ n ≤ intMax
  | .unumber n => 0 ≤ n ∧ n < unicodeMask
  | .literal n => IsSymCode n
  | _ => True

/-- The tokens that a rule may return without an action. -/
def Token.isPlain : Token → Bool
  | .number _ | .unumber _ | .literal _ | .equals | .eof => false
  | _ => true

/-- The rules that do nothing but return a token return none with a value. -/
theorem isPlain_of_mem {s : Start} {t : Token} {re : Re Char} (h : (Rule.token t, re) ∈ rules s) :
    t.isPlain = true := by
  have htags : ∀ rule ∈ (rules s).map Prod.fst,
      (match rule with | .token t => t.isPlain | _ => true) = true := by
    cases s <;> decide
  exact htags _ (List.mem_map_of_mem (f := Prod.fst) h)

theorem parseInt_range {value : List Char} {base : Nat} {n : Int}
    (h : parseInt value base = some n) : 0 ≤ n ∧ n ≤ intMax := by
  unfold parseInt at h
  split at h
  · cases h
  · rename_i hle
    obtain rfl := Option.some.inj h
    omega

section Lex

variable {find : FindIncl} {r : Reader} {yytext : List Char}

theorem strdataAppend_token (r : Reader) (part : List Char) :
    ∀ tok ∈ (strdataAppend r part).2, tok = .error := by
  unfold strdataAppend
  split
  · exact fun tok h => (Option.some.inj h).symm
  · exact fun tok h => nomatch h

theorem includeFile_token (find : FindIncl) (r : Reader) (yytext : List Char) :
    ∀ tok ∈ (includeFile find r yytext).2, tok = .error := by
  rcases includeFile_cases find r yytext with ⟨-, h⟩ | ⟨fp, -, ⟨-, h⟩ | ⟨-, h⟩⟩
  · rw [h]
    exact fun tok h => (Option.some.inj h).symm
  · rw [h]
    exact fun tok h => nomatch h
  · rw [h]
    exact fun tok h => nomatch h

/-- What the scanner makes of a match: the numbers are in range, and `EQUALS` and `NUMBER` come from
their own rules. -/
structure Lexes (rule : Rule) (yytext : List Char) (tok : Token) : Prop where
  inRange : tok.InRange
  equals : tok = .equals → rule = .equals
  number : ∀ n, tok = .number n → rule = .number ∧ parseInt yytext 0 = some n

theorem Lexes.of_isPlain {rule : Rule} {tok : Token} (h : tok.isPlain = true) :
    Lexes rule yytext tok := by
  refine ⟨?_, ?_, ?_⟩
  · cases tok <;> trivial
  · rintro rfl
    cases h
  · rintro n rfl
    cases h

theorem lexes_lexAction (find : FindIncl) (r : Reader) (yytext : List Char) {rule : Rule}
    (hrule : ∀ t, rule = .token t → t.isPlain = true) :
    ∀ tok ∈ (lexAction find r yytext rule).2, Lexes rule yytext tok := by
  have herror {tok : Token} (h : tok = .error) : Lexes rule yytext tok := by
    subst h
    exact .of_isPlain rfl
  intro tok htok
  cases rule with
  | token t =>
    obtain rfl := Option.some.inj htok
    exact .of_isPlain (hrule _ rfl)
  | equals =>
    obtain rfl := Option.some.inj htok
    exact ⟨trivial, fun _ => rfl, fun n h => (by cases h)⟩
  | number =>
    obtain rfl := Option.some.inj htok
    cases hn : parseInt yytext 0 with
    | none => exact .of_isPlain rfl
    | some n =>
      refine ⟨parseInt_range hn, fun h => (by cases h), ?_⟩
      rintro m heq
      cases heq
      exact ⟨rfl, hn⟩
  | unicode =>
    simp only [lexAction] at htok
    split at htok
    · obtain rfl := Option.some.inj htok
      exact .of_isPlain rfl
    · rename_i n hn
      obtain rfl := Option.some.inj htok
      split
      · exact .of_isPlain rfl
      · exact ⟨⟨(parseInt_range hn).1, by omega⟩, fun h => (by cases h), fun n h => (by cases h)⟩
  | literal =>
    simp only [lexAction] at htok
    obtain rfl := Option.some.inj htok
    split
    · exact .of_isPlain rfl
    · rename_i hne
      exact ⟨(ksymtocode_range r.parser.ctx yytext .toAuto).resolve_left hne, fun h => (by cases h),
        fun n h => (by cases h)⟩
  | inclFile => exact herror (includeFile_token find r yytext tok htok)
  | strQuote | strBackslash | strNewline | strText =>
    exact herror (strdataAppend_token r _ tok htok)
  | strOcta =>
    simp only [lexAction] at htok
    split at htok
    · obtain rfl := Option.some.inj htok
      exact .of_isPlain rfl
    · exact herror (strdataAppend_token r _ tok htok)
  | ccharOcta =>
    obtain rfl := Option.some.inj htok
    cases parseInt (yytext.drop 2) 8 <;> exact .of_isPlain rfl
  | _ => cases htok <;> exact .of_isPlain rfl

end Lex

/-! ## The parser -/

/-- The values of a key in range that the parser holds. -/
def LineInv (p : Parser) : Prop :=
  match p.state with
  | .keycode (.values n) => KeyInRange n → LineValues p.keyLine
  | .keycode (.plus n) => KeyInRange n → LineValues p.keyLine
  | .line (.value _ n v) => KeyInRange n → IsValue v
  | _ => True

/-- What holds between two tokens. -/
structure ValueInv (p : Parser) : Prop where
  cells : CellsOk p.ctx
  line : LineInv p

/-- A state in which the parser holds no values. -/
def PState.holdsNone : PState → Bool
  | .keycode (.values _) | .keycode (.plus _) | .line (.value _ _ _) => false
  | _ => true

/-- The scanner clears the values at the `=` of a line. -/
theorem ValueInv.clear {p : Parser} (h : ValueInv p) : ValueInv { p with keyLine := [] } := by
  obtain ⟨ctx, state, keyLine, mod, stmts⟩ := p
  obtain ⟨hcells, hline⟩ := h
  refine ⟨hcells, ?_⟩
  cases state with
  | keycode s =>
    cases s with
    | values n | plus n => exact fun _ v hv => nomatch hv
    | _ => trivial
  | line s =>
    cases s with
    | value kind n v => exact hline
    | _ => trivial
  | _ => trivial

theorem lineInv_of_holdsNone {p : Parser} (h : p.state.holdsNone = true) : LineInv p := by
  unfold LineInv
  split <;> first | trivial | (rename_i hs; rw [hs] at h; cases h)

section Feed

theorem keeps_goto {q : PState} (hq : q.holdsNone = true) : Keeps ValueInv (goto q) :=
  .modify fun _ h => ⟨h.cells, lineInv_of_holdsNone hq⟩

theorem keeps_finish (s : Stmt) : Keeps ValueInv (finish s) :=
  .modify fun _ h => ⟨h.cells, lineInv_of_holdsNone rfl⟩

theorem keeps_liftLk {x : Lk Unit} (hx : Keeps CellsOk x) : Keeps ValueInv (liftLk x) := by
  intro p hp
  have hc := hx p.ctx hp.cells
  rw [liftLk_run]
  cases hx : x.run p.ctx with
  | ok a c =>
    rw [hx] at hc
    exact ⟨hc, hp.line⟩
  | error e c =>
    rw [hx] at hc
    exact ⟨hc, hp.line⟩

theorem keeps_lineEnd {x : Lk Unit} (hx : Keeps CellsOk x) (s : Stmt) :
    Keeps ValueInv (do liftLk x; finish s : Parse Unit) :=
  .bind (keeps_liftLk hx) fun _ => keeps_finish s

theorem keeps_pushModifier (mods : List Modifier) (m : Modifier) :
    Keeps ValueInv (pushModifier mods m) :=
  .modify fun _ h => ⟨h.cells, lineInv_of_holdsNone rfl⟩

theorem keeps_takeValue {v : Option Int} {f : Int → Parse Unit} (hf : ∀ n, Keeps ValueInv (f n)) :
    Keeps ValueInv (takeValue v f) := by
  cases v with
  | none => exact .throw _
  | some n => exact hf n

theorem keeps_feedTop (tok : Token) : Keeps ValueInv (feedTop tok) := by
  unfold feedTop
  split
  case h_1 => exact .pure ()
  case h_10 => exact keeps_pushModifier [] _
  all_goals first | exact keeps_goto rfl | exact .throw _

theorem keeps_feedSetting (s : SettingState) (tok : Token) :
    Keeps ValueInv (feedSetting s tok) := by
  unfold feedSetting
  split
  case h_2 name => exact keeps_lineEnd (keeps_charsetline name) _
  case h_3 => exact keeps_lineEnd (keeps_setting (.inl rfl)) _
  case h_7 sym value => exact keeps_lineEnd (keeps_strline sym value) _
  all_goals first | exact keeps_goto rfl | exact .throw _

theorem keeps_feedUsual (s : UsualState) (tok : Token) : Keeps ValueInv (feedUsual s tok) := by
  unfold feedUsual
  split
  case h_3 => exact keeps_lineEnd (keeps_setting (.inr rfl)) _
  case h_5 => exact keeps_lineEnd (keeps_composeAsUsual none) _
  case h_8 name => exact keeps_lineEnd (keeps_composeAsUsual (some name)) _
  all_goals first | exact keeps_goto rfl | exact .throw _

theorem keeps_feedCompose (s : ComposeState) (tok : Token) :
    Keeps ValueInv (feedCompose s tok) := by
  unfold feedCompose
  split
  case h_9 d b r => exact keeps_lineEnd (keeps_lkAppendCompose d b r) _
  case h_7 | h_8 =>
    exact .get_bind fun p hp => keeps_takeValue (fun _ => keeps_goto rfl) p hp
  all_goals
    first
    | exact keeps_goto rfl
    | exact keeps_takeValue fun _ => keeps_goto rfl
    | exact .throw _

theorem keeps_rangeNext (done : List Range) (tok : Token) :
    Keeps ValueInv (rangeNext done tok) := by
  unfold rangeNext
  split
  · exact keeps_goto rfl
  · exact keeps_lineEnd keeps_keymapline _
  · exact .throw _

theorem keeps_feedKeymaps (s : KeymapsState) (tok : Token) :
    Keeps ValueInv (feedKeymaps s tok) := by
  unfold feedKeymaps
  split
  · exact keeps_goto rfl
  · exact keeps_goto rfl
  · exact .bind (keeps_liftLk (keeps_range0 _)) fun _ => keeps_rangeNext _ _
  · exact .bind (keeps_liftLk (keeps_range0 _)) fun _ => keeps_goto rfl
  · exact keeps_rangeNext _ _
  · exact .throw _

/-- A token that comes as a value. -/
theorem rvalueOf_isValue {ctx : LkCtx} {tok : Token} (htok : tok.InRange)
    (hmax : tok ≠ .number intMax) {v : Int}
    (h : rvalueOf ctx tok = some v ∨ plusRvalueOf ctx tok = some v) : IsValue v := by
  cases tok with
  | number n =>
    have hn : IsValue n := by
      have hne : n ≠ intMax := fun heq => hmax (heq ▸ rfl)
      have := htok.1
      have := htok.2
      exact ⟨by omega, by omega⟩
    rcases h with h | h <;> obtain rfl := Option.some.inj h
    · exact convertCode_isValue hn htok.1
    · exact addCapslock_isValue hn htok.1
  | unumber n =>
    have h0 : 0 ≤ U n := U_nonneg htok.1
    have hn : IsValue (U n) := by
      have hlt := htok.2
      simp only [unicodeMask] at hlt
      exact IsKsym.isValue (.inr ⟨h0, U_lt htok.1 (by omega)⟩)
    rcases h with h | h <;> obtain rfl := Option.some.inj h
    · exact convertCode_isValue hn h0
    · exact addCapslock_isValue hn h0
  | literal n =>
    have hn : IsValue n := IsKsym.isValue (.inr htok)
    rcases h with h | h <;> obtain rfl := Option.some.inj h
    · exact hn
    · exact addCapslock_isValue hn htok.1
  | _ => rcases h with h | h <;> cases h

theorem keeps_pushValue (n : Int) {v : Int} (hv : KeyInRange n → IsValue v) {p : Parser}
    (hc : CellsOk p.ctx) (hline : LineInv p) (hkey : KeyInRange n → LineValues p.keyLine) :
    ValueInv (Result.state ((pushValue n v).run p)) := by
  have hrun : (pushValue n v).run p =
      if p.keyLine.length ≥ maxNrKeymaps then .error (.tooManyEntries (p.keyLine.length + 1)) p
      else .ok () { p with keyLine := p.keyLine ++ [v], state := .keycode (.values n) } := by
    unfold pushValue
    rw [Result.bind_of_ok (show (get : Parse Parser).run p = .ok p p from rfl)]
    split <;> rfl
  rw [hrun]
  split
  · exact ⟨hc, hline⟩
  · refine ⟨hc, fun hn w hw => ?_⟩
    rcases List.mem_append.mp hw with hw | hw
    · exact hkey hn w hw
    · rw [List.mem_singleton.mp hw]
      exact hv hn

/-- The token that may come in the state of the parser: its numbers are in range, `=` clears the
values of the line, and `INT_MAX` is no value. -/
structure Feedable (p : Parser) (tok : Token) : Prop where
  inRange : tok.InRange
  equals : tok = .equals → p.keyLine = []
  value : p.TakesValue → tok ≠ .number intMax

theorem valueInv_feedKeycode {p : Parser} {s : KeycodeState} {tok : Token}
    (hp : ValueInv p) (hs : p.state = .keycode s) (htok : Feedable p tok) :
    ValueInv (Result.state ((feedKeycode s tok).run p)) := by
  obtain ⟨hc, hline⟩ := hp
  have hinv := hline
  unfold LineInv at hinv
  have hvalue := htok.value
  unfold Parser.TakesValue at hvalue
  rw [hs] at hinv hvalue
  unfold feedKeycode
  split
  · exact keeps_goto rfl p ⟨hc, hline⟩
  · -- the values begin
    rename_i n
    change ValueInv { p with state := .keycode (.values n) }
    refine ⟨hc, fun _ v hv => ?_⟩
    rw [htok.equals rfl] at hv
    cases hv
  · exact ⟨hc, hinv⟩
  · -- the end of the line
    exact keeps_lineEnd (keeps_singleline _ hinv) _ p ⟨hc, hline⟩
  · rename_i n _ _
    change ValueInv (Result.state ((takeValue (rvalueOf p.ctx tok) (pushValue n)).run p))
    cases hv : rvalueOf p.ctx tok with
    | none => exact ⟨hc, hline⟩
    | some v =>
      have hval : KeyInRange n → IsValue v := fun hn =>
        rvalueOf_isValue htok.inRange (hvalue hn) (.inl hv)
      exact keeps_pushValue n hval hc hline hinv
  · rename_i n
    change ValueInv (Result.state ((takeValue (plusRvalueOf p.ctx tok) (pushValue n)).run p))
    cases hv : plusRvalueOf p.ctx tok with
    | none => exact ⟨hc, hline⟩
    | some v =>
      have hval : KeyInRange n → IsValue v := fun hn =>
        rvalueOf_isValue htok.inRange (hvalue hn) (.inr hv)
      exact keeps_pushValue n hval hc hline hinv
  · exact ⟨hc, hline⟩

theorem keeps_endLine {n v : Int} (hv : KeyInRange n → IsValue v) (kind : LineKind) :
    Keeps ValueInv (endLine n v kind) := by
  have hmod : Keeps ValueInv (modify fun p => { p with mod := 0 } : Parse Unit) :=
    .modify fun _ h => ⟨h.cells, h.line⟩
  have hend (mod : Nat) (s : Stmt) : Keeps ValueInv (do
      liftLk (modifierline mod n v)
      modify fun p => { p with mod := 0 }
      finish s : Parse Unit) :=
    .bind (keeps_liftLk (keeps_modifierline mod n hv)) fun _ => .bind hmod fun _ => keeps_finish s
  cases kind with
  | modified mods => exact .get_bind fun p hp => hend p.mod _ p hp
  | plain => exact hend 0 _

theorem valueInv_feedLine {p : Parser} {s : LineState} {tok : Token}
    (hp : ValueInv p) (hs : p.state = .line s) (htok : Feedable p tok) :
    ValueInv (Result.state ((feedLine s tok).run p)) := by
  have hinv := hp.line
  unfold LineInv at hinv
  have hvalue := htok.value
  unfold Parser.TakesValue at hvalue
  rw [hs] at hinv hvalue
  unfold feedLine
  split
  · exact keeps_pushModifier _ _ p hp
  · exact keeps_goto rfl p hp
  · exact keeps_goto rfl p hp
  · exact keeps_goto rfl p hp
  · exact keeps_goto rfl p hp
  · exact keeps_goto rfl p hp
  · rename_i kind n _
    change ValueInv (Result.state ((takeValue (rvalueOf p.ctx tok) fun v =>
      goto (.line (.value kind n v))).run p))
    cases hv : rvalueOf p.ctx tok with
    | none => exact hp
    | some v =>
      exact ⟨hp.cells, fun hn => rvalueOf_isValue htok.inRange (hvalue hn) (.inl hv)⟩
  · rename_i kind n
    change ValueInv (Result.state ((takeValue (plusRvalueOf p.ctx tok) fun v =>
      goto (.line (.value kind n v))).run p))
    cases hv : plusRvalueOf p.ctx tok with
    | none => exact hp
    | some v =>
      exact ⟨hp.cells, fun hn => rvalueOf_isValue htok.inRange (hvalue hn) (.inr hv)⟩
  · exact keeps_endLine hinv _ p hp
  · exact hp

/-- One token, also where the parser rejects it. -/
theorem feed_run (tok : Token) (p : Parser) :
    (feed tok).run p = (match p.state with
      | .top => feedTop tok
      | .setting s => feedSetting s tok
      | .usual s => feedUsual s tok
      | .compose s => feedCompose s tok
      | .keymaps s => feedKeymaps s tok
      | .keycode s => feedKeycode s tok
      | .line s => feedLine s tok).run p := rfl

theorem valueInv_feed {p : Parser} {tok : Token} (hp : ValueInv p) (htok : Feedable p tok) :
    ValueInv (Result.state ((feed tok).run p)) := by
  rw [feed_run]
  cases hs : p.state with
  | top => exact keeps_feedTop tok p hp
  | setting s => exact keeps_feedSetting s tok p hp
  | usual s => exact keeps_feedUsual s tok p hp
  | compose s => exact keeps_feedCompose s tok p hp
  | keymaps s => exact keeps_feedKeymaps s tok p hp
  | keycode s => exact valueInv_feedKeycode hp hs htok
  | line s => exact valueInv_feedLine hp hs htok

end Feed

/-! ## Runs -/

section Run

variable {find : FindIncl} {r r' : Reader}

theorem valueInv_feedToken {tok : Token} (hr : ValueInv r.parser) (htok : Feedable r.parser tok) :
    ValueInv (after (feedToken r tok)).parser := by
  have hfeed := valueInv_feed hr htok
  unfold feedToken
  split
  · exact hr
  · split
    · rename_i hrun
      rwa [hrun] at hfeed
    · rename_i hrun
      rwa [hrun] at hfeed

/-- A step of the scanner that does not take `INT_MAX` as a value. -/
theorem valueInv_readStep (find : FindIncl) (hr : ValueInv r.parser) (hmax : ¬ r.ReadsIntMax) :
    ValueInv (after (readStep find r)).parser := by
  rcases hb : r.buffers with - | ⟨- | ⟨a, buf⟩, bufs⟩
  · rwa [readStep_nil hb]
  · rw [readStep_eof hb]
    have hpop : ValueInv r.stackPop.parser := by rwa [parser_stackPop]
    split
    · exact valueInv_feedToken hpop ⟨trivial, fun h => (nomatch h), fun _ h => nomatch h⟩
    · exact hpop
  · obtain ⟨rule, n, hm, -, -⟩ := exists_match r.cond a buf
    rw [readStep_match hb hm]
    obtain ⟨re, hre, -⟩ := exists_rule_of_firstHit (munch_eq_some_iff.mp hm).hit
    have hlexes := lexes_lexAction find (r.leave ((a :: buf).drop (taken rule n)))
      ((a :: buf).take n) fun t (ht : rule = .token t) => isPlain_of_mem (ht ▸ hre)
    have hparser (h : rule ≠ .equals) := @parser_lexAction_eq find
      (r.leave ((a :: buf).drop (taken rule n))) ((a :: buf).take n) rule h
    have hequals (h : rule = .equals) : (lexAction find (r.leave ((a :: buf).drop (taken rule n)))
        ((a :: buf).take n) rule).1.parser = { r.parser with keyLine := [] } := by
      subst h
      rfl
    revert hlexes hparser hequals
    generalize lexAction find _ _ rule = x
    intro hlexes hparser hequals
    have hinv : ValueInv x.1.parser := by
      by_cases h : rule = .equals
      · rw [hequals h]
        exact hr.clear
      · rw [hparser h]
        exact hr
    obtain ⟨r₁, - | tok⟩ := x
    · exact hinv
    · apply valueInv_feedToken hinv
      obtain ⟨hrange, heq, hnum⟩ := hlexes tok rfl
      refine ⟨hrange, fun h => ?_, ?_⟩
      · rw [hequals (heq h)]
      · rintro htakes rfl
        obtain ⟨hrule, hint⟩ := hnum _ rfl
        have hne : rule ≠ .equals := by
          rw [hrule]
          exact fun h => nomatch h
        rw [hparser hne] at htakes
        subst hrule
        refine hmax ⟨htakes, ?_⟩
        simp only [Reader.nextNumber, hb, hm]
        exact hint

theorem InInt.of_isValue {v : Int} (h : IsValue v) : InInt (v + 1) := by
  obtain ⟨h0, h1⟩ := h
  exact ⟨by omega, by omega⟩

/-- Between two tokens nothing overflows. -/
theorem ValueInv.noOverflow {p : Parser} (h : ValueInv p) : NoOverflow p where
  cells := h.cells
  line v hv := by
    have hvalue : IsValue v := by
      have hline := h.line
      unfold Parser.Hands at hv
      unfold LineInv at hline
      split at hv
      · rename_i hs
        rw [hs] at hline
        rcases hv.2 with rfl | hmem
        · exact isValue_kHole
        · exact hline hv.1 v hmem
      · rename_i hs
        rw [hs] at hline
        rw [hv.2]
        exact hline hv.1
      · exact hv.elim
    have hmeta : IsValue (metaOf v) :=
      IsKsym.isValue (.inr (isTableCode_K (by decide) ⟨kval_nonneg v, kval_lt v⟩).isSymCode)
    exact ⟨.of_isValue hvalue, .of_isValue hmeta⟩
  getKey t map i hm h0 := by
    have := (h.cells t map i hm).resolve_left h0
    have hmax := intMax_eq
    exact ⟨by omega, by omega⟩
  key t i := .of_isValue (h.cells.lkGetKey t i)
  constants := keeps_lkAddConstants p.ctx h.cells

/-- `INT_MAX` is taken as the value `INT_MAX`, unless the line is full. -/
theorem feed_intMax {p p' : Parser} (hp : p.TakesValue)
    (h : (feed (.number intMax)).run p = .ok () p') : p'.Hands intMax := by
  obtain ⟨ctx, state, keyLine, mod, stmts⟩ := p
  have hconv : rvalueOf ctx (.number intMax) = some (intMax : Int) :=
    congrArg some (convertCode_intMax ctx)
  have hcaps : plusRvalueOf ctx (.number intMax) = some (intMax : Int) :=
    congrArg some (addCapslock_intMax ctx)
  have hpush {q : Parser} {n : Int} (hn : KeyInRange n)
      (h : (pushValue n intMax).run q = .ok () p') : p'.Hands intMax := by
    obtain ⟨q₁, q₂, hget, h⟩ := Result.bind_eq_ok.mp h
    cases hget
    split at h
    · cases h
    · cases h
      exact ⟨hn, .inr (List.mem_append_right _ List.mem_cons_self)⟩
  unfold Parser.TakesValue at hp
  split at hp
  · rename_i n hs
    simp only at hs
    subst hs
    change (takeValue (rvalueOf ctx (.number intMax)) (pushValue n)).run _ = _ at h
    rw [hconv] at h
    exact hpush hp h
  · rename_i n hs
    simp only at hs
    subst hs
    change (takeValue (plusRvalueOf ctx (.number intMax)) (pushValue n)).run _ = _ at h
    rw [hcaps] at h
    exact hpush hp h
  · rename_i kind n hs
    simp only at hs
    subst hs
    change (takeValue (rvalueOf ctx (.number intMax)) fun v =>
      goto (.line (.value kind n v))).run _ = _ at h
    rw [hconv] at h
    cases h
    exact ⟨hp, rfl⟩
  · rename_i kind n hs
    simp only at hs
    subst hs
    change (takeValue (plusRvalueOf ctx (.number intMax)) fun v =>
      goto (.line (.value kind n v))).run _ = _ at h
    rw [hcaps] at h
    cases h
    exact ⟨hp, rfl⟩
  · exact hp.elim

/-- After a step that takes `INT_MAX` as a value, the end of the line overflows. -/
theorem overflow_of_readsIntMax (hr : r.ReadsIntMax) (hstep : readStep find r = .inl r') :
    ¬ NoOverflow r'.parser := by
  have hands : r'.parser.Hands intMax := by
    obtain ⟨htakes, hnum⟩ := hr
    unfold Reader.nextNumber at hnum
    split at hnum
    · rename_i a buf bufs hb
      split at hnum
      · rename_i n hm
        rw [readStep_match hb hm] at hstep
        have hlex : lexAction find (r.leave ((a :: buf).drop (taken .number n))) ((a :: buf).take n)
            .number = (r.leave ((a :: buf).drop (taken .number n)), some (.number intMax)) := by
          simp only [lexAction, hnum]
          rfl
        rw [hlex] at hstep
        change feedToken _ _ = _ at hstep
        unfold feedToken at hstep
        split at hstep
        · cases hstep
        · split at hstep
          · rename_i hrun
            cases hstep
            exact feed_intMax htakes hrun
          · cases hstep
      · cases hnum
    · cases hnum
  intro h
  have := (h.line intMax hands).1.2
  omega

/-- The runs in which no step takes `INT_MAX` as the value of a key. -/
def BelowMax (find : FindIncl) : Reader → Reader → Prop :=
  Relation.ReflTransGen fun r r' => ¬ r.ReadsIntMax ∧ readStep find r = .inl r'

theorem valueInv_of_belowMax (h : BelowMax find r r') (hr : ValueInv r.parser) :
    ValueInv r'.parser := by
  induction h with
  | refl => exact hr
  | tail _ hstep ih =>
    have := valueInv_readStep find ih hstep.1
    rwa [hstep.2] at this

/-- A run of which every state is known. -/
theorem belowMax_of_iterate {n : Nat} (h : Machine.iterate (readStep find) n r = some r')
    (hmax : ∀ k < n, ∀ s, Machine.iterate (readStep find) k r = some s → ¬ s.ReadsIntMax) :
    BelowMax find r r' := by
  induction n generalizing r with
  | zero =>
    cases h
    exact .refl
  | succ n ih =>
    have h0 : ¬ r.ReadsIntMax := hmax 0 (Nat.zero_lt_succ n) r rfl
    cases hs : readStep find r with
    | inr res => simp [Machine.iterate, hs] at h
    | inl s =>
      simp only [Machine.iterate, hs] at h
      refine .head ⟨h0, hs⟩ (ih h fun k hk t ht => ?_)
      exact hmax (k + 1) (Nat.succ_lt_succ hk) t (by simp only [Machine.iterate, hs, ht])

end Run

/-- In a parse that takes no `INT_MAX` as the value of a key nothing overflows, and this is exact:
the step that takes one makes the end of its line overflow. -/
theorem lkParseKeymap_noOverflow (find : FindIncl) (flags : LkFlags) (charset : Nat) (fp : Kbdfile)
    (r : Reader) (h : BelowMax find (startReader (lkInit flags charset) fp) r) :
    NoOverflow r.parser ∧ (¬ r.ReadsIntMax → NoOverflow (after (readStep find r)).parser) ∧
      (r.ReadsIntMax → ∀ r', readStep find r = .inl r' → ¬ NoOverflow r'.parser) := by
  have hstart : ValueInv (startReader (lkInit flags charset) fp).parser :=
    ⟨cellsOk_lkInit flags charset, trivial⟩
  have hinv := valueInv_of_belowMax h hstart
  exact ⟨hinv.noOverflow, fun hmax => (valueInv_readStep find hinv hmax).noOverflow,
    fun hmax r' hstep => overflow_of_readsIntMax hmax hstep⟩

/-- A line with the largest value below `INT_MAX`. -/
theorem lkParseKeymap_noOverflow_below : ∃ r,
    Machine.iterate (readStep (findText [])) 6
      (startReader (lkInit {} 0) (fileOf "keycode 30=2147483646\n")) = some r ∧
    lkGetKey r.parser.ctx 0 30 = 2147483646 ∧ NoOverflow r.parser := by
  have h : (Machine.iterate (readStep (findText [])) 6
      (startReader (lkInit {} 0) (fileOf "keycode 30=2147483646\n"))).any
        fun r => decide (lkGetKey r.parser.ctx 0 30 = 2147483646) := by
    decide +kernel
  have hbelow : ((List.range 6).all fun k => (Machine.iterate (readStep (findText [])) k
      (startReader (lkInit {} 0) (fileOf "keycode 30=2147483646\n"))).all
        fun r => decide (r.nextNumber ≠ some (intMax : Int))) = true := by
    decide +kernel
  obtain ⟨r, hr, hkey⟩ := (Option.any_eq_true _ _).mp h
  have hrun : BelowMax (findText []) (startReader (lkInit {} 0) (fileOf "keycode 30=2147483646\n"))
      r := by
    refine belowMax_of_iterate hr fun k hk s hs hmax => ?_
    have hk' := List.all_eq_true.mp hbelow k (List.mem_range.mpr hk)
    rw [hs] at hk'
    exact of_decide_eq_true hk' hmax.2
  exact ⟨r, hr, of_decide_eq_true hkey, (lkParseKeymap_noOverflow _ _ _ _ r hrun).1⟩

/-- The line `keycode 30=2147483647` is accepted, and `INT_MAX` is incremented. -/
theorem not_lkParseKeymap_noOverflow : ∃ r,
    Machine.Steps (readStep (findText []))
      (startReader (lkInit {} 0) (fileOf "keycode 30=2147483647\n")) r ∧
    r.parser.state = .top ∧ ¬ NoOverflow r.parser := by
  have h : (Machine.iterate (readStep (findText [])) 6
      (startReader (lkInit {} 0) (fileOf "keycode 30=2147483647\n"))).any
        fun r => decide (r.parser.state = .top) &&
          decide (lkGetKey r.parser.ctx 0 30 = 2147483647) := by
    decide +kernel
  obtain ⟨r, hr, hcell⟩ := (Option.any_eq_true _ _).mp h
  simp only [Bool.and_eq_true, decide_eq_true_eq] at hcell
  refine ⟨r, Machine.steps_of_iterate hr, hcell.1, fun hno => ?_⟩
  have hkey := (hno.key 0 30).2
  rw [hcell.2] at hkey
  exact absurd hkey (by decide)

end Kbd.Keymap
