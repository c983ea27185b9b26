import Kbd.Keymap.Parse
import Kbd.Keymap.Verify.Parser

/-!
# Reading a keymap

What a step of the reader does to the open files (`readStep_effect`) and to the parser
(`parser_readStep`). An accepted parse has run the statements it has read (`runStmts_of_accepted`).
-/

namespace Kbd.Keymap

open Kbd.Lib

/-! ## The rules -/

theorem echoRule_mem (s : Start) : echoRule ∈ rules s := by
  cases s <;>
    simp only [rules, strRules, inclRules, List.mem_append, List.mem_cons, true_or, or_true]

/-- No rule returns the end marker. -/
theorem token_eof_not_mem {s : Start} {re : Re Char} : (Rule.token .eof, re) ∉ rules s := by
  intro h
  have htags : Rule.token .eof ∉ (rules s).map Prod.fst := by cases s <;> decide
  exact htags (List.mem_map_of_mem (f := Prod.fst) h)

theorem comment_length {s : Start} {re : Re Char} {u : List Char}
    (hr : (Rule.comment, re) ∈ rules s) (hu : re.Matches u) : 2 ≤ u.length := by
  have hre : re = .seq (oneOf ['#', '!']) (.seq (.star dot) (char '\n')) := by
    have hmem : (Rule.comment, re) ∈ (rules s).filter (·.1 = .comment) :=
      List.mem_filter.mpr ⟨hr, rfl⟩
    cases s with
    | initial | rvalue => exact congrArg Prod.snd (List.mem_singleton.mp hmem)
    | str | inclstr => cases hmem
  rw [hre] at hu
  obtain ⟨v, w, rfl, hv, hw⟩ := Re.matches_seq.mp hu
  obtain ⟨w₁, w₂, rfl, -, hw₂⟩ := Re.matches_seq.mp hw
  obtain ⟨a, -, rfl⟩ := Re.matches_cls.mp hv
  obtain ⟨b, -, rfl⟩ := Re.matches_cls.mp hw₂
  simp

/-- A match takes something from the buffer. -/
theorem exists_match (s : Start) (a : Char) (buf : List Char) :
    ∃ rule n, munch (rules s) (a :: buf) = some (rule, n) ∧ rule ≠ .token .eof ∧
      1 ≤ taken rule n := by
  obtain ⟨rule, n, hm, hn⟩ := exists_munch (echoRule_mem s) a buf
  have hmatch := munch_eq_some_iff.mp hm
  obtain ⟨re, hre, hu⟩ := exists_rule_of_firstHit hmatch.hit
  refine ⟨rule, n, hm, ?_, ?_⟩
  · rintro rfl
    exact token_eof_not_mem hre
  · unfold taken
    split
    · rename_i hrule
      subst hrule
      have := comment_length hre hu
      rw [List.length_take] at this
      omega
    · exact hn

/-! ## What a step does to the files -/

/-- The same open files. -/
structure SameFiles (r r' : Reader) : Prop where
  buffers : r'.buffers = r.buffers
  stack : r'.stack = r.stack
  nextId : r'.nextId = r.nextId
  events : r'.events = r.events

theorem SameFiles.refl (r : Reader) : SameFiles r r := ⟨rfl, rfl, rfl, rfl⟩

theorem SameFiles.trans {r s t : Reader} (h₁ : SameFiles r s) (h₂ : SameFiles s t) :
    SameFiles r t :=
  ⟨h₂.buffers.trans h₁.buffers, h₂.stack.trans h₁.stack, h₂.nextId.trans h₁.nextId,
    h₂.events.trans h₁.events⟩

theorem strdataAppend_files (r : Reader) (part : List Char) :
    SameFiles r (strdataAppend r part).1 := by
  unfold strdataAppend
  split <;> exact ⟨rfl, rfl, rfl, rfl⟩

/-- Only the rule for the name of an included file touches the files. -/
theorem lexAction_files (find : FindIncl) (r : Reader) (yytext : List Char) {rule : Rule}
    (h : rule ≠ .inclFile) : SameFiles r (lexAction find r yytext rule).1 := by
  cases rule with
  | inclFile => exact absurd rfl h
  | strQuote | strBackslash | strNewline | strText => exact strdataAppend_files r _
  | strOcta =>
    simp only [lexAction]
    split
    · exact .refl r
    · exact strdataAppend_files r _
  | unicode =>
    simp only [lexAction]
    split <;> exact .refl r
  | _ => exact ⟨rfl, rfl, rfl, rfl⟩

/-- The state in which a step ends. -/
def after (x : Reader ⊕ Parsed) : Reader := x.elim id Prod.snd

theorem feedToken_files (r : Reader) (tok : Token) : SameFiles r (after (feedToken r tok)) := by
  unfold feedToken
  split
  · exact .refl r
  · split <;> exact ⟨rfl, rfl, rfl, rfl⟩

theorem openInclude_id {find : FindIncl} {r : Reader} {name : List Char} {fp : Kbdfile}
    (h : openInclude find r name = some fp) : fp.id = r.nextId := by
  unfold openInclude at h
  split at h
  · cases h
  · obtain ⟨q, -, rfl⟩ := Option.map_eq_some_iff.mp h
    rfl

theorem stackPush_of_full {r : Reader} (h : r.depth = maxIncludeDepth) (fp : Kbdfile) :
    r.stackPush fp = none := by
  unfold Reader.stackPush
  rw [if_pos h]

theorem stackPush_of_room {r : Reader} (h : r.depth ≠ maxIncludeDepth) (fp : Kbdfile) :
    r.stackPush fp = some { r with
      stack := r.stack.set r.depth (some fp)
      buffers := fp.text :: r.buffers } := by
  unfold Reader.stackPush
  rw [if_neg h]

/-- The reader after an include that was pushed. -/
def Reader.opened (r : Reader) (fp : Kbdfile) : Reader :=
  { r with
    stack := r.stack.set r.depth (some fp)
    buffers := fp.text :: r.buffers
    nextId := r.nextId + 1
    events := r.events ++ [.pushed fp.id]
    start := [] }

/-- The reader after an include that was not. -/
def Reader.skipped (r : Reader) (fp : Kbdfile) : Reader :=
  { r with
    nextId := r.nextId + 1
    events := r.events ++ [.skipped fp.id]
    start := [] }

/-- The action of an `include` directive. -/
theorem includeFile_cases (find : FindIncl) (r : Reader) (yytext : List Char) :
    (openInclude find r (inclName yytext) = none ∧
      includeFile find r yytext = (r, some .error)) ∨
    ∃ fp, openInclude find r (inclName yytext) = some fp ∧
      (r.depth ≠ maxIncludeDepth ∧ includeFile find r yytext = (r.opened fp, none) ∨
       r.depth = maxIncludeDepth ∧ includeFile find r yytext = (r.skipped fp, none)) := by
  unfold includeFile
  generalize inclName yytext = name
  cases openInclude find r name with
  | none => exact .inl ⟨rfl, rfl⟩
  | some fp =>
    refine .inr ⟨fp, rfl, ?_⟩
    by_cases hd : r.depth = maxIncludeDepth
    · have hpush := stackPush_of_full (r := { r with nextId := r.nextId + 1 }) hd fp
      simp only [hpush]
      exact .inr ⟨hd, rfl⟩
    · have hpush := stackPush_of_room (r := { r with nextId := r.nextId + 1 }) hd fp
      simp only [hpush]
      exact .inl ⟨hd, rfl⟩

/-- What becomes of the result of an action. -/
def dispatch : Lexed → Reader ⊕ Parsed
  | (r, none) => .inl r
  | (r, some tok) => feedToken r tok

theorem dispatch_files (x : Lexed) : SameFiles x.1 (after (dispatch x)) := by
  obtain ⟨r, tok⟩ := x
  cases tok with
  | none => exact .refl r
  | some tok => exact feedToken_files r tok

/-- The reader when `rest` is left of the current buffer. -/
def Reader.leave (r : Reader) (rest : List Char) : Reader :=
  { r with buffers := rest :: r.buffers.tail }

section Step

variable {find : FindIncl} {r : Reader}

theorem readStep_nil (h : r.buffers = []) : readStep find r = .inr (false, r) := by
  simp only [readStep, h]

theorem readStep_eof {bufs : List (List Char)} (h : r.buffers = [] :: bufs) :
    readStep find r =
      if r.stackPop.buffers = [] then feedToken r.stackPop .eof else .inl r.stackPop := by
  simp only [readStep, h]

theorem readStep_match {a : Char} {buf : List Char} {bufs : List (List Char)} {rule : Rule} {n : Nat}
    (h : r.buffers = (a :: buf) :: bufs) (hm : munch (rules r.cond) (a :: buf) = some (rule, n)) :
    readStep find r = dispatch (lexAction find (r.leave ((a :: buf).drop (taken rule n)))
      ((a :: buf).take n) rule) := by
  unfold Reader.leave
  simp only [readStep, h, hm, List.tail_cons]
  generalize lexAction find _ _ _ = x
  obtain ⟨r', - | tok⟩ := x
  · rfl
  · rfl

/-- What a step does to the files. -/
inductive Effect (r r' : Reader) : Prop
  /-- nothing is open -/
  | idle (hb : r.buffers = []) (h : r' = r)
  /-- a match in the current buffer -/
  | scan {buf rest : List Char} {bufs : List (List Char)} (hb : r.buffers = buf :: bufs)
      (hlt : rest.length < buf.length) (h : SameFiles (r.leave rest) r')
  /-- an include -/
  | push {buf rest : List Char} {bufs : List (List Char)} {fp : Kbdfile}
      (hb : r.buffers = buf :: bufs) (hlt : rest.length < buf.length) (hid : fp.id = r.nextId)
      (hdepth : r.depth ≠ maxIncludeDepth) (h : r' = (r.leave rest).opened fp)
  /-- an include with a full stack -/
  | skip {buf rest : List Char} {bufs : List (List Char)} {fp : Kbdfile}
      (hb : r.buffers = buf :: bufs) (hlt : rest.length < buf.length) (hid : fp.id = r.nextId)
      (hdepth : r.depth = maxIncludeDepth) (h : r' = (r.leave rest).skipped fp)
  /-- the end of a buffer -/
  | pop {bufs : List (List Char)} (hb : r.buffers = [] :: bufs) (h : SameFiles r.stackPop r')

theorem dispatch_include_effect {buf rest : List Char} {bufs : List (List Char)}
    (hb : r.buffers = buf :: bufs) (hlt : rest.length < buf.length) (yytext : List Char) :
    Effect r (after (dispatch (includeFile find (r.leave rest) yytext))) := by
  rcases includeFile_cases find (r.leave rest) yytext with ⟨-, h⟩ | ⟨fp, ho, ⟨hd, h⟩ | ⟨hd, h⟩⟩
  · rw [h]
    exact .scan hb hlt (feedToken_files _ _)
  · rw [h]
    exact .push hb hlt (openInclude_id ho) hd rfl
  · rw [h]
    exact .skip hb hlt (openInclude_id ho) hd rfl

theorem readStep_effect (find : FindIncl) (r : Reader) : Effect r (after (readStep find r)) := by
  rcases hb : r.buffers with - | ⟨- | ⟨a, buf⟩, bufs⟩
  · rw [readStep_nil hb]
    exact .idle hb rfl
  · rw [readStep_eof hb]
    split
    · exact .pop hb (feedToken_files _ _)
    · exact .pop hb (.refl _)
  · obtain ⟨rule, n, hm, -, htaken⟩ := exists_match r.cond a buf
    have hlt : ((a :: buf).drop (taken rule n)).length < (a :: buf).length := by
      rw [List.length_drop, List.length_cons]
      omega
    rw [readStep_match hb hm]
    by_cases hrule : rule = .inclFile
    · rw [hrule]
      exact dispatch_include_effect hb (hrule ▸ hlt) _
    · have hlex := lexAction_files find (r.leave ((a :: buf).drop (taken rule n)))
        ((a :: buf).take n) hrule
      refine .scan hb hlt ?_
      have hdisp := dispatch_files (lexAction find (r.leave ((a :: buf).drop (taken rule n)))
        ((a :: buf).take n) rule)
      exact hlex.trans hdisp

end Step

/-! ## What a step does to the parser -/

section Parser

variable {find : FindIncl} {c₀ : LkCtx} {r r' : Reader}

theorem ParserInv.clear {p : Parser} (h : ParserInv c₀ p) : ParserInv c₀ { p with keyLine := [] } :=
  ⟨h.run, h.mod, Nat.zero_le _⟩

theorem parser_includeFile (find : FindIncl) (r : Reader) (yytext : List Char) :
    (includeFile find r yytext).1.parser = r.parser := by
  rcases includeFile_cases find r yytext with ⟨-, h⟩ | ⟨fp, -, ⟨-, h⟩ | ⟨-, h⟩⟩
  · rw [h]
  · rw [h]
    rfl
  · rw [h]
    rfl

theorem parser_strdataAppend (r : Reader) (part : List Char) :
    (strdataAppend r part).1.parser = r.parser := by
  unfold strdataAppend
  split <;> rfl

/-- The actions of the scanner leave the parser alone, but for the one that begins the values of a
line. -/
theorem parser_lexAction_eq (r : Reader) (yytext : List Char) {rule : Rule} (h : rule ≠ .equals) :
    (lexAction find r yytext rule).1.parser = r.parser := by
  cases rule with
  | equals => exact absurd rfl h
  | inclFile => exact parser_includeFile find r yytext
  | strQuote | strBackslash | strNewline | strText => exact parser_strdataAppend r _
  | strOcta =>
    simp only [lexAction]
    split
    · rfl
    · exact parser_strdataAppend r _
  | unicode =>
    simp only [lexAction]
    split <;> rfl
  | _ => rfl

theorem parser_lexAction (h : ParserInv c₀ r.parser) (yytext : List Char) (rule : Rule) :
    ParserInv c₀ (lexAction find r yytext rule).1.parser := by
  by_cases hrule : rule = .equals
  · rw [hrule]
    exact h.clear
  · rwa [parser_lexAction_eq r yytext hrule]

theorem feedToken_inl (h : ParserInv c₀ r.parser) {tok : Token} (hr : feedToken r tok = .inl r') :
    ParserInv c₀ r'.parser := by
  unfold feedToken at hr
  split at hr
  · cases hr
  · split at hr
    · rename_i hfeed
      cases hr
      exact feed_inv h hfeed
    · cases hr

theorem feedToken_of_run {tok : Token} {p : Parser} (htok : tok ≠ .eof)
    (h : (feed tok).run r.parser = .ok () p) : feedToken r tok = .inl { r with parser := p } := by
  have hnot : ¬ (decide (tok = .eof) && decide (r.parser.state = .top)) = true := by simp [htok]
  rw [feedToken, if_neg hnot, h]

theorem feedToken_accept {tok : Token} (hr : feedToken r tok = .inr (true, r')) :
    tok = .eof ∧ r.parser.state = .top ∧ r' = r := by
  unfold feedToken at hr
  split at hr
  · rename_i h
    simp only [Bool.and_eq_true, decide_eq_true_eq] at h
    cases hr
    exact ⟨h.1, h.2, rfl⟩
  · split at hr <;> cases hr

theorem feedToken_error (r : Reader) : ∃ t, feedToken r .error = .inr (false, t) := by
  obtain ⟨e, p, h⟩ := feed_error r.parser
  exact ⟨{ r with parser := p }, by simp [feedToken, h]⟩

theorem dispatch_inl {x : Lexed} (h : ParserInv c₀ x.1.parser) (hr : dispatch x = .inl r') :
    ParserInv c₀ r'.parser := by
  obtain ⟨r, - | tok⟩ := x
  · cases hr
    exact h
  · exact feedToken_inl h hr

theorem parser_stackPop (r : Reader) : r.stackPop.parser = r.parser := by
  unfold Reader.stackPop
  split <;> rfl

theorem parser_readStep (h : ParserInv c₀ r.parser) (hr : readStep find r = .inl r') :
    ParserInv c₀ r'.parser := by
  have hpop : ParserInv c₀ r.stackPop.parser := by rwa [parser_stackPop]
  rcases hb : r.buffers with - | ⟨- | ⟨a, buf⟩, bufs⟩
  · rw [readStep_nil hb] at hr
    cases hr
  · rw [readStep_eof hb] at hr
    split at hr
    · exact feedToken_inl hpop hr
    · cases hr
      exact hpop
  · obtain ⟨rule, n, hm, -, -⟩ := exists_match r.cond a buf
    rw [readStep_match hb hm] at hr
    exact dispatch_inl (parser_lexAction (r := r.leave _) h _ rule) hr

/-- No action returns the end marker. -/
theorem lexAction_ne_eof {yytext : List Char} {rule : Rule} (h : rule ≠ .token .eof) :
    (lexAction find r yytext rule).2 ≠ some .eof := by
  have happend (part : List Char) : (strdataAppend r part).2 ≠ some .eof := by
    unfold strdataAppend
    split <;> simp
  have hint (n : Option Int) (f : Int → Token) (hf : ∀ n, f n ≠ .eof) :
      some ((n.map f).getD .error) ≠ some Token.eof := by
    cases n with
    | none => simp
    | some n => simpa using hf n
  cases rule with
  | token t => simpa [lexAction] using h
  | inclFile =>
    simp only [lexAction]
    rcases includeFile_cases find r yytext with ⟨-, h⟩ | ⟨fp, -, ⟨-, h⟩ | ⟨-, h⟩⟩ <;> simp [h]
  | unicode =>
    simp only [lexAction]
    split
    · simp
    · split <;> simp
  | literal =>
    simp only [lexAction]
    split <;> simp
  | number | ccharOcta => exact hint _ _ (by simp)
  | strOcta =>
    simp only [lexAction]
    split
    · simp
    · exact happend _
  | strQuote | strBackslash | strNewline | strText => exact happend _
  | _ => simp [lexAction]

/-- A parse is accepted at the end of the last file, between two lines. -/
theorem readStep_accept (hr : readStep find r = .inr (true, r')) :
    r.buffers.head? = some [] ∧ r.stackPop.buffers = [] ∧ r.parser.state = .top ∧
      r' = r.stackPop := by
  rcases hb : r.buffers with - | ⟨- | ⟨a, buf⟩, bufs⟩
  · rw [readStep_nil hb] at hr
    cases hr
  · rw [readStep_eof hb] at hr
    split at hr
    · rename_i hpop
      obtain ⟨-, hstate, rfl⟩ := feedToken_accept hr
      rw [parser_stackPop] at hstate
      exact ⟨rfl, hpop, hstate, rfl⟩
    · cases hr
  · obtain ⟨rule, n, hm, hrule, -⟩ := exists_match r.cond a buf
    rw [readStep_match hb hm] at hr
    have hne : (lexAction find (r.leave ((a :: buf).drop (taken rule n))) ((a :: buf).take n) rule).2 ≠
        some .eof := lexAction_ne_eof hrule
    revert hr hne
    generalize lexAction find _ _ rule = x
    obtain ⟨r₁, - | tok⟩ := x
    · intro hr
      cases hr
    · intro hr hne
      exact absurd (congrArg some (feedToken_accept hr).1) hne

/-- A match that ends the parse is an error, and leaves the files alone. -/
theorem readStep_error {a : Char} {buf : List Char} {bufs : List (List Char)} {ok : Bool}
    (hb : r.buffers = (a :: buf) :: bufs) (hr : readStep find r = .inr (ok, r')) :
    ok = false ∧ ∃ rest, SameFiles (r.leave rest) r' := by
  constructor
  · cases ok with
    | false => rfl
    | true =>
      have := (readStep_accept hr).1
      simp [hb] at this
  · obtain ⟨rule, n, hm, -, -⟩ := exists_match r.cond a buf
    refine ⟨(a :: buf).drop (taken rule n), ?_⟩
    rw [readStep_match hb hm] at hr
    by_cases hrule : rule = .inclFile
    · subst hrule
      simp only [lexAction] at hr
      rcases includeFile_cases find (r.leave ((a :: buf).drop (taken .inclFile n)))
        ((a :: buf).take n) with ⟨-, h⟩ | ⟨fp, -, ⟨-, h⟩ | ⟨-, h⟩⟩
      · rw [h] at hr
        have := feedToken_files (r.leave ((a :: buf).drop (taken .inclFile n))) .error
        rwa [show feedToken _ _ = _ from hr] at this
      · rw [h] at hr
        cases hr
      · rw [h] at hr
        cases hr
    · have hlex := lexAction_files find (r.leave ((a :: buf).drop (taken rule n)))
        ((a :: buf).take n) hrule
      have hdisp := dispatch_files (lexAction find (r.leave ((a :: buf).drop (taken rule n)))
        ((a :: buf).take n) rule)
      rw [hr] at hdisp
      exact hlex.trans hdisp

/-- A new parser has run nothing. -/
theorem parserInv_new (ctx : LkCtx) (stack : List (Option Kbdfile)) (nextId : Nat) :
    ParserInv ctx (newReader ctx stack nextId).parser :=
  ⟨⟨ctx, rfl, rfl⟩, rfl, Nat.zero_le _⟩

theorem parser_stackPush {fp : Kbdfile} (h : r.stackPush fp = some r') :
    r'.parser = r.parser := by
  unfold Reader.stackPush at h
  split at h
  · cases h
  · cases h
    rfl

/-- An accepted parse has run the statements it has read. -/
theorem runStmts_of_accepted {fuel : Nat} {ctx : LkCtx} {stack : List (Option Kbdfile)}
    {fp : Kbdfile} (h : lkParseKeymap find fuel ctx stack fp = some (true, r)) :
    (runStmts r.parser.stmts).run ctx = .ok () r.parser.ctx := by
  unfold lkParseKeymap at h
  split at h
  · cases h
  · rename_i r₀ hpush
    obtain ⟨⟨ok, r₁⟩, hrun, hr⟩ := Option.map_eq_some_iff.mp h
    simp only [Prod.mk.injEq] at hr
    obtain ⟨rfl, rfl⟩ := hr
    have hinit : ParserInv ctx r₀.parser := by
      rw [parser_stackPush hpush]
      exact parserInv_new ctx stack _
    obtain ⟨t, ht, hlast⟩ := Machine.exists_last hrun
    have hinv := ht.invariant (I := fun s => ParserInv ctx s.parser)
      (fun _ _ hs hstep => parser_readStep hs hstep) hinit
    obtain ⟨-, -, hstate, rfl⟩ := readStep_accept hlast
    rw [parser_stackPop, parser_stackPop]
    exact hinv.run_of_top hstate

end Parser

end Kbd.Keymap
