import Kbd.Keymap.DumpTables
import Kbd.Keymap.Verify.Names
import Kbd.Keymap.Verify.RoundTrip
import Mathlib.Data.List.TakeWhile

/-!
# Reading back the strings of function keys

`lk_dump_funcs` escapes quotes, backslashes and all bytes that are not printed, and the scanner undoes
it: an octal escape has its three digits, so a digit that follows is not taken into it, and the length
check of `strdata_append` lets 511 bytes pass (`lkParseKeymap_lkDumpFuncs`).
-/

namespace Kbd.Keymap

open Kbd.Lib

theorem cstr_eq_self {s : List Char} (h : ∀ c ∈ s, c ≠ '\x00') : cstr s = s :=
  List.takeWhile_eq_self_iff.mpr fun c hc => decide_eq_true (h c hc)

/-! ## Octal escapes -/

def octalDigits : List Char := ['0', '1', '2', '3', '4', '5', '6', '7']

/-- A byte is printed with three octal digits, which are its value. -/
def isOctal3 (n : Nat) : Bool :=
  match fmt03O n with
  | [a, b, c] => octalDigits.contains a && octalDigits.contains b && octalDigits.contains c &&
      strtol 8 [a, b, c] == n && strtol 8 [a, b, c, '\x27'] == n
  | _ => false

theorem exists_octal {n : Nat} (hn : n < 256) :
    ∃ a b c, fmt03O n = [a, b, c] ∧ a ∈ octalDigits ∧ b ∈ octalDigits ∧ c ∈ octalDigits ∧
      strtol 8 [a, b, c] = n ∧ strtol 8 [a, b, c, '\x27'] = n := by
  have hall : (List.range 256).all isOctal3 = true := by decide +kernel
  have h := List.all_eq_true.mp hall n (List.mem_range.mpr hn)
  unfold isOctal3 at h
  split at h
  · rename_i a b c heq
    simp only [Bool.and_eq_true, List.contains_iff_mem, beq_iff_eq] at h
    obtain ⟨⟨⟨⟨ha, hb⟩, hc⟩, hval⟩, hquote⟩ := h
    exact ⟨a, b, c, heq, ha, hb, hc, hval, hquote⟩
  · cases h

/-- What may follow the first digit of an octal escape, and the second. -/
def octalTail₁ : Re Char := .alt .eps (.seq octDigit (.alt .eps (.seq octDigit .eps)))

def octalTail₂ : Re Char := .alt .eps (.seq octDigit .eps)

theorem octaPat_eq : octaPat = .seq octDigit octalTail₁ := by
  simp only [octaPat, Re.rep, octalTail₁]

/-- Every octal digit is one of eight. -/
theorem forall_octal {P : Char → Prop} (h : P '0' ∧ P '1' ∧ P '2' ∧ P '3' ∧ P '4' ∧ P '5' ∧ P '6' ∧
    P '7') : ∀ d ∈ octalDigits, P d := by
  simpa [octalDigits] using h

theorem advance_octalTail₁ {rule : Rule} {d : Char} (hd : d ∈ octalDigits) :
    advance [(rule, octalTail₁)] d = [(rule, octalTail₂)] :=
  forall_octal (P := fun d => advance [(rule, octalTail₁)] d = [(rule, octalTail₂)])
    ⟨rfl, rfl, rfl, rfl, rfl, rfl, rfl, rfl⟩ d hd

theorem advance_octalTail₂ {rule : Rule} {d : Char} (hd : d ∈ octalDigits) :
    advance [(rule, octalTail₂)] d = [(rule, .eps)] :=
  forall_octal (P := fun d => advance [(rule, octalTail₂)] d = [(rule, .eps)])
    ⟨rfl, rfl, rfl, rfl, rfl, rfl, rfl, rfl⟩ d hd

/-! ## The rules of strings -/

/-- The rules after a backslash. -/
def escapeRules : List (Rule × Re Char) := [
  (.strOcta, .seq octDigit octalTail₁), (.strQuote, char '\x22'), (.strBackslash, char '\\'),
  (.strNewline, char 'n'), (.echo, .eps)]

theorem advance_backslash : advance strRules '\\' = escapeRules := by
  rw [strRules, octaPat_eq]
  rfl

theorem advance_escapeRules {d : Char} (hd : d ∈ octalDigits) :
    advance escapeRules d = [(.strOcta, octalTail₁)] :=
  forall_octal (P := fun d => advance escapeRules d = [(.strOcta, octalTail₁)])
    ⟨rfl, rfl, rfl, rfl, rfl, rfl, rfl, rfl⟩ d hd

/-- An octal escape with three digits ends there. -/
theorem munch_strOcta {a b c : Char} (ha : a ∈ octalDigits) (hb : b ∈ octalDigits)
    (hc : c ∈ octalDigits) (s : List Char) :
    munch strRules ('\\' :: a :: b :: c :: s) = some (.strOcta, 4) := by
  rw [munch_cons, advance_backslash, munch_cons, advance_escapeRules ha, munch_cons,
    advance_octalTail₁ hb, munch_single (advance_octalTail₂ hc) (by simp)]
  rfl

/-- An escaped quote or backslash. -/
theorem munch_strEscape {a : Char} {rule : Rule} (h : advance escapeRules a = [(rule, .eps)])
    (s : List Char) : munch strRules ('\\' :: a :: s) = some (rule, 2) := by
  rw [munch_cons, advance_backslash, munch_single h (by simp)]
  rfl

/-- The characters that are printed as they are. -/
def isPlain (c : Char) : Bool :=
  (isgraph c.toNat || c = ' ') && c != '\x22' && c != '\\'

theorem munch_strText {c : Char} {w rest : List Char} (hc : isPlain c = true)
    (hw : ∀ d ∈ w, isPlain d = true) (hrest : ∀ d ∈ rest.head?, d = '\x22' ∨ d = '\\') :
    munch strRules (c :: w ++ rest) = some (.strText, (c :: w).length) := by
  have hclass {d : Char} (hd : isPlain d = true) : (!(['\x22', '\\'].contains d)) = true := by
    simp only [isPlain, Bool.and_eq_true, bne_iff_ne] at hd
    simp [hd.1.2, hd.2]
  have hadv : advance strRules c =
      [(.strText, .star (noneOf ['\x22', '\\'])), (.echo, .eps)] := by
    simp only [isPlain, Bool.and_eq_true, bne_iff_ne] at hc
    simp [advance, strRules, echoRule, char, noneOf, Re.deriv, hc.1.2, hc.2, Re.mkSeq, Re.nullable,
      Re.isEmpty]
  refine munch_run hadv (by simp) (fun d hd => hclass (hw d hd)) ?_
  intro d hd
  rcases hrest d hd with rfl | rfl
  · rfl
  · rfl

/-! ## Inside a string -/

/-- The reader inside a string of which it has read `u`. -/
def Reader.inStr (r : Reader) (p : Parser) (st : List Start) (s u : List Char) : Reader :=
  { r.at ⟨p, .str :: st, s⟩ with str := u }

section Steps

variable (find : FindIncl) (r : Reader) (p : Parser) (st : List Start) {u : List Char}

/-- A part that is appended to the string. -/
theorem steps_part {w s part : List Char} {rule : Rule} (hw : w ≠ [])
    (hm : munch strRules (w ++ s) = some (rule, w.length)) (hrule : rule ≠ .comment)
    (hact : ∀ r : Reader, lexAction find r w rule = strdataAppend r part)
    (hlen : u.length + part.length < maxParserString) :
    Machine.Steps (readStep find) (r.inStr p st (w ++ s) u) (r.inStr p st s (u ++ part)) := by
  refine .single ?_
  have hstep := @readStep_word find (r.inStr p st (w ++ s) u) w s _ rule rfl hw hm hrule
  rw [hstep, hact]
  have happend : strdataAppend ((r.inStr p st (w ++ s) u).leave s) part =
      (r.inStr p st s (u ++ part), none) := if_neg (Nat.not_le.mpr hlen)
  rw [happend]
  rfl

/-- A byte in front of the rest of the string. -/
theorem steps_funcChar {c : Char} (hplain : isPlain c = false) (hc : c.toNat < 256)
    (hlen : u.length + 1 < maxParserString) (s : List Char) :
    Machine.Steps (readStep find) (r.inStr p st (funcChar c ++ s) u) (r.inStr p st s (u ++ [c])) := by
  unfold funcChar
  split
  · rename_i hspecial
    simp only [Bool.or_eq_true, decide_eq_true_eq] at hspecial
    rcases hspecial with rfl | rfl
    · have hm : munch strRules ('\\' :: '\x22' :: s) = some (.strQuote, 2) := munch_strEscape rfl s
      exact steps_part find r p st (w := ['\\', '\x22']) (by simp) hm (by decide) (fun _ => rfl) hlen
    · have hm : munch strRules ('\\' :: '\\' :: s) = some (.strBackslash, 2) := munch_strEscape rfl s
      exact steps_part find r p st (w := ['\\', '\\']) (by simp) hm (by decide) (fun _ => rfl) hlen
  · rename_i hspecial
    split
    · rename_i hgraph
      simp only [Bool.or_eq_true, decide_eq_true_eq, not_or] at hspecial
      simp [isPlain, hgraph, hspecial] at hplain
    · obtain ⟨a, b, d, htext, ha, hb, hd, hval, -⟩ := exists_octal hc
      rw [Nat.mod_eq_of_lt hc, htext]
      have hact (r : Reader) :
          lexAction find r ['\\', a, b, d] .strOcta = strdataAppend r [c] := by
        have hchar : parseUchar [a, b, d] 8 = some c := by
          rw [parseUchar, hval, if_neg (by omega), Char.ofNat_toNat]
        simp only [lexAction, List.drop_one, List.tail_cons, hchar]
      exact steps_part find r p st (w := ['\\', a, b, d]) (by simp) (munch_strOcta ha hb hd s) (by decide)
        hact hlen

/-- A run of characters that are printed as they are. -/
theorem steps_plain {c : Char} {w s : List Char} (hc : isPlain c = true)
    (hw : ∀ d ∈ w, isPlain d = true) (hs : ∀ d ∈ s.head?, d = '\x22' ∨ d = '\\')
    (hlen : u.length + (c :: w).length < maxParserString) :
    Machine.Steps (readStep find) (r.inStr p st (c :: w ++ s) u)
      (r.inStr p st s (u ++ c :: w)) := by
  have hcstr : cstr (c :: w) = c :: w := by
    refine cstr_eq_self fun d hd => ?_
    rintro rfl
    rcases List.mem_cons.mp hd with rfl | hd
    · exact absurd hc (by decide)
    · exact absurd (hw _ hd) (by decide)
  have hact (r : Reader) : lexAction find r (c :: w) .strText = strdataAppend r (c :: w) := by
    simp only [lexAction, hcstr]
  exact steps_part find r p st (by simp) (munch_strText hc hw hs) (by decide) hact hlen

theorem funcChar_of_isPlain {c : Char} (hc : isPlain c = true) : funcChar c = [c] := by
  simp only [isPlain, Bool.and_eq_true, bne_iff_ne] at hc
  simp [funcChar, hc.1.1, hc.1.2, hc.2]

theorem head_funcChar {c : Char} (hc : isPlain c = false) (s : List Char) :
    (funcChar c ++ s).head? = some '\\' := by
  unfold funcChar
  split
  · rfl
  · rename_i hspecial
    split
    · rename_i hgraph
      simp only [Bool.or_eq_true, decide_eq_true_eq, not_or] at hspecial
      simp [isPlain, hgraph, hspecial] at hc
    · rfl

/-- The bytes of a string in front of its closing quote. -/
theorem steps_funcChars {s : List Char} (hs : ∀ c ∈ s, c.toNat < 256) (t : List Char)
    (hlen : u.length + s.length < maxParserString) :
    Machine.Steps (readStep find) (r.inStr p st (s.flatMap funcChar ++ '\x22' :: t) u)
      (r.inStr p st ('\x22' :: t) (u ++ s)) := by
  -- a run of plain characters is one match, so the induction is on the length
  induction hn : s.length using Nat.strong_induction_on generalizing s u with
  | _ n ih =>
    cases s with
    | nil =>
      rw [List.append_nil]
      exact .refl _
    | cons c s =>
      rw [List.length_cons] at hn hlen
      rw [List.forall_mem_cons] at hs
      cases hc : isPlain c with
      | false =>
        have hfirst := steps_funcChar find r p st hc hs.1 (u := u) (by omega)
          (s.flatMap funcChar ++ '\x22' :: t)
        have hmore := ih s.length (by omega) hs.2 (u := u ++ [c]) (by simp; omega) rfl
        rw [List.append_assoc] at hmore
        rw [List.flatMap_cons, List.append_assoc]
        exact hfirst.trans hmore
      | true =>
        set w := s.takeWhile isPlain with hwdef
        set rest := s.dropWhile isPlain with hrestdef
        have hsplit : s = w ++ rest := (List.takeWhile_append_dropWhile).symm
        have hw : ∀ d ∈ w, isPlain d = true := fun d hd => List.all_eq_true.mp
          (List.all_takeWhile (p := isPlain) (l := s)) d hd
        have hlenw : s.length = w.length + rest.length := by rw [hsplit, List.length_append]
        have hrun : (c :: w).flatMap funcChar = c :: w := by
          have hall : ∀ d ∈ c :: w, funcChar d = [d] := by
            intro d hd
            rcases List.mem_cons.mp hd with rfl | hd
            · exact funcChar_of_isPlain hc
            · exact funcChar_of_isPlain (hw d hd)
          rw [List.flatMap_congr hall, List.flatMap_singleton']
        have hhead : ∀ d ∈ (rest.flatMap funcChar ++ '\x22' :: t).head?, d = '\x22' ∨ d = '\\' := by
          intro d hd
          cases hr : rest with
          | nil =>
            rw [hr] at hd
            exact Or.inl (Option.some.inj hd).symm
          | cons e rest' =>
            have he : isPlain e = false := by
              have := List.head?_dropWhile_not isPlain s
              rw [← hrestdef, hr] at this
              simpa using this
            rw [hr, List.flatMap_cons, List.append_assoc, head_funcChar he] at hd
            exact Or.inr (Option.some.inj hd).symm
        have hfirst := steps_plain find r p st hc hw hhead (u := u)
          (by rw [List.length_cons]; omega)
        have hmore := ih rest.length (by omega)
          (fun d hd => hs.2 d (hsplit ▸ List.mem_append_right w hd)) (u := u ++ c :: w)
          (by simp only [List.length_append, List.length_cons]; omega) rfl
        have htext : (c :: s).flatMap funcChar = c :: w ++ rest.flatMap funcChar := by
          rw [hsplit, ← List.cons_append, List.flatMap_append, hrun]
        have hdone : u ++ c :: w ++ rest = u ++ c :: s := by
          rw [List.append_assoc, List.cons_append, ← hsplit]
        rw [htext, List.append_assoc, ← hdone]
        exact hfirst.trans hmore

end Steps

/-! ## From one place to another -/

/-- As `Reads`, from every reader; the string that the reader holds may change on the way. -/
def ReadsString (find : FindIncl) (q q' : Place) : Prop :=
  ∀ (r : Reader) (b : List Char), Blanks b → ∃ u b', Blanks b' ∧
    Machine.Steps (readStep find) (r.at (q.after b)) ({ r with str := u }.at (q'.after b'))

namespace ReadsString

variable {find : FindIncl}

theorem of_reads {q q' : Place} (h : ∀ r, Reads find r q q') : ReadsString find q q' := by
  intro r b hb
  obtain ⟨b', hb', hsteps⟩ := h r b hb
  exact ⟨r.str, b', hb', hsteps⟩

theorem trans {q₁ q₂ q₃ : Place} (h : ReadsString find q₁ q₂) (h' : ReadsString find q₂ q₃) :
    ReadsString find q₁ q₃ := by
  intro r b hb
  obtain ⟨u₁, b₁, hb₁, h₁⟩ := h r b hb
  obtain ⟨u₂, b₂, hb₂, h₂⟩ := h' { r with str := u₁ } b₁ hb₁
  exact ⟨u₂, b₂, hb₂, h₁.trans h₂⟩

end ReadsString

/-- A NUL-free string of bytes that fits into `kb_string`. -/
structure FuncString (s : List Char) : Prop where
  noNul : ∀ c ∈ s, c ≠ '\x00'
  byte : ∀ c ∈ s, c.toNat < 256
  length : s.length ≤ 511

section Lines

variable (find : FindIncl) {p p' : Parser} {s : List Char}

/-- A quoted string, where values are read. -/
theorem reads_string (st : List Start) (hs : FuncString s)
    (hfeed : (feed (.strliteral s)).run p = .ok () p') (t : List Char) :
    ReadsString find ⟨p, .rvalue :: st, '\x22' :: (s.flatMap funcChar ++ '\x22' :: t)⟩
      ⟨p', [], t⟩ := by
  intro r b hb
  refine ⟨s, [], blanks_nil, ?_⟩
  set text := s.flatMap funcChar ++ '\x22' :: t with htext
  -- the blanks in front
  have hblanks : Machine.Steps (readStep find) (r.at ⟨p, .rvalue :: st, b ++ '\x22' :: text⟩)
      (r.at ⟨p, .rvalue :: st, '\x22' :: text⟩) := by
    by_cases hne : b = []
    · rw [hne]
      exact .refl _
    · have hm : munch (rules .rvalue) (b ++ '\x22' :: text) = some (.blank, b.length) :=
        munch_rvalue_blanks hb hne (noBlank_cons.mpr (by decide))
      have hstep := @readStep_word find (r.at ⟨p, .rvalue :: st, b ++ '\x22' :: text⟩) b _ _ _ rfl hne
        hm (by decide)
      exact .single hstep
  -- the quotes around the string, and its bytes
  have hopen : Machine.Steps (readStep find) (r.at ⟨p, .rvalue :: st, '\x22' :: text⟩)
      (r.inStr p (.rvalue :: st) text []) := by
    have hadv : advance (rules .rvalue) '\x22' = [(.quote, .eps), (.any, .eps), (.echo, .eps)] := rfl
    have hm : munch (rules .rvalue) ('\x22' :: text) = some (.quote, 1) :=
      munch_single hadv (by simp) text
    have hstep := @readStep_word find (r.at ⟨p, .rvalue :: st, '\x22' :: text⟩) ['\x22'] text _ _ rfl
      (by simp) hm (by decide)
    exact .single hstep
  have hbytes := steps_funcChars find r p (.rvalue :: st) hs.byte t (u := [])
    (by rw [List.length_nil, Nat.zero_add]; exact Nat.lt_succ_of_le hs.length)
  rw [List.nil_append] at hbytes
  have hclose : Machine.Steps (readStep find) (r.inStr p (.rvalue :: st) ('\x22' :: t) s)
      ({ r with str := s }.at ⟨p', [], t⟩) := by
    have hadv : advance strRules '\x22' = [(.strEnd, .eps), (.echo, .eps)] := by
      rw [strRules, octaPat_eq]
      rfl
    have hm : munch strRules ('\x22' :: t) = some (.strEnd, 1) := munch_single hadv (by simp) t
    have hstep := @readStep_word find (r.inStr p (.rvalue :: st) ('\x22' :: t) s) ['\x22'] t _ _ rfl
      (by simp) hm (by decide)
    refine .single ?_
    rw [hstep]
    change feedToken ({ r with str := s }.at ⟨p, [], t⟩) (.strliteral s) = _
    exact feedToken_of_run (by simp) hfeed
  exact hblanks.trans (hopen.trans (hbytes.trans hclose))

/-- The string of function key `i`. -/
def LkCtx.putFunc (c : LkCtx) (i : Nat) (s : List Char) : LkCtx :=
  { c with funcTable := c.funcTable.set i (some s) }

/-- The parser at the end of a line for function key `i`. -/
theorem feed_eol_string {i : Nat} (hi : i < 256) (hs : FuncString s)
    (hstate : p.state = .setting (.stringValue (K ktFn i) s)) :
    (feed .eol).run p = .ok () { p with
      ctx := p.ctx.putFunc i s, state := .top, stmts := p.stmts ++ [.string (K ktFn i) s] } := by
  have hrun : (strline (K ktFn i) s).run p.ctx = .ok () (p.ctx.putFunc i s) := by
    have htyp : ktyp (K ktFn i) = ktFn := ktyp_K (by omega) (by omega)
    have hval : kval (K ktFn i) = i := kval_K (by omega) (by omega)
    have hnot : ¬ ktyp (K ktFn i) ≠ ktFn := not_not.mpr htyp
    rw [strline, if_neg hnot, hval, Int.toNat_natCast]
    change EStateM.Result.ok () _ = _
    rw [List.take_of_length_le hs.length]
    rfl
  have hlift : (liftLk (strline (K ktFn i) s)).run p = .ok () { p with ctx := p.ctx.putFunc i s } :=
    liftLk_eq_ok.mpr ⟨_, hrun, rfl⟩
  rw [feed, Result.bind_of_ok (EStateM.run_get p), hstate]
  exact Result.bind_of_ok hlift

/-- The line for function key `i`. -/
theorem reads_funcLine {c : LkCtx} {i : Nat} {name : String} (hp : Between p c)
    (hname : getSym ktFn i = some name)
    (hback : ksymtocode c (bytes name) .toAuto = K ktFn i) (hs : FuncString s) (t : List Char) :
    ∃ p', Between p' (c.putFunc i s) ∧
      ReadsString find ⟨p, [], funcLine i s ++ t⟩ ⟨p', [], t⟩ := by
  obtain ⟨rfl, hstate, hmod⟩ := hp
  have hmem : name ∈ fnSyms := List.mem_of_getElem? hname
  have hi : i < 256 := by
    have hlt : i < fnSyms.length := (List.getElem?_eq_some_iff.mp hname).1
    have hlen : fnSyms.length = 256 := by decide +kernel
    omega
  have hword := isName_of_mem_fn hmem
  set rest := '\x22' :: (s.flatMap funcChar ++ '\x22' :: '\n' :: t) with hrest
  have htext : funcLine i s ++ t = bytes "string" ++ ' ' :: (bytes name ++ ' ' :: '=' :: ' ' :: rest) := by
    have h₁ : bytes "string " = bytes "string" ++ [' '] := rfl
    have h₂ : bytes " = \x22" = [' ', '=', ' ', '\x22'] := rfl
    simp only [funcLine, hname, Option.getD_some, cstr_eq_self hs.noNul, h₁, h₂, hrest,
      List.append_assoc, List.cons_append, List.nil_append]
  -- the keyword, the name and the equals sign
  have hstring (r : Reader) : Reads find r
      ⟨p, [], bytes "string" ++ ' ' :: (bytes name ++ ' ' :: '=' :: ' ' :: rest)⟩
      ⟨{ p with state := .setting .string }, [.rvalue],
        [' '] ++ (bytes name ++ ' ' :: '=' :: ' ' :: rest)⟩ := by
    have hm (s : List Char) : munch (rules .initial) (bytes "string" ++ ' ' :: s) =
        some (.string, 6) := by
      have hdead : (bytes "string" ++ [' ']).foldl advance (rules .initial) = [] := rfl
      rw [List.append_cons, munch_append_of_dead hdead]
      rfl
    have hfeed : (feed .string).run p = .ok () { p with state := .setting .string } := by
      rw [feed_top hstate]
      rfl
    exact .token (Or.inl rfl) (by decide) (noBlank_cons.mpr (by decide)) (hm _) (by decide)
      (fun _ => rfl) (by simp) hfeed
  have hliteral (r : Reader) : Reads find r
      ⟨{ p with state := .setting .string }, [.rvalue], bytes name ++ ' ' :: '=' :: ' ' :: rest⟩
      ⟨{ p with state := .setting (.stringSym (K ktFn i)) }, [.rvalue],
        [' '] ++ '=' :: ' ' :: rest⟩ := by
    have hact (r : Reader) : lexAction find
        (r.at ⟨{ p with state := .setting .string }, [.rvalue], ' ' :: '=' :: ' ' :: rest⟩)
        (bytes name) .literal =
        (r.at ⟨{ p with state := .setting .string }, [.rvalue], ' ' :: '=' :: ' ' :: rest⟩,
          some (.literal (K ktFn i))) := by
      have hne : K ktFn i ≠ -1 := by
        unfold K ktFn
        omega
      have hcode : ksymtocode (r.at ⟨{ p with state := .setting .string }, [.rvalue],
          ' ' :: '=' :: ' ' :: rest⟩).parser.ctx (bytes name) .toAuto = K ktFn i := hback
      simp only [lexAction, hcode, if_neg hne]
    exact .token (Or.inr rfl) (isName_ne_nil hword) (isName_noBlank hword)
      (munch_name hword (by simp)) (by decide) hact (by simp) rfl
  have hequals (r : Reader) : Reads find r
      ⟨{ p with state := .setting (.stringSym (K ktFn i)) }, [.rvalue], '=' :: ' ' :: rest⟩
      ⟨{ p with keyLine := [], state := .setting (.stringEquals (K ktFn i)) }, [.rvalue, .rvalue],
        [' '] ++ rest⟩ := by
    have hadv : advance (rules .rvalue) '=' = [(.equals, .eps), (.any, .eps), (.echo, .eps)] := rfl
    have hfeed : (feed .equals).run
        { p with keyLine := [], state := .setting (.stringSym (K ktFn i)) } =
          .ok () { p with keyLine := [], state := .setting (.stringEquals (K ktFn i)) } := rfl
    exact .token (w := ['=']) (Or.inr rfl) (by simp) (noBlank_cons.mpr (by decide))
      (munch_single hadv (by simp) _) (by decide) (fun _ => rfl) (by simp) hfeed
  have hblank := blanks_singleton (Or.inl rfl : IsBlank ' ')
  have hfeed : (feed (.strliteral s)).run
      { p with keyLine := [], state := .setting (.stringEquals (K ktFn i)) } =
        .ok () { p with keyLine := [], state := .setting (.stringValue (K ktFn i) s) } := by
    change EStateM.Result.ok () { p with
      keyLine := [], state := PState.setting (.stringValue (K ktFn i) (cstr s)) } = _
    rw [cstr_eq_self hs.noNul]
  have hvalue := reads_string find [.rvalue]
    (p := { p with keyLine := [], state := .setting (.stringEquals (K ktFn i)) })
    hs hfeed ('\n' :: t)
  have heol := feed_eol_string
    (p := { p with keyLine := [], state := .setting (.stringValue (K ktFn i) s) }) hi hs rfl
  refine ⟨{ p with
    keyLine := [], ctx := p.ctx.putFunc i s, state := .top
    stmts := p.stmts ++ [.string (K ktFn i) s] }, ⟨rfl, rfl, hmod⟩, ?_⟩
  rw [htext]
  apply ReadsString.trans (.of_reads fun r => ?_) (hvalue.trans (.of_reads fun r => ?_))
  swap
  · exact reads_eol find r (Or.inl rfl) heol t
  refine (hstring r).trans ((Reads.blanks hblank _).trans ?_)
  refine (hliteral r).trans ((Reads.blanks hblank _).trans ?_)
  exact (hequals r).trans (Reads.blanks hblank _)

end Lines

/-! ## The whole table -/

/-- The strings of `c` at the keys `is`, put into `d`. -/
def LkCtx.putFuncs (c d : LkCtx) (is : List Nat) : LkCtx :=
  is.foldl (fun d i => (c.funcTable.get i).elim d (d.putFunc i)) d

theorem get_putFuncs (c : LkCtx) (is : List Nat) (d : LkCtx) (j : Nat) :
    (c.putFuncs d is).funcTable.get j =
      if j ∈ is then (c.funcTable.get j).or (d.funcTable.get j) else d.funcTable.get j := by
  induction is generalizing d with
  | nil => rfl
  | cons i is ih =>
    have hstep : ((c.funcTable.get i).elim d (d.putFunc i)).funcTable.get j =
        if j = i then (c.funcTable.get i).or (d.funcTable.get j) else d.funcTable.get j := by
      cases c.funcTable.get i with
      | none => simp
      | some s => exact LkArray.get_set d.funcTable i j (some s)
    change (c.putFuncs ((c.funcTable.get i).elim d (d.putFunc i)) is).funcTable.get j = _
    rw [ih, hstep]
    by_cases hj : j = i
    · subst hj
      cases c.funcTable.get j <;> simp
    · simp [hj]

/-- The name of function key `i` is read as this key. -/
def FuncReadsBack (c : LkCtx) (i : Nat) : Prop :=
  ∃ name, getSym ktFn i = some name ∧ ksymtocode c (bytes name) .toAuto = K ktFn i

/-- The lines for several keys. -/
theorem reads_funcLines (find : FindIncl) {c c₀ : LkCtx} (is : List Nat)
    (hc : ∀ i s, c.funcTable.get i = some s → FuncString s ∧ FuncReadsBack c₀ i) {d : LkCtx}
    {p : Parser} (hflags : d.flags = c₀.flags) (hcharset : d.charset = c₀.charset)
    (hp : Between p d) :
    ∃ p', Between p' (c.putFuncs d is) ∧
      ReadsString find ⟨p, [], is.flatMap fun i => match c.funcTable.get i with
        | none => []
        | some s => funcLine i s⟩ ⟨p', [], []⟩ := by
  induction is generalizing d p with
  | nil => exact ⟨p, hp, .of_reads fun r => .refl _⟩
  | cons i is ih =>
    rw [List.flatMap_cons]
    cases hi : c.funcTable.get i with
    | none =>
      obtain ⟨p', hp', hread⟩ := ih hflags hcharset hp
      refine ⟨p', ?_, hread⟩
      have hskip : c.putFuncs d (i :: is) = c.putFuncs d is := by
        simp only [LkCtx.putFuncs, List.foldl_cons, hi, Option.elim_none]
      rwa [hskip]
    | some s =>
      obtain ⟨hs, name, hname, hback⟩ := hc i s hi
      rw [← ksymtocode_congr hflags hcharset] at hback
      obtain ⟨p₁, hp₁, hfirst⟩ := reads_funcLine find hp hname hback hs
        (is.flatMap fun i => match c.funcTable.get i with
          | none => []
          | some s => funcLine i s)
      obtain ⟨p', hp', hmore⟩ := ih (d := d.putFunc i s) hflags hcharset hp₁
      refine ⟨p', ?_, hfirst.trans hmore⟩
      have hput : c.putFuncs d (i :: is) = c.putFuncs (d.putFunc i s) is := by
        simp only [LkCtx.putFuncs, List.foldl_cons, hi, Option.elim_some]
      rwa [hput]

/-! ## The length of a string -/

section Length

variable (find : FindIncl) {r : Reader}

/-- The string that the scanner holds fits into `str_data`, with its terminator. -/
def StrFits (r : Reader) : Prop := r.str.length + 1 ≤ maxParserString

theorem StrFits.strdataAppend (h : StrFits r) (part : List Char) :
    StrFits (strdataAppend r part).1 := by
  unfold Keymap.strdataAppend
  split
  · exact h
  · rename_i hlen
    unfold StrFits
    rw [List.length_append]
    omega

theorem StrFits.lexAction (h : StrFits r) (yytext : List Char) (rule : Rule) :
    StrFits (lexAction find r yytext rule).1 := by
  cases rule with
  | inclFile =>
    change StrFits (includeFile find r yytext).1
    rcases includeFile_cases find r yytext with ⟨-, heq⟩ | ⟨fp, -, ⟨-, heq⟩ | ⟨-, heq⟩⟩
    · rwa [heq]
    · rw [heq]
      exact h
    · rw [heq]
      exact h
  | quote => exact Nat.succ_le_of_lt (Nat.zero_lt_succ _)
  | strQuote | strBackslash | strNewline | strText => exact h.strdataAppend _
  | strOcta =>
    simp only [Keymap.lexAction]
    split
    · exact h
    · exact h.strdataAppend _
  | unicode =>
    simp only [Keymap.lexAction]
    split <;> exact h
  | _ => exact h

theorem StrFits.feedToken (h : StrFits r) (tok : Token) : StrFits (after (feedToken r tok)) := by
  unfold Keymap.feedToken
  split
  · exact h
  · split <;> exact h

theorem StrFits.stackPop (h : StrFits r) : StrFits r.stackPop := by
  unfold Reader.stackPop
  split <;> exact h

/-- A match of the scanner keeps the string within `str_data`. -/
theorem StrFits.readStep (h : StrFits r) : StrFits (after (readStep find r)) := by
  rcases hb : r.buffers with - | ⟨- | ⟨a, buf⟩, bufs⟩
  · rwa [readStep_nil hb]
  · rw [readStep_eof hb]
    split
    · exact h.stackPop.feedToken _
    · exact h.stackPop
  · obtain ⟨rule, n, hm, -, -⟩ := exists_match r.cond a buf
    rw [readStep_match hb hm]
    have hlex : StrFits (Keymap.lexAction find (r.leave ((a :: buf).drop (taken rule n)))
        ((a :: buf).take n) rule).1 := StrFits.lexAction find (r := r.leave _) h _ rule
    revert hlex
    generalize Keymap.lexAction find _ _ rule = x
    obtain ⟨r₁, - | tok⟩ := x
    · exact id
    · exact fun hlex => StrFits.feedToken hlex tok

/-- The string that the scanner holds always fits. -/
theorem strFits_of_steps {r₀ : Reader} (hr : Machine.Steps (readStep find) r₀ r)
    (h₀ : StrFits r₀) : StrFits r := by
  refine hr.invariant (fun s s' hs hstep => ?_) h₀
  have := StrFits.readStep find hs
  rwa [hstep] at this

end Length

/-- The strings of function keys are read back from what `lk_dump_funcs` writes of them, where the
name of each key is read as this key; and the scanner never writes outside of `str_data`. -/
theorem lkParseKeymap_lkDumpFuncs (find : FindIncl) :
    (∀ (ctx : LkCtx) (flags : LkFlags) (charset id : Nat) (pathname : List Char),
      (∀ i s, ctx.funcTable.get i = some s →
        FuncString s ∧ FuncReadsBack (lkInit flags charset) i) →
      ∃ fuel r, lkParseKeymap find fuel (lkInit flags charset) emptyStack
          ⟨id, pathname, lkDumpFuncs ctx⟩ = some (true, r) ∧
        ∀ i, lkGetFunc r.parser.ctx i = ctx.funcTable.get i) ∧
    ∀ (ctx : LkCtx) (stack : List (Option Kbdfile)) (fp : Kbdfile) (r₀ r : Reader),
      (newReader ctx stack (fp.id + 1)).stackPush fp = some r₀ →
      Machine.Steps (readStep find) r₀ r → StrFits r ∧ StrFits (after (readStep find r)) := by
  constructor
  · intro ctx flags charset id pathname h
    set fp : Kbdfile := ⟨id, pathname, lkDumpFuncs ctx⟩ with hfp
    obtain ⟨p', hp', hread⟩ := reads_funcLines find
      (List.range ctx.funcTable.total) h rfl rfl (between_start _ fp)
    obtain ⟨u, b, hb, hsteps⟩ := hread (startReader (lkInit flags charset) fp) [] blanks_nil
    obtain ⟨fuel, r, hrun, hctx⟩ :=
      @accepted_of_steps find (lkInit flags charset) _ fp p' u b hb hsteps hp'
    refine ⟨fuel, r, hrun, fun i => ?_⟩
    have hget : (ctx.putFuncs (lkInit flags charset) (List.range ctx.funcTable.total)).funcTable.get i =
        ctx.funcTable.get i := by
      have hinit : (lkInit flags charset).funcTable.get i = none := LkArray.get_init i
      rw [get_putFuncs, hinit, Option.or_none]
      split
      · rfl
      · rename_i hi
        rw [List.mem_range, Nat.not_lt] at hi
        exact (LkArray.get_of_total_le hi).symm
    rw [lkGetFunc, hctx, hget]
    cases hi : ctx.funcTable.get i with
    | none => rfl
    | some s => rw [Option.map_some, List.take_of_length_le (h i s hi).1.length]
  · intro ctx stack fp r₀ r hpush hr
    have h₀ : StrFits r₀ := by
      unfold Reader.stackPush at hpush
      split at hpush
      · cases hpush
      · cases hpush
        exact Nat.succ_le_of_lt (Nat.zero_lt_succ _)
    have hfits := strFits_of_steps find hr h₀
    exact ⟨hfits, hfits.readStep find⟩

/-- A string with an escape in front of a digit, and one with a quote in it. -/
def escapeCtx : LkCtx :=
  ((lkInit {} 0).putFunc 0 ['\x1b', '1', '~']).putFunc 2 ['\x22', '\\', '\n']

theorem lkParseKeymap_lkDumpFuncs_escapes :
    (∃ fuel r, lkParseKeymap (findText []) fuel (lkInit {} 0) emptyStack
        ⟨0, [], lkDumpFuncs escapeCtx⟩ = some (true, r) ∧
      ∀ i, lkGetFunc r.parser.ctx i = escapeCtx.funcTable.get i) ∧
    StrFits (startReader (lkInit {} 0) ⟨0, [], []⟩) := by
  have hget (i : Nat) : escapeCtx.funcTable.get i =
      if i = 2 then some ['\x22', '\\', '\n']
      else if i = 0 then some ['\x1b', '1', '~'] else none := by
    change ((((lkInit {} 0).funcTable.set 0 _).set 2 _).get i) = _
    rw [LkArray.get_set, LkArray.get_set]
    congr 2
  have hname {i : Nat} {n : String} (hn : getSym ktFn i = some n)
      (hact : isAction (bytes n) (K ktFn i)) (hno : isNoCharacter (bytes n)) :
      FuncReadsBack (lkInit {} 0) i :=
    ⟨n, hn, ksymtocode_of_isNoCharacter _ hact hno _⟩
  refine ⟨(lkParseKeymap_lkDumpFuncs (findText [])).1 escapeCtx {} 0 0 [] fun i s hs => ?_,
    ((lkParseKeymap_lkDumpFuncs (findText [])).2 (lkInit {} 0) emptyStack ⟨0, [], []⟩ _ _ rfl
      (.refl _)).1⟩
  rw [hget] at hs
  split at hs
  · rename_i hi
    subst hi
    obtain rfl := Option.some.inj hs
    exact ⟨⟨by simp, by simp, by decide⟩,
      hname (n := "F3") rfl (by decide +kernel) (by decide +kernel)⟩
  · split at hs
    · rename_i hi
      subst hi
      obtain rfl := Option.some.inj hs
      exact ⟨⟨by simp, by simp, by decide⟩,
        hname (n := "F1") rfl (by decide +kernel) (by decide +kernel)⟩
    · cases hs

end Kbd.Keymap
