import Kbd.Keymap.Dump
import Kbd.Keymap.Verify.Ksyms
import Kbd.Keymap.Verify.Scan

/-!
# Values that are read back

What `print_keysym` prints for a code is a token, or two with a plus sign, between blanks. Read on its
own it gives a value of an `rvalue` (`ReadsBack`); it gives the same value in the middle of a line,
since no token goes on over the blank or the end of the line that follows.
-/

namespace Kbd.Keymap

open Kbd.Lib

/-! ## A text of values -/

/-- The token of a word, where no file can be included; a rule without a token gives an error. -/
def wordToken (ctx : LkCtx) (w : List Char) (rule : Rule) : Token :=
  (lexAction (fun _ _ => none) (newReader ctx [] 0) w rule).2.getD .error

/-- The tokens of a text after an equals sign. -/
def lexValue (ctx : LkCtx) : Nat → List Char → List Token
  | 0, _ => []
  | fuel + 1, s =>
    match munch (rules .rvalue) s with
    | none => []
    | some (rule, n) =>
      let toks := lexValue ctx fuel (s.drop n)
      if rule = .blank then toks else wordToken ctx (s.take n) rule :: toks

/-- The value of an `rvalue`, maybe after a plus sign. -/
def valueOf (ctx : LkCtx) : List Token → Option Int
  | [tok] => rvalueOf ctx tok
  | [.plus, tok] => plusRvalueOf ctx tok
  | _ => none

/-- The token that is printed for a code is read back as this code. -/
def ReadsBack (ctx : LkCtx) (style : PrintStyle) (code : Int) : Prop :=
  let s := printKeysym ctx style code
  valueOf ctx (lexValue ctx s.length s) = some code

instance (ctx : LkCtx) (style : PrintStyle) (code : Int) : Decidable (ReadsBack ctx style code) :=
  inferInstanceAs (Decidable (_ = _))

theorem toUnsigned_natCast {n : Nat} (hn : n < 2 ^ 32) : toUnsigned n = n := by
  rw [toUnsigned, Int.emod_eq_of_lt (by omega) (by omega), Int.toNat_natCast]

/-! ## The rules of values -/

/-- The rules whose tokens make up a value. -/
def ValueRule (rule : Rule) : Prop :=
  rule = .unicode ∨ rule = .number ∨ rule = .literal ∨ rule = .token .plus

/-- The tokens that make up a value. -/
def ValueToken : Token → Prop
  | .number _ | .literal _ | .unumber _ | .plus => True
  | _ => False

/-- The characters that such tokens begin with. -/
def WordChar (c : Char) : Prop :=
  ('0' ≤ c ∧ c ≤ '9') ∨ ('a' ≤ c ∧ c ≤ 'z') ∨ ('A' ≤ c ∧ c ≤ 'Z') ∨ c = '+'

instance : DecidablePred WordChar := fun _ => inferInstanceAs (Decidable (_ ∨ _))

theorem ValueRule.ne_comment {rule : Rule} (h : ValueRule rule) : rule ≠ .comment := by
  rintro rfl
  rcases h with h | h | h | h <;> cases h

theorem ValueToken.ne_eof {t : Token} (h : ValueToken t) : t ≠ .eof := by
  rintro rfl
  exact h

/-- The rules that match a text with a blank or the end of a line in it. -/
def blankRules : List (Rule × Re Char) := [
  (.include, includePat),
  (.continuation, .seq (char '\\') (char '\n')),
  (.eol, char '\n'),
  (.blank, Re.plus blankPat),
  (.comment, .seq (oneOf ['#', '!']) (.seq (.star dot) (char '\n'))),
  (.ccharEscape, .seq (char '\x27') (.seq (char '\\') (.seq dot (char '\x27')))),
  (.cchar, .seq (char '\x27') (.seq dot (char '\x27'))),
  (.any, dot),
  echoRule]

theorem mayContain_rep {r : Re Char} {c : Char} (h : r.mayContain c = false) (m k : Nat) :
    (Re.rep r m k).mayContain c = false := by
  induction m with
  | zero =>
    induction k with
    | zero => rw [Re.rep, Re.mayContain]
    | succ k ih =>
      rw [Re.rep, Re.mayContain, Re.mayContain, Re.mayContain, h, ih]
      rfl
  | succ m ih =>
    rw [Re.rep, Re.mayContain, h, ih]
    rfl

theorem mem_blankRules {q : Rule × Re Char} (hq : q ∈ rules .rvalue)
    (h : q.2.mayContain ' ' = true ∨ q.2.mayContain '\n' = true) : q ∈ blankRules := by
  have hunicode {c : Char} (hc : hexDigit.mayContain c = false) (hu : (char 'U').mayContain c = false)
      (hplus : (char '+').mayContain c = false) : unicodePat.mayContain c = false := by
    rw [unicodePat, Re.mayContain, Re.mayContain, mayContain_rep hc, hu, hplus]
    rfl
  have hocta {c : Char} (hc : octDigit.mayContain c = false) : octaPat.mayContain c = false :=
    mayContain_rep hc 1 2
  have hfilter : (rules .rvalue).filter (fun q => q.2.mayContain ' ' || q.2.mayContain '\n') =
      blankRules := by
    simp only [rules, rulesBefore, rulesAfter, List.cons_append, List.nil_append, List.filter_cons,
      Re.mayContain, @hunicode ' ' rfl rfl rfl, @hunicode '\n' rfl rfl rfl, @hocta ' ' rfl,
      @hocta '\n' rfl]
    rfl
  rw [← hfilter, List.mem_filter, Bool.or_eq_true]
  exact ⟨hq, h⟩

theorem WordChar.not_blank {c : Char} (h : WordChar c) : ¬ IsBlank c := by
  rintro (rfl | rfl) <;> revert h <;> decide

theorem matches_any_length {q : Rule × Re Char} (hq : q = (.any, dot) ∨ q = echoRule)
    {u : List Char} (h : q.2.Matches u) : u.length = 1 := by
  rcases hq with rfl | rfl <;>
  · obtain ⟨a, -, rfl⟩ := Re.matches_cls.mp h
    rfl

/-- Of these rules only `include` goes on after a character of a word. -/
theorem eq_include_of_matches {q : Rule × Re Char} (hq : q ∈ blankRules) {c : Char} {u : List Char}
    (hc : WordChar c) (hu : u ≠ []) (h : q.2.Matches (c :: u)) : q = (.include, includePat) := by
  have hstart := Re.mayStart_of_matches h
  have hne : ∀ d, ¬ WordChar d → c ≠ d := by
    rintro d hd rfl
    exact hd hc
  have hlen : (c :: u).length ≠ 1 := by
    simpa using hu
  have h1 := hne '\\' (by decide)
  have h2 := hne '\n' (by decide)
  have h3 := hne ' ' (by decide)
  have h4 := hne '\t' (by decide)
  have h5 := hne '#' (by decide)
  have h6 := hne '!' (by decide)
  have h7 := hne '\x27' (by decide)
  simp only [blankRules, List.mem_cons, List.not_mem_nil, or_false] at hq
  rcases hq with rfl | rfl | rfl | rfl | rfl | rfl | rfl | rfl | rfl
  · rfl
  · simp [Re.mayStart, Re.deriv, char, Re.nullable, Re.mkSeq, Re.isEmpty, h1] at hstart
  · simp [Re.mayStart, Re.deriv, char, Re.isEmpty, h2] at hstart
  · simp [Re.mayStart, Re.deriv, Re.plus, blankPat, oneOf, Re.nullable, Re.mkSeq, Re.isEmpty, h3, h4]
      at hstart
  · simp [Re.mayStart, Re.deriv, oneOf, Re.nullable, Re.mkSeq, Re.isEmpty, h5, h6] at hstart
  · simp [Re.mayStart, Re.deriv, char, Re.nullable, Re.mkSeq, Re.isEmpty, h7] at hstart
  · simp [Re.mayStart, Re.deriv, char, Re.nullable, Re.mkSeq, Re.isEmpty, h7] at hstart
  · exact absurd (matches_any_length (Or.inl rfl) h) hlen
  · exact absurd (matches_any_length (Or.inr rfl) h) hlen

theorem matches_seq_cls {p : Char → Bool} {re : Re Char} {c : Char} {u : List Char}
    (h : (Re.seq (.cls p) re).Matches (c :: u)) : p c = true := by
  obtain ⟨v, w, heq, hv, -⟩ := Re.matches_seq.mp h
  obtain ⟨a, ha, rfl⟩ := Re.matches_cls.mp hv
  cases heq
  exact ha

theorem between_iff {lo hi c : Char} : (lo ≤ c && c ≤ hi) = true ↔ lo ≤ c ∧ c ≤ hi := by
  rw [Bool.and_eq_true, decide_eq_true_eq, decide_eq_true_eq]

/-- A value begins with a character of a word. -/
theorem wordChar_of_valueRule {rule : Rule} {re : Re Char} (hmem : (rule, re) ∈ rules .rvalue)
    (hv : ValueRule rule) {c : Char} {u : List Char} (h : re.Matches (c :: u)) : WordChar c := by
  have htag : (rule, re) ∈ (rules .rvalue).filter (·.1 = rule) := by
    simp only [List.mem_filter, hmem, decide_true, and_self]
  rcases hv with rfl | rfl | rfl | rfl
  · obtain rfl : re = unicodePat := congrArg Prod.snd (List.mem_singleton.mp htag)
    have hU : decide (c = 'U') = true := matches_seq_cls h
    rw [of_decide_eq_true hU]
    decide
  · obtain rfl : re = .alt decimalPat (.alt octalPat hexPat) :=
      congrArg Prod.snd (List.mem_singleton.mp htag)
    rcases Re.matches_alt.mp h with h | h
    · obtain ⟨h1, h9⟩ := between_iff.mp (matches_seq_cls h)
      exact Or.inl ⟨Char.le_trans (by decide) h1, h9⟩
    · have h0 : decide (c = '0') = true := by
        rcases Re.matches_alt.mp h with h | h <;> exact matches_seq_cls h
      rw [of_decide_eq_true h0]
      decide
  · obtain rfl : re = literalPat := congrArg Prod.snd (List.mem_singleton.mp htag)
    obtain ⟨v, w, heq, hv, -⟩ := Re.matches_seq.mp h
    rcases Re.matches_alt.mp hv with hv | hv
    · obtain ⟨a, ha, rfl⟩ := Re.matches_cls.mp hv
      cases heq
      exact Or.inr (Or.inl (between_iff.mp ha))
    · obtain ⟨a, ha, rfl⟩ := Re.matches_cls.mp hv
      cases heq
      exact Or.inr (Or.inr (Or.inl (between_iff.mp ha)))
  · obtain rfl : re = char '+' := congrArg Prod.snd (List.mem_singleton.mp htag)
    obtain ⟨a, ha, heq⟩ := Re.matches_cls.mp h
    cases heq
    rw [of_decide_eq_true ha]
    decide

/-- What `include` matches is the word and blanks. -/
theorem matches_include {u : List Char} :
    includePat.Matches u ↔ ∃ b, u = bytes "include" ++ b ∧ Blanks b := by
  have hword (v : List Char) : (spelled ["include"]).Matches v ↔ v = bytes "include" := by
    have hwords : spelled ["include"] = .alt (Re.lit (bytes "include")) .empty := rfl
    rw [hwords, Re.matches_alt, Re.matches_lit]
    exact or_iff_left Re.matches_empty
  have hstar (v : List Char) : (Re.star blankPat).Matches v ↔ Blanks v := by
    constructor
    · intro h c hc
      exact contains_blank.mp (Re.mayContain_of_mem h hc)
    · intro h
      induction v with
      | nil => exact .starNil
      | cons c v ih =>
        refine .starCons (.cls (contains_blank.mpr (h c List.mem_cons_self))) (ih ?_)
        intro d hd
        exact h d (List.mem_cons_of_mem c hd)
  rw [includePat, Re.matches_seq]
  constructor
  · rintro ⟨v, b, rfl, hv, hb⟩
    exact ⟨b, by rw [(hword v).mp hv], (hstar b).mp hb⟩
  · rintro ⟨b, rfl, hb⟩
    exact ⟨_, b, rfl, (hword _).mpr rfl, (hstar b).mpr hb⟩

theorem firstHit_include {u : List Char} (h : includePat.Matches u) :
    firstHit (rules .rvalue) u = some .include :=
  firstHit_head h _

/-- A text that is followed by a blank or the end of a line has all of the word `include` when the
two have. -/
theorem matches_include_append {s v : List Char} {a : Char} (ha : a = ' ' ∨ a = '\n')
    (h : includePat.Matches (s ++ a :: v)) : includePat.Matches s := by
  obtain ⟨b, heq, hb⟩ := matches_include.mp h
  rw [List.append_eq_append_iff] at heq
  rcases heq with ⟨t, ht, hav⟩ | ⟨t, rfl, ht⟩
  · cases t with
    | nil => exact matches_include.mpr ⟨[], by simpa using ht.symm, blanks_nil⟩
    | cons a' t =>
      -- the blank would be in the word
      obtain ⟨rfl, -⟩ := List.cons.inj hav
      have hmem : a ∈ bytes "include" := ht ▸ List.mem_append_right s List.mem_cons_self
      have hno : ' ' ∉ bytes "include" ∧ '\n' ∉ bytes "include" := by decide
      rcases ha with rfl | rfl
      · exact absurd hmem hno.1
      · exact absurd hmem hno.2
  · refine matches_include.mpr ⟨t, rfl, ?_⟩
    intro c hc
    exact hb c (ht ▸ List.mem_append_left _ hc)

/-- A value at the start of a text stays the longest match when a blank or the end of the line comes
after the text. -/
theorem munch_value_append {s rest : List Char} {rule : Rule} {n : Nat}
    (hm : munch (rules .rvalue) s = some (rule, n)) (hv : ValueRule rule)
    (hrest : ∀ c ∈ rest.head?, c = ' ' ∨ c = '\n') :
    munch (rules .rvalue) (s ++ rest) = some (rule, n) := by
  rw [munch_eq_some_iff] at hm ⊢
  obtain ⟨hle, hhit, hlongest⟩ := hm
  refine ⟨by rw [List.length_append]; omega, by rwa [List.take_append_of_le_length hle], ?_⟩
  intro m hnm hm
  by_cases hms : m ≤ s.length
  · rw [List.take_append_of_le_length hms]
    exact hlongest m hnm hms
  rw [firstHit_eq_none]
  intro q hq hmat
  -- the match would go on over the end of the text
  obtain ⟨re, hre, hmatch⟩ := exists_rule_of_firstHit hhit
  obtain ⟨a, v, htake, ha⟩ : ∃ a v, (s ++ rest).take m = s ++ a :: v ∧ (a = ' ' ∨ a = '\n') := by
    rw [List.take_append, List.take_of_length_le (by omega)]
    rw [List.length_append] at hm
    cases rest with
    | nil => simp at hm; omega
    | cons a rest =>
      obtain ⟨k, hk⟩ : ∃ k, m - s.length = k + 1 := ⟨m - s.length - 1, by omega⟩
      exact ⟨a, rest.take k, by rw [hk, List.take_succ_cons], hrest a rfl⟩
  rw [htake] at hmat
  have hcontain : q.2.mayContain ' ' = true ∨ q.2.mayContain '\n' = true := by
    have hmem := Re.mayContain_of_mem hmat (List.mem_append_right s List.mem_cons_self)
    rcases ha with rfl | rfl
    · exact Or.inl hmem
    · exact Or.inr hmem
  have hinclude : q = (.include, includePat) := by
    cases s with
    | nil =>
      obtain rfl : n = 0 := Nat.le_zero.mp hle
      cases hhit
    | cons c s =>
      cases n with
      | zero => cases hhit
      | succ n =>
        rw [List.take_succ_cons] at hmatch
        exact eq_include_of_matches (mem_blankRules hq hcontain) (wordChar_of_valueRule hre hv hmatch)
          (by simp) hmat
  subst hinclude
  -- then the text itself is the word `include` and blanks
  have hs := matches_include_append ha hmat
  have hhit' := firstHit_include hs
  by_cases hn : n = s.length
  · rw [hn, List.take_length, hhit'] at hhit
    cases hhit
    rcases hv with h | h | h | h <;> cases h
  · have := hlongest s.length (by omega) (Nat.le_refl _)
    rw [List.take_length, hhit'] at this
    cases this

/-! ## Reading a value in a line -/

theorem valueTokens {ctx : LkCtx} {toks : List Token} {v : Int} (h : valueOf ctx toks = some v) :
    ∀ t ∈ toks, ValueToken t := by
  have hvalue {f : Token → Option Int} (hf : f = rvalueOf ctx ∨ f = plusRvalueOf ctx) {t : Token}
      (h : f t = some v) : ValueToken t := by
    rcases hf with rfl | rfl <;> cases t <;> trivial
  unfold valueOf at h
  split at h
  · simpa using hvalue (Or.inl rfl) h
  · simpa using ⟨trivial, hvalue (Or.inr rfl) h⟩
  · cases h

/-- Only the rules of values give such tokens. -/
theorem valueRule_of_token {ctx : LkCtx} {w : List Char} {rule : Rule} {re : Re Char}
    (hmem : (rule, re) ∈ rules .rvalue) (h : ValueToken (wordToken ctx w rule)) : ValueRule rule := by
  have htag : rule ∈ (rules .rvalue).map Prod.fst := List.mem_map_of_mem (f := Prod.fst) hmem
  cases rule with
  | unicode => exact Or.inl rfl
  | number => exact Or.inr (Or.inl rfl)
  | literal => exact Or.inr (Or.inr (Or.inl rfl))
  | token t =>
    refine Or.inr (Or.inr (Or.inr ?_))
    change ValueToken t at h
    cases t with
    | plus => rfl
    | number n | literal n | unumber n => simp [rules, rulesBefore, rulesAfter, echoRule] at htag
    | _ => cases h
  | ccharOcta =>
    simp only [wordToken, lexAction, Option.getD_some] at h
    cases hn : parseInt (w.drop 2) 8 with
    | none =>
      rw [hn] at h
      cases h
    | some n =>
      rw [hn] at h
      cases h
  | inclFile | strOcta | strQuote | strBackslash | strNewline | strText =>
    exact absurd htag (by decide)
  | _ => cases h

/-- The action of a rule of values returns its token and does nothing else. -/
theorem lexAction_value {find : FindIncl} {r : Reader} {c : LkCtx}
    (hflags : r.parser.ctx.flags = c.flags) (hcharset : r.parser.ctx.charset = c.charset)
    (w : List Char) {rule : Rule} (hv : ValueRule rule) :
    lexAction find r w rule = (r, some (wordToken c w rule)) := by
  rcases hv with rfl | rfl | rfl | rfl
  · simp only [wordToken, lexAction]
    split <;> rfl
  · rfl
  · simp only [wordToken, lexAction, Option.getD_some, newReader, ksymtocode_congr hflags hcharset]
    rfl
  · rfl

/-- The parser takes the tokens, and runs no action on the context. -/
inductive Takes : Parser → List Token → Parser → Prop
  | nil (p : Parser) : Takes p [] p
  | cons {p p₁ p' : Parser} {t : Token} {toks : List Token} (h : (feed t).run p = .ok () p₁)
      (hctx : p₁.ctx = p.ctx) (htoks : Takes p₁ toks p') : Takes p (t :: toks) p'

theorem blanks_of_munch {s : List Char} {n : Nat} (hm : munch (rules .rvalue) s = some (.blank, n)) :
    Blanks (s.take n) := by
  obtain ⟨re, hre, hmatch⟩ := exists_rule_of_firstHit (munch_eq_some_iff.mp hm).hit
  have htag : (Rule.blank, re) ∈ (rules .rvalue).filter (·.1 = .blank) := by
    simp only [List.mem_filter, hre, decide_true, and_self]
  obtain rfl : re = Re.plus blankPat := congrArg Prod.snd (List.mem_singleton.mp htag)
  intro c hc
  have hcontain := Re.mayContain_of_mem hmatch hc
  change ([' ', '\t'].contains c || [' ', '\t'].contains c) = true at hcontain
  rw [Bool.or_self] at hcontain
  exact contains_blank.mp hcontain

/-- The tokens of a value are read from the text of the value, whatever comes after it. -/
theorem reads_lexValue (find : FindIncl) (r : Reader) {c : LkCtx} {fuel : Nat} {s rest : List Char}
    {p p' : Parser} (hlen : s.length ≤ fuel) (hrest : ∀ a ∈ rest.head?, a = ' ' ∨ a = '\n')
    (hflags : p.ctx.flags = c.flags) (hcharset : p.ctx.charset = c.charset)
    (htoks : ∀ t ∈ lexValue c fuel s, ValueToken t) (h : Takes p (lexValue c fuel s) p') :
    Reads find r ⟨p, [.rvalue], s ++ rest⟩ ⟨p', [.rvalue], rest⟩ := by
  induction fuel generalizing s p with
  | zero =>
    obtain rfl : s = [] := List.eq_nil_of_length_eq_zero (Nat.le_zero.mp hlen)
    cases h
    exact .refl _
  | succ fuel ih =>
    cases s with
    | nil =>
      have hnone : munch (rules .rvalue) [] = none := rfl
      rw [lexValue, hnone] at h
      cases h
      exact .refl _
    | cons a s =>
      obtain ⟨rule, n, hm, -, htaken⟩ := exists_match .rvalue a s
      have hn : 1 ≤ n := by
        unfold taken at htaken
        split at htaken <;> omega
      have hshort : ((a :: s).drop n).length ≤ fuel := by
        rw [List.length_drop]
        omega
      have hcut : a :: s ++ rest = (a :: s).take n ++ ((a :: s).drop n ++ rest) := by
        rw [← List.append_assoc, List.take_append_drop]
      by_cases hblank : rule = .blank
      · subst hblank
        have hlex : lexValue c (fuel + 1) (a :: s) = lexValue c fuel ((a :: s).drop n) := by
          rw [lexValue, hm]
          rfl
        rw [hlex] at h htoks
        rw [hcut]
        exact (Reads.blanks (blanks_of_munch hm) _).trans (ih hshort hflags hcharset htoks h)
      · have hlex : lexValue c (fuel + 1) (a :: s) =
            wordToken c ((a :: s).take n) rule :: lexValue c fuel ((a :: s).drop n) := by
          rw [lexValue, hm]
          exact if_neg hblank
        rw [hlex] at h htoks
        cases h with
        | @cons _ p₁ _ _ _ hfeed hctx hmore =>
          have hmatch := munch_eq_some_iff.mp hm
          obtain ⟨re, hre, hword⟩ := exists_rule_of_firstHit hmatch.hit
          have htok := htoks _ List.mem_cons_self
          have hv := valueRule_of_token hre htok
          obtain ⟨k, rfl⟩ : ∃ k, n = k + 1 := ⟨n - 1, by omega⟩
          have hlenw : ((a :: s).take (k + 1)).length = k + 1 := by
            rw [List.length_take, Nat.min_eq_left hmatch.le_length]
          have hmunch : munch (rules .rvalue)
              ((a :: s).take (k + 1) ++ ((a :: s).drop (k + 1) ++ rest)) =
              some (rule, ((a :: s).take (k + 1)).length) := by
            rw [← hcut, hlenw]
            exact munch_value_append hm hv hrest
          have hnoblank : NoBlank ((a :: s).take (k + 1)) := by
            intro d hd
            obtain rfl : a = d := Option.some.inj hd
            rw [List.take_succ_cons] at hword
            exact (wordChar_of_valueRule hre hv hword).not_blank
          have hstep : Reads find r ⟨p, [.rvalue], a :: s ++ rest⟩
              ⟨p₁, [.rvalue], (a :: s).drop (k + 1) ++ rest⟩ := by
            rw [hcut]
            exact .token (Or.inr rfl) (by simp) hnoblank hmunch (hv.ne_comment)
              (fun r => lexAction_value hflags hcharset _ hv) (htok.ne_eof) hfeed
          refine hstep.trans (ih hshort ?_ ?_ (fun t ht => htoks t (List.mem_cons_of_mem _ ht)) hmore)
          · rw [hctx, hflags]
          · rw [hctx, hcharset]

/-! ## A value of a line -/

section Feed

variable {p : Parser} {t : Token}

theorem feed_top (h : p.state = .top) : (feed t).run p = (feedTop t).run p := by
  rw [feed, Result.bind_of_ok (EStateM.run_get p), h]

theorem feed_keymaps {s : KeymapsState} (h : p.state = .keymaps s) :
    (feed t).run p = (feedKeymaps s t).run p := by
  rw [feed, Result.bind_of_ok (EStateM.run_get p), h]

theorem feed_keycode {s : KeycodeState} (h : p.state = .keycode s) :
    (feed t).run p = (feedKeycode s t).run p := by
  rw [feed, Result.bind_of_ok (EStateM.run_get p), h]

theorem feed_line {s : LineState} (h : p.state = .line s) :
    (feed t).run p = (feedLine s t).run p := by
  rw [feed, Result.bind_of_ok (EStateM.run_get p), h]

theorem pushValue_run (n v : Int) (hroom : p.keyLine.length < maxNrKeymaps) :
    (pushValue n v).run p =
      .ok () { p with keyLine := p.keyLine ++ [v], state := .keycode (.values n) } := by
  rw [pushValue, Result.bind_of_ok (EStateM.run_get p), if_neg (Nat.not_le.mpr hroom)]
  rfl

/-- A value of a complete line. -/
theorem feed_value {n v : Int} (hstate : p.state = .keycode (.values n))
    (hroom : p.keyLine.length < maxNrKeymaps) (hv : rvalueOf p.ctx t = some v) :
    (feed t).run p = .ok () { p with keyLine := p.keyLine ++ [v], state := .keycode (.values n) } := by
  have hfeed : (feedKeycode (.values n) t).run p =
      (takeValue (rvalueOf p.ctx t) (pushValue n)).run p := by
    cases t <;> first | rfl | cases hv
  rw [feed_keycode hstate, hfeed, hv]
  exact pushValue_run n v hroom

theorem feed_plusValue {n v : Int} (hstate : p.state = .keycode (.plus n))
    (hroom : p.keyLine.length < maxNrKeymaps) (hv : plusRvalueOf p.ctx t = some v) :
    (feed t).run p = .ok () { p with keyLine := p.keyLine ++ [v], state := .keycode (.values n) } := by
  have hfeed : (feedKeycode (.plus n) t).run p =
      (takeValue (plusRvalueOf p.ctx t) (pushValue n)).run p := by
    cases t <;> rfl
  rw [feed_keycode hstate, hfeed, hv]
  exact pushValue_run n v hroom

/-- The value of a line for one map. -/
theorem feed_lineValue {kind : LineKind} {n v : Int} (hstate : p.state = .line (.equals kind n))
    (hv : rvalueOf p.ctx t = some v) :
    (feed t).run p = .ok () { p with state := .line (.value kind n v) } := by
  have hfeed : (feedLine (.equals kind n) t).run p =
      (takeValue (rvalueOf p.ctx t) fun v => goto (.line (.value kind n v))).run p := by
    cases t <;> first | rfl | cases hv
  rw [feed_line hstate, hfeed, hv]
  rfl

theorem feed_linePlusValue {kind : LineKind} {n v : Int} (hstate : p.state = .line (.plus kind n))
    (hv : plusRvalueOf p.ctx t = some v) :
    (feed t).run p = .ok () { p with state := .line (.value kind n v) } := by
  have hfeed : (feedLine (.plus kind n) t).run p =
      (takeValue (plusRvalueOf p.ctx t) fun v => goto (.line (.value kind n v))).run p := by
    cases t <;> rfl
  rw [feed_line hstate, hfeed, hv]
  rfl

end Feed

section Values

variable (find : FindIncl) (r : Reader) {c : LkCtx} {p : Parser} {toks : List Token} {v : Int}
variable (hflags : p.ctx.flags = c.flags) (hcharset : p.ctx.charset = c.charset)

include hflags hcharset

theorem rvalueOf_congr (t : Token) : rvalueOf p.ctx t = rvalueOf c t := by
  cases t <;> simp only [rvalueOf, convertCode_congr hflags hcharset]

theorem plusRvalueOf_congr (t : Token) : plusRvalueOf p.ctx t = plusRvalueOf c t := by
  cases t <;> simp only [plusRvalueOf, addCapslock_congr hflags hcharset]

/-- The tokens of a value are taken by a complete line. -/
theorem takes_value {n : Int} (hstate : p.state = .keycode (.values n))
    (hroom : p.keyLine.length < maxNrKeymaps) (hv : valueOf c toks = some v) :
    Takes p toks { p with keyLine := p.keyLine ++ [v], state := .keycode (.values n) } := by
  unfold valueOf at hv
  split at hv
  · rename_i t
    rw [← rvalueOf_congr hflags hcharset] at hv
    exact .cons (feed_value hstate hroom hv) rfl (.nil _)
  · rename_i t
    rw [← plusRvalueOf_congr hflags hcharset] at hv
    have hplus : (feed .plus).run p = .ok () { p with state := .keycode (.plus n) } := by
      rw [feed_keycode hstate]
      rfl
    exact .cons hplus rfl (.cons (feed_plusValue rfl hroom hv) rfl (.nil _))
  · cases hv

/-- The tokens of a value are taken by a line for one map. -/
theorem takes_lineValue {kind : LineKind} {n : Int} (hstate : p.state = .line (.equals kind n))
    (hv : valueOf c toks = some v) : Takes p toks { p with state := .line (.value kind n v) } := by
  unfold valueOf at hv
  split at hv
  · rename_i t
    rw [← rvalueOf_congr hflags hcharset] at hv
    exact .cons (feed_lineValue hstate hv) rfl (.nil _)
  · rename_i t
    rw [← plusRvalueOf_congr hflags hcharset] at hv
    have hplus : (feed .plus).run p = .ok () { p with state := .line (.plus kind n) } := by
      rw [feed_line hstate]
      rfl
    exact .cons hplus rfl (.cons (feed_linePlusValue rfl hv) rfl (.nil _))
  · cases hv

variable {style : PrintStyle} {rest : List Char}

/-- What is printed for a code is read as a value of a complete line. -/
theorem reads_value {n : Int} (hstate : p.state = .keycode (.values n))
    (hroom : p.keyLine.length < maxNrKeymaps) (hback : ReadsBack c style v)
    (hrest : ∀ a ∈ rest.head?, a = ' ' ∨ a = '\n') :
    Reads find r ⟨p, [.rvalue], printKeysym c style v ++ rest⟩
      ⟨{ p with keyLine := p.keyLine ++ [v], state := .keycode (.values n) }, [.rvalue], rest⟩ :=
  reads_lexValue find r (Nat.le_refl _) hrest hflags hcharset (valueTokens hback)
    (takes_value hflags hcharset hstate hroom hback)

theorem reads_lineValue {kind : LineKind} {n : Int} (hstate : p.state = .line (.equals kind n))
    (hback : ReadsBack c style v) (hrest : ∀ a ∈ rest.head?, a = ' ' ∨ a = '\n') :
    Reads find r ⟨p, [.rvalue], printKeysym c style v ++ rest⟩
      ⟨{ p with state := .line (.value kind n v) }, [.rvalue], rest⟩ :=
  reads_lexValue find r (Nat.le_refl _) hrest hflags hcharset (valueTokens hback)
    (takes_lineValue hflags hcharset hstate hback)

end Values

/-- The values of a complete line. -/
theorem reads_values (find : FindIncl) (r : Reader) {c : LkCtx} {style : PrintStyle} {n : Int}
    {vs : List Int} (hback : ∀ v ∈ vs, ReadsBack c style v) (s : List Char) {p : Parser}
    (hflags : p.ctx.flags = c.flags) (hcharset : p.ctx.charset = c.charset)
    (hstate : p.state = .keycode (.values n)) (hroom : p.keyLine.length + vs.length ≤ maxNrKeymaps) :
    Reads find r ⟨p, [.rvalue], vs.flatMap (printKeysym c style) ++ '\n' :: s⟩
      ⟨{ p with keyLine := p.keyLine ++ vs }, [.rvalue], '\n' :: s⟩ := by
  induction vs generalizing p with
  | nil =>
    rw [List.append_nil]
    exact .refl _
  | cons v vs ih =>
    rw [List.forall_mem_cons] at hback
    rw [List.length_cons] at hroom
    have hrest : ∀ a ∈ (vs.flatMap (printKeysym c style) ++ '\n' :: s).head?,
        a = ' ' ∨ a = '\n' := by
      intro a ha
      cases vs with
      | nil => exact Or.inr (Option.some.inj ha).symm
      | cons v' vs => exact Or.inl (Option.some.inj ha).symm
    have hfirst := reads_value find r hflags hcharset hstate (by omega) hback.1 hrest
    have hmore := ih hback.2 (p := { p with
      keyLine := p.keyLine ++ [v], state := .keycode (.values n) }) hflags hcharset rfl
      (by simp only [List.length_append, List.length_singleton]; omega)
    rw [List.flatMap_cons, List.append_assoc]
    refine hfirst.trans ?_
    have heq : { p with keyLine := p.keyLine ++ v :: vs } =
        { p with keyLine := p.keyLine ++ [v] ++ vs, state := .keycode (.values n) } := by
      rw [← hstate, List.append_assoc, List.singleton_append]
    rw [heq]
    exact hmore

/-! ## Holes -/

theorem lexValue_of_munch {ctx : LkCtx} {fuel n : Nat} {s : List Char} {rule : Rule}
    (h : munch (rules .rvalue) s = some (rule, n)) :
    lexValue ctx (fuel + 1) s =
      if rule = .blank then lexValue ctx fuel (s.drop n)
      else wordToken ctx (s.take n) rule :: lexValue ctx fuel (s.drop n) := by
  rw [lexValue, h]

theorem munch_rvalue_blanks {b s : List Char} (hb : Blanks b) (hne : b ≠ []) (hs : NoBlank s) :
    munch (rules .rvalue) (b ++ s) = some (.blank, b.length) :=
  @munch_blanks [.rvalue] (Or.inr rfl) b s hb hne hs

/-- A word between blanks. -/
theorem lexValue_word (ctx : LkCtx) {fuel : Nat} {w b : List Char} {rule : Rule} (hw : w ≠ [])
    (hnoblank : NoBlank w) (hb : Blanks b) (hbne : b ≠ []) (hrule : rule ≠ .blank)
    (h : munch (rules .rvalue) (w ++ b) = some (rule, w.length)) :
    lexValue ctx (fuel + 4) (' ' :: (w ++ b)) = [wordToken ctx w rule] := by
  have hnone : munch (rules .rvalue) [] = none := rfl
  have hnb : NoBlank (w ++ b) := by
    intro c hc
    rw [List.head?_append_of_ne_nil w hw] at hc
    exact hnoblank c hc
  have h₁ : munch (rules .rvalue) (' ' :: (w ++ b)) = some (.blank, 1) :=
    munch_rvalue_blanks (blanks_replicate 1) (by simp) hnb
  have h₃ : munch (rules .rvalue) b = some (.blank, b.length) := by
    have hm := munch_rvalue_blanks hb hbne (s := []) (by simp [NoBlank])
    rwa [List.append_nil] at hm
  rw [lexValue_of_munch h₁, if_pos rfl, List.drop_one, List.tail_cons, lexValue_of_munch h,
    if_neg hrule, List.take_left, List.drop_left, lexValue_of_munch h₃, if_pos rfl, List.drop_length,
    lexValue, hnone]

/-- A hole is read back, by its number and by its name. -/
theorem readsBack_kHole (ctx : LkCtx) (style : PrintStyle) : ReadsBack ctx style kHole := by
  have hname (d : Direction) : ksymtocode ctx (bytes "VoidSymbol") d = kHole :=
    ksymtocode_of_isNoCharacter ctx (by decide +kernel) (by decide +kernel) d
  obtain ⟨numeric, stdout⟩ := style
  cases numeric with
  | true =>
    have htext : printKeysym ctx ⟨true, stdout⟩ kHole =
        ' ' :: (bytes "0x0200" ++ List.replicate 10 ' ') := rfl
    have hlex : lexValue ctx (13 + 4) (' ' :: (bytes "0x0200" ++ List.replicate 10 ' ')) =
        [.number kHole] := by
      have htok : wordToken ctx (bytes "0x0200") .number = .number kHole := rfl
      rw [← htok]
      exact lexValue_word ctx (by decide) (noBlank_cons.mpr (by decide)) (blanks_replicate 10)
        (by simp) (by decide) (by decide +kernel)
    have hsym : codetoksym ctx kHole = some "VoidSymbol" := rfl
    have hsmall : ¬ (0x1000 : Int) ≤ kHole := by decide
    have hletter : ¬ ktyp kHole = ktLetter := by decide
    have hconv : convertCode ctx kHole .toAuto = kHole := by
      cases hu : ctx.flags.preferUnicode <;>
        simp [convertCode, Direction.resolve, hu, hsym, hname, hsmall, hletter]
    unfold ReadsBack
    rw [htext]
    change valueOf ctx (lexValue ctx (13 + 4) (' ' :: (bytes "0x0200" ++ List.replicate 10 ' '))) = _
    rw [hlex, valueOf, rvalueOf, hconv]
  | false =>
    have htext : printKeysym ctx ⟨false, stdout⟩ kHole =
        ' ' :: (bytes "VoidSymbol" ++ List.replicate 6 ' ') := rfl
    have hlex : lexValue ctx (13 + 4) (' ' :: (bytes "VoidSymbol" ++ List.replicate 6 ' ')) =
        [.literal kHole] := by
      have htok : wordToken ctx (bytes "VoidSymbol") .literal = .literal kHole := by
        simp only [wordToken, lexAction, newReader, hname]
        rfl
      rw [← htok]
      exact lexValue_word ctx (by decide) (noBlank_cons.mpr (by decide)) (blanks_replicate 6)
        (by simp) (by decide) (by decide +kernel)
    unfold ReadsBack
    rw [htext]
    change valueOf ctx (lexValue ctx (13 + 4) (' ' :: (bytes "VoidSymbol" ++ List.replicate 6 ' '))) = _
    rw [hlex]
    rfl

end Kbd.Keymap
