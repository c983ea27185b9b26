import Kbd.Keymap.Verify.Compose

/-!
# Reading what is printed for a code

What `print_keysym` prints is a word, a word after a plus sign, or nothing. Whether the code is read back
is a question about what the parser makes of this word: of a number, of a code point or of a name.
-/

namespace Kbd.Keymap

open Kbd.Lib

/-! ## Words -/

section Words

variable (ctx : LkCtx)

theorem lexValue_blanks {b : List Char} (hb : Blanks b) (fuel : Nat) :
    lexValue ctx (fuel + 2) b = [] := by
  have hnone : munch (rules .rvalue) [] = none := rfl
  by_cases hnil : b = []
  · rw [hnil, lexValue, hnone]
  · have hblank : munch (rules .rvalue) b = some (.blank, b.length) := by
      have hm := munch_rvalue_blanks hb hnil (s := []) (by simp [NoBlank])
      rwa [List.append_nil] at hm
    rw [lexValue_of_munch hblank, if_pos rfl, List.drop_length, lexValue, hnone]

/-- A blank before a text is left out. -/
theorem lexValue_blank_cons {s : List Char} (hs : NoBlank s) (fuel : Nat) :
    lexValue ctx (fuel + 1) (' ' :: s) = lexValue ctx fuel s := by
  have hblank : munch (rules .rvalue) (' ' :: s) = some (.blank, 1) :=
    munch_rvalue_blanks (blanks_replicate 1) (by simp) hs
  rw [lexValue_of_munch hblank, if_pos rfl, List.drop_one, List.tail_cons]

theorem lexValue_plus_cons (s : List Char) (fuel : Nat) :
    lexValue ctx (fuel + 1) ('+' :: s) = .plus :: lexValue ctx fuel s := by
  have hmunch : munch (rules .rvalue) ('+' :: s) = some (.token .plus, 1) := by
    have hhit : firstHit (advance (rules .rvalue) '+') [] = some (.token .plus) := rfl
    rw [munch_cons]
    cases s with
    | nil => rfl
    | cons c s =>
      have hnone : advance (advance (rules .rvalue) '+') c = [] := rfl
      have hmunch : munch ([] : List (Rule × Re Char)) s = none := by cases s <;> rfl
      rw [munch_cons, hnone, hmunch, hhit]
      rfl
  have hplus : wordToken ctx ['+'] (.token .plus) = .plus := rfl
  rw [lexValue_of_munch hmunch, if_neg (by decide), List.drop_one, List.tail_cons]
  exact congrArg (· :: _) hplus

/-- The last word of a value. -/
theorem lexValue_last {w b : List Char} {rule : Rule} (hb : Blanks b) (hrule : rule ≠ .blank)
    (h : munch (rules .rvalue) (w ++ b) = some (rule, w.length)) (fuel : Nat) :
    lexValue ctx (fuel + 3) (w ++ b) = [wordToken ctx w rule] := by
  rw [lexValue_of_munch h, if_neg hrule, List.take_left, List.drop_left,
    lexValue_blanks ctx hb fuel]

end Words

section Text

variable {ctx : LkCtx} {style : PrintStyle} {code : Int} {w b : List Char} {rule : Rule}
  (hb : Blanks b) (hrule : rule ≠ .blank)
  (hmunch : munch (rules .rvalue) (w ++ b) = some (rule, w.length))
  (hlen : 3 ≤ (w ++ b).length)

include hb hrule hmunch hlen

/-- Where a word is printed for a code. -/
theorem readsBack_of_word (hw : NoBlank (w ++ b))
    (htext : printKeysym ctx style code = ' ' :: (w ++ b)) :
    ReadsBack ctx style code ↔ rvalueOf ctx (wordToken ctx w rule) = some code := by
  obtain ⟨fuel, hfuel⟩ := Nat.exists_eq_add_of_le' hlen
  have hlex := lexValue_last ctx hb hrule hmunch fuel
  unfold ReadsBack
  rw [htext]
  dsimp only
  rw [List.length_cons, lexValue_blank_cons ctx hw, hfuel, hlex, valueOf]

/-- Where a word is printed after a plus sign. -/
theorem readsBack_of_plusWord (htext : printKeysym ctx style code = ' ' :: '+' :: (w ++ b)) :
    ReadsBack ctx style code ↔ plusRvalueOf ctx (wordToken ctx w rule) = some code := by
  obtain ⟨fuel, hfuel⟩ := Nat.exists_eq_add_of_le' hlen
  have hlex := lexValue_last ctx hb hrule hmunch fuel
  have hblank : NoBlank ('+' :: (w ++ b)) := noBlank_cons.mpr (by decide)
  unfold ReadsBack
  rw [htext]
  dsimp only
  rw [List.length_cons, lexValue_blank_cons ctx hblank, List.length_cons,
    lexValue_plus_cons, hfuel, hlex, valueOf]

end Text

/-! ## Numbers -/

/-- A code as a number. -/
def numberWord (n : Nat) : List Char := '0' :: 'x' :: fmt04X n

theorem length_numberWord {n : Nat} (hn : n < 65536) : (numberWord n).length = 6 := by
  rw [numberWord, fmt04X_eq hn]
  rfl

/-- A run of hexadecimal digits is matched to its end. -/
theorem munch_hexDigits {ds : List Char} (hds : ∀ d ∈ ds, d ∈ hexDigits) {s : List Char}
    (hs : EndsWord s) :
    munch [(Rule.number, Re.star hexDigit)] (ds ++ s) = some (.number, ds.length) := by
  induction ds with
  | nil =>
    obtain ⟨a, t, rfl, ha⟩ := hs
    rcases ha with rfl | rfl <;> exact munch_of_none_left rfl rfl t
  | cons d ds ih =>
    rw [List.forall_mem_cons] at hds
    have hadv : advance [(Rule.number, Re.star hexDigit)] d = [(.number, .star hexDigit)] := by
      simp only [advance, List.map_cons, List.map_nil, Re.deriv, deriv_hexDigit hds.1]
      rfl
    rw [List.cons_append, munch_cons, hadv, ih hds.2]
    rfl

theorem munch_numberWord {n : Nat} (hn : n < 65536) {s : List Char} (hs : EndsWord s) :
    munch (rules .rvalue) (numberWord n ++ s) = some (.number, (numberWord n).length) := by
  have hdigits : ∀ d ∈ [Nat.digitChar (n / 256 % 16), Nat.digitChar (n / 16 % 16),
      Nat.digitChar (n % 16)], d ∈ hexDigits := by
    simp only [List.forall_mem_cons, List.not_mem_nil, false_implies, implies_true, and_true]
    exact ⟨digitChar_mem (by omega), digitChar_mem (by omega), digitChar_mem (by omega)⟩
  have hx : advance (advance (rules .rvalue) '0') 'x' = [(.number, Re.plus hexDigit)] := rfl
  have hfirst : advance [(Rule.number, Re.plus hexDigit)] (Nat.digitChar (n / 4096)) =
      [(.number, .star hexDigit)] := by
    have hd := deriv_hexDigit (digitChar_mem (show n / 4096 < 16 by omega))
    simp only [advance, Re.plus, List.map_cons, List.map_nil, Re.deriv, hd]
    rfl
  rw [length_numberWord hn, numberWord, fmt04X_eq hn]
  simp only [List.cons_append, List.nil_append]
  rw [munch_cons, munch_cons, hx, munch_cons, hfirst]
  have hrest := munch_hexDigits hdigits hs
  simp only [List.cons_append, List.nil_append] at hrest
  rw [hrest]
  rfl

theorem wordToken_numberWord (ctx : LkCtx) {n : Nat} (hn : n < 65536) :
    wordToken ctx (numberWord n) .number = .number n := by
  have hstrtol : strtol 0 (numberWord n) = n := strtol_fmt04X hn
  have hint : parseInt (numberWord n) 0 = some (n : Int) := by
    unfold parseInt intMax
    rw [hstrtol, if_neg (by omega)]
  simp only [wordToken, lexAction, hint, Option.map_some, Option.getD_some]

/-- Where a code is printed as a number. -/
theorem readsBack_of_number {ctx : LkCtx} {style : PrintStyle} {n : Nat} (hn : n < 65536)
    (htext : printKeysym ctx style n = ' ' :: (numberWord n ++ List.replicate 10 ' ')) :
    ReadsBack ctx style n ↔ convertCode ctx n .toAuto = n := by
  have hlen : 3 ≤ (numberWord n ++ List.replicate 10 ' ').length := by
    rw [List.length_append, length_numberWord hn]
    omega
  rw [readsBack_of_word (blanks_replicate 10) (by decide)
    (munch_numberWord hn (endsWord_blank _)) hlen (noBlank_cons.mpr (by decide)) htext,
    wordToken_numberWord ctx hn, rvalueOf, Option.some_inj]

theorem readsBack_of_plusNumber {ctx : LkCtx} {style : PrintStyle} {n : Nat} (hn : n < 65536)
    (htext : printKeysym ctx style n = ' ' :: '+' :: (numberWord n ++ List.replicate 9 ' ')) :
    ReadsBack ctx style n ↔ addCapslock ctx n = n := by
  have hlen : 3 ≤ (numberWord n ++ List.replicate 9 ' ').length := by
    rw [List.length_append, length_numberWord hn]
    omega
  rw [readsBack_of_plusWord (blanks_replicate 9) (by decide)
    (munch_numberWord hn (endsWord_blank _)) hlen htext, wordToken_numberWord ctx hn, plusRvalueOf,
    Option.some_inj]

/-! ## Code points -/

theorem wordToken_unicode (ctx : LkCtx) {u : Nat} (hu : u < 65536) :
    wordToken ctx ('U' :: '+' :: fmt04X u) .unicode =
      if u < 0xf000 then .unumber u else .error := by
  have hint : parseInt ('+' :: fmt04X u) 16 = some (u : Int) := by
    unfold parseInt intMax
    rw [strtol_fmt04X hu, if_neg (by omega)]
  simp only [wordToken, lexAction, List.drop_one, List.tail_cons, hint, unicodeMask]
  split
  · rw [if_neg (by omega)]
    rfl
  · rw [if_pos (by omega)]
    rfl

/-- Where a code is printed as a code point. -/
theorem readsBack_of_unicode {ctx : LkCtx} {style : PrintStyle} {code : Int} {u : Nat} (hu : u < 65536)
    (htext : printKeysym ctx style code =
      ' ' :: ('U' :: '+' :: fmt04X u ++ List.replicate 10 ' ')) :
    ReadsBack ctx style code ↔ u < 0xf000 ∧ convertCode ctx (U u) .toAuto = code := by
  have hwordlen : ('U' :: '+' :: fmt04X u).length = 6 := by
    rw [fmt04X_eq hu]
    rfl
  have hmunch : munch (rules .rvalue) ('U' :: '+' :: fmt04X u ++ List.replicate 10 ' ') =
      some (.unicode, ('U' :: '+' :: fmt04X u).length) := by
    rw [hwordlen, fmt04X_eq hu]
    have hstart : LineStart [.rvalue] := Or.inr rfl
    exact munch_unicode hstart (digitChar_mem (by omega))
      (digitChar_mem (by omega)) (digitChar_mem (by omega)) (digitChar_mem (by omega))
      (endsWord_blank _)
  have hlen : 3 ≤ ('U' :: '+' :: fmt04X u ++ List.replicate 10 ' ').length := by
    rw [List.length_append, hwordlen]
    omega
  rw [readsBack_of_word (blanks_replicate 10) (by decide) hmunch hlen (noBlank_cons.mpr (by decide))
    htext, wordToken_unicode ctx hu]
  split
  · rename_i hlow
    rw [rvalueOf, Option.some_inj]
    exact (and_iff_right hlow).symm
  · rename_i hhigh
    exact iff_of_false (by simp [rvalueOf]) fun h => hhigh h.1

/-! ## Names -/

theorem wordToken_name {ctx : LkCtx} {w : List Char} {c : Int}
    (hcode : ksymtocode ctx w .toAuto = c) (hc : 0 ≤ c) : wordToken ctx w .literal = .literal c := by
  have hne : ¬ c = -1 := by omega
  simp only [wordToken, lexAction, newReader, hcode, hne, if_false, Option.getD_some]

section Name

variable {ctx : LkCtx} {style : PrintStyle} {code c : Int} {w : List Char} (hw : isName w = true)
  (hcode : ksymtocode ctx w .toAuto = c) (hc : 0 ≤ c)

include hw hcode hc

/-- Where a code is printed as a name. -/
theorem readsBack_of_name (htext : printKeysym ctx style code = ' ' :: fmtS 16 w) :
    ReadsBack ctx style code ↔ c = code := by
  have hpad : fmtS 16 w = w ++ List.replicate (16 - w.length) ' ' := rfl
  have hrest : ∀ d ∈ (List.replicate (16 - w.length) ' ').head?, d = ' ' ∨ d = '\n' := fun d hd =>
    Or.inl (List.eq_of_mem_replicate (List.mem_of_mem_head? hd))
  have hmunch := munch_name hw hrest
  have hlen : 3 ≤ (w ++ List.replicate (16 - w.length) ' ').length := by
    rw [List.length_append, List.length_replicate]
    omega
  have hblank : NoBlank (w ++ List.replicate (16 - w.length) ' ') := by
    intro d hd
    rw [List.head?_append_of_ne_nil w (isName_ne_nil hw)] at hd
    exact isName_noBlank hw d hd
  rw [readsBack_of_word (blanks_replicate _) (by decide) hmunch hlen hblank (hpad ▸ htext),
    wordToken_name hcode hc, rvalueOf, Option.some_inj]

/-- Where a code is printed as a name after a plus sign. -/
theorem readsBack_of_plusName (htext : printKeysym ctx style code = ' ' :: '+' :: fmtS 15 w) :
    ReadsBack ctx style code ↔ addCapslock ctx c = code := by
  have hpad : fmtS 15 w = w ++ List.replicate (15 - w.length) ' ' := rfl
  have hrest : ∀ d ∈ (List.replicate (15 - w.length) ' ').head?, d = ' ' ∨ d = '\n' := fun d hd =>
    Or.inl (List.eq_of_mem_replicate (List.mem_of_mem_head? hd))
  have hmunch := munch_name hw hrest
  have hlen : 3 ≤ (w ++ List.replicate (15 - w.length) ' ').length := by
    rw [List.length_append, List.length_replicate]
    omega
  rw [readsBack_of_plusWord (blanks_replicate _) (by decide) hmunch hlen (hpad ▸ htext),
    wordToken_name hcode hc, plusRvalueOf, Option.some_inj]

end Name

end Kbd.Keymap
