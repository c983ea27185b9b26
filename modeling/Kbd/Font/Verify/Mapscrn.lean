import Kbd.Font.Mapscrn
import Kbd.Font.Verify.Utf8
import Kbd.Font.Verify.Xtable
import Mathlib.Data.List.TakeWhile

/-!
# Reading screen maps

The comment at `parsemap` gives the notations of a column. Each of them is read as the number it
denotes, but for one: the byte between two quotes goes through a `char`, so one of the upper half
becomes negative, and the line is refused. A `U+` is looked for in the whole line, so one in a
comment counts as well. When no line is cut by the buffer, this is all that can go wrong.
-/

namespace Kbd.Font.Mapscrn

open Kbd.Keymap (bytes cstr digitVal digits)
open Kbd.Lib.Digits (value)

/-! ## The documented form -/

/-- The bytes of a character below `0x10000`. -/
def utf8 (u : Nat) : List Nat :=
  if u < 0x80 then [u]
  else if u < 0x800 then [0xc0 + u / 0x40, 0x80 + u % 0x40]
  else [0xe0 + u / 0x1000, 0x80 + u / 0x40 % 0x40, 0x80 + u % 0x40]

/-- A column, in one of its notations. -/
inductive Column where
  /-- `nnn` -/
  | decimal (ds : List Char)
  /-- `0nnn`, with the digits after the first -/
  | octal (ds : List Char)
  /-- `0xnnn` -/
  | hexadecimal (ds : List Char)
  /-- `U+xxxx` -/
  | unicode (ds : List Char)
  /-- `'x'`, a single byte -/
  | byte (b : Nat)
  /-- `'x'`, a character in UTF-8 -/
  | utf8 (u : Nat)
  deriving DecidableEq, Repr

namespace Column

def text : Column → List Char
  | decimal ds => ds
  | octal ds => '0' :: ds
  | hexadecimal ds => '0' :: 'x' :: ds
  | unicode ds => 'U' :: '+' :: ds
  | byte b => ['\x27', Char.ofNat b, '\x27']
  | utf8 u => '\x27' :: ((Mapscrn.utf8 u).map Char.ofNat ++ ['\x27'])

/-- The number that the column denotes. -/
def value : Column → Nat
  | decimal ds => digits 10 ds 0
  | octal ds => digits 8 ds 0
  | hexadecimal ds => digits 16 ds 0
  | unicode ds => digits 16 ds 0
  | byte b => b
  | utf8 u => u

/-- The notation of a code point. -/
def isUnicode : Column → Bool
  | unicode _ => true
  | _ => false

end Column

/-- The characters that may stand between quotes: "not space, tab, comma, #", nor the end of a line
or of a string. -/
def isQuotable (n : Nat) : Bool := !([0, 0x09, 0x0a, 0x20, 0x23, 0x2c].contains n)

/-- A column as the comment describes them. What is octal is not decimal. -/
def Column.Documented : Column → Prop
  | decimal ds => ds ≠ [] ∧ ds.all (isDigit 10) ∧ ¬ (ds.head? = some '0' ∧ ds.all (isDigit 8))
  | octal ds => ds.all (isDigit 8)
  | hexadecimal ds => ds ≠ [] ∧ ds.all (isDigit 16)
  | unicode ds => ds.length = 4 ∧ ds.all (isDigit 16)
  | byte b => b < 0x100 ∧ isQuotable b
  | utf8 u => u < 0x10000 ∧ isQuotable u

instance (c : Column) : Decidable c.Documented := by
  cases c <;> unfold Column.Documented <;> infer_instance

/-- The columns of a line, each with the blanks after it. -/
structure Entry where
  index : Column
  sep : List Char
  value : Column
  trail : List Char
  deriving DecidableEq, Repr

namespace Entry

def text (e : Entry) : List Char := e.index.text ++ (e.sep ++ (e.value.text ++ e.trail))

/-- A `U+` notation occurs. -/
def hasUnicode (e : Entry) : Bool := e.index.isUnicode || e.value.isUnicode

/-- Two columns, with an index and a value in their bounds. -/
structure Documented (e : Entry) : Prop where
  index : e.index.Documented
  value : e.value.Documented
  index_lt : e.index.value < 256
  value_lt : e.value.value < 65536
  sep : e.sep ≠ [] ∧ e.sep.all isBlank
  trail : e.trail.all isBlank

end Entry

/-- A line: two columns or none, and a comment or none. -/
structure MapLine where
  lead : List Char
  entry : Option Entry
  comment : Option (List Char)
  deriving DecidableEq, Repr

namespace MapLine

def commentText (l : MapLine) : List Char := l.comment.elim [] ('#' :: ·)

def text (l : MapLine) : List Char := l.lead ++ (l.entry.elim [] Entry.text ++ l.commentText)

structure Documented (l : MapLine) : Prop where
  lead : l.lead.all isBlank
  entry : ∀ e ∈ l.entry, e.Documented
  comment : ∀ c ∈ l.commentText, IsLineChar c

end MapLine

/-- The text of a file. After a last newline comes an empty line. -/
def fileText (lines : List MapLine) : List Char := ['\n'].intercalate (lines.map MapLine.text)

/-- The pairs that are listed. -/
def entries (lines : List MapLine) : List Entry := lines.filterMap MapLine.entry

/-- The value in the last line that lists an index. -/
def lastValue (i : Nat) (es : List Entry) : Option Nat :=
  ((es.filter fun e => e.index.value = i).getLast?).map fun e => e.value.value

/-- The maps that `parsemap` is to leave: in `ubuf` the last value of each index, in `buf` the last
small one. -/
structure Filled (buf ubuf : Vector Nat eTabsz) (lines : List MapLine) (m : MapState) : Prop where
  ubuf : ∀ i : Fin eTabsz, m.ubuf[i] = (lastValue i (entries lines)).getD ubuf[i]
  buf : ∀ i : Fin eTabsz,
    m.buf[i] = (lastValue i ((entries lines).filter fun e => e.value.value < 256)).getD buf[i]

/-- What a column may set `u` for: a value above 255, or a `U+` notation. -/
def NeedsUnicode (lines : List MapLine) : Prop :=
  (∃ e ∈ entries lines, 255 < e.value.value) ∨ ∃ e ∈ entries lines, e.hasUnicode = true

/-- All that `parsemap` is to leave of the lines. -/
structure Stored (buf ubuf : Vector Nat eTabsz) (u : Bool) (lines : List MapLine) (m : MapState) :
    Prop extends Filled buf ubuf lines m where
  u : m.u = true ↔ u = true ∨ NeedsUnicode lines

/-- `parsemap` succeeds on the lines, and stores what they list. -/
def Loads (buf ubuf : Vector Nat eTabsz) (u : Bool) (lines : List MapLine) : Prop :=
  ∃ m, parsemap (fileText lines) buf ubuf u = some m ∧ m.ret = 0 ∧ Stored buf ubuf u lines m

/-! ## Columns -/

/-- The characters of a column: neither delimiters of `strtok_r` nor the end of the string. -/
def isColumnChar (c : Char) : Bool := !(bytes " \t\n#").contains c && c ≠ '\x00'

theorem isColumnChar_iff {c : Char} : isColumnChar c = true ↔
    c ≠ ' ' ∧ c ≠ '\t' ∧ c ≠ '\n' ∧ c ≠ '#' ∧ c ≠ '\x00' := by
  have hdelim : bytes " \t\n#" = [' ', '\t', '\n', '#'] := rfl
  simp [isColumnChar, hdelim, and_assoc]

theorem isColumnChar_of_isDigit {base : Nat} {c : Char} (h : isDigit base c = true) :
    isColumnChar c = true := by
  rw [isColumnChar_iff]
  refine ⟨?_, ?_, ?_, ?_, ?_⟩ <;> rintro rfl <;> cases h

theorem toNat_ofNat {n : Nat} (h : n < 256) : (Char.ofNat n).toNat = n := by
  have hvalid : n.isValidChar := .inl (by omega)
  rw [Char.ofNat, dif_pos hvalid]
  rfl

theorem isColumnChar_ofNat {n : Nat} (h : n < 256) (hq : isQuotable n = true) :
    isColumnChar (Char.ofNat n) = true := by
  have hne {k : Nat} (hk : k ∈ [0, 0x09, 0x0a, 0x20, 0x23, 0x2c]) (hk256 : k < 256) :
      Char.ofNat n ≠ Char.ofNat k := by
    intro heq
    have hnk : n = k := by
      rw [← toNat_ofNat h, heq, toNat_ofNat hk256]
    subst hnk
    simp [isQuotable] at hq hk
    omega
  rw [isColumnChar_iff]
  exact ⟨hne (k := 0x20) (by simp) (by decide), hne (k := 0x09) (by simp) (by decide),
    hne (k := 0x0a) (by simp) (by decide), hne (k := 0x23) (by simp) (by decide),
    hne (k := 0) (by simp) (by decide)⟩

/-- The bytes of a character are bytes, of the upper half when there are several. -/
theorem utf8_spec {u : Nat} (hu : u < 0x10000) (hq : isQuotable u = true) :
    ∀ b ∈ utf8 u, b < 256 ∧ isQuotable b = true := by
  have hhigh {b : Nat} (hb : 0x80 ≤ b) : isQuotable b = true := by
    simp [isQuotable]
    omega
  intro b hb
  unfold utf8 at hb
  split at hb
  · obtain rfl := List.mem_singleton.mp hb
    exact ⟨by omega, hq⟩
  · split at hb
    · simp only [List.mem_cons, List.not_mem_nil, or_false] at hb
      rcases hb with rfl | rfl <;> exact ⟨by omega, hhigh (by omega)⟩
    · simp only [List.mem_cons, List.not_mem_nil, or_false] at hb
      rcases hb with rfl | rfl | rfl <;> exact ⟨by omega, hhigh (by omega)⟩

theorem Column.Documented.isColumnChar {c : Column} (h : c.Documented) :
    ∀ d ∈ c.text, isColumnChar d = true := by
  have hdigits {base : Nat} {ds : List Char} (hds : ds.all (isDigit base) = true) :
      ∀ d ∈ ds, Mapscrn.isColumnChar d = true :=
    fun d hd => isColumnChar_of_isDigit (List.all_eq_true.mp hds d hd)
  cases c with
  | decimal ds => exact hdigits h.2.1
  | octal ds => exact List.forall_mem_cons.mpr ⟨by decide, hdigits h⟩
  | hexadecimal ds =>
    exact List.forall_mem_cons.mpr ⟨by decide, List.forall_mem_cons.mpr ⟨by decide, hdigits h.2⟩⟩
  | unicode ds =>
    exact List.forall_mem_cons.mpr ⟨by decide, List.forall_mem_cons.mpr ⟨by decide, hdigits h.2⟩⟩
  | byte b =>
    intro d hd
    simp only [text, List.mem_cons, List.not_mem_nil, or_false] at hd
    rcases hd with rfl | rfl | rfl
    · decide
    · exact isColumnChar_ofNat h.1 h.2
    · decide
  | utf8 u =>
    intro d hd
    simp only [text, List.mem_cons, List.mem_append, List.mem_map, List.not_mem_nil, or_false] at hd
    rcases hd with rfl | ⟨b, hb, rfl⟩ | rfl
    · decide
    · obtain ⟨hlt, hq⟩ := utf8_spec h.1 h.2 b hb
      exact isColumnChar_ofNat hlt hq
    · decide

theorem Column.Documented.text_ne_nil {c : Column} (h : c.Documented) : c.text ≠ [] := by
  cases c with
  | decimal ds => exact h.1
  | _ => exact List.cons_ne_nil _ _

/-! ## What `ctoi` returns -/

/-- A column that `ctoi` reads as a negative number. -/
def Column.isNegative : Column → Bool
  | byte b => 0x80 ≤ b
  | _ => false

/-- The number that `ctoi` makes of a column. -/
def Column.read (c : Column) : Int := if c.isNegative then (c.value : Int) - 0x100 else c.value

theorem Column.read_eq {c : Column} (h : c.isNegative = false) : c.read = c.value := by
  rw [read, h]
  rfl

theorem Column.Documented.read_lt {c : Column} (hc : c.Documented) (h : c.isNegative = true) :
    c.read < 0 := by
  rw [read, if_pos h]
  cases c with
  | byte b =>
    have hb : b < 0x100 := hc.1
    simp only [value]
    omega
  | _ => cases h

theorem toInt_of_lt {n : Nat} (h : n < 65536) : toInt n = n := by
  unfold toInt
  rw [if_pos (by omega)]

theorem scanUnsigned_eq {base : Nat} {s : List Char} (hs : s ≠ []) (h : digits base s 0 < 65536) :
    scanUnsigned base s = some ((digits base s 0 : Nat) : Int) := by
  have hnot : ¬ (s = [] ∨ 2 ^ 32 ≤ digits base s 0) := by
    rintro (h0 | hbig)
    · exact hs h0
    · omega
  rw [scanUnsigned, if_neg hnot, toInt_of_lt h]

theorem scanSigned_eq {s : List Char} (hs : s ≠ []) (h : digits 10 s 0 < 65536) :
    scanSigned s = some ((digits 10 s 0 : Nat) : Int) := by
  have hnot : ¬ (s = [] ∨ 2 ^ 31 ≤ digits 10 s 0) := by
    rintro (h0 | hbig)
    · exact hs h0
    · omega
  rw [scanSigned, if_neg hnot]

/-- Decimal digits do not begin with `0x`. -/
theorem not_hexPrefix {ds : List Char} (h : ds.all (isDigit 10) = true) :
    (bytes "0x").isPrefixOf ds = false := by
  have hx : bytes "0x" = ['0', 'x'] := rfl
  rw [hx]
  rcases ds with - | ⟨a, - | ⟨b, ds⟩⟩
  · rfl
  · simp [List.isPrefixOf]
  · have hb : isDigit 10 b = true := by simp_all
    have hne : b ≠ 'x' := by
      rintro rfl
      cases hb
    simp [List.isPrefixOf, hne.symm]

theorem isDigit_mono {b b' : Nat} {c : Char} (hb : b ≤ b') (h : isDigit b c = true) :
    isDigit b' c = true := by
  unfold isDigit at *
  cases hv : digitVal c with
  | none =>
    rw [hv] at h
    cases h
  | some d =>
    rw [hv] at h
    simp at h ⊢
    omega

/-- What begins with a quote is none of the numbers. -/
theorem ctoi_quote (s : List Char) :
    ctoi ('\x27' :: s) =
      if s.length = 2 && s[1]? = some '\x27' then s[0]?.map signedChar else quotedUtf8 s := by
  have hx : bytes "0x" = ['0', 'x'] := rfl
  have hu : bytes "U+" = ['U', '+'] := rfl
  have hdigit : isDigit 10 '\x27' = false := by decide
  simp [ctoi, hx, hu, hdigit, List.isPrefixOf]

/-- Several bytes between quotes are read as UTF-8. -/
theorem quotedUtf8_utf8 {u : Nat} (hlo : 0x80 ≤ u) (hu : u < 0x10000) :
    quotedUtf8 ((utf8 u).map Char.ofNat ++ ['\x27']) = some (u : Int) := by
  have hof {n : Nat} (h : n < 256) : UInt8.ofNat (Char.ofNat n).toNat = UInt8.ofNat n := by
    rw [toNat_ofNat h]
  -- the same for two bytes and for three
  have hread (k : Nat) (hk1 : 1 ≤ k) (hk2 : k ≤ 2) (x : Nat) (hx : x < 2 ^ (6 - k)) (ds : List Nat)
      (hlen : ds.length = k) (hds : ∀ d ∈ ds, d < 64) (hval : value 64 x ds = u)
      (hbytes : utf8 u = leadByte (6 - k) x :: ds.map (0x80 + ·)) :
      fromUtf8 (((utf8 u).map Char.ofNat ++ ['\x27']).map fun c => UInt8.ofNat c.toNat) =
        .ok (u, [0x27]) := by
    have hlead := fromUtf8_lead hk1 (by omega) hx hlen hds (by omega) [0x27]
    rw [hval] at hlead
    rw [← hlead, hbytes]
    have hb : leadByte (6 - k) x < 256 := by
      obtain ⟨-, hlt, -⟩ := leadByte_spec (6 - k) (by omega) (by omega) x hx
      omega
    have hcont : (ds.map fun d => UInt8.ofNat (Char.ofNat (0x80 + d)).toNat) = ds.map contByte := by
      apply List.map_congr_left
      intro d hd
      have := hds d hd
      rw [hof (by omega), contByte]
    simp only [List.map_cons, List.map_append, List.map_map, Function.comp_def, hof hb, hcont,
      List.cons_append]
    rfl
  have hfrom : fromUtf8 (((utf8 u).map Char.ofNat ++ ['\x27']).map fun c => UInt8.ofNat c.toNat) =
      .ok (u, [0x27]) := by
    by_cases h2 : u < 0x800
    · apply hread 1 (by omega) (by omega) (u / 0x40) (by omega) [u % 0x40] rfl
      · intro d hd
        rw [List.mem_singleton.mp hd]
        omega
      · simp only [Kbd.Lib.Digits.value_cons, Kbd.Lib.Digits.value_nil]
        omega
      · simp [utf8, Nat.not_lt.mpr hlo, h2, leadByte]
    · apply hread 2 (by omega) (by omega) (u / 0x1000) (by omega) [u / 0x40 % 0x40, u % 0x40] rfl
      · intro d hd
        simp only [List.mem_cons, List.not_mem_nil, or_false] at hd
        omega
      · simp only [Kbd.Lib.Digits.value_cons, Kbd.Lib.Digits.value_nil]
        omega
      · simp [utf8, Nat.not_lt.mpr hlo, h2, leadByte]
  rw [quotedUtf8, if_neg (by simp), hfrom]
  simp [toInt_of_lt hu]

theorem length_utf8 {u : Nat} (hlo : 0x80 ≤ u) : 2 ≤ (utf8 u).length := by
  unfold utf8
  split
  · omega
  · split <;> simp

/-- A column is read as its number, and the byte of the upper half as the number less 256. -/
theorem ctoi_text {c : Column} (h : c.Documented) (hlt : c.value < 65536) :
    ctoi c.text = some c.read := by
  cases c with
  | decimal ds =>
    obtain ⟨hne, hds, hnot⟩ := h
    have hhex : ¬ ((bytes "0x").isPrefixOf ds && (ds.drop 2).all (isDigit 16)) = true := by
      rw [not_hexPrefix hds]
      exact Bool.false_ne_true
    have hoct : ¬ (decide (ds.head? = some '0') && ds.all (isDigit 8)) = true := by
      simpa using hnot
    rw [Column.text, ctoi, if_neg hhex, if_neg hoct, if_pos hds]
    exact scanSigned_eq hne hlt
  | octal ds =>
    have h10 : ('0' :: ds).all (isDigit 10) = true := by
      refine List.all_eq_true.mpr (List.forall_mem_cons.mpr ⟨by decide, fun d hd => ?_⟩)
      exact isDigit_mono (by omega) (List.all_eq_true.mp h d hd)
    have h8 : ('0' :: ds).all (isDigit 8) = true := by
      rw [List.all_cons, show isDigit 8 '0' = true by decide]
      exact h
    have hval : digits 8 ('0' :: ds) 0 = digits 8 ds 0 := rfl
    simp only [Column.text, ctoi, not_hexPrefix h10, h8, Bool.false_and, List.head?_cons]
    exact scanUnsigned_eq (s := '0' :: ds) (List.cons_ne_nil _ _) hlt
  | hexadecimal ds =>
    obtain ⟨hne, hds⟩ := h
    have hpre : (bytes "0x").isPrefixOf ('0' :: 'x' :: ds) = true := rfl
    simp only [Column.text, ctoi, hpre, List.drop_succ_cons, List.drop_zero, hds]
    exact scanUnsigned_eq hne hlt
  | unicode ds =>
    obtain ⟨hlen, hds⟩ := h
    have hne : ds ≠ [] := List.ne_nil_of_length_eq_add_one hlen
    have hx : (bytes "0x").isPrefixOf ('U' :: '+' :: ds) = false := rfl
    have hpre : (bytes "U+").isPrefixOf ('U' :: '+' :: ds) = true := rfl
    have hdec : ('U' :: '+' :: ds).all (isDigit 10) = false := rfl
    simp only [Column.text, ctoi, hx, hpre, hdec, List.drop_succ_cons, List.drop_zero, hds,
      List.length_cons, hlen, Bool.false_and]
    exact scanUnsigned_eq hne hlt
  | byte b =>
    rw [Column.text, ctoi_quote]
    simp only [List.length_cons, List.length_nil, List.getElem?_cons_succ, List.getElem?_cons_zero,
      Option.map_some, signedChar, toNat_ofNat h.1, Column.read, Column.isNegative, Column.value]
    by_cases hb : b < 0x80
    · simp [hb]
    · simp [hb, Nat.not_lt.mp hb]
  | utf8 u =>
    rw [Column.text, ctoi_quote]
    by_cases hlo : 0x80 ≤ u
    · have hlen := length_utf8 hlo
      have hnot : ((utf8 u).map Char.ofNat ++ ['\x27']).length ≠ 2 := by
        simp
        omega
      simp only [hnot, decide_false, Bool.false_and]
      exact quotedUtf8_utf8 hlo h.1
    · have hu : u < 0x80 := Nat.not_le.mp hlo
      have hone : utf8 u = [u] := if_pos hu
      have hnat : (Char.ofNat u).toNat = u := toNat_ofNat (by omega)
      simp [hone, signedChar, hnat, hu, Column.read, Column.isNegative, Column.value]

/-! ## Tokens -/

theorem contains_of_isBlank {c : Char} (h : isBlank c = true) :
    (bytes " \t\n").contains c = true ∧ (bytes " \t\n#").contains c = true := by
  simp only [isBlank, Bool.or_eq_true, decide_eq_true_eq] at h
  rcases h with rfl | rfl <;> decide

theorem not_contains_of_isColumnChar {c : Char} (h : isColumnChar c = true) :
    (bytes " \t\n").contains c = false ∧ (bytes " \t\n#").contains c = false := by
  have hdelim : bytes " \t\n" = [' ', '\t', '\n'] := rfl
  have hdelim' : bytes " \t\n#" = [' ', '\t', '\n', '#'] := rfl
  rw [isColumnChar_iff] at h
  simp [hdelim, hdelim', h]

theorem strtok_eq_none {delim b : List Char} (hb : ∀ c ∈ b, delim.contains c = true) :
    strtok delim b = none := by
  simp only [strtok, List.dropWhile_eq_nil_iff.mpr hb, if_true]

/-- The first token of a text: it ends before a delimiter, or with the text. -/
theorem strtok_token {delim b tok rest : List Char} (hb : ∀ c ∈ b, delim.contains c = true)
    (hne : tok ≠ []) (htok : ∀ c ∈ tok, delim.contains c = false)
    (hrest : ∀ c ∈ rest.head?, delim.contains c = true) :
    strtok delim (b ++ (tok ++ rest)) = some (tok, rest.drop 1) := by
  obtain ⟨a, tok', rfl⟩ := List.exists_cons_of_ne_nil hne
  have hskip : (b ++ (a :: tok' ++ rest)).dropWhile delim.contains = a :: tok' ++ rest := by
    rw [List.dropWhile_append_of_pos hb, List.cons_append, List.dropWhile_cons_of_neg]
    rw [htok a List.mem_cons_self]
    exact Bool.false_ne_true
  have hnot : ∀ c ∈ a :: tok', (!delim.contains c) = true := fun c hc => by
    rw [htok c hc]
    rfl
  have htake : rest.takeWhile (!delim.contains ·) = [] := by
    cases rest with
    | nil => rfl
    | cons c rest => rw [List.takeWhile_cons_of_neg (by rw [hrest c rfl]; exact Bool.false_ne_true)]
  have hdrop : rest.dropWhile (!delim.contains ·) = rest := by
    cases rest with
    | nil => rfl
    | cons c rest => rw [List.dropWhile_cons_of_neg (by rw [hrest c rfl]; exact Bool.false_ne_true)]
  simp only [strtok, hskip]
  rw [if_neg (by simp), List.takeWhile_append_of_pos hnot, List.dropWhile_append_of_pos hnot, htake,
    hdrop, List.append_nil]

/-! ## A line -/

/-- The state after the common part of a line. -/
def MapState.next (m : MapState) (buffer : List Char) : MapState :=
  { m with ln := m.ln + 1, u := m.u || decide (bytes "U+" <:+: buffer) }

/-- The end of a line, which the last one may lack. -/
def IsEol (eol : List Char) : Prop := eol = [] ∨ eol = ['\n']

theorem IsEol.contains {eol : List Char} (h : IsEol eol) :
    ∀ c ∈ eol, (bytes " \t\n").contains c = true := by
  rcases h with rfl | rfl
  · exact fun c hc => absurd hc List.not_mem_nil
  · intro c hc
    obtain rfl := List.mem_singleton.mp hc
    rfl

/-- A line without columns only counts. -/
theorem parseLine_of_none {m : MapState} {l : MapLine} {eol : List Char} (hl : l.Documented)
    (he : l.entry = none) (heol : IsEol eol) :
    parseLine m (l.text ++ eol) = some (m.next (l.text ++ eol)) := by
  have hlead : ∀ c ∈ l.lead, (bytes " \t\n").contains c = true :=
    fun c hc => (contains_of_isBlank (List.all_eq_true.mp hl.lead c hc)).1
  rcases hc : l.comment with - | com
  · -- nothing but blanks
    have htext : l.text ++ eol = l.lead ++ eol := by
      simp [MapLine.text, MapLine.commentText, he, hc]
    have hnone : strtok (bytes " \t\n") (l.text ++ eol) = none := by
      rw [htext]
      exact strtok_eq_none (List.forall_mem_append.mpr ⟨hlead, heol.contains⟩)
    simp only [parseLine, hnone]
    rfl
  · -- the first token begins the comment
    have htext : l.text ++ eol = l.lead ++ '#' :: (com ++ eol) := by
      simp [MapLine.text, MapLine.commentText, he, hc]
    have hsome : strtok (bytes " \t\n") (l.text ++ eol) =
        some ('#' :: (com ++ eol).takeWhile (!(bytes " \t\n").contains ·),
          ((com ++ eol).dropWhile (!(bytes " \t\n").contains ·)).drop 1) := by
      have hsplit : '#' :: (com ++ eol) =
          '#' :: (com ++ eol).takeWhile (!(bytes " \t\n").contains ·) ++
            (com ++ eol).dropWhile (!(bytes " \t\n").contains ·) := by
        rw [List.cons_append, List.takeWhile_append_dropWhile]
      rw [htext, hsplit]
      apply strtok_token hlead (List.cons_ne_nil _ _)
      · refine List.forall_mem_cons.mpr ⟨rfl, fun c hc => ?_⟩
        simpa using List.mem_takeWhile_imp hc
      · intro c hc
        have := List.head?_dropWhile_not (!(bytes " \t\n").contains ·) (com ++ eol)
        rw [Option.mem_def.mp hc] at this
        simpa using this
    simp only [parseLine, hsome]
    rfl

/-- A pair that cannot be stored. -/
def Entry.isNegative (e : Entry) : Bool := e.index.isNegative || e.value.isNegative

/-- What the two columns of a line make of the state. -/
def Entry.apply (e : Entry) (m : MapState) : MapState :=
  if e.isNegative then m.fail else m.store e.index.value e.value.value

/-- A line with two columns is read as the two numbers. -/
theorem parseLine_of_entry {m : MapState} {l : MapLine} {e : Entry} {eol : List Char}
    (hl : l.Documented) (he : l.entry = some e) (heol : IsEol eol) :
    parseLine m (l.text ++ eol) = some (e.apply (m.next (l.text ++ eol))) := by
  have hdoc := hl.entry e he
  have hlead : ∀ c ∈ l.lead, (bytes " \t\n").contains c = true :=
    fun c hc => (contains_of_isBlank (List.all_eq_true.mp hl.lead c hc)).1
  obtain ⟨s, sep, hsep⟩ := List.exists_cons_of_ne_nil hdoc.sep.1
  have hblank : ∀ c ∈ s :: sep, isBlank c = true := by
    rw [← hsep]
    exact List.all_eq_true.mp hdoc.sep.2
  -- the first token
  have htext : l.text ++ eol = l.lead ++ (e.index.text ++
      (s :: (sep ++ (e.value.text ++ (e.trail ++ (l.commentText ++ eol)))))) := by
    simp [MapLine.text, Entry.text, he, hsep]
  have hindex : strtok (bytes " \t\n") (l.text ++ eol) =
      some (e.index.text, sep ++ (e.value.text ++ (e.trail ++ (l.commentText ++ eol)))) := by
    rw [htext]
    apply strtok_token hlead hdoc.index.text_ne_nil
    · exact fun c hc => (not_contains_of_isColumnChar (hdoc.index.isColumnChar c hc)).1
    · intro c hc
      obtain rfl := Option.some.inj hc
      exact (contains_of_isBlank (hblank _ List.mem_cons_self)).1
  have hhash : e.index.text.head? ≠ some '#' := by
    intro hh
    have := hdoc.index.isColumnChar '#' (List.mem_of_head? hh)
    cases this
  -- the second token
  have hvalue :
      strtok (bytes " \t\n#") (sep ++ (e.value.text ++ (e.trail ++ (l.commentText ++ eol)))) =
        some (e.value.text, (e.trail ++ (l.commentText ++ eol)).drop 1) := by
    apply strtok_token
    · exact fun c hc => (contains_of_isBlank (hblank c (List.mem_cons_of_mem _ hc))).2
    · exact hdoc.value.text_ne_nil
    · exact fun c hc => (not_contains_of_isColumnChar (hdoc.value.isColumnChar c hc)).2
    · -- a blank, a comment or the end of the line
      rcases htrail : e.trail with - | ⟨t, trail⟩
      · rcases hcom : l.comment with - | com
        · rw [MapLine.commentText, hcom]
          intro c hc
          rcases heol with rfl | rfl
          · cases hc
          · obtain rfl : '\n' = c := by simpa using hc
            rfl
        · intro c hc
          obtain rfl : '#' = c := by simpa [MapLine.commentText, hcom] using hc
          decide
      · intro c hc
        obtain rfl := Option.some.inj hc
        refine (contains_of_isBlank (List.all_eq_true.mp hdoc.trail _ ?_)).2
        rw [htrail]
        exact List.mem_cons_self
  have hi := ctoi_text hdoc.index (by have := hdoc.index_lt; omega)
  have ho := ctoi_text hdoc.value hdoc.value_lt
  have hilt := hdoc.index_lt
  have holt := hdoc.value_lt
  simp only [parseLine, hindex, hhash, if_false, hvalue, hi, ho, Option.bind_eq_bind,
    Option.bind_some]
  -- the columns are within their bounds unless one is negative
  rcases hineg : e.index.isNegative with - | -
  · rcases honeg : e.value.isNegative with - | -
    · rw [Column.read_eq hineg, Column.read_eq honeg, if_pos (by omega)]
      simp [Entry.apply, Entry.isNegative, hineg, honeg, MapState.next]
    · have hneg := hdoc.value.read_lt honeg
      rw [if_neg (by omega)]
      simp [Entry.apply, Entry.isNegative, honeg, MapState.next]
  · have hneg := hdoc.index.read_lt hineg
    rw [if_neg (by omega)]
    simp [Entry.apply, Entry.isNegative, hineg, MapState.next]

/-! ## `U+` in a line -/

theorem holdsUnicode_cons {c : Char} {s : List Char} :
    bytes "U+" <:+: c :: s ↔ (c = 'U' ∧ s.head? = some '+') ∨ bytes "U+" <:+: s := by
  have hu : bytes "U+" = ['U', '+'] := rfl
  rw [hu, List.infix_cons_iff, List.cons_prefix_cons, eq_comm (a := c)]
  refine or_congr_left (and_congr_right fun _ => ?_)
  cases s with
  | nil => simp
  | cons d s => simp [List.cons_prefix_cons, eq_comm]

/-- Without a `U` it is in what follows. -/
theorem holdsUnicode_append {s : List Char} (hs : ∀ c ∈ s, c ≠ 'U') (t : List Char) :
    bytes "U+" <:+: s ++ t ↔ bytes "U+" <:+: t := by
  induction s with
  | nil => rfl
  | cons c s ih =>
    rw [List.forall_mem_cons] at hs
    rw [List.cons_append, holdsUnicode_cons, ih hs.2, or_iff_right]
    exact fun h => hs.1 h.1

theorem ne_of_isDigit {base : Nat} {ds : List Char} (h : ds.all (isDigit base) = true) :
    ∀ c ∈ ds, c ≠ 'U' := by
  rintro c hc rfl
  have hdigit := List.all_eq_true.mp h 'U' hc
  cases hdigit

/-- In a column it is the notation of that name: nothing else has a `+`. -/
theorem Column.Documented.holdsUnicode {c : Column} (h : c.Documented) (t : List Char) :
    bytes "U+" <:+: c.text ++ t ↔ c.isUnicode = true ∨ bytes "U+" <:+: t := by
  -- one character between two quotes
  have hquoted (d : Char) :
      bytes "U+" <:+: '\x27' :: d :: '\x27' :: t ↔ bytes "U+" <:+: t := by
    rw [holdsUnicode_cons, or_iff_right (fun hd => absurd hd.1 (by decide)), holdsUnicode_cons,
      or_iff_right (fun hd => absurd (Option.some.inj hd.2) (by decide)), holdsUnicode_cons,
      or_iff_right (fun hd => absurd hd.1 (by decide))]
  cases c with
  | unicode ds =>
    exact iff_of_true (List.infix_append_of_infix_left ⟨[], ds, rfl⟩) (Or.inl rfl)
  | decimal ds =>
    rw [text, holdsUnicode_append (ne_of_isDigit h.2.1)]
    simp [isUnicode]
  | octal ds =>
    rw [text, holdsUnicode_append (List.forall_mem_cons.mpr ⟨by decide, ne_of_isDigit h⟩)]
    simp [isUnicode]
  | hexadecimal ds =>
    rw [text, holdsUnicode_append (List.forall_mem_cons.mpr ⟨by decide,
      List.forall_mem_cons.mpr ⟨by decide, ne_of_isDigit h.2⟩⟩)]
    simp [isUnicode]
  | byte b =>
    refine (hquoted _).trans ?_
    simp [isUnicode]
  | utf8 u =>
    by_cases hlo : u < 0x80
    · have hone : Mapscrn.utf8 u = [u] := if_pos hlo
      rw [text, hone]
      refine (hquoted _).trans ?_
      simp [isUnicode]
    · rw [text, holdsUnicode_append]
      · simp [isUnicode]
      · refine List.forall_mem_cons.mpr ⟨by decide, List.forall_mem_append.mpr ⟨?_, by simp⟩⟩
        intro d hd heq
        obtain ⟨b, hb, rfl⟩ := List.mem_map.mp hd
        have hlt := (utf8_spec h.1 h.2 b hb).1
        have hhigh : 0x80 ≤ b := by
          unfold Mapscrn.utf8 at hb
          rw [if_neg hlo] at hb
          split at hb <;> simp at hb <;> omega
        have hnat := congrArg Char.toNat heq
        rw [toNat_ofNat hlt] at hnat
        have : 'U'.toNat = 0x55 := rfl
        omega

theorem ne_of_isBlank {s : List Char} (h : s.all isBlank = true) : ∀ c ∈ s, c ≠ 'U' := by
  rintro c hc rfl
  have hblank := List.all_eq_true.mp h 'U' hc
  cases hblank

/-- In a line it is a notation, or it is in the comment. -/
theorem MapLine.Documented.holdsUnicode {l : MapLine} (hl : l.Documented) :
    bytes "U+" <:+: l.text ↔
      (∃ e ∈ l.entry, e.hasUnicode = true) ∨ bytes "U+" <:+: l.commentText := by
  rw [MapLine.text, holdsUnicode_append (ne_of_isBlank hl.lead)]
  rcases he : l.entry with - | e
  · simp
  · have hdoc := hl.entry e he
    simp only [Option.elim_some, Entry.text, List.append_assoc]
    rw [hdoc.index.holdsUnicode, holdsUnicode_append (ne_of_isBlank hdoc.sep.2),
      hdoc.value.holdsUnicode, holdsUnicode_append (ne_of_isBlank hdoc.trail)]
    simp [Entry.hasUnicode, or_assoc]

/-- So it is in a file. -/
theorem holdsUnicode_lines {lines : List MapLine} (hdoc : ∀ l ∈ lines, l.Documented) :
    (∃ l ∈ lines, bytes "U+" <:+: l.text) ↔ (∃ e ∈ entries lines, e.hasUnicode = true) ∨
      ∃ l ∈ lines, bytes "U+" <:+: l.commentText := by
  have hline : (∃ l ∈ lines, bytes "U+" <:+: l.text) ↔ ∃ l ∈ lines,
      (∃ e ∈ l.entry, e.hasUnicode = true) ∨ bytes "U+" <:+: l.commentText :=
    exists_congr fun l => and_congr_right fun hl => (hdoc l hl).holdsUnicode
  rw [hline]
  simp only [entries, List.mem_filterMap, Option.mem_def]
  constructor
  · rintro ⟨l, hl, ⟨e, he, hu⟩ | hcom⟩
    · exact Or.inl ⟨e, ⟨l, hl, he⟩, hu⟩
    · exact Or.inr ⟨l, hl, hcom⟩
  · rintro (⟨e, ⟨l, hl, he⟩, hu⟩ | ⟨l, hl, hcom⟩)
    · exact ⟨l, hl, Or.inl ⟨e, he, hu⟩⟩
    · exact ⟨l, hl, Or.inr hcom⟩

/-! ## A file -/

/-- The lines that have been read, and the state after them: `u` is set for a `U+` anywhere. -/
structure Reads (buf ubuf : Vector Nat eTabsz) (u : Bool) (done : List MapLine) (m : MapState) :
    Prop where
  ret : m.ret = 0 ↔ ∀ e ∈ entries done, e.isNegative = false
  filled : (∀ e ∈ entries done, e.isNegative = false) → Filled buf ubuf done m
  u : (∀ e ∈ entries done, e.isNegative = false) →
    (m.u = true ↔ u = true ∨ (∃ e ∈ entries done, 255 < e.value.value) ∨
      ∃ l ∈ done, bytes "U+" <:+: l.text)

section Run

variable {buf ubuf : Vector Nat eTabsz} {u : Bool} {done : List MapLine} {m : MapState}

theorem lastValue_concat (i : Nat) (es : List Entry) (e : Entry) :
    lastValue i (es ++ [e]) = if e.index.value = i then some e.value.value else lastValue i es := by
  unfold lastValue
  by_cases h : e.index.value = i
  · simp [List.filter_append, h]
  · simp [List.filter_append, h]

theorem infix_append_eol {s eol : List Char} (heol : IsEol eol) :
    bytes "U+" <:+: s ++ eol ↔ bytes "U+" <:+: s := by
  have hu : bytes "U+" = ['U', '+'] := rfl
  rcases heol with rfl | rfl
  · rw [List.append_nil]
  · rw [List.infix_concat_iff, List.suffix_concat_iff, hu, or_iff_right]
    rintro (h | ⟨t, ht, -⟩)
    · cases h
    · have := congrArg List.getLast? ht
      simp at this

/-- The common part of a line sets `u` for a `U+` in it. -/
theorem next_u (m : MapState) (l : MapLine) {eol : List Char} (heol : IsEol eol) :
    (m.next (l.text ++ eol)).u = true ↔ m.u = true ∨ bytes "U+" <:+: l.text := by
  simp only [MapState.next, Bool.or_eq_true, decide_eq_true_eq, infix_append_eol heol]

/-- A line without columns. -/
theorem Reads.line_of_none (h : Reads buf ubuf u done m) {l : MapLine} {eol : List Char}
    (he : l.entry = none) (heol : IsEol eol) :
    Reads buf ubuf u (done ++ [l]) (m.next (l.text ++ eol)) := by
  have hentries : entries (done ++ [l]) = entries done := by simp [entries, he]
  refine ⟨?_, ?_, ?_⟩
  · rw [hentries]
    exact h.ret
  · rw [hentries]
    intro hall
    obtain ⟨hubuf, hbuf⟩ := h.filled hall
    constructor
    · rw [hentries]
      exact hubuf
    · rw [hentries]
      exact hbuf
  · rw [hentries]
    intro hall
    rw [next_u m l heol, h.u hall]
    simp [List.mem_append, or_and_right, exists_or, or_assoc]

/-- What is stored last is the last value. -/
theorem setIfInBounds_eq_lastValue {map map₀ : Vector Nat eTabsz} {es : List Entry}
    (h : ∀ i : Fin eTabsz, map[i] = (lastValue i es).getD map₀[i]) (e : Entry) (i : Fin eTabsz) :
    (map.setIfInBounds e.index.value e.value.value)[i] =
      (lastValue i (es ++ [e])).getD map₀[i] := by
  have hget : (map.setIfInBounds e.index.value e.value.value)[i] =
      if e.index.value = i then e.value.value else map[i] := Vector.getElem_setIfInBounds i.isLt
  rw [hget, lastValue_concat, h i]
  split <;> rfl

/-- A line with two columns. -/
theorem Reads.line_of_entry (h : Reads buf ubuf u done m) {l : MapLine} {e : Entry}
    {eol : List Char} (he : l.entry = some e) (heol : IsEol eol) :
    Reads buf ubuf u (done ++ [l]) (e.apply (m.next (l.text ++ eol))) := by
  have hentries : entries (done ++ [l]) = entries done ++ [e] := by simp [entries, he]
  rcases hneg : e.isNegative with - | -
  · rw [Entry.apply, hneg, if_neg Bool.false_ne_true]
    have hall : (∀ e' ∈ entries (done ++ [l]), e'.isNegative = false) ↔
        ∀ e' ∈ entries done, e'.isNegative = false := by
      simp [hentries, or_imp, forall_and, hneg]
    refine ⟨?_, ?_, ?_⟩
    · rw [hall]
      exact h.ret
    · rw [hall]
      intro hread
      obtain ⟨hubuf, hbuf⟩ := h.filled hread
      constructor
      · rw [hentries]
        exact setIfInBounds_eq_lastValue hubuf e
      · rw [hentries, List.filter_append]
        by_cases hsmall : e.value.value < 256
        · have hfilter : [e].filter (fun e => decide (e.value.value < 256)) = [e] := by
            simp [hsmall]
          rw [hfilter, MapState.store, if_pos hsmall]
          exact setIfInBounds_eq_lastValue hbuf e
        · have hfilter : [e].filter (fun e => decide (e.value.value < 256)) = [] := by
            simpa using hsmall
          rw [hfilter, List.append_nil, MapState.store, if_neg hsmall]
          exact hbuf
    · rw [hall]
      intro hread
      have hstore : ((m.next (l.text ++ eol)).store e.index.value e.value.value).u = true ↔
          (m.next (l.text ++ eol)).u = true ∨ 255 < e.value.value := by
        rw [MapState.store, Bool.or_eq_true, Bool.not_eq_true', decide_eq_false_iff_not, not_lt,
          Nat.lt_iff_add_one_le]
      have hbig : (∃ e' ∈ entries done ++ [e], 255 < e'.value.value) ↔
          (∃ e' ∈ entries done, 255 < e'.value.value) ∨ 255 < e.value.value := by
        simp [or_and_right, exists_or]
      have huni : (∃ l' ∈ done ++ [l], bytes "U+" <:+: l'.text) ↔
          (∃ l' ∈ done, bytes "U+" <:+: l'.text) ∨ bytes "U+" <:+: l.text := by
        simp [or_and_right, exists_or]
      rw [hstore, next_u m l heol, h.u hread, hentries, hbig, huni]
      simp only [or_assoc, or_comm, or_left_comm]
  · rw [Entry.apply, if_pos hneg]
    have hnot : ¬ ∀ e' ∈ entries (done ++ [l]), e'.isNegative = false := by
      intro hall
      rw [hall e (by simp [hentries])] at hneg
      cases hneg
    exact ⟨iff_of_false (by simp [MapState.fail]) hnot, fun hall => absurd hall hnot,
      fun hall => absurd hall hnot⟩

/-- A documented line is read. -/
theorem Reads.parseLine (h : Reads buf ubuf u done m) {l : MapLine} {eol : List Char}
    (hl : l.Documented) (heol : IsEol eol) :
    ∃ m', parseLine m (l.text ++ eol) = some m' ∧ Reads buf ubuf u (done ++ [l]) m' := by
  rcases he : l.entry with - | e
  · exact ⟨_, parseLine_of_none hl he heol, h.line_of_none he heol⟩
  · exact ⟨_, parseLine_of_entry hl he heol, h.line_of_entry he heol⟩

theorem Reads.withLn (h : Reads buf ubuf u done m) (ln : Nat) :
    Reads buf ubuf u done { m with ln } :=
  ⟨h.ret, fun hall => ⟨(h.filled hall).ubuf, (h.filled hall).buf⟩, h.u⟩

/-- An empty last line is not a line for `fgets`. -/
theorem Reads.empty (h : Reads buf ubuf u done m) {l : MapLine} (hl : l.Documented)
    (htext : l.text = []) : Reads buf ubuf u (done ++ [l]) m := by
  have he : l.entry = none := by
    rcases he : l.entry with - | e
    · rfl
    · have hsep := (hl.entry e he).sep.1
      simp [MapLine.text, he, Entry.text, hsep] at htext
  have hinfix : ¬ bytes "U+" <:+: [] := by decide
  have hnext := (h.line_of_none he (.inl rfl)).withLn m.ln
  simpa only [MapState.next, htext, List.append_nil, hinfix, decide_false, Bool.or_false] using hnext

/-- The empty line that `fgets` makes of the end of a line that fills the buffer. -/
theorem parseLine_eol (m : MapState) : Mapscrn.parseLine m ['\n'] = some { m with ln := m.ln + 1 } := by
  have hinfix : ¬ bytes "U+" <:+: ['\n'] := by decide
  have hnone : strtok (bytes " \t\n") ['\n'] = none := rfl
  simp [Mapscrn.parseLine, hinfix, hnone]

theorem MapLine.Documented.isLineChar {l : MapLine} (hl : l.Documented) :
    ∀ c ∈ l.text, IsLineChar c := by
  have hblank {c : Char} (hc : isBlank c = true) : IsLineChar c := by
    simp only [isBlank, Bool.or_eq_true, decide_eq_true_eq] at hc
    rcases hc with rfl | rfl <;> decide
  have hcolumn {col : Column} (hcol : col.Documented) : ∀ c ∈ col.text, IsLineChar c := by
    intro c hc
    obtain ⟨-, -, hnl, -, hnul⟩ := isColumnChar_iff.mp (hcol.isColumnChar c hc)
    exact ⟨hnl, hnul⟩
  intro c hc
  rcases List.mem_append.mp hc with hc | hc
  · exact hblank (List.all_eq_true.mp hl.lead c hc)
  · rcases List.mem_append.mp hc with hc | hc
    · rcases he : l.entry with - | e
      · simp [he] at hc
      · have hdoc := hl.entry e he
        simp only [he, Option.elim_some, Entry.text, List.mem_append] at hc
        rcases hc with hc | hc | hc | hc
        · exact hcolumn hdoc.index c hc
        · exact hblank (List.all_eq_true.mp hdoc.sep.2 c hc)
        · exact hcolumn hdoc.value c hc
        · exact hblank (List.all_eq_true.mp hdoc.trail c hc)
    · exact hl.comment c hc

/-- The string in the buffer is the whole line. -/
theorem cstr_line {l : MapLine} {eol : List Char} (hl : l.Documented) (heol : IsEol eol) :
    cstr (l.text ++ eol) = l.text ++ eol := by
  rw [cstr, List.takeWhile_eq_self_iff]
  intro c hc
  rcases List.mem_append.mp hc with hc | hc
  · simpa using (hl.isLineChar c hc).2
  · rcases heol with rfl | rfl
    · cases hc
    · obtain rfl := List.mem_singleton.mp hc
      rfl

/-- `fgets` stops when the buffer is full. -/
theorem fgets_full {body : List Char} (rest : List Char) (hbody : ∀ c ∈ body, c ≠ '\n') :
    fgets body.length (body ++ rest) = (body, rest) := by
  induction body with
  | nil => rfl
  | cons c body ih =>
    rw [List.forall_mem_cons] at hbody
    simp [fgets, hbody.1, ih hbody.2]

/-- `fgets` stops at the end of the file. -/
theorem fgets_eof {n : Nat} {body : List Char} (hbody : ∀ c ∈ body, c ≠ '\n')
    (hn : body.length ≤ n) : fgets n body = (body, []) := by
  induction body generalizing n with
  | nil => cases n <;> rfl
  | cons c body ih =>
    obtain ⟨n, rfl⟩ : ∃ k, n = k + 1 := ⟨n - 1, by simp at hn; omega⟩
    rw [List.forall_mem_cons] at hbody
    simp [fgets, hbody.1, ih hbody.2 (by simpa using hn)]

theorem fileText_cons (l l' : MapLine) (lines : List MapLine) :
    fileText (l :: l' :: lines) = l.text ++ '\n' :: fileText (l' :: lines) := by
  simp [fileText, List.intercalate]

theorem parseLines_nil (rounds : Nat) (m : MapState) : parseLines rounds [] m = some m := by
  cases rounds <;> rfl

/-- The lines of a file are read one after the other. -/
theorem Reads.parseLines (h : Reads buf ubuf u done m) {lines : List MapLine}
    (hdoc : ∀ l ∈ lines, l.Documented) (hfit : ∀ l ∈ lines, l.text.length ≤ lineRoom) {rounds : Nat}
    (hrounds : (fileText lines).length ≤ rounds) :
    ∃ m', Mapscrn.parseLines rounds (fileText lines) m = some m' ∧
      Reads buf ubuf u (done ++ lines) m' := by
  induction lines generalizing done m rounds with
  | nil =>
    refine ⟨m, parseLines_nil rounds m, ?_⟩
    rwa [List.append_nil]
  | cons l lines ih =>
    rw [List.forall_mem_cons] at hdoc hfit
    have hnl : ∀ c ∈ l.text, c ≠ '\n' := fun c hc => (hdoc.1.isLineChar c hc).1
    rcases lines with - | ⟨l', lines⟩
    · -- the last line
      have htext : fileText [l] = l.text := by simp [fileText, List.intercalate]
      rw [htext] at hrounds ⊢
      by_cases hempty : l.text = []
      · rw [hempty]
        exact ⟨m, parseLines_nil rounds m, h.empty hdoc.1 hempty⟩
      · obtain ⟨rounds, rfl⟩ : ∃ k, rounds = k + 1 := by
          have := List.length_pos_iff.mpr hempty
          exact ⟨rounds - 1, by omega⟩
        obtain ⟨m', hline, hreads⟩ := h.parseLine hdoc.1 (.inl rfl)
        have hcstr := cstr_line hdoc.1 (.inl rfl)
        rw [List.append_nil] at hline hcstr
        refine ⟨m', ?_, hreads⟩
        simp only [Mapscrn.parseLines, hempty, if_false, fgets_eof hnl hfit.1, hcstr, hline,
          Option.bind_some, parseLines_nil]
    · rw [fileText_cons] at hrounds ⊢
      simp only [List.length_append, List.length_cons] at hrounds
      obtain ⟨rounds, rfl⟩ : ∃ k, rounds = k + 1 := ⟨rounds - 1, by omega⟩
      have hne : l.text ++ '\n' :: fileText (l' :: lines) ≠ [] := by simp
      by_cases hshort : l.text.length < lineRoom
      · -- with its newline
        obtain ⟨m', hline, hreads⟩ := h.parseLine hdoc.1 (.inr rfl)
        obtain ⟨m'', hrun, hreads'⟩ := ih hreads hdoc.2 hfit.2 (show _ ≤ rounds by omega)
        refine ⟨m'', ?_, by simpa using hreads'⟩
        simp only [Mapscrn.parseLines, hne, if_false, fgets_line hnl hshort,
          cstr_line hdoc.1 (.inr rfl), hline, Option.bind_some]
        exact hrun
      · -- the newline comes in the next round
        have hlen : l.text.length = 254 := Nat.le_antisymm hfit.1 (Nat.not_lt.mp hshort)
        obtain ⟨rounds, rfl⟩ : ∃ k, rounds = k + 1 := ⟨rounds - 1, by omega⟩
        obtain ⟨m', hline, hreads⟩ := h.parseLine hdoc.1 (.inl rfl)
        have hcstr := cstr_line hdoc.1 (.inl rfl)
        rw [List.append_nil] at hline hcstr
        obtain ⟨m'', hrun, hreads'⟩ :=
          ih (hreads.withLn (m'.ln + 1)) hdoc.2 hfit.2 (show _ ≤ rounds by omega)
        refine ⟨m'', ?_, by simpa using hreads'⟩
        have hfull : fgets lineRoom (l.text ++ '\n' :: fileText (l' :: lines)) =
            (l.text, '\n' :: fileText (l' :: lines)) := by
          have hfull := fgets_full ('\n' :: fileText (l' :: lines)) hnl
          rwa [hlen] at hfull
        have heol : fgets lineRoom ('\n' :: fileText (l' :: lines)) =
            (['\n'], fileText (l' :: lines)) := rfl
        have hnul : cstr ['\n'] = ['\n'] := rfl
        simp only [Mapscrn.parseLines, hne, if_false, hfull, hcstr, hline, Option.bind_some, heol,
          hnul, parseLine_eol, List.cons_ne_nil]
        exact hrun

theorem Reads.start (buf ubuf : Vector Nat eTabsz) (u : Bool) :
    Reads buf ubuf u [] { buf, ubuf, u, ln := 0, ret := 0, lineno := 0 } := by
  refine ⟨by simp [entries], fun _ => ⟨fun i => rfl, fun i => rfl⟩, ?_⟩
  simp [entries]

end Run

/-- When no line is cut by the buffer, a file in the documented form is loaded unless a column is a
single byte of the upper half between quotes, when it is refused, or `u` is set for nothing but a
comment. -/
theorem parsemap_documented (buf ubuf : Vector Nat eTabsz) (u : Bool) (lines : List MapLine)
    (hdoc : ∀ l ∈ lines, l.Documented) (hfit : ∀ l ∈ lines, l.text.length ≤ lineRoom) :
    Loads buf ubuf u lines ↔ (∀ e ∈ entries lines, e.isNegative = false) ∧
      ((∃ l ∈ lines, bytes "U+" <:+: l.commentText) → u = true ∨ NeedsUnicode lines) := by
  obtain ⟨m, hrun, hreads⟩ := (Reads.start buf ubuf u).parseLines hdoc hfit le_rfl
  rw [List.nil_append] at hreads
  -- what is in a comment is all that `u` may be set for in excess
  have hu (hall : ∀ e ∈ entries lines, e.isNegative = false) : (m.u = true ↔
      (u = true ∨ NeedsUnicode lines) ∨ ∃ l ∈ lines, bytes "U+" <:+: l.commentText) := by
    rw [hreads.u hall, holdsUnicode_lines hdoc, NeedsUnicode]
    simp only [or_assoc]
  constructor
  · rintro ⟨m', hrun', hret, hstored⟩
    obtain rfl : m = m' := Option.some.inj (hrun.symm.trans hrun')
    have hall := hreads.ret.mp hret
    exact ⟨hall, fun hcomment => hstored.u.mp ((hu hall).mpr (Or.inr hcomment))⟩
  · rintro ⟨hall, hcomment⟩
    refine ⟨m, hrun, hreads.ret.mpr hall, hreads.filled hall, ?_⟩
    rw [hu hall]
    exact or_iff_left_of_imp hcomment

/-- A line without leading blanks. -/
def mapLine (index value : Column) (comment : Option (List Char)) : MapLine :=
  { lead := [], entry := some ⟨index, ['\t'], value, [' ']⟩, comment }

theorem mapLine_documented {index value : Column} {comment : Option (List Char)}
    (hindex : index.Documented ∧ index.value < 256) (hvalue : value.Documented ∧ value.value < 65536)
    (hcomment : ∀ c ∈ comment.getD [], IsLineChar c) :
    (mapLine index value comment).Documented := by
  refine ⟨rfl, ?_, ?_⟩
  · intro e he
    obtain rfl := Option.some.inj he
    exact ⟨hindex.1, hvalue.1, hindex.2, hvalue.2, ⟨List.cons_ne_nil _ _, rfl⟩, rfl⟩
  · rcases comment with - | com
    · intro c hc
      cases hc
    · exact List.forall_mem_cons.mpr ⟨by decide, hcomment⟩

theorem parsemap_documented_cyrillic : Loads straightBuf straightUbuf false
    [mapLine (.hexadecimal ['8', '0']) (.unicode ['0', '4', '1', '0']) (some [' ', 'U', '+', '0']),
      mapLine (.byte 0x61) (.utf8 0xe1) none] := by
  refine (parsemap_documented _ _ _ _ ?_ (by decide)).mpr
    ⟨by decide, fun _ => Or.inr (Or.inl (by decide))⟩
  refine List.forall_mem_cons.mpr ⟨?_, List.forall_mem_singleton.mpr ?_⟩
  · exact mapLine_documented (by decide) (by decide) (isLineChar_of_all (by decide))
  · exact mapLine_documented (by decide) (by decide) (by simp)

/-- The line `'\xe9' 233`, with the byte of a letter in ISO 8859-1. -/
def latin1Lines : List MapLine := [mapLine (.byte 0xe9) (.decimal ['2', '3', '3']) none]

/-- The line `0 1` with a comment that ends in two numbers. -/
def longLines : List MapLine :=
  [mapLine (.octal []) (.decimal ['1']) (some (List.replicate 249 'x' ++ [' ', '2', ' ', '3']))]

/-- The line `65 97 # U+0061`. -/
def commentLines : List MapLine :=
  [mapLine (.decimal ['6', '5']) (.decimal ['9', '7']) (some [' ', 'U', '+', '0', '0', '6', '1'])]

/-- The byte is refused, the end of the comment is read as a line of its own, and a comment sets
`u`. -/
theorem parsemap_not_documented :
    ((∀ l ∈ latin1Lines, l.Documented) ∧ ¬ Loads straightBuf straightUbuf false latin1Lines) ∧
      ((∀ l ∈ longLines, l.Documented) ∧ ¬ Loads straightBuf straightUbuf false longLines) ∧
      (∀ l ∈ commentLines, l.Documented) ∧
        ¬ Loads straightBuf straightUbuf false commentLines := by
  refine ⟨⟨?_, ?_⟩, ⟨?_, ?_⟩, ?_, ?_⟩
  · exact List.forall_mem_singleton.mpr (mapLine_documented (by decide) (by decide) (by simp))
  · rintro ⟨m, hrun, hret, -⟩
    have hfail : (parsemap (fileText latin1Lines) straightBuf straightUbuf false).map
        MapState.ret = some (-1) := by decide +kernel
    rw [hrun, Option.map_some, hret] at hfail
    cases hfail
  · refine List.forall_mem_singleton.mpr (mapLine_documented (by decide) (by decide) ?_)
    intro c hc
    rcases List.mem_append.mp hc with hc | hc
    · rw [List.eq_of_mem_replicate hc]
      decide
    · simp only [List.mem_cons, List.not_mem_nil, or_false] at hc
      rcases hc with rfl | rfl | rfl | rfl <;> decide
  · rintro ⟨m, hrun, -, hstored⟩
    have hthree : (parsemap (fileText longLines) straightBuf straightUbuf false).map
        (fun m => m.ubuf[2]) = some 3 := by decide +kernel
    rw [hrun, Option.map_some, Option.some_inj] at hthree
    have hstart : (lastValue 2 (entries longLines)).getD straightUbuf[2] = 0xf002 := by
      decide +kernel
    have hkept : m.ubuf[2] = 0xf002 := (hstored.ubuf ⟨2, by decide⟩).trans hstart
    omega
  · exact List.forall_mem_singleton.mpr
      (mapLine_documented (by decide) (by decide) (isLineChar_of_all (by decide)))
  · rintro ⟨m, hrun, -, hstored⟩
    have hset : (parsemap (fileText commentLines) straightBuf straightUbuf false).map
        MapState.u = some true := by decide +kernel
    rw [hrun, Option.map_some, Option.some_inj] at hset
    rcases hstored.u.mp hset with h | ⟨e, he, hbig⟩ | ⟨e, he, huni⟩
    · cases h
    · obtain rfl := List.mem_singleton.mp he
      exact absurd hbig (by decide)
    · obtain rfl := List.mem_singleton.mp he
      cases huni

end Kbd.Font.Mapscrn
