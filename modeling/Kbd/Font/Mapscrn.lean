import Kbd.Font.Xtable
import Mathlib.Data.List.Infix

/-!
# Screen maps as text (`mapscrn.c`)

A line of the text has two columns: a byte, and the position or the code point it is shown as. Each
column is a number in one of several notations. A line that cannot be read is reported, and the
loop goes on with the next one, so a map that is refused may have been filled.
-/

namespace Kbd.Font.Mapscrn

open Kbd.Keymap (bytes cstr digitVal digits)

/-- The size of a screen map, `E_TABSZ`. -/
abbrev eTabsz : Nat := 256

/-! ## Columns -/

/-- The sets of digits that `ctoi` gives to `strspn`. -/
def isDigit (base : Nat) (c : Char) : Bool := (digitVal c).any (· < base)

/-- The value of 32 bits as an `int`. -/
def toInt (n : Nat) : Int := if n < 2 ^ 31 then n else n - 2 ^ 32

/-- `char` is signed. -/
def signedChar (c : Char) : Int := if c.toNat < 0x80 then c.toNat else c.toNat - 0x100

/-- `sscanf` with `%x` or `%o`. There is no value without a digit, and none that the text determines
for a number that does not fit. -/
def scanUnsigned (base : Nat) (s : List Char) : Option Int :=
  if s = [] ∨ 2 ^ 32 ≤ digits base s 0 then none else some (toInt (digits base s 0))

/-- `sscanf` with `%d`. -/
def scanSigned (s : List Char) : Option Int :=
  if s = [] ∨ 2 ^ 31 ≤ digits 10 s 0 then none else some (digits 10 s 0)

/-- The last notation of `ctoi`, after the first quote. On nothing at all, `from_utf8` reads the
terminating NUL as a character, and what is then compared is not part of the string. -/
def quotedUtf8 (s1 : List Char) : Option Int :=
  if s1 = [] then none
  else
    match fromUtf8 (s1.map fun c => UInt8.ofNat c.toNat) with
    | .ok (i, rest) => if rest = [0x27] then some (toInt i) else some (-1)
    | .error _ => some (-1)

/-- `ctoi`; `none` when the text does not determine what it returns. -/
def ctoi (s : List Char) : Option Int :=
  if (bytes "0x").isPrefixOf s && (s.drop 2).all (isDigit 16) then scanUnsigned 16 (s.drop 2)
  else if s.head? = some '0' && s.all (isDigit 8) then scanUnsigned 8 s
  else if s.all (isDigit 10) then scanSigned s
  else if (bytes "U+").isPrefixOf s && s.length = 6 && (s.drop 2).all (isDigit 16) then
    scanUnsigned 16 (s.drop 2)
  else if s.length = 3 && s[0]? = some '\x27' && s[2]? = some '\x27' then s[1]?.map signedChar
  else if s[0]? = some '\x27' then quotedUtf8 s.tail
  else some (-1)

/-! ## Lines -/

/-- The variables of `parsemap` that outlive a line. -/
structure MapState where
  buf : Vector Nat eTabsz
  ubuf : Vector Nat eTabsz
  u : Bool
  ln : Nat
  ret : Int
  lineno : Nat
  deriving DecidableEq, Repr

/-- `strtok_r`: the token, and what the next call goes on with. -/
def strtok (delim s : List Char) : Option (List Char × List Char) :=
  let s := s.dropWhile delim.contains
  if s = [] then none
  else some (s.takeWhile (!delim.contains ·), (s.dropWhile (!delim.contains ·)).drop 1)

/-- The branch of `parsemap` for columns within the bounds. -/
def MapState.store (m : MapState) (i o : Nat) : MapState :=
  { m with
    ubuf := m.ubuf.setIfInBounds i o
    buf := if o < 256 then m.buf.setIfInBounds i o else m.buf
    u := m.u || !(o < 256) }

/-- The other branch, which keeps the number of the first line that fails. -/
def MapState.fail (m : MapState) : MapState :=
  { m with ret := -1, lineno := if m.ret = 0 then m.ln else m.lineno }

/-- The body of the loop of `parsemap`, on a string. -/
def parseLine (m : MapState) (buffer : List Char) : Option MapState :=
  let m := { m with ln := m.ln + 1, u := m.u || decide (bytes "U+" <:+: buffer) }
  match strtok (bytes " \t\n") buffer with
  | none => some m
  | some (p, save) =>
    if p.head? = some '#' then some m
    else
      match strtok (bytes " \t\n#") save with
      | none => some m
      | some (q, _) => do
        let i ← ctoi p
        let o ← ctoi q
        if 0 ≤ i ∧ i < 256 ∧ 0 ≤ o ∧ o < 65536 then some (m.store i.toNat o.toNat)
        else some m.fail

/-! ## Files -/

/-- The size of `buffer`, less the byte that `parsemap` does not tell `fgets` of and the one for the
final NUL. -/
abbrev lineRoom : Nat := 254

/-- The loop of `parsemap`: a round reads at least one character. -/
def parseLines : Nat → List Char → MapState → Option MapState
  | 0, _, m => some m
  | rounds + 1, file, m =>
    if file = [] then some m
    else
      let (buffer, rest) := fgets lineRoom file
      (parseLine m (cstr buffer)).bind (parseLines rounds rest)

/-- `parsemap`; `none` when it goes by a column whose value the text does not determine. -/
def parsemap (file : List Char) (buf ubuf : Vector Nat eTabsz) (u : Bool) : Option MapState :=
  parseLines file.length file { buf, ubuf, u, ln := 0, ret := 0, lineno := 0 }

/-- The maps at the start of `kfont_load_consolemap`, "trivial straight-to-font". -/
def straightBuf : Vector Nat eTabsz := .ofFn fun i => i.val

@[inherit_doc straightBuf]
def straightUbuf : Vector Nat eTabsz := .ofFn fun i => 0xf000 + i.val

end Kbd.Font.Mapscrn
