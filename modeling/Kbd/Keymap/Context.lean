import Kbd.Keymap.Array
import Kbd.Keymap.Code

/-!
# The library context (`contextP.h`, `common.c`)

`LkCtx` holds the fields of `struct lk_ctx` that outlive a parse. The fields that only the running
parser uses (`key_line`, `mod` and the include stack) are part of the parser's state. Library
functions run in `Lk`: they change the context in place, so a failing call still leaves a context
behind. A failure carries what its `ERR` message reports.
-/

namespace Kbd.Keymap

/-- The bits of `lk_flags`. -/
structure LkFlags where
  unicodeMode : Bool := false
  clearCompose : Bool := false
  clearStrings : Bool := false
  preferUnicode : Bool := false
  deriving DecidableEq, Repr

/-- The bits of `lk_keywords`. -/
structure LkKeywords where
  keymaps : Bool := false
  altIsMeta : Bool := false
  charset : Bool := false
  strAsUsual : Bool := false
  deriving DecidableEq, Repr

/-- `struct lk_kbdiacr`. -/
structure LkKbdiacr where
  diacr : Nat
  base : Nat
  result : Nat
  deriving DecidableEq, Repr

/-- `struct lk_ctx`, without logging and the fields of a running parse. A map is a pointer to its
array of keys; a key cell holds the code plus one, zero when unset. -/
structure LkCtx where
  flags : LkFlags
  keywords : LkKeywords
  keymap : LkArray (Option (LkArray Int))
  funcTable : LkArray (Option (List Char))
  accentTable : LkArray (Option LkKbdiacr)
  charset : Nat
  keyConstant : LkArray Bool
  deriving DecidableEq, Repr

/-- `lk_init`, followed by `lk_set_parser_flags` and `lk_set_charset`. -/
def lkInit (flags : LkFlags := {}) (charset : Nat := 0) : LkCtx where
  flags := flags
  keywords := {}
  keymap := .init
  funcTable := .init
  accentTable := .init
  charset := charset
  keyConstant := .init

/-- What the `ERR` messages of the library report. -/
inductive LkErr where
  /-- "unable to get keymap %u" -/
  | unableToGetKeymap (kTable : Nat)
  /-- "unable to unset key %u for table %u" -/
  | unableToUnsetKey (kIndex kTable : Nat)
  /-- "lk_add_key called with bad keycode %d" -/
  | badKeycode (keycode : Int)
  /-- "adding map %u for key %u violates explicit keymaps line" -/
  | violatesKeymaps (kTable kIndex : Nat)
  /-- a third level of `lk_add_key`, which does not occur -/
  | recursion
  /-- "impossible error in lk_add_constants" -/
  | impossible
  /-- "unknown charset %s - ignoring charset request" -/
  | unknownCharset (charset : List Char)
  /-- "loadkeys: don't know how to compose for %s" -/
  | unknownCompose (charset : List Char)
  /-- "keymap range %d-%d is out of bounds [0, %d]" -/
  | rangeOutOfBounds (lo hi : Int)
  /-- "keymap number %d is out of bounds [0, %d]" -/
  | numberOutOfBounds (n : Int)
  /-- "'%s' is not a function key symbol" -/
  | notFunctionKey (code : Int)
  /-- "too many (%zu) entries on one line" -/
  | tooManyEntries (n : Nat)
  /-- the message of `yyerror` -/
  | syntaxError
  deriving DecidableEq, Repr

/-- Library calls on a context. -/
abbrev Lk (α : Type) := EStateM LkErr LkCtx α

end Kbd.Keymap
