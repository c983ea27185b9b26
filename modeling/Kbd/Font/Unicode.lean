import Mathlib.Algebra.Group.Int.Defs
import Mathlib.Algebra.Group.Nat.Defs
import Mathlib.Tactic.Common
import Mathlib.Data.List.ModifyLast

/-!
# The Unicode description of a glyph (`unicode.c`, `utf8.c`)

A glyph has a list of descriptions, each a list of code points: one code point stands for itself,
several for a sequence such as a letter and its combining accent. The heads of the C lists are
circular through `prev`, which makes appending at the end cheap; here a head is the list itself.
-/

namespace Kbd.Font

/-- `typedef int32_t unicode`. -/
abbrev Unicode := Int

/-- `struct unicode_list`, from a head on: each description with its `struct unicode_seq`. -/
abbrev UnicodeList := List (List Unicode)

/-- `addpair`: a new description of one code point. -/
def addpair (up : UnicodeList) (uc : Unicode) : UnicodeList := up ++ [[uc]]

/-- `addseq`: one more code point for the last description. Callers have added one before; on the
head itself, which has no sequence, the source would follow a null pointer. -/
def addseq (up : UnicodeList) (uc : Unicode) : UnicodeList := up.modifyLast (· ++ [uc])

/-- `clear_uni_entry`. -/
def clearUniEntry : UnicodeList := []

@[simp] theorem addseq_concat (up : UnicodeList) (us : List Unicode) (uc : Unicode) :
    addseq (up ++ [us]) uc = up ++ [us ++ [uc]] := by
  simp [addseq, List.modifyLast_concat]

/-- The values of `err` that `from_utf8` sets. -/
inductive Utf8Err where
  | short
  | bad
  deriving DecidableEq, Repr

/-- `while (uc & bit)` of `from_utf8`, where `bit` is the power of two under the first argument:
counts the leading ones of a byte and gives the count and the last `bit`. -/
def leadingOnes (uc : Nat) : Nat → Nat → Nat × Nat
  | 0, need => (need, 0)
  | k + 1, need => if uc &&& 2 ^ k ≠ 0 then leadingOnes uc k (need + 1) else (need, 2 ^ k)

/-- `while (--need)` of `from_utf8`. That the bytes are there has been tested before. -/
def continuation : Nat → Nat → List UInt8 → Except Utf8Err (Nat × List UInt8)
  | 0, uc, inp => .ok (uc, inp)
  | _ + 1, _, [] => .error .short
  | need + 1, uc, uc2 :: inp =>
    if uc2.toNat &&& 0xc0 ≠ 0x80 then .error .bad
    else continuation need ((uc <<< 6 ||| uc2.toNat &&& 0x3f) % 2 ^ 32) inp

/-- `from_utf8` with `cnt` the number of bytes there are, which its caller has found to be
positive. The result is the value and what was not read. -/
def fromUtf8 : List UInt8 → Except Utf8Err (Nat × List UInt8)
  | [] => .error .short
  | b :: inp =>
    let (need, bit) := leadingOnes b.toNat 8 0
    -- `bit - 1` is of type `uint32_t`
    let uc := b.toNat &&& (bit + (2 ^ 32 - 1)) % 2 ^ 32
    if inp.length + 1 < need then .error .short
    else if need = 1 then .error .bad
    else continuation (need - 1) uc inp

example : fromUtf8 [0xe2, 0x82, 0xac, 0x41] = .ok (0x20ac, [0x41]) := by decide

end Kbd.Font
