import Kbd.Lib.Buffer
import Mathlib.Data.Fin.Basic

/-!
# Growing arrays in memory (`array.c`)

`LkArray` has typed elements and memory that does not run out. Here `struct lk_array` is what it is in C:
the numbers are of type `size_t` and wrap around, the array is a block of bytes or a null pointer, and
an allocation may fail. Which byte an access goes to is calculated as in C, and an access outside of the
block has no result.
-/

namespace Kbd.Keymap

open Kbd.Lib

/-- `size_t`, whose largest value is `SIZE_MAX`. -/
abbrev SizeT (sizeMax : Nat) := Fin (sizeMax + 1)

/-- What the functions return: 0, `-EINVAL` and `-ENOMEM`. -/
inductive Ret where
  | ok
  | einval
  | enomem
  deriving DecidableEq, Repr

/-- An allocation fails, or gives a block with the bytes that are in it. -/
abbrev Alloc := Option (Nat → UInt8)

/-- `struct lk_array`. -/
structure RawArray (sizeMax : Nat) where
  array : Option (List UInt8)
  memb : SizeT sizeMax
  total : SizeT sizeMax
  count : SizeT sizeMax
  deriving DecidableEq, Repr

namespace RawArray

variable {sizeMax : Nat}

/-- After `memset(a, 0, sizeof(struct lk_array))`. -/
def zeroed : RawArray sizeMax := ⟨none, 0, 0, 0⟩

abbrev SIZE_MAX : SizeT sizeMax := Fin.last sizeMax

/-- `array_item_ptr`: the place of the element in the block. -/
def arrayItemPtr (a : Option (RawArray sizeMax)) (i : SizeT sizeMax) : Option Nat :=
  match a with
  | none => none
  | some a =>
    if a.array = none ∨ a.memb = 0 ∨ i ≥ a.total ∨ i > SIZE_MAX / a.memb then none
    else some (a.memb * i).val

/-- `lk_array_init`. -/
def lkArrayInit (calloc : Bool) (a : Option (RawArray sizeMax)) (memb size : SizeT sizeMax) :
    Ret × Option (RawArray sizeMax) :=
  match a with
  | none => (.einval, none)
  | some _ =>
    if memb = 0 ∨ size > SIZE_MAX / memb then (.einval, some zeroed)
    else if size ≠ 0 then
      if calloc then
        (.ok, some { zeroed with
          array := some (List.replicate (size.val * memb.val) 0), memb := memb, total := size })
      else (.enomem, some zeroed)
    else (.ok, some { zeroed with memb := memb, total := size })

/-- `lk_array_empty`. -/
def lkArrayEmpty (a : Option (RawArray sizeMax)) : Option (Ret × Option (RawArray sizeMax)) :=
  match a with
  | none => some (.einval, none)
  | some a =>
    if a.memb = 0 ∨ a.total > SIZE_MAX / a.memb then some (.einval, some a)
    else
      match a.array with
      | none => some (.ok, some { a with count := 0 })
      | some block =>
        if a.total ≠ 0 then do
          let block ← Buffer.fill block 0 (a.memb * a.total).val fun _ => 0
          return (.ok, some { a with array := some block, count := 0 })
        else some (.ok, some { a with count := 0 })

/-- The loop of `lk_array_exists`, over the bytes from the `k`th one on. -/
def existsFrom (block : List UInt8) (s k : Nat) : Nat → Option Bool
  | 0 => some false
  | rest + 1 => do
    let c ← block[s + k]?
    if c ≠ 0 then return true else existsFrom block s (k + 1) rest

/-- `lk_array_exists`. -/
def lkArrayExists (a : RawArray sizeMax) (i : SizeT sizeMax) : Option Bool :=
  match arrayItemPtr (some a) i, a.array with
  | some s, some block => existsFrom block s 0 a.memb.val
  | _, _ => some false

/-- `lk_array_get`. -/
def lkArrayGet (a : Option (RawArray sizeMax)) (i : SizeT sizeMax) : Option Nat := arrayItemPtr a i

/-- The block that `kbd_reallocarray` gives: the bytes of the old one, as far as there are any, and
then what is there. -/
def reallocated (old : Option (List UInt8)) (size : Nat) (fresh : Nat → UInt8) : List UInt8 :=
  (List.range size).map fun j => (old.getD [])[j]?.getD (fresh j)

/-- `array_resize`. -/
def arrayResize (realloc : Alloc) (a : RawArray sizeMax) (i : SizeT sizeMax) :
    Option (Ret × RawArray sizeMax) :=
  if a.memb = 0 ∨ a.total > SIZE_MAX / a.memb then some (.einval, a)
  else if i ≥ a.total then
    if i = SIZE_MAX ∨ i + 1 > SIZE_MAX / a.memb then some (.einval, a)
    else
      match realloc with
      | none => some (.enomem, a)
      | some fresh => do
        let tmp := reallocated a.array ((i + 1).val * a.memb.val) fresh
        let tmp ← Buffer.fill tmp (a.memb * a.total).val (a.memb * (i + 1 - a.total)).val fun _ => 0
        return (.ok, { a with array := some tmp, total := i + 1 })
  else some (.ok, a)

/-- The end of `lk_array_set`: the new `count`. -/
def adjust (existedBefore existsAfter : Bool) (count : SizeT sizeMax) : SizeT sizeMax :=
  if !existedBefore && existsAfter then count + 1
  else if existedBefore && !existsAfter then count - 1
  else count

/-- `lk_array_set`; `e` points to the bytes of an element. -/
def lkArraySet (realloc : Alloc) (a : Option (RawArray sizeMax)) (i : SizeT sizeMax)
    (e : Option (Nat → UInt8)) : Option (Ret × Option (RawArray sizeMax)) :=
  match a, e with
  | some a, some e => do
    let (ret, a) ← arrayResize realloc a i
    if ret ≠ .ok then
      return (ret, some a)
    let existedBefore ← lkArrayExists a i
    let block ← a.array
    let block ← Buffer.fill block (a.memb * i).val a.memb.val e
    let a := { a with array := some block }
    let existsAfter ← lkArrayExists a i
    return (.ok, some { a with count := adjust existedBefore existsAfter a.count })
  | a, _ => some (.einval, a)

/-- `lk_array_unset`. -/
def lkArrayUnset (a : Option (RawArray sizeMax)) (i : SizeT sizeMax) :
    Option (Ret × Option (RawArray sizeMax)) :=
  match a, arrayItemPtr a i with
  | some a, some s => do
    if ← lkArrayExists a i then
      let block ← a.array
      let block ← Buffer.fill block s a.memb.val fun _ => 0
      return (.ok, some { a with array := some block, count := a.count - 1 })
    else return (.ok, some a)
  | a, _ => some (.einval, a)

/-- A call of one of the functions, with the outcome of its allocation. -/
inductive Call (sizeMax : Nat) where
  | init (calloc : Bool) (memb size : SizeT sizeMax)
  | set (realloc : Alloc) (i : SizeT sizeMax) (e : Option (Nat → UInt8))
  | unset (i : SizeT sizeMax)
  | empty

/-- What a call does. -/
def Call.run (a : Option (RawArray sizeMax)) : Call sizeMax → Option (Ret × Option (RawArray sizeMax))
  | .init calloc memb size => some (lkArrayInit calloc a memb size)
  | .set realloc i e => lkArraySet realloc a i e
  | .unset i => lkArrayUnset a i
  | .empty => lkArrayEmpty a

/-- A call for the array, or with a null pointer in its place: the array afterwards. -/
def step (a : RawArray sizeMax) (call : Call sizeMax × Bool) : Option (Ret × RawArray sizeMax) := do
  let (ret, a') ← call.1.run (if call.2 then none else some a)
  return (ret, a'.getD a)

/-- The array after a sequence of calls. -/
def steps (a : RawArray sizeMax) (calls : List (Call sizeMax × Bool)) : Option (RawArray sizeMax) :=
  calls.foldlM (fun a call => (step a call).map Prod.snd) a

end RawArray

end Kbd.Keymap
