import Mathlib.Algebra.Group.Int.Defs
import Mathlib.Algebra.Group.Nat.Defs
import Mathlib.Data.List.Basic
import Mathlib.Tactic.Common

/-!
# Integers in memory and in files

A host has the bytes of an integer in memory with the least significant one first or last. What a
program writes to a file is a list of objects: bytes it has put in order itself, and integers as the
host has them. The file is the same on two hosts when each object is (`flatMap_render_eq_iff`), and
whether an integer that is read is zero is the same on both (`load_eq_zero_iff`).
-/

namespace Kbd.Lib

/-- The order of the bytes of an integer. -/
inductive Endian where
  | little
  | big
  deriving DecidableEq, Repr

/-- The `width` low bytes of a number, the least significant one first. -/
def leBytes : Nat → Nat → List UInt8
  | 0, _ => []
  | width + 1, n => UInt8.ofNat n :: leBytes width (n / 256)

/-- The number that such bytes are. -/
def leValue : List UInt8 → Nat
  | [] => 0
  | b :: bytes => b.toNat + 256 * leValue bytes

theorem length_leBytes (width n : Nat) : (leBytes width n).length = width := by
  induction width generalizing n with
  | zero => rfl
  | succ width ih => rw [leBytes, List.length_cons, ih]

theorem leValue_eq_zero_iff {bytes : List UInt8} : leValue bytes = 0 ↔ ∀ b ∈ bytes, b = 0 := by
  induction bytes with
  | nil => simp [leValue]
  | cons b bytes ih =>
    have hb : b.toNat = 0 ↔ b = 0 := by
      rw [← UInt8.toNat_inj, UInt8.toNat_zero]
    rw [leValue, List.forall_mem_cons, ← ih, ← hb]
    omega

theorem leValue_leBytes (width n : Nat) : leValue (leBytes width n) = n % 256 ^ width := by
  induction width generalizing n with
  | zero => rw [Nat.pow_zero, Nat.mod_one]; rfl
  | succ width ih =>
    rw [leBytes, leValue, ih, Nat.pow_succ, Nat.mul_comm (256 ^ width), Nat.mod_mul, UInt8.toNat_ofNat']

/-- The bytes of the low part come first. -/
theorem leBytes_add (m k n : Nat) : leBytes (m + k) n = leBytes m n ++ leBytes k (n / 256 ^ m) := by
  induction m generalizing n with
  | zero => simp [leBytes]
  | succ m ih =>
    rw [Nat.succ_add_eq_add_succ, Nat.add_succ, leBytes, leBytes, List.cons_append, ih,
      Nat.div_div_eq_div_mul, Nat.pow_succ, Nat.mul_comm (256 ^ m)]

namespace Endian

/-- The bytes of an integer in memory. -/
def store : Endian → Nat → Nat → List UInt8
  | little, width, n => leBytes width n
  | big, width, n => (leBytes width n).reverse

/-- The integer whose bytes these are. -/
def load : Endian → List UInt8 → Nat
  | little, bytes => leValue bytes
  | big, bytes => leValue bytes.reverse

theorem length_store (e : Endian) (width n : Nat) : (e.store width n).length = width := by
  cases e with
  | little => exact length_leBytes width n
  | big => rw [store, List.length_reverse, length_leBytes]

/-- An integer that fits is read back. -/
theorem load_store (e : Endian) {width n : Nat} (h : n < 256 ^ width) :
    e.load (e.store width n) = n := by
  have hval : leValue (leBytes width n) = n := by rw [leValue_leBytes, Nat.mod_eq_of_lt h]
  cases e with
  | little => exact hval
  | big => rw [store, load, List.reverse_reverse, hval]

/-- The first bytes of a wider integer are its low part where that comes first. -/
theorem take_store_little (m k n : Nat) :
    (little.store (m + k) n).take m = little.store m n := by
  rw [store, leBytes_add]
  exact List.take_left' (length_leBytes m n)

/-- Elsewhere they are its high part. -/
theorem take_store_big (m k n : Nat) :
    (big.store (m + k) n).take m = big.store m (n / 256 ^ k) := by
  rw [store, Nat.add_comm, leBytes_add, List.reverse_append]
  exact List.take_left' (by rw [List.length_reverse, length_leBytes])

/-- Zero has the same bytes on every host. -/
theorem load_eq_zero_iff (e : Endian) {bytes : List UInt8} : e.load bytes = 0 ↔ ∀ b ∈ bytes, b = 0 := by
  cases e with
  | little => exact leValue_eq_zero_iff
  | big => simp only [load, leValue_eq_zero_iff, List.mem_reverse]

end Endian

/-- Pieces of the same lengths are the same when what they make up is. -/
theorem flatMap_eq_flatMap_iff {α β : Type} {f g : α → List β}
    (hlen : ∀ a, (f a).length = (g a).length) {l : List α} :
    l.flatMap f = l.flatMap g ↔ ∀ a ∈ l, f a = g a := by
  induction l with
  | nil => simp
  | cons a l ih =>
    rw [List.flatMap_cons, List.flatMap_cons, List.forall_mem_cons, ← ih]
    constructor
    · intro h
      exact List.append_inj h (hlen a)
    · rintro ⟨ha, hl⟩
      rw [ha, hl]

/-- An object that is written to a file. -/
inductive Datum where
  | bytes (l : List UInt8)
  /-- an integer of `width` bytes, as it is in memory -/
  | native (width n : Nat)
  deriving DecidableEq, Repr

namespace Datum

/-- What a file then has. -/
def render (e : Endian) : Datum → List UInt8
  | bytes l => l
  | native width n => e.store width n

/-- The object is not the same on all hosts. -/
def Uneven (d : Datum) : Prop := d.render .big ≠ d.render .little

instance (d : Datum) : Decidable d.Uneven := inferInstanceAs (Decidable (_ ≠ _))

theorem not_uneven_bytes (l : List UInt8) : ¬ (bytes l).Uneven := fun h => h rfl

theorem length_render (e e' : Endian) (d : Datum) : (d.render e).length = (d.render e').length := by
  cases d with
  | bytes l => rfl
  | native width n => simp only [render, Endian.length_store]

/-- The files are the same when no object is uneven: an object takes as many bytes on every host, so
differences do not make up for each other. -/
theorem flatMap_render_eq_iff {data : List Datum} :
    data.flatMap (render .big) = data.flatMap (render .little) ↔ ¬ ∃ d ∈ data, d.Uneven := by
  rw [flatMap_eq_flatMap_iff fun d => length_render .big .little d]
  simp [Uneven]

end Datum

end Kbd.Lib
