import Mathlib.Data.List.Basic
import Mathlib.Tactic.Common

/-!
# Reading through a pointer

Code in C reads a buffer through a pointer that it advances; a function over lists takes what is left
of the buffer and gives back what it has not read. `Agrees` relates the two: no access is outside of
the buffer, both end in the same way, and the pointer is where the rest of the list begins.
-/

namespace Kbd.Lib.Cursor

universe u

variable {α ε β γ : Type u}

/-- Code that can fail, and that reads memory: `none` is an access outside of the buffer. -/
abbrev Access (ε β : Type u) := ExceptT ε Option β

/-- The cell at a position. -/
def deref (mem : List α) (p : Nat) : Access ε α := ExceptT.mk (mem[p]?.map .ok)

/-- Code that reads from a position on, and a function of what is there. -/
inductive Agrees (mem : List α) : Access ε (β × Nat) → Except ε (β × List α) → Prop where
  | ok (b : β) (p : Nat) (hp : p ≤ mem.length) :
      Agrees mem (some (.ok (b, p))) (.ok (b, mem.drop p))
  | error (e : ε) : Agrees mem (some (.error e)) (.error e)

theorem deref_of_drop {mem : List α} {p : Nat} {a : α} {rest : List α} (h : mem.drop p = a :: rest) :
    (deref mem p : Access ε α) = pure a ∧ mem.drop (p + 1) = rest ∧ p < mem.length := by
  have hp : p < mem.length := by
    rcases Nat.lt_or_ge p mem.length with hp | hle
    · exact hp
    · rw [List.drop_eq_nil_of_le hle] at h
      cases h
  have hcons := List.drop_eq_getElem_cons hp
  rw [h] at hcons
  injection hcons with ha hrest
  refine ⟨?_, hrest.symm, hp⟩
  rw [deref, List.getElem?_eq_getElem hp, ← ha]
  rfl

theorem length_le_of_drop {mem : List α} {p : Nat} {a : α} {rest : List α}
    (h : mem.drop p = a :: rest) : mem.length = p + rest.length + 1 := by
  have hlen := congrArg List.length h
  rw [List.length_drop, List.length_cons] at hlen
  omega

namespace Agrees

variable {mem : List α}

/-- Reading goes on where it has stopped. -/
theorem bind {m : Access ε (β × Nat)} {r : Except ε (β × List α)} (h : Agrees mem m r)
    {f : β × Nat → Access ε (γ × Nat)} {g : β × List α → Except ε (γ × List α)}
    (hf : ∀ b p, p ≤ mem.length → Agrees mem (f (b, p)) (g (b, mem.drop p))) :
    Agrees mem (m >>= f) (r >>= g) := by
  cases h with
  | ok b p hp => exact hf b p hp
  | error e => exact .error e

/-- The pointer is determined by what has not been read. -/
theorem ok_inv {m : Access ε (β × Nat)} {b : β} {rest : List α} (h : Agrees mem m (.ok (b, rest))) :
    m = some (.ok (b, mem.length - rest.length)) := by
  cases h with
  | ok b p hp =>
    rw [List.length_drop, Nat.sub_sub_self hp]

end Agrees

end Kbd.Lib.Cursor
