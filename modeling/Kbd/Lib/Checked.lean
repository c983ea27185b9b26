import Mathlib.Data.List.Basic
import Mathlib.Tactic.Common

/-!
# Loops with checked steps

Rules for loops in `Option`: when all of their steps succeed, what they compute, and that one failing
step makes the whole loop fail.
-/

namespace Kbd.Lib

namespace Checked

universe u

variable {α β σ : Type u}

/-- A loop whose rounds have no effect computes the results one by one. -/
theorem mapM_of_pure {m : Type u → Type u} [Monad m] [LawfulMonad m] {f : α → m β} {g : α → β}
    {l : List α} (h : ∀ a ∈ l, f a = pure (g a)) : l.mapM f = pure (l.map g) := by
  induction l with
  | nil => simp
  | cons a l ih =>
    rw [List.forall_mem_cons] at h
    rw [List.mapM_cons, h.1, ih h.2]
    simp

theorem mapM_of_some {f : α → Option β} {g : α → β} {l : List α}
    (h : ∀ a ∈ l, f a = some (g a)) : l.mapM f = some (l.map g) :=
  mapM_of_pure h

theorem mapM_eq_none {f : α → Option β} {l : List α} {a : α} (ha : a ∈ l) (h : f a = none) :
    l.mapM f = none := by
  induction l with
  | nil => cases ha
  | cons b l ih =>
    rw [List.mapM_cons]
    rcases List.mem_cons.mp ha with rfl | ha
    · rw [h]
      rfl
    · rw [ih ha]
      cases f b <;> rfl

theorem map_of_mapM {f : α → Option β} {l : List α} {m : List β} (h : l.mapM f = some m) :
    l.map f = m.map some := by
  induction l generalizing m with
  | nil =>
    cases h
    rfl
  | cons a l ih =>
    rw [List.mapM_cons] at h
    simp only [Option.bind_eq_bind, Option.bind_eq_some_iff] at h
    obtain ⟨b, hb, bs, hbs, hm⟩ := h
    cases hm
    rw [List.map_cons, List.map_cons, hb, ih hbs]

theorem length_of_mapM {f : α → Option β} {l : List α} {m : List β} (h : l.mapM f = some m) :
    m.length = l.length := by
  have hlen := congrArg List.length (map_of_mapM h)
  rw [List.length_map, List.length_map] at hlen
  exact hlen.symm

/-- A loop over `0, ..., n - 1` with an invariant that depends on the number of rounds. -/
theorem foldlM_range {f : σ → Nat → Option σ} {I : Nat → σ → Prop} {n : Nat} {s : σ}
    (h0 : I 0 s) (hstep : ∀ k < n, ∀ s, I k s → ∃ s', f s k = some s' ∧ I (k + 1) s') :
    ∃ s', (List.range n).foldlM f s = some s' ∧ I n s' := by
  induction n with
  | zero => exact ⟨s, rfl, h0⟩
  | succ n ih =>
    obtain ⟨s₁, h₁, hI₁⟩ := ih fun k hk => hstep k (Nat.lt_succ_of_lt hk)
    obtain ⟨s₂, h₂, hI₂⟩ := hstep n (Nat.lt_succ_self n) s₁ hI₁
    refine ⟨s₂, ?_, hI₂⟩
    rw [List.range_succ, List.foldlM_append, h₁]
    change List.foldlM f s₁ [n] = some s₂
    rw [List.foldlM_cons, h₂]
    rfl

theorem foldlM_eq_none {f : σ → α → Option σ} {l : List α} {a : α} (ha : a ∈ l)
    (h : ∀ s, f s a = none) (s : σ) : l.foldlM f s = none := by
  induction l generalizing s with
  | nil => cases ha
  | cons b l ih =>
    rw [List.foldlM_cons]
    rcases List.mem_cons.mp ha with rfl | ha
    · rw [h]
      rfl
    · cases f s b with
      | none => rfl
      | some t => exact ih ha t

end Checked

end Kbd.Lib
