import Mathlib.Logic.Relation
import Mathlib.Order.WellFounded
import Mathlib.Tactic.Common

/-!
# Deterministic machines

A machine is a function `step : σ → σ ⊕ ρ`: it goes on in a new state or stops with a result.
`run` iterates it with fuel, `Steps` is the reflexive-transitive closure of going on. The rules
below are what a proof about a machine uses: a prefix of a run can be peeled off (`Steps.run`),
there is only one last state (`last_unique`), the ways between sets of states compose (`Leads`), and
a measure that every step decreases gives enough fuel (`exists_run_of_measure`).
-/

namespace Kbd.Lib

universe u v

namespace Machine

variable {σ : Type u} {ρ : Type v} (step : σ → σ ⊕ ρ)

/-- Run for at most `fuel` steps. -/
def run : Nat → σ → Option ρ
  | 0, _ => none
  | fuel + 1, s =>
    match step s with
    | .inl s' => run fuel s'
    | .inr r => some r

/-- The machine goes from `s` to `t` in finitely many steps. -/
def Steps (s t : σ) : Prop := Relation.ReflTransGen (fun a b => step a = .inl b) s t

variable {step}

theorem Steps.refl (s : σ) : Steps step s s := Relation.ReflTransGen.refl

theorem Steps.trans {s t u : σ} (h₁ : Steps step s t) (h₂ : Steps step t u) : Steps step s u :=
  Relation.ReflTransGen.trans h₁ h₂

theorem Steps.single {s t : σ} (h : step s = .inl t) : Steps step s t :=
  Relation.ReflTransGen.single h

/-- One step, then more. -/
theorem Steps.head {s t u : σ} (h : step s = .inl t) (hs : Steps step t u) : Steps step s u :=
  Relation.ReflTransGen.head h hs

theorem run_succ_inl {s s' : σ} (h : step s = .inl s') (fuel : Nat) :
    run step (fuel + 1) s = run step fuel s' := by
  simp [run, h]

theorem run_succ_inr {s : σ} {r : ρ} (h : step s = .inr r) (fuel : Nat) :
    run step (fuel + 1) s = some r := by
  simp [run, h]

/-- A result reached after some steps is reached from the start with more fuel. -/
theorem Steps.run {s t : σ} (h : Steps step s t) {fuel : Nat} {r : ρ}
    (hr : Machine.run step fuel t = some r) : ∃ fuel', Machine.run step fuel' s = some r := by
  induction h using Relation.ReflTransGen.head_induction_on with
  | refl => exact ⟨fuel, hr⟩
  | head hst _ ih =>
    obtain ⟨fuel', h'⟩ := ih
    exact ⟨fuel' + 1, by rw [run_succ_inl hst, h']⟩

/-- What every step keeps holds of every state that is reached. -/
theorem Steps.invariant {I : σ → Prop} (hstep : ∀ s s', I s → step s = .inl s' → I s') {s t : σ}
    (h : Steps step s t) (hI : I s) : I t := by
  induction h with
  | refl => exact hI
  | tail _ hst ih => exact hstep _ _ ih hst

/-- A result is that of the last state. -/
theorem exists_last {fuel : Nat} {s : σ} {r : ρ} (h : Machine.run step fuel s = some r) :
    ∃ t, Steps step s t ∧ step t = .inr r := by
  induction fuel generalizing s with
  | zero => cases h
  | succ fuel ih =>
    cases hs : step s with
    | inl s' =>
      rw [run_succ_inl hs] at h
      obtain ⟨t, ht, hr⟩ := ih h
      exact ⟨t, .head hs ht, hr⟩
    | inr r' =>
      rw [run_succ_inr hs] at h
      cases h
      exact ⟨s, .refl s, hs⟩

/-- Every state that is reached comes before the last one. -/
theorem Steps.to_last {s t u : σ} {r : ρ} (hst : Steps step s t) (hsu : Steps step s u)
    (hu : step u = .inr r) : Steps step t u := by
  induction hst with
  | refl => exact hsu
  | tail _ hbc ih =>
    rcases Relation.ReflTransGen.cases_head ih with rfl | ⟨c, hc, hcu⟩
    · rw [hbc] at hu
      cases hu
    · rw [hbc] at hc
      cases hc
      exact hcu

/-- There is only one last state. -/
theorem last_unique {s t u : σ} {r r' : ρ} (hst : Steps step s t) (ht : step t = .inr r)
    (hsu : Steps step s u) (hu : step u = .inr r') : t = u := by
  rcases Relation.ReflTransGen.cases_head (hst.to_last hsu hu) with rfl | ⟨c, hc, -⟩
  · rfl
  · rw [ht] at hc
    cases hc

/-- The state after `n` steps. -/
def iterate (step : σ → σ ⊕ ρ) : Nat → σ → Option σ
  | 0, s => some s
  | n + 1, s =>
    match step s with
    | .inl s' => iterate step n s'
    | .inr _ => none

theorem steps_of_iterate {n : Nat} {s t : σ} (h : iterate step n s = some t) :
    Steps step s t := by
  induction n generalizing s with
  | zero =>
    cases h
    exact .refl t
  | succ n ih =>
    simp only [iterate] at h
    split at h
    · rename_i s' hs
      exact .head hs (ih h)
    · cases h

/-! ## From some states to others -/

/-- From every state in `P` the machine gets to one in `Q`. -/
def Leads (step : σ → σ ⊕ ρ) (P Q : σ → Prop) : Prop := ∀ s, P s → ∃ t, Steps step s t ∧ Q t

namespace Leads

variable {P Q R : σ → Prop}

theorem refl (P : σ → Prop) : Leads step P P := fun s h => ⟨s, .refl s, h⟩

theorem trans (h : Leads step P Q) (h' : Leads step Q R) : Leads step P R := by
  intro s hs
  obtain ⟨t, hst, ht⟩ := h s hs
  obtain ⟨u, htu, hu⟩ := h' t ht
  exact ⟨u, hst.trans htu, hu⟩

/-- The rule of consequence. -/
theorem mono {P' Q' : σ → Prop} (h : Leads step P Q) (hP : ∀ s, P' s → P s) (hQ : ∀ s, Q s → Q' s) :
    Leads step P' Q' := by
  intro s hs
  obtain ⟨t, hst, ht⟩ := h s (hP s hs)
  exact ⟨t, hst, hQ t ht⟩

/-- Items that are read one after the other: `A done w` are the states after the items `done`, in
front of the text `w`. -/
theorem flatMap {α β : Type*} {A : List α → List β → σ → Prop} {f : α → List β} {as : List α}
    (h : ∀ done a rest, as = done ++ a :: rest → ∀ w,
      Leads step (A done (f a ++ w)) (A (done ++ [a]) w)) (w : List β) :
    Leads step (A [] (as.flatMap f ++ w)) (A as w) := by
  have hfrom (rest done : List α) (has : as = done ++ rest) :
      Leads step (A done (rest.flatMap f ++ w)) (A as w) := by
    induction rest generalizing done with
    | nil =>
      rw [List.append_nil] at has
      rw [has]
      exact refl _
    | cons a rest ih =>
      rw [List.flatMap_cons, List.append_assoc]
      exact (h done a rest has _).trans (ih (done ++ [a]) (by rw [has, List.append_assoc]; rfl))
  exact hfrom as [] rfl

end Leads

/-- A machine whose steps decrease a well-founded measure stops. -/
theorem exists_run_of_measure {β : Type*} {lt : β → β → Prop} (hwf : WellFounded lt) (μ : σ → β)
    {I : σ → Prop} (hstep : ∀ s s', I s → step s = .inl s' → I s' ∧ lt (μ s') (μ s))
    {s : σ} (hI : I s) : ∃ fuel r, Machine.run step fuel s = some r := by
  induction hb : μ s using hwf.induction generalizing s with
  | _ b ih =>
    cases hs : step s with
    | inl s' =>
      obtain ⟨hI', hlt⟩ := hstep s s' hI hs
      obtain ⟨fuel, r, hr⟩ := ih (μ s') (hb ▸ hlt) hI' rfl
      exact ⟨fuel + 1, r, by rw [run_succ_inl hs, hr]⟩
    | inr r => exact ⟨1, r, run_succ_inr hs 0⟩

end Machine

end Kbd.Lib
