import Mathlib.Tactic.Common

/-!
# Computations with a state that survives failure

Rules for `EStateM`: how a sequence of actions succeeds, and what a loop over a list does.
-/

namespace Kbd.Lib

universe u v

namespace Result

variable {ε σ α β : Type u}

/-- A sequence succeeds when both parts do. -/
theorem bind_eq_ok {x : EStateM ε σ α} {f : α → EStateM ε σ β} {s s'' : σ} {b : β} :
    (x >>= f).run s = .ok b s'' ↔ ∃ a s', x.run s = .ok a s' ∧ (f a).run s' = .ok b s'' := by
  rw [EStateM.run_bind]
  cases hx : x.run s with
  | ok a s' =>
    constructor
    · intro h
      exact ⟨a, s', rfl, h⟩
    · rintro ⟨a', t, ht, h⟩
      cases ht
      exact h
  | error e s' =>
    constructor
    · intro h
      cases h
    · rintro ⟨a', t, ht, -⟩
      cases ht

theorem seq_eq_ok {x : EStateM ε σ PUnit} {f : PUnit → EStateM ε σ β} {s s'' : σ} {b : β} :
    (x >>= f).run s = .ok b s'' ↔ ∃ s', x.run s = .ok ⟨⟩ s' ∧ (f ⟨⟩).run s' = .ok b s'' := by
  rw [bind_eq_ok]
  exact ⟨fun ⟨_, h⟩ => h, fun h => ⟨⟨⟩, h⟩⟩

/-- The state at the end, also after a failure. -/
def state : EStateM.Result ε σ α → σ
  | .ok _ s => s
  | .error _ s => s

theorem bind_of_ok {x : EStateM ε σ α} {f : α → EStateM ε σ β} {s s' : σ} {a : α}
    (h : x.run s = .ok a s') : (x >>= f).run s = (f a).run s' := by
  rw [EStateM.run_bind, h]

theorem bind_of_error {x : EStateM ε σ α} {f : α → EStateM ε σ β} {s s' : σ} {e : ε}
    (h : x.run s = .error e s') : (x >>= f).run s = .error e s' := by
  rw [EStateM.run_bind, h]

end Result

/-! ## Invariants that survive failure -/

/-- `x` keeps `I`, also where it fails. -/
def Keeps {ε σ α : Type u} (I : σ → Prop) (x : EStateM ε σ α) : Prop :=
  ∀ s, I s → I (Result.state (x.run s))

namespace Keeps

variable {ε σ α β : Type u} {I : σ → Prop}

theorem pure (a : α) : Keeps I (pure a : EStateM ε σ α) := fun _ h => h

theorem throw (e : ε) : Keeps I (throw e : EStateM ε σ α) := fun _ h => h

theorem modify {f : σ → σ} (hf : ∀ s, I s → I (f s)) : Keeps I (modify f : EStateM ε σ PUnit) :=
  fun s h => hf s h

theorem bind {x : EStateM ε σ α} {f : α → EStateM ε σ β} (hx : Keeps I x)
    (hf : ∀ a, Keeps I (f a)) : Keeps I (x >>= f) := by
  intro s h
  have hs := hx s h
  cases hrun : x.run s with
  | ok a s' =>
    rw [Result.bind_of_ok hrun]
    rw [hrun] at hs
    exact hf a s' hs
  | error e s' =>
    rw [Result.bind_of_error hrun]
    rwa [hrun] at hs

/-- What comes after a `get` may use that the state it reads has the invariant. -/
theorem get_bind {f : σ → EStateM ε σ β} (hf : ∀ s, I s → I (Result.state ((f s).run s))) :
    Keeps I (get >>= f) := by
  intro s h
  have hget : (get : EStateM ε σ σ).run s = .ok s s := rfl
  rw [Result.bind_of_ok hget]
  exact hf s h

theorem ite {c : Prop} [Decidable c] {x y : EStateM ε σ α} (hx : c → Keeps I x)
    (hy : ¬ c → Keeps I y) : Keeps I (if c then x else y) := by
  split
  · exact hx ‹_›
  · exact hy ‹_›

theorem forM {ε σ : Type} {ι : Type v} {I : σ → Prop} {f : ι → EStateM ε σ PUnit} {l : List ι}
    (hf : ∀ a ∈ l, Keeps I (f a)) : Keeps I (l.forM f) := by
  induction l with
  | nil => exact pure ()
  | cons a l ih =>
    rw [List.forall_mem_cons] at hf
    exact bind hf.1 fun _ => ih hf.2

end Keeps

/-! ## Postconditions -/

/-- What a run ends with: `Q` after success, `E` after failure. -/
def Post {ε σ α : Type u} (Q : α → σ → Prop) (E : ε → Prop) : EStateM.Result ε σ α → Prop
  | .ok a s => Q a s
  | .error e _ => E e

namespace Post

variable {ε σ α β : Type u} {Q : β → σ → Prop} {R : α → σ → Prop} {E : ε → Prop} {s : σ}

theorem bind {x : EStateM ε σ α} {f : α → EStateM ε σ β} (hx : Post R E (x.run s))
    (hf : ∀ a s', R a s' → Post Q E ((f a).run s')) : Post Q E ((x >>= f).run s) := by
  cases hrun : x.run s with
  | ok a s' =>
    rw [Result.bind_of_ok hrun]
    rw [hrun] at hx
    exact hf a s' hx
  | error e s' =>
    rw [Result.bind_of_error hrun]
    rw [hrun] at hx
    exact hx

/-- A loop that counts: each round takes the invariant from its number to the next. -/
theorem forM_range {ε σ : Type} {E : ε → Prop} {f : Nat → EStateM ε σ PUnit} {I : Nat → σ → Prop}
    {n : Nat} (hf : ∀ i < n, ∀ s, I i s → Post (fun _ => I (i + 1)) E ((f i).run s)) {s : σ}
    (h : I 0 s) : Post (fun _ => I n) E (((List.range n).forM f).run s) := by
  -- the rounds from `i` on
  have hfrom (k i : Nat) (hik : i + k = n) (s : σ) (hI : I i s) :
      Post (fun _ => I n) E (((List.range' i k).forM f).run s) := by
    induction k generalizing i s with
    | zero =>
      obtain rfl : i = n := hik
      exact hI
    | succ k ih =>
      refine bind (hf i (by omega) s hI) fun _ s' hs' => ?_
      exact ih (i + 1) (by omega) s' hs'
  rw [List.range_eq_range']
  exact hfrom n 0 (Nat.zero_add n) s h

end Post

section Loop

variable {ε σ : Type} {ι : Type v}

/-- A loop over a list succeeds when each round does, in order. -/
theorem forM_cons_eq_ok {f : ι → EStateM ε σ PUnit} {a : ι} {l : List ι} {s s'' : σ} :
    (forM (a :: l) f).run s = .ok () s'' ↔
      ∃ s', (f a).run s = .ok () s' ∧ (forM l f).run s' = .ok () s'' := by
  rw [List.forM_cons, Result.bind_eq_ok]
  exact ⟨fun ⟨_, h⟩ => h, fun h => ⟨(), h⟩⟩

theorem forM_nil_eq_ok {f : ι → EStateM ε σ PUnit} {s s' : σ} :
    (forM ([] : List ι) f).run s = .ok () s' ↔ s' = s := by
  simp [eq_comm]

theorem forM_append_eq_ok {f : ι → EStateM ε σ PUnit} {l m : List ι} {s s'' : σ} :
    (forM (l ++ m) f).run s = .ok () s'' ↔
      ∃ s', (forM l f).run s = .ok () s' ∧ (forM m f).run s' = .ok () s'' := by
  induction l generalizing s with
  | nil =>
    simp only [List.nil_append, forM_nil_eq_ok]
    constructor
    · intro h
      exact ⟨s, rfl, h⟩
    · rintro ⟨s', rfl, h⟩
      exact h
  | cons a l ih =>
    simp only [List.cons_append, forM_cons_eq_ok, ih]
    constructor
    · rintro ⟨s₁, h₁, s₂, h₂, h⟩
      exact ⟨s₂, ⟨s₁, h₁, h₂⟩, h⟩
    · rintro ⟨s₂, ⟨s₁, h₁, h₂⟩, h⟩
      exact ⟨s₁, h₁, s₂, h₂, h⟩

theorem forM_concat_eq_ok {f : ι → EStateM ε σ PUnit} {l : List ι} {a : ι} {s s'' : σ} :
    (forM (l ++ [a]) f).run s = .ok () s'' ↔
      ∃ s', (forM l f).run s = .ok () s' ∧ (f a).run s' = .ok () s'' := by
  simp only [forM_append_eq_ok, forM_cons_eq_ok, forM_nil_eq_ok, exists_eq_right']

/-- A relation between the state before and after that each round of a loop extends. -/
theorem forM_rel {f : ι → EStateM ε σ PUnit} {R : σ → σ → Prop} (hrefl : ∀ s, R s s)
    (htrans : ∀ {a b c}, R a b → R b c → R a c) {l : List ι}
    (hf : ∀ a ∈ l, ∀ s s', (f a).run s = .ok () s' → R s s') {s s' : σ}
    (h : (forM l f).run s = .ok () s') : R s s' := by
  induction l generalizing s with
  | nil =>
    rw [forM_nil_eq_ok] at h
    subst h
    exact hrefl _
  | cons a l ih =>
    obtain ⟨t, ht, h⟩ := forM_cons_eq_ok.mp h
    exact htrans (hf a List.mem_cons_self s t ht)
      (ih (fun b hb => hf b (List.mem_cons_of_mem a hb)) h)

/-- A loop whose rounds all go from `s` to `step s a` computes the fold of `step`, as long as an
invariant lets each round succeed. -/
theorem forM_eq_foldl {f : ι → EStateM ε σ PUnit} {step : σ → ι → σ} {I : σ → Prop} {l : List ι}
    (hf : ∀ a ∈ l, ∀ s, I s → (f a).run s = .ok () (step s a) ∧ I (step s a)) {s : σ} (hs : I s) :
    (forM l f).run s = .ok () (l.foldl step s) := by
  induction l generalizing s with
  | nil => rfl
  | cons a l ih =>
    obtain ⟨h, hI⟩ := hf a List.mem_cons_self s hs
    rw [forM_cons_eq_ok]
    exact ⟨step s a, h, ih (fun b hb => hf b (List.mem_cons_of_mem a hb)) hI⟩

end Loop

end Kbd.Lib
