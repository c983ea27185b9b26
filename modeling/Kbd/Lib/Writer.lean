import Kbd.Lib.Result

/-!
# Writers

A writer appends items to those it has written and may fail; what it wrote before stays. `Emits` says
of a writer whether an item of some kind is written and whether it succeeds, and `Prints` what its
items are as bytes. Both are composed along sequences and loops.
-/

namespace Kbd.Lib

universe u v

/-- Computations that append to a list. -/
abbrev Writer (ε δ : Type u) := EStateM ε (List δ)

namespace Writer

variable {ε δ α β : Type u} {ι : Type v}

/-- Append one item. -/
def emit (d : δ) : Writer ε δ PUnit := modify (· ++ [d])

/-! ## Whether an item of some kind is written -/

/-- An item with `D` is written when `marks` holds, and the writer succeeds when `passes` does. -/
def Emits (D : δ → Prop) (m : Writer ε δ α) (marks passes : Prop) : Prop :=
  ∀ w, ∃ more, Result.state (m.run w) = w ++ more ∧ ((∃ d ∈ more, D d) ↔ marks) ∧
    ((∃ a w', m.run w = .ok a w') ↔ passes)

/-- A loop comes to an element with `p` when all before it have `q`. -/
def Reaches (p q : ι → Prop) : List ι → Prop
  | [] => False
  | x :: l => p x ∨ q x ∧ Reaches p q l

instance decidableReaches (p q : ι → Prop) [DecidablePred p] [DecidablePred q] : DecidablePred (Reaches p q)
  | [] => inferInstanceAs (Decidable False)
  | x :: l =>
    have := decidableReaches p q l
    inferInstanceAs (Decidable (p x ∨ q x ∧ Reaches p q l))

theorem reaches_append {p q : ι → Prop} {l m : List ι} :
    Reaches p q (l ++ m) ↔ Reaches p q l ∨ (∀ x ∈ l, q x) ∧ Reaches p q m := by
  induction l with
  | nil => simp [Reaches]
  | cons x l ih =>
    rw [List.cons_append, Reaches, Reaches, ih, List.forall_mem_cons]
    tauto

theorem not_reaches {p q : ι → Prop} {l : List ι} (h : ∀ x ∈ l, ¬ p x) : ¬ Reaches p q l := by
  induction l with
  | nil => exact id
  | cons x l ih =>
    rw [List.forall_mem_cons] at h
    rintro (hp | ⟨-, hl⟩)
    · exact h.1 hp
    · exact ih h.2 hl

/-- Loops in a loop go along the elements of all lists. -/
theorem reaches_flatten {p q : ι → Prop} {ls : List (List ι)} :
    Reaches (Reaches p q) (fun l => ∀ x ∈ l, q x) ls ↔ Reaches p q ls.flatten := by
  induction ls with
  | nil => exact Iff.rfl
  | cons l ls ih => rw [Reaches, List.flatten_cons, reaches_append, ih]

namespace Emits

variable {D : δ → Prop} {m : Writer ε δ α} {marks passes : Prop}

theorem congr {marks' passes' : Prop} (h : Emits D m marks passes) (hmarks : marks ↔ marks')
    (hpasses : passes ↔ passes') : Emits D m marks' passes' := by
  rwa [← hmarks, ← hpasses]

theorem of_pure (a : α) : Emits D (pure a : Writer ε δ α) False True := by
  intro w
  exact ⟨[], (List.append_nil w).symm, by simp, iff_of_true ⟨a, w, rfl⟩ trivial⟩

theorem of_throw (e : ε) : Emits D (throw e : Writer ε δ α) False False := by
  intro w
  refine ⟨[], (List.append_nil w).symm, by simp, iff_of_false ?_ id⟩
  rintro ⟨a, w', h⟩
  cases h

theorem of_emit (d : δ) : Emits D (emit d : Writer ε δ PUnit) (D d) True := by
  intro w
  exact ⟨[d], rfl, by simp, iff_of_true ⟨⟨⟩, w ++ [d], rfl⟩ trivial⟩

/-- The second part runs when the first succeeds. -/
theorem seq {m : Writer ε δ PUnit} {m' : Writer ε δ α} {marks' passes' : Prop}
    (h : Emits D m marks passes) (h' : Emits D m' marks' passes') :
    Emits D (m >>= fun _ => m') (marks ∨ passes ∧ marks') (passes ∧ passes') := by
  intro w
  obtain ⟨more, hstate, hmarks, hpasses⟩ := h w
  cases hm : m.run w with
  | ok a w₁ =>
    rw [hm] at hstate hpasses
    obtain rfl : w₁ = w ++ more := hstate
    have hp : passes := hpasses.mp ⟨a, _, rfl⟩
    obtain ⟨more', hstate', hmarks', hpasses'⟩ := h' (w ++ more)
    rw [Result.bind_of_ok hm]
    refine ⟨more ++ more', by rw [hstate', List.append_assoc], ?_, ?_⟩
    · simp only [List.mem_append, or_and_right, exists_or, hmarks, hmarks', hp, true_and]
    · simp only [hpasses', hp, true_and]
  | error e w₁ =>
    rw [hm] at hstate hpasses
    have hp : ¬ passes := by
      intro hp
      obtain ⟨a, w', h⟩ := hpasses.mpr hp
      cases h
    rw [Result.bind_of_error hm]
    refine ⟨more, hstate, by simp only [hmarks, hp, false_and, or_false], ?_⟩
    refine iff_of_false ?_ fun h => hp h.1
    rintro ⟨a, w', h⟩
    cases h

/-- A loop succeeds when all rounds do, and a round runs when those before it succeed. -/
theorem loop {f : ι → Writer ε δ PUnit} {p q : ι → Prop} (h : ∀ x, Emits D (f x) (p x) (q x))
    (l : List ι) : Emits D (forM l f) (Reaches p q l) (∀ x ∈ l, q x) := by
  induction l with
  | nil => exact (of_pure PUnit.unit).congr Iff.rfl (by simp)
  | cons x l ih =>
    rw [List.forM_cons]
    exact ((h x).seq ih).congr Iff.rfl List.forall_mem_cons.symm

end Emits

/-! ## What is written -/

/-- With `r` the items are those bytes and the result is `a`, or the writer fails. -/
def Prints (render : δ → List β) (m : Writer ε δ α) (r : Except ε (List β)) (a : α) : Prop :=
  ∀ w, ∃ more, match r with
    | .ok bytes => m.run w = .ok a (w ++ more) ∧ more.flatMap render = bytes
    | .error e => m.run w = .error e (w ++ more)

namespace Prints

variable {render : δ → List β} {m : Writer ε δ α} {r : Except ε (List β)} {a : α}

theorem of_pure (a : α) : Prints render (pure a : Writer ε δ α) (pure []) a := by
  intro w
  exact ⟨[], congrArg (EStateM.Result.ok a) (List.append_nil w).symm, rfl⟩

theorem of_throw (e : ε) (a : α) : Prints render (throw e : Writer ε δ α) (.error e) a := by
  intro w
  exact ⟨[], congrArg (EStateM.Result.error e) (List.append_nil w).symm⟩

theorem of_emit (d : δ) : Prints render (emit d : Writer ε δ PUnit) (pure (render d)) ⟨⟩ := by
  intro w
  exact ⟨[d], rfl, by simp⟩

theorem seq {m : Writer ε δ PUnit} {m' : Writer ε δ α} {r r' : Except ε (List β)}
    (h : Prints render m r ⟨⟩) (h' : Prints render m' r' a) :
    Prints render (m >>= fun _ => m') (do let x ← r; let y ← r'; pure (x ++ y)) a := by
  intro w
  obtain ⟨more, hm⟩ := h w
  cases r with
  | error e => exact ⟨more, Result.bind_of_error hm⟩
  | ok x =>
    obtain ⟨hm, rfl⟩ := hm
    obtain ⟨more', hm'⟩ := h' (w ++ more)
    refine ⟨more ++ more', ?_⟩
    have happend : w ++ more ++ more' = w ++ (more ++ more') := List.append_assoc ..
    cases r' with
    | error e => exact (Result.bind_of_ok hm).trans (happend ▸ hm')
    | ok y =>
      obtain ⟨hm', rfl⟩ := hm'
      exact ⟨(Result.bind_of_ok hm).trans (happend ▸ hm'), List.flatMap_append⟩

theorem loop {f : ι → Writer ε δ PUnit} {r : ι → Except ε (List β)}
    (h : ∀ x, Prints render (f x) (r x) ⟨⟩) (l : List ι) :
    Prints render (forM l f) (do let bs ← l.mapM r; pure bs.flatten) ⟨⟩ := by
  induction l with
  | nil => exact of_pure PUnit.unit
  | cons x l ih =>
    have hr : (do let bs ← (x :: l).mapM r; pure bs.flatten) =
        (do let b ← r x; let bs ← (do let bs ← l.mapM r; pure bs.flatten);
            pure (b ++ bs) : Except ε (List β)) := by
      simp only [List.mapM_cons, bind_assoc, pure_bind, List.flatten_cons]
    rw [List.forM_cons, hr]
    exact (h x).seq ih

end Prints

end Writer

end Kbd.Lib
