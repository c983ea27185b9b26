import Kbd.Keymap.Summary

/-!
# What the probes leave in the kernel

`maximum_val` puts back what it finds in the entry. `valid_type` does not put back anything, so what
`maximum_val` finds is the value that `valid_type` has just tried, and the entry ends with the last
value for which `valid_type` succeeded.
-/

namespace Kbd.Keymap

/-- The entry holds `v` and nothing else is changed. -/
abbrev KernelKeymap.with0 (km : KernelKeymap) (v : Nat) : KernelKeymap := km.put 0 0 v

section Put

variable (km : KernelKeymap) (v w : Nat)

@[simp] theorem put_put : (km.with0 v).with0 w = km.with0 w := by
  simp [KernelKeymap.put]

@[simp] theorem put_get : (km.with0 v) 0 0 = v := by
  simp [KernelKeymap.put]

theorem put_eq_self : km.with0 v = km ↔ km 0 0 = v := by
  constructor
  · intro h
    rw [← h, put_get]
  · rintro rfl
    simp [KernelKeymap.put]

end Put

section

variable (accept : Nat → Bool)

theorem kdskbent_run (v : Nat) (km : KernelKeymap) :
    (kdskbent accept 0 0 v).run km = if accept v then (true, km.with0 v) else (false, km) := rfl

/-- The loop of `maximum_val` writes the entry, if anything. -/
theorem maximumValFrom_run (t : Nat) (vs : List Nat) (i : Nat) (km : KernelKeymap) :
    ∃ w, ((maximumValFrom accept t vs i).run km).2 = km.with0 w := by
  induction vs generalizing i km with
  | nil => exact ⟨km 0 0, ((put_eq_self km _).mpr rfl).symm⟩
  | cons v vs ih =>
    rw [maximumValFrom, StateT.run_bind, kdskbent_run]
    by_cases hv : accept (kbValue t v) = true
    · obtain ⟨w, hw⟩ := ih (i + 1) (km.with0 (kbValue t v))
      rw [put_put] at hw
      rw [if_pos hv]
      exact ⟨w, hw⟩
    · rw [if_neg hv]
      exact ⟨km 0 0, ((put_eq_self km _).mpr rfl).symm⟩

/-- `maximum_val` puts back a value that the kernel takes. -/
theorem maximumVal_run (t : Nat) {km : KernelKeymap} (h : accept (km 0 0) = true) :
    ((maximumVal accept t).run km).2 = km := by
  obtain ⟨w, hw⟩ := maximumValFrom_run accept t (List.range 256) 0 km
  have hback : ((kdskbent accept 0 0 (km 0 0)).run (km.with0 w)).2 = km := by
    rw [kdskbent_run, if_pos h, put_put]
    exact (put_eq_self km _).mpr rfl
  rw [← hw] at hback
  exact hback

/-- The values with which `valid_type` succeeds, for types in this order. -/
def probed (ts : List Nat) : List Nat := (ts.map fun t => kbValue t 0).takeWhile accept

/-- The entry ends with the last of them. -/
theorem dumpRanges_run (ts : List Nat) (km : KernelKeymap) :
    ((dumpRanges accept ts).run km).2 = ((probed accept ts).getLast?).elim km km.with0 := by
  induction ts generalizing km with
  | nil => rfl
  | cons t ts ih =>
    rw [dumpRanges, StateT.run_bind, validType, kdskbent_run]
    by_cases ht : accept (kbValue t 0) = true
    · have hprobed : probed accept (t :: ts) = kbValue t 0 :: probed accept ts := by
        simp [probed, ht]
      have hmax : ((maximumVal accept t).run (km.with0 (kbValue t 0))).2 = km.with0 (kbValue t 0) :=
        maximumVal_run accept t (by rw [put_get, ht])
      rw [if_pos ht, hprobed, List.getLast?_cons, Option.elim_some]
      change ((dumpRanges accept ts).run ((maximumVal accept t).run (km.with0 (kbValue t 0))).2).2 = _
      rw [hmax, ih]
      cases (probed accept ts).getLast? with
      | none => rfl
      | some v => exact put_put km _ v
    · have hprobed : probed accept (t :: ts) = [] := by
        simp [probed, ht]
      rw [if_neg ht, hprobed]
      rfl

/-- What `lk_dump_summary` leaves in the kernel. -/
theorem lkDumpSummary_run (ctx : LkCtx) (km : KernelKeymap) :
    ((lkDumpSummary accept ctx).run km).2 =
      ((probed accept (List.range nrTypes)).getLast?).elim km km.with0 :=
  dumpRanges_run accept (List.range nrTypes) km

/-- `lk_dump_summary` leaves the kernel as it was exactly when no trial of `valid_type` succeeds, or
the entry held already what the last successful one writes. -/
theorem lkDumpSummary_unchanged_iff (ctx : LkCtx) (km : KernelKeymap) :
    ((lkDumpSummary accept ctx).run km).2 = km ↔
      ∀ v, (probed accept (List.range nrTypes)).getLast? = some v → km 0 0 = v := by
  rw [lkDumpSummary_run]
  cases (probed accept (List.range nrTypes)).getLast? with
  | none => simp
  | some v => simpa using put_eq_self km v

end

/-- A kernel that takes every value, with a hole in the entry. -/
theorem not_lkDumpSummary_unchanged :
    ¬ ∀ (accept : Nat → Bool) (ctx : LkCtx) (km : KernelKeymap),
      ((lkDumpSummary accept ctx).run km).2 = km := by
  intro h
  have hsame := h (fun _ => true) (lkInit) (fun _ _ => kHole.toNat)
  have hlast : (probed (fun _ => true) (List.range nrTypes)).getLast? = some 0xe00 := by decide
  rw [lkDumpSummary_run, hlast, Option.elim_some, put_eq_self] at hsame
  revert hsame
  decide

end Kbd.Keymap
