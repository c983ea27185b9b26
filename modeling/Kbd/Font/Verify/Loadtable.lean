import Kbd.Font.Verify.Restore

/-!
# The pairs of a table

`do_loadtable` sends the single code points of a table to the kernel. The fields of a pair are of type
`unsigned short`, and the numbers are cut to it: a code point beyond the basic plane is sent as another
one.
-/

namespace Kbd.Font

/-! ## A list that is cut -/

/-- A list whose elements are cut is what fits of it, in some order, only if all of it fits. -/
theorem map_perm_filter_iff {α : Type} {f : α → α} {p : α → Bool} (hf : ∀ x, f (f x) = f x)
    (l : List α) : (l.map f).Perm (l.filter p) ↔ ∀ x ∈ l, p x = true ∧ f x = x := by
  constructor
  · intro hperm
    have hlen : (l.filter p).length = l.length := by
      rw [← hperm.length_eq, List.length_map]
    have hall : ∀ x ∈ l, p x = true := List.length_filter_eq_length_iff.mp hlen
    intro x hx
    refine ⟨hall x hx, ?_⟩
    obtain ⟨y, -, hy⟩ := List.mem_map.mp (hperm.symm.subset (List.mem_filter.mpr ⟨hx, hall x hx⟩))
    rw [← hy, hf]
  · intro h
    have hmap : l.map f = l := by
      conv_rhs => rw [← List.map_id l]
      exact List.map_congr_left fun x hx => (h x hx).2
    rw [List.filter_eq_self.mpr fun x hx => (h x hx).1, hmap]

/-! ## What is sent -/

/-- A code point and the position of the glyph that lists it. -/
abbrev Listed := Unicode × Nat

/-- The single code points of the glyphs of a table. -/
def singles (uclistheads : List UnicodeList) : List Listed :=
  uclistheads.zipIdx.flatMap fun (ul, i) => ul.filterMap fun us =>
    match us with
    | [uc] => some (uc, i)
    | _ => none

/-- The casts of `do_loadtable`. -/
def cutPair (x : Listed) : Listed := (x.1 % 65536, x.2 % 65536)

/-- A pair that is sent, as numbers. -/
def Unipair.listed (p : Unipair) : Listed := ((p.unicode : Int), p.fontpos)

theorem cutPair_cutPair (x : Listed) : cutPair (cutPair x) = cutPair x := by
  simp [cutPair]

theorem cutPair_eq_iff (x : Listed) : cutPair x = x ↔ 0 ≤ x.1 ∧ x.1 ≤ 0xFFFF ∧ x.2 ≤ 0xFFFF := by
  have hu : ∀ u : Int, u % 65536 = u ↔ 0 ≤ u ∧ u ≤ 0xFFFF := by omega
  have hi : ∀ i : Nat, i % 65536 = i ↔ i ≤ 0xFFFF := by omega
  obtain ⟨u, i⟩ := x
  rw [cutPair, Prod.mk.injEq, hu, hi, and_assoc]

theorem listed_tablePairs (uclistheads : List UnicodeList) :
    (tablePairs uclistheads).map Unipair.listed = (singles uclistheads).map cutPair := by
  rw [tablePairs, singles, List.map_flatMap, List.map_flatMap]
  refine List.flatMap_congr fun q _ => ?_
  obtain ⟨ul, i⟩ := q
  rw [List.map_filterMap, List.map_filterMap]
  refine List.filterMap_congr fun us _ => ?_
  rcases us with _ | ⟨uc, _ | ⟨uc', us⟩⟩
  · rfl
  · have h := Int.emod_nonneg uc (show (65536 : Int) ≠ 0 by decide)
    simp only [Option.map_some, Unipair.listed, cutPair, Int.toNat_of_nonneg h]
  · rfl

theorem length_tablePairs (uclistheads : List UnicodeList) :
    (tablePairs uclistheads).length = (singles uclistheads).length := by
  have := congrArg List.length (listed_tablePairs uclistheads)
  rwa [List.length_map, List.length_map] at this

/-- When `do_loadtable` succeeds, the pairs that the kernel gets are those of the single code points
that a pair can hold. -/
def SendsSingles (uclistheads : List UnicodeList) (fontsize : Nat) : Prop :=
  ∀ (k : Kernel) (tr tr' : Trace), (doLoadtable k uclistheads fontsize).run tr = .ok () tr' →
    ∃ ps, MapSent ps tr tr' ∧
      (ps.map Unipair.listed).Perm
        ((singles (uclistheads.take fontsize)).filter fun x => x.1 ≤ 0xFFFF)

/-- Every single code point and the position of its glyph are of type `unsigned short`. -/
def SinglesFit (uclistheads : List UnicodeList) (fontsize : Nat) : Prop :=
  ∀ x ∈ singles (uclistheads.take fontsize), 0 ≤ x.1 ∧ x.1 ≤ 0xFFFF ∧ x.2 ≤ 0xFFFF

theorem perm_singles_iff (uclistheads : List UnicodeList) (fontsize : Nat) :
    ((tablePairs (uclistheads.take fontsize)).map Unipair.listed).Perm
        ((singles (uclistheads.take fontsize)).filter fun x => x.1 ≤ 0xFFFF) ↔
      SinglesFit uclistheads fontsize := by
  rw [listed_tablePairs, map_perm_filter_iff cutPair_cutPair]
  refine forall₂_congr fun x _ => ?_
  rw [cutPair_eq_iff, decide_eq_true_eq]
  exact ⟨fun h => h.2, fun h => ⟨h.2.1, h⟩⟩

theorem doLoadtable_sent {k : Kernel} {uclistheads : List UnicodeList} {fontsize : Nat} {tr tr' : Trace}
    (h : (doLoadtable k uclistheads fontsize).run tr = .ok () tr') :
    MapSent (tablePairs (uclistheads.take fontsize)) tr tr' := by
  rw [doLoadtable] at h
  split at h
  · cases h
  · exact kfontPutUnicodemap_sent h

theorem SendsSingles.fit {uclistheads : List UnicodeList} {fontsize : Nat}
    (h : SendsSingles uclistheads fontsize)
    (hcount : (singles (uclistheads.take fontsize)).length ≤ 65535) :
    SinglesFit uclistheads fontsize := by
  have htakes : TakesMap acceptingKernel (tablePairs (uclistheads.take fontsize)) :=
    ⟨fun _ _ => rfl, fun _ => rfl⟩
  have hrun : (doLoadtable acceptingKernel uclistheads fontsize).run [] =
      .ok () ([] ++ [.pioUnimapclr 0, .pioUnimap (tablePairs (uclistheads.take fontsize))]) := by
    rw [doLoadtable, if_neg (by rw [length_tablePairs]; omega)]
    exact htakes.run []
  obtain ⟨ps, hsent, hperm⟩ := h acceptingKernel [] _ hrun
  have hps := hsent.only _ (doLoadtable_sent hrun).sent
  rw [← hps] at hperm
  exact (perm_singles_iff uclistheads fontsize).mp hperm

/-- A table is sent as it should be exactly when its numbers fit, or when it is always refused for
having too many. -/
theorem sendsSingles_iff (uclistheads : List UnicodeList) (fontsize : Nat) :
    SendsSingles uclistheads fontsize ↔
      65535 < (singles (uclistheads.take fontsize)).length ∨ SinglesFit uclistheads fontsize := by
  constructor
  · intro h
    by_cases hcount : (singles (uclistheads.take fontsize)).length ≤ 65535
    · exact Or.inr (h.fit hcount)
    · exact Or.inl (by omega)
  · rintro (hmany | hfit) k tr tr' hrun
    · rw [doLoadtable, if_pos (by rw [length_tablePairs]; omega)] at hrun
      cases hrun
    · exact ⟨_, doLoadtable_sent hrun, (perm_singles_iff uclistheads fontsize).mpr hfit⟩

/-- A font with one glyph, for U+1F600. -/
theorem not_sendsSingles_emoji : ¬ SendsSingles [[[0x1F600]]] 1 := by
  intro h
  have hfit := h.fit (by decide) (0x1F600, 0) (by decide)
  exact absurd hfit.2.1 (by decide)

end Kbd.Font
