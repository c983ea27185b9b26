import Kbd.Keymap.Verify.Dump
import Kbd.Keymap.Verify.Include

/-!
# How many maps a keymap can have

The bounds on map numbers are checked by `range0` and by `rvalue1`, but not for a line with
modifiers: the bit of `capsshift` is beyond `MAX_NR_KEYMAPS`. Such a line is the only way to get more
than `MAX_NR_KEYMAPS` maps.
-/

namespace Kbd.Keymap

open Kbd.Lib

theorem mask_lt {m : Modifier} (h : m ≠ .capsshift) : m.mask < maxNrKeymaps := by
  cases m with
  | capsshift => exact absurd rfl h
  | _ => decide

/-- The table of a line with modifiers is in range unless one of them is `capsshift`. -/
theorem modMask_lt_iff (mods : List Modifier) :
    modMask mods < maxNrKeymaps ↔ Modifier.capsshift ∉ mods := by
  have hfold : ∀ (mods : List Modifier) (n : Nat),
      mods.foldl (fun m q => m ||| q.mask) n < maxNrKeymaps ↔
        n < maxNrKeymaps ∧ Modifier.capsshift ∉ mods := by
    intro mods
    induction mods with
    | nil => simp
    | cons q mods ih =>
      intro n
      rw [List.foldl_cons, ih, List.mem_cons, not_or, ← and_assoc]
      refine and_congr_left fun _ => ?_
      by_cases hq : q = .capsshift
      · subst hq
        have : maxNrKeymaps ≤ n ||| Modifier.mask .capsshift := Nat.right_le_or
        simp only [not_true_eq_false, and_false, iff_false, Nat.not_lt]
        exact this
      · constructor
        · intro h
          exact ⟨Nat.lt_of_le_of_lt Nat.left_le_or h, fun h' => hq h'.symm⟩
        · rintro ⟨h, -⟩
          exact Nat.or_lt_two_pow (n := 8) h (mask_lt hq)
  rw [modMask, hfold]
  exact and_iff_right (by decide)

/-- A line that defines a key of a map beyond `MAX_NR_KEYMAPS`. -/
def Stmt.isBeyond : Stmt → Prop
  | .modified mods n _ => Modifier.capsshift ∈ mods ∧ KeyInRange n
  | _ => False

theorem KeyStep.total_le {sc : Scope} {c c' : LkCtx} (h : KeyStep sc c c')
    (hadds : ∀ t, sc.adds t → t < maxNrKeymaps) (htable : ∀ t, sc.table t → t < maxNrKeymaps)
    (hc : c.keymap.total ≤ maxNrKeymaps) : c'.keymap.total ≤ maxNrKeymaps := by
  cases h with
  | addMap ht =>
    have := hadds _ ht
    rw [total_addMap]
    omega
  | @putKey t i v ht _ _ _ =>
    have : t < maxNrKeymaps := by
      rcases ht with ht | ht
      · exact Nat.lt_of_lt_of_le (lkMapExists_lt ht) hc
      · exact htable t ht
    rw [total_putKey]
    omega
  | delKey _ => rwa [total_delKey]
  | mark _ => exact hc
  | settings hm _ _ => rwa [hm]

theorem execStmt_total_le {s : Stmt} {c c' : LkCtx} (hs : ¬ s.isBeyond)
    (h : (execStmt s).run c = .ok () c') (hc : c.keymap.total ≤ maxNrKeymaps) :
    c'.keymap.total ≤ maxNrKeymaps := by
  cases s with
  | modified mods n v =>
    obtain ⟨-, rfl⟩ | ⟨hn, -, -, rfl⟩ := modifierline_cases h
    · exact hc
    · have : modMask mods < maxNrKeymaps := (modMask_lt_iff mods).mpr fun hm => hs ⟨hm, hn⟩
      rw [total_putKey]
      omega
  | _ =>
    refine execStmt_preserves (I := fun d => d.keymap.total ≤ maxNrKeymaps) (fun _ _ hd => ?_) h hc
    exact hd.total_le (fun _ ht => ht.2) (fun _ => id)

/-- A line beyond the bound leaves a map there. -/
theorem execStmt_beyond {s : Stmt} {c c' : LkCtx} (hs : s.isBeyond)
    (h : (execStmt s).run c = .ok () c') : ∃ t, maxNrKeymaps ≤ t ∧ lkMapExists c' t = true := by
  cases s with
  | modified mods n v =>
    obtain ⟨hm, hn⟩ := hs
    have hge : maxNrKeymaps ≤ modMask mods := by
      by_contra hlt
      exact (modMask_lt_iff mods).mp (Nat.not_le.mp hlt) hm
    obtain ⟨hn', -⟩ | ⟨-, -, -, rfl⟩ := modifierline_cases h
    · exact absurd hn hn'
    · exact ⟨modMask mods, hge, by rw [lkMapExists_putKey]; simp⟩
  | _ => exact absurd hs id

/-- A keymap has at most `MAX_NR_KEYMAPS` maps exactly if it has no line beyond the bound. -/
theorem runStmts_total_le_iff {ss : List Stmt} {c c' : LkCtx}
    (hc : c.keymap.total ≤ maxNrKeymaps) (h : (runStmts ss).run c = .ok () c') :
    c'.keymap.total ≤ maxNrKeymaps ↔ ∀ s ∈ ss, ¬ s.isBeyond := by
  constructor
  · intro hle s hs hbeyond
    obtain ⟨ss₁, ss₂, rfl⟩ := List.append_of_mem hs
    obtain ⟨c₁, -, h⟩ := runStmts_append_eq_ok.mp h
    obtain ⟨c₂, h₂, h⟩ := runStmts_cons_eq_ok.mp h
    obtain ⟨t, ht, hex⟩ := execStmt_beyond hbeyond h₂
    have := lkMapExists_lt (runStmts_mono h hex)
    omega
  · intro hss
    exact runStmts_preserves (I := fun d => d.keymap.total ≤ maxNrKeymaps)
      (fun s hs _ _ hd => execStmt_total_le (hss s hs) hd) h hc

/-- In a keymap that is accepted in a fresh context the number of maps, and with it every index of
`lk_dump_keys`, is in range exactly if no line with `capsshift` defines a key. -/
theorem lkParseKeymap_total_le_iff {find : FindIncl} {fuel : Nat} {flags : LkFlags} {charset : Nat}
    {stack : List (Option Kbdfile)} {fp : Kbdfile} {r : Reader}
    (h : lkParseKeymap find fuel (lkInit flags charset) stack fp = some (true, r)) :
    (r.parser.ctx.keymap.total ≤ maxNrKeymaps ∧
      ∀ keycodeZero table style, (lkDumpKeys keycodeZero r.parser.ctx table style).isSome = true) ↔
    ∀ mods n value, Stmt.modified mods n value ∈ r.parser.stmts → KeyInRange n →
      Modifier.capsshift ∉ mods := by
  have hstmts := runStmts_total_le_iff (Nat.zero_le _) (runStmts_of_accepted h)
  constructor
  · rintro ⟨hle, -⟩ mods n value hmem hn hm
    exact hstmts.mp hle _ hmem ⟨hm, hn⟩
  · intro hall
    have hle : r.parser.ctx.keymap.total ≤ maxNrKeymaps := by
      refine hstmts.mpr fun s hs hbeyond => ?_
      cases s with
      | modified mods n v => exact hall mods n v hs hbeyond.2 hbeyond.1
      | _ => exact hbeyond
    exact ⟨hle, fun z table style => (lkDumpKeys_isSome_iff z _ table style).mpr hle⟩

/-- A file with the text `text`. -/
def fileOf (text : String) : Kbdfile := ⟨0, [], bytes text⟩

theorem lkParseKeymap_total_le_iff_shift : ∃ r,
    lkParseKeymap (findText []) 12 (lkInit {} 0) emptyStack (fileOf "shift keycode 30=0x61\n") =
      some (true, r) ∧
    ((r.parser.ctx.keymap.total ≤ maxNrKeymaps ∧
      ∀ keycodeZero table style, (lkDumpKeys keycodeZero r.parser.ctx table style).isSome = true) ↔
    ∀ mods n value, Stmt.modified mods n value ∈ r.parser.stmts → KeyInRange n →
      Modifier.capsshift ∉ mods) := by
  have h : (lkParseKeymap (findText []) 12 (lkInit {} 0) emptyStack
      (fileOf "shift keycode 30=0x61\n")).any (·.1) := by
    decide +kernel
  obtain ⟨⟨ok, r⟩, hparse, hok⟩ := (Option.any_eq_true _ _).mp h
  change ok = true at hok
  subst hok
  exact ⟨r, hparse, lkParseKeymap_total_le_iff hparse⟩

/-- A line with `capsshift` is accepted and makes 257 maps. -/
theorem not_lkParseKeymap_total_le :
    ¬ ∀ find fuel flags charset fp r,
      lkParseKeymap find fuel (lkInit flags charset) emptyStack fp = some (true, r) →
        r.parser.ctx.keymap.total ≤ maxNrKeymaps ∧ ∀ keycodeZero table style,
          (lkDumpKeys keycodeZero r.parser.ctx table style).isSome = true := by
  intro hall
  have h : (lkParseKeymap (findText []) 12 (lkInit {} 0) emptyStack
      (fileOf "capsshift keycode 30=0x61\n")).any
        fun res => res.1 && decide (res.2.parser.ctx.keymap.total = 257) := by
    decide +kernel
  obtain ⟨⟨ok, r⟩, hparse, hres⟩ := (Option.any_eq_true _ _).mp h
  simp only [Bool.and_eq_true, decide_eq_true_eq] at hres
  obtain ⟨rfl, htotal⟩ := hres
  have hle := (hall _ _ _ _ _ _ hparse).1
  rw [htotal] at hle
  exact absurd hle (by decide)

end Kbd.Keymap
