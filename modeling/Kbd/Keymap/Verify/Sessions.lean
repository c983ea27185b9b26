import Kbd.Keymap.Verify.Bounds

/-!
# Several keymaps in one context

`loadkeys` reads its files one after the other into one context, and calls `lk_add_constants` once
at the end. Whatever the files say, that call finds the map it reads the single values from.
-/

namespace Kbd.Keymap

open Kbd.Lib

/-- The contexts that successful calls of `lk_parse_keymap` make of `c₀`. -/
inductive Session (c₀ : LkCtx) : LkCtx → Prop
  | fresh : Session c₀ c₀
  | parse {c : LkCtx} {find : FindIncl} {fuel : Nat} {stack : List (Option Kbdfile)} {fp : Kbdfile}
      {r : Reader} (hc : Session c₀ c) (h : lkParseKeymap find fuel c stack fp = some (true, r)) :
      Session c₀ r.parser.ctx

/-- What every keymap keeps, a session keeps. -/
theorem Session.preserves {I : LkCtx → Prop}
    (hrun : ∀ ss c c', (runStmts ss).run c = .ok () c' → I c → I c') {c₀ c : LkCtx}
    (h : Session c₀ c) (h₀ : I c₀) : I c := by
  induction h with
  | fresh => exact h₀
  | parse _ hparse ih => exact hrun _ _ _ (runStmts_of_accepted hparse) ih

/-- After any number of accepted keymaps in a fresh context, `lk_add_constants` finds its map
whenever a key has a mark, and succeeds. -/
theorem lkAddConstants_possible {flags : LkFlags} {charset : Nat} {c : LkCtx}
    (h : Session (lkInit flags charset) c) :
    (∀ i, c.keyConstant.get i = true → lkMapExists c (constantMap c) = true) ∧
      ∃ c', lkAddConstants.run c = .ok () c' := by
  have hready : Ready c := h.preserves (fun _ _ _ => runStmts_ready) (ready_lkInit flags charset)
  obtain ⟨c', hc', -⟩ := lkAddConstants_run hready.constantsReady
  exact ⟨hready.constantsReady, c', hc'⟩

/-- A `keymaps` line in one file and a marked key in the next. -/
theorem lkAddConstants_possible_keymaps : ∃ r r',
    lkParseKeymap (findText []) 12 (lkInit {} 0) emptyStack (fileOf "keymaps 2\n") = some (true, r) ∧
    lkParseKeymap (findText []) 12 r.parser.ctx emptyStack (fileOf "keycode 30=0x61\n") =
      some (true, r') ∧
    (∀ i, r'.parser.ctx.keyConstant.get i = true →
      lkMapExists r'.parser.ctx (constantMap r'.parser.ctx) = true) ∧
    ∃ c', lkAddConstants.run r'.parser.ctx = .ok () c' := by
  have h : ((lkParseKeymap (findText []) 12 (lkInit {} 0) emptyStack (fileOf "keymaps 2\n")).bind
      fun res => (lkParseKeymap (findText []) 12 res.2.parser.ctx emptyStack
        (fileOf "keycode 30=0x61\n")).map fun res' => res.1 && res'.1) = some true := by
    decide +kernel
  obtain ⟨⟨ok, r⟩, h₁, h⟩ := Option.bind_eq_some_iff.mp h
  obtain ⟨⟨ok', r'⟩, h₂, h⟩ := Option.map_eq_some_iff.mp h
  simp only [Bool.and_eq_true] at h
  obtain ⟨rfl, rfl⟩ := h
  exact ⟨r, r', h₁, h₂, lkAddConstants_possible ((Session.fresh.parse h₁).parse h₂)⟩

end Kbd.Keymap
