import Kbd.Keymap.Programs
import Kbd.Keymap.Verify.Compose
import Kbd.Keymap.Verify.Dump
import Kbd.Keymap.Verify.ShortLines

/-!
# Contexts with the same text

What is written depends on the maps, the bindings of the keys that have lines, the strings, the entries
of the accent table, and of the settings only on the charset and on whether Unicode is preferred
(`lkDumpKeymap_congr`, `lkDumpDiacs_congr`).
-/

namespace Kbd.Keymap

open Kbd.Lib

/-! ## Codes -/

section Settings

variable {c c' : LkCtx} (hcharset : c'.charset = c.charset)

include hcharset

theorem keysymText_congr (style : PrintStyle) (code t : Int) (plus : Bool) :
    keysymText c' style code t plus = keysymText c style code t plus := by
  simp only [keysymText, codetoksym_congr hcharset]

theorem printKeysym_congr (style : PrintStyle) (code : Int) :
    printKeysym c' style code = printKeysym c style code := by
  simp only [printKeysym, codetoksym_congr hcharset, keysymText_congr hcharset]

end Settings

/-! ## The lines of the keys -/

section Lines

variable {c c' : LkCtx} {keycodeZero : Bool} {table : TableShape}
  (htotal : c'.keymap.total = c.keymap.total) (hexist : lkMapExists c' = lkMapExists c)

section Key

variable {i : Nat} (hrow : c'.rowVal i = c.rowVal i)

include htotal hrow

theorem allHoles_congr : c'.allHoles i = c.allHoles i := by
  unfold LkCtx.allHoles
  rw [htotal, hrow]

include hexist

theorem shortLines_congr (m : Bool) : c'.shortLines m i = c.shortLines m i := by
  have hzapped : c'.zapped m i = c.zapped m i := by
    funext j
    unfold LkCtx.zapped
    rw [hexist, hrow]
  have hbuf : c'.bufVal m i = c.bufVal m i := by
    funext j
    unfold LkCtx.bufVal
    rw [hzapped, hrow]
  have hletter : c'.isLetterRow i = c.isLetterRow i := by
    unfold LkCtx.isLetterRow LkCtx.expectedAt
    rw [htotal, hexist, hrow]
  have hsingle : c'.isSingle m i = c.isSingle m i := by
    unfold LkCtx.isSingle LkCtx.bad LkCtx.count LkCtx.counted
    rw [htotal, hzapped, hbuf]
  unfold LkCtx.shortLines LkCtx.singleLines LkCtx.longLines
  rw [hletter, hsingle, htotal, hexist, hzapped, hbuf, hrow]

theorem keyLines_congr (m : Bool) : c'.keyLines table m i = c.keyLines table m i := by
  unfold LkCtx.keyLines LkCtx.maps
  rw [htotal, hexist, hrow, allHoles_congr htotal hrow, shortLines_congr htotal hexist hrow]

end Key

variable (hrows : ∀ i ∈ dumpedKeys keycodeZero, c'.rowVal i = c.rowVal i)

include htotal hexist hrows

theorem dumpsAltIsMeta_congr :
    dumpsAltIsMeta keycodeZero c' table = dumpsAltIsMeta keycodeZero c table := by
  have hget (t i : Nat) (ht : lkMapExists c t = true) (hi : i ∈ dumpedKeys keycodeZero) :
      lkGetKey c' t i = lkGetKey c t i := by
    have hval := congrFun (hrows i hi) t
    rwa [LkCtx.rowVal, LkCtx.rowVal, hexist, if_pos ht, if_pos ht] at hval
  have hat (j : Nat) : altIsMetaAt keycodeZero c' j = altIsMetaAt keycodeZero c j := by
    unfold altIsMetaAt
    rw [hexist]
    dsimp only
    split
    · rename_i hmaps
      simp only [Bool.and_eq_true] at hmaps
      rw [Bool.eq_iff_iff, List.all_eq_true, List.all_eq_true]
      refine forall₂_congr fun i hi => ?_
      rw [hget j i hmaps.1.2 hi, hget _ i hmaps.2 hi]
    · rfl
  unfold dumpsAltIsMeta
  rw [htotal, funext hat]

theorem dumpLines_congr : c'.dumpLines keycodeZero table = c.dumpLines keycodeZero table := by
  have hkeys (m : Bool) : (dumpedKeys keycodeZero).flatMap (c'.keyLines table m) =
      (dumpedKeys keycodeZero).flatMap (c.keyLines table m) :=
    List.flatMap_congr fun i hi => keyLines_congr htotal hexist (hrows i hi) m
  unfold LkCtx.dumpLines
  rw [htotal, dumpsAltIsMeta_congr htotal hexist hrows]
  dsimp only
  rw [hkeys]

end Lines

/-! ## The parts of the text -/

/-- The `keymaps` line depends only on the maps. -/
theorem lkDumpKeymaps_congr {c c' : LkCtx} (htotal : c'.keymap.total = c.keymap.total)
    (hexist : lkMapExists c' = lkMapExists c) : lkDumpKeymaps c' = lkDumpKeymaps c := by
  have hstep : RangeState.step c' = RangeState.step c := by
    funext st i
    unfold RangeState.step
    rw [hexist]
  unfold lkDumpKeymaps
  rw [htotal, hstep]

/-- What lies behind the strings writes nothing. -/
theorem lkDumpFuncs_eq (c : LkCtx) {n : Nat} (hn : c.funcTable.total ≤ n) :
    lkDumpFuncs c = (List.range n).flatMap fun i => ((c.funcTable.get i).map (funcLine i)).getD [] := by
  have hrest : (List.range' c.funcTable.total (n - c.funcTable.total)).flatMap
      (fun i => ((c.funcTable.get i).map (funcLine i)).getD []) = [] := by
    rw [List.flatMap_eq_nil_iff]
    intro i hi
    rw [LkArray.get_of_total_le (List.mem_range'_1.mp hi).1]
    rfl
  rw [← range_append_range' hn, List.flatMap_append, hrest, List.append_nil]
  unfold lkDumpFuncs
  refine List.flatMap_congr fun i _ => ?_
  cases c.funcTable.get i <;> rfl

/-- Tables of strings that differ in their size only are written alike. -/
theorem lkDumpFuncs_congr {c c' : LkCtx} (h : ∀ i, c'.funcTable.get i = c.funcTable.get i) :
    lkDumpFuncs c' = lkDumpFuncs c := by
  rw [lkDumpFuncs_eq c (Nat.le_max_left _ c'.funcTable.total),
    lkDumpFuncs_eq c' (Nat.le_max_right c.funcTable.total _)]
  simp only [h]

/-- Accent tables with the same entries are written alike. -/
theorem lkDumpDiacs_congr {c c' : LkCtx} (hflags : c'.flags.preferUnicode = c.flags.preferUnicode)
    (hcharset : c'.charset = c.charset) (hholes : NoHoles c) (hholes' : NoHoles c')
    (h : liveDiacrs c' = liveDiacrs c) : lkDumpDiacs c' = lkDumpDiacs c := by
  have hline (d : LkKbdiacr) : diacLine c' d = diacLine c d := by
    simp only [diacLine, dumpComposeInput, diacResult, hflags, codetoksym_congr hcharset]
  rw [lkDumpDiacs, lkDumpDiacs, ← hholes.liveDiacrs_eq, ← hholes'.liveDiacrs_eq, h, funext hline]

/-- A context that agrees on the keys, the strings and the accent table is written alike. -/
theorem lkDumpKeymap_congr {c c' : LkCtx} {keycodeZero : Bool} {style : PrintStyle} {table : TableShape}
    (hcharset : c'.charset = c.charset) (hle : c.keymap.total ≤ maxNrKeymaps)
    (htotal : c'.keymap.total = c.keymap.total) (hexist : lkMapExists c' = lkMapExists c)
    (hrows : ∀ i ∈ dumpedKeys keycodeZero, c'.rowVal i = c.rowVal i)
    (hstrings : ∀ i, c'.funcTable.get i = c.funcTable.get i) :
    lkDumpKeymap keycodeZero c' table style = lkDumpKeymap keycodeZero c table style := by
  have hline (l : DumpLine) : l.text c' style = l.text c style := by
    cases l <;> simp only [DumpLine.text, printBind, funext (printKeysym_congr hcharset style)]
  rw [lkDumpKeymap, lkDumpKeymap, lkDumpKeys_eq hle, lkDumpKeys_eq (htotal ▸ hle),
    dumpLines_congr htotal hexist hrows, lkDumpKeymaps_congr htotal hexist,
    lkDumpFuncs_congr hstrings, funext hline]

/-- The lines of the keys and the strings do not depend on the flags. -/
theorem lkDumpKeymap_withFlags {c : LkCtx} (hle : c.keymap.total ≤ maxNrKeymaps) (f : LkFlags)
    (keycodeZero : Bool) (table : TableShape) (style : PrintStyle) :
    lkDumpKeymap keycodeZero { c with flags := f } table style =
      lkDumpKeymap keycodeZero c table style :=
  lkDumpKeymap_congr rfl hle rfl rfl (fun _ _ => rfl) fun _ => rfl

end Kbd.Keymap
