import Kbd.Keymap.Verify.Pipeline

/-!
# Converting the text of a keymap

What `loadkeys` reads in the text of `dumpkeys` it writes, in any shape, as `dumpkeys` does, as long as
the lines of each key give its bindings back (`loadkeys_dumpkeys_tkeymap`). So the text is a normal form.
-/

namespace Kbd.Keymap

open Kbd.Lib

/-! ## Writing what has been read -/

section Again

variable {keycodeZero : Bool} {table : TableShape} {c d d' : LkCtx}

/-- Where the lines give the bindings of all keys back, the rows are those that were written. -/
theorem WrittenAs.rowVal_eq (h : WrittenAs keycodeZero table c d)
    (hrun : lkAddConstants.run d = .ok () d')
    (hback : ∀ i ∈ dumpedKeys keycodeZero, c.GivesBack keycodeZero table i) {i : Nat}
    (hi : i ∈ dumpedKeys keycodeZero) : d'.rowVal i = c.rowVal i := by
  have hu := rowsUpdate_of_run hrun
  have hmaps : lkMapExists d' = lkMapExists c := hu.exist.trans h.maps
  funext t
  rw [LkCtx.rowVal, hmaps]
  split
  · rename_i ht
    rw [lkGetKey_eq_row (hmaps ▸ ht), hu.row, h.rows i t ht]
    split
    · exact (readVal_eq_iff hi).mpr (hback i hi) t ht
    · rename_i hno
      -- a key without lines has holes only
      have hholes : c.allHoles i = true := by
        by_contra hne
        exact hno ⟨hi, .inr (Bool.eq_false_iff.mpr hne)⟩
      exact (rowVal_of_allHoles hholes).symm
  · rename_i ht
    exact (rowVal_of_not_exists (Bool.eq_false_iff.mpr ht)).symm

/-- What has been read is written as what was written would be, in any shape. -/
theorem WrittenAs.lkDumpKeymap_eq (h : WrittenAs keycodeZero table c d)
    (hrun : lkAddConstants.run d = .ok () d') (hcharset : d'.charset = c.charset)
    (htight : MapsTight d') (htight' : MapsTight c) (hle : c.keymap.total ≤ maxNrKeymaps)
    (hback : ∀ i ∈ dumpedKeys keycodeZero, c.GivesBack keycodeZero table i) (shape : TableShape)
    (style : PrintStyle) :
    lkDumpKeymap keycodeZero d' shape style = lkDumpKeymap keycodeZero c shape style := by
  have hu := rowsUpdate_of_run hrun
  have hmaps : lkMapExists d' = lkMapExists c := hu.exist.trans h.maps
  refine lkDumpKeymap_congr hcharset hle (total_eq_of_exist htight htight' hmaps) hmaps
    (fun i hi => h.rowVal_eq hrun hback hi) fun i => ?_
  rw [hu.settings.funcTable]
  exact h.strings i

end Again

/-! ## The programs -/

/-- The options with which `loadkeys` writes the keymap in some shape. -/
structure LoadkeysOptions.Converts (opts : LoadkeysOptions) (shape : TableShape) : Prop where
  bkeymap : opts.bkeymap = false
  mktable : opts.mktable = false
  parse : opts.parse = false
  tkeymap : opts.tkeymap = some shape
  exclusive : (opts.unicode && opts.ascii) = false

/-- No console is looked at. -/
theorem LoadkeysOptions.Converts.console {opts : LoadkeysOptions} {shape : TableShape}
    (h : opts.Converts shape) : opts.console = false := by
  rw [LoadkeysOptions.console, h.tkeymap, Option.isNone_some, Bool.and_false]

theorem LoadkeysOptions.Converts.flags {opts : LoadkeysOptions} {shape : TableShape}
    (h : opts.Converts shape) (kbdMode : Option Int) :
    loadkeysFlags opts kbdMode = loadkeysFlags opts none := by
  simp [loadkeysFlags, h.console]

theorem loadkeys_tkeymap_eq (keycodeZero : Bool) (host : Endian) (ioctl : Ioctl) {find : FindIncl}
    {fuel : Nat} {opts : LoadkeysOptions} {shape : TableShape} (hopts : opts.Converts shape)
    (kbdMode : Option Int) {fp : Kbdfile} {r : Reader} {d : LkCtx} {keymap : List Char}
    (hparse : lkParseKeymap find fuel (lkInit (loadkeysFlags opts none)) emptyStack fp = some (true, r))
    (hadd : lkAddConstants.run r.parser.ctx = .ok () d)
    (hdump : lkDumpKeymap keycodeZero d shape opts.style = some keymap) :
    loadkeys keycodeZero host find fuel ioctl opts kbdMode [.found fp] =
      some { success := true, output := keymap ++ lkDumpDiacs d } := by
  have hkeymap : (lkDumpKeymap2 keycodeZero shape opts.style).run r.parser.ctx =
      .ok (some keymap) d := by
    unfold lkDumpKeymap2
    rw [Result.bind_of_ok hadd, ← hdump]
    rfl
  simp only [loadkeys, hopts.exclusive, hopts.console, Bool.false_and, Bool.false_eq_true, ↓reduceIte,
    hopts.flags kbdMode, readFiles_singleton hparse, loadkeysAct, hopts.parse, hopts.bkeymap,
    hopts.mktable, hopts.tkeymap, hkeymap, Option.map_some]

/-- The text that `dumpkeys` writes is converted by `loadkeys` into the text that `dumpkeys` writes in
another shape; in particular it is a normal form. -/
theorem loadkeys_dumpkeys_tkeymap {k : Keyboard} (hk : k.Valid) {mode : Int} {dopts : DumpkeysOptions}
    {lopts : LoadkeysOptions} {shape : TableShape} (hdopts : dopts.Whole)
    (hlopts : lopts.Converts shape) (hunicode : lopts.unicode = decide (mode = kUnicode))
    (hcount : (if dopts.table = .fullTable then 2 else 1) ≤ k.maps.length)
    (hprints : k.Prints (decide (mode = kUnicode)) dopts.style) (keycodeZero : Bool)
    (host : Endian) (find : FindIncl) (id : Nat) (pathname : List Char) :
    ∃ c text fuel, (lkKernelKeymap k.reader).run (lkInit (dumpkeysFlags mode)) = .ok () c ∧
      dumpkeys keycodeZero dopts (some mode) k.reader = some { success := true, output := text } ∧
      ((∀ i ∈ dumpedKeys keycodeZero, c.GivesBack keycodeZero dopts.table i) →
        ∀ (ioctl : Ioctl) (kbdMode : Option Int),
          loadkeys keycodeZero host find fuel ioctl lopts kbdMode [.found ⟨id, pathname, text⟩] =
            dumpkeys keycodeZero { dopts with table := shape, numeric := lopts.dumpNumeric }
              (some mode) k.reader) := by
  have hprefer : (loadkeysFlags lopts none).preferUnicode = decide (mode = kUnicode) := by
    simp [loadkeysFlags, hlopts.console, hunicode]
  obtain ⟨c, keymap, fuel, r, hrun, hholds, -, htext, hparse, hpf, hwritten⟩ :=
    dumpkeys_read hk hdopts hprefer hcount hprints keycodeZero find id pathname
  refine ⟨c, _, fuel, hrun, htext, fun hback ioctl kbdMode => ?_⟩
  obtain ⟨d', hadd, hu⟩ := lkAddConstants_run hwritten.ready
  -- what would be written in the other shape
  obtain ⟨keymap', hdump⟩ : ∃ keymap',
      lkDumpKeymap keycodeZero c shape lopts.style = some keymap' :=
    ⟨_, by rw [lkDumpKeymap, lkDumpKeys_eq hholds.total_le]; rfl⟩
  have hcharset := hu.settings.charset.trans hwritten.charset
  have hkeymap := hwritten.lkDumpKeymap_eq hadd hcharset (mapsTight_of_parsed hparse hadd)
    hholds.tight hholds.total_le hback shape lopts.style
  rw [lkDumpKeymap_withFlags hholds.total_le, hdump] at hkeymap
  have hdiacs : lkDumpDiacs d' = lkDumpDiacs c := by
    refine lkDumpDiacs_congr ?_ hcharset hholds.noHoles (fun i => ?_) ?_
    · rw [hu.settings.flags, hwritten.flags, hpf]
    · rw [hu.settings.accentTable]
      exact hwritten.noHoles i
    · rw [liveDiacrs, hu.settings.accentTable]
      exact hwritten.accents
  rw [loadkeys_tkeymap_eq keycodeZero host ioctl hlopts kbdMode hparse hadd hkeymap,
    hdiacs]
  exact (@dumpkeys_eq keycodeZero { dopts with table := shape, numeric := lopts.dumpNumeric }
    ⟨hdopts.funcsOnly, hdopts.keysOnly, hdopts.diacOnly⟩ mode _ _ _ hrun hholds.keyConstant hdump).symm

/-- Separate lines are converted into short ones. -/
theorem loadkeys_dumpkeys_tkeymap_small : ∃ text fuel,
    dumpkeys false { table := .separateLines } (some kUnicode) smallKeyboard.reader =
      some { success := true, output := text } ∧
    ∀ ioctl kbdMode, loadkeys false .little (findText []) fuel ioctl
        { unicode := true, tkeymap := some .default } kbdMode [.found ⟨0, [], text⟩] =
      dumpkeys false {} (some kUnicode) smallKeyboard.reader := by
  obtain ⟨c, text, fuel, -, hdump, hload⟩ := @loadkeys_dumpkeys_tkeymap _ smallKeyboard_valid kUnicode
    { table := .separateLines } { unicode := true, tkeymap := some .default } .default ⟨rfl, rfl, rfl⟩
    ⟨rfl, rfl, rfl, rfl, rfl⟩ rfl (by decide) smallKeyboard_prints false .little (findText []) 0 []
  refine ⟨text, fuel, hdump, hload fun i _ hshort => ?_⟩
  rcases hshort with hno | hno <;> cases hno

end Kbd.Keymap
