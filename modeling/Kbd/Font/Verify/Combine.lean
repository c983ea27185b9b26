import Kbd.Font.Verify.Merge
import Kbd.Lib.Chase

/-!
# Combine files

`kfont_load_font` hands the names in a combine file to `kfont_load_fonts`, which calls
`kfont_load_font` again when there is one name. Nothing counts these calls: they come to an end when
no such file leads back to itself.
-/

namespace Kbd.Font

open Kbd.Lib

/-- The names in a file, if it is a combine file. -/
def combined (file : List UInt8) : Option (List (List Char)) :=
  let text := file.map fun b => Char.ofNat b.toNat
  if file.length ≤ maxFontSize ∧ combineheader.isPrefixOf text then
    (combineNames (text.drop combineheader.length) [] 0).toOption
  else none

/-- A file that starts with a number sign is no PSF file. -/
theorem readPsfHeader_numberSign (rest : List UInt8) :
    readPsfHeader (0x23 :: rest) = .error .notPsf := by
  have h1 : psf1Magic.isPrefixOf (0x23 :: rest) = false := rfl
  have h2 : psf2Magic.isPrefixOf (0x23 :: rest) = false := rfl
  simp [readPsfHeader, h1, h2]

theorem readPsffontFile_of_combineheader {file : List UInt8}
    (h : combineheader.isPrefixOf (file.map fun b => Char.ofNat b.toNat) = true) (fontpos0 : Nat)
    (heads : Option (List UnicodeList)) :
    ∃ e, readPsffontFile file fontpos0 heads = .error e := by
  obtain ⟨text, htext⟩ : ∃ text, combineheader = '#' :: text := ⟨_, rfl⟩
  cases file with
  | nil => cases h
  | cons b rest =>
    have hb : b = 0x23 := by
      rw [htext, List.map_cons, List.isPrefixOf_cons_cons, Bool.and_eq_true] at h
      have hchar : Char.ofNat b.toNat = '#' := (by simpa using h.1 : '#' = Char.ofNat b.toNat).symm
      have hlt := b.toNat_lt
      have hnat : (Char.ofNat b.toNat).toNat = b.toNat := by
        rw [Char.ofNat, dif_pos (Or.inl (by omega))]
        rfl
      rw [hchar] at hnat
      exact UInt8.toNat_inj.mp hnat.symm
    rw [readPsffontFile, readFontfile]
    split
    · exact ⟨_, rfl⟩
    · simp only [kfontReadPsffont, hb, readPsfHeader_numberSign, bind, Except.bind]
      exact ⟨_, rfl⟩

theorem classifyFont_combine {file : List UInt8} {iunit hwunit : Nat} {noU : Bool}
    {ifiles : List (List Char)} :
    classifyFont file iunit hwunit noU = .ok (.combine ifiles) ↔ combined file = some ifiles := by
  by_cases hcombine : file.length ≤ maxFontSize ∧
      combineheader.isPrefixOf (file.map fun b => Char.ofNat b.toNat) = true
  · obtain ⟨e, he⟩ := readPsffontFile_of_combineheader hcombine.2 0 (if noU then none else some [])
    have hfile : readFontfile file = .ok file := if_neg (by omega)
    simp only [classifyFont, he, hfile, Except.toOption, Option.getD_some, hcombine.1, hcombine.2,
      and_self, if_true, combined]
    cases combineNames ((file.map fun b => Char.ofNat b.toNat).drop combineheader.length) [] 0 with
    | error e => simp [Except.map]
    | ok names => simp [Except.map]
  · have hnone : combined file = none := if_neg hcombine
    rw [hnone]
    refine iff_of_false ?_ (by simp)
    rw [classifyFont]
    split
    · simp
    · have hpre : combineheader.isPrefixOf
          (((readFontfile file).toOption.getD []).map fun b => Char.ofNat b.toNat) = false := by
        rw [readFontfile]
        split
        · rfl
        · rename_i hle
          exact Bool.eq_false_iff.mpr fun hpre => hcombine ⟨by omega, hpre⟩
      simp only [hpre]
      cases bareFont ((readFontfile file).toOption.getD []) iunit hwunit with
      | error e => simp [Except.map]
      | ok args => simp [Except.map]

/-! ## Files with one name -/

/-- The file opened for `a` is a combine file whose only name is `b`. -/
def Refers (dirs : FontDirs) (iunit : Nat) (a b : List Char) : Prop :=
  ∃ file, openFont dirs a iunit = some file ∧ combined file = some [b]

/-- The height that is asked for tells which default font is opened, and it may be forgotten
then. -/
theorem openFont_effectiveIunit (dirs : FontDirs) (a b : List Char) (iunit : Nat) :
    openFont dirs b (effectiveIunit a iunit) = openFont dirs b iunit := by
  rw [effectiveIunit]
  split
  · rename_i h
    simp [openFont, h.2]
  · rfl

theorem refers_effectiveIunit (dirs : FontDirs) (a : List Char) (iunit : Nat) :
    Refers dirs (effectiveIunit a iunit) = Refers dirs iunit := by
  funext b c
  simp only [Refers, openFont_effectiveIunit]

section Load

variable (k : Kernel) (dirs : FontDirs) (doubleSize : Bool) (hwunit : Nat) (noU : Bool)

/-- A call for a combine file with one name is a call for that name. -/
theorem kfontLoadFont_of_refers {a b : List Char} {iunit : Nat} (h : Refers dirs iunit a b)
    (depth : Nat) :
    kfontLoadFont k dirs doubleSize hwunit noU (depth + 1) a iunit =
      kfontLoadFont k dirs doubleSize hwunit noU depth b (effectiveIunit a iunit) := by
  obtain ⟨file, hfile, hcombined⟩ := h
  simp only [kfontLoadFont, hfile, classifyFont_combine.mpr hcombined]

/-- Any other call ends. -/
theorem kfontLoadFont_of_not_refers {a : List Char} {iunit : Nat}
    (h : ∀ b, ¬ Refers dirs iunit a b) (depth : Nat) :
    (kfontLoadFont k dirs doubleSize hwunit noU (depth + 1) a iunit).isSome := by
  rw [kfontLoadFont]
  split
  · rfl
  rename_i file hfile
  dsimp only
  split
  · rfl
  · rfl
  · rename_i b hb
    exact absurd ⟨file, hfile, classifyFont_combine.mp hb⟩ (h b)
  · rfl

theorem kfontLoadFont_of_cyclic (depth : Nat) {a : List Char} {iunit : Nat}
    (h : Chase.Cyclic (Refers dirs iunit) a) :
    kfontLoadFont k dirs doubleSize hwunit noU depth a iunit = none := by
  induction depth generalizing a iunit with
  | zero => rfl
  | succ depth ih =>
    obtain ⟨b, hab, hb⟩ := h.step
    rw [kfontLoadFont_of_refers k dirs doubleSize hwunit noU hab]
    rw [← refers_effectiveIunit dirs a] at hb
    exact ih hb

end Load

theorem orElse_eq_some {α : Type} {x y : Option α} {a : α} (h : (x <|> y) = some a) :
    x = some a ∨ y = some a := by
  cases x with
  | none => exact Or.inr h
  | some b => exact Or.inl h

theorem exists_findfont_of_openFont {dirs : FontDirs} {a : List Char} {iunit : Nat}
    {file : List UInt8} (h : openFont dirs a iunit = some file) :
    ∃ name, dirs.findfont name = some file := by
  rw [openFont] at h
  split at h
  · dsimp only at h
    generalize (if iunit > 32 then 0 else iunit) = height at h
    split at h
    · rcases orElse_eq_some h with h | h
      · exact ⟨_, h⟩
      rcases orElse_eq_some h with h | h
      · exact ⟨_, h⟩
      rcases orElse_eq_some h with h | h
      · exact ⟨_, h⟩
      · exact ⟨_, h⟩
    · rcases orElse_eq_some h with h | h
      · exact ⟨_, h⟩
      · exact ⟨_, h⟩
  · exact ⟨_, h⟩

/-- A file system has finitely many files, so that only finitely many names are referred to. -/
theorem finite_refers {dirs : FontDirs} (hfin : (Set.range dirs.findfont).Finite) (iunit : Nat) :
    {b | ∃ a, Refers dirs iunit a b}.Finite := by
  refine ((hfin.image fun file => (file.bind combined).bind List.head?).preimage
    (f := some) (Option.some_injective _).injOn).subset ?_
  rintro b ⟨a, file, hfile, hcombined⟩
  obtain ⟨name, hname⟩ := exists_findfont_of_openFont hfile
  refine ⟨some file, ⟨name, hname⟩, ?_⟩
  simp [hcombined]

/-- A call ends when no cycle is reached. -/
theorem kfontLoadFont_of_not_cyclic (k : Kernel) {dirs : FontDirs}
    (hfin : (Set.range dirs.findfont).Finite) (doubleSize : Bool) (hwunit : Nat) (noU : Bool)
    {ifil : List Char} {iunit : Nat} (hacyclic : ¬ Chase.Cyclic (Refers dirs iunit) ifil) :
    ∃ depth, (kfontLoadFont k dirs doubleSize hwunit noU depth ifil iunit).isSome := by
  by_contra hendless
  -- the calls that do not end, whatever height they still know of
  let Endless (a : List Char) : Prop := ∃ i, Refers dirs i = Refers dirs iunit ∧
    ∀ depth, kfontLoadFont k dirs doubleSize hwunit noU depth a i = none
  have hstep : ∀ a, Endless a → ∃ b, Refers dirs iunit a b ∧ Endless b := by
    rintro a ⟨i, hi, ha⟩
    by_contra hno
    have hnot : ∀ b, ¬ Refers dirs i a b := by
      intro b hb
      refine hno ⟨b, hi ▸ hb, effectiveIunit a i, ?_, ?_⟩
      · rw [refers_effectiveIunit, hi]
      · intro depth
        rw [← kfontLoadFont_of_refers k dirs doubleSize hwunit noU hb]
        exact ha (depth + 1)
    have hsome := kfontLoadFont_of_not_refers k dirs doubleSize hwunit noU hnot 0
    rw [ha 1] at hsome
    cases hsome
  refine hacyclic (Chase.cyclic_of_step (finite_refers hfin iunit) hstep ⟨iunit, rfl, ?_⟩)
  intro depth
  cases hload : kfontLoadFont k dirs doubleSize hwunit noU depth ifil iunit with
  | none => rfl
  | some m => exact absurd ⟨depth, by rw [hload]; rfl⟩ hendless

/-- Loading a font ends exactly when no combine file with one name that is met leads back to
itself; several fonts are always loaded without such calls. -/
theorem kfontLoadFont_ends_iff (k : Kernel) {dirs : FontDirs}
    (hfin : (Set.range dirs.findfont).Finite) (doubleSize : Bool) (hwunit : Nat) (noU : Bool)
    (ifil : List Char) (iunit : Nat) :
    ((∃ depth, (kfontLoadFont k dirs doubleSize hwunit noU depth ifil iunit).isSome) ↔
      ¬ ∃ a, Relation.ReflTransGen (Refers dirs iunit) ifil a ∧
        Relation.TransGen (Refers dirs iunit) a a) ∧
    ∀ ifiles : List (List Char), ifiles.length ≠ 1 → ∀ depth,
      (kfontLoadFonts k dirs doubleSize hwunit noU depth ifiles iunit).isSome := by
  refine ⟨⟨?_, kfontLoadFont_of_not_cyclic k hfin doubleSize hwunit noU⟩, ?_⟩
  · rintro ⟨depth, hdepth⟩ hcyclic
    rw [kfontLoadFont_of_cyclic k dirs doubleSize hwunit noU depth hcyclic] at hdepth
    cases hdepth
  · intro ifiles hlen depth
    rw [kfontLoadFonts]
    · rfl
    · rintro ifil rfl
      exact hlen rfl

/-- A combine file with the name `b` under the name `a`, and a font under the name `f`. -/
def combineFonts (b : List Char) : FontDirs where
  findfont ifil := if ifil = ['a'] then
      some ((combineheader ++ b ++ ['\n']).map fun c => UInt8.ofNat c.toNat)
    else if ifil = ['f'] then some (oneGlyphFile [0x41])
    else none
  findpartialfont _ := none

theorem finite_range_combineFonts (b : List Char) :
    (Set.range (combineFonts b).findfont).Finite := by
  refine (Set.toFinite {none, (combineFonts b).findfont ['a'],
    (combineFonts b).findfont ['f']}).subset ?_
  rintro file ⟨ifil, rfl⟩
  by_cases ha : ifil = ['a']
  · simp [ha]
  · by_cases hf : ifil = ['f'] <;> simp [combineFonts, ha, hf]

theorem refers_combineFonts {a b : List Char} (h : Refers (combineFonts ['f']) 0 a b) :
    b = ['f'] ∧ a ≠ ['f'] := by
  obtain ⟨file, hfile, hcombined⟩ := h
  obtain ⟨name, hname⟩ := exists_findfont_of_openFont hfile
  have hfont : combined (oneGlyphFile [0x41]) = none := by decide
  constructor
  · simp only [combineFonts] at hname
    split at hname
    · rw [← Option.some.inj hname] at hcombined
      have hnames : combined ((combineheader ++ ['f'] ++ ['\n']).map fun c =>
          UInt8.ofNat c.toNat) = some [['f']] := by decide
      rw [hnames] at hcombined
      exact (List.singleton_inj.mp (Option.some.inj hcombined)).symm
    · split at hname
      · rw [← Option.some.inj hname, hfont] at hcombined
        cases hcombined
      · cases hname
  · rintro rfl
    have hopen : openFont (combineFonts ['f']) ['f'] 0 = some (oneGlyphFile [0x41]) := rfl
    rw [← Option.some.inj (hopen.symm.trans hfile), hfont] at hcombined
    cases hcombined

/-- A combine file with a font in it is loaded, and one with its own name is not. -/
theorem kfontLoadFont_ends_iff_combine :
    (∃ depth,
      (kfontLoadFont acceptingKernel (combineFonts ['f']) false 0 false depth ['a'] 0).isSome) ∧
    ¬ ∃ depth,
      (kfontLoadFont acceptingKernel (combineFonts ['a']) false 0 false depth ['a'] 0).isSome := by
  constructor
  · refine (kfontLoadFont_ends_iff acceptingKernel (finite_range_combineFonts ['f']) false 0 false
      ['a'] 0).1.mpr ?_
    rintro ⟨a, -, hcycle⟩
    obtain ⟨b, -, hlast⟩ := Relation.TransGen.tail'_iff.mp hcycle
    obtain ⟨c, hfirst, -⟩ := Relation.TransGen.head'_iff.mp hcycle
    exact (refers_combineFonts hfirst).2 (refers_combineFonts hlast).1
  · intro hends
    exact (kfontLoadFont_ends_iff acceptingKernel (finite_range_combineFonts ['a']) false 0 false
      ['a'] 0).1.mp hends ⟨['a'], .refl, .single ⟨_, rfl, by decide⟩⟩

theorem not_kfontLoadFont_ends :
    ¬ ∀ (k : Kernel) (dirs : FontDirs), (Set.range dirs.findfont).Finite →
      ∀ (doubleSize : Bool) (hwunit : Nat) (noU : Bool) (ifil : List Char) (iunit : Nat),
        ∃ depth, (kfontLoadFont k dirs doubleSize hwunit noU depth ifil iunit).isSome := by
  intro hall
  have hself : Refers (combineFonts ['a']) 0 ['a'] ['a'] := ⟨_, rfl, by decide⟩
  obtain ⟨depth, hdepth⟩ := hall acceptingKernel (combineFonts ['a'])
    (finite_range_combineFonts ['a']) false 0 false ['a'] 0
  rw [kfontLoadFont_of_cyclic acceptingKernel (combineFonts ['a']) false 0 false depth
    ⟨['a'], .refl, .single hself⟩] at hdepth
  cases hdepth

end Kbd.Font
