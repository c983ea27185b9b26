import Kbd.Font.Loadfont
import Kbd.Font.Verify.Loadtable
import Kbd.Font.Verify.Pitch
import Kbd.Font.Verify.Unimap

/-!
# PSF files in `kfont_load_font`

A font that is read has a table in memory whether its file has one or not, so its map always goes to
the kernel: an empty one clears what was there.

A file that starts as a PSF file and is damaged is not refused for that. It goes on to the tests of its
length, and is loaded as a bitmap when it has the right one, or ends the program when it has that of
three code pages and `iunit` tells none of them.
-/

namespace Kbd.Font

open Kbd.Keymap (bytes)
open Kbd.Lib
open Unimap (UnimapErr ofKfont ofKfont_eq ofKfont_ok ofKfont_run kfontLoadUnicodemap)

/-! ## What `do_loadfont` sends -/

/-- The requests that give the console another font. -/
def SetsFont (r : Request) : Prop := ∃ cfo, r = .kdfontop cfo ∧ (cfo.op = .set ∨ cfo.op = .setTall)

/-- The requests that change its map. -/
def SetsMap (r : Request) : Prop := (∃ n, r = .pioUnimapclr n) ∨ ∃ entries, r = .pioUnimap entries

theorem setsFont_putFontOp (buf : List UInt8) (count width height vpitch : Nat) :
    SetsFont (.kdfontop (putFontOp buf count width height vpitch)) := by
  refine ⟨_, rfl, ?_⟩
  rw [putFontOp]
  dsimp only
  split
  · exact Or.inl rfl
  · exact Or.inr rfl

theorem doLoadfont_badHeight {height : Nat} (h : height < 1 ∨ height > 128) (k : Kernel)
    (doubleSize : Bool) (inbuf : List UInt8) (width hwunit fontsize : Nat) :
    doLoadfont k doubleSize inbuf width height hwunit fontsize = throw (.badHeight height) := by
  rw [doLoadfont, tryLoadfont, if_pos h]

/-- The requests of `kfont_put_font` leave the map alone. -/
theorem kfontPutFont_trace (k : Kernel) (buf : List UInt8) (count width height vpitch : Nat)
    (tr : Trace) :
    ∃ rest, finalTrace (kfontPutFont k buf count width height vpitch) tr = tr ++ rest ∧
      ∀ r ∈ rest, ¬ SetsMap r := by
  have hfont : ∀ cfo, ¬ SetsMap (.kdfontop cfo) := by
    rintro cfo (⟨n, h⟩ | ⟨entries, h⟩) <;> cases h
  have hmode : ¬ SetsMap .kdgetmode := by
    rintro (⟨n, h⟩ | ⟨entries, h⟩) <;> cases h
  have hreq := putFontKdfontop_requests k buf count (if width = 0 then 8 else width)
    (if height = 0 then fontCharheight buf count (if width = 0 then 8 else width) else height) vpitch tr
  rw [kfontPutFont]
  split at hreq
  · obtain ⟨rest, htrace, hrest⟩ := hreq
    refine ⟨_, htrace.trans (List.append_assoc _ _ _), ?_⟩
    intro r hr
    rcases List.mem_append.mp hr with hr | hr
    · rw [List.mem_singleton.mp hr]
      exact hmode
    rcases List.mem_cons.mp hr with rfl | hr
    · exact hfont _
    · obtain ⟨cfo, rfl⟩ := hrest r hr
      exact hfont cfo
  · refine ⟨[.kdgetmode], ?_, ?_⟩
    · rw [finalTrace, hreq]
      rfl
    · intro r hr
      rw [List.mem_singleton.mp hr]
      exact hmode

/-- So do those of `do_loadfont`. -/
theorem doLoadfont_trace (k : Kernel) (doubleSize : Bool) (inbuf : List UInt8)
    (width height hwunit fontsize : Nat) (tr : Trace) :
    ∃ rest, finalTrace (doLoadfont k doubleSize inbuf width height hwunit fontsize) tr = tr ++ rest ∧
      ∀ r ∈ rest, ¬ SetsMap r := by
  have hthrow : ∀ err, ∃ rest, finalTrace (throw err : Kfont Unit) tr = tr ++ rest ∧
      ∀ r ∈ rest, ¬ SetsMap r := fun err => ⟨[], (List.append_nil tr).symm, by simp⟩
  rw [doLoadfont, tryLoadfont]
  split
  · exact hthrow _
  split
  · exact hthrow _
  dsimp only
  split
  · exact hthrow _
  split
  · exact hthrow _
  split
  · exact kfontPutFont_trace k _ _ _ _ _ tr
  · exact kfontPutFont_trace k _ _ _ _ _ tr

/-! ## Fonts without a table -/

/-- What the header of a PSF file says about a table. -/
def HasTable (file : List UInt8) : Prop := ∃ hd, readPsfHeader file = .ok hd ∧ hd.hastable = true

/-- A font that is read for its table has one in memory. -/
theorem readPsffontFile_heads {file : List UInt8} {font : PsfFont} {heads : Option (List UnicodeList)}
    {noU : Bool} (h : readPsffontFile file 0 (if noU then none else some []) = .ok (font, heads)) :
    heads.isSome = !noU := by
  rw [readPsffontFile, readFontfile] at h
  split at h
  · cases h
  obtain ⟨hd, -, -, -, -, -, ⟨hnone, rfl⟩ | ⟨o, t, ho, rfl, -, -⟩⟩ := kfontReadPsffont_cases h
  · cases noU
    · cases hnone
    · rfl
  · cases noU
    · rfl
    · cases ho

theorem ofKfont_bind {α β : Type} (m : Kfont α) (f : α → Kfont β) :
    ofKfont (m >>= f) = ofKfont m >>= fun a => ofKfont (f a) := by
  funext tr
  change (ofKfont (m >>= f)).run tr = (ofKfont m >>= fun a => ofKfont (f a)).run tr
  rw [ofKfont_eq, EStateM.run_bind, EStateM.run_bind, ofKfont_eq]
  cases m.run tr <;> rfl

/-- The map `def.uni` is not loaded for any PSF font. -/
theorem loadPsffont_eq {file : List UInt8} {font : PsfFont} {heads : Option (List UnicodeList)}
    {noU : Bool} (h : readPsffontFile file 0 (if noU then none else some []) = .ok (font, heads))
    (k : Kernel) (find : List Char → Option (List Char)) (force doubleSize isDefault : Bool)
    (hwunit : Nat) :
    loadPsffont k find force doubleSize (psfArgs font heads hwunit) noU isDefault =
      ofKfont (loadFontAndTable k doubleSize (psfArgs font heads hwunit)) := by
  have hheads := readPsffontFile_heads h
  rw [loadPsffont, loadFontAndTable, ofKfont_bind]
  cases heads with
  | none =>
    have hnoU : noU = true := by simpa using hheads
    rw [hnoU]
    rfl
  | some t =>
    have hnoU : noU = false := by simpa using hheads
    rw [hnoU]
    rfl

/-- The map is cleared and filled from a table. -/
def Rewritten (uclistheads : List UnicodeList) (new : Trace) : Prop :=
  (∃ n, .pioUnimapclr n ∈ new) ∧ .pioUnimap (tablePairs uclistheads) ∈ new

/-- What should happen to the map when a PSF font is loaded. -/
structure MapRule (k : Kernel) (find : List Char → Option (List Char)) (force : Bool)
    (file : List UInt8) (uclistheads : List UnicodeList) (ifil : List Char) (tr tr' : Trace) : Prop where
  table : Rewritten uclistheads (tr'.drop tr.length) ↔ HasTable file
  noTable : ¬ HasTable file → ifil ≠ [] → ∀ r ∈ tr'.drop tr.length, ¬ SetsMap r
  default : ¬ HasTable file → ifil = [] →
    ∃ rest how, (∀ r ∈ rest, ¬ SetsMap r) ∧
      (kfontLoadUnicodemap k find force (bytes "def.uni")).run (tr ++ rest) = .ok how tr'

/-- A load that succeeds clears the map and fills it from the table in memory. -/
theorem kfontLoadPsf_rewritten {file : List UInt8} {font : PsfFont} {t : List UnicodeList}
    (h : readPsffontFile file 0 (some []) = .ok (font, some t)) {dirs : FontDirs} {ifil : List Char}
    {iunit : Nat} (hopen : openFont dirs ifil iunit = some file) {k : Kernel}
    {find : List Char → Option (List Char)} {force doubleSize : Bool} {hwunit : Nat} {tr tr' : Trace}
    (hrun : (kfontLoadPsf k dirs find force doubleSize hwunit false ifil iunit).run tr = .ok () tr') :
    Rewritten (t.take font.fontlen) (tr'.drop tr.length) := by
  simp only [kfontLoadPsf, hopen, Bool.false_eq_true, if_false, h] at hrun
  rw [@loadPsffont_eq file font (some t) false h] at hrun
  obtain ⟨u, tr₁, hfont, htable⟩ := Result.bind_eq_ok.mp (ofKfont_ok hrun)
  obtain ⟨rest, hrest, -⟩ := doLoadfont_trace k doubleSize font.fontbuf font.fontwidth (fontHeight font)
    hwunit font.fontlen tr
  have htr : tr₁ = tr ++ rest := (finalTrace_of_ok hfont).symm.trans hrest
  have hsent := doLoadtable_sent (show (doLoadtable k t font.fontlen).run tr₁ = .ok () tr' from htable)
  have hsub : tr'.drop tr₁.length ⊆ tr'.drop tr.length := by
    rw [htr, List.length_append, ← List.drop_drop]
    exact List.drop_subset _ _
  obtain ⟨n, hn⟩ := hsent.cleared
  exact ⟨⟨n, hsub hn⟩, hsub hsent.sent⟩

/-- The map is treated as it should be exactly for the files that have a table. -/
theorem mapRule_iff {file : List UInt8} {font : PsfFont} {t : List UnicodeList}
    (h : readPsffontFile file 0 (some []) = .ok (font, some t)) {dirs : FontDirs} {ifil : List Char}
    {iunit : Nat} (hopen : openFont dirs ifil iunit = some file) {k : Kernel}
    {find : List Char → Option (List Char)} {force doubleSize : Bool} {hwunit : Nat} {tr tr' : Trace}
    (hrun : (kfontLoadPsf k dirs find force doubleSize hwunit false ifil iunit).run tr = .ok () tr') :
    MapRule k find force file (t.take font.fontlen) ifil tr tr' ↔ HasTable file := by
  have hre := kfontLoadPsf_rewritten h hopen hrun
  constructor
  · intro hrule
    exact hrule.table.mp hre
  · intro htable
    exact ⟨⟨fun _ => htable, fun _ => hre⟩, fun hno => absurd htable hno, fun hno => absurd htable hno⟩

/-- A font with one glyph of one row and no table. -/
def tablelessFile : List UInt8 :=
  psf2Magic ++ storeIntLe 0 ++ storeIntLe 32 ++ storeIntLe 0 ++ storeIntLe 1 ++ storeIntLe 1 ++
    storeIntLe 1 ++ storeIntLe 8 ++ [0x18]

/-- A directory with one font. -/
def oneFont (file : List UInt8) : FontDirs where
  findfont ifil := if ifil = ['a'] then some file else none
  findpartialfont _ := none

theorem readPsffontFile_tableless :
    readPsffontFile tablelessFile 0 (some []) = .ok (⟨[0x18], 8, 1, 1⟩, some [[]]) := by
  decide

theorem kfontLoadPsf_tableless (find : List Char → Option (List Char)) :
    ∃ tr', (kfontLoadPsf acceptingKernel (oneFont tablelessFile) find false false 0 false ['a'] 0).run
      [] = .ok () tr' := by
  have hload : Loadable 8 1 := ⟨by decide, by decide, by decide, by decide⟩
  have htext : TextMode acceptingKernel := fun _ => rfl
  have htakes : TakesMap acceptingKernel [] := ⟨fun _ _ => rfl, fun _ => rfl⟩
  obtain ⟨buf, -, hdo⟩ := @Loadable.doLoadfont_eq 8 1 1 [0x18] hload false (by decide)
    ((hload.glyphFits false).paddedSize_lt (by decide))
  have hfont : ∃ tr₁, (doLoadfont acceptingKernel false [0x18] 8 1 0 1).run [] = .ok () tr₁ := by
    rw [hdo]
    exact ⟨_, @TextMode.putFontKdfontop_ok _ htext buf 1 8 1 _ [] _ rfl⟩
  obtain ⟨tr₁, hfont⟩ := hfont
  have hall : (loadFontAndTable acceptingKernel false
      (psfArgs ⟨[0x18], 8, 1, 1⟩ (some [[]]) 0)).run [] =
        .ok () (tr₁ ++ [.pioUnimapclr 0, .pioUnimap []]) :=
    (Result.bind_of_ok hfont).trans (htakes.run tr₁)
  refine ⟨tr₁ ++ [.pioUnimapclr 0, .pioUnimap []], ?_⟩
  rw [kfontLoadPsf, show openFont (oneFont tablelessFile) ['a'] 0 = some tablelessFile from rfl]
  simp only [Bool.false_eq_true, if_false, readPsffontFile_tableless]
  rw [@loadPsffont_eq tablelessFile _ _ false readPsffontFile_tableless]
  exact ofKfont_run hall

/-- The map is cleared for a font without a table. -/
theorem not_mapRule_tableless :
    ∃ tr', (kfontLoadPsf acceptingKernel (oneFont tablelessFile) (fun _ => none) false false 0 false ['a']
        0).run [] = .ok () tr' ∧
      ¬ MapRule acceptingKernel (fun _ => none) false tablelessFile [[]] ['a'] [] tr' := by
  obtain ⟨tr', hrun⟩ := kfontLoadPsf_tableless fun _ => none
  refine ⟨tr', hrun, fun hrule => ?_⟩
  obtain ⟨hd, hhd, htable⟩ :=
    hrule.table.mp (kfontLoadPsf_rewritten readPsffontFile_tableless rfl hrun)
  have hheader : readPsfHeader tablelessFile = .ok ⟨1, 1, false, 32, 8, 1, true⟩ := by decide
  cases hheader.symm.trans hhd
  cases htable

theorem mapRule_iff_tableless :
    ∃ tr', MapRule acceptingKernel (fun _ => none) false tablelessFile [[]] ['a'] [] tr' ↔
      HasTable tablelessFile := by
  obtain ⟨tr', hrun⟩ := kfontLoadPsf_tableless fun _ => none
  exact ⟨tr', mapRule_iff readPsffontFile_tableless rfl hrun⟩

/-! ## Damaged files -/

/-- The file has the magic number and the length of a PSF header. -/
def BeginsPsf (file : List UInt8) : Prop :=
  (4 ≤ file.length ∧ psf1Magic.isPrefixOf file = true) ∨
    (32 ≤ file.length ∧ psf2Magic.isPrefixOf file = true)

instance (file : List UInt8) : Decidable (BeginsPsf file) :=
  inferInstanceAs (Decidable (_ ∨ _))

/-- The errors that a function of the library returns: the others end the program, or are no errors
of the source. -/
def KfontErr.Returned : KfontErr → Prop
  | .exit | .outOfBounds => False
  | _ => True

/-- The file is refused with an error, and nothing of it becomes a font of the console. -/
def Refused (load : Kfont Unit) (tr : Trace) : Prop :=
  (∃ e tr', load.run tr = .error e tr' ∧ e.Returned) ∧ ∀ r ∈ requests load tr, ¬ SetsFont r

/-- The lengths of bitmaps: three code pages, of which `iunit` tells one, or 256 glyphs of up to 128
rows, maybe after a header of 40 bytes. -/
def LoadsRaw (inputlth iunit : Nat) : Prop :=
  inputlth = 9780 ∧ (iunit = 8 ∨ iunit = 14 ∨ iunit = 16) ∨
    (inputlth % 256 = 0 ∨ inputlth % 256 = 40) ∧ 1 ≤ inputlth / 256 ∧ inputlth / 256 ≤ 128

instance (inputlth iunit : Nat) : Decidable (LoadsRaw inputlth iunit) :=
  inferInstanceAs (Decidable (_ ∨ _))

/-- The file has the length of three code pages, and `iunit` tells none of them. -/
def AsksCodepage (inputlth iunit : Nat) : Prop :=
  inputlth = 9780 ∧ ¬ (iunit = 8 ∨ iunit = 14 ∨ iunit = 16)

instance (inputlth iunit : Nat) : Decidable (AsksCodepage inputlth iunit) :=
  inferInstanceAs (Decidable (_ ∧ _))

theorem bareFont_of_asksCodepage {inbuf : List UInt8} {iunit : Nat}
    (h : AsksCodepage inbuf.length iunit) (hwunit : Nat) : bareFont inbuf iunit hwunit = .error .exit := by
  obtain ⟨hlen, hiunit⟩ := h
  have hnone : positionCodepage iunit = none := by
    unfold positionCodepage
    split
    · omega
    · omega
    · omega
    · rfl
  rw [bareFont]
  dsimp only
  rw [if_pos hlen, hnone]

theorem bareFont_of_loadsRaw {inbuf : List UInt8} {iunit : Nat} (h : LoadsRaw inbuf.length iunit)
    (hwunit : Nat) :
    ∃ args, bareFont inbuf iunit hwunit = .ok args ∧ args.uclistheads = none ∧
      Loadable args.width args.height := by
  rw [bareFont]
  dsimp only
  rcases h with ⟨hlen, hiunit⟩ | ⟨hrem, hlow, hhigh⟩
  · have hload : Loadable 8 iunit := ⟨by omega, by omega, by decide, by decide⟩
    rw [if_pos hlen]
    rcases hiunit with rfl | rfl | rfl
    all_goals exact ⟨_, rfl, rfl, hload⟩
  · have hload : Loadable 8 32 := ⟨by decide, by decide, by decide, by decide⟩
    rw [if_neg (by omega)]
    by_cases hsvga : inbuf.length = 32768
    · rw [if_pos hsvga]
      exact ⟨_, rfl, rfl, hload⟩
    · rw [if_neg hsvga, if_pos hrem]
      exact ⟨_, rfl, rfl, hlow, hhigh, Nat.succ_pos 7, Nat.le_add_right 8 56⟩

theorem bareFont_of_not_loadsRaw {inbuf : List UInt8} {iunit : Nat}
    (h : ¬ LoadsRaw inbuf.length iunit) (hasks : ¬ AsksCodepage inbuf.length iunit) (hwunit : Nat) :
    bareFont inbuf iunit hwunit = .error .badFileSize ∨
      ∃ args, bareFont inbuf iunit hwunit = .ok args ∧ (args.height < 1 ∨ args.height > 128) := by
  rw [LoadsRaw] at h
  rw [AsksCodepage] at hasks
  rw [bareFont]
  dsimp only
  rw [if_neg (by omega), if_neg (by omega)]
  by_cases hrem : inbuf.length % 256 = 0 ∨ inbuf.length % 256 = 40
  · rw [if_pos hrem]
    exact Or.inr ⟨_, rfl, by dsimp only; omega⟩
  · rw [if_neg hrem]
    exact Or.inl rfl

/-- A font that can be loaded is sent to a console in text mode. -/
theorem Loadable.doLoadfont_sends {width height fontsize : Nat} {inbuf : List UInt8}
    (h : Loadable width height) (hin : fontsize * (height * ((width + 7) / 8)) ≤ inbuf.length)
    (hmax : fontsize * (height * ((width + 7) / 8)) ≤ maxFontSize) (k : Kernel) (doubleSize : Bool)
    (hwunit : Nat) (tr : Trace) :
    if k.kdgetmode tr = .ok kdText then
      ∃ r ∈ requests (doLoadfont k doubleSize inbuf width height hwunit fontsize) tr, SetsFont r
    else (doLoadfont k doubleSize inbuf width height hwunit fontsize).run tr =
      .error .notText (tr ++ [.kdgetmode]) := by
  obtain ⟨buf, -, hdo⟩ := h.doLoadfont_eq doubleSize hin ((h.glyphFits doubleSize).paddedSize_lt hmax)
  rw [hdo, kfontPutFont]
  generalize (if zoom (doubles doubleSize width height) * width = 0 then 8
    else zoom (doubles doubleSize width height) * width) = w
  generalize (if loadedHeight (doubles doubleSize width height) height hwunit = 0 then
    fontCharheight buf fontsize w else loadedHeight (doubles doubleSize width height) height hwunit) = hh
  have hreq := putFontKdfontop_requests k buf fontsize w hh
    (slotRows (doubles doubleSize width height) width height) tr
  split
  · rename_i htext
    rw [if_pos htext] at hreq
    obtain ⟨rest, htrace, -⟩ := hreq
    refine ⟨_, ?_, setsFont_putFontOp buf fontsize w hh
      (slotRows (doubles doubleSize width height) width height)⟩
    rw [requests, htrace, List.append_assoc, List.drop_left]
    exact List.mem_append_right _ List.mem_cons_self
  · rename_i htext
    rw [if_neg htext] at hreq
    exact hreq

/-- The header of a list of fonts starts with another character than a PSF file. -/
theorem not_combineheader {file : List UInt8} (h : BeginsPsf file) :
    combineheader.isPrefixOf (((readFontfile file).toOption.getD []).map fun b => Char.ofNat b.toNat) =
      false := by
  have hhead : ∀ s : List Char, s.head? ≠ some '#' → combineheader.isPrefixOf s = false := by
    intro s hs
    cases s with
    | nil => rfl
    | cons c s =>
      have hc : ('#' == c) = false := by
        rw [beq_eq_false_iff_ne]
        rintro rfl
        exact hs rfl
      change ('#' == c && _) = false
      rw [hc, Bool.false_and]
  refine hhead _ ?_
  rw [readFontfile]
  split
  · simp [Except.toOption]
  · rcases h with ⟨hlen, hmagic⟩ | ⟨hlen, hmagic⟩
    all_goals
      obtain ⟨b, file, rfl⟩ := List.exists_cons_of_length_pos (show 0 < file.length by omega)
      simp only [psf1Magic, psf2Magic, List.isPrefixOf, Bool.and_eq_true, beq_iff_eq] at hmagic
      rw [← hmagic.1]
      simp only [Except.toOption, Option.getD_some, List.map_cons, List.head?_cons]
      decide

/-- A damaged file is taken for a bitmap. -/
theorem kfontLoadFont_damaged {file : List UInt8} (hpsf : BeginsPsf file) {noU : Bool} {e : PsfErr}
    (hread : readPsffontFile file 0 (if noU then none else some []) = .error e) {dirs : FontDirs}
    {ifil : List Char} {iunit : Nat} (hopen : openFont dirs ifil iunit = some file) (k : Kernel)
    (doubleSize : Bool) (hwunit depth : Nat) :
    kfontLoadFont k dirs doubleSize hwunit noU (depth + 1) ifil iunit =
      some (match bareFont ((readFontfile file).toOption.getD []) (effectiveIunit ifil iunit) hwunit with
        | .error e => throw e
        | .ok args => loadFontAndTable k doubleSize args) := by
  simp only [kfontLoadFont, hopen, classifyFont, hread, not_combineheader hpsf, Bool.false_eq_true,
    if_false]
  cases bareFont ((readFontfile file).toOption.getD []) (effectiveIunit ifil iunit) hwunit <;> rfl

/-- A file that is too long to be read has no length that counts. -/
theorem length_readFontfile (file : List UInt8) :
    ((readFontfile file).toOption.getD []).length = file.length ∨
      ((readFontfile file).toOption.getD []).length = 0 ∧ maxFontSize < file.length := by
  rw [readFontfile]
  split
  · rename_i hlong
    exact Or.inr ⟨rfl, hlong⟩
  · exact Or.inl rfl

theorem loadsRaw_readFontfile (file : List UInt8) (iunit : Nat) :
    LoadsRaw ((readFontfile file).toOption.getD []).length iunit ↔ LoadsRaw file.length iunit := by
  have hlen := length_readFontfile file
  simp only [LoadsRaw]
  rw [maxFontSize] at hlen
  omega

theorem asksCodepage_readFontfile (file : List UInt8) (iunit : Nat) :
    AsksCodepage ((readFontfile file).toOption.getD []).length iunit ↔
      AsksCodepage file.length iunit := by
  have hlen := length_readFontfile file
  simp only [AsksCodepage]
  rw [maxFontSize] at hlen
  omega

theorem refused_throw {e : KfontErr} (he : e.Returned) (tr : Trace) : Refused (throw e) tr := by
  refine ⟨⟨e, tr, rfl, he⟩, ?_⟩
  intro r hr
  have hnone : requests (throw e : Kfont Unit) tr = [] := List.drop_length
  rw [hnone] at hr
  cases hr

/-- A bitmap without a table. -/
theorem loadFontAndTable_bare {args : LoadArgs} (h : args.uclistheads = none) (k : Kernel)
    (doubleSize : Bool) :
    loadFontAndTable k doubleSize args =
      doLoadfont k doubleSize args.inbuf args.width args.height args.hwunit args.fontsize := by
  rw [loadFontAndTable, h]
  exact bind_pure_unit

/-- A program that ends refuses nothing. -/
theorem not_refused_exit (tr : Trace) : ¬ Refused (throw .exit) tr := by
  rintro ⟨⟨e, tr', hrun, he⟩, -⟩
  cases hrun
  exact he

/-- A bitmap is refused unless the console is in text mode and the length is right, or the program
ends. -/
theorem refused_bareFont_iff (k : Kernel) (doubleSize : Bool) (inbuf : List UInt8) (iunit hwunit : Nat)
    (tr : Trace) :
    Refused (match bareFont inbuf iunit hwunit with
      | .error e => throw e
      | .ok args => loadFontAndTable k doubleSize args) tr ↔
      ¬ AsksCodepage inbuf.length iunit ∧
        ¬ (k.kdgetmode tr = .ok kdText ∧ LoadsRaw inbuf.length iunit) := by
  by_cases hasks : AsksCodepage inbuf.length iunit
  · rw [bareFont_of_asksCodepage hasks]
    exact ⟨fun h => absurd h (not_refused_exit tr), fun h => absurd hasks h.1⟩
  rw [and_iff_right hasks]
  by_cases hraw : LoadsRaw inbuf.length iunit
  · obtain ⟨args, hargs, hnone, hload⟩ := bareFont_of_loadsRaw hraw hwunit
    obtain ⟨hw, hn, hlen⟩ := bareFont_cases hargs
    have hmul := Nat.mul_le_mul hn hload.height_le
    have hbytes : args.height * ((args.width + 7) / 8) = args.height := by rw [hw, Nat.mul_one]
    have hsends := hload.doLoadfont_sends (by rw [hbytes]; exact hlen)
      (by rw [hbytes, maxFontSize]; omega) k doubleSize args.hwunit tr
    rw [hargs]
    dsimp only
    rw [loadFontAndTable_bare hnone]
    split at hsends
    · rename_i htext
      obtain ⟨r, hr, hset⟩ := hsends
      constructor
      · intro hrefused
        exact absurd hset (hrefused.2 r hr)
      · intro hnot
        exact absurd ⟨htext, hraw⟩ hnot
    · rename_i htext
      constructor
      · rintro - ⟨htext', -⟩
        exact htext htext'
      · rintro -
        refine ⟨⟨_, _, hsends, trivial⟩, ?_⟩
        intro r hr
        rw [requests, finalTrace, hsends] at hr
        rw [List.mem_singleton.mp (show r ∈ [Request.kdgetmode] by
          rwa [← @List.drop_left _ tr [.kdgetmode]])]
        rintro ⟨cfo, hcfo, -⟩
        cases hcfo
  · have hrefused : Refused (match bareFont inbuf iunit hwunit with
        | .error e => throw e
        | .ok args => loadFontAndTable k doubleSize args) tr := by
      rcases bareFont_of_not_loadsRaw hraw hasks hwunit with he | ⟨args, hargs, hheight⟩
      · rw [he]
        exact @refused_throw .badFileSize trivial tr
      · rw [hargs]
        dsimp only
        rw [loadFontAndTable, doLoadfont_badHeight hheight]
        exact @refused_throw (.badHeight args.height) trivial tr
    exact ⟨fun _ h => hraw h.2, fun _ => hrefused⟩

/-- A damaged file is refused unless it has the length of a bitmap and the console is in text mode, or
it has the length of three code pages and `iunit` tells none of them. -/
theorem refused_iff_length {file : List UInt8} (hpsf : BeginsPsf file) {noU : Bool} {e : PsfErr}
    (hread : readPsffontFile file 0 (if noU then none else some []) = .error e) {dirs : FontDirs}
    {ifil : List Char} {iunit : Nat} (hopen : openFont dirs ifil iunit = some file) (k : Kernel)
    (doubleSize : Bool) (hwunit depth : Nat) (tr : Trace) :
    (∃ load, kfontLoadFont k dirs doubleSize hwunit noU (depth + 1) ifil iunit = some load ∧
        Refused load tr) ↔
      ¬ AsksCodepage file.length (effectiveIunit ifil iunit) ∧
        ¬ (k.kdgetmode tr = .ok kdText ∧ LoadsRaw file.length (effectiveIunit ifil iunit)) := by
  rw [kfontLoadFont_damaged hpsf hread hopen, ← asksCodepage_readFontfile, ← loadsRaw_readFontfile,
    ← refused_bareFont_iff]
  exact ⟨fun ⟨load, heq, hrefused⟩ => Option.some.inj heq ▸ hrefused, fun h => ⟨_, rfl, h⟩⟩

theorem refused_iff {file : List UInt8} (hpsf : BeginsPsf file) {noU : Bool} {e : PsfErr}
    (hread : readPsffontFile file 0 (if noU then none else some []) = .error e) {dirs : FontDirs}
    {ifil : List Char} {iunit : Nat} (hopen : openFont dirs ifil iunit = some file) (k : Kernel)
    (doubleSize : Bool) (hwunit depth : Nat) (tr : Trace) :
    (∃ load, kfontLoadFont k dirs doubleSize hwunit noU (depth + 1) ifil iunit = some load ∧
        Refused load tr) ↔
      ¬ AsksCodepage file.length (effectiveIunit ifil iunit) ∧
        ¬ (k.kdgetmode tr = .ok kdText ∧ LoadsRaw file.length (effectiveIunit ifil iunit)) :=
  refused_iff_length hpsf hread hopen k doubleSize hwunit depth tr

/-- A file that is cut short after a header of the first format and 252 bytes. -/
def cutFile : List UInt8 := psf1Magic ++ [0, 16] ++ List.replicate 252 0

theorem length_cutFile : cutFile.length = 256 := by
  rw [cutFile, List.length_append, List.length_replicate]
  rfl

theorem beginsPsf_cut : BeginsPsf cutFile := by
  refine Or.inl ⟨?_, rfl⟩
  rw [length_cutFile]
  decide

theorem readPsffontFile_cut :
    readPsffontFile cutFile 0 (if false then none else some []) = .error (.exceedsInput 256) := by
  have hheader : readPsfHeader cutFile = .ok ⟨256, 16, false, 4, 8, 0, false⟩ := by
    rw [readPsfHeader, if_pos ⟨by rw [length_cutFile]; decide, rfl⟩]
    rfl
  have hcheck : checkPsfHeader ⟨256, 16, false, 4, 8, 0, false⟩ 256 = .error (.exceedsInput 256) := by
    decide
  rw [readPsffontFile, readFontfile, if_neg (by rw [length_cutFile]; decide)]
  simp only [kfontReadPsffont, hheader, length_cutFile, hcheck, bind, Except.bind]

theorem not_refused_cut :
    ¬ ∃ load, kfontLoadFont acceptingKernel (oneFont cutFile) false 0 false 1 ['a'] 0 = some load ∧
      Refused load [] := by
  have hraw : LoadsRaw cutFile.length (effectiveIunit ['a'] 0) := by
    rw [length_cutFile]
    decide
  rw [refused_iff_length beginsPsf_cut readPsffontFile_cut rfl]
  exact fun h => h.2 ⟨rfl, hraw⟩

theorem refused_iff_cut :
    (∃ load, kfontLoadFont acceptingKernel (oneFont cutFile) false 0 false 1 ['a'] 0 = some load ∧
        Refused load []) ↔
      ¬ AsksCodepage cutFile.length (effectiveIunit ['a'] 0) ∧
        ¬ (acceptingKernel.kdgetmode [] = .ok kdText ∧
          LoadsRaw cutFile.length (effectiveIunit ['a'] 0)) :=
  refused_iff beginsPsf_cut readPsffontFile_cut rfl acceptingKernel false 0 0 []

end Kbd.Font
