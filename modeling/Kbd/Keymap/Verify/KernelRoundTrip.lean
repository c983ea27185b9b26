import Kbd.Keymap.Verify.Keyboard

/-!
# From the kernel to the kernel

A context that has been read from a kernel restores it, and a kernel that has been loaded from a
context is read back as this context. What is lost on the way is the last entry of a full accent
table, and the entries of a table that the context has no map for are not touched.
-/

namespace Kbd.Keymap

open Kbd.Lib

/-! ## A kernel that answers -/

/-- What holds of the keyboard of every kernel: the entries are of type `unsigned short`, a table
never has the value for no table in its first entry, and a string has its end in `kb_string`. -/
structure Keyboard.Valid (k : Keyboard) : Prop where
  cells : ∀ t i v, k.tables.cell t i = some v → v ≤ 65535
  heads : ∀ t, k.tables.cell t 0 ≠ some kNosuchmap.toNat
  strings : ∀ i, (k.strings i).length ≤ 511

namespace Keyboard

/-- The `kb_value` that `KDGKBENT` gives. -/
def entry (k : Keyboard) (t i : Nat) : Nat :=
  match k.tables t with
  | some table => table i
  | none => if i = 0 then kNosuchmap.toNat else kHole.toNat

/-- A kernel with this keyboard, which answers every request. -/
def reader (k : Keyboard) : KernelReader where
  kdgkbent t i := .ok (k.entry t i)
  kdgkbsent i := .ok (k.strings i)
  kdgkbdiacruc := .ok k.accents

variable {k : Keyboard}

theorem allocated_reader (h : k.Valid) (t : Nat) :
    k.reader.allocated t = (k.tables t).isSome := by
  have hhead := h.heads t
  rw [Bool.eq_iff_iff, KernelReader.allocated_of_ok (v := k.entry t 0) rfl, entry]
  cases hk : k.tables t with
  | none => simp
  | some table => simpa [KeyTables.cell, hk] using hhead

/-- Its answers show the keyboard. -/
theorem keyboard_reader (h : k.Valid) : k.reader.keyboard = k := by
  have htables : k.reader.keyboard.tables = k.tables := by
    funext t
    simp only [KernelReader.keyboard, allocated_reader h]
    cases hk : k.tables t with
    | none => rfl
    | some table =>
      have hvalue : k.reader.value t = table := by
        funext i
        have : k.reader.kdgkbent t i = .ok (table i) := by simp [reader, entry, hk]
        exact KernelReader.value_of_ok this
      simp [hvalue]
  calc k.reader.keyboard = ⟨k.reader.keyboard.tables, k.strings, k.accents⟩ := rfl
    _ = k := by rw [htables]

/-- Everything is answered, so nothing can fail. -/
theorem not_fails_reader (k : Keyboard) (err : KernelErr) : ¬ k.reader.Fails err := by
  intro h
  cases h with
  | entry _ hfails _ => cases hfails
  | string _ hfails _ _ => cases hfails
  | accents hfails _ _ => cases hfails

end Keyboard

/-- The keyboard is read. -/
theorem lkKernelKeymap_reader {k : Keyboard} (h : k.Valid) (flags : LkFlags) (charset : Nat) :
    ∃ c, (lkKernelKeymap k.reader).run (lkInit flags charset) = .ok () c ∧ c.Holds k ∧
      c.flags = flags ∧ c.charset = charset := by
  have hpost := lkKernelKeymap_post k.reader flags charset
  cases hrun : (lkKernelKeymap k.reader).run (lkInit flags charset) with
  | error err c =>
    rw [hrun] at hpost
    exact absurd hpost (k.not_fails_reader err)
  | ok _ c =>
    rw [hrun] at hpost
    obtain ⟨-, hholds, hflags, hcharset⟩ := hpost
    rw [Keyboard.keyboard_reader h] at hholds
    exact ⟨c, rfl, hholds, hflags, hcharset⟩

/-! ## Restoring -/

section Holds

variable {c : LkCtx} {k : Keyboard}

theorem LkCtx.Holds.lkGetKey (h : c.Holds k) {t i : Nat} (ht : t < maxNrKeymaps) (hi : i < nrKeys)
    {table : Nat → Nat} (hk : k.tables t = some table) : lkGetKey c t i = table i :=
  h.values t i _ ht hi (by rw [KeyTables.cell, hk]; rfl)

/-- Every entry of a table can be loaded. -/
theorem LkCtx.Holds.isLoadable_iff (h : c.Holds k) (hv : k.Valid) (t i : Nat) :
    isLoadable c t i = true ↔ t < maxNrKeymaps ∧ i < nrKeys ∧ (k.tables t).isSome = true := by
  rw [isLoadable]
  simp only [Bool.and_eq_true, decide_eq_true_eq, h.keys, ushrtMax]
  constructor
  · rintro ⟨⟨⟨-, hkey⟩, -⟩, -⟩
    exact hkey
  · rintro ⟨ht, hi, hsome⟩
    obtain ⟨table, hk⟩ := Option.isSome_iff_exists.mp hsome
    have hle := hv.cells t i (table i) (by rw [KeyTables.cell, hk]; rfl)
    rw [h.lkGetKey ht hi hk]
    exact ⟨⟨⟨hi, ht, hi, hsome⟩, by omega⟩, by omega⟩

/-- No map has `K_NOSUCHMAP` for its first key. -/
theorem LkCtx.Holds.head_ne (h : c.Holds k) (hv : k.Valid) (t : Nat)
    (hmap : lkMapExists c t = true) : Keymap.lkGetKey c t 0 ≠ kNosuchmap := by
  obtain ⟨ht, hsome⟩ := (h.maps t).mp hmap
  obtain ⟨table, hk⟩ := Option.isSome_iff_exists.mp hsome
  have hhead := hv.heads t
  rw [KeyTables.cell, hk, Option.map_some] at hhead
  rw [h.lkGetKey ht (by decide) hk]
  simp only [kNosuchmap] at hhead ⊢
  intro heq
  exact hhead (congrArg some (by omega))

/-- A table that the context has been read from, loaded over `old`. -/
theorem LkCtx.Holds.cell_loadedTable (h : c.Holds k) (hv : k.Valid) (dflt : Nat) {t i : Nat}
    (ht : t < maxNrKeymaps) (hi : i < nrKeys) (old : Option (Nat → Nat)) :
    (loadedTable dflt c t old).map (fun table => table i) =
      if (k.tables t).isSome = true then k.tables.cell t i else old.map fun table => table i := by
  unfold loadedTable
  cases hk : k.tables t with
  | none =>
    have hmap : lkMapExists c t = false := by
      rw [Bool.eq_false_iff, Ne, h.maps, hk]
      simp
    simp [hmap, h.keywords]
  | some table =>
    have hsome : (k.tables t).isSome = true := by rw [hk]; rfl
    have hmap : lkMapExists c t = true := (h.maps t).mpr ⟨ht, hsome⟩
    have hload : isLoadable c t i = true := (h.isLoadable_iff hv t i).mpr ⟨ht, hi, hsome⟩
    have hany : (List.range nrKeys).any (isLoadable c t) = true :=
      List.any_eq_true.mpr ⟨i, List.mem_range.mpr hi, hload⟩
    simp [hmap, hany, hload, h.lkGetKey ht hi hk, KeyTables.cell, hk]

/-- The strings of a keyboard that are sent. -/
theorem sentString_of_strings (hv : k.Valid) {i : Nat} (hi : i < maxNrFunc)
    (hstrings : c.funcTable.get i =
      if i < maxNrFunc ∧ k.strings i ≠ [] then some ((k.strings i).take 511) else none) :
    sentString c i = if k.strings i ≠ [] then some (k.strings i)
      else if c.flags.clearStrings = true then some [] else none := by
  have hlen := hv.strings i
  unfold Keymap.sentString
  rw [hstrings]
  by_cases hempty : k.strings i = []
  · simp [hempty]
  · simp [hi, hempty, List.take_of_length_le hlen]

end Holds

/-! ## The accent table -/

section Accents

variable {c : LkCtx}

theorem NoHoles.count_eq (h : NoHoles c) : c.accentTable.count = (liveDiacrs c).length := by
  have hlive : ∀ i ∈ List.range c.accentTable.count, (c.accentTable.get i).isSome = true := by
    intro i hi
    exact (h i).mpr (List.mem_range.mp hi)
  rw [h.liveDiacrs_eq, dumpedDiacs, Checked.length_of_mapM (mapM_get_of_isSome hlive),
    List.length_range]

/-- All entries of the accent table but the last of a full one are sent. -/
theorem NoHoles.sentDiacrs (h : NoHoles c) :
    sentDiacrs c = (liveDiacrs c).take (maxDiacr - 1) := by
  rw [Keymap.sentDiacrs, sentCount, h.count_eq]
  split
  · rfl
  · rename_i hlt
    rw [List.take_of_length_le (Nat.le_refl _), List.take_of_length_le (by omega)]

/-- An entry of the accent table that the request of the mode can send and that the kernel keeps as
it is sent. -/
def KeepsDiacr (flags : LkFlags) (conv : LkKbdiacr → LkKbdiacr) (d : LkKbdiacr) : Prop :=
  flags.preferUnicode = true ∨ (d.diacr ≤ 255 ∧ d.base ≤ 255 ∧ d.result ≤ 255) ∧ conv d = d

/-- The accent table of a kernel that is loaded. -/
theorem NoHoles.loadedAccents (h : NoHoles c) {conv : LkKbdiacr → LkKbdiacr}
    (hdiacrs : ∀ d ∈ liveDiacrs c, KeepsDiacr c.flags conv d) (old : List LkKbdiacr) :
    loadsDiacrs c = true ∧ Keymap.loadedAccents c conv old =
      if liveDiacrs c ≠ [] then (liveDiacrs c).take (maxDiacr - 1)
      else if c.flags.clearCompose = true then [] else old := by
  have hsends : sendsDiacrs c = true ↔ liveDiacrs c ≠ [] ∨ c.flags.clearCompose = true := by
    rw [sendsDiacrs, h.count_eq, Bool.or_eq_true, decide_eq_true_eq, gt_iff_lt, List.length_pos_iff]
  have hkeep : ∀ d ∈ (liveDiacrs c).take (maxDiacr - 1), KeepsDiacr c.flags conv d :=
    fun d hd => hdiacrs d (List.mem_of_mem_take hd)
  unfold loadsDiacrs Keymap.loadedAccents fitsKbdiacr
  rw [h.sentDiacrs]
  -- what is sent in the mode without Unicode fits and is kept
  have hconv (hu : c.flags.preferUnicode ≠ true) :
      (((liveDiacrs c).take (maxDiacr - 1)).any fun d => d.diacr > ucharMax || d.base > ucharMax ||
        d.result > ucharMax) = false ∧
      ((liveDiacrs c).take (maxDiacr - 1)).map conv = (liveDiacrs c).take (maxDiacr - 1) := by
    constructor
    · rw [List.any_eq_false]
      intro d hd
      have hle := ((hkeep d hd).resolve_left hu).1
      simp only [ucharMax, Bool.or_eq_true, decide_eq_true_eq]
      omega
    · calc ((liveDiacrs c).take (maxDiacr - 1)).map conv
          = ((liveDiacrs c).take (maxDiacr - 1)).map id :=
            List.map_congr_left fun d hd => ((hkeep d hd).resolve_left hu).2
        _ = (liveDiacrs c).take (maxDiacr - 1) := List.map_id _
  have htake : (if liveDiacrs c ≠ [] then (liveDiacrs c).take (maxDiacr - 1)
      else if c.flags.clearCompose = true then [] else old) =
      if sendsDiacrs c = true then (liveDiacrs c).take (maxDiacr - 1) else old := by
    by_cases hempty : liveDiacrs c = []
    · simp [hempty, hsends]
    · simp [hempty, hsends]
  rw [htake]
  by_cases hs : sendsDiacrs c = true
  · by_cases hu : c.flags.preferUnicode = true
    · simp [hs, hu]
    · obtain ⟨hfits, hmap⟩ := hconv hu
      simp only [hs, hu, hfits, hmap, Bool.not_true, Bool.not_false, Bool.false_eq_true, ↓reduceIte,
        Bool.or_true, and_self]
  · simp [hs]

end Accents

/-- A keymap that has been read from a kernel restores it: the tables and the strings that were there
are there again, and the accent table without the last entry of a full one. What was not there is left
as it is in the kernel that is loaded. -/
theorem lkLoadKeymap_lkKernelKeymap {k : Keyboard} (hk : k.Valid) (flags : LkFlags)
    (charset dflt : Nat) (conv : LkKbdiacr → LkKbdiacr)
    (hdiacrs : ∀ d ∈ k.accents, KeepsDiacr flags conv d) :
    ∃ c, (lkKernelKeymap k.reader).run (lkInit flags charset) = .ok () c ∧
      ∀ (ioctl : Ioctl) (kbdMode : Int) (k₀ : Keyboard),
        (∀ q ∈ (lkLoadKeymap ioctl c kbdMode).2, q.2 = none) →
        let k' := k₀.after dflt conv (lkLoadKeymap ioctl c kbdMode).2
        (lkLoadKeymap ioctl c kbdMode).1 = true ∧
        (∀ t < maxNrKeymaps, ∀ i < nrKeys, k'.tables.cell t i =
          if (k.tables t).isSome = true then k.tables.cell t i else k₀.tables.cell t i) ∧
        (∀ i < maxNrFunc, k'.strings i = if k.strings i ≠ [] then k.strings i
          else if flags.clearStrings = true then [] else k₀.strings i) ∧
        k'.accents = if k.accents ≠ [] then k.accents.take (maxDiacr - 1)
          else if flags.clearCompose = true then [] else k₀.accents := by
  obtain ⟨c, hrun, hholds, rfl, -⟩ := lkKernelKeymap_reader hk flags charset
  refine ⟨c, hrun, fun ioctl kbdMode k₀ hok => ?_⟩
  obtain ⟨htables, hstrings, haccents, hret⟩ := lkLoadKeymap_keyboard dflt conv k₀
    (lkAddConstants_of_init hholds.keyConstant) (hholds.head_ne hk) hok
  rw [← hholds.accents] at hdiacrs ⊢
  obtain ⟨hloads, hloaded⟩ := hholds.noHoles.loadedAccents hdiacrs k₀.accents
  refine ⟨?_, fun t ht i hi => ?_, fun i hi => ?_, ?_⟩
  · rw [hret, hloads]
  · rw [KeyTables.cell, htables t ht]
    exact hholds.cell_loadedTable hk dflt ht hi (k₀.tables t)
  · rw [hstrings i hi, sentString_of_strings hk hi (hholds.strings i)]
    by_cases hempty : k.strings i = []
    · by_cases hclear : c.flags.clearStrings = true
      · simp [hempty, hclear]
      · simp [hempty, hclear]
    · simp [hempty]
  · rw [haccents, hloaded]

/-- A kernel with one table, one string and one entry in the accent table. -/
def smallKeyboard : Keyboard where
  tables t := if t = 0 then some fun i => if i = 30 then 0xb61 else kHole.toNat else none
  strings i := if i = 0 then ['\x1b', '[', '[', 'A'] else []
  accents := [⟨0x60, 0x41, 0xc0⟩]

theorem cell_smallKeyboard {t i v : Nat} (h : smallKeyboard.tables.cell t i = some v) :
    v = 0xb61 ∧ i = 30 ∨ v = kHole.toNat := by
  simp only [KeyTables.cell, smallKeyboard] at h
  by_cases ht : t = 0
  · by_cases hi : i = 30
    · simp [ht, hi] at h
      exact .inl ⟨h.symm, hi⟩
    · simp [ht, hi] at h
      exact .inr h.symm
  · simp [ht] at h

theorem smallKeyboard_valid : smallKeyboard.Valid := by
  refine ⟨fun t i v h => ?_, fun t h => ?_, fun i => ?_⟩
  · rcases cell_smallKeyboard h with ⟨rfl, -⟩ | rfl <;> decide
  · rcases cell_smallKeyboard h with ⟨-, hi⟩ | hv
    · cases hi
    · cases hv
  · simp only [smallKeyboard]
    split <;> decide

theorem lkLoadKeymap_lkKernelKeymap_small :
    ∃ c, (lkKernelKeymap smallKeyboard.reader).run (lkInit {} 0) = .ok () c ∧
      ∀ (ioctl : Ioctl) (kbdMode : Int) (k₀ : Keyboard),
        (∀ q ∈ (lkLoadKeymap ioctl c kbdMode).2, q.2 = none) →
        let k' := k₀.after kHole.toNat id (lkLoadKeymap ioctl c kbdMode).2
        (lkLoadKeymap ioctl c kbdMode).1 = true ∧
        (∀ t < maxNrKeymaps, ∀ i < nrKeys, k'.tables.cell t i =
          if (smallKeyboard.tables t).isSome = true then smallKeyboard.tables.cell t i
          else k₀.tables.cell t i) ∧
        (∀ i < maxNrFunc, k'.strings i =
          if smallKeyboard.strings i ≠ [] then smallKeyboard.strings i
          else if (false : Bool) = true then [] else k₀.strings i) ∧
        k'.accents = if smallKeyboard.accents ≠ [] then smallKeyboard.accents.take (maxDiacr - 1)
          else if (false : Bool) = true then [] else k₀.accents :=
  lkLoadKeymap_lkKernelKeymap smallKeyboard_valid {} 0 kHole.toNat id (by
    intro d hd
    obtain rfl := List.mem_singleton.mp hd
    exact .inr ⟨by decide, rfl⟩)

/-! ## Reading back -/

/-- What a load leaves in a kernel is again the keyboard of a kernel. -/
theorem Keyboard.Valid.of_reaches {ctx : LkCtx} {dflt : Nat} {conv : LkKbdiacr → LkKbdiacr}
    {k k' : Keyboard} (hk : k.Valid) (hle : dflt ≤ 65535) (hne : dflt ≠ kNosuchmap.toNat)
    (h : ctx.Reaches dflt conv k k') : k'.Valid := by
  refine ⟨fun t i v hv => ?_, fun t hhead => ?_, fun i => ?_⟩
  · have hleaves := h.cells t i
    rw [hv] at hleaves
    generalize hx : some v = x at hleaves
    cases hleaves with
    | same => exact hk.cells t i v hx.symm
    | key _ hkey _ =>
      simp only [isLoadable, Bool.and_eq_true, decide_eq_true_eq, ushrtMax] at hkey
      have := Option.some.inj hx
      omega
    | fresh _ _ => exact Option.some.inj hx ▸ hle
    | dropped _ => cases hx
    | hole _ =>
      obtain rfl := Option.some.inj hx
      decide
  · have hleaves := h.cells t 0
    rw [hhead] at hleaves
    generalize hx : some kNosuchmap.toNat = x at hleaves
    cases hleaves with
    | same => exact hk.heads t hx.symm
    | key _ hkey hval =>
      have hnonneg := isLoadable_nonneg hkey
      have heq := Option.some.inj hx
      have hno : kNosuchmap = 0x27f := rfl
      exact hval ⟨rfl, by omega⟩
    | fresh _ _ => exact hne (Option.some.inj hx).symm
    | dropped _ => cases hx
    | hole _ => cases hx
  · rcases h.strings i with hs | ⟨-, hs⟩
    · rw [hs]
      exact hk.strings i
    · unfold Keymap.sentString at hs
      split at hs
      · rw [← Option.some.inj hs, List.length_take]
        exact Nat.min_le_left _ _
      · split at hs
        · rw [← Option.some.inj hs]
          exact Nat.zero_le _
        · cases hs

/-- A kernel that has been loaded is read back as the keymap it was loaded with: the maps, the keys
that fit into its entries, the strings that are not empty, and the accent table. -/
theorem lkKernelKeymap_lkLoadKeymap {ioctl : Ioctl} {ctx ctx' : LkCtx} {kbdMode : Int} (dflt : Nat)
    (conv : LkKbdiacr → LkKbdiacr) {k : Keyboard} (hk : k.Valid) (hle : dflt ≤ 65535)
    (hne : dflt ≠ kNosuchmap.toNat) (hc : lkAddConstants.run ctx = .ok () ctx')
    (h0 : ∀ t, lkMapExists ctx' t = true → lkGetKey ctx' t 0 ≠ kNosuchmap)
    (hok : ∀ q ∈ (lkLoadKeymap ioctl ctx kbdMode).2, q.2 = none) (flags : LkFlags) (charset : Nat) :
    ∃ c, (lkKernelKeymap (k.after dflt conv (lkLoadKeymap ioctl ctx kbdMode).2).reader).run
        (lkInit flags charset) = .ok () c ∧
      (∀ t < maxNrKeymaps, lkMapExists c t = true ↔
        (if lkMapExists ctx' t = true then (∃ i, isLoadable ctx' t i = true) ∨ (k.tables t).isSome = true
          else ctx'.keywords.keymaps = false ∧ (k.tables t).isSome = true)) ∧
      (∀ t < maxNrKeymaps, ∀ i < nrKeys, isLoadable ctx' t i = true →
        lkGetKey c t i = lkGetKey ctx' t i) ∧
      (∀ i < maxNrFunc, ∀ s, s ≠ [] → sentString ctx' i = some s → c.funcTable.get i = some s) ∧
      liveDiacrs c = loadedAccents ctx' conv k.accents := by
  obtain ⟨htables, hstrings, haccents, -⟩ := lkLoadKeymap_keyboard dflt conv k hc h0 hok
  set k' := k.after dflt conv (lkLoadKeymap ioctl ctx kbdMode).2 with hk'
  have hvalid : k'.Valid :=
    hk.of_reaches hle hne ((LkCtx.Reaches.refl ctx' dflt conv k).after (lkLoadKeymap_sends ioctl hc))
  obtain ⟨c, hrun, hholds, -, -⟩ := lkKernelKeymap_reader hvalid flags charset
  have hany (t : Nat) : (List.range nrKeys).any (isLoadable ctx' t) = true ↔
      ∃ i, isLoadable ctx' t i = true := by
    rw [List.any_eq_true]
    constructor
    · rintro ⟨i, -, h⟩
      exact ⟨i, h⟩
    · rintro ⟨i, h⟩
      have hi := h
      simp only [isLoadable, Bool.and_eq_true, decide_eq_true_eq] at hi
      exact ⟨i, List.mem_range.mpr hi.1.1.1, h⟩
  refine ⟨c, hrun, fun t ht => ?_, fun t ht i hi hload => ?_, fun i hi s hs hsent => ?_, ?_⟩
  · rw [hholds.maps, htables t ht, loadedTable]
    by_cases hmap : lkMapExists ctx' t = true
    · simp only [ht, hmap, ↓reduceIte, true_and]
      rw [← hany]
      split <;> simp_all
    · by_cases hkw : ctx'.keywords.keymaps = true
      · simp [ht, hmap, hkw]
      · simp [ht, hmap, hkw]
  · have hmap := lkMapExists_of_isLoadable hload
    have hcell : k'.tables.cell t i = some (lkGetKey ctx' t i).toNat := by
      have := (hany t).mpr ⟨i, hload⟩
      simp [KeyTables.cell, htables t ht, loadedTable, hmap, this, hload]
    rw [hholds.values t i _ ht hi hcell, Int.toNat_of_nonneg (isLoadable_nonneg hload)]
  · have hstring : k'.strings i = s := by rw [hstrings i hi, hsent]; rfl
    have hlen := hvalid.strings i
    rw [hholds.strings, hstring, if_pos ⟨hi, hs⟩, List.take_of_length_le (hstring ▸ hlen)]
  · rw [hholds.accents, haccents]

theorem lkKernelKeymap_lkLoadKeymap_small :
    let ctx := (lkInit).putKey 0 30 0x61
    let k' := smallKeyboard.after kHole.toNat id (lkLoadKeymap (fun _ _ => none) ctx 0).2
    ∃ c, (lkKernelKeymap k'.reader).run (lkInit {} 0) = .ok () c ∧ lkGetKey c 0 30 = 0x61 ∧
      lkMapExists c 1 = false ∧ liveDiacrs c = [⟨0x60, 0x41, 0xc0⟩] := by
  intro ctx k'
  have hc : lkAddConstants.run ctx = .ok () ctx := rfl
  have h0 : ∀ t, lkMapExists ctx t = true → lkGetKey ctx t 0 ≠ kNosuchmap := by
    intro t ht
    obtain rfl : t = 0 := by
      have : t < 1 := lkMapExists_lt ht
      omega
    decide
  have hok : ∀ q ∈ (lkLoadKeymap (fun _ _ => none) ctx 0).2, q.2 = none := by decide +kernel
  obtain ⟨c, hrun, hmaps, hkeys, -, hdiacrs⟩ := lkKernelKeymap_lkLoadKeymap kHole.toNat id
    smallKeyboard_valid (by decide) (by decide) hc h0 hok {} 0
  refine ⟨c, hrun, hkeys 0 (by decide) 30 (by decide) rfl, ?_, hdiacrs⟩
  have h1 := hmaps 1 (by decide)
  have hno : lkMapExists ctx 1 = false := rfl
  simpa [hno, smallKeyboard] using h1

end Kbd.Keymap
