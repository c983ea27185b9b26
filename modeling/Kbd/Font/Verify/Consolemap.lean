import Kbd.Font.Consolemap

/-!
# A saved screen map is loaded again

The file of a screen map that goes straight to the font has its font positions, every other one its code
points. Either is told from the other by its size, and sets the map that was saved
(`kfontLoadConsolemap_kfontSaveConsolemap`), unless its first two bytes are those of an archive.
-/

namespace Kbd.Font.Mapscrn

open Kbd.Lib (Endian)

/-! ## Binary maps -/

/-- A block of a list that is made of blocks of one length. -/
theorem take_drop_flatMap {α β : Type} {f : α → List β} {w : Nat} (hw : ∀ a, (f a).length = w)
    {as : List α} {i : Nat} {a : α} (hi : as[i]? = some a) :
    ((as.flatMap f).drop (w * i)).take w = f a := by
  induction as generalizing i with
  | nil => cases hi
  | cons b as ih =>
    cases i with
    | zero =>
      cases hi
      rw [Nat.mul_zero, List.drop_zero, List.flatMap_cons, List.take_left' (hw _)]
    | succ i =>
      rw [Nat.mul_succ, Nat.add_comm, ← List.drop_drop, List.flatMap_cons, List.drop_left' (hw b)]
      exact ih hi

theorem length_scrnmapBytes (buf : ScreenMap) : (scrnmapBytes buf).length = eTabsz := by
  rw [scrnmapBytes, List.length_map, Vector.length_toList]

theorem length_uniscrnmapBytes (host : Endian) (ubuf : ScreenMap) :
    (uniscrnmapBytes host ubuf).length = 2 * eTabsz := by
  have hlen : ubuf.toList.map (fun u => (host.store 2 u).length) = List.replicate eTabsz 2 := by
    simp only [Endian.length_store, List.map_const', Vector.length_toList]
  rw [uniscrnmapBytes, List.length_flatMap, hlen, List.sum_replicate_nat, Nat.mul_comm]

theorem getElem?_toList (m : ScreenMap) {i : Nat} (hi : i < eTabsz) : m.toList[i]? = some m[i] := by
  simp [hi]

/-- A map of bytes is read back. -/
theorem readnewmapfromfile_scrnmapBytes (host : Endian) {buf : ScreenMap}
    (h : ∀ i (hi : i < eTabsz), buf[i] < 256) :
    readnewmapfromfile host (scrnmapBytes buf).length (scrnmapBytes buf) = some (.scrnmap buf) := by
  have hread : (Vector.ofFn fun i => ((scrnmapBytes buf).getD i.val 0).toNat) = buf := by
    ext i hi
    rw [Vector.getElem_ofFn, scrnmapBytes, List.getD_eq_getElem?_getD, List.getElem?_map,
      getElem?_toList buf hi, Option.map_some, Option.getD_some, UInt8.toNat_ofNat']
    exact Nat.mod_eq_of_lt (h i hi)
  rw [readnewmapfromfile, length_scrnmapBytes, if_pos rfl, if_neg (Nat.lt_irrefl _), hread]

/-- A map of code points is read back. -/
theorem readnewmapfromfile_uniscrnmapBytes (host : Endian) {ubuf : ScreenMap}
    (h : ∀ i (hi : i < eTabsz), ubuf[i] < 65536) :
    readnewmapfromfile host (uniscrnmapBytes host ubuf).length (uniscrnmapBytes host ubuf) =
      some (.uniscrnmap ubuf) := by
  have hread : (Vector.ofFn fun i =>
      host.load (((uniscrnmapBytes host ubuf).drop (2 * i.val)).take 2)) = ubuf := by
    ext i hi
    rw [Vector.getElem_ofFn, uniscrnmapBytes,
      take_drop_flatMap (fun u => host.length_store 2 u) (getElem?_toList ubuf hi)]
    exact host.load_store (h i hi)
  rw [readnewmapfromfile, length_uniscrnmapBytes, if_neg (by decide), if_pos rfl,
    if_neg (Nat.lt_irrefl _), hread]

/-! ## The round trip -/

/-- What is saved is loaded as the map that was there, unless it is taken for an archive. -/
theorem kfontLoadConsolemap_kfontSaveConsolemap (host : Endian) {r : ScrnReader} {map : ScreenMap}
    (hmap : ∀ i (hi : i < eTabsz), map[i] < 65536) (hr : r.Reads map) :
    ∃ file, kfontSaveConsolemap host r = some file ∧
      (isArchive file = false → ∀ unpack answer, ∃ req,
        kfontLoadConsolemap host unpack answer (some (some file)) = some (putScrnmap answer req) ∧
          req.apply = map) := by
  unfold kfontSaveConsolemap
  rw [hr.uniscrnmap]
  dsimp only
  have hopen (unpack : List UInt8 → Option (List UInt8)) {file : List UInt8}
      (h : isArchive file = false) : openedFile unpack file = some file := by
    rw [openedFile, h, if_neg Bool.false_ne_true]
  cases hfilter : r.gioScrnmap.filter
      (fun _ => map.toList.all fun u => decide (u - u % 256 = 0xf000)) with
  | none =>
    refine ⟨uniscrnmapBytes host map, rfl, fun harchive unpack answer =>
      ⟨.pioUniscrnmap map, ?_, rfl⟩⟩
    simp only [kfontLoadConsolemap, hopen unpack harchive,
      readnewmapfromfile_uniscrnmapBytes host hmap, Option.map_some]
  | some buf =>
    obtain ⟨hbuf, hall⟩ := Option.filter_eq_some_iff.mp hfilter
    have hbytes := hr.scrnmap buf hbuf
    refine ⟨scrnmapBytes buf, rfl, fun harchive unpack answer => ⟨.pioScrnmap buf, ?_, ?_⟩⟩
    · simp only [kfontLoadConsolemap, hopen unpack harchive,
        readnewmapfromfile_scrnmapBytes host fun i hi => (hbytes i hi).1, Option.map_some]
    · ext i hi
      have hdirect := List.all_eq_true.mp hall map[i] (List.mem_of_getElem? (getElem?_toList map hi))
      rw [decide_eq_true_eq] at hdirect
      have hval := (hbytes i hi).2 (by omega) (by omega)
      simp only [ScrnRequest.apply, Vector.getElem_map]
      omega

/-- The map that goes straight to the font. -/
theorem kfontLoadConsolemap_kfontSaveConsolemap_straight :
    ∃ file, kfontSaveConsolemap .little ⟨some straightBuf, some straightUbuf⟩ = some file ∧
      ∀ unpack answer, ∃ req,
        kfontLoadConsolemap .little unpack answer (some (some file)) =
            some (putScrnmap answer req) ∧
          req.apply = straightUbuf := by
  have hubuf {i : Nat} (hi : i < eTabsz) : straightUbuf[i] = 0xf000 + i := by
    rw [straightUbuf, Vector.getElem_ofFn]
  have hmap (i : Nat) (hi : i < eTabsz) : straightUbuf[i] < 65536 := by
    have hlt : i < 256 := hi
    rw [hubuf hi]
    omega
  have hreads : (⟨some straightBuf, some straightUbuf⟩ : ScrnReader).Reads straightUbuf := by
    refine ⟨rfl, fun buf hbuf i hi => ?_⟩
    have hlt : i < 256 := hi
    have hval : straightBuf[i] = i := by rw [straightBuf, Vector.getElem_ofFn]
    rw [← Option.some.inj hbuf, hubuf hi, hval]
    omega
  obtain ⟨file, hfile, hload⟩ := kfontLoadConsolemap_kfontSaveConsolemap .little hmap hreads
  have hstraight : (kfontSaveConsolemap .little ⟨some straightBuf, some straightUbuf⟩).map isArchive =
      some false := by decide +kernel
  rw [hfile, Option.map_some, Option.some_inj] at hstraight
  exact ⟨file, hfile, hload hstraight⟩

end Kbd.Font.Mapscrn
