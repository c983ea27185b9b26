import Kbd.Keymap.Verify.Dump

/-!
# The two passes of `lk_dump_keys`

The first pass compares maps that both exist, and reads the context. The second one reads its
buffer, in which it wipes out Meta bindings as it goes, and looks at the map with the Alt bit only.
Still the second finds what the first has promised, so that it never prints "impossible: not meta?"
(`lkDumpKeys_meta`).
-/

namespace Kbd.Keymap

open Kbd.Lib

/-- Cell `(ja, i)` is the Meta form of an ASCII code in the map without the Alt bit. -/
structure MetaOfAscii (c : LkCtx) (i j ja : Nat) : Prop where
  ne : j ≠ ja
  table : ja = j ||| mAlt
  map : lkMapExists c ja = true
  ascii : (ktyp (lkGetKey c j i) = ktLatin ∨ ktyp (lkGetKey c j i) = ktLetter) ∧
    kval (lkGetKey c j i) < 128
  metaCode : lkGetKey c ja i = K ktMeta (kval (lkGetKey c j i))

/-! ## The first pass -/

theorem predictsMeta_iff {v : Int} :
    predictsMeta v = true ↔ (ktyp v = ktLatin ∨ ktyp v = ktLetter) ∧ kval v < 128 := by
  simp [predictsMeta]

/-- A hole predicts nothing. -/
theorem not_predictsMeta_kHole : predictsMeta kHole = false := rfl

/-- Nor does the -1 of `lk_get_key` for a map that does not exist. -/
theorem not_predictsMeta_missing : predictsMeta (-1) = false := rfl

theorem predictsMeta_rowVal (c : LkCtx) (i j : Nat) :
    predictsMeta (c.rowVal i j) = true ↔ predictsMeta (lkGetKey c j i) = true := by
  unfold LkCtx.rowVal
  split
  · rfl
  · rename_i hj
    rw [lkGetKey_of_not_exists (Bool.eq_false_iff.mpr hj), not_predictsMeta_kHole,
      not_predictsMeta_missing]

theorem exists_of_predictsMeta {c : LkCtx} {i j : Nat} (h : predictsMeta (c.rowVal i j) = true) :
    lkMapExists c j = true := by
  by_contra hj
  rw [LkCtx.rowVal, if_neg hj] at h
  cases h

theorem rowVal_of_exists {c : LkCtx} {i j : Nat} (h : lkMapExists c j = true) :
    c.rowVal i j = lkGetKey c j i :=
  if_pos h

/-- What the first pass has checked. -/
theorem meta_of_first_pass {keycodeZero : Bool} {c : LkCtx} {table : TableShape}
    (hm : dumpsAltIsMeta keycodeZero c table = true) {i : Nat} (hi : i ∈ dumpedKeys keycodeZero)
    {j : Nat} (hne : j ≠ j ||| mAlt) (hex : lkMapExists c (j ||| mAlt) = true)
    (hv : predictsMeta (c.rowVal i j) = true) :
    c.rowVal i (j ||| mAlt) = K ktMeta (kval (c.rowVal i j)) := by
  have hj := exists_of_predictsMeta hv
  have hall : altIsMetaAt keycodeZero c j = true := by
    simp only [dumpsAltIsMeta, Bool.and_eq_true, List.all_eq_true] at hm
    exact hm.2 j (List.mem_range.mpr (lkMapExists_lt hj))
  have hcond : (decide (j ≠ j ||| mAlt) && lkMapExists c j && lkMapExists c (j ||| mAlt)) = true := by
    simp [hne, hj, hex]
  unfold altIsMetaAt at hall
  rw [if_pos hcond, List.all_eq_true] at hall
  have hcell := hall i hi
  rw [rowVal_of_exists hj] at hv ⊢
  rw [rowVal_of_exists hex]
  have hp : ((decide (ktyp (lkGetKey c j i) = ktLatin) || decide (ktyp (lkGetKey c j i) = ktLetter)) &&
      decide (kval (lkGetKey c j i) < 128)) = true := hv
  simpa [hp] using hcell

/-! ## The second pass -/

section SecondPass

variable {keycodeZero : Bool} {c : LkCtx} {table : TableShape}
  (htot : c.keymap.total ≤ maxNrKeymaps) (hm : dumpsAltIsMeta keycodeZero c table = true)
  {i : Nat} (hi : i ∈ dumpedKeys keycodeZero)

include htot hm hi

/-- A round finds the Meta binding in place: no earlier round was for the same map. -/
theorem notMeta_eq_false {k : Nat} (hk : k < c.keymap.total) {s : IntArray × IntArray}
    (hs : ZapInv c i k s) : notMeta c s.1 k = some false := by
  have hor := or_mAlt k
  have h8 : mAlt = 8 := rfl
  unfold notMeta
  by_cases hc : (decide (k ≠ k ||| mAlt) && lkMapExists c (k ||| mAlt)) = true
  · simp only [hc, ↓reduceIte]
    obtain ⟨hne, hex⟩ := Bool.and_eq_true _ _ ▸ hc
    have hlt := lkMapExists_lt hex
    have hbuf : s.1 k = c.rowVal i k := by
      refine (hs k hk).1.trans (if_neg fun hz => ?_)
      have hbit := hz.1
      simp only [LkCtx.zapped, Bool.and_eq_true, testBit_mAlt, decide_eq_true_eq] at hbit
      exact of_decide_eq_true hne (by omega)
    have hmeta : s.1 (k ||| mAlt) = c.rowVal i (k ||| mAlt) := by
      refine (hs _ hlt).1.trans (if_neg fun hz => ?_)
      have := of_decide_eq_true hne
      omega
    rw [load_of_lt (by omega), load_of_lt (by omega), hbuf, hmeta]
    simp only [Option.bind_eq_bind, Option.bind_some]
    by_cases hv : predictsMeta (c.rowVal i k) = true
    · rw [meta_of_first_pass hm hi (of_decide_eq_true hne) hex hv]
      simp
    · have hv' : ((decide (ktyp (c.rowVal i k) = ktLatin) || decide (ktyp (c.rowVal i k) = ktLetter)) &&
          decide (kval (c.rowVal i k) < 128)) = false := Bool.eq_false_iff.mpr hv
      simp [hv']
  · rw [if_neg hc]
    rfl

theorem zapMessages_eq_zero {n k : Nat} (hk : k + n = c.keymap.total) {s : IntArray × IntArray}
    (hs : ZapInv c i k s) : zapMessages c s (List.range' k n) = some 0 := by
  induction n generalizing k s with
  | zero => rfl
  | succ n ih =>
    have hlt : k < c.keymap.total := by omega
    obtain ⟨s', hs', hI⟩ := zapInv_step htot hlt hs
    rw [List.range'_succ, zapMessages, notMeta_eq_false htot hm hi hlt hs, hs']
    simp only [Option.bind_eq_bind, Option.bind_some]
    rw [ih (by omega) hI]
    rfl

theorem keyMessages_eq_zero : keyMessages c table true i = some 0 := by
  obtain ⟨buf, hfill, hbuf⟩ := fillBuf_eq htot i
  have hzero : zapMessages c (buf, fun _ => 0) (List.range c.keymap.total) = some 0 := by
    rw [List.range_eq_range']
    exact zapMessages_eq_zero htot hm hi (Nat.zero_add _) (zapInv_zero hbuf)
  unfold keyMessages
  rw [hfill]
  simp only [Option.bind_eq_bind, Option.bind_some]
  split
  · rfl
  · cases table with
    | fullTable | separateLines => rfl
    | default | untilHole => exact hzero

end SecondPass

/-- What is wiped out, in terms of the bindings. -/
theorem zapped_iff {keycodeZero : Bool} {c : LkCtx} {table : TableShape}
    (hm : dumpsAltIsMeta keycodeZero c table = true) {i : Nat} (hi : i ∈ dumpedKeys keycodeZero)
    (ja : Nat) : c.zapped true i ja = true ↔ ∃ j, MetaOfAscii c i j ja := by
  have h8 : mAlt = 8 := rfl
  constructor
  · intro hz
    have hle := mAlt_le_of_zapped hz
    simp only [LkCtx.zapped, Bool.and_eq_true, testBit_mAlt, decide_eq_true_eq] at hz
    obtain ⟨⟨⟨-, hbit⟩, hex⟩, hv⟩ := hz
    have htab : ja = (ja - mAlt) ||| mAlt := by
      rw [or_mAlt]
      omega
    have hne : ja - mAlt ≠ (ja - mAlt) ||| mAlt := by omega
    have hj := exists_of_predictsMeta hv
    have hmeta := meta_of_first_pass hm hi hne (htab ▸ hex) hv
    rw [← htab, rowVal_of_exists hex, rowVal_of_exists hj] at hmeta
    exact ⟨ja - mAlt, by omega, htab, hex, predictsMeta_iff.mp ((predictsMeta_rowVal c i _).mp hv),
      hmeta⟩
  · rintro ⟨j, hne, htab, hex, hascii, -⟩
    have hor := or_mAlt j
    have hj : ja - mAlt = j := by omega
    have hbit : ja / 8 % 2 = 1 := by omega
    have hv : predictsMeta (c.rowVal i j) = true :=
      (predictsMeta_rowVal c i j).mpr (predictsMeta_iff.mpr hascii)
    simp [LkCtx.zapped, testBit_mAlt, hbit, hj, hex, hv]

/-- With maps below `MAX_NR_KEYMAPS`, when `lk_dump_keys` decides on `alt_is_meta` it prints no
message, and the cells it wipes out are the Meta forms of ASCII codes. -/
theorem lkDumpKeys_meta {keycodeZero : Bool} {c : LkCtx} {table : TableShape}
    (htot : c.keymap.total ≤ maxNrKeymaps) (hm : dumpsAltIsMeta keycodeZero c table = true) :
    lkDumpKeysMessages keycodeZero c table = some 0 ∧
    ∀ i ∈ dumpedKeys keycodeZero, ∃ buf buf' zapped, fillBuf c i = some (buf, c.allHoles i) ∧
      zapAll c true buf = some (buf', zapped) ∧
      ∀ ja < c.keymap.total, zapped ja ≠ 0 ↔ ∃ j, MetaOfAscii c i j ja := by
  refine ⟨?_, fun i hi => ?_⟩
  · unfold lkDumpKeysMessages
    split
    · rfl
    · have hall : (dumpedKeys keycodeZero).mapM (keyMessages c table true) =
          some ((dumpedKeys keycodeZero).map fun _ => 0) :=
        Checked.mapM_of_some fun i hi => keyMessages_eq_zero htot hm hi
      simp [hm, hall]
  · obtain ⟨buf, hfill, hbuf⟩ := fillBuf_eq htot i
    obtain ⟨buf', zapped, hzap, h⟩ := zapAll_eq htot hbuf true
    refine ⟨buf, buf', zapped, hfill, hzap, fun ja hja => ?_⟩
    rw [← zapped_iff hm hi, (h ja hja).2]
    by_cases hz : c.zapped true i ja = true
    · simp [hz]
    · simp [hz]

/-- A key with a letter and its Meta form. -/
theorem lkDumpKeys_meta_letter : ∃ c,
    (runStmts [.altIsMeta, .keymaps [.single 0, .single 8], .plain 30 0x61]).run lkInit = .ok () c ∧
    lkDumpKeysMessages false c .default = some 0 ∧
    ∀ i ∈ dumpedKeys false, ∃ buf buf' zapped, fillBuf c i = some (buf, c.allHoles i) ∧
      zapAll c true buf = some (buf', zapped) ∧
      ∀ ja < c.keymap.total, zapped ja ≠ 0 ↔ ∃ j, MetaOfAscii c i j ja :=
  ⟨_, rfl, lkDumpKeys_meta (by decide +kernel) (by decide +kernel)⟩

end Kbd.Keymap
