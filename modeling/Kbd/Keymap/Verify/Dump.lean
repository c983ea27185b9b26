import Kbd.Keymap.Dump
import Kbd.Keymap.Verify.Stmt
import Kbd.Lib.Checked

/-!
# The lines that are written

With at most `MAX_NR_KEYMAPS` maps no index of `lk_dump_keys` is out of range, and what it prints is
a list of lines that can be read off the bindings (`lkDumpKeys_eq`). With more maps it writes beyond
the end of `buf`, whatever the shape (`lkDumpKeys_isSome_iff`).
-/

namespace Kbd.Keymap

open Kbd.Lib

/-! ## Lines -/

/-- The lines of `lk_dump_keys`. -/
inductive DumpLine where
  | blank
  | altIsMeta
  | keycode (i : Nat) (values : List Int)
  | bind (i j : Nat) (value : Int)
  deriving DecidableEq, Repr

def DumpLine.text (ctx : LkCtx) (style : PrintStyle) : DumpLine → List Char
  | .blank => ['\n']
  | .altIsMeta => bytes "alt_is_meta\n"
  | .keycode i values => keycodeText i ++ values.flatMap (printKeysym ctx style) ++ ['\n']
  | .bind i j value => printBind ctx style value i j

/-- What `buf` holds for map `j`. -/
def LkCtx.rowVal (c : LkCtx) (i j : Nat) : Int :=
  if lkMapExists c j then lkGetKey c j i else kHole

/-- Whether a binding predicts one for the map with the Alt bit. -/
def predictsMeta (v : Int) : Bool := (ktyp v = ktLatin || ktyp v = ktLetter) && kval v < 128

/-- Whether the binding in map `j` is wiped out. -/
def LkCtx.zapped (c : LkCtx) (altIsMeta : Bool) (i j : Nat) : Bool :=
  altIsMeta && j.testBit 3 && lkMapExists c j && predictsMeta (c.rowVal i (j - mAlt))

/-- What `buf` holds for map `j` after that. -/
def LkCtx.bufVal (c : LkCtx) (altIsMeta : Bool) (i j : Nat) : Int :=
  if c.zapped altIsMeta i j then kHole else c.rowVal i j

/-- Whether map `j` has the binding that the letter `val` gets. -/
def LkCtx.expectedAt (c : LkCtx) (val : Int) (i j : Nat) : Bool :=
  !lkMapExists c j ||
    !((j ≥ 16 && c.rowVal i j ≠ kHole) || (j < 16 && c.rowVal i j ≠ (letterDefs val).getD j 0))

/-- Whether the bindings of a key are those of a letter. -/
def LkCtx.isLetterRow (c : LkCtx) (i : Nat) : Bool :=
  isLetterCode (c.rowVal i 0) &&
    (List.range c.keymap.total).all (c.expectedAt (kval (c.rowVal i 0)) i)

/-- The maps but the first that count for the choice between the forms of a line. -/
def LkCtx.counted (c : LkCtx) (altIsMeta : Bool) (i : Nat) : List Nat :=
  (List.range' 1 (c.keymap.total - 1)).filter fun j => !c.zapped altIsMeta i j

def LkCtx.bad (c : LkCtx) (altIsMeta : Bool) (i : Nat) : Nat :=
  (c.counted altIsMeta i).countP fun j => c.bufVal altIsMeta i j ≠ c.bufVal altIsMeta i 0

def LkCtx.count (c : LkCtx) (altIsMeta : Bool) (i : Nat) : Nat :=
  (c.counted altIsMeta i).countP fun j => c.bufVal altIsMeta i j ≠ kHole

/-- Whether a line has one value, or none. -/
def LkCtx.isSingle (c : LkCtx) (altIsMeta : Bool) (i : Nat) : Bool :=
  c.bad altIsMeta i ≤ c.count altIsMeta i && c.bad altIsMeta i < c.keymap.total - 1

/-- A line with one value, or none, and its exceptions. -/
def LkCtx.singleLines (c : LkCtx) (m : Bool) (i : Nat) : List DumpLine :=
  let b0 := c.bufVal m i 0
  .keycode i (if b0 ≠ kHole then [b0] else []) ::
    ((List.range' 1 (c.keymap.total - 1)).filter fun j =>
      lkMapExists c j && c.bufVal m i j ≠ b0 && !c.zapped m i j).map
        fun j => .bind i j (c.bufVal m i j)

/-- A line with the values until a hole, and its exceptions. -/
def LkCtx.longLines (c : LkCtx) (m : Bool) (i : Nat) : List DumpLine :=
  let js := List.range c.keymap.total
  .keycode i ((js.takeWhile fun j => c.bufVal m i j ≠ kHole).map (c.bufVal m i)) ::
    ((js.dropWhile fun j => c.bufVal m i j ≠ kHole).filter fun j => c.bufVal m i j ≠ kHole).map
      fun j => .bind i j (c.bufVal m i j)

/-- The lines for a key in the shapes with shorthands. -/
def LkCtx.shortLines (c : LkCtx) (m : Bool) (i : Nat) : List DumpLine :=
  if c.isLetterRow i then [.keycode i [K ktLatin (kval (c.rowVal i 0))]]
  else if c.isSingle m i then c.singleLines m i
  else c.longLines m i

def LkCtx.allHoles (c : LkCtx) (i : Nat) : Bool :=
  (List.range c.keymap.total).all fun j => c.rowVal i j = kHole

/-- The lines for a key. -/
def LkCtx.keyLines (c : LkCtx) (table : TableShape) (m : Bool) (i : Nat) : List DumpLine :=
  match table with
  | .fullTable => [.keycode i (c.maps.map (c.rowVal i))]
  | .separateLines =>
    if c.allHoles i then [] else c.maps.map (fun j => .bind i j (c.rowVal i j)) ++ [.blank]
  | .default | .untilHole => if c.allHoles i then [] else c.shortLines m i

/-- The lines of `lk_dump_keys`. -/
def LkCtx.dumpLines (c : LkCtx) (keycodeZero : Bool) (table : TableShape) : List DumpLine :=
  if c.keymap.total = 0 then []
  else
    let m := dumpsAltIsMeta keycodeZero c table
    (if m then [.altIsMeta] else []) ++ (dumpedKeys keycodeZero).flatMap (c.keyLines table m)

/-! ## The arrays -/

theorem load_of_lt {buf : IntArray} {j : Nat} (h : j < maxNrKeymaps) : load buf j = some (buf j) :=
  if_pos h

theorem store_of_lt {buf : IntArray} {j : Nat} (h : j < maxNrKeymaps) (v : Int) :
    store buf j v = some (Function.update buf j v) :=
  if_pos h

theorem printEach_of_some {α : Type} {l : List α} {f : α → Option (List Char)}
    {g : α → List Char} (h : ∀ a ∈ l, f a = some (g a)) :
    printEach l f = some (l.flatMap g) := by
  unfold printEach
  rw [Checked.mapM_of_some h, Option.map_some, List.flatMap_def]

theorem fillStep_of_lt (c : LkCtx) (i : Nat) (s : IntArray × Bool) {j : Nat}
    (hj : j < maxNrKeymaps) :
    fillStep c i s j =
      some (Function.update s.1 j (c.rowVal i j), s.2 && decide (c.rowVal i j = kHole)) := by
  unfold fillStep LkCtx.rowVal
  by_cases he : lkMapExists c j = true
  · simp [store_of_lt hj, load_of_lt hj, he]
  · simp [store_of_lt hj, load_of_lt hj, he]

theorem testBit_mAlt (k : Nat) : k.testBit 3 = decide (k / 8 % 2 = 1) :=
  Nat.testBit_eq_decide_div_mod_eq

theorem zapped_add_mAlt (c : LkCtx) (i k : Nat) :
    c.zapped true i (k + mAlt) =
      (!k.testBit 3 && lkMapExists c (k + mAlt) && predictsMeta (c.rowVal i k)) := by
  have h : (k + mAlt).testBit 3 = !k.testBit 3 := by
    have h8 : mAlt = 8 := rfl
    rw [testBit_mAlt, testBit_mAlt, ← decide_not, decide_eq_decide]
    omega
  unfold LkCtx.zapped
  rw [h, Nat.add_sub_cancel, Bool.true_and]

theorem mAlt_le_of_zapped {c : LkCtx} {m : Bool} {i j : Nat} (h : c.zapped m i j = true) :
    mAlt ≤ j := by
  simp only [LkCtx.zapped, Bool.and_eq_true] at h
  have := Nat.ge_two_pow_of_testBit h.1.1.2
  exact this

section Arrays

variable {c : LkCtx} (htot : c.keymap.total ≤ maxNrKeymaps)

include htot

/-- `buf` and `all_holes`. -/
theorem fillBuf_eq (i : Nat) :
    ∃ buf, fillBuf c i = some (buf, c.allHoles i) ∧ ∀ j < c.keymap.total, buf j = c.rowVal i j := by
  obtain ⟨⟨buf, h⟩, hfold, rfl, hbuf⟩ := Checked.foldlM_range (n := c.keymap.total)
    (s := ((fun _ => 0 : IntArray), true)) (f := fillStep c i)
    (I := fun k s => s.2 = ((List.range k).all fun j => c.rowVal i j = kHole) ∧
      ∀ j < k, s.1 j = c.rowVal i j) ⟨rfl, by simp⟩ (by
    rintro k hk ⟨buf, h⟩ ⟨rfl, hbuf⟩
    refine ⟨_, fillStep_of_lt c i _ (by omega), ?_, fun j hj => ?_⟩
    · simp [List.range_succ]
    · by_cases hjk : j = k
      · simp [hjk]
      · simpa [hjk] using hbuf j (by omega))
  exact ⟨buf, hfold, hbuf⟩

/-- A round of the loop that wipes out Meta bindings: map `j` has no Alt bit, so its own binding has
not been wiped out. -/
theorem zapMeta_eq {i k : Nat} (hk : k < c.keymap.total) {buf zapped : IntArray}
    (hbuf : buf k = c.rowVal i k ∨ k.testBit 3 = true) :
    zapMeta c (buf, zapped) k =
      if !k.testBit 3 && lkMapExists c (k + mAlt) && predictsMeta (c.rowVal i k) then
        some (Function.update buf (k + mAlt) kHole, Function.update zapped (k + mAlt) 1)
      else some (buf, zapped) := by
  have hor := or_mAlt k
  have h8 : mAlt = 8 := rfl
  have hbit := testBit_mAlt k
  unfold zapMeta
  by_cases hb : k.testBit 3 = true
  · have hja : k ||| mAlt = k := by
      rw [hb] at hbit
      have := of_decide_eq_true hbit.symm
      omega
    simp [hb, hja]
  · have hja : k ||| mAlt = k + mAlt := by
      have : ¬ k / 8 % 2 = 1 := by simpa [hb] using hbit
      omega
    have hne : k ≠ k + mAlt := by omega
    have hlt : k < maxNrKeymaps := by omega
    have hv : buf k = c.rowVal i k := hbuf.resolve_right hb
    by_cases he : lkMapExists c (k + mAlt) = true
    · have hlt' : k + mAlt < maxNrKeymaps := by
        have := lkMapExists_lt he
        omega
      simp only [hja, hne, he, load_of_lt hlt, load_of_lt hlt', store_of_lt hlt', hv, predictsMeta,
        hb, Option.bind_eq_bind, Option.bind_some, Option.pure_def, ne_eq, not_false_eq_true,
        decide_true, Bool.and_true, Bool.not_false, Bool.true_and, ↓reduceIte]
    · simp [hja, he]

omit htot in
/-- The arrays after `k` rounds: the maps below `k | M_ALT` are done. -/
def ZapInv (c : LkCtx) (i k : Nat) (s : IntArray × IntArray) : Prop :=
  ∀ j < c.keymap.total,
    s.1 j = (if c.zapped true i j ∧ j < k + mAlt then kHole else c.rowVal i j) ∧
    s.2 j = if c.zapped true i j ∧ j < k + mAlt then 1 else 0

omit htot in
theorem zapInv_zero {i : Nat} {buf : IntArray} (hbuf : ∀ j < c.keymap.total, buf j = c.rowVal i j) :
    ZapInv c i 0 (buf, fun _ => 0) := by
  intro j hj
  have hno : ¬ (c.zapped true i j = true ∧ j < 0 + mAlt) := by
    rintro ⟨hz, hlt⟩
    have := mAlt_le_of_zapped hz
    omega
  rw [if_neg hno, if_neg hno]
  exact ⟨hbuf j hj, rfl⟩

theorem zapInv_step {i k : Nat} (hk : k < c.keymap.total) {s : IntArray × IntArray}
    (h : ZapInv c i k s) : ∃ s', zapMeta c s k = some s' ∧ ZapInv c i (k + 1) s' := by
  obtain ⟨buf, z⟩ := s
  have hbit : buf k = c.rowVal i k ∨ k.testBit 3 = true := by
    by_cases hb : k.testBit 3 = true
    · exact .inr hb
    · have hno : ¬ (c.zapped true i k = true ∧ k < k + mAlt) := by simp [LkCtx.zapped, hb]
      exact .inl ((h k hk).1.trans (if_neg hno))
  have hother {j : Nat} (hj : j ≠ k + mAlt) : j < k + 1 + mAlt ↔ j < k + mAlt := by omega
  rw [zapMeta_eq htot hk hbit, ← zapped_add_mAlt]
  by_cases hz : c.zapped true i (k + mAlt) = true
  · rw [if_pos hz]
    refine ⟨_, rfl, fun j hj => ?_⟩
    by_cases hjk : j = k + mAlt
    · have hlt : k + mAlt < k + 1 + mAlt := by omega
      simp [hjk, hz, hlt]
    · simpa [hjk, hother hjk] using h j hj
  · rw [if_neg hz]
    refine ⟨_, rfl, fun j hj => ?_⟩
    by_cases hjk : j = k + mAlt
    · have := h j hj
      rw [hjk] at this ⊢
      simpa [hz] using this
    · simpa [hother hjk] using h j hj

/-- `buf` and `zapped` for a line. -/
theorem zapAll_eq {i : Nat} {buf : IntArray} (hbuf : ∀ j < c.keymap.total, buf j = c.rowVal i j)
    (m : Bool) : ∃ buf' zapped', zapAll c m buf = some (buf', zapped') ∧
      ∀ j < c.keymap.total, buf' j = c.bufVal m i j ∧
        zapped' j = if c.zapped m i j then 1 else 0 := by
  have hclear : (List.range c.keymap.total).foldlM (fun zapped j => store zapped j 0)
      (fun _ => 0 : IntArray) = some (fun _ => 0) := by
    obtain ⟨z, hz, rfl⟩ := Checked.foldlM_range (n := c.keymap.total) (s := (fun _ => 0 : IntArray))
      (f := fun zapped j => store zapped j 0) (I := fun _ z => z = fun _ => 0) rfl (by
      rintro k hk z rfl
      exact ⟨_, store_of_lt (by omega) 0, by simp⟩)
    exact hz
  unfold zapAll
  simp only [hclear, Option.bind_eq_bind, Option.bind_some]
  cases m with
  | false => exact ⟨buf, fun _ => 0, rfl, fun j hj => by simp [LkCtx.bufVal, LkCtx.zapped, hbuf j hj]⟩
  | true =>
    obtain ⟨⟨buf', z'⟩, hfold, hI⟩ := Checked.foldlM_range (I := ZapInv c i) (zapInv_zero hbuf)
      fun k hk s hs => zapInv_step htot hk hs
    refine ⟨buf', z', hfold, fun j hj => ?_⟩
    have hlt : j < c.keymap.total + mAlt := by omega
    simpa [hlt, LkCtx.bufVal] using hI j hj

end Arrays

/-! ## The lines -/

theorem flatMap_text_bind (c : LkCtx) (style : PrintStyle) (i : Nat) (f : Nat → Int) (js : List Nat) :
    (js.map fun j => DumpLine.bind i j (f j)).flatMap (DumpLine.text c style) =
      js.flatMap fun j => printBind c style (f j) i j := by
  rw [List.flatMap_map]
  rfl

theorem flatMap_ite {α β : Type} (l : List α) (p : α → Bool) (f : α → List β) :
    (l.flatMap fun a => if p a then f a else []) = (l.filter p).flatMap f := by
  induction l with
  | nil => rfl
  | cons a l ih =>
    by_cases h : p a = true
    · simp [h, ih]
    · simp [h, ih]

section Lines

variable {c : LkCtx} (htot : c.keymap.total ≤ maxNrKeymaps)

include htot

theorem allAsExpected_eq {i : Nat} {val : Int} {buf : IntArray} {js : List Nat}
    (hjs : ∀ j ∈ js, j < c.keymap.total) (hbuf : ∀ j < c.keymap.total, buf j = c.rowVal i j) :
    allAsExpected c val buf js = some (js.all (c.expectedAt val i)) := by
  induction js with
  | nil => rfl
  | cons j js ih =>
    rw [List.forall_mem_cons] at hjs
    have hlt : j < maxNrKeymaps := by omega
    have hexp : asExpected c val buf j = some (c.expectedAt val i j) := by
      unfold asExpected LkCtx.expectedAt
      by_cases he : lkMapExists c j = true
      · simp [he, load_of_lt hlt, hbuf j hjs.1]
      · simp [he]
    rw [allAsExpected, hexp, List.all_cons]
    simp only [Option.bind_eq_bind, Option.bind_some]
    split
    · rename_i h
      rw [h, ih hjs.2, Bool.true_and]
    · rename_i h
      rw [Bool.eq_false_iff.mpr h]
      rfl

/-- The counts of `bad` and `count`. -/
theorem countBad_eq {m : Bool} {i : Nat} {buf z : IntArray} (h0 : 0 < c.keymap.total)
    (h : ∀ j < c.keymap.total, buf j = c.bufVal m i j ∧ z j = if c.zapped m i j then 1 else 0) :
    (List.range' 1 (c.keymap.total - 1)).foldlM (countBad buf z) (0, 0) =
      some (c.bad m i, c.count m i) := by
  have hloop : ∀ (js : List Nat) (b n : Nat), (∀ j ∈ js, j < c.keymap.total) →
      js.foldlM (countBad buf z) (b, n) =
        some (b + (js.filter fun j => !c.zapped m i j).countP fun j => c.bufVal m i j ≠ c.bufVal m i 0,
          n + (js.filter fun j => !c.zapped m i j).countP fun j => c.bufVal m i j ≠ kHole) := by
    intro js
    induction js with
    | nil => intro b n _; rfl
    | cons j js ih =>
      intro b n hjs
      rw [List.forall_mem_cons] at hjs
      obtain ⟨hbuf, hz⟩ := h j hjs.1
      have hlt : j < maxNrKeymaps := by omega
      have hlt0 : 0 < maxNrKeymaps := by omega
      have hstep : countBad buf z (b, n) j = some
          (if c.zapped m i j then (b, n) else
            (if c.bufVal m i j ≠ c.bufVal m i 0 then b + 1 else b,
             if c.bufVal m i j ≠ kHole then n + 1 else n)) := by
        unfold countBad
        rw [load_of_lt hlt, load_of_lt hlt, load_of_lt hlt0, hz, hbuf, (h 0 h0).1]
        by_cases hzap : c.zapped m i j = true
        · simp [hzap]
        · simp [hzap]
      rw [List.foldlM_cons, hstep]
      simp only [Option.bind_eq_bind, Option.bind_some]
      by_cases hzap : c.zapped m i j = true
      · rw [if_pos hzap, ih b n hjs.2, List.filter_cons_of_neg (by simp [hzap])]
      · rw [if_neg hzap, ih _ _ hjs.2, List.filter_cons_of_pos (by simp [hzap]), List.countP_cons,
          List.countP_cons]
        have hadd (p : Prop) [Decidable p] (b k : Nat) :
            (if p then b + 1 else b) + k = b + (k + if decide p = true then 1 else 0) := by
          by_cases hp : p
          · simp only [hp, decide_true, ↓reduceIte]
            omega
          · simp [hp]
        rw [hadd, hadd]
  have := hloop (List.range' 1 (c.keymap.total - 1)) 0 0 fun j hj => by
    rw [List.mem_range'_1] at hj
    omega
  simpa [LkCtx.bad, LkCtx.count, LkCtx.counted] using this

theorem singleEntry_eq {m : Bool} {style : PrintStyle} {i : Nat} {buf z : IntArray}
    (h0 : 0 < c.keymap.total)
    (h : ∀ j < c.keymap.total, buf j = c.bufVal m i j ∧ z j = if c.zapped m i j then 1 else 0) :
    (singleEntry c style i buf z).map (keycodeText i ++ ·) =
      some ((c.singleLines m i).flatMap (DumpLine.text c style)) := by
  have hexc : (printEach (List.range' 1 (c.keymap.total - 1)) fun j =>
      if lkMapExists c j then do
        let v ← load buf j
        if v ≠ c.bufVal m i 0 && (← load z j) = 0 then pure (printBind c style v i j) else pure []
      else pure []) =
      some ((List.range' 1 (c.keymap.total - 1)).flatMap fun j =>
        if lkMapExists c j && c.bufVal m i j ≠ c.bufVal m i 0 && !c.zapped m i j then
          printBind c style (c.bufVal m i j) i j else []) := by
    refine printEach_of_some fun j hj => ?_
    rw [List.mem_range'_1] at hj
    have hlt : j < maxNrKeymaps := by omega
    obtain ⟨hbuf, hz⟩ := h j (by omega)
    by_cases he : lkMapExists c j = true
    · by_cases hzap : c.zapped m i j = true
      · simp [he, load_of_lt hlt, hbuf, hz, hzap]
      · by_cases hv : c.bufVal m i j = c.bufVal m i 0
        · simp [he, load_of_lt hlt, hbuf, hz, hzap, hv]
        · simp [he, load_of_lt hlt, hbuf, hz, hzap, hv]
    · simp [he]
  unfold singleEntry
  rw [load_of_lt (show 0 < maxNrKeymaps by omega), (h 0 h0).1]
  simp only [Option.bind_eq_bind, Option.bind_some] at hexc ⊢
  rw [hexc, flatMap_ite]
  simp only [LkCtx.singleLines, List.flatMap_cons, flatMap_text_bind, DumpLine.text,
    Option.bind_some, Option.pure_def, Option.map_some]
  split <;> simp

theorem longLine_eq {m untilHole : Bool} {style : PrintStyle} {i : Nat} {buf : IntArray} {js : List Nat}
    (hjs : ∀ j ∈ js, j < c.keymap.total) (hbuf : ∀ j < c.keymap.total, buf j = c.bufVal m i j) :
    longLine c untilHole style buf js =
      some ((js.takeWhile fun j => c.bufVal m i j ≠ kHole).flatMap
          fun j => printKeysym c style (c.bufVal m i j),
        js.dropWhile fun j => c.bufVal m i j ≠ kHole) := by
  induction js with
  | nil => rfl
  | cons j js ih =>
    rw [List.forall_mem_cons] at hjs
    rw [longLine, load_of_lt (show j < maxNrKeymaps by omega), hbuf j hjs.1]
    simp only [Option.bind_eq_bind, Option.bind_some, ih hjs.2]
    by_cases hv : c.bufVal m i j = kHole
    · simp [hv]
    · -- a map without bindings would have a hole
      have he : lkMapExists c j = true := by
        by_contra he
        simp [LkCtx.bufVal, LkCtx.rowVal, he] at hv
      simp [hv, he]

theorem longEntry_eq {m untilHole : Bool} {style : PrintStyle} {i : Nat} {buf : IntArray}
    (hbuf : ∀ j < c.keymap.total, buf j = c.bufVal m i j) :
    (longEntry c untilHole style i buf).map (keycodeText i ++ ·) =
      some ((c.longLines m i).flatMap (DumpLine.text c style)) := by
  have hexc : (printEach ((List.range c.keymap.total).dropWhile fun j => c.bufVal m i j ≠ kHole)
      fun j => do
        let v ← load buf j
        pure (if v ≠ kHole then printBind c style v i j else [])) =
      some (((List.range c.keymap.total).dropWhile fun j => c.bufVal m i j ≠ kHole).flatMap
        fun j => if decide (c.bufVal m i j ≠ kHole) then
          printBind c style (c.bufVal m i j) i j else []) := by
    refine printEach_of_some fun j hj => ?_
    have hj' := List.mem_range.mp ((List.dropWhile_sublist _).subset hj)
    rw [load_of_lt (show j < maxNrKeymaps by omega), hbuf j hj']
    simp
  unfold longEntry
  rw [longLine_eq htot (fun j hj => List.mem_range.mp hj) hbuf]
  simp only [Option.bind_eq_bind, Option.bind_some] at hexc ⊢
  rw [hexc, flatMap_ite]
  simp only [LkCtx.longLines, List.flatMap_cons, DumpLine.text, Option.bind_some, Option.pure_def,
    Option.map_some, List.flatMap_map]
  simp

theorem dumpShort_eq {i : Nat} {buf : IntArray} (untilHole : Bool) (style : PrintStyle) (m : Bool)
    (h0 : 0 < c.keymap.total) (hbuf : ∀ j < c.keymap.total, buf j = c.rowVal i j) :
    dumpShort c untilHole style m i buf =
      some ((c.shortLines m i).flatMap (DumpLine.text c style)) := by
  obtain ⟨buf', z, hzap, hz⟩ := zapAll_eq htot hbuf m
  have hlt0 : 0 < maxNrKeymaps := by omega
  have hletter : isAsExpected c (c.rowVal i 0) buf = some (c.isLetterRow i) := by
    have hrow : isAsExpected c (c.rowVal i 0) buf =
        if isLetterCode (c.rowVal i 0) then
          allAsExpected c (kval (c.rowVal i 0)) buf (List.range c.keymap.total)
        else some false := rfl
    rw [hrow, allAsExpected_eq htot (fun j hj => List.mem_range.mp hj) hbuf]
    unfold LkCtx.isLetterRow
    cases isLetterCode (c.rowVal i 0) <;> rfl
  have hentry : (dumpEntry c untilHole style i buf' z).map (keycodeText i ++ ·) =
      some ((if c.isSingle m i then c.singleLines m i else c.longLines m i).flatMap
        (DumpLine.text c style)) := by
    unfold dumpEntry
    simp only [countBad_eq htot h0 hz, Option.bind_eq_bind, Option.bind_some]
    by_cases h : c.isSingle m i = true
    · rw [if_pos h]
      unfold LkCtx.isSingle at h
      rw [if_pos h]
      exact singleEntry_eq htot h0 hz
    · rw [if_neg h]
      unfold LkCtx.isSingle at h
      rw [if_neg h]
      exact longEntry_eq htot fun j hj => (hz j hj).1
  unfold dumpShort LkCtx.shortLines
  rw [load_of_lt hlt0, hbuf 0 h0]
  simp only [Option.bind_eq_bind, Option.bind_some, hletter, hzap]
  cases c.isLetterRow i with
  | true => simp [DumpLine.text]
  | false =>
    rw [if_neg Bool.false_ne_true, if_neg Bool.false_ne_true, ← hentry]
    cases dumpEntry c untilHole style i buf' z <;> rfl

theorem dumpKey_eq (h0 : 0 < c.keymap.total) (table : TableShape) (style : PrintStyle) (m : Bool)
    (i : Nat) :
    dumpKey c table style m i =
      some ((c.keyLines table m i).flatMap (DumpLine.text c style)) := by
  obtain ⟨buf, hfill, hbuf⟩ := fillBuf_eq htot i
  have hmaps : ∀ j ∈ c.maps, load buf j = some (c.rowVal i j) := by
    intro j hj
    have hj' := lkMapExists_lt (mem_maps.mp hj)
    rw [load_of_lt (by omega), hbuf j hj']
  have hshort (untilHole : Bool) := dumpShort_eq htot untilHole style m h0 hbuf
  unfold dumpKey
  rw [hfill]
  simp only [Option.bind_eq_bind, Option.bind_some]
  cases table with
  | fullTable =>
    have hvals := printEach_of_some (l := c.maps) (g := fun j => printKeysym c style (c.rowVal i j))
      (f := fun j => do pure (printKeysym c style (← load buf j)))
      fun j hj => by rw [hmaps j hj]; rfl
    simp only [ne_eq, not_true_eq_false, decide_false, Bool.and_false, Bool.false_eq_true, ↓reduceIte]
    change (printEach c.maps _).bind _ = _
    simp only [Option.bind_eq_bind] at hvals
    rw [hvals]
    simp [LkCtx.keyLines, DumpLine.text, List.flatMap_map]
  | separateLines =>
    have hlines := printEach_of_some (l := c.maps) (g := fun j => printBind c style (c.rowVal i j) i j)
      (f := fun j => do pure (printBind c style (← load buf j) i j))
      fun j hj => by rw [hmaps j hj]; rfl
    cases hh : c.allHoles i with
    | true => simp [LkCtx.keyLines, hh]
    | false =>
      rw [if_neg (by simp)]
      change (printEach c.maps _).bind _ = _
      simp only [Option.bind_eq_bind] at hlines
      rw [hlines]
      simp [LkCtx.keyLines, hh, flatMap_text_bind, DumpLine.text]
  | default | untilHole =>
    cases hh : c.allHoles i with
    | true => simp [LkCtx.keyLines, hh]
    | false => simpa [LkCtx.keyLines, hh] using hshort _

/-- What `lk_dump_keys` prints. -/
theorem lkDumpKeys_eq (keycodeZero : Bool) (table : TableShape) (style : PrintStyle) :
    lkDumpKeys keycodeZero c table style =
      some ((c.dumpLines keycodeZero table).flatMap (DumpLine.text c style)) := by
  unfold lkDumpKeys LkCtx.dumpLines
  by_cases h0 : c.keymap.total = 0
  · rw [if_pos h0, if_pos h0]
    rfl
  · rw [if_neg h0, if_neg h0]
    have hkeys : printEach (dumpedKeys keycodeZero)
        (dumpKey c table style (dumpsAltIsMeta keycodeZero c table)) =
        some ((dumpedKeys keycodeZero).flatMap fun i =>
          (c.keyLines table (dumpsAltIsMeta keycodeZero c table) i).flatMap
            (DumpLine.text c style)) :=
      printEach_of_some fun i _ => dumpKey_eq htot (Nat.pos_of_ne_zero h0) table style _ i
    simp only [hkeys, Option.bind_eq_bind, Option.bind_some, Option.pure_def, List.flatMap_append,
      List.flatMap_assoc]
    split
    · simp [DumpLine.text]
    · simp

end Lines

/-- With more maps than `buf` has elements the first key already writes beyond its end. -/
theorem fillBuf_eq_none {c : LkCtx} (h : maxNrKeymaps < c.keymap.total) (i : Nat) :
    fillBuf c i = none := by
  refine Checked.foldlM_eq_none (List.mem_range.mpr h) (fun s => ?_) _
  have hstore : store s.1 maxNrKeymaps kHole = none := if_neg (Nat.lt_irrefl _)
  unfold fillStep
  rw [hstore]
  rfl

/-- The indices of `lk_dump_keys` are in range exactly if there are at most `MAX_NR_KEYMAPS` maps,
whatever the shape. -/
theorem lkDumpKeys_isSome_iff (keycodeZero : Bool) (c : LkCtx) (table : TableShape)
    (style : PrintStyle) :
    (lkDumpKeys keycodeZero c table style).isSome = true ↔ c.keymap.total ≤ maxNrKeymaps := by
  constructor
  · intro h
    by_contra hgt
    rw [Nat.not_le] at hgt
    have h0 : c.keymap.total ≠ 0 := by omega
    have hmem : 1 ∈ dumpedKeys keycodeZero := by cases keycodeZero <;> decide
    have hkey : dumpKey c table style (dumpsAltIsMeta keycodeZero c table) 1 = none := by
      unfold dumpKey
      rw [fillBuf_eq_none hgt]
      rfl
    have heach : printEach (dumpedKeys keycodeZero)
        (dumpKey c table style (dumpsAltIsMeta keycodeZero c table)) = none := by
      unfold printEach
      rw [Checked.mapM_eq_none hmem hkey]
      rfl
    unfold lkDumpKeys at h
    simp [h0, heach] at h
  · intro htot
    rw [lkDumpKeys_eq htot]
    rfl

end Kbd.Keymap
