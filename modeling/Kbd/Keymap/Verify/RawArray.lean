import Kbd.Keymap.RawArray
import Kbd.Keymap.Verify.Array

/-!
# The representation of an array

`Inv` is what every sequence of calls keeps: the block is as long as the numbers say, they do not
overflow, and `count` is the number of elements that are not all zero. With it the calculations in
`size_t` are those of natural numbers and every access is inside of the block.
-/

namespace Kbd.Keymap.RawArray

open Kbd.Lib

variable {sizeMax : Nat}

/-- Byte `k` of element `i`. -/
def elemByte (a : RawArray sizeMax) (i k : Nat) : UInt8 :=
  ((a.array.getD [])[a.memb.val * i + k]?).getD 0

/-- The element has a byte that is not zero. -/
def inUse (a : RawArray sizeMax) (i : Nat) : Bool :=
  (List.range a.memb.val).any fun k => a.elemByte i k ≠ 0

/-- The representation invariant. -/
structure Inv (a : RawArray sizeMax) : Prop where
  size : a.memb.val * a.total.val ≤ sizeMax
  block : (a.array.getD []).length = a.memb.val * a.total.val
  null : a.array = none → a.total.val = 0
  count : a.count.val = (List.range a.total.val).countP a.inUse

/-! ## Numbers of type `size_t` -/

section SizeT

variable {x y : SizeT sizeMax}

theorem val_mul_of_le (h : x.val * y.val ≤ sizeMax) : (x * y).val = x.val * y.val :=
  Nat.mod_eq_of_lt (Nat.lt_succ_of_le h)

theorem val_add_one (h : x.val < sizeMax) : (x + 1).val = x.val + 1 :=
  Fin.val_add_one_of_lt (Fin.lt_def.mpr h)

theorem val_sub_of_le (h : y ≤ x) : (x - y).val = x.val - y.val := Fin.sub_val_of_le h

theorem val_sub_one (h : x.val ≠ 0) : (x - 1).val = x.val - 1 := by
  have hlt := x.isLt
  cases sizeMax with
  | zero => omega
  | succ n => exact Fin.sub_val_of_le (Fin.le_def.mpr (by simp; omega))

/-- The check by which the code avoids an overflow. -/
theorem gt_div_iff (hy : y ≠ 0) : x > SIZE_MAX / y ↔ sizeMax < x.val * y.val := by
  have hpos : 0 < y.val := Nat.pos_of_ne_zero fun h => hy (Fin.ext h)
  have hval : (SIZE_MAX / y).val = sizeMax / y.val := rfl
  rw [gt_iff_lt, Fin.lt_def, hval, Nat.div_lt_iff_lt_mul hpos]

end SizeT

/-! ## Counting -/

theorem countP_range_update {p q : Nat → Bool} {i n : Nat} (hi : i < n)
    (h : ∀ j < n, j ≠ i → q j = p j) :
    (List.range n).countP q + (p i).toNat = (List.range n).countP p + (q i).toNat := by
  induction n with
  | zero => omega
  | succ n ih =>
    rw [List.range_succ, List.countP_append, List.countP_append]
    by_cases hin : i = n
    · subst hin
      have hsame : (List.range i).countP q = (List.range i).countP p :=
        List.countP_congr fun j hj => by
          have hlt := List.mem_range.mp hj
          rw [h j (Nat.lt_succ_of_lt hlt) (Nat.ne_of_lt hlt)]
      rw [hsame]
      cases hp : p i <;> cases hq : q i <;> simp [hp, hq]
    · have hsame : [n].countP q = [n].countP p := by
        simp [List.countP_cons, h n (Nat.lt_succ_self n) (Ne.symm hin)]
      have := ih (by omega) fun j hj => h j (Nat.lt_succ_of_lt hj)
      omega

/-! ## Places in the block -/

theorem place_lt {m n i k : Nat} (hi : i < n) (hk : k < m) : m * i + k < m * n := by
  have h := Buffer.slot_lt hi hk
  rwa [Nat.mul_comm i m, Nat.mul_comm n m] at h

theorem place_inj {m i j k l : Nat} (hk : k < m) (hl : l < m) (h : m * i + k = m * j + l) : i = j := by
  rw [Nat.mul_comm m i, Nat.mul_comm m j] at h
  exact (Buffer.slot_inj hk hl h).1

section Inv

variable {a : RawArray sizeMax} (h : a.Inv) {i : SizeT sizeMax}

include h

theorem Inv.val_mul (hi : i.val ≤ a.total.val) : (a.memb * i).val = a.memb.val * i.val :=
  val_mul_of_le (Nat.le_trans (Nat.mul_le_mul_left _ hi) h.size)

theorem Inv.not_gt (hm : a.memb ≠ 0) (hi : i.val ≤ a.total.val) : ¬ i > SIZE_MAX / a.memb := by
  rw [gt_div_iff hm, Nat.mul_comm]
  exact Nat.not_lt.mpr (Nat.le_trans (Nat.mul_le_mul_left _ hi) h.size)

theorem Inv.exists_block (hi : i < a.total) : ∃ block, a.array = some block := by
  cases ha : a.array with
  | some block => exact ⟨block, rfl⟩
  | none =>
    have h0 := h.null ha
    have := Fin.lt_def.mp hi
    omega

theorem Inv.arrayItemPtr_of_lt (hm : a.memb ≠ 0) (hi : i < a.total) :
    arrayItemPtr (some a) i = some (a.memb.val * i.val) := by
  obtain ⟨block, hblock⟩ := h.exists_block hi
  have hle : i.val ≤ a.total.val := Nat.le_of_lt hi
  have hdiv := h.not_gt hm hle
  simp only [arrayItemPtr, hblock, hm, hdiv, reduceCtorEq, ge_iff_le, Fin.not_le.mpr hi, or_self,
    ↓reduceIte, h.val_mul hle]

omit h in
theorem arrayItemPtr_of_ge (hi : ¬ i < a.total) : arrayItemPtr (some a) i = none :=
  if_pos (.inr (.inr (.inl (Fin.not_lt.mp hi))))

omit h in
theorem arrayItemPtr_of_zero (hm : a.memb = 0) : arrayItemPtr (some a) i = none :=
  if_pos (.inr (.inl hm))

end Inv

/-! ## `lk_array_exists` -/

theorem existsFrom_eq {block : List UInt8} {s : Nat} {f : Nat → UInt8} (n k : Nat)
    (h : ∀ j, k ≤ j → j < k + n → block[s + j]? = some (f j)) :
    existsFrom block s k n = some ((List.range' k n).any fun j => f j ≠ 0) := by
  induction n generalizing k with
  | zero => rfl
  | succ n ih =>
    have hk := h k (Nat.le_refl k) (by omega)
    have hrest := ih (k + 1) fun j hj hlt => h j (by omega) (by omega)
    rw [existsFrom, hk, List.range'_succ, List.any_cons]
    by_cases h0 : f k = 0
    · simpa [h0] using hrest
    · simp [h0]

theorem elemByte_eq {a : RawArray sizeMax} {block : List UInt8} (hblock : a.array = some block)
    {i k : Nat} (hlt : a.memb.val * i + k < block.length) :
    block[a.memb.val * i + k]? = some (a.elemByte i k) := by
  rw [elemByte, hblock, Option.getD_some, List.getElem?_eq_getElem hlt, Option.getD_some]

theorem Inv.lkArrayExists {a : RawArray sizeMax} (h : a.Inv) (i : SizeT sizeMax) :
    RawArray.lkArrayExists a i = some (decide (i < a.total) && a.inUse i.val) := by
  unfold RawArray.lkArrayExists
  by_cases hm : a.memb = 0
  · have huse : a.inUse i.val = false := by simp [inUse, hm]
    rw [arrayItemPtr_of_zero hm, huse, Bool.and_false]
  by_cases hi : i < a.total
  · obtain ⟨block, hblock⟩ := h.exists_block hi
    have hlen := h.block
    rw [hblock, Option.getD_some] at hlen
    rw [h.arrayItemPtr_of_lt hm hi, hblock, decide_eq_true hi, Bool.true_and, inUse,
      List.range_eq_range']
    apply existsFrom_eq
    intro k _ hk
    exact elemByte_eq hblock (by rw [hlen]; exact place_lt (Fin.lt_def.mp hi) (by omega))
  · rw [arrayItemPtr_of_ge hi, decide_eq_false hi, Bool.false_and]

theorem inUse_eq_true {a : RawArray sizeMax} {i : Nat} :
    a.inUse i = true ↔ ∃ k < a.memb.val, a.elemByte i k ≠ 0 := by
  simp [inUse]

/-! ## `array_resize` -/

/-- Growing an array to hold index `i`: the new elements are zero. -/
structure Grown (a a' : RawArray sizeMax) (i : SizeT sizeMax) : Prop where
  inv : a'.Inv
  memb : a'.memb = a.memb
  nonzero : a.memb ≠ 0
  total : a'.total.val = max a.total.val (i.val + 1)
  count : a'.count = a.count
  elems : ∀ j < a'.total.val, ∀ k < a.memb.val,
    a'.elemByte j k = if j < a.total.val then a.elemByte j k else 0

theorem getElem?_reallocated {old : Option (List UInt8)} {size : Nat} {fresh : Nat → UInt8} {j : Nat}
    (h : j < size) :
    (reallocated old size fresh)[j]? = some ((old.getD [])[j]?.getD (fresh j)) := by
  rw [reallocated, List.getElem?_map, List.getElem?_range h]
  rfl

theorem Inv.grown_self {a : RawArray sizeMax} (h : a.Inv) (hm : a.memb ≠ 0) {i : SizeT sizeMax}
    (hi : i < a.total) : Grown a a i where
  inv := h
  memb := rfl
  nonzero := hm
  total := by
    have := Fin.lt_def.mp hi
    omega
  count := rfl
  elems j hj k _ := (if_pos hj).symm

/-- An array with other bytes is still counted right when the bytes that are in use are. -/
theorem inUse_congr {a a' : RawArray sizeMax} {j : Nat} (hm : a'.memb = a.memb)
    (h : ∀ k < a.memb.val, a'.elemByte j k = a.elemByte j k) : a'.inUse j = a.inUse j := by
  rw [Bool.eq_iff_iff, inUse_eq_true, inUse_eq_true, hm]
  exact exists_congr fun k => and_congr_right fun hk => by rw [h k hk]

/-- Elements that are added and zero do not count. -/
theorem countP_grown {p q : Nat → Bool} {m n : Nat} (hmn : m ≤ n) (h : ∀ j < m, q j = p j)
    (h0 : ∀ j, m ≤ j → j < n → q j = false) : (List.range n).countP q = (List.range m).countP p := by
  obtain ⟨d, rfl⟩ := Nat.exists_eq_add_of_le hmn
  have hold : (List.range m).countP q = (List.range m).countP p :=
    List.countP_congr fun j hj => by rw [h j (List.mem_range.mp hj)]
  have hnew : ((List.range d).map (m + ·)).countP q = 0 := by
    rw [List.countP_eq_zero]
    intro j hj
    obtain ⟨e, he, rfl⟩ := List.mem_map.mp hj
    have := List.mem_range.mp he
    simp [h0 (m + e) (by omega) (by omega)]
  rw [List.range_add, List.countP_append, hold, hnew, Nat.add_zero]

/-- The numbers and the bytes of an array that has grown. -/
theorem Inv.grown {a a' : RawArray sizeMax} (h : a.Inv) (hm : a.memb ≠ 0) {i : SizeT sizeMax}
    {block : List UInt8} (hi : a.total ≤ i) (hsize : a.memb.val * (i.val + 1) ≤ sizeMax)
    (hblock : a'.array = some block) (hmemb : a'.memb = a.memb) (htotal : a'.total.val = i.val + 1)
    (hcount : a'.count = a.count) (hlen : block.length = a.memb.val * (i.val + 1))
    (hold : ∀ p < a.memb.val * a.total.val, block[p]? = (a.array.getD [])[p]?)
    (hnew : ∀ p, a.memb.val * a.total.val ≤ p → p < a.memb.val * (i.val + 1) → block[p]? = some 0) :
    Grown a a' i := by
  have hi' : a.total.val ≤ i.val := Fin.le_def.mp hi
  have helem : ∀ j < i.val + 1, ∀ k < a.memb.val,
      a'.elemByte j k = if j < a.total.val then a.elemByte j k else 0 := by
    intro j hj k hk
    rw [elemByte, hblock, Option.getD_some, hmemb]
    split
    · rename_i hlt
      rw [hold _ (place_lt hlt hk)]
      rfl
    · rename_i hge
      have hle : a.memb.val * a.total.val ≤ a.memb.val * j := Nat.mul_le_mul_left _ (Nat.not_lt.mp hge)
      rw [hnew _ (by omega) (place_lt hj hk), Option.getD_some]
  refine ⟨⟨?_, ?_, ?_, ?_⟩, hmemb, hm, by omega, hcount, fun j hj => helem j (htotal ▸ hj)⟩
  · rw [hmemb, htotal]
    exact hsize
  · rw [hblock, Option.getD_some, hmemb, htotal, hlen]
  · rw [hblock]
    exact fun h => nomatch h
  · rw [hcount, htotal, h.count]
    refine (countP_grown (by omega) (fun j hj => ?_) fun j hj hlt => ?_).symm
    · refine inUse_congr hmemb fun k hk => ?_
      rw [helem j (by omega) k hk, if_pos hj]
    · rw [← Bool.not_eq_true, inUse_eq_true]
      rintro ⟨k, hk, hne⟩
      rw [hmemb] at hk
      rw [helem j hlt k hk, if_neg (Nat.not_lt.mpr hj)] at hne
      exact hne rfl

theorem Inv.arrayResize {a : RawArray sizeMax} (h : a.Inv) (realloc : Alloc) (i : SizeT sizeMax) :
    ∃ ret a', RawArray.arrayResize realloc a i = some (ret, a') ∧ (ret ≠ .ok → a' = a) ∧
      (ret = .ok → Grown a a' i) := by
  unfold RawArray.arrayResize
  by_cases hm : a.memb = 0
  · exact ⟨.einval, a, if_pos (.inl hm), fun _ => rfl, fun h => nomatch h⟩
  rw [if_neg (not_or.mpr ⟨hm, h.not_gt hm (Nat.le_refl _)⟩)]
  by_cases hi : i ≥ a.total
  · rw [if_pos hi]
    by_cases hbig : i = SIZE_MAX ∨ i + 1 > SIZE_MAX / a.memb
    · exact ⟨.einval, a, if_pos hbig, fun _ => rfl, fun h => nomatch h⟩
    rw [if_neg hbig]
    cases realloc with
    | none => exact ⟨.enomem, a, rfl, fun _ => rfl, fun h => nomatch h⟩
    | some fresh =>
      obtain ⟨hmax, hdiv⟩ := not_or.mp hbig
      have hle : a.total.val ≤ i.val := Fin.le_def.mp hi
      have hlt : i.val < sizeMax := Nat.lt_of_le_of_ne (Nat.le_of_lt_succ i.isLt)
        fun he => hmax (Fin.ext he)
      have hone := val_add_one hlt
      have hsize : a.memb.val * (i.val + 1) ≤ sizeMax := by
        rw [gt_div_iff hm, hone, Nat.mul_comm] at hdiv
        exact Nat.not_lt.mp hdiv
      have hstart : (a.memb * a.total).val = a.memb.val * a.total.val := h.val_mul (Nat.le_refl _)
      have hsub : (i + 1 - a.total).val = i.val + 1 - a.total.val := by
        rw [val_sub_of_le (Fin.le_def.mpr (by omega)), hone]
      have hn : (a.memb * (i + 1 - a.total)).val = a.memb.val * (i.val + 1 - a.total.val) := by
        rw [← hsub]
        refine val_mul_of_le ?_
        rw [hsub]
        exact Nat.le_trans (Nat.mul_le_mul_left _ (Nat.sub_le _ _)) hsize
      have hend : a.memb.val * a.total.val + a.memb.val * (i.val + 1 - a.total.val) =
          a.memb.val * (i.val + 1) := by
        rw [← Nat.mul_add]
        congr 1
        omega
      have htmp : (reallocated a.array ((i + 1).val * a.memb.val) fresh).length =
          a.memb.val * (i.val + 1) := by
        rw [reallocated, List.length_map, List.length_range, hone, Nat.mul_comm]
      have hinside : (a.memb * a.total).val + (a.memb * (i + 1 - a.total)).val ≤
          (reallocated a.array ((i + 1).val * a.memb.val) fresh).length := by
        rw [hstart, hn, hend, htmp]
      obtain ⟨block, hfill, hlen, hbytes⟩ := Buffer.exists_fill hinside fun _ => 0
      refine ⟨.ok, { a with array := some block, total := i + 1 }, by simp [hfill],
        fun h => absurd rfl h, fun _ => h.grown hm hi hsize rfl rfl hone rfl (hlen.trans htmp) ?_ ?_⟩
      · intro p hp
        have hin : p < (i + 1).val * a.memb.val := by
          rw [hone, Nat.mul_comm]
          omega
        rw [hbytes, hstart, if_neg (by omega), getElem?_reallocated hin,
          List.getElem?_eq_getElem (h.block ▸ hp), Option.getD_some]
      · intro p hp hlt
        rw [hbytes, hstart, hn, hend, if_pos ⟨hp, hlt⟩]
  · rw [if_neg hi]
    exact ⟨.ok, a, rfl, fun h => absurd rfl h, fun _ => h.grown_self hm (Fin.not_le.mp hi)⟩

/-! ## Writing an element -/

section Count

variable {p : Nat → Bool} {i n : Nat}

theorem countP_pos (hi : i < n) (hp : p i = true) : 0 < (List.range n).countP p :=
  List.countP_pos_iff.mpr ⟨i, List.mem_range.mpr hi, hp⟩

/-- An element that is not counted leaves room for one more. -/
theorem countP_lt (hi : i < n) (hp : p i = false) : (List.range n).countP p < n := by
  have hmore := countP_range_update (p := p) (q := fun j => j = i || p j) hi fun j _ hj => by simp [hj]
  have hle : (List.range n).countP (fun j => j = i || p j) ≤ (List.range n).length :=
    List.countP_le_length
  rw [List.length_range] at hle
  simp [hp] at hmore
  omega

end Count

/-- The new `count` is off by what the element has become. -/
theorem adjust_spec {before after : Bool} {count : SizeT sizeMax} (h : before = true → count.val ≠ 0)
    (h' : before = false → count.val < sizeMax) :
    (adjust before after count).val + before.toNat = count.val + after.toNat := by
  cases before with
  | false =>
    cases after with
    | false => rfl
    | true => simpa [adjust] using val_add_one (h' rfl)
  | true =>
    have h0 := h rfl
    cases after with
    | false =>
      have := val_sub_one h0
      simp [adjust, this]
      omega
    | true => rfl

theorem Inv.count_ne_zero {a : RawArray sizeMax} (h : a.Inv) {i : Nat} (hi : i < a.total.val)
    (huse : a.inUse i = true) : a.count.val ≠ 0 := by
  have := countP_pos hi huse
  have := h.count
  omega

theorem Inv.count_lt {a : RawArray sizeMax} (h : a.Inv) {i : Nat} (hi : i < a.total.val)
    (huse : a.inUse i = false) : a.count.val < sizeMax := by
  have := countP_lt hi huse
  have := h.count
  have := a.total.isLt
  omega

/-- Writing an element is inside of the block, and leaves the others as they are. The array is counted
right when `count` follows. -/
theorem Inv.write {a : RawArray sizeMax} (h : a.Inv) {i : SizeT sizeMax} (hi : i < a.total)
    (f : Nat → UInt8) :
    ∃ block block', a.array = some block ∧
      Buffer.fill block (a.memb.val * i.val) a.memb.val f = some block' ∧
      (∀ j < a.total.val, ∀ k < a.memb.val,
        elemByte { a with array := some block' } j k = if j = i.val then f k else a.elemByte j k) ∧
      ∀ count : SizeT sizeMax,
        count.val + (a.inUse i.val).toNat =
            a.count.val + (inUse { a with array := some block' } i.val).toNat →
          Inv { a with array := some block', count := count } := by
  obtain ⟨block, hblock⟩ := h.exists_block hi
  have hlen := h.block
  rw [hblock, Option.getD_some] at hlen
  have hlt : i.val < a.total.val := Fin.lt_def.mp hi
  have hend : a.memb.val * i.val + a.memb.val ≤ block.length := by
    rw [hlen, ← Nat.mul_succ]
    exact Nat.mul_le_mul_left _ hlt
  obtain ⟨block', hfill, hlen', hbytes⟩ := Buffer.exists_fill hend f
  have helem : ∀ j < a.total.val, ∀ k < a.memb.val,
      elemByte { a with array := some block' } j k = if j = i.val then f k else a.elemByte j k := by
    intro j hj k hk
    rw [elemByte, elemByte, hblock, Option.getD_some, Option.getD_some, hbytes]
    by_cases hji : j = i.val
    · subst hji
      rw [if_pos (by simp; omega), if_pos rfl]
      simp
    · have hout : ¬ (a.memb.val * i.val ≤ a.memb.val * j + k ∧
          a.memb.val * j + k < a.memb.val * i.val + a.memb.val) := by
        rintro ⟨hge, hlt'⟩
        refine hji (place_inj (m := a.memb.val) (l := a.memb.val * j + k - a.memb.val * i.val) hk
          (by omega) (by omega))
      rw [if_neg hout, if_neg hji]
  refine ⟨block, block', hblock, hfill, helem, fun count hcount => ⟨h.size, ?_, ?_, ?_⟩⟩
  · rw [Option.getD_some, hlen', hlen]
  · exact fun h => nomatch h
  · have hupdate := countP_range_update (p := a.inUse)
      (q := inUse { a with array := some block' }) hlt fun j hj hji => by
        refine inUse_congr rfl fun k hk => ?_
        rw [helem j hj k hk, if_neg hji]
    have hold := h.count
    change count.val = (List.range a.total.val).countP (inUse { a with array := some block' })
    omega

/-! ## The functions -/

/-- What `lk_array_set` does when it succeeds. -/
structure Stored (a a' : RawArray sizeMax) (i : SizeT sizeMax) (e : Nat → UInt8) : Prop where
  memb : a'.memb = a.memb
  total : a'.total.val = max a.total.val (i.val + 1)
  get : ∃ p, lkArrayGet (some a') i = some p ∧
    ∀ k < a'.memb.val, (a'.array.getD [])[p + k]? = some (e k)
  elem : ∀ k < a'.memb.val, a'.elemByte i.val k = e k
  other : ∀ j < a'.total.val, j ≠ i.val → ∀ k < a'.memb.val,
    a'.elemByte j k = if j < a.total.val then a.elemByte j k else 0

theorem Inv.lkArraySet {a : RawArray sizeMax} (h : a.Inv) (realloc : Alloc) (i : SizeT sizeMax)
    (e : Option (Nat → UInt8)) :
    ∃ ret a', RawArray.lkArraySet realloc (some a) i e = some (ret, some a') ∧ a'.Inv ∧
      (ret ≠ .ok → a' = a) ∧ (ret = .ok → ∃ f, e = some f ∧ Stored a a' i f) := by
  cases e with
  | none => exact ⟨.einval, a, rfl, h, fun _ => rfl, fun h => nomatch h⟩
  | some f =>
    obtain ⟨ret, g, hresize, hfail, hgrown⟩ := h.arrayResize realloc i
    rw [RawArray.lkArraySet]
    by_cases hok : ret = .ok
    · have hg := hgrown hok
      have hi : i < g.total := Fin.lt_def.mpr (by rw [hg.total]; omega)
      have hm : g.memb ≠ 0 := hg.memb ▸ hg.nonzero
      obtain ⟨block, block', hblock, hfill, helem, hinv⟩ := hg.inv.write hi f
      set b : RawArray sizeMax := { g with array := some block' } with hb
      have hlt : i.val < g.total.val := Fin.lt_def.mp hi
      set count := adjust (g.inUse i.val) (b.inUse i.val) g.count with hcount
      have hinv' : Inv { b with count := count } :=
        hinv count (adjust_spec (hg.inv.count_ne_zero hlt) (hg.inv.count_lt hlt))
      have hbefore : RawArray.lkArrayExists g i = some (g.inUse i.val) := by
        rw [hg.inv.lkArrayExists, decide_eq_true hi, Bool.true_and]
      have hafter : RawArray.lkArrayExists b i = some (b.inUse i.val) := by
        have hex := hinv'.lkArrayExists i
        rw [decide_eq_true hi, Bool.true_and] at hex
        exact hex
      have hplace : (g.memb * i).val = g.memb.val * i.val := hg.inv.val_mul (Nat.le_of_lt hlt)
      have hbyte : ∀ k < b.memb.val, b.elemByte i.val k = f k := fun k hk =>
        (helem i.val hlt k hk).trans (if_pos rfl)
      refine ⟨.ok, { b with count := count }, ?_, hinv', fun h => absurd rfl h,
        fun _ => ⟨f, rfl, hg.memb, hg.total, ?_, hbyte, ?_⟩⟩
      · simp [hresize, hok, hbefore, hblock, hplace, hfill, ← hb, hafter, hcount]
        exact ⟨rfl, rfl, rfl⟩
      · refine ⟨_, hinv'.arrayItemPtr_of_lt hm hi, fun k hk => ?_⟩
        have hlen : g.memb.val * i.val + k < block'.length := by
          have hblock' : block'.length = g.memb.val * g.total.val := hinv'.block
          rw [hblock']
          exact place_lt hlt hk
        have hget := elemByte_eq (a := b) rfl hlen
        rw [hbyte k hk] at hget
        exact hget
      · intro j hj hji k hk
        have hold := hg.elems j hj k (hg.memb ▸ hk)
        have hnew := helem j hj k hk
        rw [if_neg hji] at hnew
        exact hnew.trans hold
    · obtain rfl := hfail hok
      exact ⟨ret, g, by simp [hresize, hok], h, fun _ => rfl, fun h => absurd h hok⟩

/-- What `lk_array_unset` does when it succeeds. -/
structure Cleared (a a' : RawArray sizeMax) (i : SizeT sizeMax) : Prop where
  memb : a'.memb = a.memb
  total : a'.total = a.total
  elems : ∀ j < a.total.val, ∀ k < a.memb.val,
    a'.elemByte j k = if j = i.val then 0 else a.elemByte j k

theorem Inv.lkArrayUnset {a : RawArray sizeMax} (h : a.Inv) (i : SizeT sizeMax) :
    ∃ ret a', RawArray.lkArrayUnset (some a) i = some (ret, some a') ∧ a'.Inv ∧
      (ret ≠ .ok → a' = a) ∧ (ret = .ok → Cleared a a' i) := by
  unfold RawArray.lkArrayUnset
  by_cases hm : a.memb = 0
  · rw [arrayItemPtr_of_zero hm]
    exact ⟨.einval, a, rfl, h, fun _ => rfl, fun h => nomatch h⟩
  by_cases hi : i < a.total
  · have hlt : i.val < a.total.val := Fin.lt_def.mp hi
    rw [h.arrayItemPtr_of_lt hm hi]
    have hex := h.lkArrayExists i
    rw [decide_eq_true hi, Bool.true_and] at hex
    cases huse : a.inUse i.val with
    | false =>
      rw [huse] at hex
      refine ⟨.ok, a, by simp [hex], h, fun _ => rfl, fun _ => ⟨rfl, rfl, fun j hj k hk => ?_⟩⟩
      split
      · rename_i hji
        by_contra hne
        have := inUse_eq_true.mpr ⟨k, hk, hne⟩
        rw [hji, huse] at this
        cases this
      · rfl
    | true =>
      rw [huse] at hex
      obtain ⟨block, block', hblock, hfill, helem, hinv⟩ := h.write hi fun _ => 0
      have hcleared : inUse { a with array := some block' } i.val = false := by
        rw [← Bool.not_eq_true, inUse_eq_true]
        rintro ⟨k, hk, hne⟩
        exact hne ((helem i.val hlt k hk).trans (if_pos rfl))
      have hcount := val_sub_one (h.count_ne_zero hlt huse)
      have hpos := h.count_ne_zero hlt huse
      refine ⟨.ok, { a with array := some block', count := a.count - 1 }, by simp [hex, hblock, hfill],
        hinv _ ?_, fun h => absurd rfl h, fun _ => ⟨rfl, rfl, helem⟩⟩
      rw [huse, hcleared, hcount]
      simp only [Bool.toNat_true, Bool.toNat_false]
      omega
  · rw [arrayItemPtr_of_ge hi]
    exact ⟨.einval, a, rfl, h, fun _ => rfl, fun h => nomatch h⟩

theorem inv_zeroed : Inv (zeroed : RawArray sizeMax) :=
  ⟨Nat.zero_le _, rfl, fun _ => rfl, rfl⟩

theorem inUse_of_zero {a : RawArray sizeMax} {i : Nat} (h : ∀ k < a.memb.val, a.elemByte i k = 0) :
    a.inUse i = false := by
  rw [← Bool.not_eq_true, inUse_eq_true]
  rintro ⟨k, hk, hne⟩
  exact hne (h k hk)

theorem countP_of_zero {a : RawArray sizeMax} {n : Nat}
    (h : ∀ i < n, ∀ k < a.memb.val, a.elemByte i k = 0) : (List.range n).countP a.inUse = 0 := by
  rw [List.countP_eq_zero]
  intro i hi
  rw [inUse_of_zero (h i (List.mem_range.mp hi))]
  exact Bool.false_ne_true

theorem inv_lkArrayInit (calloc : Bool) (a : RawArray sizeMax) (memb size : SizeT sizeMax) :
    ∃ ret a', lkArrayInit calloc (some a) memb size = (ret, some a') ∧ a'.Inv := by
  rw [lkArrayInit]
  by_cases hbad : memb = 0 ∨ size > SIZE_MAX / memb
  · rw [if_pos hbad]
    exact ⟨_, _, rfl, inv_zeroed⟩
  rw [if_neg hbad]
  obtain ⟨hm, hdiv⟩ := not_or.mp hbad
  rw [gt_div_iff hm, Nat.mul_comm] at hdiv
  by_cases hsize : size ≠ 0
  · rw [if_pos hsize]
    cases calloc with
    | false => exact ⟨_, _, rfl, inv_zeroed⟩
    | true =>
      refine ⟨_, _, rfl, Nat.not_lt.mp hdiv, ?_, fun h => (nomatch h), ?_⟩
      · simp [Nat.mul_comm]
      · refine (countP_of_zero fun i hi k hk => ?_).symm
        simp [elemByte, List.getElem?_replicate]
        split <;> rfl
  · rw [if_neg hsize]
    have h0 : size = 0 := not_not.mp hsize
    subst h0
    exact ⟨_, _, rfl, by simp, by simp [zeroed], fun _ => rfl, rfl⟩

theorem Inv.lkArrayEmpty {a : RawArray sizeMax} (h : a.Inv) :
    ∃ ret a', RawArray.lkArrayEmpty (some a) = some (ret, some a') ∧ a'.Inv := by
  unfold RawArray.lkArrayEmpty
  by_cases hbad : a.memb = 0 ∨ a.total > SIZE_MAX / a.memb
  · exact ⟨.einval, a, if_pos hbad, h⟩
  simp only [hbad, ↓reduceIte]
  -- an array without elements has none in use
  have hnone (h0 : a.total.val = 0) : Inv { a with count := 0 } :=
    ⟨h.size, h.block, h.null, by simp [h0]⟩
  cases ha : a.array with
  | none => exact ⟨.ok, { a with count := 0 }, by simp [ha], hnone (h.null ha)⟩
  | some block =>
    by_cases htotal : a.total ≠ 0
    · have hlen := h.block
      rw [ha, Option.getD_some] at hlen
      have hn : (a.memb * a.total).val = a.memb.val * a.total.val := h.val_mul (Nat.le_refl _)
      have hinside : 0 + (a.memb * a.total).val ≤ block.length := by rw [hn, hlen, Nat.zero_add]
      obtain ⟨block', hfill, hlen', hbytes⟩ := Buffer.exists_fill hinside fun _ => 0
      refine ⟨.ok, { a with array := some block', count := 0 }, by simp [htotal, hfill], h.size,
        by rw [Option.getD_some, hlen', hlen], fun h => (nomatch h), ?_⟩
      refine (countP_of_zero fun i hi k hk => ?_).symm
      have hlt : a.memb.val * i + k < a.memb.val * a.total.val := place_lt hi hk
      change (block'[a.memb.val * i + k]?).getD 0 = 0
      rw [hbytes, hn, if_pos ⟨Nat.zero_le _, by omega⟩, Option.getD_some]
    · refine ⟨.ok, { a with count := 0 }, by simp [htotal, ha], hnone ?_⟩
      rw [not_not.mp htotal]
      rfl

/-! ## Sequences of calls -/

/-- A call keeps the invariant, also with a null pointer. -/
theorem Inv.step {a : RawArray sizeMax} (h : a.Inv) (call : Call sizeMax × Bool) :
    ∃ ret a', RawArray.step a call = some (ret, a') ∧ a'.Inv := by
  obtain ⟨call, null⟩ := call
  cases null with
  | true =>
    refine ⟨.einval, a, ?_, h⟩
    cases call <;> rfl
  | false =>
    cases call with
    | init calloc memb size =>
      obtain ⟨ret, a', hrun, hinv⟩ := inv_lkArrayInit calloc a memb size
      exact ⟨ret, a', by simp [RawArray.step, Call.run, hrun], hinv⟩
    | set realloc i e =>
      obtain ⟨ret, a', hrun, hinv, -⟩ := h.lkArraySet realloc i e
      exact ⟨ret, a', by simp [RawArray.step, Call.run, hrun], hinv⟩
    | unset i =>
      obtain ⟨ret, a', hrun, hinv, -⟩ := h.lkArrayUnset i
      exact ⟨ret, a', by simp [RawArray.step, Call.run, hrun], hinv⟩
    | empty =>
      obtain ⟨ret, a', hrun, hinv⟩ := h.lkArrayEmpty
      exact ⟨ret, a', by simp [RawArray.step, Call.run, hrun], hinv⟩

theorem Inv.steps {a : RawArray sizeMax} (h : a.Inv) (calls : List (Call sizeMax × Bool)) :
    ∃ a', RawArray.steps a calls = some a' ∧ a'.Inv := by
  induction calls generalizing a with
  | nil => exact ⟨a, rfl, h⟩
  | cons call calls ih =>
    obtain ⟨ret, a₁, hstep, hinv⟩ := h.step call
    obtain ⟨a₂, hsteps, hinv'⟩ := ih hinv
    refine ⟨a₂, ?_, hinv'⟩
    rw [RawArray.steps, List.foldlM_cons, hstep]
    exact hsteps

/-- Whatever is called after `lk_array_init`, and whichever allocations fail: no access is outside of
the block, `count` is the number of elements that have a byte that is not zero, and the size does not
overflow. Then `lk_array_set` stores the element or leaves the array as it is, and so does
`lk_array_unset`. -/
theorem steps_spec (a₀ : RawArray sizeMax) (calloc : Bool) (memb size : SizeT sizeMax)
    (calls : List (Call sizeMax × Bool)) :
    ∃ a, steps a₀ ((.init calloc memb size, false) :: calls) = some a ∧
      a.count.val = (List.range a.total.val).countP a.inUse ∧
      a.memb.val * a.total.val ≤ sizeMax ∧
      (∀ realloc i e null, ∃ ret a', step a (.set realloc i e, null) = some (ret, a') ∧
        (ret = .ok → ∃ f, e = some f ∧ Stored a a' i f) ∧ (ret ≠ .ok → a' = a)) ∧
      ∀ i null, ∃ ret a', step a (.unset i, null) = some (ret, a') ∧
        (ret = .ok → Cleared a a' i) ∧ (ret ≠ .ok → a' = a) := by
  obtain ⟨ret, a₁, hinit, hinv₁⟩ := inv_lkArrayInit calloc a₀ memb size
  obtain ⟨a, hsteps, hinv⟩ := hinv₁.steps calls
  refine ⟨a, ?_, hinv.count, hinv.size, fun realloc i e null => ?_, fun i null => ?_⟩
  · rw [steps, List.foldlM_cons]
    have hstep : RawArray.step a₀ (.init calloc memb size, false) = some (ret, a₁) := by
      simp [RawArray.step, Call.run, hinit]
    rw [hstep]
    exact hsteps
  · cases null with
    | true => exact ⟨.einval, a, rfl, fun h => (nomatch h), fun _ => rfl⟩
    | false =>
      obtain ⟨ret, a', hrun, -, hfail, hok⟩ := hinv.lkArraySet realloc i e
      exact ⟨ret, a', by simp [RawArray.step, Call.run, hrun], hok, hfail⟩
  · cases null with
    | true => exact ⟨.einval, a, rfl, fun h => (nomatch h), fun _ => rfl⟩
    | false =>
      obtain ⟨ret, a', hrun, -, hfail, hok⟩ := hinv.lkArrayUnset i
      exact ⟨ret, a', by simp [RawArray.step, Call.run, hrun], hok, hfail⟩

/-! ## Typed arrays -/

section Typed

variable {α : Type} [Inhabited α] [DecidableEq α] {enc : α → Nat → UInt8}

/-- The bytes of the elements are those of a typed array, where only the default has no byte that is not
zero. -/
structure Represents (enc : α → Nat → UInt8) (a : RawArray sizeMax) (t : LkArray α) : Prop where
  inv : a.Inv
  zero : ∀ x, (∃ k < a.memb.val, enc x k ≠ 0) ↔ x ≠ default
  counted : t.Counted
  total : a.total.val = t.total
  elems : ∀ j < a.total.val, ∀ k < a.memb.val, a.elemByte j k = enc (t.get j) k

theorem live_eq_countP (t : LkArray α) :
    t.live = (List.range t.total).countP fun j => t.get j ≠ default := by
  have hdata : t.data = (List.range t.total).map t.get := by
    refine List.ext_getElem (by simp [LkArray.total]) fun j hj _ => ?_
    simp [LkArray.get, List.getElem?_eq_getElem hj]
  rw [LkArray.live, hdata, List.countP_map]
  rfl

variable {a a' : RawArray sizeMax} {t : LkArray α}

/-- The default has zeros only. -/
theorem Represents.enc_default (h : Represents enc a t) {k : Nat} (hk : k < a.memb.val) :
    enc default k = 0 := by
  by_contra hne
  exact (h.zero default).mp ⟨k, hk, hne⟩ rfl

/-- Both arrays count the same elements. -/
theorem Represents.count_eq (h : Represents enc a t) : a.count.val = t.count := by
  rw [h.inv.count, h.counted, live_eq_countP, ← h.total]
  refine List.countP_congr fun j hj => ?_
  have hlt := List.mem_range.mp hj
  rw [decide_eq_true_eq, inUse_eq_true, ← h.zero (t.get j)]
  exact exists_congr fun k => and_congr_right fun hk => by rw [h.elems j hlt k hk]

/-- A typed array that is written stands for the array that `lk_array_set` leaves. -/
theorem Represents.set (h : Represents enc a t) {realloc : Alloc} {i : SizeT sizeMax} {x : α}
    (hrun : RawArray.lkArraySet realloc (some a) i (some (enc x)) = some (.ok, some a')) :
    Represents enc a' (t.set i.val x) := by
  obtain ⟨ret, b, hset, hinv, -, hok⟩ := h.inv.lkArraySet realloc i (some (enc x))
  rw [hset] at hrun
  cases hrun
  obtain ⟨f, hf, hstored⟩ := hok rfl
  cases hf
  refine ⟨hinv, by rw [hstored.memb]; exact h.zero, LkArray.counted_set h.counted _ _, ?_, ?_⟩
  · rw [hstored.total, LkArray.total_set, h.total]
  · intro j hj k hk
    rw [LkArray.get_set]
    split
    · rename_i hji
      subst hji
      exact hstored.elem k hk
    · rename_i hji
      rw [hstored.other j hj hji k hk]
      split
      · rename_i hlt
        exact h.elems j hlt k (hstored.memb ▸ hk)
      · rename_i hge
        rw [LkArray.get_of_total_le (h.total ▸ Nat.not_lt.mp hge), h.enc_default (hstored.memb ▸ hk)]

/-- And one that is unset for the array that `lk_array_unset` leaves. -/
theorem Represents.unset (h : Represents enc a t) {i : SizeT sizeMax} {t' : LkArray α}
    (hrun : RawArray.lkArrayUnset (some a) i = some (.ok, some a')) (ht : t.unset i.val = some t') :
    Represents enc a' t' := by
  obtain ⟨ret, b, hunset, hinv, -, hok⟩ := h.inv.lkArrayUnset i
  rw [hunset] at hrun
  cases hrun
  have hcleared := hok rfl
  have htotal : t'.total = t.total := by
    unfold LkArray.unset at ht
    split at ht
    · split at ht
      · cases ht
        exact List.length_set
      · cases ht
        rfl
    · cases ht
  refine ⟨hinv, by rw [hcleared.memb]; exact h.zero, LkArray.counted_unset h.counted ht, ?_, ?_⟩
  · rw [hcleared.total, htotal, h.total]
  · intro j hj k hk
    rw [hcleared.memb] at hk
    rw [hcleared.total] at hj
    rw [hcleared.elems j hj k hk, LkArray.get_of_unset ht]
    split
    · exact (h.enc_default hk).symm
    · exact h.elems j hj k hk

end Typed

end Kbd.Keymap.RawArray
