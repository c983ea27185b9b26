import Kbd.Font.Pointer
import Kbd.Font.Verify.Psf

/-!
# No access outside of its array

The functions with pointers do what those over lists do, and none of their accesses is outside of the
buffer or of `out`: a font file is safe to read whatever its bytes are, and a code point goes out in at
most six bytes.
-/

namespace Kbd.Font

open Kbd.Lib Kbd.Lib.Buffer Kbd.Lib.Cursor

/-! ## UTF-8 -/

section

variable {mem : List UInt8}

theorem continuationAt_of_ok {need uc v p : Nat} {rest : List UInt8}
    (h : continuation need uc (mem.drop p) = .ok (v, rest)) :
    continuationAt mem need uc p = some (v, false, p + need) ∧ mem.drop (p + need) = rest := by
  induction need generalizing uc p with
  | zero =>
    cases h
    exact ⟨rfl, rfl⟩
  | succ need ih =>
    rcases hdrop : mem.drop p with _ | ⟨uc2, inp⟩
    · rw [hdrop] at h
      cases h
    · rw [hdrop, continuation] at h
      split at h
      · cases h
      · rename_i hcont
        obtain ⟨-, hnext, hlt⟩ := deref_of_drop (ε := PsfErr) hdrop
        rw [← hnext] at h
        obtain ⟨hat, hrest⟩ := ih h
        rw [Nat.add_right_comm] at hat hrest
        have hget : mem[p]? = some uc2 := by
          rw [← List.head?_drop, hdrop]
          rfl
        refine ⟨?_, hrest⟩
        rw [continuationAt, hget]
        simp only [Option.bind_eq_bind, Option.bind_some]
        rw [if_neg hcont]
        exact hat

/-- When the bytes are there, only a bad one ends the loop. -/
theorem continuationAt_of_error {need uc p : Nat} {e : Utf8Err} (hneed : p + need ≤ mem.length)
    (h : continuation need uc (mem.drop p) = .error e) :
    e = .bad ∧ ∃ v q, continuationAt mem need uc p = some (v, true, q) := by
  induction need generalizing uc p with
  | zero => cases h
  | succ need ih =>
    have hp : p < mem.length := by omega
    have hdrop := List.drop_eq_getElem_cons hp
    rw [hdrop, continuation] at h
    rw [continuationAt, List.getElem?_eq_getElem hp]
    simp only [Option.bind_eq_bind, Option.bind_some]
    split at h
    · rename_i hcont
      cases h
      rw [if_pos hcont]
      exact ⟨rfl, _, _, rfl⟩
    · rename_i hcont
      rw [if_neg hcont]
      exact ih (by omega) h

/-- What `from_utf8` gives for a character that is read, with the count of all bytes or none. -/
theorem fromUtf8At_of_ok {p uc : Nat} {cnt : Int} {rest : List UInt8}
    (h : fromUtf8 (mem.drop p) = .ok (uc, rest))
    (hcnt : cnt = 0 ∨ (mem.length - p - rest.length : Nat) ≤ cnt) :
    ∃ q ≤ mem.length, mem.drop q = rest ∧
      fromUtf8At mem p cnt = some { uc := int32 uc, err := none, inptr := q } := by
  rcases hdrop : mem.drop p with _ | ⟨b, inp⟩
  · rw [hdrop] at h
    cases h
  · obtain ⟨-, hnext, hlt⟩ := deref_of_drop (ε := PsfErr) hdrop
    have hlen := length_le_of_drop hdrop
    have hget : mem[p]? = some b := by
      rw [← List.head?_drop, hdrop]
      rfl
    rw [hdrop, fromUtf8] at h
    simp only at h
    split at h
    · cases h
    rename_i hshort
    split at h
    · cases h
    rename_i hone
    rw [← hnext] at h
    obtain ⟨hat, hrest⟩ := continuationAt_of_ok h
    have hrestlen := congrArg List.length hrest
    rw [List.length_drop] at hrestlen
    refine ⟨_, ?_, hrest, ?_⟩
    · omega
    · rw [fromUtf8At, hget]
      simp only [Option.bind_eq_bind, Option.bind_some]
      rw [if_neg (by omega), if_neg hone, hat]
      rfl

/-- What `from_utf8` gives for an error, with the count of all bytes. -/
theorem fromUtf8At_of_error {p : Nat} {e : Utf8Err} (hp : p < mem.length)
    (h : fromUtf8 (mem.drop p) = .error e) :
    fromUtf8At mem p ((mem.length : Int) - p) = some { uc := 0, err := some e, inptr := p } := by
  have hdrop := List.drop_eq_getElem_cons hp
  have hlen := length_le_of_drop hdrop
  rw [hdrop, fromUtf8] at h
  rw [fromUtf8At, List.getElem?_eq_getElem hp]
  simp only [Option.bind_eq_bind, Option.bind_some] at h ⊢
  split at h
  · cases h
    rw [if_pos]
    omega
  rename_i hshort
  rw [if_neg (by omega)]
  split at h
  · rename_i hone
    cases h
    rw [if_pos hone]
  · rename_i hone
    rw [if_neg hone]
    obtain ⟨rfl, v, q, hat⟩ := continuationAt_of_error (by omega) h
    rw [hat]
    rfl

/-- An error leaves the pointer where it is. -/
theorem fromUtf8At_err {p : Nat} {cnt : Int} {r : Utf8Result} (h : fromUtf8At mem p cnt = some r)
    (herr : r.err ≠ none) : r.inptr = p := by
  rw [fromUtf8At] at h
  obtain ⟨b, -, h⟩ := Option.bind_eq_some_iff.mp h
  simp only at h
  split at h
  · cases h
    rfl
  split at h
  · cases h
    rfl
  obtain ⟨⟨uc, bad, inp⟩, -, h⟩ := Option.bind_eq_some_iff.mp h
  simp only at h
  split at h
  · cases h
    rfl
  · cases h
    exact absurd rfl herr

end

theorem set_drop {buf : List UInt8} {n : Nat} (v : UInt8) (h : n < buf.length) :
    (buf.set n v).drop n = v :: buf.drop (n + 1) := by
  rw [List.drop_eq_getElem_cons (by rwa [List.length_set]), List.getElem_set_self,
    List.drop_set_of_lt (Nat.lt_succ_self n)]

/-- While `uc` has at most `6 * n - 5` bits, the loop stops before it has filled `out`. -/
theorem fillUtf8At_eq {n uc : Nat} {out : List UInt8} (hn : n < 6) (huc : uc < 2 ^ (6 * n + 1))
    (hout : out.length = 6) :
    ∃ m out', fillUtf8At (n + 1) uc (2 ^ (n + 1) - 1) out = some (m, out') ∧ m ≤ n ∧
      out'.length = 6 ∧ out'.drop m = fillUtf8 (n + 1) uc (2 ^ (n + 1) - 1) (out.drop (n + 1)) := by
  induction n generalizing uc out with
  | zero =>
    have hstop : uc &&& complement (2 ^ (0 + 1) - 1) = 0 := by
      rw [and_complement (by decide) (by omega), Nat.div_eq_of_lt huc, Nat.mul_zero]
    rw [fillUtf8At, fillUtf8]
    simp only [hstop, ne_eq, not_true_eq_false, if_false, store, hout]
    exact ⟨0, _, rfl, Nat.le_refl 0, by rw [List.length_set, hout], set_drop _ (by omega)⟩
  | succ n ih =>
    have hlt : n + 1 < out.length := by omega
    rw [fillUtf8At, fillUtf8]
    split
    · have hmask : (2 ^ (n + 1 + 1) - 1) >>> 1 = 2 ^ (n + 1) - 1 := by
        rw [Nat.shiftRight_eq_div_pow, Nat.pow_succ]
        omega
      have hshift : uc >>> 6 < 2 ^ (6 * n + 1) := by
        rw [Nat.shiftRight_eq_div_pow]
        refine Nat.div_lt_of_lt_mul (Nat.lt_of_lt_of_eq huc ?_)
        rw [← Nat.pow_add]
        congr 1
        omega
      simp only [store, hlt, if_true, Option.bind_eq_bind, Option.bind_some, hmask]
      obtain ⟨m, out', hfill, hm, hlen, hdrop⟩ :=
        @ih (uc >>> 6) (out.set (n + 1) (UInt8.ofNat (0x80 + (uc &&& 0x3f)))) (by omega) hshift
          (by rw [List.length_set, hout])
      rw [set_drop _ hlt] at hdrop
      exact ⟨m, out', hfill, by omega, hlen, hdrop⟩
    · simp only [store, hlt, if_true, Option.bind_eq_bind, Option.bind_some]
      exact ⟨n + 1, _, rfl, Nat.le_refl _, by rw [List.length_set, hout], set_drop _ hlt⟩

/-- The bytes of a code point are inside of `out`. -/
theorem appendunicodeAt_eq {u : Int} (h0 : 0 ≤ u) (hu : u < 2 ^ 31) :
    appendunicodeAt u true = some (.ok (codeBytes true u)) ∧ 1 ≤ (codeBytes true u).length ∧
      (codeBytes true u).length ≤ 6 := by
  have hneg : ¬ u < 0 := Int.not_lt.mpr h0
  rw [codeBytes_utf8 h0, appendunicodeAt, if_neg hneg]
  by_cases hascii : u.toNat < 0x80
  · have hencode : encodeAt u.toNat true = some (5, [0, 0, 0, 0, 0, UInt8.ofNat u.toNat]) := by
      rw [encodeAt]
      simp only [hascii, if_true]
      rfl
    rw [if_pos hascii, hencode]
    exact ⟨rfl, by simp, by simp⟩
  · obtain ⟨m, out', hfill, hm, hlen, hdrop⟩ :=
      @fillUtf8At_eq 5 u.toNat (List.replicate 6 0) (by decide) (by omega) rfl
    have hencode : encodeAt u.toNat true = some (m, out') := by
      rw [encodeAt]
      simp only [hascii, if_false]
      exact hfill
    have hdrop' : out'.drop m = fillUtf8 6 u.toNat 0x3f [] := hdrop
    have hlength : (fillUtf8 6 u.toNat 0x3f []).length = 6 - m := by
      rw [← hdrop', List.length_drop, hlen]
    have hslice : slice out' m (6 - m) = some (fillUtf8 6 u.toNat 0x3f []) := by
      rw [slice, if_pos (by omega), hdrop', List.take_of_length_le (by omega)]
    rw [if_neg hascii, hencode]
    refine ⟨?_, by omega, by omega⟩
    change (slice out' m (6 - m)).bind _ = _
    rw [hslice]
    rfl

/-- Every code point goes out in one to six bytes, and is read back from them whatever follows; an
error of `from_utf8` does not move its pointer. -/
theorem appendunicodeAt_fromUtf8At :
    (∀ u : Int, 0 ≤ u → u < 2 ^ 31 → ∃ bs, appendunicodeAt u true = some (.ok bs) ∧
      1 ≤ bs.length ∧ bs.length ≤ 6 ∧ (∀ b ∈ bs, b ≠ 0xFE ∧ b ≠ 0xFF) ∧
      ∀ (pre s : List UInt8) (cnt : Int), cnt = 0 ∨ bs.length ≤ cnt →
        fromUtf8At (pre ++ bs ++ s) pre.length cnt =
          some { uc := u, err := none, inptr := pre.length + bs.length }) ∧
    ∀ (mem : List UInt8) (inptr : Nat) (cnt : Int) (r : Utf8Result),
      fromUtf8At mem inptr cnt = some r → r.err ≠ none → r.inptr = inptr := by
  refine ⟨?_, fun mem inptr cnt r h herr => fromUtf8At_err h herr⟩
  intro u h0 hu
  obtain ⟨happend, hpos, hle⟩ := appendunicodeAt_eq h0 hu
  refine ⟨codeBytes true u, happend, hpos, hle, ?_, ?_⟩
  · intro b hb
    have hlt := codeBytes_lt h0 hu b hb
    constructor <;>
    · rintro rfl
      exact absurd hlt (by decide)
  · intro pre s cnt hcnt
    have hread := fromUtf8_codeBytes h0 hu s
    rw [← @List.drop_left _ pre (codeBytes true u ++ s), ← List.append_assoc] at hread
    have hlen : (pre ++ codeBytes true u ++ s).length
        = pre.length + (codeBytes true u).length + s.length := by
      rw [List.length_append, List.length_append]
    have hint : int32 u.toNat = u := by
      rw [int32, if_pos (by omega), Int.toNat_of_nonneg h0]
    obtain ⟨q, hq, hrest, hat⟩ := @fromUtf8At_of_ok _ _ _ cnt _ hread (by omega)
    have hrestlen := congrArg List.length hrest
    rw [List.length_drop] at hrestlen
    rw [hat, hint, show q = pre.length + (codeBytes true u).length by omega]

/-- The euro sign between other bytes. -/
theorem appendunicodeAt_fromUtf8At_euro :
    ∃ bs, appendunicodeAt 0x20ac true = some (.ok bs) ∧
      fromUtf8At ([0x41] ++ bs ++ [0xFF]) 1 0 =
        some { uc := 0x20ac, err := none, inptr := 1 + bs.length } := by
  obtain ⟨bs, happend, -, -, -, hread⟩ :=
    appendunicodeAt_fromUtf8At.1 0x20ac (by decide) (by decide)
  exact ⟨bs, happend, hread [0x41] [0xFF] 0 (Or.inl rfl)⟩

/-! ## The table -/

section

variable {mem : List UInt8}

theorem assembleUtf8At_agrees {p : Nat} {b : UInt8} {inp : List UInt8} (hdrop : mem.drop p = b :: inp)
    (hb : b.toNat < 254) {γ : Type} {f : Int × Nat → Access PsfErr (γ × Nat)}
    {g : Nat × List UInt8 → Except PsfErr (γ × List UInt8)}
    (hfg : ∀ uc q, q ≤ mem.length → Agrees mem (f ((uc : Nat), q)) (g (uc, mem.drop q))) :
    Agrees mem (assembleUtf8At mem p ((mem.length : Int) - p) >>= f)
      (assembleUtf8 (b :: inp) >>= g) := by
  obtain ⟨-, -, hlt⟩ := deref_of_drop (ε := PsfErr) hdrop
  rcases hread : fromUtf8 (b :: inp) with e | ⟨uc, rest⟩
  · have hat := fromUtf8At_of_error hlt (hdrop.symm ▸ hread)
    cases e with
    | short =>
      simp only [assembleUtf8At, hat, assembleUtf8, hread]
      exact .error _
    | bad =>
      simp only [assembleUtf8At, hat, assembleUtf8, hread]
      exact .error _
  · obtain ⟨q, hq, rfl, hat⟩ := @fromUtf8At_of_ok mem p uc (mem.length - p) rest
      (hdrop.symm ▸ hread) (by omega)
    have hint : int32 uc = uc := if_pos (fromUtf8_lt hb hread)
    simp only [assembleUtf8At, hat, assembleUtf8, hread, hint]
    exact hfg uc q hq

theorem uniTokenAt_agrees (utf8 : Bool) {p : Nat} (hp : p ≤ mem.length) :
    Agrees mem (uniTokenAt mem utf8 p) (uniToken utf8 (mem.drop p)) := by
  rcases hdrop : mem.drop p with _ | ⟨b, inp⟩
  · have hend : p = mem.length := by
      have hlen := congrArg List.length hdrop
      rw [List.length_drop, List.length_nil] at hlen
      omega
    rw [uniTokenAt, if_pos hend]
    exact .error _
  · obtain ⟨hget, hnext, hlt⟩ := deref_of_drop (ε := PsfErr) hdrop
    have hlen := length_le_of_drop hdrop
    rw [uniTokenAt, if_neg (by omega), uniToken, hget, pure_bind, ← hnext]
    cases utf8 with
    | true =>
      simp only [if_true]
      split
      · exact .ok _ _ hlt
      split
      · exact .ok _ _ hlt
      rename_i hsep hstart
      have hb : b.toNat < 254 := by
        rw [← UInt8.toNat_inj] at hsep hstart
        have := b.toNat_lt
        change b.toNat ≠ 255 at hsep
        change b.toNat ≠ 254 at hstart
        omega
      rw [hnext]
      refine assembleUtf8At_agrees hdrop hb fun uc q hq => ?_
      simp only [Int.toNat_natCast]
      rw [if_neg (by omega)]
      exact .ok _ _ hq
    | false =>
      simp only [Bool.false_eq_true, if_false]
      rcases hinp : inp with _ | ⟨b2, inp'⟩
      · have hshort : (mem.length : Int) - p < 2 := by
          rw [hinp, List.length_nil] at hlen
          omega
        rw [assembleUcs2At, if_pos hshort, hnext, hinp]
        exact .error _
      · obtain ⟨hget', hnext', hlt'⟩ := deref_of_drop (ε := PsfErr) (hnext.trans hinp)
        have hlong : ¬ (mem.length : Int) - p < 2 := by omega
        rw [assembleUcs2At, if_neg hlong, hget, pure_bind, hget', pure_bind, pure_bind, hnext, hinp,
          assembleUcs2, ← hnext']
        simp only [bind, Except.bind]
        split
        · exact .ok _ _ hlt'
        split
        · exact .ok _ _ hlt'
        · exact .ok _ _ hlt'

theorem getUniEntryFromAt_agrees (utf8 : Bool) (rounds : Nat) (up : UnicodeList) (inseq : Nat)
    {p : Nat} (hp : p ≤ mem.length) :
    Agrees mem (getUniEntryFromAt mem utf8 rounds up inseq p)
      (getUniEntryFrom utf8 rounds up inseq (mem.drop p)) := by
  induction rounds generalizing up inseq p with
  | zero => exact .error _
  | succ rounds ih =>
    rw [getUniEntryFromAt, getUniEntryFrom]
    refine (uniTokenAt_agrees utf8 hp).bind fun tok q hq => ?_
    cases tok with
    | separator => exact .ok _ _ hq
    | startSeq => exact ih _ _ hq
    | unichar uc => exact ih _ _ hq

theorem getUniEntryAt_agrees (utf8 : Bool) {p : Nat} (hp : p ≤ mem.length) :
    Agrees mem (getUniEntryAt mem utf8 p) (getUniEntry utf8 (mem.drop p)) := by
  rw [getUniEntryAt, getUniEntry, List.length_drop]
  exact getUniEntryFromAt_agrees utf8 _ _ _ hp

theorem readUniTableAt_agrees (utf8 : Bool) (fontlen : Nat) {p : Nat} (hp : p ≤ mem.length) :
    Agrees mem (readUniTableAt mem utf8 fontlen p) (readUniTable utf8 fontlen (mem.drop p)) := by
  induction fontlen generalizing p with
  | zero => exact .ok _ _ hp
  | succ fontlen ih =>
    rw [readUniTableAt, readUniTable]
    refine (getUniEntryAt_agrees utf8 hp).bind fun up q hq => ?_
    exact (ih hq).bind fun heads r hr => .ok _ _ hr

theorem readPsfTableAt_eq (h : PsfHeader) {p : Nat} (hp : p ≤ mem.length) :
    readPsfTableAt mem h p = some (readPsfTable h (mem.drop p)) := by
  rw [readPsfTableAt, readPsfTable]
  split
  · have hagrees := readUniTableAt_agrees h.utf8 h.fontlen hp
    generalize readUniTableAt mem h.utf8 h.fontlen p = m at hagrees ⊢
    generalize readUniTable h.utf8 h.fontlen (mem.drop p) = r at hagrees ⊢
    cases hagrees with
    | error e => rfl
    | ok heads q hq =>
      have hend : q ≠ mem.length ↔ mem.drop q ≠ [] := by
        rw [Ne, Ne, List.drop_eq_nil_iff]
        omega
      change (if q ≠ mem.length then _ else _) = some (if mem.drop q ≠ [] then _ else _)
      by_cases hq' : q = mem.length
      · rw [if_neg (not_not.mpr hq'), if_neg (mt hend.mpr (not_not.mpr hq'))]
        rfl
      · rw [if_pos hq', if_pos (hend.mp hq')]
        rfl
  · rfl

/-! ## The file -/

theorem hasHeader_eq {size : Nat} {magic : List UInt8} (h : magic.length ≤ size) :
    hasHeader mem size magic = pure (decide (mem.length ≥ size ∧ magic.isPrefixOf mem)) := by
  rw [hasHeader]
  split
  · rename_i hsize
    have htake : mem.take magic.length = magic ↔ mem.length ≥ size ∧ magic.isPrefixOf mem := by
      rw [List.isPrefixOf_iff_prefix, List.prefix_iff_eq_take, eq_comm]
      exact (and_iff_right hsize).symm
    rw [slice, if_pos (by omega), List.drop_zero, Option.map_some]
    simp only [htake]
    rfl
  · rename_i hsize
    rw [decide_eq_false fun h => hsize h.1]

theorem deref_eq {i : Nat} (hi : i < mem.length) :
    (deref mem i : Access PsfErr UInt8) = pure (mem.getD i 0) := by
  rw [deref, List.getElem?_eq_getElem hi, List.getD_eq_getElem _ _ hi]
  rfl

theorem assembleUint32_take {l : List UInt8} {n : Nat} (hn : 4 ≤ n) :
    assembleUint32 (l.take n) = assembleUint32 l := by
  obtain ⟨m, rfl⟩ := Nat.exists_eq_add_of_le' hn
  rcases l with _ | ⟨a, _ | ⟨b, _ | ⟨c, _ | ⟨d, l⟩⟩⟩⟩ <;> rfl

/-- The copy of the header has the numbers of the buffer. -/
theorem assembleUint32_copy {k : Nat} (hk : k ≤ 28) :
    assembleUint32 ((mem.take 32).drop k) = assembleUint32 (mem.drop k) := by
  rw [List.drop_take, assembleUint32_take (by omega)]

theorem readPsfHeaderAt_eq (mem : List UInt8) : readPsfHeaderAt mem = some (readPsfHeader mem) := by
  rw [readPsfHeaderAt, @hasHeader_eq _ 4 _ (by decide), @hasHeader_eq _ 32 _ (by decide),
    pure_bind, pure_bind, readPsfHeader]
  by_cases h1 : mem.length ≥ 4 ∧ psf1Magic.isPrefixOf mem
  · rw [if_pos h1, if_pos (decide_eq_true h1), deref_eq (by omega), pure_bind, deref_eq (by omega)]
    simp only
    split <;> rfl
  · rw [if_neg h1, if_neg (mt of_decide_eq_true h1)]
    by_cases h2 : mem.length ≥ 32 ∧ psf2Magic.isPrefixOf mem
    · have hslice : slice mem 0 32 = some (mem.take 32) := if_pos (by omega)
      rw [if_pos h2, if_pos (decide_eq_true h2), hslice]
      change (if assembleUint32 ((mem.take 32).drop 4) > psf2MaxVersion then _ else _) = _
      rw [assembleUint32_copy (by decide), assembleUint32_copy (by decide),
        assembleUint32_copy (by decide), assembleUint32_copy (by decide),
        assembleUint32_copy (by decide), assembleUint32_copy (by decide),
        assembleUint32_copy (by decide)]
      simp only
      split <;> rfl
    · rw [if_neg h2, if_neg (mt of_decide_eq_true h2)]
      rfl

end

theorem assembleUint32_lt (l : List UInt8) : assembleUint32 l < 2 ^ 32 := by
  rcases l with _ | ⟨a, _ | ⟨b, _ | ⟨c, _ | ⟨d, l⟩⟩⟩⟩
  · exact Nat.two_pow_pos 32
  · exact Nat.two_pow_pos 32
  · exact Nat.two_pow_pos 32
  · exact Nat.two_pow_pos 32
  · have ha := a.toNat_lt
    have hb := b.toNat_lt
    have hc := c.toNat_lt
    have hd := d.toNat_lt
    rw [assembleUint32_cons]
    omega

theorem readPsfHeader_fontwidth_lt {buf : List UInt8} {h : PsfHeader}
    (hread : readPsfHeader buf = .ok h) : h.fontwidth < 2 ^ 32 := by
  rw [readPsfHeader] at hread
  split at hread
  · simp only at hread
    split at hread
    · cases hread
    · cases hread
      exact (by decide : 8 < 2 ^ 32)
  split at hread
  · simp only at hread
    split at hread
    · cases hread
    · cases hread
      exact assembleUint32_lt _
  · cases hread

/-- The tests on the sizes do not wrap. -/
theorem checkPsfHeaderAt_eq {h : PsfHeader} {inputlth : Nat} (hw : h.fontwidth < 2 ^ 32)
    (hlth : inputlth < 2 ^ 32) : checkPsfHeaderAt h inputlth = checkPsfHeader h inputlth := by
  have hbw : bytewidthAt h.fontwidth = bytewidth h.fontwidth := by
    rw [bytewidthAt, bytewidth]
    refine Nat.mod_eq_of_lt ?_
    split <;> omega
  rw [checkPsfHeaderAt, checkPsfHeader, hbw]
  split
  · rfl
  split
  · rfl
  rename_i hlen hcs
  split
  · rfl
  rename_i hroom
  rw [not_or] at hroom
  have hmul : h.fontlen * h.charsize ≤ inputlth - h.ftoffset :=
    (Nat.le_div_iff_mul_le (by omega)).mp (Nat.not_lt.mp hroom.2)
  have hsum : u32 (h.ftoffset + u32 (h.fontlen * h.charsize)) = h.ftoffset + h.fontlen * h.charsize := by
    rw [u32, u32, Nat.mod_eq_of_lt (show h.fontlen * h.charsize < 2 ^ 32 by omega),
      Nat.mod_eq_of_lt (by omega)]
  rw [hsum]

/-- Reading a font from a buffer makes no access outside of it, and gives what the list has. -/
theorem readPsffontAt_eq {mem : List UInt8} (hmem : mem.length < 2 ^ 32) (fontpos0 : Nat)
    (uclistheads : Option (List UnicodeList)) :
    readPsffontAt mem fontpos0 uclistheads = some (kfontReadPsffont mem fontpos0 uclistheads) := by
  rw [readPsffontAt, readPsfHeaderAt_eq, kfontReadPsffont]
  rcases hh : readPsfHeader mem with e | h
  · rfl
  change (ExceptT.mk (some (checkPsfHeaderAt h mem.length)) >>= _) =
    some (checkPsfHeader h mem.length >>= _)
  rw [checkPsfHeaderAt_eq (readPsfHeader_fontwidth_lt hh) hmem]
  rcases hcheck : checkPsfHeader h mem.length with e | height
  · rfl
  obtain ⟨-, -, hroom, -⟩ := checkPsfHeader_cases hcheck
  have hlth : u32 (h.fontlen * h.charsize) = h.fontlen * h.charsize := Nat.mod_eq_of_lt (by omega)
  have hslice : slice mem h.ftoffset (h.fontlen * h.charsize)
      = some ((mem.drop h.ftoffset).take (h.fontlen * h.charsize)) := if_pos hroom
  change (ExceptT.mk ((slice mem h.ftoffset (u32 (h.fontlen * h.charsize))).map .ok) >>= _) = _
  rw [hlth, hslice]
  cases uclistheads with
  | none => rfl
  | some heads =>
    change (if h.fontlen > uintMax - fontpos0 then _ else _) =
      some (if h.fontlen > uintMax - fontpos0 then _ else _)
    split
    · rfl
    · rw [readPsfTableAt_eq h hroom]
      cases readPsfTable h (mem.drop (h.ftoffset + h.fontlen * h.charsize)) <;> rfl

theorem psffontInput_lt {fontf : Option (List UInt8)} {allbuf inputbuf : List UInt8}
    (hbuf : fontf = none → allbuf.length < 2 ^ 32)
    (h : psffontInput fontf allbuf = .ok inputbuf) : inputbuf.length < 2 ^ 32 := by
  cases fontf with
  | none =>
    cases h
    exact hbuf rfl
  | some file =>
    simp only [psffontInput, readFontfile] at h
    split at h
    · cases h
    · cases h
      have : maxFontSize < 2 ^ 32 := by decide
      omega

/-- The table of a font that is read ends where the file does. -/
theorem readUniTableAt_of_readPsfTable {mem : List UInt8} {h : PsfHeader} {p : Nat}
    {t : List UnicodeList} (hp : p ≤ mem.length) (htable : h.hastable = true)
    (hread : readPsfTable h (mem.drop p) = .ok t) :
    readUniTableAt mem h.utf8 h.fontlen p = some (.ok (t, mem.length)) := by
  have hagrees := readUniTableAt_agrees h.utf8 h.fontlen hp
  rw [readPsfTable, if_pos htable] at hread
  rcases hr : readUniTable h.utf8 h.fontlen (mem.drop p) with e | ⟨heads, rest⟩
  · rw [hr] at hread
    cases hread
  · rw [hr] at hread hagrees
    change (if rest ≠ [] then _ else pure heads) = _ at hread
    split at hread
    · cases hread
    · rename_i hrest
      cases hread
      rw [hagrees.ok_inv, not_not.mp hrest, List.length_nil, Nat.sub_zero]

/-- A file without a table ends after the bitmap. -/
theorem checkPsfHeader_end {hd : PsfHeader} {inputlth height : Nat}
    (h : checkPsfHeader hd inputlth = .ok height) (htable : hd.hastable = false) :
    hd.ftoffset + hd.fontlen * hd.charsize = inputlth := by
  rw [checkPsfHeader, htable] at h
  split at h
  · cases h
  split at h
  · cases h
  split at h
  · cases h
  split at h
  · cases h
  split at h
  · cases h
  split at h
  · cases h
  · rename_i hend
    exact not_not.mp fun hne => hend ⟨rfl, hne⟩

/-- Whatever is in the file, no access is outside of the buffer; and when a font is read, its sizes are
those of its header, its bitmap is in the file, and the file ends after the bitmap or after the
description of the last glyph. -/
theorem kfontReadPsffontAt_inside (fontf : Option (List UInt8)) (allbuf : List UInt8)
    (hbuf : fontf = none → allbuf.length < 2 ^ 32) (fontpos0 : Nat)
    (uclistheads : Option (List UnicodeList)) :
    ∃ r, kfontReadPsffontAt fontf allbuf fontpos0 uclistheads = some r ∧
      ∀ font heads, r = .ok (font, heads) →
        ∃ inputbuf hd, psffontInput fontf allbuf = .ok inputbuf ∧ readPsfHeader inputbuf = .ok hd ∧
          font.fontlen = hd.fontlen ∧ font.fontwidth = hd.fontwidth ∧ 1 ≤ hd.fontlen ∧
          hd.charsize = font.fontheight * ((hd.fontwidth + 7) / 8) ∧ 1 ≤ hd.charsize ∧
          hd.ftoffset + hd.fontlen * hd.charsize ≤ inputbuf.length ∧
          (hd.hastable = false ∧ hd.ftoffset + hd.fontlen * hd.charsize = inputbuf.length ∨
            hd.hastable = true ∧ ∀ old, uclistheads = some old → ∃ t,
              heads = some (old.take fontpos0 ++ t) ∧ t.length = hd.fontlen ∧
              readUniTableAt inputbuf hd.utf8 hd.fontlen (hd.ftoffset + hd.fontlen * hd.charsize)
                = some (.ok (t, inputbuf.length))) := by
  rcases hinput : psffontInput fontf allbuf with e | inputbuf
  · refine ⟨.error e, ?_, fun font heads h => by cases h⟩
    rw [kfontReadPsffontAt, hinput]
    rfl
  have hlth := psffontInput_lt hbuf hinput
  refine ⟨kfontReadPsffont inputbuf fontpos0 uclistheads, ?_, ?_⟩
  · rw [← readPsffontAt_eq hlth, kfontReadPsffontAt, hinput]
    rfl
  intro font heads hread
  obtain ⟨hd, hhd, hcheck, -, hwidth, hlen, htable⟩ := kfontReadPsffont_cases hread
  obtain ⟨hlen1, hcs1, hroom, hcs⟩ := checkPsfHeader_cases hcheck
  refine ⟨inputbuf, hd, rfl, hhd, hlen, hwidth, hlen1, ?_, hcs1, hroom, ?_⟩
  · rw [hcs, bytewidth_eq, Nat.mul_comm]
  cases hhas : hd.hastable with
  | false => exact Or.inl ⟨rfl, checkPsfHeader_end hcheck hhas⟩
  | true =>
    refine Or.inr ⟨rfl, ?_⟩
    rintro old rfl
    obtain ⟨hnone, -⟩ | ⟨o, t, ho, rfl, -, ht⟩ := htable
    · cases hnone
    · cases ho
      exact ⟨t, rfl, (readPsfTable_nonempty ht).1, readUniTableAt_of_readPsfTable hroom hhas ht⟩

/-- The second format with one glyph of one row, for `A`. -/
def letterFile : List UInt8 :=
  psf2Magic ++ storeIntLe 0 ++ storeIntLe 32 ++ storeIntLe 1 ++ storeIntLe 1 ++ storeIntLe 1 ++
    storeIntLe 1 ++ storeIntLe 8 ++ [0x18, 0x41, 0xFF]

theorem kfontReadPsffontAt_inside_letter :
    ∃ r, kfontReadPsffontAt none letterFile 0 (some []) = some r ∧
      r = .ok (⟨[0x18], 8, 1, 1⟩, some [[[0x41]]]) := by
  obtain ⟨r, hr, -⟩ := kfontReadPsffontAt_inside none letterFile (fun _ => by decide) 0 (some [])
  have hread : kfontReadPsffontAt none letterFile 0 (some []) =
      some (.ok (⟨[0x18], 8, 1, 1⟩, some [[[0x41]]])) := rfl
  rw [hread] at hr
  cases hr
  exact ⟨_, hread, rfl⟩

end Kbd.Font
