import Kbd.Font.Psf
import Kbd.Lib.Digits
import Mathlib.Data.Nat.Bitwise
import Mathlib.Data.Nat.Find

/-!
# Code points in a file

What `appendunicode` writes for a code point, `uniToken` reads as that code point, whatever comes
after it. In UCS-2 the two values of the separators are left out. The UTF-8 here goes up to six
bytes: a code point below `2 ^ 31` with `k` continuation bytes has a leading byte of `k + 1` ones, a
zero and the `6 - k` bits that are left, so a leading byte is neither separator.
-/

namespace Kbd.Font

open Kbd.Lib.Digits

/-- The code points that a table can hold. -/
def Representable (utf8 : Bool) (u : Unicode) : Prop :=
  0 ≤ u ∧ u < if utf8 then 0x80000000 else (psf1StartSeq : Int)

instance (utf8 : Bool) (u : Unicode) : Decidable (Representable utf8 u) :=
  inferInstanceAs (Decidable (_ ∧ _))

/-- What is written for a code point. -/
def codeBytes (utf8 : Bool) (u : Unicode) : List UInt8 := (appendunicode u utf8).toOption.getD []

theorem appendunicode_eq {utf8 : Bool} {u : Unicode} (h : 0 ≤ u) :
    appendunicode u utf8 = .ok (codeBytes utf8 u) := by
  have hu : ¬ u < 0 := Int.not_lt.mpr h
  simp only [codeBytes, appendunicode, hu, if_false]
  rfl

/-! ## The bytes of UTF-8 -/

/-- The leading byte with `j` bits of the value. -/
def leadByte (j u : Nat) : Nat := 256 - 2 ^ (j + 1) + u

/-- A continuation byte. -/
def contByte (d : Nat) : UInt8 := UInt8.ofNat (0x80 + d)

theorem leadByte_spec : ∀ j < 6, 1 ≤ j → ∀ u < 2 ^ j,
    leadingOnes (leadByte j u) 8 0 = (7 - j, 2 ^ j) ∧ leadByte j u < 254 ∧
      leadByte j u &&& (2 ^ j + (2 ^ 32 - 1)) % 2 ^ 32 = u := by
  decide

theorem contByte_spec : ∀ d < 64,
    (contByte d).toNat &&& 0xc0 = 0x80 ∧ (contByte d).toNat &&& 0x3f = d := by
  decide

theorem and_complement {uc j : Nat} (hj : j ≤ 32) (huc : uc < 2 ^ 32) :
    uc &&& complement (2 ^ j - 1) = 2 ^ j * (uc / 2 ^ j) := by
  have hc : complement (2 ^ j - 1) = (2 ^ (32 - j) - 1) <<< j := by
    have hle : 2 ^ j ≤ 2 ^ 32 := Nat.pow_le_pow_right (by decide) hj
    have hpos : 0 < 2 ^ j := Nat.two_pow_pos j
    rw [complement, Nat.shiftLeft_eq, Nat.sub_mul, ← Nat.pow_add, Nat.sub_add_cancel hj]
    omega
  apply Nat.eq_of_testBit_eq
  intro i
  rw [hc, Nat.testBit_and, Nat.testBit_shiftLeft, Nat.testBit_two_pow_sub_one, Nat.mul_comm,
    ← Nat.shiftLeft_eq, Nat.testBit_shiftLeft, ← Nat.shiftRight_eq_div_pow, Nat.testBit_shiftRight]
  by_cases hi : j ≤ i
  · by_cases h32 : i < 32
    · simp [hi, show i - j < 32 - j by omega, show j + (i - j) = i by omega]
    · have hbit : uc.testBit i = false :=
        Nat.testBit_eq_false_of_lt (lt_of_lt_of_le huc (Nat.pow_le_pow_right (by decide) (by omega)))
      simp [hi, hbit, show j + (i - j) = i by omega]
  · simp [hi]

/-- `(uc + ~mask + ~mask) & 0xff` sets the leading ones. -/
theorem lead_eq {uc j : Nat} (hj : j ≤ 6) (huc : uc < 2 ^ j) :
    (uc + complement (2 ^ j - 1) + complement (2 ^ j - 1)) &&& 0xff = leadByte j uc := by
  have hcases : j = 0 ∨ j = 1 ∨ j = 2 ∨ j = 3 ∨ j = 4 ∨ j = 5 ∨ j = 6 := by omega
  rw [show (0xff : Nat) = 2 ^ 8 - 1 from rfl, Nat.and_two_pow_sub_one_eq_mod]
  rcases hcases with rfl | rfl | rfl | rfl | rfl | rfl | rfl <;>
    simp only [complement, leadByte] at huc ⊢ <;> omega

/-- The loop takes six bits at a time while the value needs more than the mask has. -/
theorem fillUtf8_eq {k j n uc : Nat} (out : List UInt8) (hkj : k ≤ j) (hj : j ≤ 6) (hn : k < n)
    (huc : uc < 2 ^ 32) (hmore : ∀ i < k, 2 ^ (j - i) ≤ uc / 64 ^ i)
    (hlast : uc / 64 ^ k < 2 ^ (j - k)) :
    fillUtf8 n uc (2 ^ j - 1) out =
      UInt8.ofNat (leadByte (j - k) (uc / 64 ^ k)) :: (digits 64 k uc).map contByte ++ out := by
  induction k generalizing n j uc out with
  | zero =>
    obtain ⟨m, rfl⟩ : ∃ m, n = m + 1 := ⟨n - 1, by omega⟩
    simp only [Nat.pow_zero, Nat.div_one, Nat.sub_zero] at hlast ⊢
    have hz : uc &&& complement (2 ^ j - 1) = 0 := by
      rw [and_complement (by omega) huc, Nat.div_eq_of_lt hlast, Nat.mul_zero]
    simp only [fillUtf8, hz, ne_eq, not_true_eq_false, if_false, lead_eq hj hlast]
    rfl
  | succ k ih =>
    obtain ⟨m, rfl⟩ : ∃ m, n = m + 1 := ⟨n - 1, by omega⟩
    obtain ⟨l, rfl⟩ : ∃ l, j = l + 1 := ⟨j - 1, by omega⟩
    have hnz : uc &&& complement (2 ^ (l + 1) - 1) ≠ 0 := by
      have hge : 2 ^ (l + 1) ≤ uc := by simpa using hmore 0 (by omega)
      have hdiv : 0 < uc / 2 ^ (l + 1) := Nat.div_pos hge (Nat.two_pow_pos _)
      rw [and_complement (by omega) huc]
      exact Nat.pos_iff_ne_zero.mp (Nat.mul_pos (Nat.two_pow_pos _) hdiv)
    have hmask : (2 ^ (l + 1) - 1) >>> 1 = 2 ^ l - 1 := by
      rw [Nat.shiftRight_eq_div_pow, Nat.pow_succ]
      omega
    have hshift : uc >>> 6 = uc / 64 := Nat.shiftRight_eq_div_pow uc 6
    have hdiv : ∀ i, uc / 64 / 64 ^ i = uc / 64 ^ (i + 1) := by
      intro i
      rw [Nat.div_div_eq_div_mul, Nat.pow_succ, Nat.mul_comm]
    have hrest := @ih l m (uc / 64) (UInt8.ofNat (0x80 + (uc &&& 0x3f)) :: out) (by omega)
      (by omega) (by omega) (by omega)
      (fun i hi => by
        rw [hdiv, show l - i = l + 1 - (i + 1) by omega]
        exact hmore (i + 1) (by omega))
      (by
        rw [hdiv, show l - k = l + 1 - (k + 1) by omega]
        exact hlast)
    have hand : uc &&& 0x3f = uc % 64 := Nat.and_two_pow_sub_one_eq_mod uc 6
    rw [fillUtf8, if_pos hnz, hmask, hshift, hrest, hdiv, hand, show l - k = l + 1 - (k + 1) by omega]
    simp [digits, contByte]

/-- The number of continuation bytes. -/
theorem exists_length {uc : Nat} (hlo : 0x80 ≤ uc) (hhi : uc < 0x80000000) :
    ∃ k, 1 ≤ k ∧ k ≤ 5 ∧ (∀ i < k, 2 ^ (6 - i) ≤ uc / 64 ^ i) ∧ uc / 64 ^ k < 2 ^ (6 - k) := by
  have hex : ∃ k, uc / 64 ^ k < 2 ^ (6 - k) := ⟨5, by omega⟩
  refine ⟨Nat.find hex, ?_, Nat.find_min' hex (by omega), ?_, Nat.find_spec hex⟩
  · rw [Nat.one_le_iff_ne_zero]
    intro h0
    have := Nat.find_spec hex
    rw [h0] at this
    omega
  · intro i hi
    exact Nat.not_lt.mp (Nat.find_min hex hi)

/-! ## Reading what was written -/

theorem continuation_digits {ds : List Nat} {acc : Nat} (rest : List UInt8)
    (hds : ∀ d ∈ ds, d < 64) (hval : value 64 acc ds < 2 ^ 32) :
    continuation ds.length acc (ds.map contByte ++ rest) = .ok (value 64 acc ds, rest) := by
  induction ds generalizing acc with
  | nil => rfl
  | cons d ds ih =>
    rw [List.forall_mem_cons] at hds
    obtain ⟨hc, hd⟩ := contByte_spec d hds.1
    have hor : acc <<< 6 ||| d = acc * 64 + d := by
      rw [← Nat.shiftLeft_add_eq_or_of_lt hds.1, Nat.shiftLeft_eq]
    have hacc : acc * 64 + d < 2 ^ 32 :=
      lt_of_le_of_lt (le_value (by decide) (acc * 64 + d) ds) hval
    simp only [List.map_cons, List.cons_append, List.length_cons, continuation, hc, hd, ne_eq,
      not_true_eq_false, if_false, hor, Nat.mod_eq_of_lt hacc]
    exact ih hds.2 hval

/-- A leading byte and its continuation bytes are read. -/
theorem fromUtf8_lead {k x : Nat} {ds : List Nat} (hk1 : 1 ≤ k) (hk5 : k ≤ 5)
    (hx : x < 2 ^ (6 - k)) (hlen : ds.length = k) (hds : ∀ d ∈ ds, d < 64)
    (hval : value 64 x ds < 2 ^ 32) (rest : List UInt8) :
    fromUtf8 (UInt8.ofNat (leadByte (6 - k) x) :: ds.map contByte ++ rest) =
      .ok (value 64 x ds, rest) := by
  obtain ⟨hones, hlt, hand⟩ := leadByte_spec (6 - k) (by omega) (by omega) _ hx
  have hnat : (UInt8.ofNat (leadByte (6 - k) x)).toNat = leadByte (6 - k) x := by
    rw [UInt8.toNat_ofNat']
    exact Nat.mod_eq_of_lt (by omega)
  have hcont := continuation_digits rest hds hval
  rw [hlen] at hcont
  have hneed : 7 - (6 - k) - 1 = k := by omega
  have hne : 7 - (6 - k) ≠ 1 := by omega
  simp only [List.cons_append, fromUtf8, hnat, hones, hand, hneed, hne, if_false]
  rw [if_neg (by simp [hlen]; omega)]
  exact hcont

/-- A code point of two to six bytes is read. -/
theorem fromUtf8_fillUtf8 {uc : Nat} (hlo : 0x80 ≤ uc) (hhi : uc < 0x80000000) :
    ∃ b bs, fillUtf8 6 uc 0x3f [] = b :: bs ∧
      ∀ rest, fromUtf8 (b :: bs ++ rest) = .ok (uc, rest) := by
  obtain ⟨k, hk1, hk5, hmore, hlast⟩ := exists_length hlo hhi
  have hfill := fillUtf8_eq (n := 6) (j := 6) [] (by omega) le_rfl (by omega) (by omega) hmore hlast
  rw [List.append_nil] at hfill
  refine ⟨_, _, hfill, ?_⟩
  intro rest
  have hval : value 64 (uc / 64 ^ k) (digits 64 k uc) = uc := value_digits k uc
  have hlt32 : value 64 (uc / 64 ^ k) (digits 64 k uc) < 2 ^ 32 := by
    rw [hval]
    omega
  have hlead := fromUtf8_lead hk1 hk5 hlast (length_digits k uc)
    (fun d => lt_of_mem_digits (by decide)) hlt32 rest
  rwa [hval] at hlead

theorem fromUtf8_ascii : ∀ uc < 0x80, ∀ rest, fromUtf8 (UInt8.ofNat uc :: rest) = .ok (uc, rest) := by
  have hones : ∀ uc < 0x80, leadingOnes (UInt8.ofNat uc).toNat 8 0 = (0, 0x80) ∧
      (UInt8.ofNat uc).toNat &&& (0x80 + (2 ^ 32 - 1)) % 2 ^ 32 = uc := by decide
  intro uc huc rest
  obtain ⟨h, hand⟩ := hones uc huc
  simp only [fromUtf8, h, hand]
  rfl

theorem codeBytes_utf8 {u : Int} (h0 : 0 ≤ u) :
    codeBytes true u =
      if u.toNat < 0x80 then [UInt8.ofNat u.toNat] else fillUtf8 6 u.toNat 0x3f [] := by
  have hneg : ¬ u < 0 := Int.not_lt.mpr h0
  simp only [codeBytes, appendunicode, hneg, if_false]
  rfl

/-- No byte of a code point is a separator or the start of a sequence. -/
theorem codeBytes_lt {u : Int} (h0 : 0 ≤ u) (hu : u < 2 ^ 31) :
    ∀ b ∈ codeBytes true u, b.toNat < 254 := by
  intro b hb
  rw [codeBytes_utf8 h0] at hb
  split at hb
  · rw [List.mem_singleton] at hb
    rw [hb, UInt8.toNat_ofNat']
    omega
  · obtain ⟨k, hk1, hk5, hmore, hlast⟩ := @exists_length u.toNat (by omega) (by omega)
    have hfill := fillUtf8_eq (n := 6) (j := 6) [] (by omega) le_rfl (by omega) (by omega) hmore hlast
    rw [show (0x3f : Nat) = 2 ^ 6 - 1 from rfl, hfill, List.append_nil, List.mem_cons] at hb
    rcases hb with rfl | hb
    · obtain ⟨-, hlead, -⟩ := leadByte_spec (6 - k) (by omega) (by omega) _ hlast
      rw [UInt8.toNat_ofNat']
      omega
    · obtain ⟨d, hd, rfl⟩ := List.mem_map.mp hb
      have hd64 : d < 64 := lt_of_mem_digits (by decide) hd
      rw [contByte, UInt8.toNat_ofNat']
      omega

theorem fromUtf8_codeBytes {u : Int} (h0 : 0 ≤ u) (hu : u < 2 ^ 31) (rest : List UInt8) :
    fromUtf8 (codeBytes true u ++ rest) = .ok (u.toNat, rest) := by
  rw [codeBytes_utf8 h0]
  split
  · rename_i hascii
    exact fromUtf8_ascii _ hascii rest
  · obtain ⟨b, bs, hfill, hdec⟩ := @fromUtf8_fillUtf8 u.toNat (by omega) (by omega)
    rw [hfill]
    exact hdec rest

/-! ## The values that are read -/

theorem continuation_lt {need uc v : Nat} {inp rest : List UInt8}
    (hroom : (uc + 1) * 64 ^ need ≤ 2 ^ 32) (h : continuation need uc inp = .ok (v, rest)) :
    v < (uc + 1) * 64 ^ need := by
  induction need generalizing uc inp with
  | zero =>
    cases h
    omega
  | succ need ih =>
    cases inp with
    | nil => cases h
    | cons uc2 inp =>
      rw [continuation] at h
      split at h
      · cases h
      have hand : uc2.toNat &&& 0x3f < 64 := Nat.and_lt_two_pow _ (n := 6) (by decide)
      have hor : uc <<< 6 ||| uc2.toNat &&& 0x3f = uc * 64 + (uc2.toNat &&& 0x3f) := by
        rw [← Nat.shiftLeft_add_eq_or_of_lt hand, Nat.shiftLeft_eq]
      have hstep : (uc * 64 + (uc2.toNat &&& 0x3f) + 1) * 64 ^ need ≤ (uc + 1) * 64 ^ (need + 1) := by
        rw [Nat.pow_succ, Nat.mul_comm (64 ^ need), ← Nat.mul_assoc]
        exact Nat.mul_le_mul_right _ (by omega)
      have hsmall : uc * 64 + (uc2.toNat &&& 0x3f) + 1 ≤ 2 ^ 32 :=
        le_trans (Nat.le_mul_of_pos_right _ (Nat.pow_pos (by decide))) (hstep.trans hroom)
      rw [hor, Nat.mod_eq_of_lt (by omega)] at h
      exact lt_of_lt_of_le (ih (hstep.trans hroom) h) hstep

/-- The values of the bytes that can lead a character. -/
theorem leadingOnes_room : ∀ b < 254,
    let (need, bit) := leadingOnes b 8 0
    (b &&& (bit + (2 ^ 32 - 1)) % 2 ^ 32) * 64 ^ (need - 1) + 64 ^ (need - 1) ≤ 2 ^ 31 := by
  decide +kernel

/-- After a byte that is no separator the value is never negative. -/
theorem fromUtf8_lt {b : UInt8} {inp rest : List UInt8} {uc : Nat} (hb : b.toNat < 254)
    (h : fromUtf8 (b :: inp) = .ok (uc, rest)) : uc < 2 ^ 31 := by
  have hroom := leadingOnes_room b.toNat hb
  rw [fromUtf8] at h
  simp only at h hroom
  split at h
  · cases h
  split at h
  · cases h
  rw [← Nat.succ_mul, Nat.succ_eq_add_one] at hroom
  exact lt_of_lt_of_le (continuation_lt (by omega) h) hroom

/-! ## Tokens -/

/-- A code point is read back, whatever follows. -/
theorem uniToken_codeBytes {utf8 : Bool} {u : Unicode} (h : Representable utf8 u)
    (rest : List UInt8) : uniToken utf8 (codeBytes utf8 u ++ rest) = .ok (.unichar u.toNat, rest) := by
  obtain ⟨h0, hlt⟩ := h
  obtain ⟨uc, rfl⟩ : ∃ uc : Nat, u = uc := ⟨u.toNat, (Int.toNat_of_nonneg h0).symm⟩
  have hneg : ¬ (uc : Int) < 0 := Int.not_lt.mpr h0
  cases utf8 with
  | false =>
    have huc : uc < 0xFFFE := Int.ofNat_lt.mp hlt
    have hlo : (UInt8.ofNat (uc &&& 0xff)).toNat = uc % 256 := by
      rw [UInt8.toNat_ofNat', show (0xff : Nat) = 2 ^ 8 - 1 from rfl, Nat.and_two_pow_sub_one_eq_mod]
      omega
    have hhi : (UInt8.ofNat (uc >>> 8 &&& 0xff)).toNat = uc / 256 := by
      rw [UInt8.toNat_ofNat', show (0xff : Nat) = 2 ^ 8 - 1 from rfl, Nat.and_two_pow_sub_one_eq_mod,
        Nat.shiftRight_eq_div_pow]
      omega
    have hor : uc % 256 ||| (uc / 256) <<< 8 = uc := by
      rw [Nat.or_comm, ← Nat.shiftLeft_add_eq_or_of_lt (Nat.mod_lt uc (by decide)), Nat.shiftLeft_eq]
      omega
    have hsep : uc ≠ 0xFFFF := by omega
    have hstart : uc ≠ 0xFFFE := by omega
    have hcode : codeBytes false uc =
        [UInt8.ofNat (uc &&& 0xff), UInt8.ofNat (uc >>> 8 &&& 0xff)] := by
      simp [codeBytes, appendunicode, hneg, Except.toOption]
    simp only [hcode, List.cons_append, List.nil_append, uniToken, assembleUcs2, hlo, hhi, hor]
    simp [hsep, hstart, bind, Except.bind, pure, Except.pure]
  | true =>
    have huc : uc < 0x80000000 := Int.ofNat_lt.mp hlt
    -- the first byte is neither separator, so the value is what `from_utf8` reads
    have hu : (uc : Int) < 2 ^ 31 := hlt
    have hread := fromUtf8_codeBytes h0 hu rest
    rcases hcode : codeBytes true uc with _ | ⟨b, bs⟩
    · rw [codeBytes_utf8 h0] at hcode
      split at hcode
      · cases hcode
      · obtain ⟨b, bs, hfill, -⟩ := @fromUtf8_fillUtf8 (uc : Int).toNat (by omega) (by omega)
        rw [hfill] at hcode
        cases hcode
    have hb : b.toNat < 254 := codeBytes_lt h0 hu b (by simp [hcode])
    have hsep : b ≠ 0xFF := by
      rintro rfl
      exact absurd hb (by decide)
    have hstart : b ≠ 0xFE := by
      rintro rfl
      exact absurd hb (by decide)
    rw [hcode, List.cons_append, Int.toNat_natCast] at hread
    simp [uniToken, hsep, hstart, assembleUtf8, hread, bind, Except.bind, pure, Except.pure]

end Kbd.Font
