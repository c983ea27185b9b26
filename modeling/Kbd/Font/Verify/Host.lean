import Kbd.Font.Host
import Kbd.Font.Verify.Psf

/-!
# What a PSF file owes to the host

On a host that stores the least significant byte first the writer and the reader here are those of the
model of `psffontop.c`. On one that stores it last, the reader gives the same; the writer puts the
bytes of the mark before a sequence of code points in the other order in the first format, and writes
everything else alike.
-/

namespace Kbd.Font

open Kbd.Lib (Endian Datum Writer)
open Kbd.Lib.Writer (Emits Prints Reaches reaches_flatten not_reaches)

namespace Host

/-! ## The objects that are written -/

theorem emits_appendunicode (u : Int) (utf8 : Bool) :
    Emits Datum.Uneven (appendunicode u utf8) False (0 ≤ u) := by
  rw [appendunicode, Font.appendunicode]
  by_cases hu : u < 0
  · rw [if_pos hu]
    exact (Emits.of_throw _).congr Iff.rfl (iff_of_false id (Int.not_le.mpr hu))
  · rw [if_neg hu]
    exact (Emits.of_emit _).congr (iff_false_intro (Datum.not_uneven_bytes _))
      (iff_of_true trivial (Int.not_lt.mp hu))

/-- Of the separators only the start of a sequence in the first format has two bytes that differ. -/
theorem emits_appendseparator (seq utf8 : Bool) :
    Emits Datum.Uneven (appendseparator seq utf8) (utf8 = false ∧ seq = true) True := by
  cases utf8 <;> cases seq <;> exact (Emits.of_emit _).congr (by decide) Iff.rfl

/-- The sequences that have a mark before them that depends on the host. -/
def UnevenSeq (utf8 : Bool) (us : List Unicode) : Prop := utf8 = false ∧ 2 ≤ us.length

/-- The sequences that `appendunicode` writes. -/
def Legal (us : List Unicode) : Prop := ∀ u ∈ us, 0 ≤ u

instance (utf8 : Bool) : DecidablePred (UnevenSeq utf8) :=
  fun _ => inferInstanceAs (Decidable (_ ∧ _))

instance : DecidablePred Legal := fun us => inferInstanceAs (Decidable (∀ u ∈ us, 0 ≤ u))

theorem emits_writeUniSeq (utf8 : Bool) (us : List Unicode) :
    Emits Datum.Uneven (writeUniSeq utf8 us) (UnevenSeq utf8 us) (Legal us) := by
  have hcodes := Emits.loop (fun u => emits_appendunicode u utf8) us
  have hnone : ¬ Reaches (fun _ => False) (fun u : Unicode => 0 ≤ u) us :=
    not_reaches fun _ _ => id
  rw [writeUniSeq]
  split
  · rename_i hlen
    refine ((emits_appendseparator true utf8).seq hcodes).congr ?_ (Iff.of_eq (true_and _))
    simp only [hnone, and_false, or_false, UnevenSeq, hlen, and_true]
  · rename_i hlen
    refine ((Emits.of_pure ()).seq hcodes).congr ?_ (Iff.of_eq (true_and _))
    simp only [hnone, and_false, or_false, UnevenSeq, hlen]

theorem emits_writeUniEntry (utf8 : Bool) (ul : UnicodeList) :
    Emits Datum.Uneven (writeUniEntry utf8 ul) (Reaches (UnevenSeq utf8) Legal ul)
      (∀ us ∈ ul, Legal us) := by
  refine ((Emits.loop (emits_writeUniSeq utf8) ul).seq (emits_appendseparator false utf8)).congr ?_
    (Iff.of_eq (and_true _))
  simp only [Bool.false_eq_true, and_false, or_false]

/-- The table has an uneven mark when the loops come to a sequence that needs one. -/
theorem emits_table (utf8 : Bool) (heads : List UnicodeList) :
    Emits Datum.Uneven (forM heads (writeUniEntry utf8))
      (Reaches (UnevenSeq utf8) Legal heads.flatten) (∀ ul ∈ heads, ∀ us ∈ ul, Legal us) :=
  (Emits.loop (emits_writeUniEntry utf8) heads).congr reaches_flatten Iff.rfl

theorem emits_kfontWritePsffont (fontbuf : List UInt8) (width height fontlen : Nat) (psftype : Int)
    (uclistheads : Option (List UnicodeList)) :
    ∃ passes, Emits Datum.Uneven
      (kfontWritePsffont fontbuf width height fontlen psftype uclistheads)
      (¬ (writtenCharsize width height = 0 ∧ fontlen ≠ 0) ∧
        Reaches (UnevenSeq (headerType width height fontlen psftype = 2)) Legal
          ((uclistheads.getD []).take fontlen).flatten) passes := by
  rw [kfontWritePsffont]
  split
  rename_i header psftype' hheader
  obtain rfl : headerType width height fontlen psftype = psftype' := congrArg Prod.snd hheader
  dsimp only
  have hheader := Emits.of_emit (ε := PsfErr) (D := Datum.Uneven) (Datum.bytes header)
  by_cases hcharsize : writtenCharsize width height = 0 ∧ fontlen ≠ 0
  · rw [if_pos hcharsize]
    refine ⟨_, (hheader.seq (Emits.of_throw _)).congr ?_ Iff.rfl⟩
    simp only [Datum.not_uneven_bytes, hcharsize, not_true, false_and, and_false, or_false, ne_eq,
      not_false_eq_true, and_self]
  · rw [if_neg hcharsize]
    have hbitmap := Emits.of_emit (ε := PsfErr) (D := Datum.Uneven)
      (Datum.bytes (fontbuf.take (writtenCharsize width height * fontlen)))
    have htable := emits_table (headerType width height fontlen psftype = 2)
      ((uclistheads.getD []).take fontlen)
    refine ⟨_, (hheader.seq (hbitmap.seq (htable.seq (Emits.of_pure _)))).congr ?_ Iff.rfl⟩
    simp only [Datum.not_uneven_bytes, hcharsize, not_false_eq_true, true_and, false_or, and_false,
      or_false]

/-- A file in the first format gets a mark before a sequence: the height is not zero, and the loops
come to a sequence of two code points before one that is refused. -/
def WritesStartSeq (width height fontlen : Nat) (psftype : Int)
    (uclistheads : Option (List UnicodeList)) : Prop :=
  headerType width height fontlen psftype ≠ 2 ∧ height ≠ 0 ∧
    Reaches (fun us => 2 ≤ us.length) Legal ((uclistheads.getD []).take fontlen).flatten

theorem writtenCharsize_of_psf1 {width height fontlen : Nat} {psftype : Int}
    (h : headerType width height fontlen psftype ≠ 2) :
    writtenCharsize width height = height ∧ fontlen ≠ 0 := by
  rw [headerType] at h
  split at h
  · exact absurd rfl h
  · rename_i hsize
    obtain ⟨hlen, rfl, hheight⟩ : (fontlen = 256 ∨ fontlen = 512) ∧ width = 8 ∧ height ≤ 32 := by
      omega
    have hbytewidth : (8 + 7) % 2 ^ 32 / 8 = 1 := rfl
    rw [writtenCharsize, hbytewidth, Nat.one_mul]
    omega

theorem unevenSeq_iff (width height fontlen : Nat) (psftype : Int)
    (uclistheads : Option (List UnicodeList)) :
    ¬ (writtenCharsize width height = 0 ∧ fontlen ≠ 0) ∧
        Reaches (UnevenSeq (headerType width height fontlen psftype = 2)) Legal
          ((uclistheads.getD []).take fontlen).flatten ↔
      WritesStartSeq width height fontlen psftype uclistheads := by
  by_cases htype : headerType width height fontlen psftype = 2
  · have hnone : ¬ Reaches (UnevenSeq true) Legal ((uclistheads.getD []).take fontlen).flatten :=
      not_reaches fun us _ h => Bool.noConfusion h.1
    simp only [htype, decide_true, hnone, and_false, WritesStartSeq, ne_eq, not_true, false_and]
  · obtain ⟨hcharsize, hlen⟩ := writtenCharsize_of_psf1 htype
    have hseq : UnevenSeq false = fun us => 2 ≤ us.length := by
      funext us
      exact propext (and_iff_right rfl)
    simp only [htype, decide_false, hseq, hcharsize, WritesStartSeq, ne_eq, hlen, not_false_eq_true,
      and_true, true_and]

/-- The files are the same when no such mark is written. -/
theorem writtenBytes_eq_iff (fontbuf : List UInt8) (width height fontlen : Nat) (psftype : Int)
    (uclistheads : Option (List UnicodeList)) :
    writtenBytes .big fontbuf width height fontlen psftype uclistheads =
        writtenBytes .little fontbuf width height fontlen psftype uclistheads ↔
      ¬ WritesStartSeq width height fontlen psftype uclistheads := by
  obtain ⟨passes, h⟩ := emits_kfontWritePsffont fontbuf width height fontlen psftype uclistheads
  obtain ⟨data, hstate, hmarks, -⟩ := h []
  rw [writtenBytes, writtenBytes, hstate, List.nil_append, Datum.flatMap_render_eq_iff, hmarks,
    unevenSeq_iff]

/-! ## The host that has the least significant byte first -/

theorem prints_appendunicode (host : Endian) (u : Int) (utf8 : Bool) :
    Prints (Datum.render host) (appendunicode u utf8) (Font.appendunicode u utf8) () := by
  rw [appendunicode]
  cases Font.appendunicode u utf8 with
  | error e => exact Prints.of_throw e ()
  | ok out => exact Prints.of_emit (Datum.bytes out)

theorem prints_appendseparator (seq utf8 : Bool) :
    Prints (Datum.render .little) (appendseparator seq utf8) (pure (Font.appendseparator seq utf8))
      () := by
  cases utf8 <;> cases seq <;> exact Prints.of_emit _

theorem prints_writeUniSeq (utf8 : Bool) (us : List Unicode) :
    Prints (Datum.render .little) (writeUniSeq utf8 us) (Font.writeUniSeq utf8 us) () := by
  have hcodes := Prints.loop (fun u => prints_appendunicode .little u utf8) us
  rw [writeUniSeq, Font.writeUniSeq]
  split
  · have h := (prints_appendseparator true utf8).seq hcodes
    simpa only [pure_bind, bind_assoc] using h
  · have h := (Prints.of_pure ()).seq hcodes
    simpa only [pure_bind, bind_assoc] using h

theorem prints_writeUniEntry (utf8 : Bool) (ul : UnicodeList) :
    Prints (Datum.render .little) (writeUniEntry utf8 ul) (Font.writeUniEntry utf8 ul) () := by
  have h := (Prints.loop (prints_writeUniSeq utf8) ul).seq (prints_appendseparator false utf8)
  rw [writeUniEntry, Font.writeUniEntry]
  simpa only [pure_bind, bind_assoc] using h

theorem prints_kfontWritePsffont (fontbuf : List UInt8) (width height fontlen : Nat) (psftype : Int)
    (uclistheads : Option (List UnicodeList)) :
    Prints (Datum.render .little)
      (kfontWritePsffont fontbuf width height fontlen psftype uclistheads)
      ((Font.kfontWritePsffont fontbuf width height fontlen psftype uclistheads).map Prod.fst)
      (headerType width height fontlen psftype = 2) := by
  obtain ⟨header, hheader⟩ : ∃ header, writepsffontheader width height fontlen psftype
      uclistheads.isSome ((uclistheads.map (hasSequences · fontlen)).getD false) =
        (header, headerType width height fontlen psftype) := ⟨_, rfl⟩
  dsimp only [kfontWritePsffont, Font.kfontWritePsffont]
  rw [hheader]
  dsimp only
  have hprint : Prints (ε := PsfErr) (Datum.render .little) (fwrite (.bytes header)) (pure header)
      () := Prints.of_emit _
  by_cases hcharsize : writtenCharsize width height = 0 ∧ fontlen ≠ 0
  · rw [if_pos hcharsize, if_pos hcharsize]
    exact hprint.seq (Prints.of_throw _ _)
  · rw [if_neg hcharsize, if_neg hcharsize]
    have hbitmap : Prints (ε := PsfErr) (Datum.render .little)
        (fwrite (.bytes (fontbuf.take (writtenCharsize width height * fontlen))))
        (pure (fontbuf.take (writtenCharsize width height * fontlen))) () := Prints.of_emit _
    have htable := Prints.loop (prints_writeUniEntry (headerType width height fontlen psftype = 2))
      ((uclistheads.getD []).take fontlen)
    have h := hprint.seq (hbitmap.seq (htable.seq
      (Prints.of_pure (decide (headerType width height fontlen psftype = 2)))))
    simp only [pure_bind, bind_assoc, List.append_nil] at h
    convert h using 1
    cases ((uclistheads.getD []).take fontlen).mapM
      (Font.writeUniEntry (headerType width height fontlen psftype = 2)) with
    | error e => rfl
    | ok table => exact congrArg Except.ok (List.append_assoc ..)

/-- A file that is written there is the one of `kfont_write_psffont`. -/
theorem writtenBytes_little {fontbuf : List UInt8} {width height fontlen : Nat} {psftype : Int}
    {uclistheads : Option (List UnicodeList)} {bytes : List UInt8} {utf8 : Bool}
    (h : Font.kfontWritePsffont fontbuf width height fontlen psftype uclistheads = .ok (bytes, utf8)) :
    writtenBytes .little fontbuf width height fontlen psftype uclistheads = bytes := by
  obtain ⟨data, hdata⟩ := prints_kfontWritePsffont fontbuf width height fontlen psftype uclistheads []
  rw [h] at hdata
  obtain ⟨hrun, hbytes⟩ := hdata
  rw [writtenBytes, hrun]
  exact hbytes

/-! ## What is read -/

theorem load_little {bytes : List UInt8} (h : 4 ≤ bytes.length) :
    Endian.load .little (bytes.take 4) = assembleUint32 bytes := by
  match bytes, h with
  | b0 :: b1 :: b2 :: b3 :: rest, _ =>
    rw [assembleUint32_cons]
    simp only [List.take, Endian.load, Lib.leValue]
    omega

theorem readPsfHeader_little (inputbuf : List UInt8) :
    readPsfHeader .little inputbuf = Font.readPsfHeader inputbuf := by
  rw [readPsfHeader, Font.readPsfHeader]
  by_cases hpsf2 : inputbuf.length ≥ 32 ∧ psf2Magic.isPrefixOf inputbuf
  · have hlen : 4 ≤ (inputbuf.drop 4).length := by
      rw [List.length_drop]
      omega
    rw [load_little hlen]
  · rw [if_neg hpsf2, if_neg hpsf2]

/-- The header says the same to every host, or none takes its version. -/
theorem readPsfHeader_cases (host : Endian) (inputbuf : List UInt8) :
    readPsfHeader host inputbuf = Font.readPsfHeader inputbuf ∨
      ∃ v v', readPsfHeader host inputbuf = .error (.unsupportedVersion v) ∧
        Font.readPsfHeader inputbuf = .error (.unsupportedVersion v') := by
  rw [← readPsfHeader_little, readPsfHeader, readPsfHeader]
  have hversion : host.load ((inputbuf.drop 4).take 4) = 0 ↔
      Endian.load .little ((inputbuf.drop 4).take 4) = 0 := by
    rw [Endian.load_eq_zero_iff, Endian.load_eq_zero_iff]
  split
  · exact Or.inl rfl
  · split
    · dsimp only
      by_cases h0 : Endian.load .little ((inputbuf.drop 4).take 4) = 0
      · rw [h0, hversion.mpr h0]
        exact Or.inl rfl
      · right
        refine ⟨_, _, if_pos ?_, if_pos ?_⟩
        · exact Nat.pos_of_ne_zero (mt hversion.mp h0)
        · exact Nat.pos_of_ne_zero h0
    · exact Or.inl rfl

theorem kfontReadPsffont_little (inputbuf : List UInt8) (fontpos0 : Nat)
    (uclistheads : Option (List UnicodeList)) :
    kfontReadPsffont .little inputbuf fontpos0 uclistheads =
      Font.kfontReadPsffont inputbuf fontpos0 uclistheads := by
  rw [kfontReadPsffont, readPsfHeader_little]
  rfl

/-- A failure as the caller sees it: the code is that of all data errors, and the message names the
version as the host reads it. -/
def returned : PsfErr → PsfErr
  | .unsupportedVersion _ => .unsupportedVersion 0
  | e => e

theorem kfontReadPsffont_returned (host : Endian) (inputbuf : List UInt8) (fontpos0 : Nat)
    (uclistheads : Option (List UnicodeList)) :
    (kfontReadPsffont host inputbuf fontpos0 uclistheads).mapError returned =
      (Font.kfontReadPsffont inputbuf fontpos0 uclistheads).mapError returned := by
  rw [kfontReadPsffont, Font.kfontReadPsffont]
  rcases readPsfHeader_cases host inputbuf with h | ⟨v, v', h, h'⟩
  · exact h ▸ rfl
  · rw [h, h']
    rfl

/-! ## Both directions -/

/-- A file is the same on both hosts, and so is what is read of any file. -/
def HostFree (fontbuf : List UInt8) (width height fontlen : Nat) (psftype : Int)
    (uclistheads : Option (List UnicodeList)) : Prop :=
  writtenBytes .big fontbuf width height fontlen psftype uclistheads =
      writtenBytes .little fontbuf width height fontlen psftype uclistheads ∧
    ∀ inputbuf fontpos0 heads,
      (kfontReadPsffont .big inputbuf fontpos0 heads).mapError returned =
        (kfontReadPsffont .little inputbuf fontpos0 heads).mapError returned

/-- The files differ exactly when a mark before a sequence is written in the first format. -/
theorem hostFree_iff (fontbuf : List UInt8) (width height fontlen : Nat) (psftype : Int)
    (uclistheads : Option (List UnicodeList)) :
    HostFree fontbuf width height fontlen psftype uclistheads ↔
      ¬ WritesStartSeq width height fontlen psftype uclistheads := by
  rw [HostFree, writtenBytes_eq_iff]
  apply and_iff_left
  intro inputbuf fontpos0 heads
  rw [kfontReadPsffont_returned, kfontReadPsffont_returned]

/-- 256 glyphs, the first of which is also an e with an accent. -/
def accentMap : List UnicodeList := [[0x65, 0x301]] :: List.replicate 255 []

theorem not_hostFree_accent :
    ¬ HostFree (List.replicate 4096 0) 8 16 256 1 (some accentMap) := by
  intro h
  have hseq : Reaches (fun us => 2 ≤ us.length) Legal
      (((some accentMap).getD []).take 256).flatten := Or.inl (Nat.le_refl 2)
  exact (writtenBytes_eq_iff ..).mp h.1 ⟨by decide, by decide, hseq⟩

end Host

end Kbd.Font
