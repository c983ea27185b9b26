import Kbd.Font.Verify.Sizes
import Kbd.Lib.Result

/-!
# The requests that load a font

What `kfont_load_font` and `kfont_load_fonts` send to the kernel is in the trace, also when a request
fails in the end. A font goes out in one `KDFONTOP` request, or in a second one with the number of
glyphs rounded up.
-/

namespace Kbd.Font

open Kbd.Lib

/-- The requests made when some code has run, however it ends. -/
def finalTrace {α : Type} (m : Kfont α) (tr : Trace) : Trace := Result.state (m.run tr)

theorem finalTrace_bind_of_ok {α β : Type} {m : Kfont α} {f : α → Kfont β} {tr tr' : Trace} {a : α}
    (h : m.run tr = .ok a tr') : finalTrace (m >>= f) tr = finalTrace (f a) tr' := by
  rw [finalTrace, Result.bind_of_ok h]
  rfl

theorem finalTrace_of_ok {α : Type} {m : Kfont α} {tr tr' : Trace} {a : α}
    (h : m.run tr = .ok a tr') : finalTrace m tr = tr' := by
  rw [finalTrace, h]
  rfl

theorem finalTrace_bind_of_error {α β : Type} {m : Kfont α} {f : α → Kfont β} {tr tr' : Trace}
    {e : KfontErr} (h : m.run tr = .error e tr') : finalTrace (m >>= f) tr = tr' := by
  rw [finalTrace, Result.bind_of_error h]
  rfl

/-- The height that `try_loadfont` gives to `kfont_put_font`. -/
def loadedHeight (double : Bool) (height hwunit : Nat) : Nat :=
  let hwunit := if hwunit = 0 then height else hwunit
  if double then u32 (2 * hwunit) else hwunit

section Load

variable {width height fontsize : Nat} {inbuf : List UInt8}

/-- A font whose buffer fits is filled in and sent. -/
theorem Loadable.doLoadfont_eq (h : Loadable width height) (doubleSize : Bool)
    (hin : fontsize * (height * ((width + 7) / 8)) ≤ inbuf.length)
    (hpad : paddedSize (doubles doubleSize width height) width height fontsize < 2 ^ 32) :
    ∃ buf, Filled (doubles doubleSize width height) inbuf width height fontsize buf ∧
      ∀ k hwunit, doLoadfont k doubleSize inbuf width height hwunit fontsize =
        kfontPutFont k buf fontsize (zoom (doubles doubleSize width height) * width)
          (loadedHeight (doubles doubleSize width height) height hwunit)
          (slotRows (doubles doubleSize width height) width height) := by
  have hfits := h.glyphFits doubleSize
  obtain ⟨buf, hbuf, hfilled⟩ := hfits.exists_filled hin hpad
  obtain ⟨buf', notBlank, hbuf', herase⟩ := (hfits.bufferSafe hin hpad).access
  rw [hbuf] at hbuf'
  cases hbuf'
  refine ⟨buf, hfilled, ?_⟩
  intro k hwunit
  have hheight : ¬ (height < 1 ∨ height > 128) := by
    have := h.height_pos
    have := h.height_le
    omega
  have hwidth : ¬ (width < 1 ∨ width > 64) := by
    have := h.width_pos
    have := h.width_le
    omega
  have hvpitch : (glyphSizes (doubles doubleSize width height) width height
      (loadPitch width height)).vpitch = slotRows (doubles doubleSize width height) width height := by
    rw [hfits.glyphSizes_eq]
  simp only [doLoadfont, tryLoadfont, if_neg hheight, if_neg hwidth, hbuf, herase, hvpitch,
    loadedHeight, zoom]
  cases doubles doubleSize width height <;> simp

end Load

variable {k : Kernel} {tr : Trace}

/-- A console that is in text mode. -/
def TextMode (k : Kernel) : Prop := ∀ tr, k.kdgetmode tr = .ok kdText

theorem isKdText_run (k : Kernel) (tr : Trace) :
    (isKdText k).run tr = .ok (decide (k.kdgetmode tr = .ok kdText)) (tr ++ [.kdgetmode]) := by
  have hget : (ioctlKdgetmode k).run tr = .ok (k.kdgetmode tr) (tr ++ [.kdgetmode]) := rfl
  rw [isKdText, Result.bind_of_ok hget]
  cases k.kdgetmode tr with
  | error e => rfl
  | ok mode =>
    change EStateM.Result.ok (decide (mode = kdText)) _ = _
    simp only [Except.ok.injEq]

theorem TextMode.isKdText_run (h : TextMode k) (tr : Trace) :
    (isKdText k).run tr = .ok true (tr ++ [.kdgetmode]) := by
  rw [Font.isKdText_run, h tr]
  rfl

theorem ioctlKdfontop_run (k : Kernel) (cfo : ConsoleFontOp) (tr : Trace) :
    (ioctlKdfontop k cfo).run tr = .ok (k.kdfontop tr cfo) (tr ++ [.kdfontop cfo]) := rfl

/-- A font is sent to a console in text mode and to no other. -/
theorem putFontKdfontop_requests (k : Kernel) (buf : List UInt8) (count width height vpitch : Nat)
    (tr : Trace) :
    if k.kdgetmode tr = .ok kdText then
      ∃ rest, finalTrace (putFontKdfontop k buf count width height vpitch) tr =
        tr ++ [.kdgetmode] ++ .kdfontop (putFontOp buf count width height vpitch) :: rest ∧
        ∀ r ∈ rest, ∃ cfo, r = .kdfontop cfo
    else (putFontKdfontop k buf count width height vpitch).run tr =
      .error .notText (tr ++ [.kdgetmode]) := by
  have hget := isKdText_run k tr
  split
  · rename_i htext
    rw [htext] at hget
    rw [putFontKdfontop, finalTrace_bind_of_ok hget]
    change ∃ rest, finalTrace (ioctlKdfontop k _ >>= _) _ = _ ∧ _
    rw [finalTrace_bind_of_ok (ioctlKdfontop_run k _ _)]
    have hnone : ∀ r ∈ ([] : Trace), ∃ cfo, r = Request.kdfontop cfo := by simp
    split
    · exact ⟨[], rfl, hnone⟩
    · exact ⟨[], rfl, hnone⟩
    · split
      · rw [finalTrace_bind_of_ok (ioctlKdfontop_run k _ _)]
        refine ⟨[.kdfontop (retryFontOp (putFontOp buf count width height vpitch) buf count)], ?_, ?_⟩
        · split <;> exact List.append_assoc _ _ _
        · intro r hr
          exact ⟨_, List.mem_singleton.mp hr⟩
      · exact ⟨[], rfl, hnone⟩
  · rename_i htext
    rw [decide_eq_false htext] at hget
    rw [putFontKdfontop, Result.bind_of_ok hget]
    rfl

section Put

variable (h : TextMode k) (buf : List UInt8) (count width height vpitch : Nat) (tr : Trace)
include h

/-- A font that the kernel accepts is sent once. -/
theorem TextMode.putFontKdfontop_ok {cfo : ConsoleFontOp}
    (hk : k.kdfontop (tr ++ [.kdgetmode]) (putFontOp buf count width height vpitch) = .ok cfo) :
    (putFontKdfontop k buf count width height vpitch).run tr =
      .ok () (tr ++ [.kdgetmode] ++ [.kdfontop (putFontOp buf count width height vpitch)]) := by
  rw [putFontKdfontop, Result.bind_of_ok (h.isKdText_run tr)]
  change EStateM.run (ioctlKdfontop k _ >>= _) _ = _
  rw [Result.bind_of_ok (ioctlKdfontop_run k _ _), hk]
  rfl

/-- A font that the kernel does not accept is sent a second time in one case. -/
theorem TextMode.putFontKdfontop_error {e : Errno}
    (hk : k.kdfontop (tr ++ [.kdgetmode]) (putFontOp buf count width height vpitch) = .error e) :
    finalTrace (putFontKdfontop k buf count width height vpitch) tr =
      tr ++ [.kdgetmode] ++ [.kdfontop (putFontOp buf count width height vpitch)] ++
        if e = .einval ∧ width = 8 ∧ count ≠ 256 ∧ count < 512 then
          [.kdfontop (retryFontOp (putFontOp buf count width height vpitch) buf count)] else [] := by
  rw [finalTrace, putFontKdfontop, Result.bind_of_ok (h.isKdText_run tr)]
  change Result.state (EStateM.run (ioctlKdfontop k _ >>= _) _) = _
  rw [Result.bind_of_ok (ioctlKdfontop_run k _ _), hk]
  by_cases hretry : e = .einval ∧ width = 8 ∧ count ≠ 256 ∧ count < 512
  · obtain ⟨rfl, hcond⟩ := hretry
    simp only [hcond, and_self, if_true, ne_eq, not_false_eq_true]
    rw [Result.bind_of_ok (ioctlKdfontop_run k _ _)]
    cases k.kdfontop _ (retryFontOp _ _ _) with
    | ok cfo => rfl
    | error e => rfl
  · rw [if_neg hretry, List.append_nil]
    cases e with
    | enosys => rfl
    | einval =>
      dsimp only
      rw [if_neg hretry]
      rfl
    | enospc => rfl
    | enomem => rfl
    | other n => rfl

/-- The requests of `put_font_kdfontop`: the second, if there is one, is as well for a font. -/
theorem TextMode.putFontKdfontop_trace :
    ∃ retry, finalTrace (putFontKdfontop k buf count width height vpitch) tr =
        tr ++ [.kdgetmode] ++ [.kdfontop (putFontOp buf count width height vpitch)] ++ retry ∧
      (retry = [] ∨ (width = 8 ∧ count ≠ 256 ∧ count < 512) ∧ retry =
        [.kdfontop (retryFontOp (putFontOp buf count width height vpitch) buf count)]) := by
  cases hk : k.kdfontop (tr ++ [.kdgetmode]) (putFontOp buf count width height vpitch) with
  | ok cfo =>
    refine ⟨[], ?_, Or.inl rfl⟩
    rw [finalTrace_of_ok (h.putFontKdfontop_ok buf count width height vpitch tr hk), List.append_nil]
  | error e =>
    refine ⟨_, h.putFontKdfontop_error buf count width height vpitch tr hk, ?_⟩
    split
    · rename_i hcond
      exact Or.inr ⟨hcond.2, rfl⟩
    · exact Or.inl rfl

end Put

/-! ## Maps -/

/-- After some requests, the only map that was sent is `ud`. -/
def SendsOnly (ud : List Unipair) (tr tr' : Trace) : Prop :=
  ∃ rest, tr' = tr ++ rest ∧ ∀ entries, .pioUnimap entries ∈ rest → entries = ud

/-- One round of `kfont_put_unicodemap`, with what follows when the map is refused. -/
theorem sendsOnly_round (k : Kernel) (ud : List Unipair) (hashlevel : Nat)
    (refused : Errno → Kfont Unit)
    (hrefused : ∀ e tr, SendsOnly ud tr (finalTrace (refused e) tr)) (tr : Trace) :
    ∃ rest, finalTrace (do
        match ← ioctlPioUnimapclr k hashlevel with
        | some e => throw (.pioUnimapclr e)
        | none =>
          match ← ioctlPioUnimap k ud with
          | none => pure ()
          | some e => refused e) tr = tr ++ rest ∧
      (∀ entries, .pioUnimap entries ∈ rest → entries = ud) ∧
      ((∀ tr n, k.pioUnimapclr tr n = none) → .pioUnimap ud ∈ rest) := by
  have hclr : (ioctlPioUnimapclr k hashlevel).run tr =
      .ok (k.pioUnimapclr tr hashlevel) (tr ++ [.pioUnimapclr hashlevel]) := rfl
  have hpio : ∀ tr, (ioctlPioUnimap k ud).run tr =
      .ok (k.pioUnimap tr ud) (tr ++ [.pioUnimap ud]) := fun _ => rfl
  rw [finalTrace_bind_of_ok hclr]
  cases hans : k.pioUnimapclr tr hashlevel with
  | some e =>
    refine ⟨[.pioUnimapclr hashlevel], rfl, by simp, ?_⟩
    intro hk
    rw [hk] at hans
    cases hans
  | none =>
    dsimp only
    rw [finalTrace_bind_of_ok (hpio _)]
    cases k.pioUnimap _ ud with
    | none => exact ⟨[.pioUnimapclr hashlevel, .pioUnimap ud], by simp; rfl, by simp, by simp⟩
    | some e =>
      obtain ⟨rest, htr, hrest⟩ := hrefused e (tr ++ [.pioUnimapclr hashlevel] ++ [.pioUnimap ud])
      refine ⟨.pioUnimapclr hashlevel :: .pioUnimap ud :: rest, ?_, ?_, by simp⟩
      · dsimp only
        rw [htr]
        simp
      · intro entries hmem
        rcases List.mem_cons.mp hmem with hmem | hmem
        · cases hmem
        rcases List.mem_cons.mp hmem with hmem | hmem
        · cases hmem
          rfl
        · exact hrest entries hmem

theorem sendsOnly_throw (ud : List Unipair) (e : KfontErr) (tr : Trace) :
    SendsOnly ud tr (finalTrace (throw e : Kfont Unit) tr) :=
  ⟨[], (List.append_nil tr).symm, by simp⟩

/-- Every map that `kfont_put_unicodemap` sends is the one it was given. -/
theorem putUnicodemapFrom_trace (k : Kernel) (ud : List Unipair) (tries hashlevel : Nat)
    (tr : Trace) :
    ∃ rest, finalTrace (putUnicodemapFrom k ud tries hashlevel) tr = tr ++ rest ∧
      (∀ entries, .pioUnimap entries ∈ rest → entries = ud) ∧
      ((∀ tr n, k.pioUnimapclr tr n = none) → .pioUnimap ud ∈ rest) := by
  induction tries generalizing hashlevel tr with
  | zero =>
    rw [putUnicodemapFrom]
    exact sendsOnly_round k ud hashlevel _ (fun e tr => sendsOnly_throw ud _ tr) tr
  | succ tries ih =>
    rw [putUnicodemapFrom]
    refine sendsOnly_round k ud hashlevel _ (fun e tr => ?_) tr
    dsimp only
    split
    · obtain ⟨rest, htr, hrest, -⟩ := ih (hashlevel + 1) tr
      exact ⟨rest, htr, hrest⟩
    · exact sendsOnly_throw ud _ tr

/-- A round of `kfont_put_unicodemap` that succeeds, at once or by what follows a refusal. -/
theorem putUnicodemap_round_ok {k : Kernel} {ud : List Unipair} {hashlevel : Nat}
    {refused : Errno → Kfont Unit} {tr tr' : Trace}
    (h : (do
        match ← ioctlPioUnimapclr k hashlevel with
        | some e => throw (.pioUnimapclr e)
        | none =>
          match ← ioctlPioUnimap k ud with
          | none => pure ()
          | some e => refused e : Kfont Unit).run tr = .ok () tr') :
    tr' = tr ++ [.pioUnimapclr hashlevel, .pioUnimap ud] ∨
      ∃ e, (refused e).run (tr ++ [.pioUnimapclr hashlevel, .pioUnimap ud]) = .ok () tr' := by
  obtain ⟨clr, tr₁, hclr, h⟩ := Result.bind_eq_ok.mp h
  cases hclr
  cases hans : k.pioUnimapclr tr hashlevel with
  | some e =>
    rw [hans] at h
    cases h
  | none =>
    rw [hans] at h
    obtain ⟨pio, tr₂, hpio, h⟩ := Result.bind_eq_ok.mp h
    cases hpio
    cases hans' : k.pioUnimap (tr ++ [.pioUnimapclr hashlevel]) ud with
    | none =>
      rw [hans'] at h
      cases h
      exact Or.inl (List.append_assoc _ _ _)
    | some e =>
      rw [hans', List.append_assoc] at h
      exact Or.inr ⟨e, h⟩

/-- A map that is accepted in the end has been sent right after the last clear. -/
theorem putUnicodemapFrom_ok {k : Kernel} {ud : List Unipair} {tries hashlevel : Nat} {tr tr' : Trace}
    (h : (putUnicodemapFrom k ud tries hashlevel).run tr = .ok () tr') :
    ∃ rest n, tr' = tr ++ rest ++ [.pioUnimapclr n, .pioUnimap ud] ∧
      ∀ r ∈ rest, (∃ m, r = .pioUnimapclr m) ∨ r = .pioUnimap ud := by
  induction tries generalizing hashlevel tr with
  | zero =>
    rw [putUnicodemapFrom] at h
    rcases putUnicodemap_round_ok h with rfl | ⟨e, h⟩
    · exact ⟨[], hashlevel, by rw [List.append_nil], by simp⟩
    · cases h
  | succ tries ih =>
    rw [putUnicodemapFrom] at h
    rcases putUnicodemap_round_ok h with rfl | ⟨e, h⟩
    · exact ⟨[], hashlevel, by rw [List.append_nil], by simp⟩
    · dsimp only at h
      split at h
      · obtain ⟨rest, n, rfl, hrest⟩ := ih h
        refine ⟨.pioUnimapclr hashlevel :: .pioUnimap ud :: rest, n, by simp, ?_⟩
        intro r hr
        rcases List.mem_cons.mp hr with rfl | hr
        · exact Or.inl ⟨_, rfl⟩
        rcases List.mem_cons.mp hr with rfl | hr
        · exact Or.inr rfl
        · exact hrest r hr
      · cases h

/-- What a successful `kfont_put_unicodemap` adds to the trace. -/
structure MapSent (ud : List Unipair) (tr tr' : Trace) : Prop where
  prefix_eq : tr'.take tr.length = tr
  only : ∀ entries, .pioUnimap entries ∈ tr'.drop tr.length → entries = ud
  cleared : ∃ n, .pioUnimapclr n ∈ tr'.drop tr.length
  sent : .pioUnimap ud ∈ tr'.drop tr.length

theorem kfontPutUnicodemap_sent {k : Kernel} {ud : List Unipair} {tr tr' : Trace}
    (h : (kfontPutUnicodemap k ud).run tr = .ok () tr') : MapSent ud tr tr' := by
  obtain ⟨rest, n, rfl, hrest⟩ := putUnicodemapFrom_ok h
  have hdrop : (tr ++ rest ++ [Request.pioUnimapclr n, Request.pioUnimap ud]).drop tr.length =
      rest ++ [Request.pioUnimapclr n, Request.pioUnimap ud] := by
    rw [List.append_assoc, List.drop_left]
  refine ⟨by rw [List.append_assoc, List.take_left], ?_, ⟨n, ?_⟩, ?_⟩
  · intro entries hmem
    rw [hdrop] at hmem
    rcases List.mem_append.mp hmem with hmem | hmem
    · rcases hrest _ hmem with ⟨m, hm⟩ | hm
      · cases hm
      · cases hm
        rfl
    · simpa using hmem
  · rw [hdrop]
    simp
  · rw [hdrop]
    simp

/-- A kernel that takes a map. -/
structure TakesMap (k : Kernel) (ps : List Unipair) : Prop where
  pioUnimapclr : ∀ tr n, k.pioUnimapclr tr n = none
  pioUnimap : ∀ tr, k.pioUnimap tr ps = none

theorem TakesMap.run {k : Kernel} {ps : List Unipair} (h : TakesMap k ps) (tr : Trace) :
    (kfontPutUnicodemap k ps).run tr = .ok () (tr ++ [.pioUnimapclr 0, .pioUnimap ps]) := by
  rw [kfontPutUnicodemap, putUnicodemapFrom]
  rw [Result.bind_of_ok (show (ioctlPioUnimapclr k 0).run tr = .ok none (tr ++ [.pioUnimapclr 0]) by
    rw [← h.pioUnimapclr tr 0]; rfl)]
  dsimp only
  rw [Result.bind_of_ok (show (ioctlPioUnimap k ps).run (tr ++ [.pioUnimapclr 0]) =
    .ok none (tr ++ [.pioUnimapclr 0] ++ [.pioUnimap ps]) by
      rw [← h.pioUnimap (tr ++ [.pioUnimapclr 0])]; rfl)]
  simp

end Kbd.Font
