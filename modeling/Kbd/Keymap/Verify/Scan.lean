import Kbd.Keymap.Verify.Parse

/-!
# Scanning a text

How the reader goes through a text that is known: blanks are skipped, and a word that is the longest
match at its place becomes its token. `Reads` says that it gets from one place of the text to
another; the places are taken up to blanks, since a run of them is one match.
-/

namespace Kbd.Keymap

open Kbd.Lib

/-! ## Blanks -/

/-- Blanks are skipped between tokens. -/
def IsBlank (c : Char) : Prop := c = ' ' ∨ c = '\t'

def Blanks (b : List Char) : Prop := ∀ c ∈ b, IsBlank c

/-- A text that does not go on with blanks. -/
def NoBlank (s : List Char) : Prop := ∀ c ∈ s.head?, ¬ IsBlank c

instance : DecidablePred IsBlank := fun _ => inferInstanceAs (Decidable (_ ∨ _))

theorem noBlank_cons {c : Char} {s : List Char} : NoBlank (c :: s) ↔ ¬ IsBlank c := by
  simp [NoBlank]

theorem blanks_nil : Blanks [] := by
  intro c hc
  cases hc

theorem Blanks.append {b b' : List Char} (h : Blanks b) (h' : Blanks b') : Blanks (b ++ b') := by
  intro c hc
  rcases List.mem_append.mp hc with hc | hc
  · exact h c hc
  · exact h' c hc

theorem blanks_replicate (n : Nat) : Blanks (List.replicate n ' ') := by
  intro c hc
  exact Or.inl (List.eq_of_mem_replicate hc)

theorem blanks_singleton {c : Char} (h : IsBlank c) : Blanks [c] := by
  intro d hd
  rwa [List.mem_singleton.mp hd]

theorem contains_blank {c : Char} : [' ', '\t'].contains c = true ↔ IsBlank c := by
  rw [List.contains_iff_mem, List.mem_cons, List.mem_singleton]
  rfl

/-- The start conditions of a line: none, or `RVALUE` after an equals sign. -/
def LineStart (st : List Start) : Prop := st = [] ∨ st = [.rvalue]

theorem advance_blank {st : List Start} (hst : LineStart st) {c : Char} (hc : IsBlank c) :
    advance (rules (st.headD .initial)) c = [(.blank, .star blankPat), (.any, .eps), (.echo, .eps)] := by
  rcases hst with rfl | rfl <;> rcases hc with rfl | rfl <;> rfl

/-- A run of blanks is one match. -/
theorem munch_blanks {st : List Start} (hst : LineStart st) {b s : List Char} (hb : Blanks b)
    (hne : b ≠ []) (hs : NoBlank s) :
    munch (rules (st.headD .initial)) (b ++ s) = some (.blank, b.length) := by
  obtain ⟨c, b, rfl⟩ := List.exists_cons_of_ne_nil hne
  refine munch_run (advance_blank hst (hb c List.mem_cons_self)) (by simp) ?_ ?_
  · intro d hd
    exact contains_blank.mpr (hb d (List.mem_cons_of_mem c hd))
  · intro d hd
    exact Bool.eq_false_iff.mpr (mt contains_blank.mp (hs d hd))

/-! ## Places -/

/-- How far a text has been read. -/
structure Place where
  parser : Parser
  start : List Start
  text : List Char

/-- The reader at a place of the current buffer. -/
def Reader.at (r : Reader) (q : Place) : Reader :=
  { r with parser := q.parser, start := q.start, buffers := q.text :: r.buffers.tail }

/-- The place before some more text. -/
def Place.after (q : Place) (b : List Char) : Place := { q with text := b ++ q.text }

/-- A word that is the longest match goes to the action of its rule. -/
theorem readStep_word (find : FindIncl) {r : Reader} {w s : List Char} {bufs : List (List Char)}
    {rule : Rule} (hb : r.buffers = (w ++ s) :: bufs) (hw : w ≠ [])
    (hm : munch (rules r.cond) (w ++ s) = some (rule, w.length)) (hrule : rule ≠ .comment) :
    readStep find r = dispatch (lexAction find (r.leave s) w rule) := by
  obtain ⟨c, w, rfl⟩ := List.exists_cons_of_ne_nil hw
  have htaken : taken rule (c :: w).length = (c :: w).length := if_neg hrule
  have hdrop : (c :: (w ++ s)).drop (c :: w).length = s := List.drop_left
  have htake : (c :: (w ++ s)).take (c :: w).length = c :: w := List.take_left
  rw [readStep_match hb hm, htaken]
  change dispatch (lexAction find (r.leave ((c :: (w ++ s)).drop (c :: w).length))
    ((c :: (w ++ s)).take (c :: w).length) rule) = _
  rw [hdrop, htake]

section Steps

variable (find : FindIncl) (r : Reader)

/-- Blanks are skipped. -/
theorem steps_blanks {q : Place} (hst : LineStart q.start) {b : List Char} (hb : Blanks b)
    (hs : NoBlank q.text) : Machine.Steps (readStep find) (r.at (q.after b)) (r.at q) := by
  by_cases hne : b = []
  · rw [hne]
    exact .refl _
  · have hm := munch_blanks hst hb hne hs
    exact .single (@readStep_word find (r.at (q.after b)) b q.text _ _ rfl hne hm (by decide))

/-- A word that is the longest match becomes its token. -/
theorem steps_token {st st' : List Start} {p p₁ p' : Parser} {w s : List Char} {rule : Rule}
    {tok : Token} (hw : w ≠ [])
    (hm : munch (rules (st.headD .initial)) (w ++ s) = some (rule, w.length))
    (hrule : rule ≠ .comment)
    (hact : lexAction find (r.at ⟨p, st, s⟩) w rule = (r.at ⟨p₁, st', s⟩, some tok))
    (htok : tok ≠ .eof) (hfeed : (feed tok).run p₁ = .ok () p') :
    Machine.Steps (readStep find) (r.at ⟨p, st, w ++ s⟩) (r.at ⟨p', st', s⟩) := by
  have hstep := @readStep_word find (r.at ⟨p, st, w ++ s⟩) w s _ _ rfl hw hm hrule
  refine .single ?_
  rw [hstep]
  change dispatch (lexAction find (r.at ⟨p, st, s⟩) w rule) = _
  rw [hact]
  exact feedToken_of_run (r := r.at ⟨p₁, st', s⟩) htok hfeed

end Steps

/-! ## From one place to another -/

/-- From one place, whatever blanks are before it, the reader gets to another, up to blanks. -/
def Reads (find : FindIncl) (r : Reader) (q q' : Place) : Prop :=
  ∀ b, Blanks b → ∃ b', Blanks b' ∧
    Machine.Steps (readStep find) (r.at (q.after b)) (r.at (q'.after b'))

namespace Reads

variable {find : FindIncl} {r : Reader}

theorem refl (q : Place) : Reads find r q q := fun b hb => ⟨b, hb, .refl _⟩

theorem trans {q₁ q₂ q₃ : Place} (h : Reads find r q₁ q₂) (h' : Reads find r q₂ q₃) :
    Reads find r q₁ q₃ := by
  intro b hb
  obtain ⟨b₁, hb₁, h₁⟩ := h b hb
  obtain ⟨b₂, hb₂, h₂⟩ := h' b₁ hb₁
  exact ⟨b₂, hb₂, h₁.trans h₂⟩

/-- Blanks only move the place. -/
theorem blanks {p : Parser} {st : List Start} {b : List Char} (hb : Blanks b) (s : List Char) :
    Reads find r ⟨p, st, b ++ s⟩ ⟨p, st, s⟩ := by
  intro b₀ hb₀
  refine ⟨b₀ ++ b, hb₀.append hb, ?_⟩
  rw [Place.after, Place.after, List.append_assoc]
  exact .refl _

/-- A word that is the longest match is read as its token. -/
theorem token {st st' : List Start} (hst : LineStart st) {p p₁ p' : Parser} {w s : List Char}
    {rule : Rule} {tok : Token} (hw : w ≠ []) (hblank : NoBlank w)
    (hm : munch (rules (st.headD .initial)) (w ++ s) = some (rule, w.length))
    (hrule : rule ≠ .comment)
    (hact : ∀ r : Reader, lexAction find (r.at ⟨p, st, s⟩) w rule = (r.at ⟨p₁, st', s⟩, some tok))
    (htok : tok ≠ .eof) (hfeed : (feed tok).run p₁ = .ok () p') :
    Reads find r ⟨p, st, w ++ s⟩ ⟨p', st', s⟩ := by
  intro b hb
  have hnb : NoBlank (w ++ s) := by
    intro c hc
    rw [List.head?_append_of_ne_nil w hw] at hc
    exact hblank c hc
  have h₁ := steps_blanks find r (q := ⟨p, st, w ++ s⟩) hst hb hnb
  have h₂ := steps_token find r hw hm hrule (hact r) htok hfeed
  exact ⟨[], blanks_nil, h₁.trans h₂⟩

end Reads

end Kbd.Keymap
