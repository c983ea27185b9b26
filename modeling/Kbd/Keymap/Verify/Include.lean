import Kbd.Keymap.Verify.Parse
import Kbd.Lib.Slots
import Mathlib.Data.DFinsupp.WellFounded

/-!
# Included files

The files of a parse that starts with an empty stack: the slots of `ctx->stack` hold the open files
without a gap, the caller's at the bottom, each with its buffer, and the files that have been pushed
are the ones that have been freed and the ones that are open (`FilesInv`). Every parse ends
(`exists_parse`): a step takes characters from the current buffer, opens a file above it or closes
it, so the lengths of the buffers, from the bottom of the stack, decrease in the lexicographic
order.
-/

namespace Kbd.Keymap

open Kbd.Lib

/-- The files pushed for an include. -/
def pushedIds (events : List FileEvent) : List Nat :=
  events.filterMap fun
    | .pushed id => some id
    | _ => none

def freedIds (events : List FileEvent) : List Nat :=
  events.filterMap fun
    | .freed id => some id
    | _ => none

/-- The files `opened` are open, `fp` being the caller's. -/
structure FilesInv (fp : Kbdfile) (opened : List Kbdfile) (r : Reader) : Prop where
  le : opened.length ≤ maxIncludeDepth
  stack : r.stack = Slots.ofList maxIncludeDepth opened
  buffers : r.buffers.length = opened.length
  bottom : ∀ f ∈ opened.head?, f = fp
  perm : (pushedIds r.events).Perm (freedIds r.events ++ opened.tail.map Kbdfile.id)
  nodup : (pushedIds r.events).Nodup
  ids : ∀ id ∈ pushedIds r.events, fp.id < id ∧ id < r.nextId
  next : fp.id < r.nextId

section Files

variable {fp : Kbdfile} {fs : List Kbdfile} {r r' : Reader}

theorem FilesInv.depth (h : FilesInv fp fs r) : r.depth = fs.length := by
  have : r.depth = Slots.level r.stack := rfl
  rw [this, h.stack, Slots.level_ofList]

theorem FilesInv.of_same (h : FilesInv fp fs r) (hs : SameFiles r r') :
    FilesInv fp fs r' where
  le := h.le
  stack := hs.stack ▸ h.stack
  buffers := hs.buffers ▸ h.buffers
  bottom := h.bottom
  perm := hs.events ▸ h.perm
  nodup := hs.events ▸ h.nodup
  ids := by
    rw [hs.events, hs.nextId]
    exact h.ids
  next := hs.nextId ▸ h.next

theorem FilesInv.leave (h : FilesInv fp fs r) {buf rest : List Char} {bufs : List (List Char)}
    (hb : r.buffers = buf :: bufs) : FilesInv fp fs (r.leave rest) := by
  refine { h with buffers := ?_ }
  rw [← h.buffers, hb]
  simp [Reader.leave, hb]

theorem FilesInv.opened (h : FilesInv fp fs r) (hne : fs ≠ [])
    (hroom : r.depth ≠ maxIncludeDepth) {fp' : Kbdfile} (hid : fp'.id = r.nextId) :
    FilesInv fp (fs ++ [fp']) (r.opened fp') := by
  have hlt : fs.length < maxIncludeDepth := by
    have := h.le
    rw [h.depth] at hroom
    omega
  have hpushed : pushedIds (r.opened fp').events = pushedIds r.events ++ [fp'.id] := by
    simp [Reader.opened, pushedIds]
  have hfreed : freedIds (r.opened fp').events = freedIds r.events := by
    simp [Reader.opened, freedIds]
  have hnew : fp'.id ∉ pushedIds r.events := by
    intro hmem
    have := (h.ids _ hmem).2
    omega
  refine ⟨?_, ?_, ?_, ?_, ?_, ?_, ?_, ?_⟩
  · rw [List.length_append, List.length_singleton]
    omega
  · change r.stack.set r.depth (some fp') = _
    rw [h.depth, h.stack, Slots.set_push hlt]
  · change r.buffers.length + 1 = _
    rw [h.buffers, List.length_append, List.length_singleton]
  · rw [List.head?_append_of_ne_nil _ hne]
    exact h.bottom
  · rw [hpushed, hfreed, List.tail_append_of_ne_nil hne, List.map_append, ← List.append_assoc]
    exact h.perm.append_right _
  · rw [hpushed, List.nodup_append]
    refine ⟨h.nodup, List.nodup_singleton _, ?_⟩
    intro a ha b hb hab
    rw [List.mem_singleton] at hb
    exact hnew (hb ▸ hab ▸ ha)
  · rw [hpushed]
    intro id hmem
    change fp.id < id ∧ id < r.nextId + 1
    rcases List.mem_append.mp hmem with hmem | hmem
    · obtain ⟨h₁, h₂⟩ := h.ids id hmem
      exact ⟨h₁, by omega⟩
    · rw [List.mem_singleton.mp hmem, hid]
      exact ⟨h.next, by omega⟩
  · exact Nat.lt_succ_of_lt h.next

theorem FilesInv.skipped (h : FilesInv fp fs r) (fp' : Kbdfile) :
    FilesInv fp fs (r.skipped fp') := by
  have hpushed : pushedIds (r.skipped fp').events = pushedIds r.events := by
    simp [Reader.skipped, pushedIds]
  have hfreed : freedIds (r.skipped fp').events = freedIds r.events := by
    simp [Reader.skipped, freedIds]
  refine ⟨h.le, h.stack, h.buffers, h.bottom, ?_, ?_, ?_, Nat.lt_succ_of_lt h.next⟩
  · rw [hpushed, hfreed]
    exact h.perm
  · rw [hpushed]
    exact h.nodup
  · rw [hpushed]
    intro id hmem
    exact ⟨(h.ids id hmem).1, Nat.lt_succ_of_lt (h.ids id hmem).2⟩

/-- Closing the file on top frees it, unless it is the caller's. -/
theorem FilesInv.stackPop (h : FilesInv fp fs r) :
    FilesInv fp fs.dropLast r.stackPop := by
  rcases List.eq_nil_or_concat fs with rfl | ⟨xs, a, rfl⟩
  · have : r.stackPop = r := if_pos h.depth
    rw [this]
    exact h
  · have hlen : r.depth = xs.length + 1 := by rw [h.depth, List.length_concat]
    have hlt : xs.length < maxIncludeDepth := by
      have := h.le
      rw [List.length_concat] at this
      omega
    rw [List.concat_eq_append] at h ⊢
    rw [List.dropLast_concat]
    have htop : r.top = some a := by
      unfold Reader.top
      rw [hlen, h.stack, Nat.add_sub_cancel, Slots.getElem?_last]
      rfl
    have hpop : r.stackPop = { r with
        stack := r.stack.set (r.depth - 1) none
        buffers := r.buffers.tail
        events := r.events ++ (if r.depth = 1 then [] else (r.top.map (.freed ·.id)).toList) } :=
      if_neg (by omega)
    have hstack : r.stackPop.stack = Slots.ofList maxIncludeDepth xs := by
      rw [hpop, h.stack, hlen, Nat.add_sub_cancel]
      exact Slots.set_pop hlt a
    have hbuffers : r.stackPop.buffers.length = xs.length := by
      rw [hpop, List.length_tail, h.buffers, List.length_append]
      rfl
    have hnext : r.stackPop.nextId = r.nextId := by rw [hpop]
    cases xs with
    | nil =>
      -- the caller's file
      have hev : r.stackPop.events = r.events := by
        rw [hpop]
        simp [hlen]
      exact ⟨Nat.zero_le _, hstack, hbuffers, by simp, hev ▸ h.perm, hev ▸ h.nodup,
        by rw [hev, hnext]; exact h.ids, hnext ▸ h.next⟩
    | cons x xs =>
      have hev : r.stackPop.events = r.events ++ [.freed a.id] := by
        rw [hpop, htop]
        simp [hlen]
      have hpushed : pushedIds r.stackPop.events = pushedIds r.events := by
        simp [hev, pushedIds]
      have hfreed : freedIds r.stackPop.events = freedIds r.events ++ [a.id] := by
        simp [hev, freedIds]
      refine ⟨Nat.le_of_lt hlt, hstack, hbuffers, h.bottom, ?_, hpushed ▸ h.nodup,
        by rw [hpushed, hnext]; exact h.ids, hnext ▸ h.next⟩
      rw [hpushed, hfreed]
      refine h.perm.trans ?_
      simp only [List.cons_append, List.tail_cons, List.map_append, List.map_cons, List.map_nil,
        List.append_assoc]
      exact List.Perm.append_left _ List.perm_append_comm

/-- A step keeps the invariant. -/
theorem FilesInv.step (h : FilesInv fp fs r) (he : Effect r r') : ∃ fs', FilesInv fp fs' r' := by
  cases he with
  | idle _ hr => exact ⟨fs, hr ▸ h⟩
  | scan hb _ hs => exact ⟨fs, (h.leave hb).of_same hs⟩
  | @push _ rest _ fp' hb _ hid hdepth hr =>
    have hne : fs ≠ [] := by
      rintro rfl
      have := h.buffers
      simp [hb] at this
    exact ⟨fs ++ [fp'], hr ▸ (h.leave hb).opened hne hdepth hid⟩
  | skip hb _ _ _ hr => exact ⟨fs, hr ▸ (h.leave hb).skipped _⟩
  | pop _ hs => exact ⟨fs.dropLast, h.stackPop.of_same hs⟩

end Files

/-! ## Every parse ends -/

/-- `ctx->stack` when no file is open. -/
def emptyStack : List (Option Kbdfile) := List.replicate maxIncludeDepth none

/-- The reader at the start of a parse. -/
def startReader (ctx : LkCtx) (fp : Kbdfile) : Reader :=
  { newReader ctx emptyStack (fp.id + 1) with
    stack := emptyStack.set 0 (some fp)
    buffers := [fp.text] }

theorem lkParseKeymap_eq (find : FindIncl) (fuel : Nat) (ctx : LkCtx) (fp : Kbdfile) :
    lkParseKeymap find fuel ctx emptyStack fp =
      (Machine.run (readStep find) fuel (startReader ctx fp)).map
        fun res => (res.1, res.2.stackPop) := by
  have hdepth : (newReader ctx emptyStack (fp.id + 1)).depth = 0 := rfl
  have hpush : (newReader ctx emptyStack (fp.id + 1)).stackPush fp = some (startReader ctx fp) :=
    stackPush_of_room (by rw [hdepth]; decide) fp
  unfold lkParseKeymap
  rw [hpush]

theorem filesInv_start (ctx : LkCtx) (fp : Kbdfile) : FilesInv fp [fp] (startReader ctx fp) where
  le := show 1 ≤ maxIncludeDepth by decide
  stack := rfl
  buffers := rfl
  bottom := by simp
  perm := .refl _
  nodup := .nil
  ids := by simp [pushedIds, startReader, newReader]
  next := Nat.lt_succ_self _

/-- What is left of the buffers, from the bottom of the stack; a closed one counts as 0. -/
def remaining (r : Reader) (i : Fin maxIncludeDepth) : Nat :=
  (r.buffers.reverse.map (·.length + 1)).getD i 0

/-- The buffers below the current one are as before, and the current one is shorter or closed. -/
theorem remaining_lt {r r' : Reader} {buf : List Char} {bufs : List (List Char)}
    (hb : r.buffers = buf :: bufs) (hlen : bufs.length < maxIncludeDepth)
    (hr : r'.buffers = bufs ∨ ∃ top rest, r'.buffers = top ++ rest :: bufs ∧
      rest.length < buf.length) :
    Pi.Lex (· < ·) (fun {_} => (· < ·)) (remaining r') (remaining r) := by
  refine ⟨⟨bufs.length, hlen⟩, fun j hj => ?_, ?_⟩
  · have hj : (j : Nat) < bufs.length := hj
    unfold remaining
    rcases hr with hr | ⟨top, rest, hr, -⟩
    · rw [hr, hb]
      simp [List.getElem?_append_left, hj]
    · rw [hr, hb]
      simp [List.getElem?_append_left, hj]
  · unfold remaining
    rcases hr with hr | ⟨top, rest, hr, hlt⟩
    · rw [hr, hb]
      simp
    · rw [hr, hb]
      simpa [List.getElem?_append_left, List.getElem?_append_right] using hlt

theorem exists_run (find : FindIncl) (ctx : LkCtx) (fp : Kbdfile) :
    ∃ fuel res, Machine.run (readStep find) fuel (startReader ctx fp) = some res := by
  have hwf : WellFounded (Pi.Lex (· < ·) fun {_ : Fin maxIncludeDepth} => (· < · : Nat → Nat → Prop)) :=
    Pi.Lex.wellFounded _ fun _ => wellFounded_lt
  refine Machine.exists_run_of_measure hwf remaining (I := fun r => ∃ fs, FilesInv fp fs r) ?_
    ⟨[fp], filesInv_start ctx fp⟩
  rintro r r' ⟨fs, hfs⟩ hstep
  have he := readStep_effect find r
  rw [hstep] at he
  refine ⟨hfs.step he, ?_⟩
  have hlen {buf : List Char} {bufs : List (List Char)} (hb : r.buffers = buf :: bufs) :
      bufs.length < maxIncludeDepth := by
    have h₁ := hfs.le
    have h₂ := hfs.buffers
    rw [hb, List.length_cons] at h₂
    omega
  cases he with
  | idle hb _ =>
    rw [readStep_nil hb] at hstep
    cases hstep
  | @scan buf rest bufs hb hlt hs =>
    refine remaining_lt hb (hlen hb) (.inr ⟨[], rest, ?_, hlt⟩)
    exact hs.buffers.trans (by simp [Reader.leave, hb])
  | @push buf rest bufs fp' hb hlt _ _ hr =>
    refine remaining_lt hb (hlen hb) (.inr ⟨[fp'.text], rest, ?_, hlt⟩)
    exact (congrArg Reader.buffers hr).trans (by simp [Reader.opened, Reader.leave, hb])
  | @skip buf rest bufs fp' hb hlt _ _ hr =>
    refine remaining_lt hb (hlen hb) (.inr ⟨[], rest, ?_, hlt⟩)
    exact (congrArg Reader.buffers hr).trans (by simp [Reader.skipped, Reader.leave, hb])
  | @pop bufs hb hs =>
    refine remaining_lt hb (hlen hb) (.inl ?_)
    have hd : r.depth ≠ 0 := by
      rw [hfs.depth, ← hfs.buffers, hb]
      simp
    exact hs.buffers.trans (by simp [Reader.stackPop, hd, hb])

/-- `lk_parse_keymap` returns. -/
theorem exists_parse (find : FindIncl) (ctx : LkCtx) (fp : Kbdfile) :
    ∃ fuel res, lkParseKeymap find fuel ctx emptyStack fp = some res := by
  obtain ⟨fuel, res, h⟩ := exists_run find ctx fp
  exact ⟨fuel, (res.1, res.2.stackPop), by rw [lkParseKeymap_eq, h]; rfl⟩

/-! ## The files are released -/

section Last

variable {find : FindIncl} {fp : Kbdfile} {fs : List Kbdfile} {r r' : Reader} {ok : Bool}

/-- The last step leaves the open files as they are, except at the end of the caller's file. -/
theorem FilesInv.last (h : FilesInv fp fs r) (hr : readStep find r = .inr (ok, r')) :
    (ok = false ∧ FilesInv fp fs r') ∨ (fs.length = 1 ∧ FilesInv fp [] r') := by
  rcases hb : r.buffers with - | ⟨- | ⟨a, buf⟩, bufs⟩
  · rw [readStep_nil hb] at hr
    cases hr
    exact .inl ⟨rfl, h⟩
  · rw [readStep_eof hb] at hr
    split at hr
    · rename_i hnil
      have hsame : SameFiles r.stackPop r' := by
        have := feedToken_files r.stackPop .eof
        rwa [hr] at this
      have hzero : fs.dropLast.length = 0 := by rw [← h.stackPop.buffers, hnil]; rfl
      have hone : fs.length = 1 := by
        have := h.buffers
        rw [hb, List.length_cons] at this
        rw [List.length_dropLast] at hzero
        omega
      have hpop := h.stackPop.of_same hsame
      rw [List.length_eq_zero_iff.mp hzero] at hpop
      exact .inr ⟨hone, hpop⟩
    · cases hr
  · obtain ⟨hok, rest, hs⟩ := readStep_error hb hr
    exact .inl ⟨hok, (h.leave hb).of_same hs⟩

/-- All slots are empty, every file that was pushed for an include has been freed once, and the
caller's file has not been freed. -/
structure Released (fp : Kbdfile) (r : Reader) : Prop where
  slots : ∀ s ∈ r.stack, s = none
  once : ∀ id, .pushed id ∈ r.events → r.events.count (.freed id) = 1
  caller : .freed fp.id ∉ r.events

theorem mem_pushedIds {events : List FileEvent} {id : Nat} :
    id ∈ pushedIds events ↔ .pushed id ∈ events := by
  unfold pushedIds
  rw [List.mem_filterMap]
  constructor
  · rintro ⟨e, he, hid⟩
    cases e with
    | pushed id' =>
      cases hid
      exact he
    | skipped _ | freed _ => cases hid
  · intro h
    exact ⟨_, h, rfl⟩

theorem count_freedIds (events : List FileEvent) (id : Nat) :
    (freedIds events).count id = events.count (.freed id) := by
  induction events with
  | nil => rfl
  | cons e events ih =>
    cases e with
    | freed id' =>
      change (id' :: freedIds events).count id = _
      rw [List.count_cons, List.count_cons, ih]
      simp
    | pushed _ | skipped _ =>
      rw [List.count_cons_of_ne (by simp), ← ih]
      rfl

theorem FilesInv.released_iff (h : FilesInv fp fs r) : Released fp r ↔ fs = [] := by
  constructor
  · intro hrel
    have := hrel.slots
    rw [h.stack] at this
    exact Slots.forall_eq_none.mp this
  · rintro rfl
    have hperm : (pushedIds r.events).Perm (freedIds r.events) := by simpa using h.perm
    refine ⟨?_, fun id hid => ?_, fun hfree => ?_⟩
    · rw [h.stack]
      exact Slots.forall_eq_none.mpr rfl
    · rw [← count_freedIds, ← hperm.count_eq]
      exact List.count_eq_one_of_mem h.nodup (mem_pushedIds.mpr hid)
    · have hmem : fp.id ∈ freedIds r.events := by
        rw [← List.count_pos_iff, count_freedIds, List.count_pos_iff]
        exact hfree
      exact Nat.lt_irrefl _ (h.ids _ (hperm.mem_iff.mpr hmem)).1

end Last

/-- No error is met while an included file is open. -/
def NoErrorInInclude (find : FindIncl) (ctx : LkCtx) (fp : Kbdfile) : Prop :=
  ∀ s t, Machine.Steps (readStep find) (startReader ctx fp) s →
    readStep find s = .inr (false, t) → s.depth ≤ 1

theorem FilesInv.reached {find : FindIncl} {ctx : LkCtx} {fp : Kbdfile} {r : Reader}
    (h : Machine.Steps (readStep find) (startReader ctx fp) r) : ∃ fs, FilesInv fp fs r := by
  refine h.invariant (I := fun r => ∃ fs, FilesInv fp fs r) ?_ ⟨[fp], filesInv_start ctx fp⟩
  rintro s s' ⟨fs, hfs⟩ hstep
  have he := readStep_effect find s
  rw [hstep] at he
  exact hfs.step he

/-- `lk_parse_keymap` returns, and the files are released exactly if no error was met while an
included file was open. -/
theorem lkParseKeymap_released (find : FindIncl) (ctx : LkCtx) (fp : Kbdfile) :
    (∃ fuel res, lkParseKeymap find fuel ctx emptyStack fp = some res) ∧
    ∀ fuel ok r, lkParseKeymap find fuel ctx emptyStack fp = some (ok, r) →
      (Released fp r ↔ NoErrorInInclude find ctx fp) := by
  refine ⟨exists_parse find ctx fp, fun fuel ok r hparse => ?_⟩
  rw [lkParseKeymap_eq] at hparse
  obtain ⟨⟨ok', r'⟩, hrun, hr⟩ := Option.map_eq_some_iff.mp hparse
  simp only [Prod.mk.injEq] at hr
  obtain ⟨rfl, rfl⟩ := hr
  obtain ⟨s, hs, hlast⟩ := Machine.exists_last hrun
  obtain ⟨fs, hfs⟩ := FilesInv.reached hs
  rcases hfs.last hlast with ⟨rfl, hfs'⟩ | ⟨hlen, hfs'⟩
  · -- an error: the one call of `stack_pop` that follows closes one file
    have hdrop : fs.dropLast = [] ↔ fs.length ≤ 1 := by
      rw [← List.length_eq_zero_iff, List.length_dropLast]
      omega
    rw [hfs'.stackPop.released_iff, hdrop]
    constructor
    · intro hle s' t hs' ht
      rw [← Machine.last_unique hs hlast hs' ht, hfs.depth]
      exact hle
    · intro h
      rw [← hfs.depth]
      exact h s r' hs hlast
  · rw [hfs'.stackPop.released_iff]
    refine ⟨fun _ s' t hs' ht => ?_, fun _ => rfl⟩
    rw [← Machine.last_unique hs hlast hs' ht, hfs.depth, hlen]

/-- A file that includes another one. -/
def includer : Kbdfile := ⟨0, ['m'], bytes "include\"a\""⟩

/-- A file system in which every included file has the text `text`. -/
def findText (text : List Char) : FindIncl := fun _ _ => some (['a'], text)

theorem lkParseKeymap_released_include : ∃ r,
    lkParseKeymap (findText ['\n']) 6 (lkInit {} 0) emptyStack includer = some (true, r) ∧
      (Released includer r ↔ NoErrorInInclude (findText ['\n']) (lkInit {} 0) includer) := by
  have h : (lkParseKeymap (findText ['\n']) 6 (lkInit {} 0) emptyStack includer).any (·.1) := by
    decide +kernel
  obtain ⟨⟨ok, r⟩, hparse, hok⟩ := (Option.any_eq_true _ _).mp h
  change ok = true at hok
  subst hok
  exact ⟨r, hparse, (lkParseKeymap_released _ _ _).2 6 true r hparse⟩

/-- An error in the included file leaves the caller's file on the stack. -/
theorem not_lkParseKeymap_released :
    ¬ ∀ find fuel ctx fp ok r, lkParseKeymap find fuel ctx emptyStack fp = some (ok, r) →
      Released fp r := by
  intro hall
  have h : (lkParseKeymap (findText ['x']) 6 (lkInit {} 0) emptyStack includer).any
      fun res => decide (some includer ∈ res.2.stack) := by
    decide +kernel
  obtain ⟨⟨ok, r⟩, hparse, hmem⟩ := (Option.any_eq_true _ _).mp h
  have hslot := (hall _ _ _ _ _ _ hparse).slots (some includer) (of_decide_eq_true hmem)
  cases hslot

/-! ## Includes are expanded -/

/-- The scanner is at the file name `yytext` of an `include` directive. -/
def AtDirective (r : Reader) (yytext : List Char) : Prop :=
  ∃ a buf bufs n, r.buffers = (a :: buf) :: bufs ∧
    munch (rules r.cond) (a :: buf) = some (.inclFile, n) ∧ yytext = (a :: buf).take n

/-- The directive's file is opened and pushed, and its text is read next. -/
def Expanded (find : FindIncl) (r : Reader) (yytext : List Char) : Prop :=
  ∃ fp r', openInclude find r (inclName yytext) = some fp ∧ readStep find r = .inl r' ∧
    r'.stack[r.depth]? = some (some fp) ∧ r'.buffers.head? = some fp.text

section Directive

variable {find : FindIncl} {fp : Kbdfile} {fs : List Kbdfile} {r : Reader} {yytext : List Char}

/-- A directive whose file cannot be opened is an error, one whose file can be opened is expanded
if there is a free slot. -/
theorem FilesInv.directive (h : FilesInv fp fs r) (hd : AtDirective r yytext) :
    (∃ t, readStep find r = .inr (false, t)) ∨
      (Expanded find r yytext ↔ r.depth < maxIncludeDepth) := by
  obtain ⟨a, buf, bufs, n, hb, hm, rfl⟩ := hd
  have hstep : readStep find r = dispatch (lexAction find (r.leave ((a :: buf).drop _)) _ _) :=
    readStep_match hb hm
  simp only [lexAction] at hstep
  have hle : r.depth ≤ maxIncludeDepth := by
    rw [h.depth]
    exact h.le
  have hslots : r.stack.length = maxIncludeDepth := by
    have := h.le
    rw [h.stack]
    simp [Slots.ofList]
    omega
  rcases includeFile_cases find (r.leave ((a :: buf).drop (taken .inclFile n)))
    ((a :: buf).take n) with ⟨-, hi⟩ | ⟨fp', ho, ⟨hroom, hi⟩ | ⟨hfull, hi⟩⟩
  · left
    rw [hi] at hstep
    exact hstep ▸ feedToken_error _
  · right
    rw [hi] at hstep
    have hlt : r.depth < maxIncludeDepth := Nat.lt_of_le_of_ne hle hroom
    refine ⟨fun _ => hlt, fun _ => ⟨fp', _, ho, hstep, ?_, rfl⟩⟩
    change (r.stack.set r.depth (some fp'))[r.depth]? = _
    rw [List.getElem?_set_self (by omega)]
  · right
    rw [hi] at hstep
    constructor
    · rintro ⟨fp'', r', -, hr', hslot, -⟩
      rw [hstep] at hr'
      cases hr'
      change r.stack[r.depth]? = _ at hslot
      have hfull : r.depth = maxIncludeDepth := hfull
      rw [List.getElem?_eq_none (by omega)] at hslot
      cases hslot
    · intro hlt
      exact absurd hfull (Nat.ne_of_lt hlt)

end Directive

/-- In an accepted parse a directive that is reached is expanded exactly if there is a free slot. -/
theorem expanded_iff {find : FindIncl} {fuel : Nat} {ctx : LkCtx} {fp : Kbdfile} {r s : Reader}
    {yytext : List Char} (h : lkParseKeymap find fuel ctx emptyStack fp = some (true, r))
    (hs : Machine.Steps (readStep find) (startReader ctx fp) s) (hd : AtDirective s yytext) :
    Expanded find s yytext ↔ s.depth < maxIncludeDepth := by
  obtain ⟨fs, hfs⟩ := FilesInv.reached hs
  refine (hfs.directive hd).resolve_left ?_
  rintro ⟨t, ht⟩
  rw [lkParseKeymap_eq] at h
  obtain ⟨⟨ok, r'⟩, hrun, hr⟩ := Option.map_eq_some_iff.mp h
  obtain ⟨u, hu, hlast⟩ := Machine.exists_last hrun
  cases Machine.last_unique hs ht hu hlast
  rw [ht] at hlast
  cases hlast
  cases hr

/-- In an accepted parse every directive that is reached is expanded exactly if none is reached with
a full stack. -/
theorem lkParseKeymap_expands {find : FindIncl} {fuel : Nat} {ctx : LkCtx} {fp : Kbdfile}
    {r : Reader} (h : lkParseKeymap find fuel ctx emptyStack fp = some (true, r)) :
    (∀ s yytext, Machine.Steps (readStep find) (startReader ctx fp) s → AtDirective s yytext →
      Expanded find s yytext) ↔
    (∀ s yytext, Machine.Steps (readStep find) (startReader ctx fp) s → AtDirective s yytext →
      s.depth < maxIncludeDepth) := by
  constructor
  · intro hall s yytext hs hd
    exact (expanded_iff h hs hd).mp (hall s yytext hs hd)
  · intro hall s yytext hs hd
    exact (expanded_iff h hs hd).mpr (hall s yytext hs hd)

theorem lkParseKeymap_expands_include : ∃ r,
    lkParseKeymap (findText ['\n']) 6 (lkInit {} 0) emptyStack includer = some (true, r) ∧
      ((∀ s yytext, Machine.Steps (readStep (findText ['\n'])) (startReader (lkInit {} 0) includer) s →
        AtDirective s yytext → Expanded (findText ['\n']) s yytext) ↔
      (∀ s yytext, Machine.Steps (readStep (findText ['\n'])) (startReader (lkInit {} 0) includer) s →
        AtDirective s yytext → s.depth < maxIncludeDepth)) := by
  have h : (lkParseKeymap (findText ['\n']) 6 (lkInit {} 0) emptyStack includer).any (·.1) := by
    decide +kernel
  obtain ⟨⟨ok, r⟩, hparse, hok⟩ := (Option.any_eq_true _ _).mp h
  change ok = true at hok
  subst hok
  exact ⟨r, hparse, lkParseKeymap_expands hparse⟩

/-- A file that includes itself is accepted: the directive that is reached with a full stack is
skipped. -/
theorem not_lkParseKeymap_expands :
    ¬ ∀ find fuel ctx fp r, lkParseKeymap find fuel ctx emptyStack fp = some (true, r) →
      ∀ s yytext, Machine.Steps (readStep find) (startReader ctx fp) s → AtDirective s yytext →
        Expanded find s yytext := by
  intro hall
  have h : (lkParseKeymap (findText includer.text) 62 (lkInit {} 0) emptyStack includer).any
      (·.1) := by
    decide +kernel
  obtain ⟨⟨ok, r⟩, hparse, hok⟩ := (Option.any_eq_true _ _).mp h
  change ok = true at hok
  subst hok
  -- the state at the twentieth directive
  have hiter : (Machine.iterate (readStep (findText includer.text)) 39
      (startReader (lkInit {} 0) includer)).any fun s =>
        decide (s.depth = maxIncludeDepth ∧ s.buffers.head? = some (bytes "\"a\"") ∧
          s.cond = .inclstr) := by
    decide +kernel
  obtain ⟨s, hs, hprop⟩ := (Option.any_eq_true _ _).mp hiter
  obtain ⟨hdepth, hbuf, hcond⟩ := of_decide_eq_true hprop
  obtain ⟨bufs, hbufs⟩ := List.head?_eq_some_iff.mp hbuf
  have hmunch : munch (rules .inclstr) (bytes "\"a\"") = some (.inclFile, 3) := by decide +kernel
  have hreach := Machine.steps_of_iterate hs
  have hdir : AtDirective s ((bytes "\"a\"").take 3) :=
    ⟨'\x22', ['a', '\x22'], bufs, 3, hbufs, hcond ▸ hmunch, rfl⟩
  have hlt := (expanded_iff hparse hreach hdir).mp (hall _ _ _ _ _ hparse s _ hreach hdir)
  omega

end Kbd.Keymap
