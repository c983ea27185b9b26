import Kbd.Keymap.Load
import Kbd.Keymap.Verify.Constants

/-!
# The requests of `lk_load_keymap`

A console computation is described by what it adds to the trace: `Emits P` bounds the kind of the
requests, whatever their outcome. However the requests go, the keyboard mode that was switched for
the time of the loading is switched back after the last key entry (`lkLoadKeymap_mode`).
-/

namespace Kbd.Keymap

open Kbd.Lib

/-! ## Requests of a computation -/

section Requests

variable {α β : Type} {ioctl : Ioctl} {P : Request → Prop}

/-- `x` only adds requests of kind `P` to the trace. -/
def Emits (P : Request → Prop) (x : Console α) : Prop :=
  ∀ tr, ∃ ext, (x.run tr).2 = tr ++ ext ∧ ∀ q ∈ ext, P q.1

theorem console_run_bind (x : Console α) (f : α → Console β) (tr : Trace) :
    (x >>= f).run tr = (f (x.run tr).1).run (x.run tr).2 := rfl

theorem lkIoctl_run (req : Request) (tr : Trace) :
    (lkIoctl ioctl req).run tr = (ioctl tr req, tr ++ [(req, ioctl tr req)]) := rfl

theorem lkIoctl_then_run (req : Request) (a b : α) (tr : Trace) :
    (do if (← lkIoctl ioctl req).isSome then return a else return b : Console α).run tr =
      (if (ioctl tr req).isSome then a else b, tr ++ [(req, ioctl tr req)]) := by
  rw [console_run_bind]
  cases h : ioctl tr req with
  | none => simp only [lkIoctl_run, h]; rfl
  | some e => simp only [lkIoctl_run, h]; rfl

theorem Emits.pure (a : α) : Emits P (pure a : Console α) :=
  fun tr => ⟨[], (List.append_nil tr).symm, by simp⟩

theorem Emits.bind {x : Console α} {f : α → Console β} (hx : Emits P x) (hf : ∀ a, Emits P (f a)) :
    Emits P (x >>= f) := by
  intro tr
  obtain ⟨ext, he, hP⟩ := hx tr
  obtain ⟨ext', he', hP'⟩ := hf (x.run tr).1 (x.run tr).2
  refine ⟨ext ++ ext', ?_, ?_⟩
  · change ((f (x.run tr).1).run (x.run tr).2).2 = _
    rw [he', he, List.append_assoc]
  · intro q hq
    rcases List.mem_append.mp hq with hq | hq
    · exact hP q hq
    · exact hP' q hq

theorem Emits.lkIoctl {req : Request} (h : P req) : Emits P (lkIoctl ioctl req) :=
  fun tr => ⟨[(req, ioctl tr req)], rfl, by simpa using h⟩

theorem Emits.mono {Q : Request → Prop} {x : Console α} (h : ∀ r, P r → Q r) (hx : Emits P x) :
    Emits Q x := by
  intro tr
  obtain ⟨ext, he, hP⟩ := hx tr
  exact ⟨ext, he, fun q hq => h _ (hP q hq)⟩

end Requests

/-! ## The requests of each function -/

/-- A key entry. -/
def IsKdskbent : Request → Prop
  | .kdskbent .. => True
  | _ => False

/-- Neither a key entry nor a mode switch. -/
def IsOther : Request → Prop
  | .kdskbent .. => False
  | .kdskbmode _ => False
  | _ => True

section Emitted

variable (ioctl : Ioctl) (ctx : LkCtx)

theorem setKeymapTableFrom_emits (t : Nat) (ks : List Nat) (count : Nat) :
    Emits IsKdskbent (setKeymapTableFrom ioctl ctx t ks count) := by
  induction ks generalizing count with
  | nil => exact .pure _
  | cons k ks ih =>
    simp only [setKeymapTableFrom]
    split
    · exact ih count
    · split
      · exact ih count
      · refine .bind (.lkIoctl trivial) fun e => ?_
        rcases e with - | (- | - | - | n)
        · exact ih _
        · exact .pure _
        · exact .pure _
        · exact ih _
        · exact ih _

theorem clearByHand_emits (t : Nat) (ks : List Nat) :
    Emits IsKdskbent (clearByHand ioctl t ks) := by
  induction ks with
  | nil => exact .pure _
  | cons k ks ih =>
    refine .bind (.lkIoctl trivial) fun e => ?_
    rcases e with - | (- | - | - | n)
    · exact ih
    · exact .pure _
    · exact .pure _
    · by_cases ht : t ≥ 16
      · simp only [ht, ↓reduceIte]
        exact .pure _
      · simp only [ht, ↓reduceIte]
        exact .pure _
    · exact .pure _

theorem clearKeymapTable_emits (t : Nat) : Emits IsKdskbent (clearKeymapTable ioctl t) := by
  refine .bind (.lkIoctl trivial) fun e => ?_
  rcases e with - | (- | - | - | n)
  · exact .pure _
  · exact .pure _
  · exact .pure _
  · exact clearByHand_emits ioctl t _
  · exact .pure _

theorem setKeymapTables_emits (ts : List Nat) (count : Nat) :
    Emits IsKdskbent (setKeymapTables ioctl ctx ts count) := by
  induction ts generalizing count with
  | nil => exact .pure _
  | cons t ts ih =>
    simp only [setKeymapTables]
    split
    · refine .bind (setKeymapTableFrom_emits ioctl ctx t _ 0) fun ct => ?_
      cases ct with
      | none => exact .pure _
      | some ct => exact ih _
    · split
      · refine .bind (clearKeymapTable_emits ioctl t) fun ok => ?_
        cases ok with
        | true => exact ih _
        | false => exact .pure _
      · exact ih _

theorem deffuncsFrom_emits (is : List Nat) (ct : Nat) :
    Emits IsOther (deffuncsFrom ioctl ctx is ct) := by
  induction is generalizing ct with
  | nil => exact .pure _
  | cons i is ih =>
    simp only [deffuncsFrom]
    split
    · exact .bind (.lkIoctl trivial) fun e => ih _
    · split
      · exact .bind (.lkIoctl trivial) fun e => ih _
      · exact ih _

theorem defdiacs_emits : Emits IsOther (defdiacs ioctl ctx) := by
  simp only [defdiacs]
  generalize (if _ ≥ maxDiacr then _ else _ : Nat) = count
  split
  · refine .bind (.lkIoctl trivial) fun e => ?_
    cases e <;> exact .pure _
  · split
    · exact .pure _
    · refine .bind (.lkIoctl trivial) fun e => ?_
      cases e <;> exact .pure _

theorem loadRest_emits (keyct : Option Nat) : Emits IsOther (loadRest ioctl ctx keyct) := by
  cases keyct with
  | none => exact .pure _
  | some _ =>
    refine .bind (deffuncsFrom_emits ioctl ctx _ 0) fun _ => ?_
    split
    · exact .bind (defdiacs_emits ioctl ctx) fun _ => .pure _
    · exact .pure _

end Emitted

/-! ## The keyboard mode -/

/-- `set_keymap` in Unicode mode: nothing but the switch when it fails, else key entries between
the two switches. -/
theorem setKeymap_unicode (ioctl : Ioctl) {ctx : LkCtx} (hu : ctx.flags.unicodeMode = true)
    (mode : Int) (tr : Trace) :
    (∃ e, (setKeymap ioctl ctx mode).run tr = (none, tr ++ [(.kdskbmode kUnicode, some e)])) ∨
    ∃ r pre e', (setKeymap ioctl ctx mode).run tr =
        (r, tr ++ (.kdskbmode kUnicode, none) :: (pre ++ [(.kdskbmode mode, e')])) ∧
      ∀ q ∈ pre, IsKdskbent q.1 := by
  simp only [setKeymap, hu, ↓reduceIte]
  rw [console_run_bind]
  cases he : ioctl tr (.kdskbmode kUnicode) with
  | some e => exact .inl ⟨e, by simp only [lkIoctl_run, he]; rfl⟩
  | none =>
    right
    obtain ⟨pre, hpre, hP⟩ := setKeymapTables_emits ioctl ctx (List.range maxNrKeymaps) 0
      (tr ++ [(.kdskbmode kUnicode, none)])
    simp only [lkIoctl_run, he, Option.isSome_none, Bool.false_eq_true, ↓reduceIte]
    rw [console_run_bind, lkIoctl_then_run, hpre]
    exact ⟨_, pre, _, by simp only [List.append_assoc, List.singleton_append]; rfl, hP⟩

/-- The requests start with the switch to Unicode mode. After a successful switch the mode `kbdMode`
is requested last, with no key entry behind it; after a failed one there is no key entry at all, and
an error is returned. -/
def ModeRestored (kbdMode : Int) (res : Bool × Trace) : Prop :=
  ∃ e rest, res.2 = (.kdskbmode kUnicode, e) :: rest ∧
    (e = none → ∃ pre e' post, rest = pre ++ (.kdskbmode kbdMode, e') :: post ∧
      ∀ q ∈ post, IsOther q.1) ∧
    (e ≠ none → res.1 = false ∧ ∀ q ∈ res.2, ¬ IsKdskbent q.1)

/-- However the requests of `lk_load_keymap` go: either it fails before the first one, or the
keyboard mode is left as the caller wants it. -/
theorem lkLoadKeymap_mode (ioctl : Ioctl) (ctx : LkCtx) (hu : ctx.flags.unicodeMode = true)
    (kbdMode : Int) :
    ((∃ e c, lkAddConstants.run ctx = .error e c) ∧
      lkLoadKeymap ioctl ctx kbdMode = (false, [])) ∨
    ModeRestored kbdMode (lkLoadKeymap ioctl ctx kbdMode) := by
  unfold lkLoadKeymap
  cases hc : lkAddConstants.run ctx with
  | error e c => exact .inl ⟨⟨e, c, rfl⟩, rfl⟩
  | ok _ c =>
    right
    have hflags : c.flags = ctx.flags := (rowsUpdate_of_run hc).settings.flags
    have hu' : c.flags.unicodeMode = true := hflags ▸ hu
    simp only [loadTables, console_run_bind]
    rcases setKeymap_unicode ioctl hu' kbdMode [] with ⟨e, h⟩ | ⟨r, pre, e', h, -⟩
    · have hfail : (loadRest ioctl c none).run [(.kdskbmode kUnicode, some e)] =
          (false, [(.kdskbmode kUnicode, some e)]) := rfl
      rw [h, List.nil_append, hfail]
      refine ⟨some e, [], rfl, nofun, fun _ => ⟨rfl, fun q hq => ?_⟩⟩
      obtain rfl : q = (.kdskbmode kUnicode, some e) := by simpa using hq
      exact id
    · obtain ⟨post, hpost, hP⟩ := loadRest_emits ioctl c r
        ((.kdskbmode kUnicode, none) :: (pre ++ [(.kdskbmode kbdMode, e')]))
      rw [h, List.nil_append]
      refine ⟨none, pre ++ (.kdskbmode kbdMode, e') :: post, ?_, fun _ => ⟨pre, e', post, rfl, hP⟩,
        fun hn => absurd rfl hn⟩
      rw [hpost]
      simp

/-- A console that refuses every key entry. -/
theorem lkLoadKeymap_mode_eperm :
    let ioctl : Ioctl := fun _ req => if req matches .kdskbent .. then some .eperm else none
    let ctx := (lkInit { unicodeMode := true }).putKey 0 30 0x61
    lkAddConstants.run ctx = .ok () ctx ∧ ModeRestored 1 (lkLoadKeymap ioctl ctx 1) := by
  refine ⟨rfl, (lkLoadKeymap_mode _ _ rfl 1).resolve_left ?_⟩
  rintro ⟨⟨e, c, h⟩, -⟩
  cases h

end Kbd.Keymap
