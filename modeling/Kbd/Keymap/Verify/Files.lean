import Kbd.Keymap.Verify.FindIncl
import Kbd.Keymap.Verify.Include

/-!
# Several keymaps

`loadkeys` reads its files one after the other into one context. It does something with the keymap only
if it finds and accepts all of them, and then the lines of all files count as those of one
(`loadkeysMain_spec`).
-/

namespace Kbd.Keymap

open Kbd.Lib
open Kbd.File (Agrees PathsFit findfileInDir_eq found kbdfileFind kbdfileFind_agrees tryDirectory)

section

variable {find : FindIncl} {fuel : Nat}

/-- The files are accepted one after the other. -/
inductive Accepts (find : FindIncl) (fuel : Nat) : LkCtx → List Kbdfile → LkCtx → Prop where
  | nil (c : LkCtx) : Accepts find fuel c [] c
  | cons {c c' : LkCtx} {fp : Kbdfile} {fps : List Kbdfile} {r : Reader}
      (hfile : lkParseKeymap find fuel c (List.replicate maxIncludeDepth none) fp = some (true, r))
      (h : Accepts find fuel r.parser.ctx fps c') : Accepts find fuel c (fp :: fps) c'

/-- The lines of all files are run as those of one. -/
theorem Accepts.runStmts {c c' : LkCtx} {fps : List Kbdfile} (h : Accepts find fuel c fps c') :
    ∃ ss, (Keymap.runStmts ss).run c = .ok () c' := by
  induction h with
  | nil c => exact ⟨[], rfl⟩
  | cons hfile _ ih =>
    obtain ⟨ss, hss⟩ := ih
    exact ⟨_, runStmts_append_eq_ok.mpr ⟨_, runStmts_of_accepted hfile, hss⟩⟩

/-- Why the files after some that are accepted are not read. -/
inductive Stops (find : FindIncl) (fuel : Nat) (c : LkCtx) : List KeymapFile → Prop where
  /-- a file is not found -/
  | missing (rest : List KeymapFile) : Stops find fuel c (.missing :: rest)
  /-- a file is not accepted -/
  | rejected {fp : Kbdfile} {r : Reader} (rest : List KeymapFile)
      (hfile : lkParseKeymap find fuel c (List.replicate maxIncludeDepth none) fp = some (false, r)) :
      Stops find fuel c (.found fp :: rest)

variable {c : LkCtx} {rc : Bool} {files : List KeymapFile}

/-- Either all files are accepted, or those before the first one that is not found or not accepted. -/
theorem readFiles_spec {res : FilesRead} (h : readFiles find fuel c rc files = some res) :
    match res with
    | .accepted c' => ∃ fps : List Kbdfile, files = fps.map .found ∧ Accepts find fuel c fps c'
    | .stopped success => ∃ fps c' rest, files = fps.map .found ++ rest ∧ Accepts find fuel c fps c' ∧
        Stops find fuel c' rest ∧
        success = ((rc || !fps.isEmpty) && decide (rest.head? = some .missing)) := by
  induction files generalizing c rc with
  | nil =>
    cases h
    exact ⟨[], rfl, .nil c⟩
  | cons file files ih =>
    cases file with
    | missing =>
      cases h
      exact ⟨[], c, _, rfl, .nil c, .missing files, by simp⟩
    | closed => cases h
    | found fp =>
      rw [readFiles] at h
      cases hparse : lkParseKeymap find fuel c (List.replicate maxIncludeDepth none) fp with
      | none =>
        rw [hparse] at h
        cases h
      | some parsed =>
        obtain ⟨ok, r⟩ := parsed
        rw [hparse] at h
        cases ok with
        | false =>
          cases h
          exact ⟨[], c, _, rfl, .nil c, .rejected files hparse, by simp⟩
        | true =>
          have hrest := ih h
          cases res with
          | accepted c' =>
            obtain ⟨fps, rfl, hfps⟩ := hrest
            exact ⟨fp :: fps, rfl, .cons hparse hfps⟩
          | stopped success =>
            obtain ⟨fps, c', rest, rfl, hfps, hstops, hsuccess⟩ := hrest
            exact ⟨fp :: fps, c', rest, rfl, .cons hparse hfps, hstops, by simpa using hsuccess⟩

end

/-- `loadkeys` does something with the keymap only if all files are found and accepted, and this is the
keymap of the lines of all files. Otherwise it writes and requests nothing, and it succeeds only where a
file is not found after one that has been accepted. -/
theorem loadkeys_spec {keycodeZero : Bool} {host : Endian} {find : FindIncl} {fuel : Nat} {ioctl : Ioctl}
    {opts : LoadkeysOptions} {kbdMode : Option Int} {files : List KeymapFile} {run : ProgramRun}
    (h : loadkeys keycodeZero host find fuel ioctl opts kbdMode files = some run) :
    ((opts.unicode = true ∧ opts.ascii = true ∨ opts.console = true ∧ kbdMode = none) ∧
      run = { success := false }) ∨
    (∃ fps c ss, files = fps.map .found ∧ Accepts find fuel (lkInit (loadkeysFlags opts kbdMode)) fps c ∧
      (runStmts ss).run (lkInit (loadkeysFlags opts kbdMode)) = .ok () c ∧
      loadkeysAct keycodeZero host ioctl opts kbdMode c = some run) ∨
    ∃ fps c rest, files = fps.map .found ++ rest ∧
      Accepts find fuel (lkInit (loadkeysFlags opts kbdMode)) fps c ∧ Stops find fuel c rest ∧
      run = { success := !fps.isEmpty && decide (rest.head? = some .missing) } := by
  unfold loadkeys at h
  split at h
  · rename_i hopts
    cases h
    rw [Bool.and_eq_true] at hopts
    exact .inl ⟨.inl hopts, rfl⟩
  split at h
  · rename_i hconsole
    cases h
    rw [Bool.and_eq_true, Option.isNone_iff_eq_none] at hconsole
    exact .inl ⟨.inr hconsole, rfl⟩
  right
  cases hfiles : readFiles find fuel (lkInit (loadkeysFlags opts kbdMode)) false files with
  | none =>
    rw [hfiles] at h
    cases h
  | some res =>
    rw [hfiles] at h
    have hspec := readFiles_spec hfiles
    cases res with
    | accepted c =>
      obtain ⟨fps, hfps, haccepts⟩ := hspec
      obtain ⟨ss, hss⟩ := haccepts.runStmts
      exact .inl ⟨fps, c, ss, hfps, haccepts, hss, h⟩
    | stopped success =>
      obtain ⟨fps, c, rest, hsplit, haccepts, hstops, hsuccess⟩ := hspec
      cases h
      exact .inr ⟨fps, c, rest, hsplit, haccepts, hstops, by rw [hsuccess, Bool.false_or]⟩

/-! ## The files that are there -/

/-- The file of an argument is the one that the search finds. -/
def KeymapEnv.Stands (env : KeymapEnv) : KeymapArg → KeymapFile → Prop
  | .stdin, file => file = .found { id := 0, pathname := bytes "<stdin>", text := env.stdin }
  | .stdinAgain, file => file = .closed
  | .named name, file =>
    match found env.fs name env.dirpath keymapSuffixes with
    | some place => ∃ path, file = .found { id := 0, pathname := path, text := env.content place } ∧
        env.fs.fileAt path = some place
    | none => file = .missing

section

variable {env : KeymapEnv}

theorem KeymapEnv.stands_openArg {arg : KeymapArg}
    (hfit : ∀ name, arg = .named name → PathsFit env.fs name env.dirpath keymapSuffixes) :
    env.Stands arg (env.openArg arg) := by
  cases arg with
  | stdin => rfl
  | stdinAgain => rfl
  | named name =>
    have hagrees := @kbdfileFind_agrees env.fs name env.dirpath keymapSuffixes (hfit name rfl)
      { pathname := [], fd := none } rfl
    unfold KeymapEnv.Stands KeymapEnv.openArg
    dsimp only
    generalize kbdfileFind env.fs name env.dirpath keymapSuffixes { pathname := [], fd := none } = res
      at hagrees ⊢
    obtain ⟨rc, fp⟩ := res
    generalize found env.fs name env.dirpath keymapSuffixes = r at hagrees ⊢
    cases r with
    | some place =>
      obtain ⟨hrc, hfd, hpath⟩ := hagrees
      refine ⟨fp.pathname, (if_pos hrc).trans ?_, hpath⟩
      dsimp only at hfd
      rw [hfd]
    | none => exact if_neg hagrees.1

/-- `loadkeys` does something with the keymap only if the search finds all files and all are accepted, and
this is the keymap of the lines of all files. Otherwise it writes and requests nothing, and it succeeds only
where the search does not find a file after one that has been accepted. -/
theorem loadkeysMain_spec {keycodeZero : Bool} {host : Endian} {fuel : Nat} {ioctl : Ioctl}
    {opts : LoadkeysOptions} {kbdMode : Option Int} {dflt : Bool} {argv : List (List Char)}
    {run : ProgramRun} (hfit : ∀ name, .named name ∈ env.args dflt argv →
      PathsFit env.fs name env.dirpath keymapSuffixes)
    (h : loadkeysMain env keycodeZero host fuel ioctl opts kbdMode dflt argv = some run) :
    ((opts.unicode = true ∧ opts.ascii = true ∨ opts.console = true ∧ kbdMode = none) ∧
      run = { success := false }) ∨
    (∃ fps c ss, List.Forall₂ env.Stands (env.args dflt argv) (fps.map .found) ∧
      Accepts (env.find env.content) fuel (lkInit (loadkeysFlags opts kbdMode)) fps c ∧
      (runStmts ss).run (lkInit (loadkeysFlags opts kbdMode)) = .ok () c ∧
      loadkeysAct keycodeZero host ioctl opts kbdMode c = some run) ∨
    ∃ fps c rest, List.Forall₂ env.Stands (env.args dflt argv) (fps.map .found ++ rest) ∧
      Accepts (env.find env.content) fuel (lkInit (loadkeysFlags opts kbdMode)) fps c ∧
      Stops (env.find env.content) fuel c rest ∧
      run = { success := !fps.isEmpty && decide (rest.head? = some .missing) } := by
  have hstands : List.Forall₂ env.Stands (env.args dflt argv)
      ((env.args dflt argv).map env.openArg) := by
    rw [List.forall₂_map_right_iff, List.forall₂_same]
    exact fun arg harg => KeymapEnv.stands_openArg fun name hname => hfit name (hname ▸ harg)
  rcases loadkeys_spec h with hopts | ⟨fps, c, ss, hfps, hread⟩ | ⟨fps, c, rest, hsplit, hread⟩
  · exact .inl hopts
  · exact .inr (.inl ⟨fps, c, ss, hfps ▸ hstands, hread⟩)
  · exact .inr (.inr ⟨fps, c, rest, hsplit ▸ hstands, hread⟩)

end

/-- A user with a keymap on the standard input and one in a file. -/
def userKeymapEnv : KeymapEnv where
  toInclEnv := userEnv
  kerndir := bytes "/l"
  defmap := bytes "defkeymap.map"
  keymapPath := some (bytes "/d")
  content := fun _ => bytes "keycode 31 = F2\n"
  stdin := bytes "keycode 30 = F1\n"

theorem args_userKeymapEnv : userKeymapEnv.args false [bytes "-", bytes "f.inc"] =
    [.stdin, .named (bytes "f.inc")] := by decide

/-- The search finds the file. -/
theorem openArg_userKeymapEnv : userKeymapEnv.openArg (.named (bytes "f.inc")) =
    .found ⟨0, bytes "/d/f.inc", bytes "keycode 31 = F2\n"⟩ := by
  have hdirs : userKeymapEnv.dirpath = [bytes "/d"] := rfl
  have htry (fp : Kbd.File.Kbdfile) :
      tryDirectory userKeymapEnv.fs (bytes "f.inc") keymapSuffixes fp (bytes "/d") =
        .error ⟨bytes "/d/f.inc", some [bytes "d", bytes "f.inc"]⟩ := by
    rw [tryDirectory, findfileInDir_eq]
    rfl
  simp only [KeymapEnv.openArg, kbdfileFind, hdirs, List.foldlM_cons, htry]
  rfl

theorem loadkeysMain_spec_user : ∃ fps c ss run,
    List.Forall₂ userKeymapEnv.Stands [.stdin, .named (bytes "f.inc")] (fps.map .found) ∧
    Accepts (userKeymapEnv.find userKeymapEnv.content) 40
      (lkInit (loadkeysFlags { tkeymap := some .default } none)) fps c ∧
    (runStmts ss).run (lkInit (loadkeysFlags { tkeymap := some .default } none)) = .ok () c ∧
    loadkeysAct false .little (fun _ _ => none) { tkeymap := some .default } none c = some run ∧
    run.success = true := by
  obtain ⟨run, hrun, hsuccess, houtput⟩ : ∃ run, loadkeysMain userKeymapEnv false .little 40
      (fun _ _ => none) { tkeymap := some .default } none false [bytes "-", bytes "f.inc"] =
        some run ∧ run.success = true ∧ run.output ≠ [] := by
    have hany : (loadkeysMain userKeymapEnv false .little 40 (fun _ _ => none)
        { tkeymap := some .default } none false [bytes "-", bytes "f.inc"]).any
          fun run => run.success && decide (run.output ≠ []) := by
      rw [loadkeysMain, args_userKeymapEnv, List.map_cons, List.map_singleton,
        openArg_userKeymapEnv]
      decide +kernel
    obtain ⟨run, hrun, hchecked⟩ := (Option.any_eq_true _ _).mp hany
    rw [Bool.and_eq_true, decide_eq_true_eq] at hchecked
    exact ⟨run, hrun, hchecked⟩
  have hfit : ∀ name, .named name ∈ userKeymapEnv.args false [bytes "-", bytes "f.inc"] →
      PathsFit userKeymapEnv.fs name userKeymapEnv.dirpath keymapSuffixes := by
    intro name hname
    rw [args_userKeymapEnv] at hname
    rcases List.mem_pair.mp hname with hno | hname
    · cases hno
    · cases hname
      exact pathsFit_userTree (by decide) (by decide) (by decide) keymapSuffixes
  rcases loadkeysMain_spec hfit hrun with
    ⟨-, rfl⟩ | ⟨fps, c, ss, hstands, haccepts, hss, hact⟩ | ⟨_, _, _, _, _, _, rfl⟩
  · exact absurd rfl houtput
  · exact ⟨fps, c, ss, run, args_userKeymapEnv ▸ hstands, haccepts, hss, hact, hsuccess⟩
  · exact absurd rfl houtput

end Kbd.Keymap
