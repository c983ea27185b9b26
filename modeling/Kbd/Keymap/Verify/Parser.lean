import Kbd.Keymap.Parser
import Kbd.Keymap.Verify.Keymap

/-!
# The parser runs statements

Feeding tokens to the parser has the same effect on the context as running the statements it reads:
between two lines the context is that of `runStmts` on the lines read so far, and inside a `keymaps`
line it is one in which the ranges read so far have been added as well (`ParserInv`).
-/

namespace Kbd.Keymap

open Kbd.Lib

/-- The ranges of a `keymaps` line whose actions have been run. -/
def KeymapsState.done : KeymapsState → List Range
  | .range done => done
  | .number done _ => done
  | .dash done _ => done
  | .rangeEnd done => done

/-- The modifiers of a line. -/
def LineKind.mods : LineKind → List Modifier
  | .modified mods => mods
  | .plain => []

def LineState.mods : LineState → List Modifier
  | .modifiers mods => mods
  | .plain => []
  | .keycode kind => kind.mods
  | .number kind _ => kind.mods
  | .equals kind _ => kind.mods
  | .plus kind _ => kind.mods
  | .value kind _ _ => kind.mods

def PState.mods : PState → List Modifier
  | .line s => s.mods
  | _ => []

/-- The context `d` inside a line, when `c` is the context before the line. -/
def Pending (c d : LkCtx) : PState → Prop
  | .keymaps s => (forM s.done range0).run c = .ok () d
  | _ => d = c

/-- The parser has run the statements it has read. -/
structure ParserInv (c₀ : LkCtx) (p : Parser) : Prop where
  run : ∃ c, (runStmts p.stmts).run c₀ = .ok () c ∧ Pending c p.ctx p.state
  mod : p.mod = modMask p.state.mods
  keyLine : p.keyLine.length ≤ maxNrKeymaps

theorem modMask_append (mods : List Modifier) (m : Modifier) :
    modMask (mods ++ [m]) = modMask mods ||| m.mask := by
  simp [modMask]

theorem liftLk_run (x : Lk Unit) (p : Parser) :
    (liftLk x).run p = match x.run p.ctx with
      | .ok _ ctx => .ok () { p with ctx := ctx }
      | .error e ctx => .error e { p with ctx := ctx } := rfl

theorem liftLk_eq_ok {x : Lk Unit} {p p' : Parser} :
    (liftLk x).run p = .ok () p' ↔ ∃ c, x.run p.ctx = .ok () c ∧ p' = { p with ctx := c } := by
  rw [liftLk_run]
  cases hx : x.run p.ctx with
  | ok a c =>
    simp only [EStateM.Result.ok.injEq, true_and]
    constructor
    · rintro rfl
      exact ⟨c, rfl, rfl⟩
    · rintro ⟨c', rfl, rfl⟩
      rfl
  | error e c => simp

theorem takeValue_eq_ok {v : Option Int} {f : Int → Parse Unit} {p p' : Parser} :
    (takeValue v f).run p = .ok () p' ↔ ∃ n, v = some n ∧ (f n).run p = .ok () p' := by
  cases v with
  | none => simp [takeValue]
  | some n => simp [takeValue]

section Feed

variable {c₀ : LkCtx} {p p' : Parser}

/-- Going on inside a line. -/
theorem ParserInv.goto (h : ParserInv c₀ p) {q : PState}
    (hpend : ∀ c, Pending c p.ctx p.state → Pending c p.ctx q)
    (hmods : q.mods = p.state.mods) : ParserInv c₀ { p with state := q } := by
  obtain ⟨⟨c, hc, hp⟩, hm, hk⟩ := h
  exact ⟨⟨c, hc, hpend c hp⟩, by rw [hm, hmods], hk⟩

/-- The end of a line whose actions make up the statement `s`. -/
theorem ParserInv.finish (h : ParserInv c₀ p) {s : Stmt} {d : LkCtx}
    (hs : ∀ c, Pending c p.ctx p.state → (execStmt s).run c = .ok () d) :
    ParserInv c₀ { p with ctx := d, state := .top, mod := 0, stmts := p.stmts ++ [s] } := by
  obtain ⟨⟨c, hc, hp⟩, hm, hk⟩ := h
  refine ⟨⟨d, ?_, rfl⟩, rfl, hk⟩
  rw [runStmts_append_eq_ok]
  exact ⟨c, hc, runStmts_cons_eq_ok.mpr ⟨d, hs c hp, rfl⟩⟩

theorem liftLk_finish {x : Lk Unit} {s : Stmt}
    (h : (do liftLk x; finish s : Parse Unit).run p = .ok () p') :
    ∃ d, x.run p.ctx = .ok () d ∧
      p' = { p with ctx := d, state := .top, stmts := p.stmts ++ [s] } := by
  obtain ⟨p₁, h₁, h₂⟩ := Result.seq_eq_ok.mp h
  obtain ⟨d, hd, rfl⟩ := liftLk_eq_ok.mp h₁
  cases h₂
  exact ⟨d, hd, rfl⟩

/-- A state in which no action of the current line has been run. -/
def PState.idle : PState → Bool
  | .keymaps _ => false
  | _ => true

theorem Pending.of_idle {c d : LkCtx} {q : PState} (hq : q.idle = true) :
    Pending c d q ↔ d = c := by
  cases q <;> first | rfl | cases hq

/-- Going on inside a line none of whose actions has been run. -/
theorem ParserInv.goto_idle (h : ParserInv c₀ p) (hidle : p.state.idle = true) {q : PState}
    (hq : q.idle = true) (hmods : q.mods = p.state.mods) : ParserInv c₀ { p with state := q } :=
  h.goto (fun _ hc => (Pending.of_idle hq).mpr ((Pending.of_idle hidle).mp hc)) hmods

theorem ParserInv.finish_idle (h : ParserInv c₀ p) (hidle : p.state.idle = true) {s : Stmt}
    {d : LkCtx} (hs : (execStmt s).run p.ctx = .ok () d) :
    ParserInv c₀ { p with ctx := d, state := .top, mod := 0, stmts := p.stmts ++ [s] } :=
  h.finish fun _ hc => (Pending.of_idle hidle).mp hc ▸ hs

/-- A line without modifiers leaves `ctx->mod` alone, which is 0. -/
theorem ParserInv.finish_setting (h : ParserInv c₀ p) (hidle : p.state.idle = true)
    (hmods : p.state.mods = []) {s : Stmt} {d : LkCtx} (hs : (execStmt s).run p.ctx = .ok () d) :
    ParserInv c₀ { p with ctx := d, state := .top, stmts := p.stmts ++ [s] } := by
  have hm : p.mod = 0 := by
    rw [h.mod, hmods]
    rfl
  have := h.finish_idle hidle hs
  rwa [← hm] at this

theorem pushModifier_inv (hp : ParserInv c₀ p) (hidle : p.state.idle = true) {mods : List Modifier}
    (hmods : p.state.mods = mods) {m : Modifier} (h : (pushModifier mods m).run p = .ok () p') :
    ParserInv c₀ p' := by
  cases h
  obtain ⟨⟨c, hc, hpend⟩, hm, hk⟩ := hp
  refine ⟨⟨c, hc, (Pending.of_idle hidle).mp hpend⟩, ?_, hk⟩
  change p.mod ||| m.mask = modMask (mods ++ [m])
  rw [hm, hmods, modMask_append]

theorem feedTop_inv (hstate : p.state = .top) (hp : ParserInv c₀ p) {tok : Token}
    (h : (feedTop tok).run p = .ok () p') : ParserInv c₀ p' := by
  have hidle : p.state.idle = true := by rw [hstate]; rfl
  have hmods : p.state.mods = [] := by rw [hstate]; rfl
  unfold feedTop at h
  split at h
  case h_1 =>
    cases h
    exact hp
  case h_6 =>
    cases h
    exact hp.goto (fun c hc => by rw [(Pending.of_idle hidle).mp hc]; rfl) hmods.symm
  case h_10 => exact pushModifier_inv hp hidle hmods h
  case h_11 => cases h
  all_goals
    cases h
    exact hp.goto_idle hidle rfl hmods.symm

theorem feedSetting_inv {s : SettingState} (hstate : p.state = .setting s) (hp : ParserInv c₀ p)
    {tok : Token} (h : (feedSetting s tok).run p = .ok () p') : ParserInv c₀ p' := by
  have hidle : p.state.idle = true := by rw [hstate]; rfl
  have hmods : p.state.mods = [] := by rw [hstate]; rfl
  unfold feedSetting at h
  split at h
  case h_2 | h_3 | h_7 =>
    obtain ⟨d, hd, rfl⟩ := liftLk_finish h
    exact hp.finish_setting hidle hmods hd
  case h_8 => cases h
  all_goals
    cases h
    exact hp.goto_idle hidle rfl hmods.symm

theorem feedUsual_inv {s : UsualState} (hstate : p.state = .usual s) (hp : ParserInv c₀ p)
    {tok : Token} (h : (feedUsual s tok).run p = .ok () p') : ParserInv c₀ p' := by
  have hidle : p.state.idle = true := by rw [hstate]; rfl
  have hmods : p.state.mods = [] := by rw [hstate]; rfl
  unfold feedUsual at h
  split at h
  case h_3 | h_5 | h_8 =>
    obtain ⟨d, hd, rfl⟩ := liftLk_finish h
    exact hp.finish_setting hidle hmods hd
  case h_9 => cases h
  all_goals
    cases h
    exact hp.goto_idle hidle rfl hmods.symm

theorem feedCompose_inv {s : ComposeState} (hstate : p.state = .compose s) (hp : ParserInv c₀ p)
    {tok : Token} (h : (feedCompose s tok).run p = .ok () p') : ParserInv c₀ p' := by
  have hidle : p.state.idle = true := by rw [hstate]; rfl
  have hmods : p.state.mods = [] := by rw [hstate]; rfl
  unfold feedCompose at h
  split at h
  case h_2 | h_3 | h_7 | h_8 =>
    obtain ⟨n, -, hn⟩ := takeValue_eq_ok.mp h
    cases hn
    exact hp.goto_idle hidle rfl hmods.symm
  case h_9 =>
    obtain ⟨d, hd, rfl⟩ := liftLk_finish h
    exact hp.finish_setting hidle hmods hd
  case h_10 => cases h
  all_goals
    cases h
    exact hp.goto_idle hidle rfl hmods.symm

/-- The ranges of a `keymaps` line after one more of them. -/
theorem ParserInv.range (hp : ParserInv c₀ p) {s : KeymapsState} (hstate : p.state = .keymaps s)
    {r : Range} {d : LkCtx} (hr : (range0 r).run p.ctx = .ok () d) :
    ParserInv c₀ { p with ctx := d, state := .keymaps (.rangeEnd (s.done ++ [r])) } := by
  obtain ⟨⟨c, hc, hpend⟩, hm, hk⟩ := hp
  rw [hstate] at hpend hm
  exact ⟨⟨c, hc, forM_concat_eq_ok.mpr ⟨p.ctx, hpend, hr⟩⟩, hm, hk⟩

/-- The token after the ranges `done`; `rangeNext` does not look at the state. -/
theorem rangeNext_inv {done : List Range}
    (hp : ParserInv c₀ { p with state := .keymaps (.rangeEnd done) }) {tok : Token}
    (h : (rangeNext done tok).run p = .ok () p') : ParserInv c₀ p' := by
  unfold rangeNext at h
  split at h
  case h_1 =>
    cases h
    exact hp.goto (q := .keymaps (.range done)) (fun _ => id) rfl
  case h_2 =>
    obtain ⟨d, hd, rfl⟩ := liftLk_finish h
    have hm : p.mod = 0 := hp.mod
    have := hp.finish (s := .keymaps done) fun c hc => Result.seq_eq_ok.mpr ⟨p.ctx, hc, hd⟩
    rwa [← hm] at this
  case h_3 => cases h

theorem feedKeymaps_inv {s : KeymapsState} (hstate : p.state = .keymaps s) (hp : ParserInv c₀ p)
    {tok : Token} (h : (feedKeymaps s tok).run p = .ok () p') : ParserInv c₀ p' := by
  -- inside the line the ranges that have been run stay the same
  have hgoto (q : KeymapsState) (hq : q.done = s.done) :
      ParserInv c₀ { p with state := .keymaps q } := by
    refine hp.goto (fun c hc => ?_) (by rw [hstate]; rfl)
    rw [hstate] at hc
    change (forM q.done range0).run c = .ok () p.ctx
    rw [hq]
    exact hc
  unfold feedKeymaps at h
  split at h
  case h_1 =>
    cases h
    exact hgoto _ rfl
  case h_2 =>
    cases h
    exact hgoto _ rfl
  case h_3 =>
    -- `range0 : NUMBER` is reduced when the token after it is known
    obtain ⟨p₁, h₁, h⟩ := Result.seq_eq_ok.mp h
    obtain ⟨d, hd, rfl⟩ := liftLk_eq_ok.mp h₁
    exact rangeNext_inv (p := { p with ctx := d }) (hp.range hstate hd) h
  case h_4 =>
    obtain ⟨p₁, h₁, h⟩ := Result.seq_eq_ok.mp h
    obtain ⟨d, hd, rfl⟩ := liftLk_eq_ok.mp h₁
    cases h
    exact hp.range hstate hd
  case h_5 => exact rangeNext_inv (hgoto (.rangeEnd _) rfl) h
  case h_6 => cases h

theorem pushValue_inv (hp : ParserInv c₀ p) (hidle : p.state.idle = true)
    (hmods : p.state.mods = []) {n v : Int} (h : (pushValue n v).run p = .ok () p') :
    ParserInv c₀ p' := by
  obtain ⟨p₀, p₁, h₀, h⟩ := Result.bind_eq_ok.mp h
  cases h₀
  split at h
  · cases h
  · rename_i hlen
    cases h
    have hq := hp.goto_idle hidle (q := .keycode (.values n)) rfl hmods.symm
    refine ⟨hq.run, hq.mod, ?_⟩
    simp only [List.length_append, List.length_singleton]
    omega

theorem feedKeycode_inv {s : KeycodeState} (hstate : p.state = .keycode s) (hp : ParserInv c₀ p)
    {tok : Token} (h : (feedKeycode s tok).run p = .ok () p') : ParserInv c₀ p' := by
  have hidle : p.state.idle = true := by rw [hstate]; rfl
  have hmods : p.state.mods = [] := by rw [hstate]; rfl
  unfold feedKeycode at h
  split at h
  case h_4 n =>
    obtain ⟨d, hd, rfl⟩ := liftLk_finish (x := singleline n p.keyLine) h
    have hlen : (rvalue1 p.keyLine).run p.ctx = .ok () p.ctx := by
      simp only [rvalue1, Nat.not_lt.mpr hp.keyLine, ↓reduceIte]
      rfl
    exact hp.finish_setting hidle hmods (Result.seq_eq_ok.mpr ⟨p.ctx, hlen, hd⟩)
  case h_5 | h_6 =>
    obtain ⟨v, -, hv⟩ := takeValue_eq_ok.mp h
    exact pushValue_inv hp hidle hmods hv
  case h_7 => cases h
  all_goals
    cases h
    exact hp.goto_idle hidle rfl hmods.symm

theorem endLine_inv {kind : LineKind} {n v : Int} (hstate : p.state = .line (.value kind n v))
    (hp : ParserInv c₀ p) (h : (endLine n v kind).run p = .ok () p') : ParserInv c₀ p' := by
  have hidle : p.state.idle = true := by rw [hstate]; rfl
  have hmod : p.mod = modMask kind.mods := by
    rw [hp.mod, hstate]
    rfl
  cases kind with
  | modified mods =>
    obtain ⟨p₁, h₁, h⟩ := (Result.seq_eq_ok (x := liftLk (modifierline p.mod n v))).mp h
    obtain ⟨d, hd, rfl⟩ := liftLk_eq_ok.mp h₁
    cases h
    rw [hmod] at hd
    exact hp.finish_idle hidle hd
  | plain =>
    obtain ⟨p₁, h₁, h⟩ := Result.seq_eq_ok.mp h
    obtain ⟨d, hd, rfl⟩ := liftLk_eq_ok.mp h₁
    cases h
    exact hp.finish_idle hidle hd

theorem feedLine_inv {s : LineState} (hstate : p.state = .line s) (hp : ParserInv c₀ p)
    {tok : Token} (h : (feedLine s tok).run p = .ok () p') : ParserInv c₀ p' := by
  have hidle : p.state.idle = true := by rw [hstate]; rfl
  have hmods : p.state.mods = s.mods := by rw [hstate]; rfl
  unfold feedLine at h
  split at h
  case h_1 => exact pushModifier_inv hp hidle hmods h
  case h_7 | h_8 =>
    obtain ⟨v, -, hv⟩ := takeValue_eq_ok.mp h
    cases hv
    exact hp.goto_idle hidle rfl hmods.symm
  case h_9 => exact endLine_inv hstate hp h
  case h_10 => cases h
  all_goals
    cases h
    exact hp.goto_idle hidle rfl hmods.symm

/-- Feeding a token keeps the invariant. -/
theorem feed_inv (hp : ParserInv c₀ p) {tok : Token} (h : (feed tok).run p = .ok () p') :
    ParserInv c₀ p' := by
  obtain ⟨p₀, p₁, h₀, h⟩ := Result.bind_eq_ok.mp h
  cases h₀
  split at h
  case h_1 hs => exact feedTop_inv hs hp h
  case h_2 hs => exact feedSetting_inv hs hp h
  case h_3 hs => exact feedUsual_inv hs hp h
  case h_4 hs => exact feedCompose_inv hs hp h
  case h_5 hs => exact feedKeymaps_inv hs hp h
  case h_6 hs => exact feedKeycode_inv hs hp h
  case h_7 hs => exact feedLine_inv hs hp h

/-- Between two lines the parser has run the statements it has read. -/
theorem ParserInv.run_of_top (hp : ParserInv c₀ p) (hstate : p.state = .top) :
    (runStmts p.stmts).run c₀ = .ok () p.ctx := by
  obtain ⟨c, hc, hpend⟩ := hp.run
  rw [hstate] at hpend
  rw [hpend]
  exact hc

end Feed

/-- The error token is an error in every state. -/
theorem feed_error (p : Parser) : ∃ e p', (feed .error).run p = .error e p' := by
  obtain ⟨ctx, state, keyLine, mod, stmts⟩ := p
  cases state with
  | keymaps s =>
    cases s with
    | number done n =>
      -- the range is added before the token is looked at
      change ∃ e p', (liftLk (range0 (.single n)) >>= fun _ => throw .syntaxError).run _ =
        .error e p'
      rw [EStateM.run_bind]
      split
      · exact ⟨_, _, rfl⟩
      · exact ⟨_, _, rfl⟩
    | _ => exact ⟨_, _, rfl⟩
  | top => exact ⟨_, _, rfl⟩
  | setting s | usual s | compose s | keycode s | line s =>
    cases s <;> exact ⟨_, _, rfl⟩

end Kbd.Keymap
