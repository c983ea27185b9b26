import Kbd.Keymap.Lexer

/-!
# The parser (`parser.y`)

The grammar is regular, so the LALR parser is a finite automaton: `PState` says how far the current
line has been read, with the values of the symbols on the parser's stack. `feed` takes one token
and runs the actions of the rules that are reduced then. All rules but `range0 : NUMBER` are reduced
without looking at the next token. There is no error rule, so the first error ends the parse.
-/

namespace Kbd.Keymap

/-- A line that binds one key in one map. -/
inductive LineKind where
  | modified (mods : List Modifier)
  | plain
  deriving DecidableEq, Repr

/-- `charsetline`, `altismetaline` and `strline`. -/
inductive SettingState where
  | charset
  | charsetName (name : List Char)
  | altIsMeta
  | string
  | stringSym (sym : Int)
  | stringEquals (sym : Int)
  | stringValue (sym : Int) (value : List Char)
  deriving DecidableEq, Repr

/-- `usualstringsline` and `usualcomposeline`. -/
inductive UsualState where
  | strings
  | stringsAs
  | stringsAsUsual
  | composeAs
  | composeAsUsual
  | composeFor
  | composeForName (name : List Char)
  deriving DecidableEq, Repr

/-- `compline`. -/
inductive ComposeState where
  | start
  | sym (diacr : Int)
  | syms (diacr base : Int)
  | to (diacr base : Int)
  | plus (diacr base : Int)
  | result (diacr base result : Int)
  deriving DecidableEq, Repr

/-- `keymapline`, with the ranges whose actions have been run. -/
inductive KeymapsState where
  | range (done : List Range)
  | number (done : List Range) (n : Int)
  | dash (done : List Range) (n : Int)
  | rangeEnd (done : List Range)
  deriving DecidableEq, Repr

/-- A complete `singleline`. -/
inductive KeycodeState where
  | start
  | number (n : Int)
  | values (n : Int)
  | plus (n : Int)
  deriving DecidableEq, Repr

/-- `singleline` with modifiers, or with `PLAIN`. -/
inductive LineState where
  | modifiers (mods : List Modifier)
  | plain
  | keycode (kind : LineKind)
  | number (kind : LineKind) (n : Int)
  | equals (kind : LineKind) (n : Int)
  | plus (kind : LineKind) (n : Int)
  | value (kind : LineKind) (n value : Int)
  deriving DecidableEq, Repr

/-- How far a line has been read; `top` is between two lines. -/
inductive PState where
  | top
  | setting (s : SettingState)
  | usual (s : UsualState)
  | compose (s : ComposeState)
  | keymaps (s : KeymapsState)
  | keycode (s : KeycodeState)
  | line (s : LineState)
  deriving DecidableEq, Repr

/-- The parser with the fields of the context that only it uses. `stmts` records the lines that
have been read, for the proofs. -/
structure Parser where
  ctx : LkCtx
  state : PState
  keyLine : List Int
  mod : Nat
  stmts : List Stmt
  deriving DecidableEq, Repr

abbrev Parse (α : Type) := EStateM LkErr Parser α

/-- Run an action on the context. -/
def liftLk (x : Lk Unit) : Parse Unit := fun p =>
  match x.run p.ctx with
  | .ok _ ctx => .ok () { p with ctx := ctx }
  | .error e ctx => .error e { p with ctx := ctx }

def goto (state : PState) : Parse Unit := modify fun p => { p with state := state }

/-- The end of a line. -/
def finish (s : Stmt) : Parse Unit :=
  modify fun p => { p with state := .top, stmts := p.stmts ++ [s] }

/-- `rvalue` of a single token. -/
def rvalueOf (ctx : LkCtx) : Token → Option Int
  | .number n => some (convertCode ctx n .toAuto)
  | .unumber n => some (convertCode ctx (U n) .toAuto)
  | .literal n => some n
  | _ => none

/-- `rvalue` of a token after `PLUS`. -/
def plusRvalueOf (ctx : LkCtx) : Token → Option Int
  | .number n => some (addCapslock ctx n)
  | .unumber n => some (addCapslock ctx (U n))
  | .literal n => some (addCapslock ctx n)
  | _ => none

/-- Take the value of an `rvalue`, or fail where there is none. -/
def takeValue (v : Option Int) (f : Int → Parse Unit) : Parse Unit :=
  match v with
  | some v => f v
  | none => throw .syntaxError

/-- The action of `rvalue1`. -/
def pushValue (n v : Int) : Parse Unit := do
  let p ← get
  if p.keyLine.length ≥ maxNrKeymaps then
    throw (.tooManyEntries (p.keyLine.length + 1))
  set { p with keyLine := p.keyLine ++ [v], state := .keycode (.values n) }

/-- `compsym`. -/
def compsym : Token → Option Int
  | .cchar n => some n
  | .unumber n => some (U n)
  | _ => none

/-- After a range: another one, or the end of the line. -/
def rangeNext (done : List Range) : Token → Parse Unit
  | .comma => goto (.keymaps (.range done))
  | .eol => do
    liftLk keymapline
    finish (.keymaps done)
  | _ => throw .syntaxError

/-- The end of a line that binds one key in one map. -/
def endLine (n value : Int) : LineKind → Parse Unit
  | .modified mods => do
    liftLk (modifierline (← get).mod n value)
    modify fun p => { p with mod := 0 }
    finish (.modified mods n value)
  | .plain => do
    liftLk (modifierline 0 n value)
    modify fun p => { p with mod := 0 }
    finish (.plain n value)

/-- A modifier at the start of a line or after others. -/
def pushModifier (mods : List Modifier) (m : Modifier) : Parse Unit :=
  modify fun p => { p with mod := p.mod ||| m.mask, state := .line (.modifiers (mods ++ [m])) }

/-- The first token of a line. -/
def feedTop : Token → Parse Unit
  | .eol => pure ()
  | .charset => goto (.setting .charset)
  | .altIsMeta => goto (.setting .altIsMeta)
  | .strings => goto (.usual .strings)
  | .compose => goto (.compose .start)
  | .keymaps => goto (.keymaps (.range []))
  | .string => goto (.setting .string)
  | .keycode => goto (.keycode .start)
  | .plain => goto (.line .plain)
  | .modifier m => pushModifier [] m
  | _ => throw .syntaxError

def feedSetting : SettingState → Token → Parse Unit
  | .charset, .strliteral name => goto (.setting (.charsetName (cstr name)))
  | .charsetName name, .eol => do
    liftLk (charsetline name)
    finish (.charset name)
  | .altIsMeta, .eol => do
    liftLk (execStmt .altIsMeta)
    finish .altIsMeta
  | .string, .literal sym => goto (.setting (.stringSym sym))
  | .stringSym sym, .equals => goto (.setting (.stringEquals sym))
  | .stringEquals sym, .strliteral value => goto (.setting (.stringValue sym (cstr value)))
  | .stringValue sym value, .eol => do
    liftLk (strline sym value)
    finish (.string sym value)
  | _, _ => throw .syntaxError

def feedUsual : UsualState → Token → Parse Unit
  | .strings, .as => goto (.usual .stringsAs)
  | .stringsAs, .usual => goto (.usual .stringsAsUsual)
  | .stringsAsUsual, .eol => do
    liftLk (execStmt .stringsAsUsual)
    finish .stringsAsUsual
  | .composeAs, .usual => goto (.usual .composeAsUsual)
  | .composeAsUsual, .eol => do
    liftLk (composeAsUsual none)
    finish (.composeAsUsual none)
  | .composeAsUsual, .for => goto (.usual .composeFor)
  | .composeFor, .strliteral name => goto (.usual (.composeForName (cstr name)))
  | .composeForName name, .eol => do
    liftLk (composeAsUsual (some name))
    finish (.composeAsUsual (some name))
  | _, _ => throw .syntaxError

def feedCompose : ComposeState → Token → Parse Unit
  | .start, .as => goto (.usual .composeAs)
  | .start, tok => takeValue (compsym tok) fun d => goto (.compose (.sym d))
  | .sym d, tok => takeValue (compsym tok) fun b => goto (.compose (.syms d b))
  | .syms d b, .to => goto (.compose (.to d b))
  | .to d b, .cchar n => goto (.compose (.result d b n))
  | .to d b, .plus => goto (.compose (.plus d b))
  | .to d b, tok => do
    takeValue (rvalueOf (← get).ctx tok) fun r => goto (.compose (.result d b r))
  | .plus d b, tok => do
    takeValue (plusRvalueOf (← get).ctx tok) fun r => goto (.compose (.result d b r))
  | .result d b r, .eol => do
    liftLk (lkAppendCompose d b r)
    finish (.compose d b r)
  | _, _ => throw .syntaxError

def feedKeymaps : KeymapsState → Token → Parse Unit
  | .range done, .number n => goto (.keymaps (.number done n))
  | .number done n, .dash => goto (.keymaps (.dash done n))
  | .number done n, tok => do
    liftLk (range0 (.single n))
    rangeNext (done ++ [.single n]) tok
  | .dash done n, .number m => do
    liftLk (range0 (.dash n m))
    goto (.keymaps (.rangeEnd (done ++ [.dash n m])))
  | .rangeEnd done, tok => rangeNext done tok
  | _, _ => throw .syntaxError

def feedKeycode : KeycodeState → Token → Parse Unit
  | .start, .number n => goto (.keycode (.number n))
  | .number n, .equals => goto (.keycode (.values n))
  | .values n, .plus => goto (.keycode (.plus n))
  | .values n, .eol => do
    let keyLine := (← get).keyLine
    liftLk (singleline n keyLine)
    finish (.keycode n keyLine)
  | .values n, tok => do takeValue (rvalueOf (← get).ctx tok) (pushValue n)
  | .plus n, tok => do takeValue (plusRvalueOf (← get).ctx tok) (pushValue n)
  | _, _ => throw .syntaxError

def feedLine : LineState → Token → Parse Unit
  | .modifiers mods, .modifier m => pushModifier mods m
  | .modifiers mods, .keycode => goto (.line (.keycode (.modified mods)))
  | .plain, .keycode => goto (.line (.keycode .plain))
  | .keycode kind, .number n => goto (.line (.number kind n))
  | .number kind n, .equals => goto (.line (.equals kind n))
  | .equals kind n, .plus => goto (.line (.plus kind n))
  | .equals kind n, tok => do
    takeValue (rvalueOf (← get).ctx tok) fun v => goto (.line (.value kind n v))
  | .plus kind n, tok => do
    takeValue (plusRvalueOf (← get).ctx tok) fun v => goto (.line (.value kind n v))
  | .value kind n v, .eol => endLine n v kind
  | _, _ => throw .syntaxError

/-- One token. -/
def feed (tok : Token) : Parse Unit := do
  match (← get).state with
  | .top => feedTop tok
  | .setting s => feedSetting s tok
  | .usual s => feedUsual s tok
  | .compose s => feedCompose s tok
  | .keymaps s => feedKeymaps s tok
  | .keycode s => feedKeycode s tok
  | .line s => feedLine s tok

end Kbd.Keymap
