import Kbd.Keymap.Parser
import Kbd.Lib.Machine

/-!
# Reading a keymap (`analyze.l`, `lk_parse_keymap`)

The scanner with its buffers and start conditions, the stack of open files, and the parser that its
tokens are fed to, as one machine: a step matches one rule and runs its action. Which file an
`include` directive finds depends on the file system, so it is given by a function of the path of
the current file and the name in the directive.
-/

namespace Kbd.Keymap

open Kbd.Lib

abbrev maxIncludeDepth : Nat := 20

/-- `struct kbdfile`; the library makes a new one for each include, which `id` tells apart. -/
structure Kbdfile where
  id : Nat
  pathname : List Char
  text : List Char
  deriving DecidableEq, Repr

/-- What happens to the files of `include` directives. -/
inductive FileEvent where
  /-- opened and pushed on the stack -/
  | pushed (id : Nat)
  /-- opened, but the stack is full -/
  | skipped (id : Nat)
  /-- `kbdfile_free` -/
  | freed (id : Nat)
  deriving DecidableEq, Repr

/-- `find_incl_file`: the path and the text of the file it opens. -/
abbrev FindIncl := List Char → List Char → Option (List Char × List Char)

/-- The scanner, the stack of open files and the parser. `start` has the current start condition
first and is empty in `INITIAL`; `buffers` has the current buffer first. -/
structure Reader where
  parser : Parser
  buffers : List (List Char)
  start : List Start
  str : List Char
  stack : List (Option Kbdfile)
  nextId : Nat
  events : List FileEvent
  deriving DecidableEq, Repr

namespace Reader

/-- The first free slot of `ctx->stack`, `MAX_INCLUDE_DEPTH` if there is none. -/
def depth (r : Reader) : Nat := (r.stack.takeWhile Option.isSome).length

/-- `stack_push`; `none` is -1. -/
def stackPush (r : Reader) (fp : Kbdfile) : Option Reader :=
  if r.depth = maxIncludeDepth then none
  else some { r with
    stack := r.stack.set r.depth (some fp)
    buffers := fp.text :: r.buffers }

/-- The file in the slot below the first free one. -/
def top (r : Reader) : Option Kbdfile := (r.stack[r.depth - 1]?).join

/-- `stack_pop`. The file at the bottom is the caller's, and not freed. -/
def stackPop (r : Reader) : Reader :=
  if r.depth = 0 then r
  else { r with
    stack := r.stack.set (r.depth - 1) none
    buffers := r.buffers.tail
    events := r.events ++ (if r.depth = 1 then [] else (r.top.map (.freed ·.id)).toList) }

def record (r : Reader) (e : FileEvent) : Reader := { r with events := r.events ++ [e] }

/-- The current start condition. -/
def cond (r : Reader) : Start := r.start.headD .initial

/-- `yy_push_state`. -/
def pushState (r : Reader) (s : Start) : Reader := { r with start := s :: r.start }

/-- `yy_pop_state` until the stack is empty. -/
def popStates (r : Reader) : Reader := { r with start := [] }

end Reader

/-- What a rule's action does: scan on, or return a token. -/
abbrev Lexed := Reader × Option Token

def intMax : Nat := 2 ^ 31 - 1

/-- `parse_int`; `none` is -1. -/
def parseInt (value : List Char) (base : Nat) : Option Int :=
  if strtol base value > intMax then none else some (strtol base value)

/-- `parse_uchar`; `none` is -1. -/
def parseUchar (value : List Char) (base : Nat) : Option Char :=
  if strtol base value > 255 then none else some (Char.ofNat (strtol base value))

abbrev maxParserString : Nat := 512

/-- `strdata_append`, and the return of `ERROR` where it fails. -/
def strdataAppend (r : Reader) (part : List Char) : Lexed :=
  if r.str.length + part.length ≥ maxParserString then (r, some .error)
  else ({ r with str := r.str ++ part }, none)

/-- The name in an `include` directive. The length is a `size_t`: with less than two characters
before a NUL it wraps around, and no longer cuts anything. -/
def inclName (yytext : List Char) : List Char :=
  if (cstr yytext).length < 2 then cstr (yytext.drop 1)
  else strndup (yytext.drop 1) ((cstr yytext).length - 2)

/-- `open_include`. -/
def openInclude (find : FindIncl) (r : Reader) (name : List Char) : Option Kbdfile :=
  if name = [] then none
  else (find ((r.top.map Kbdfile.pathname).getD []) name).map fun (path, text) =>
    ⟨r.nextId, path, text⟩

/-- The action of the rule for the name of an included file: the result of `stack_push` is not
looked at. -/
def includeFile (find : FindIncl) (r : Reader) (yytext : List Char) : Lexed :=
  match openInclude find r (inclName yytext) with
  | none => (r, some .error)
  | some fp =>
    let r := { r with nextId := r.nextId + 1 }
    match r.stackPush fp with
    | some r => ((r.record (.pushed fp.id)).popStates, none)
    | none => ((r.record (.skipped fp.id)).popStates, none)

/-- The actions. -/
def lexAction (find : FindIncl) (r : Reader) (yytext : List Char) : Rule → Lexed
  | .include => (r.pushState .inclstr, none)
  | .inclFile => includeFile find r yytext
  | .inclError => (r, some .error)
  | .continuation => (r, none)
  | .eol => (r.popStates, some .eol)
  | .blank => (r, none)
  | .comment => (r, none)
  | .equals => ({ r.pushState .rvalue with parser := { r.parser with keyLine := [] } }, some .equals)
  | .string => (r.pushState .rvalue, some .string)
  | .to => (r.pushState .rvalue, some .to)
  | .unicode =>
    match parseInt (yytext.drop 1) 16 with
    | none => (r, some .error)
    | some n => (r, some (if n ≥ unicodeMask then .error else .unumber n))
  | .number => (r, some (((parseInt yytext 0).map .number).getD .error))
  | .literal =>
    let n := ksymtocode r.parser.ctx yytext .toAuto
    (r, some (if n = -1 then .error else .literal n))
  | .token t => (r, some t)
  | .ccharOcta => (r, some (((parseInt (yytext.drop 2) 8).map .cchar).getD .error))
  | .ccharEscape => (r, some (.cchar ((yytext.getD 2 '\x00').toNat % 256 : Nat)))
  | .cchar => (r, some (.cchar ((yytext.getD 1 '\x00').toNat % 256 : Nat)))
  | .quote => ({ r with str := [] }.pushState .str, none)
  | .strOcta =>
    match parseUchar (yytext.drop 1) 8 with
    | none => (r, some .error)
    | some c => strdataAppend r [c]
  | .strQuote => strdataAppend r ['\x22']
  | .strBackslash => strdataAppend r ['\\']
  | .strNewline => strdataAppend r ['\n']
  | .strText => strdataAppend r (cstr yytext)
  | .strEnd => (r.popStates, some (.strliteral r.str))
  | .any => (r, some .error)
  | .echo => (r, none)

/-- The result of a parse: whether it was accepted, and the state it ends in. -/
abbrev Parsed := Bool × Reader

/-- Give a token to the parser; `yyparse` returns at the end of the input and at an error. -/
def feedToken (r : Reader) (tok : Token) : Reader ⊕ Parsed :=
  if tok = .eof && r.parser.state = .top then .inr (true, r)
  else
    match (feed tok).run r.parser with
    | .ok _ p => .inl { r with parser := p }
    | .error _ p => .inr (false, { r with parser := p })

/-- How many characters a rule takes: the newline after a comment is looked at and left. -/
def taken (rule : Rule) (n : Nat) : Nat := if rule = .comment then n - 1 else n

/-- One match of the scanner. -/
def readStep (find : FindIncl) (r : Reader) : Reader ⊕ Parsed :=
  match r.buffers with
  | [] => .inr (false, r)
  | [] :: _ =>
    let r := r.stackPop
    if r.buffers = [] then feedToken r .eof else .inl r
  | buf :: bufs =>
    match munch (rules r.cond) buf with
    | none => .inr (false, r)
    | some (rule, n) =>
      let r := { r with buffers := buf.drop (taken rule n) :: bufs }
      match lexAction find r (buf.take n) rule with
      | (r, none) => .inl r
      | (r, some tok) => feedToken r tok

/-- The reader of a new parse. -/
def newReader (ctx : LkCtx) (stack : List (Option Kbdfile)) (nextId : Nat) : Reader where
  parser := { ctx := ctx, state := .top, keyLine := [], mod := 0, stmts := [] }
  buffers := []
  start := []
  str := []
  stack := stack
  nextId := nextId
  events := []

/-- `lk_parse_keymap`, for at most `fuel` steps of the scanner. -/
def lkParseKeymap (find : FindIncl) (fuel : Nat) (ctx : LkCtx) (stack : List (Option Kbdfile))
    (fp : Kbdfile) : Option Parsed :=
  match (newReader ctx stack (fp.id + 1)).stackPush fp with
  | none => some (false, (newReader ctx stack (fp.id + 1)).stackPop)
  | some r => (Machine.run (readStep find) fuel r).map fun res => (res.1, res.2.stackPop)

end Kbd.Keymap
