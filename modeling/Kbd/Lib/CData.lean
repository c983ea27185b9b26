import Kbd.Lib.CLexer
import Kbd.Lib.Checked

/-!
# Data that is written in C

A reader for files that define variables of integer, pointer and structure types, and arrays of
these, by constant initializers. What it gives is what C says the variables hold; it gives nothing
for a text that is not C, or for which C does not say what it means: an octal escape that is out of
range, a character constant with several characters, a variable that is defined twice, an address
outside an array. The signedness of `char`, the macros and the structures are parameters. Empty
braces are allowed, as they are since C23.
-/

namespace Kbd.Lib.C

/-! ## Constants -/

def digit (c : Char) : Option Nat :=
  if '0' ≤ c ∧ c ≤ '9' then some (c.toNat - '0'.toNat)
  else if 'a' ≤ c ∧ c ≤ 'f' then some (c.toNat - 'a'.toNat + 10)
  else if 'A' ≤ c ∧ c ≤ 'F' then some (c.toNat - 'A'.toNat + 10)
  else none

/-- The digits of a number in a base, after those that made `n`. -/
def digitsFrom (base : Nat) : Nat → List Char → Option Nat
  | n, [] => some n
  | n, c :: cs => (digit c).bind fun d => if d < base then digitsFrom base (n * base + d) cs else none

/-- A number with at least one digit. -/
def numeral (base : Nat) (ds : List Char) : Option Nat :=
  if ds = [] then none else digitsFrom base 0 ds

/-- An integer constant without suffix. -/
def constant : List Char → Option Nat
  | '0' :: 'x' :: ds => numeral 16 ds
  | '0' :: 'X' :: ds => numeral 16 ds
  | '0' :: ds => numeral 8 ('0' :: ds)
  | ds => numeral 10 ds

/-- The character after the backslash of a simple escape sequence, and what it stands for. -/
def simpleEscapes : List (Char × Nat) :=
  [('\x27', 0x27), ('\x22', 0x22), ('?', 0x3f), ('\\', 0x5c), ('a', 7), ('b', 8), ('f', 12), ('n', 10),
    ('r', 13), ('t', 9), ('v', 11)]

/-- An escape sequence, without the backslash: a simple one or one to three octal digits. -/
def escapeValue : List Char → Option Nat
  | [c] => (simpleEscapes.lookup c).or (numeral 8 [c])
  | ds => if ds.length ≤ 3 then numeral 8 ds else none

/-- The value of a `char` with a given byte, as an `int`. -/
def charOfByte (signed : Bool) (n : Nat) : Option Int :=
  if n < 256 then some (if signed ∧ n ≥ 128 then (n : Int) - 256 else n) else none

/-- The value of a character constant with one character. -/
def charValue (signed : Bool) : List Char → Option Int
  | '\\' :: e => (escapeValue e).bind (charOfByte signed)
  | [c] => charOfByte signed c.toNat
  | _ => none

/-! ## Types and objects -/

structure IntType where
  bits : Nat
  signed : Bool
  deriving DecidableEq, Repr

/-- A conversion. C leaves it open what a signed type makes of a value that it does not have; it is
taken to be the value with the same low bits. -/
def IntType.convert (t : IntType) (v : Int) : Int :=
  if t.signed then Int.bmod v (2 ^ t.bits) else v % 2 ^ t.bits

inductive ElemType where
  | int (t : IntType)
  | ptr (t : IntType)
  | struct (fields : List IntType)
  deriving DecidableEq, Repr

inductive Cell where
  | int (v : Int)
  /-- a null pointer, or a variable and an index in it -/
  | ptr (target : Option (List Char × Nat))
  | struct (fields : List Int)
  deriving DecidableEq, Repr

/-- The value that an element has when it is not initialized. -/
def ElemType.zero : ElemType → Cell
  | .int _ => .int 0
  | .ptr _ => .ptr none
  | .struct fields => .struct (fields.map fun _ => 0)

structure Object where
  type : ElemType
  array : Bool
  cells : List Cell
  deriving DecidableEq, Repr

/-- The variables that have been defined. -/
abbrev Env : Type := List (List Char × Object)

/-- An element of a variable. -/
def Env.cell (env : Env) (name : List Char) (i : Nat) : Option Cell :=
  (env.lookup name).bind fun o => o.cells[i]?

/-- What a reader of the file has to know. -/
structure Impl where
  charSigned : Bool
  macros : List (List Char × Nat)
  structs : List (List Char × List IntType)

/-! ## Initializers -/

/-- An initializer, still in tokens. -/
inductive Init where
  | expr (e : List Token)
  | list (is : List Init)

def isExprToken (t : Token) : Bool := t ∉ [.punct ',', .punct '\x7b', .punct '\x7d', .punct ';']

mutual

def parseInit : Nat → List Token → Option (Init × List Token)
  | 0, _ => none
  | fuel + 1, ts =>
    if ts.head? = some (.punct '\x7b') then
      (parseItems fuel ts.tail).map fun (is, rest) => (.list is, rest)
    else if ts.takeWhile isExprToken = [] then none
    else some (.expr (ts.takeWhile isExprToken), ts.dropWhile isExprToken)

/-- The items up to the closing brace; a comma may stand before it. -/
def parseItems : Nat → List Token → Option (List Init × List Token)
  | 0, _ => none
  | fuel + 1, ts =>
    if ts.head? = some (.punct '\x7d') then some ([], ts.tail)
    else do
      let (i, rest) ← parseInit fuel ts
      if rest.head? = some (.punct ',') then
        let (is, rest) ← parseItems fuel rest.tail
        return (i :: is, rest)
      else if rest.head? = some (.punct '\x7d') then return ([i], rest.tail)
      else none

end

section

variable (impl : Impl)

inductive Value where
  | int (v : Int)
  | address (name : List Char) (index : Nat) (t : IntType)
  deriving DecidableEq, Repr

/-- The address of an element of an array, or of its end. -/
def address (name : List Char) (index : Nat) (o : Object) : Option Value :=
  match o.type with
  | .int t => if o.array ∧ index ≤ o.cells.length then some (.address name index t) else none
  | _ => none

def Object.size (o : Object) : Option Nat :=
  match o.type with
  | .int t => some (o.cells.length * (t.bits / 8))
  | _ => none

def kwSizeof : List Char := ['s', 'i', 'z', 'e', 'o', 'f']
def kwStatic : List Char := ['s', 't', 'a', 't', 'i', 'c']
def kwUnsigned : List Char := ['u', 'n', 's', 'i', 'g', 'n', 'e', 'd']
def kwShort : List Char := ['s', 'h', 'o', 'r', 't']
def kwInt : List Char := ['i', 'n', 't']
def kwChar : List Char := ['c', 'h', 'a', 'r']
def kwStruct : List Char := ['s', 't', 'r', 'u', 'c', 't']

def evalExpr (env : Env) : List Token → Option Value
  | [.word w] =>
    match constant w with
    | some n => some (.int n)
    | none => (env.lookup w).bind (address w 0)
  | [.chr body] => (charValue impl.charSigned body).map .int
  | [.word w, .punct '+', .word n] => do
    let o ← env.lookup w
    let n ← constant n
    address w n o
  | [.word s, .punct '(', .word w, .punct ')'] => do
    if s ≠ kwSizeof then failure
    let o ← env.lookup w
    let n ← o.size
    return .int n
  | _ => none

def evalInt (env : Env) (t : IntType) (e : List Token) : Option Int :=
  match evalExpr impl env e with
  | some (.int v) => some (t.convert v)
  | _ => none

/-- The fields of a structure; those that are missing are zero. -/
def structFields (env : Env) : List IntType → List Init → Option (List Int)
  | ts, [] => some (ts.map fun _ => 0)
  | t :: ts, .expr e :: is => do
    let v ← evalInt impl env t e
    let vs ← structFields env ts is
    return v :: vs
  | _, _ => none

def initCell (env : Env) : ElemType → Init → Option Cell
  | .int t, .expr e => (evalInt impl env t e).map .int
  | .ptr t, .expr e =>
    match evalExpr impl env e with
    | some (.int 0) => some (.ptr none)
    | some (.address name index t') => if t' = t then some (.ptr (some (name, index))) else none
    | _ => none
  | .struct ts, .list is => (structFields impl env ts is).map .struct
  | _, _ => none

/-! ## Declarations -/

/-- The type, the name and, for an array, the size if there is one. -/
structure Head where
  type : ElemType
  name : List Char
  dim : Option (Option Nat)
  deriving DecidableEq, Repr

def baseType : List Token → Option (ElemType × List Token)
  | .word w :: .word w' :: ts =>
    if w = kwUnsigned ∧ w' = kwShort then some (.int ⟨16, false⟩, ts)
    else if w = kwUnsigned ∧ w' = kwInt then some (.int ⟨32, false⟩, ts)
    else if w = kwUnsigned ∧ w' = kwChar then some (.int ⟨8, false⟩, ts)
    else if w = kwStruct then (impl.structs.lookup w').map fun fields => (.struct fields, ts)
    else if w = kwChar then some (.int ⟨8, impl.charSigned⟩, .word w' :: ts)
    else if w = kwInt then some (.int ⟨32, true⟩, .word w' :: ts)
    else none
  | .word w :: ts =>
    if w = kwChar then some (.int ⟨8, impl.charSigned⟩, ts)
    else if w = kwInt then some (.int ⟨32, true⟩, ts)
    else none
  | _ => none

def declarator (type : ElemType) : List Token → Option Head
  | [.word name] => some ⟨type, name, none⟩
  | [.word name, .punct '[', .punct ']'] => some ⟨type, name, some none⟩
  | [.word name, .punct '[', .word n, .punct ']'] =>
    ((constant n).or (impl.macros.lookup n)).map fun n => ⟨type, name, some (some n)⟩
  | _ => none

def parseHead (ts : List Token) : Option Head := do
  let (type, ts) ← baseType impl (if ts.head? = some (.word kwStatic) then ts.tail else ts)
  match type, ts with
  | .int t, .punct '*' :: ts => declarator impl (.ptr t) ts
  | type, ts => declarator impl type ts

def initObject (env : Env) (h : Head) (i : Init) : Option Object :=
  match h.dim, i with
  | none, .expr e => (initCell impl env h.type (.expr e)).map fun c => ⟨h.type, false, [c]⟩
  | some dim, .list is => do
    let cells ← is.mapM (initCell impl env h.type)
    let size := dim.getD cells.length
    if size < cells.length then none
    else some ⟨h.type, true, cells ++ List.replicate (size - cells.length) h.type.zero⟩
  | _, _ => none

/-- Adds the variable that a declaration defines. -/
def readDecl (env : Env) (ts : List Token) : Option Env := do
  let h ← parseHead impl (ts.takeWhile (· ≠ .punct '='))
  let ts := (ts.dropWhile (· ≠ .punct '=')).tail
  let (i, rest) ← parseInit (ts.length + 1) ts
  if rest ≠ [] ∨ (env.lookup h.name).isSome then none
  else
    let o ← initObject impl env h i
    return env ++ [(h.name, o)]

/-- The declarations, without the semicolons that end them. -/
def declarations (acc : List Token) : List Token → Option (List (List Token))
  | [] => if acc = [] then some [] else none
  | t :: ts =>
    if t = .punct ';' then (declarations [] ts).map (acc :: ·) else declarations (acc ++ [t]) ts

/-- The variables that a file defines. -/
def read (text : List Char) : Option Env := do
  let ts ← lex text
  let decls ← declarations [] ts
  decls.foldlM (readDecl impl) []

end

/-! ## Reading what is written

`IsItem` and `IsTail` say how tokens are parsed in front of any rest, so initializers are put together
from their items. -/

section

/-- An expression ends here. -/
def Stops (ts : List Token) : Prop := ∀ t ∈ ts.head?, isExprToken t = false

theorem stops_nil : Stops [] := by simp [Stops]

theorem stops_comma (ts : List Token) : Stops (.punct ',' :: ts) := by
  intro t ht
  obtain rfl := Option.some.inj ht
  rfl

theorem stops_close (ts : List Token) : Stops (.punct '\x7d' :: ts) := by
  intro t ht
  obtain rfl := Option.some.inj ht
  rfl

/-- The tokens `e` are the initializer `i`. -/
structure IsItem (e : List Token) (i : Init) : Prop where
  first : ∃ t ts, e = t :: ts ∧ t ≠ .punct '\x7d'
  noEnd : .punct ';' ∉ e
  parse : ∀ fuel rest, e.length ≤ fuel → Stops rest → parseInit fuel (e ++ rest) = some (i, rest)

/-- The tokens `ts` are the items `is` and the brace after them. -/
structure IsTail (ts : List Token) (is : List Init) : Prop where
  noEnd : .punct ';' ∉ ts
  parse : ∀ fuel rest, ts.length ≤ fuel → parseItems fuel (ts ++ rest) = some (is, rest)

theorem span_expr {e rest : List Token} (he : ∀ t ∈ e, isExprToken t = true) (hrest : Stops rest) :
    (e ++ rest).takeWhile isExprToken = e ∧ (e ++ rest).dropWhile isExprToken = rest := by
  have hend : rest.takeWhile isExprToken = [] ∧ rest.dropWhile isExprToken = rest := by
    cases rest with
    | nil => exact ⟨rfl, rfl⟩
    | cons t rest =>
      have ht := hrest t rfl
      simp [ht]
  rw [List.takeWhile_append_of_pos he, List.dropWhile_append_of_pos he, hend.1, hend.2,
    List.append_nil]
  exact ⟨rfl, rfl⟩

theorem IsItem.expr {e : List Token} (hne : e ≠ []) (he : ∀ t ∈ e, isExprToken t = true) :
    IsItem e (.expr e) := by
  obtain ⟨t, ts, rfl⟩ := List.exists_cons_of_ne_nil hne
  have ht := he t List.mem_cons_self
  refine ⟨⟨t, ts, rfl, ?_⟩, fun hend => absurd (he _ hend) (by decide), ?_⟩
  · rintro rfl
    revert ht
    decide
  · intro fuel rest hfuel hrest
    obtain ⟨fuel, rfl⟩ : ∃ n, fuel = n + 1 := ⟨fuel - 1, by simp at hfuel; omega⟩
    obtain ⟨htake, hdrop⟩ := span_expr he hrest
    have hopen : (t :: ts ++ rest).head? ≠ some (.punct '\x7b') := by
      rw [List.cons_append, List.head?_cons, ne_eq, Option.some.injEq]
      rintro rfl
      revert ht
      decide
    rw [parseInit, if_neg hopen, htake, hdrop, if_neg hne]

/-- One token. -/
theorem IsItem.one {t : Token} (ht : isExprToken t = true) : IsItem [t] (.expr [t]) :=
  .expr (List.cons_ne_nil t []) (List.forall_mem_singleton.mpr ht)

theorem IsItem.braces {ts : List Token} {is : List Init} (h : IsTail ts is) :
    IsItem (.punct '\x7b' :: ts) (.list is) := by
  refine ⟨⟨_, ts, rfl, by decide⟩, by simp [h.noEnd], ?_⟩
  intro fuel rest hfuel _
  obtain ⟨fuel, rfl⟩ : ∃ n, fuel = n + 1 := ⟨fuel - 1, by simp at hfuel; omega⟩
  have hitems := h.parse fuel rest (by simpa using hfuel)
  rw [List.cons_append, parseInit, List.head?_cons, if_pos rfl, List.tail_cons, hitems]
  rfl

theorem IsTail.nil : IsTail [.punct '\x7d'] [] := by
  refine ⟨by decide, ?_⟩
  intro fuel rest hfuel
  obtain ⟨fuel, rfl⟩ : ∃ n, fuel = n + 1 := ⟨fuel - 1, by simp at hfuel; omega⟩
  rfl

/-- A last item without a comma. -/
theorem IsTail.one {e : List Token} {i : Init} (h : IsItem e i) : IsTail (e ++ [.punct '\x7d']) [i] := by
  refine ⟨by simp [h.noEnd], ?_⟩
  intro fuel rest hfuel
  obtain ⟨t, ts, he, ht⟩ := h.first
  obtain ⟨fuel, rfl⟩ : ∃ n, fuel = n + 1 := ⟨fuel - 1, by simp at hfuel; omega⟩
  have hitem := h.parse fuel (.punct '\x7d' :: rest) (by simp at hfuel; omega) (stops_close rest)
  have hclose : (e ++ .punct '\x7d' :: rest).head? ≠ some (.punct '\x7d') := by
    rw [he]
    simpa using ht
  rw [List.append_assoc, List.singleton_append, parseItems, if_neg hclose, hitem]
  rfl

/-- An item with a comma. -/
theorem IsTail.cons {e ts : List Token} {i : Init} {is : List Init} (h : IsItem e i)
    (hts : IsTail ts is) : IsTail (e ++ .punct ',' :: ts) (i :: is) := by
  refine ⟨by simp [h.noEnd, hts.noEnd], ?_⟩
  intro fuel rest hfuel
  obtain ⟨t, es, he, ht⟩ := h.first
  obtain ⟨fuel, rfl⟩ : ∃ n, fuel = n + 1 := ⟨fuel - 1, by simp at hfuel; omega⟩
  have hlen : e.length + ts.length ≤ fuel := by
    rw [List.length_append, List.length_cons] at hfuel
    omega
  have hitem := h.parse fuel (.punct ',' :: (ts ++ rest)) (by omega) (stops_comma _)
  have hclose : (e ++ .punct ',' :: (ts ++ rest)).head? ≠ some (.punct '\x7d') := by
    rw [he]
    simpa using ht
  rw [List.append_assoc, List.cons_append, parseItems, if_neg hclose, hitem]
  simp only [Option.bind_eq_bind, Option.bind_some, List.head?_cons, if_true, List.tail_cons,
    hts.parse fuel rest (by omega)]
  rfl

theorem IsTail.flatMap {ι : Type} {l : List ι} {tok : ι → List Token} {init : ι → Init}
    (h : ∀ a ∈ l, IsItem (tok a) (init a)) {ts : List Token} {is : List Init} (hts : IsTail ts is) :
    IsTail (l.flatMap (fun a => tok a ++ [.punct ',']) ++ ts) (l.map init ++ is) := by
  induction l with
  | nil => exact hts
  | cons a l ih =>
    rw [List.forall_mem_cons] at h
    rw [List.flatMap_cons, List.append_assoc, List.append_assoc, List.singleton_append, List.map_cons,
      List.cons_append]
    exact .cons h.1 (ih h.2)

variable {impl : Impl} {env : Env}

/-- The tokens are a declaration with the head `h` and the initializer `i`. -/
inductive IsDecl (impl : Impl) : List Token → Head → Init → Prop
  | mk {head e : List Token} {h : Head} {i : Init} (hhead : parseHead impl head = some h)
      (htokens : .punct '=' ∉ head ∧ .punct ';' ∉ head) (hi : IsItem e i) :
      IsDecl impl (head ++ .punct '=' :: e) h i

theorem IsDecl.noEnd {d : List Token} {h : Head} {i : Init} (hd : IsDecl impl d h i) :
    .punct ';' ∉ d := by
  obtain ⟨-, htokens, hi⟩ := hd
  simp [htokens.2, hi.noEnd]

/-- A declaration defines its variable. -/
theorem IsDecl.readDecl {d : List Token} {h : Head} {i : Init} (hd : IsDecl impl d h i)
    (hnew : env.lookup h.name = none) :
    readDecl impl env d = (initObject impl env h i).map fun o => env ++ [(h.name, o)] := by
  obtain @⟨head, e, _, _, hhead, htokens, hi⟩ := hd
  have hnot : ∀ t ∈ head, decide (t ≠ Token.punct '=') = true := by
    intro t ht
    rw [decide_eq_true_eq]
    rintro rfl
    exact htokens.1 ht
  have htake : (head ++ .punct '=' :: e).takeWhile (· ≠ .punct '=') = head := by
    rw [List.takeWhile_append_of_pos hnot]
    simp
  have hdrop : (head ++ .punct '=' :: e).dropWhile (· ≠ .punct '=') = .punct '=' :: e := by
    rw [List.dropWhile_append_of_pos hnot]
    simp
  have hparse := hi.parse (e.length + 1) [] (by omega) stops_nil
  rw [List.append_nil] at hparse
  simp only [C.readDecl, htake, hdrop, List.tail_cons, hhead, Option.bind_eq_bind, Option.bind_some,
    hparse, hnew]
  cases initObject impl env h i <;> rfl

theorem declarations_append {acc ts rest : List Token} (h : .punct ';' ∉ ts) :
    declarations acc (ts ++ .punct ';' :: rest) = (declarations [] rest).map ((acc ++ ts) :: ·) := by
  induction ts generalizing acc with
  | nil => simp [declarations]
  | cons t ts ih =>
    rw [List.mem_cons, not_or] at h
    rw [List.cons_append, declarations, if_neg (Ne.symm h.1), ih h.2]
    simp

/-- The declarations of a file, one after the other. -/
theorem declarations_flatMap {decls : List (List Token)} (h : ∀ d ∈ decls, .punct ';' ∉ d) :
    declarations [] (decls.flatMap fun d => d ++ [.punct ';']) = some decls := by
  induction decls with
  | nil => rfl
  | cons d decls ih =>
    rw [List.forall_mem_cons] at h
    rw [List.flatMap_cons, List.append_assoc, List.singleton_append, declarations_append h.1, ih h.2]
    rfl

/-- An initializer with braces; what it does not give is zero. -/
theorem initObject_list {h : Head} {dim : Option Nat} {is : List Init} (hdim : h.dim = some dim)
    (hle : is.length ≤ dim.getD is.length) :
    initObject impl env h (.list is) = (is.mapM (initCell impl env h.type)).map fun cells =>
      ⟨h.type, true, cells ++ List.replicate (dim.getD is.length - is.length) h.type.zero⟩ := by
  simp only [initObject, hdim, Option.bind_eq_bind]
  cases hcells : is.mapM (initCell impl env h.type) with
  | none => rfl
  | some cells =>
    have hlen : cells.length = is.length := Checked.length_of_mapM hcells
    rw [Option.bind_some, Option.map_some, hlen, if_neg (Nat.not_lt.mpr hle)]

/-- An array of which the first elements are given, and a zero after them. -/
theorem initObject_prefix {h : Head} {m n : Nat} {init : Nat → Init} {cell : Nat → Cell} {zero : Init}
    (hdim : h.dim = some (some n)) (hm : m ≤ n)
    (hcells : ∀ i < m, initCell impl env h.type (init i) = some (cell i))
    (hrest : ∀ i, m ≤ i → i < n → cell i = h.type.zero)
    (hzero : initCell impl env h.type zero = some h.type.zero) :
    initObject impl env h (.list ((List.range m).map init ++ if m < n then [zero] else [])) =
      some ⟨h.type, true, (List.range n).map cell⟩ := by
  have hrange : List.range n = List.range m ++ List.range' m (n - m) := by
    rw [List.range_eq_range', List.range_eq_range', ← show m + (n - m) = n by omega,
      ← List.range'_append_1, Nat.zero_add, Nat.add_sub_cancel_left]
  have hzeros : (List.range' m (n - m)).map cell = List.replicate (n - m) h.type.zero := by
    rw [List.map_eq_replicate_iff.mpr fun i hi => ?_, List.length_range']
    rw [List.mem_range'_1] at hi
    exact hrest i hi.1 (by omega)
  have hgiven : ((List.range m).map init).mapM (initCell impl env h.type) =
      some ((List.range m).map cell) := by
    rw [List.mapM_map]
    exact Checked.mapM_of_some fun i hi => hcells i (List.mem_range.mp hi)
  rw [hrange, List.map_append, hzeros]
  by_cases hlt : m < n
  · have hlen : ((List.range m).map init ++ [zero]).length = m + 1 := by simp
    have hcells' : ((List.range m).map init ++ [zero]).mapM (initCell impl env h.type) =
        some ((List.range m).map cell ++ [h.type.zero]) := by
      simp [List.mapM_append, hgiven, hzero]
    have hone : List.replicate (n - m) h.type.zero =
        [h.type.zero] ++ List.replicate (n - (m + 1)) h.type.zero := by
      rw [← List.replicate_one, List.replicate_append_replicate]
      congr 1
      omega
    rw [if_pos hlt, initObject_list hdim (by rw [hlen, Option.getD_some]; omega), hcells', hlen, hone,
      Option.getD_some, Option.map_some, List.append_assoc]
  · have hlen : ((List.range m).map init).length = m := by simp
    rw [if_neg hlt, List.append_nil, initObject_list hdim (by rw [hlen, Option.getD_some]; omega), hgiven,
      hlen, Option.getD_some, Option.map_some]

/-- The declarations define `vars`, where `env` has been defined. -/
def Defines (impl : Impl) (env : Env) (decls : List (List Token)) (vars : Env) : Prop :=
  decls.foldlM (readDecl impl) env = some (env ++ vars)

theorem Defines.one {d : List Token} {name : List Char} {o : Object}
    (h : readDecl impl env d = some (env ++ [(name, o)])) : Defines impl env [d] [(name, o)] := by
  rw [Defines, List.foldlM_cons, h]
  rfl

theorem Defines.append {ds ds' : List (List Token)} {vs vs' : Env} (h : Defines impl env ds vs)
    (h' : Defines impl (env ++ vs) ds' vs') : Defines impl env (ds ++ ds') (vs ++ vs') := by
  have hrest : ds'.foldlM (readDecl impl) (env ++ vs) = some (env ++ vs ++ vs') := h'
  have hfirst : ds.foldlM (readDecl impl) env = some (env ++ vs) := h
  rw [Defines, List.foldlM_append, hfirst, ← List.append_assoc]
  exact hrest

theorem lookup_eq_none_iff {name : List Char} : env.lookup name = none ↔ name ∉ env.map Prod.fst := by
  rw [List.lookup_eq_none_iff, List.mem_map, not_exists]
  refine forall_congr' fun v => ?_
  rw [not_and, bne_iff_ne, ne_comm]

/-- Variables that do not need each other. -/
theorem Defines.map {ι : Type} {l : List ι} {decl : ι → List Token} {name : ι → List Char}
    {obj : ι → Object} (hnodup : (l.map name).Nodup)
    (hnew : ∀ a ∈ l, name a ∉ env.map Prod.fst)
    (h : ∀ a ∈ l, ∀ env, name a ∉ env.map Prod.fst →
      readDecl impl env (decl a) = some (env ++ [(name a, obj a)])) :
    Defines impl env (l.map decl) (l.map fun a => (name a, obj a)) := by
  induction l generalizing env with
  | nil => simp [Defines]
  | cons a l ih =>
    rw [List.forall_mem_cons] at hnew h
    rw [List.map_cons, List.nodup_cons] at hnodup
    have hrest : ∀ b ∈ l, name b ∉ (env ++ [(name a, obj a)]).map Prod.fst := by
      intro b hb hmem
      rw [List.map_append, List.mem_append] at hmem
      rcases hmem with hmem | hmem
      · exact hnew.2 b hb hmem
      · have hname : name b = name a := List.mem_singleton.mp hmem
        exact hnodup.1 (hname ▸ List.mem_map_of_mem hb)
    exact (Defines.one (h.1 env hnew.1)).append (ih hnodup.2 hrest h.2)

/-- The variable that was defined with a name. -/
theorem lookup_eq_some_of_mem {name : List Char} {o : Object} (hnodup : (env.map Prod.fst).Nodup)
    (h : (name, o) ∈ env) : env.lookup name = some o := by
  obtain ⟨before, after, rfl⟩ := List.mem_iff_append.mp h
  rw [List.map_append, List.map_cons, List.nodup_append] at hnodup
  have hbefore : name ∉ before.map Prod.fst := fun hmem =>
    hnodup.2.2 name hmem name List.mem_cons_self rfl
  rw [List.lookup_append, lookup_eq_none_iff.mpr hbefore, Option.none_or, List.lookup_cons_self]

end

end Kbd.Lib.C
