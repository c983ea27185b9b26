import Kbd.Keymap.DumpTables
import Kbd.Keymap.Verify.DumpBinary
import Kbd.Lib.CNumber

/-!
# The tokens of the C tables

The text of `lk_dump_ctable` as tokens: a list of declarations, each written next to what the text
says. A character constant is kept as `outchar` writes it; what C reads there is the byte, and
nothing where the number is not a byte (`charValue_charBody`).
-/

namespace Kbd.Keymap

open Kbd.Lib Kbd.Lib.C

/-! ## Characters -/

/-- What `outchar` writes between the quotes. -/
def charBody (c : Nat) : List Char :=
  if c = 0x27 || c = 0x5c then ['\\', fmtC c]
  else if isgraph c then [fmtC c] else '\\' :: fmt03O c

theorem outchar_true (c : Nat) :
    outchar c true = ['\x27'] ++ (charBody c ++ ['\x27']) ++ [',', ' '] := by
  unfold outchar charBody
  split <;> simp

theorem outchar_false (c : Nat) : outchar c false = ['\x27'] ++ (charBody c ++ ['\x27']) := by
  unfold outchar charBody
  split <;> simp

theorem isPlainChar_fmtC {c : Nat} (hgraph : isgraph c = true) (hc : c ≠ 0x27 ∧ c ≠ 0x5c) :
    isPlainChar (fmtC c) = true := by
  have hall : ∀ c < 127, isgraph c = true → c ≠ 0x27 ∧ c ≠ 0x5c → isPlainChar (fmtC c) = true := by
    decide +kernel
  refine hall c ?_ hgraph hc
  simp only [isgraph, Bool.and_eq_true, decide_eq_true_eq] at hgraph
  omega

theorem isWordChar_fmt03O (c : Nat) : ∀ d ∈ fmt03O c, isWordChar d = true :=
  isWordChar_of_mem_leftpad (by decide) (by decide) 3 c

theorem length_fmt03O (c : Nat) : 3 ≤ (fmt03O c).length := by
  rw [fmt03O, List.leftpad, List.length_append, List.length_replicate]
  omega

/-- A character is one token. -/
theorem lexFrom_charBody (c : Nat) :
    lexFrom (.chr []) (charBody c ++ ['\x27']) = some (.start, [.chr (charBody c)]) := by
  unfold charBody
  split
  · rename_i h
    rw [Bool.or_eq_true, decide_eq_true_eq, decide_eq_true_eq] at h
    rcases h with rfl | rfl <;> rfl
  · rename_i h
    split
    · rename_i hgraph
      have hplain : ∀ d ∈ [fmtC c], isPlainChar d = true := by
        rw [List.forall_mem_singleton]
        exact isPlainChar_fmtC hgraph (by simpa using h)
      exact lexFrom_chr hplain
    · -- the backslash takes the first digit with it
      have hdigits := isWordChar_fmt03O c
      cases hds : fmt03O c with
      | nil =>
        have hlen := length_fmt03O c
        rw [hds] at hlen
        cases hlen
      | cons d ds =>
        rw [hds, List.forall_mem_cons] at hdigits
        have hd := isPlainChar_of_isWordChar hdigits.1
        simp only [isPlainChar, ne_eq, Bool.and_eq_true, decide_eq_true_eq] at hd
        have hplain : ∀ c ∈ ds, isPlainChar c = true := fun c hc =>
          isPlainChar_of_isWordChar (hdigits.2 c hc)
        have hrest : lexFrom (.chr ['\\', d]) (ds ++ ['\x27']) =
            some (.start, [.chr (['\\', d] ++ ds)]) := lexFrom_chr hplain
        simp only [List.cons_append, lexFrom, step, if_true, if_neg hd.2, Option.bind_eq_bind,
          Option.bind_some, List.nil_append, hrest, Option.pure_def]

theorem lexFrom_outchar_true (c : Nat) :
    lexFrom .start (outchar c true) = some (.start, [.chr (charBody c), .punct ',']) := by
  have hopen : lexFrom .start ['\x27'] = some (.chr [], []) := rfl
  have hend : lexFrom .start [',', ' '] = some (.start, [.punct ',']) := rfl
  rw [outchar_true]
  exact lexFrom_append (lexFrom_append hopen (lexFrom_charBody c)) hend

theorem lexFrom_outchar_false (c : Nat) :
    lexFrom .start (outchar c false) = some (.start, [.chr (charBody c)]) := by
  have hopen : lexFrom .start ['\x27'] = some (.chr [], []) := rfl
  rw [outchar_false]
  exact lexFrom_append hopen (lexFrom_charBody c)

/-- The escape is the one of the byte, and out of range or more than one character for all else. -/
theorem charValue_charBody (signed : Bool) (c : Nat) :
    charValue signed (charBody c) = charOfByte signed c := by
  by_cases hc : c < 256
  · have hall : ∀ signed, ∀ c < 256, charValue signed (charBody c) = charOfByte signed c := by
      decide +kernel
    exact hall signed c hc
  · have hgraph : isgraph c = false := by
      simp only [isgraph, Bool.and_eq_false_iff, decide_eq_false_iff_not]
      omega
    have hbody : charBody c = '\\' :: fmt03O c := by
      rw [charBody, hgraph, if_neg (by simp; omega), if_neg Bool.false_ne_true]
    have hnone : charOfByte signed c = none := if_neg hc
    have hlen := length_fmt03O c
    have hescape : (escapeValue (fmt03O c)).bind (charOfByte signed) = none := by
      unfold escapeValue
      split
      · rename_i h
        rw [h] at hlen
        simp at hlen
      · split
        · rw [fmt03O, numeral_leftpad (by decide) (by decide), Option.bind_some, hnone]
        · rfl
    rw [hbody, charValue, hescape, hnone]

/-! ## Tokens -/

section Tokens

variable (ctx : LkCtx)

/-- The name of the array of a map. -/
def mapName (i : Nat) : List Char := mkMapname i ++ bytes "_map"

def hexWord (v : Nat) : C.Token := .word (bytes "0x" ++ fmt04X v)

def mapHead (i : Nat) : List C.Token :=
  (if i ≠ 0 then [.word kwStatic] else []) ++
    [.word kwUnsigned, .word kwShort, .word (mapName i), .punct '[', .word (bytes "NR_KEYS"),
      .punct ']']

def mapKey (i j : Nat) : C.Token := hexWord (toUnsigned (U (lkGetKey ctx i j)))

def mapDecl (i : Nat) : List C.Token :=
  mapHead i ++ .punct '=' :: .punct '\x7b' ::
    ((List.range nrKeys).flatMap (fun j => [mapKey ctx i j] ++ [.punct ',']) ++ [.punct '\x7d'])

theorem isWordChar_mkMapname {i : Nat} (h : i < 256) : ∀ c ∈ mkMapname i, isWordChar c = true := by
  have hall : ∀ i < 256, (mkMapname i).all isWordChar = true := by decide +kernel
  exact List.all_eq_true.mp (hall i h)

theorem mkMapname_ne_nil {i : Nat} (h : i < 256) : mkMapname i ≠ [] := by
  have hall : ∀ i < 256, (mkMapname i).isEmpty = false := by decide +kernel
  rw [← List.isEmpty_eq_false_iff]
  exact hall i h

theorem lexFrom_mapName {i : Nat} (h : i < 256) :
    lexFrom .start (mapName i) = some (.word (mapName i), []) := by
  have hmap : lexFrom (.word (mkMapname i)) (bytes "_map") = some (.word (mapName i), []) :=
    lexFrom_word (List.all_eq_true.mp (by decide))
  exact lexFrom_append (lexFrom_start_word (isWordChar_mkMapname h) (mkMapname_ne_nil h)) hmap

theorem lexFrom_hex (v : Nat) :
    lexFrom .start (bytes "0x" ++ fmt04X v) = some (.word (bytes "0x" ++ fmt04X v), []) := by
  have hx : lexFrom .start (bytes "0x") = some (.word (bytes "0x"), []) := rfl
  exact lexFrom_append hx (lexFrom_word (isWordChar_of_mem_leftpad (by decide) (by decide) 4 v))

theorem lexFrom_mapKey (i j : Nat) :
    lexFrom .start ((if j % 8 = 0 then ['\n'] else []) ++ bytes "\t0x" ++
      fmt04X (toUnsigned (U (lkGetKey ctx i j))) ++ [',']) =
        some (.start, [mapKey ctx i j] ++ [.punct ',']) := by
  have hblank : lexFrom .start ((if j % 8 = 0 then ['\n'] else []) ++ ['\t']) = some (.start, []) := by
    split <;> rfl
  have hcomma : lexFrom (.word (bytes "0x" ++ fmt04X (toUnsigned (U (lkGetKey ctx i j))))) [','] =
      some (.start, [mapKey ctx i j] ++ [.punct ',']) := rfl
  have htext : (if j % 8 = 0 then ['\n'] else []) ++ bytes "\t0x" ++
      fmt04X (toUnsigned (U (lkGetKey ctx i j))) ++ [','] =
        ((if j % 8 = 0 then ['\n'] else []) ++ ['\t']) ++
          (bytes "0x" ++ fmt04X (toUnsigned (U (lkGetKey ctx i j)))) ++ [','] := by
    simp only [List.append_assoc]
    rfl
  have hkey := lexFrom_append (lexFrom_hex _) hcomma
  rw [htext, List.append_assoc]
  exact lexFrom_skip hblank hkey

theorem lexFrom_ctableMap {i : Nat} (h : i < 256) :
    lexFrom .start (ctableMap ctx i) = some (.start, mapDecl ctx i ++ [.punct ';']) := by
  have hstatic : lexFrom .start (if i ≠ 0 then bytes "static " else []) =
      some (.start, if i ≠ 0 then [.word kwStatic] else []) := by
    split <;> rfl
  have htype : lexFrom .start (bytes "unsigned short ") =
      some (.start, [.word kwUnsigned, .word kwShort]) := rfl
  have hopen : lexFrom (.word (mapName i)) (bytes "[NR_KEYS] = \x7b") =
      some (.start, [.word (mapName i), .punct '[', .word (bytes "NR_KEYS"), .punct ']', .punct '=',
        .punct '\x7b']) := rfl
  have hclose : lexFrom .start (bytes "\n\x7d;\n\n") =
      some (.start, [.punct '\x7d', .punct ';']) := rfl
  have htext : bytes "_map[NR_KEYS] = \x7b" = bytes "_map" ++ bytes "[NR_KEYS] = \x7b" := rfl
  have hkeys := lexFrom_flatMap (l := List.range nrKeys) fun j _ => lexFrom_mapKey ctx i j
  have hlex := lexFrom_append (lexFrom_append (lexFrom_append (lexFrom_append (lexFrom_append hstatic
    htype) (lexFrom_mapName h)) hopen) hkeys) hclose
  have hsplit : ctableMap ctx i = (if i ≠ 0 then bytes "static " else []) ++ bytes "unsigned short " ++
      mapName i ++ bytes "[NR_KEYS] = \x7b" ++
      ((List.range nrKeys).flatMap fun j => (if j % 8 = 0 then ['\n'] else []) ++ bytes "\t0x" ++
        fmt04X (toUnsigned (U (lkGetKey ctx i j))) ++ [',']) ++ bytes "\n\x7d;\n\n" := by
    rw [ctableMap, htext, mapName]
    simp only [List.append_assoc]
  rw [hsplit, hlex]
  simp [mapDecl, mapHead]

/-! ### The array of maps -/

def zeroWord : C.Token := .word ['0']

def keyMapsHead : List C.Token :=
  [.word kwUnsigned, .word kwShort, .punct '*', .word (bytes "key_maps"), .punct '[',
    .word (bytes "MAX_NR_KEYMAPS"), .punct ']']

def keyMapsItem (i : Nat) : C.Token := if lkMapExists ctx i then .word (mapName i) else zeroWord

def keyMapsDecl : List C.Token :=
  keyMapsHead ++ .punct '=' :: .punct '\x7b' ::
    ((List.range (ctableImax ctx + 1)).flatMap (fun i => [keyMapsItem ctx i] ++ [.punct ',']) ++
      ((if ctableImax ctx < maxNrKeymaps - 1 then [zeroWord] else []) ++ [.punct '\x7d']))

/-- A variable that is a number. -/
def countDecl (name : List Char) (n : Nat) : List C.Token :=
  [.word kwUnsigned, .word kwInt, .word name] ++ .punct '=' :: [.word (fmtU n)]

theorem ctableImax_lt : ctableImax ctx < 256 := by
  unfold ctableImax
  cases h : (List.range maxNrKeymaps).reverse.find? fun i => i = 0 || lkMapExists ctx i with
  | none => decide
  | some i =>
    have hmem := List.mem_of_find?_eq_some h
    rw [List.mem_reverse, List.mem_range] at hmem
    exact hmem

theorem lexFrom_fmtU (n : Nat) : lexFrom .start (fmtU n) = some (.word (fmtU n), []) :=
  lexFrom_start_word (isWordChar_of_mem_toDigits (by decide) (by decide) n)
    (toDigits_ne_nil (by decide) n)

theorem lexFrom_keyMapsItem {i : Nat} (h : i < 256) :
    lexFrom .start ((if i % 4 ≠ 0 then [' '] else ['\n', '\t']) ++
      (if lkMapExists ctx i then mkMapname i ++ bytes "_map," else bytes "0,")) =
        some (.start, [keyMapsItem ctx i] ++ [.punct ',']) := by
  have hblank : lexFrom .start (if i % 4 ≠ 0 then [' '] else ['\n', '\t']) = some (.start, []) := by
    split <;> rfl
  refine lexFrom_skip hblank ?_
  unfold keyMapsItem
  split
  · have hcomma : lexFrom (.word (mapName i)) [','] =
        some (.start, [.word (mapName i)] ++ [.punct ',']) := rfl
    have hlex := lexFrom_append (lexFrom_mapName h) hcomma
    have htext : mkMapname i ++ bytes "_map," = mapName i ++ [','] := by
      rw [mapName, List.append_assoc]
      rfl
    rw [htext]
    exact hlex
  · rfl

theorem lexFrom_ctableKeyMaps :
    lexFrom .start (ctableKeyMaps ctx) = some (.start, keyMapsDecl ctx ++ [.punct ';'] ++
      (countDecl (bytes "keymap_count") ctx.keymap.count ++ [.punct ';'])) := by
  have hhead : lexFrom .start (bytes "unsigned short *key_maps[MAX_NR_KEYMAPS] = \x7b") =
      some (.start, keyMapsHead ++ [.punct '=', .punct '\x7b']) := rfl
  have hlt (i : Nat) (hi : i ∈ List.range (ctableImax ctx + 1)) : i < 256 := by
    have := ctableImax_lt ctx
    have := List.mem_range.mp hi
    omega
  have hitems := lexFrom_flatMap fun i hi => lexFrom_keyMapsItem ctx (hlt i hi)
  have hlast : lexFrom .start ((if ctableImax ctx < maxNrKeymaps - 1 then bytes "\t0" else []) ++
      bytes "\n\x7d;\n\nunsigned int keymap_count = ") =
        some (.start, (if ctableImax ctx < maxNrKeymaps - 1 then [zeroWord] else []) ++
          [.punct '\x7d', .punct ';', .word kwUnsigned, .word kwInt, .word (bytes "keymap_count"),
            .punct '=']) := by
    split <;> rfl
  have hend : lexFrom (.word (fmtU ctx.keymap.count)) (bytes ";\n\n") =
      some (.start, [.word (fmtU ctx.keymap.count), .punct ';']) := rfl
  have hlex := lexFrom_append (lexFrom_append (lexFrom_append (lexFrom_append hhead hitems) hlast)
    (lexFrom_fmtU ctx.keymap.count)) hend
  have htext : ctableKeyMaps ctx = bytes "unsigned short *key_maps[MAX_NR_KEYMAPS] = \x7b" ++
      ((List.range (ctableImax ctx + 1)).flatMap fun i =>
        (if i % 4 ≠ 0 then [' '] else ['\n', '\t']) ++
          (if lkMapExists ctx i then mkMapname i ++ bytes "_map," else bytes "0,")) ++
      ((if ctableImax ctx < maxNrKeymaps - 1 then bytes "\t0" else []) ++
        bytes "\n\x7d;\n\nunsigned int keymap_count = ") ++ fmtU ctx.keymap.count ++ bytes ";\n\n" := by
    rw [ctableKeyMaps]
    simp only [List.append_assoc]
  rw [htext, hlex]
  simp [keyMapsDecl, keyMapsHead, countDecl]

/-! ### The strings -/

def funcBufHead : List C.Token :=
  [.word kwChar, .word (bytes "func_buf"), .punct '[', .punct ']']

/-- The characters of a string and the one that ends it. -/
def funcItems (s : List Char) : List C.Token :=
  (cstr s).map (fun c => .chr (charBody c.toNat)) ++ [zeroWord]

def funcBufItems : List C.Token :=
  (List.range (ctableMaxfunc ctx)).flatMap fun i => ((ctx.funcTable.get i).map funcItems).getD []

def funcBufDecl : List C.Token :=
  funcBufHead ++ .punct '=' :: .punct '\x7b' ::
    ((funcBufItems ctx).flatMap (fun t => [t] ++ [.punct ',']) ++
      ((if ctableMaxfunc ctx = 0 then [zeroWord] else []) ++ [.punct '\x7d']))

def funcBufPtrDecl : List C.Token :=
  [.word kwChar, .punct '*', .word (bytes "funcbufptr")] ++ .punct '=' :: [.word (bytes "func_buf")]

def funcBufSizeDecl : List C.Token :=
  [.word kwInt, .word (bytes "funcbufsize")] ++ .punct '=' ::
    [.word kwSizeof, .punct '(', .word (bytes "func_buf"), .punct ')']

def funcBufLeftDecl : List C.Token :=
  [.word kwInt, .word (bytes "funcbufleft")] ++ .punct '=' :: [zeroWord]

def funcTableHead : List C.Token :=
  [.word kwChar, .punct '*', .word (bytes "func_table"), .punct '[', .word (bytes "MAX_NR_FUNC"),
    .punct ']']

def funcTableItem (i : Nat) : List C.Token :=
  if (ctx.funcTable.get i).isSome then
    [.word (bytes "func_buf"), .punct '+', .word (fmtU (funcTableOffs ctx i))]
  else [zeroWord]

def funcTableDecl : List C.Token :=
  funcTableHead ++ .punct '=' :: .punct '\x7b' ::
    ((List.range (ctableMaxfunc ctx)).flatMap (fun i => funcTableItem ctx i ++ [.punct ',']) ++
      ((if ctableMaxfunc ctx < maxNrFunc then [zeroWord, .punct ','] else []) ++ [.punct '\x7d']))

theorem lexFrom_func (i : Nat) :
    lexFrom .start (match ctx.funcTable.get i with
      | none => []
      | some s => '\t' :: (cstr s).flatMap (fun c => outchar c.toNat true) ++ bytes "0, \n") =
        some (.start, (((ctx.funcTable.get i).map funcItems).getD []).flatMap
          fun t => [t] ++ [.punct ',']) := by
  cases ctx.funcTable.get i with
  | none => rfl
  | some s =>
    have htab : lexFrom .start ['\t'] = some (.start, []) := rfl
    have hchars := lexFrom_flatMap (l := cstr s) fun c _ => lexFrom_outchar_true c.toNat
    have hend : lexFrom .start (bytes "0, \n") = some (.start, [zeroWord, .punct ',']) := rfl
    have hlex := lexFrom_append (lexFrom_skip htab hchars) hend
    have htoks : (funcItems s).flatMap (fun t => [t] ++ [.punct ',']) =
        (cstr s).flatMap (fun c => [.chr (charBody c.toNat), .punct ',']) ++ [zeroWord, .punct ','] := by
      rw [funcItems, List.flatMap_append, List.flatMap_map]
      rfl
    rw [Option.map_some, Option.getD_some, htoks]
    exact hlex

theorem lexFrom_funcTableItem (i : Nat) :
    lexFrom .start (match ctx.funcTable.get i with
      | some _ => bytes "\tfunc_buf + " ++ fmtU (funcTableOffs ctx i) ++ bytes ",\n"
      | none => bytes "\t0,\n") = some (.start, funcTableItem ctx i ++ [.punct ',']) := by
  unfold funcTableItem
  cases ctx.funcTable.get i with
  | none => rfl
  | some s =>
    have hplus : lexFrom .start (bytes "\tfunc_buf + ") =
        some (.start, [.word (bytes "func_buf"), .punct '+']) := rfl
    have hend : lexFrom (.word (fmtU (funcTableOffs ctx i))) (bytes ",\n") =
        some (.start, [.word (fmtU (funcTableOffs ctx i)), .punct ',']) := rfl
    have hlex := lexFrom_append (lexFrom_append hplus (lexFrom_fmtU (funcTableOffs ctx i))) hend
    exact hlex

/-- The comment in front of the strings, and the first line. -/
def funcsOpening : List Char :=
  bytes "/*\n" ++
  bytes " * Philosophy: most people do not define more strings, but they who do\n" ++
  bytes " * often want quite a lot of string space. So, we statically allocate\n" ++
  bytes " * the default and allocate dynamically in chunks of 512 bytes.\n" ++
  bytes " */\n" ++ bytes "\n" ++ bytes "char func_buf[] = \x7b\n"

/-- What stands between the strings and the pointers to them. -/
def funcsMiddle : List Char :=
  bytes "\x7d;\n\n" ++
  bytes "char *funcbufptr = func_buf;\n" ++ bytes "int funcbufsize = sizeof(func_buf);\n" ++
  bytes "int funcbufleft = 0;          /* space left */\n" ++ bytes "\n" ++
  bytes "char *func_table[MAX_NR_FUNC] = \x7b\n"

theorem append_funcsMiddle (text : List Char) :
    text ++ bytes "\x7d;\n\n" ++ bytes "char *funcbufptr = func_buf;\n" ++
        bytes "int funcbufsize = sizeof(func_buf);\n" ++
        bytes "int funcbufleft = 0;          /* space left */\n" ++ bytes "\n" ++
        bytes "char *func_table[MAX_NR_FUNC] = \x7b\n" =
      text ++ funcsMiddle := by
  simp only [funcsMiddle, List.append_assoc]

theorem lexFrom_funcsOpening : lexFrom .start funcsOpening =
    some (.start, funcBufHead ++ [.punct '=', .punct '\x7b']) := by decide +kernel

theorem lexFrom_funcsMiddle : lexFrom .start funcsMiddle =
    some (.start, [.punct '\x7d', .punct ';'] ++ (funcBufPtrDecl ++ [.punct ';']) ++
      (funcBufSizeDecl ++ [.punct ';']) ++ (funcBufLeftDecl ++ [.punct ';']) ++ funcTableHead ++
      [.punct '=', .punct '\x7b']) := by decide +kernel

theorem lexFrom_ctableFuncs :
    lexFrom .start (ctableFuncs ctx) = some (.start, funcBufDecl ctx ++ [.punct ';'] ++
      (funcBufPtrDecl ++ [.punct ';']) ++ (funcBufSizeDecl ++ [.punct ';']) ++
      (funcBufLeftDecl ++ [.punct ';']) ++ (funcTableDecl ctx ++ [.punct ';'])) := by
  have hstrings := lexFrom_flatMap (l := List.range (ctableMaxfunc ctx)) fun i _ => lexFrom_func ctx i
  have hempty : lexFrom .start (if ctableMaxfunc ctx = 0 then bytes "\t0\n" else []) =
      some (.start, if ctableMaxfunc ctx = 0 then [zeroWord] else []) := by
    split <;> rfl
  have hpointers := lexFrom_flatMap (l := List.range (ctableMaxfunc ctx)) fun i _ =>
    lexFrom_funcTableItem ctx i
  have hlast : lexFrom .start (if ctableMaxfunc ctx < maxNrFunc then bytes "\t0,\n" else []) =
      some (.start, if ctableMaxfunc ctx < maxNrFunc then [zeroWord, .punct ','] else []) := by
    split <;> rfl
  have hclose : lexFrom .start (bytes "\x7d;\n") = some (.start, [.punct '\x7d', .punct ';']) := rfl
  have hlex := lexFrom_append (lexFrom_append (lexFrom_append (lexFrom_append (lexFrom_append
    (lexFrom_append lexFrom_funcsOpening hstrings) hempty) lexFrom_funcsMiddle) hpointers) hlast) hclose
  have htext : ctableFuncs ctx = funcsOpening ++
      ((List.range (ctableMaxfunc ctx)).flatMap fun i =>
        match ctx.funcTable.get i with
        | none => []
        | some s => '\t' :: (cstr s).flatMap (fun c => outchar c.toNat true) ++ bytes "0, \n") ++
      (if ctableMaxfunc ctx = 0 then bytes "\t0\n" else []) ++ funcsMiddle ++
      ((List.range (ctableMaxfunc ctx)).flatMap fun i =>
        match ctx.funcTable.get i with
        | some _ => bytes "\tfunc_buf + " ++ fmtU (funcTableOffs ctx i) ++ bytes ",\n"
        | none => bytes "\t0,\n") ++
      (if ctableMaxfunc ctx < maxNrFunc then bytes "\t0,\n" else []) ++ bytes "\x7d;\n" :=
    congrArg (fun text => text ++
      ((List.range (ctableMaxfunc ctx)).flatMap fun i =>
        match ctx.funcTable.get i with
        | some _ => bytes "\tfunc_buf + " ++ fmtU (funcTableOffs ctx i) ++ bytes ",\n"
        | none => bytes "\t0,\n") ++
      (if ctableMaxfunc ctx < maxNrFunc then bytes "\t0,\n" else []) ++ bytes "\x7d;\n")
      (append_funcsMiddle _)
  rw [htext, hlex]
  simp [funcBufDecl, funcTableDecl, funcBufItems, List.flatMap_assoc]

/-! ### The compose definitions -/

def accentHead (unicode : Bool) : List C.Token :=
  [.word kwStruct, .word (bytes "kbdiacr" ++ if unicode then bytes "uc" else []),
    .word (bytes "accent_table"), .punct '[', .word (bytes "MAX_DIACR"), .punct ']']

def accentResult (unicode : Bool) (result : Nat) : C.Token :=
  if unicode then hexWord result else .chr (charBody result)

def accentItem (unicode : Bool) (d : LkKbdiacr) : List C.Token :=
  .punct '\x7b' :: ([.chr (charBody d.diacr)] ++ .punct ',' :: ([.chr (charBody d.base)] ++ .punct ',' ::
    ([accentResult unicode d.result] ++ [.punct '\x7d'])))

def accentDecl (unicode : Bool) (entries : List LkKbdiacr) : List C.Token :=
  accentHead unicode ++ .punct '=' :: .punct '\x7b' ::
    (entries.flatMap (fun d => accentItem unicode d ++ [.punct ',']) ++ [.punct '\x7d'])

theorem lexFrom_ctableDiac (unicode : Bool) (d : LkKbdiacr) (i : Nat) :
    lexFrom .start (ctableDiac unicode d i) = some (.start, accentItem unicode d ++ [.punct ',']) := by
  have hopen : lexFrom .start (bytes "\t\x7b") = some (.start, [.punct '\x7b']) := rfl
  have hresult : lexFrom .start ((if unicode then bytes "0x" ++ fmt04X d.result else
      outchar d.result false) ++ bytes "\x7d,") =
        some (.start, [accentResult unicode d.result] ++ [.punct '\x7d', .punct ',']) := by
    cases unicode with
    | true =>
      have hend : lexFrom (.word (bytes "0x" ++ fmt04X d.result)) (bytes "\x7d,") =
          some (.start, [hexWord d.result] ++ [.punct '\x7d', .punct ',']) := rfl
      have hlex := lexFrom_append (lexFrom_hex d.result) hend
      exact hlex
    | false =>
      have hend : lexFrom .start (bytes "\x7d,") = some (.start, [.punct '\x7d', .punct ',']) := rfl
      have hlex := lexFrom_append (lexFrom_outchar_false d.result) hend
      exact hlex
  have hblank : lexFrom .start (if i % 2 ≠ 0 then ['\n'] else []) = some (.start, []) := by
    split <;> rfl
  have hlex := lexFrom_append (lexFrom_append (lexFrom_append (lexFrom_append hopen
    (lexFrom_outchar_true d.diacr)) (lexFrom_outchar_true d.base)) hresult) hblank
  have htext : ctableDiac unicode d i = bytes "\t\x7b" ++ outchar d.diacr true ++ outchar d.base true ++
      ((if unicode then bytes "0x" ++ fmt04X d.result else outchar d.result false) ++ bytes "\x7d,") ++
      (if i % 2 ≠ 0 then ['\n'] else []) := by
    rw [ctableDiac]
    simp only [List.append_assoc]
  rw [htext, hlex]
  simp [accentItem]

theorem lexFrom_ctableAccents {entries : List LkKbdiacr} (h : ctableDiacs ctx = some entries) :
    ∃ text, ctableAccents ctx = some text ∧
      lexFrom .start text = some (.start, accentDecl ctx.flags.preferUnicode entries ++ [.punct ';'] ++
        (countDecl (bytes "accent_table_size") ctx.accentTable.count ++ [.punct ';'])) := by
  have hhead (unicode : Bool) : lexFrom .start (bytes "\nstruct kbdiacr" ++
      (if unicode then bytes "uc" else []) ++ bytes " accent_table[MAX_DIACR] = \x7b\n") =
        some (.start, accentHead unicode ++ [.punct '=', .punct '\x7b']) := by
    cases unicode <;> rfl
  have hitems (unicode : Bool) : lexFrom .start (entries.zipIdx.flatMap fun q =>
      ctableDiac unicode q.1 q.2) =
        some (.start, entries.flatMap fun d => accentItem unicode d ++ [.punct ',']) := by
    have hlex := lexFrom_flatMap (l := entries.zipIdx) fun p _ => lexFrom_ctableDiac unicode p.1 p.2
    have hfst : (entries.zipIdx.map Prod.fst).flatMap (fun d => accentItem unicode d ++ [.punct ',']) =
        entries.zipIdx.flatMap fun p => accentItem unicode p.1 ++ [.punct ','] := List.flatMap_map ..
    rw [List.zipIdx_map_fst] at hfst
    rw [hfst]
    exact hlex
  have hblank : lexFrom .start (if ctx.accentTable.count % 2 ≠ 0 then ['\n'] else []) =
      some (.start, []) := by
    split <;> rfl
  have hclose : lexFrom .start (bytes "\x7d;\n\n" ++ bytes "unsigned int accent_table_size = ") =
      some (.start, [.punct '\x7d', .punct ';', .word kwUnsigned, .word kwInt,
        .word (bytes "accent_table_size"), .punct '=']) := rfl
  have hend : lexFrom (.word (fmtU ctx.accentTable.count)) (bytes ";\n") =
      some (.start, [.word (fmtU ctx.accentTable.count), .punct ';']) := rfl
  have hlex := lexFrom_append (lexFrom_append (lexFrom_append (lexFrom_append (lexFrom_append
    (hhead ctx.flags.preferUnicode) (hitems ctx.flags.preferUnicode)) hblank) hclose)
    (lexFrom_fmtU ctx.accentTable.count)) hend
  refine ⟨_, ?_, hlex.trans (by simp [accentDecl, countDecl])⟩
  rw [ctableAccents, h]
  simp only [Option.bind_eq_bind, Option.bind_some, List.append_assoc]
  rfl

/-! ### The file -/

/-- The maps that are written. -/
def ctableMaps : List Nat := (List.range maxNrKeymaps).filter (lkMapExists ctx ·)

/-- The declarations of the file, in order. -/
def ctableDecls (entries : List LkKbdiacr) : List (List C.Token) :=
  (ctableMaps ctx).map (mapDecl ctx) ++
    [keyMapsDecl ctx, countDecl (bytes "keymap_count") ctx.keymap.count, funcBufDecl ctx, funcBufPtrDecl,
      funcBufSizeDecl, funcBufLeftDecl, funcTableDecl ctx] ++
    [accentDecl ctx.flags.preferUnicode entries,
      countDecl (bytes "accent_table_size") ctx.accentTable.count]

theorem lexFrom_ctableHead (unicode : Bool) : lexFrom .start (ctableHead unicode) = some (.start, []) := by
  cases unicode <;> decide +kernel

theorem mem_ctableMaps {i : Nat} : i ∈ ctableMaps ctx ↔ i < maxNrKeymaps ∧ lkMapExists ctx i = true := by
  rw [ctableMaps, List.mem_filter, List.mem_range]

theorem lex_ctableText {entries : List LkKbdiacr} (h : ctableDiacs ctx = some entries) :
    ∃ text, ctableText ctx = some text ∧
      lex text = some ((ctableDecls ctx entries).flatMap fun d => d ++ [.punct ';']) := by
  obtain ⟨accents, haccents, hlexAccents⟩ := lexFrom_ctableAccents ctx h
  have hmaps := lexFrom_flatMap (l := ctableMaps ctx) fun i hi =>
    lexFrom_ctableMap ctx ((mem_ctableMaps ctx).mp hi).1
  have hlex := lexFrom_append (lexFrom_append (lexFrom_append (lexFrom_append
    (lexFrom_ctableHead ctx.flags.preferUnicode) hmaps) (lexFrom_ctableKeyMaps ctx))
    (lexFrom_ctableFuncs ctx)) hlexAccents
  have htext : ctableText ctx = some (ctableHead ctx.flags.preferUnicode ++
      (ctableMaps ctx).flatMap (ctableMap ctx) ++ ctableKeyMaps ctx ++ ctableFuncs ctx ++ accents) := by
    rw [ctableText, haccents]
    rfl
  refine ⟨_, htext, ?_⟩
  rw [lex, hlex]
  simp [ctableDecls, List.flatMap_map]

end Tokens

end Kbd.Keymap
