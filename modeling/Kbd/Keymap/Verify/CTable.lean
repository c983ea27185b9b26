import Kbd.Keymap.Verify.Cells
import Kbd.Keymap.Verify.Compose
import Kbd.Keymap.Verify.CTokens
import Kbd.Keymap.Verify.DumpBinary
import Kbd.Lib.Search

/-!
# The C tables are the tables of the context

The file of `lk_dump_ctable` defines its variables one after the other, so each declaration is read
where those before it are known. The only part that C may not read back are the characters of the
compose definitions, which are written as those of a string also where they are code points.
-/

namespace Kbd.Keymap

open Kbd.Lib Kbd.Lib.C

/-! ## What the tables are for -/

def ushort : IntType := ⟨16, false⟩
def uint : IntType := ⟨32, false⟩
def uchar : IntType := ⟨8, false⟩

/-- What `linux/keyboard.h` and `linux/kd.h` define, for a compiler whose `char` is signed or not. -/
def kernelHeaders (charSigned : Bool) : Impl where
  charSigned := charSigned
  macros := [(bytes "NR_KEYS", nrKeys), (bytes "MAX_NR_KEYMAPS", maxNrKeymaps),
    (bytes "MAX_NR_FUNC", maxNrFunc), (bytes "MAX_DIACR", maxDiacr)]
  structs := [(bytes "kbdiacr", [uchar, uchar, uchar]), (bytes "kbdiacruc", [uint, uint, uint])]

/-- From an index of an array of characters on there are the bytes of a string, and a NUL. -/
structure HoldsString (env : Env) (name : List Char) (start : Nat) (s : List Char) : Prop where
  bytes : ∀ k (h : k < s.length), ∃ v : Int, env.cell name (start + k) = some (.int v) ∧
    v % 256 = s[k].toNat
  nul : env.cell name (start + s.length) = some (.int 0)

/-- The variables of the kernel hold the tables of the context. -/
structure CtableDenotes (ctx : LkCtx) (env : Env) : Prop where
  maps : ∀ i < maxNrKeymaps, lkMapExists ctx i = true → ∃ name,
    env.cell (bytes "key_maps") i = some (.ptr (some (name, 0))) ∧
      ∀ j < nrKeys, env.cell name j = some (.int (U (lkGetKey ctx i j)))
  noMap : ∀ i < maxNrKeymaps, lkMapExists ctx i = false →
    env.cell (bytes "key_maps") i = some (.ptr none)
  strings : ∀ i < maxNrFunc, ∀ s, ctx.funcTable.get i = some s → ∃ start,
    env.cell (bytes "func_table") i = some (.ptr (some (bytes "func_buf", start))) ∧
      HoldsString env (bytes "func_buf") start (cstr s)
  noString : ∀ i < maxNrFunc, ctx.funcTable.get i = none →
    env.cell (bytes "func_table") i = some (.ptr none)
  diacs : ∀ i < ctx.accentTable.count, ∃ d, ctx.accentTable.get i = some d ∧
    env.cell (bytes "accent_table") i = some (.struct [d.diacr, d.base, d.result])
  diacsSize : env.cell (bytes "accent_table_size") 0 = some (.int ctx.accentTable.count)

/-! ## Values -/

section Values

variable {impl : Impl} {env : Env}

theorem isExprToken_hexWord (n : Nat) : isExprToken (hexWord n) = true := rfl

theorem evalExpr_hexWord (n : Nat) : evalExpr impl env [hexWord n] = some (.int n) := by
  have hconst : constant (bytes "0x" ++ fmt04X n) = some n :=
    numeral_leftpad (by decide) (by decide) 4 n
  rw [hexWord, evalExpr, hconst]

theorem evalExpr_fmtU (n : Nat) : evalExpr impl env [.word (fmtU n)] = some (.int n) := by
  rw [evalExpr, fmtU, constant_toDigits]

theorem evalExpr_zeroWord : evalExpr impl env [zeroWord] = some (.int 0) := rfl

theorem initCell_zeroWord (t : IntType) :
    initCell impl env (.int t) (.expr [zeroWord]) = some (.int 0) := by
  have hzero : t.convert 0 = 0 := by
    unfold IntType.convert
    split <;> simp
  simp only [initCell, evalInt, evalExpr_zeroWord, hzero, Option.map_some]

theorem evalExpr_charBody (c : Nat) :
    evalExpr impl env [.chr (charBody c)] = (charOfByte impl.charSigned c).map .int := by
  rw [evalExpr, charValue_charBody]

/-- `U` on a code. -/
theorem U_isUshort {v : Int} (h : IsUshort v) : IsUshort (U v) := by
  obtain ⟨n, rfl⟩ := Int.eq_ofNat_of_zero_le h.1
  have hn : n < 2 ^ 16 := by
    have := h.2
    omega
  have hlt : n ^^^ 0xf000 < 2 ^ 16 := Nat.xor_lt_two_pow hn (by decide)
  have hU : U (n : Int) = ((n ^^^ 0xf000 : Nat) : Int) := U_natCast n
  rw [hU]
  exact ⟨by omega, by omega⟩

theorem convert_ushort {v : Int} (h : IsUshort v) : ushort.convert (toUnsigned v) = v := by
  have h0 := h.1
  have h1 := h.2
  simp only [IntType.convert, ushort, toUnsigned]
  norm_num
  omega

end Values

/-! ## The maps -/

section Maps

variable (charSigned : Bool) (ctx : LkCtx)

def mapObject (i : Nat) : Object :=
  ⟨.int ushort, true, (List.range nrKeys).map fun j => .int (U (lkGetKey ctx i j))⟩

theorem parseHead_mapHead (i : Nat) :
    parseHead (kernelHeaders charSigned) (mapHead i) =
      some ⟨.int ushort, mapName i, some (some nrKeys)⟩ := by
  unfold mapHead
  split <;> rfl

theorem isDecl_mapDecl (i : Nat) : IsDecl (kernelHeaders charSigned) (mapDecl ctx i)
    ⟨.int ushort, mapName i, some (some nrKeys)⟩
    (.list ((List.range nrKeys).map (fun j => .expr [mapKey ctx i j]) ++ [])) := by
  have htokens : C.Token.punct '=' ∉ mapHead i ∧ C.Token.punct ';' ∉ mapHead i := by
    unfold mapHead
    split <;> simp
  have hitems (j : Nat) (_ : j ∈ List.range nrKeys) :
      IsItem [mapKey ctx i j] (.expr [mapKey ctx i j]) := .one (isExprToken_hexWord _)
  exact .mk (parseHead_mapHead charSigned i) htokens (.braces (.flatMap hitems .nil))

theorem readDecl_mapDecl {i : Nat} (hvalues : ∀ j, IsUshort (lkGetKey ctx i j)) {env : Env}
    (hnew : env.lookup (mapName i) = none) :
    readDecl (kernelHeaders charSigned) env (mapDecl ctx i) =
      some (env ++ [(mapName i, mapObject ctx i)]) := by
  have hkeys : ((List.range nrKeys).map (fun j => Init.expr [mapKey ctx i j]) ++ []).mapM
      (initCell (kernelHeaders charSigned) env (.int ushort)) =
        some ((List.range nrKeys).map fun j => .int (U (lkGetKey ctx i j))) := by
    rw [List.append_nil, List.mapM_map]
    refine Checked.mapM_of_some fun j _ => ?_
    simp only [Function.comp_apply, initCell, evalInt, mapKey, evalExpr_hexWord, Option.map_some,
      convert_ushort (U_isUshort (hvalues j))]
  rw [(isDecl_mapDecl charSigned ctx i).readDecl hnew, initObject_list rfl (by simp), hkeys]
  simp [mapObject]

/-- The map whose name it is. -/
def mapOfName (name : List Char) : Nat :=
  (["shift", "altgr", "ctrl", "alt", "shl", "shr", "ctl", "ctr"].zipIdx.map fun (word, i) =>
    if (name.splitOn '_').contains (bytes word) then 2 ^ i else 0).sum

theorem mapOfName_mapName : ∀ i < 256, mapOfName (mapName i) = i := by decide +kernel

theorem nodup_mapNames : ((ctableMaps ctx).map mapName).Nodup := by
  refine List.Nodup.map_on ?_ (List.nodup_range.filter _)
  intro i hi j hj hij
  rw [← mapOfName_mapName i ((mem_ctableMaps ctx).mp hi).1, hij,
    mapOfName_mapName j ((mem_ctableMaps ctx).mp hj).1]

/-- The variables of the maps. -/
def mapVars : Env := (ctableMaps ctx).map fun i => (mapName i, mapObject ctx i)

theorem defines_maps (hvalues : ∀ t i, lkMapExists ctx t = true → IsUshort (lkGetKey ctx t i)) :
    Defines (kernelHeaders charSigned) [] ((ctableMaps ctx).map (mapDecl ctx)) (mapVars ctx) := by
  refine Defines.map (nodup_mapNames ctx) (fun i _ hmem => by cases hmem) fun i hi env hnew => ?_
  exact readDecl_mapDecl charSigned ctx (fun j => hvalues i j ((mem_ctableMaps ctx).mp hi).2)
    (lookup_eq_none_iff.mpr hnew)

theorem lookup_mapName {i : Nat} (hi : i < maxNrKeymaps) (hm : lkMapExists ctx i = true) (vars : Env) :
    (mapVars ctx ++ vars).lookup (mapName i) = some (mapObject ctx i) := by
  have hnodup : ((mapVars ctx).map Prod.fst).Nodup := by
    rw [mapVars, List.map_map]
    exact nodup_mapNames ctx
  have hmem : (mapName i, mapObject ctx i) ∈ mapVars ctx :=
    List.mem_map.mpr ⟨i, (mem_ctableMaps ctx).mpr ⟨hi, hm⟩, rfl⟩
  rw [List.lookup_append, lookup_eq_some_of_mem hnodup hmem, Option.some_or]

/-- The other variables have other names. -/
theorem lookup_not_map {name : List Char} (h : ¬ bytes "_map" <:+ name) (vars : Env) :
    (mapVars ctx ++ vars).lookup name = vars.lookup name := by
  have hnone : (mapVars ctx).lookup name = none := by
    rw [lookup_eq_none_iff, mapVars, List.map_map, List.mem_map]
    rintro ⟨i, -, rfl⟩
    exact h (List.suffix_append ..)
  rw [List.lookup_append, hnone, Option.none_or]

/-- What `key_maps` holds for a map. -/
def keyMapsCell (i : Nat) : Cell := .ptr (if lkMapExists ctx i then some (mapName i, 0) else none)

def keyMapsObject : Object := ⟨.ptr ushort, true, (List.range maxNrKeymaps).map (keyMapsCell ctx)⟩

theorem isExprToken_keyMapsItem (i : Nat) : isExprToken (keyMapsItem ctx i) = true := by
  unfold keyMapsItem
  split <;> rfl

theorem constant_mapName {i : Nat} (h : i < 256) : constant (mapName i) = none := by
  have hall : ∀ i < 256, constant (mapName i) = none := by decide +kernel
  exact hall i h

theorem le_ctableImax {i : Nat} (hi : i < maxNrKeymaps) (hm : lkMapExists ctx i = true) :
    i ≤ ctableImax ctx := by
  unfold ctableImax
  cases hfind : (List.range maxNrKeymaps).reverse.find? fun i => i = 0 || lkMapExists ctx i with
  | none =>
    have hnot := List.find?_eq_none.mp hfind i (List.mem_reverse.mpr (List.mem_range.mpr hi))
    simp [hm] at hnot
  | some k => exact Search.le_of_find?_reverse_range hfind hi (by simp [hm])

theorem isDecl_keyMapsDecl : IsDecl (kernelHeaders charSigned) (keyMapsDecl ctx)
    ⟨.ptr ushort, bytes "key_maps", some (some maxNrKeymaps)⟩
    (.list ((List.range (ctableImax ctx + 1)).map (fun i => .expr [keyMapsItem ctx i]) ++
      if ctableImax ctx + 1 < maxNrKeymaps then [.expr [zeroWord]] else [])) := by
  have hitems (i : Nat) (_ : i ∈ List.range (ctableImax ctx + 1)) :
      IsItem [keyMapsItem ctx i] (.expr [keyMapsItem ctx i]) := .one (isExprToken_keyMapsItem ctx i)
  have htail : IsTail ((if ctableImax ctx < maxNrKeymaps - 1 then [zeroWord] else []) ++ [.punct '\x7d'])
      (if ctableImax ctx + 1 < maxNrKeymaps then [.expr [zeroWord]] else []) := by
    by_cases hlt : ctableImax ctx < maxNrKeymaps - 1
    · rw [if_pos hlt, if_pos (by omega)]
      exact .one (.one rfl)
    · rw [if_neg hlt, if_neg (by omega)]
      exact .nil
  exact .mk rfl (by decide) (.braces (.flatMap hitems htail))

theorem readDecl_keyMapsDecl {vars : Env}
    (hnew : (mapVars ctx ++ vars).lookup (bytes "key_maps") = none) :
    readDecl (kernelHeaders charSigned) (mapVars ctx ++ vars) (keyMapsDecl ctx) =
      some (mapVars ctx ++ vars ++ [(bytes "key_maps", keyMapsObject ctx)]) := by
  have hlt := ctableImax_lt ctx
  have hcells (i : Nat) (hi : i < ctableImax ctx + 1) :
      initCell (kernelHeaders charSigned) (mapVars ctx ++ vars) (.ptr ushort)
        (.expr [keyMapsItem ctx i]) = some (keyMapsCell ctx i) := by
    unfold keyMapsItem keyMapsCell
    split
    · rename_i hm
      have hlookup := lookup_mapName ctx (show i < 256 by omega) hm vars
      rw [initCell, evalExpr, constant_mapName (by omega), hlookup]
      rfl
    · rfl
  have hrest (i : Nat) (hi : ctableImax ctx + 1 ≤ i) (hi' : i < maxNrKeymaps) :
      keyMapsCell ctx i = (ElemType.ptr ushort).zero := by
    rw [keyMapsCell, if_neg]
    · rfl
    · intro hm
      have := le_ctableImax ctx hi' hm
      omega
  rw [(isDecl_keyMapsDecl charSigned ctx).readDecl hnew, initObject_prefix rfl hlt hcells hrest rfl]
  rfl

end Maps

theorem isDecl_countDecl (impl : Impl) (name : List Char) (n : Nat) :
    IsDecl impl (countDecl name n) ⟨.int uint, name, none⟩ (.expr [.word (fmtU n)]) :=
  .mk rfl (by simp) (.one rfl)

/-- A variable that is a number. -/
theorem readDecl_countDecl (impl : Impl) {env : Env} (name : List Char) (n : Nat)
    (hnew : env.lookup name = none) :
    readDecl impl env (countDecl name n) =
      some (env ++ [(name, ⟨.int uint, false, [.int (uint.convert n)]⟩)]) := by
  have hvalue : initCell impl env (.int uint) (.expr [.word (fmtU n)]) =
      some (.int (uint.convert n)) := by
    simp only [initCell, evalInt, evalExpr_fmtU, Option.map_some]
  rw [(isDecl_countDecl impl name n).readDecl hnew]
  simp only [initObject, hvalue, Option.map_some]

/-! ## The strings -/

section Strings

variable (charSigned : Bool) (ctx : LkCtx)

/-- The value of a character. -/
def charCell (c : Char) : Cell := .int ((charOfByte charSigned c.toNat).getD 0)

/-- What `func_buf` holds for string `i`. -/
def stringCells (i : Nat) : List Cell :=
  ((ctx.funcTable.get i).map fun s => (cstr s).map (charCell charSigned) ++ [.int 0]).getD []

def funcBufObject : Object :=
  ⟨.int ⟨8, charSigned⟩, true, (List.range (ctableMaxfunc ctx)).flatMap (stringCells charSigned ctx) ++
    if ctableMaxfunc ctx = 0 then [.int 0] else []⟩

/-- What `func_table` holds for string `i`. -/
def funcTableCell (i : Nat) : Cell :=
  .ptr (if (ctx.funcTable.get i).isSome then some (bytes "func_buf", funcTableOffs ctx i) else none)

def funcTableObject : Object :=
  ⟨.ptr ⟨8, charSigned⟩, true, (List.range maxNrFunc).map (funcTableCell ctx)⟩

/-- The value of a token of `func_buf`. -/
def funcBufCell : C.Token → Cell
  | .chr body => .int ((charValue charSigned body).getD 0)
  | _ => .int 0

theorem map_funcBufCell : (funcBufItems ctx).map (funcBufCell charSigned) =
    (List.range (ctableMaxfunc ctx)).flatMap (stringCells charSigned ctx) := by
  rw [funcBufItems, List.map_flatMap]
  congr 1
  funext i
  unfold stringCells
  cases ctx.funcTable.get i with
  | none => rfl
  | some s =>
    have hchars : (cstr s).map (funcBufCell charSigned ∘ fun c => C.Token.chr (charBody c.toNat)) =
        (cstr s).map (charCell charSigned) := by
      refine List.map_congr_left fun c _ => ?_
      simp only [Function.comp_apply, funcBufCell, charCell, charValue_charBody]
    rw [Option.map_some, Option.map_some, Option.getD_some, Option.getD_some, funcItems, List.map_append,
      List.map_map, hchars]
    rfl

theorem length_stringCells (i : Nat) : (stringCells charSigned ctx i).length =
    (ctx.funcTable.get i).elim 0 fun s => (cstr s).length + 1 := by
  unfold stringCells
  cases ctx.funcTable.get i <;> simp

/-- The offsets are those of the strings in the buffer. -/
theorem funcTableOffs_eq (i : Nat) :
    funcTableOffs ctx i = ((List.range i).flatMap (stringCells charSigned ctx)).length := by
  rw [funcTableOffs, List.length_flatMap]
  congr 1
  exact List.map_congr_left fun k _ => (length_stringCells charSigned ctx k).symm

theorem lt_ctableMaxfunc {i : Nat} (hi : i < maxNrFunc) (hs : (ctx.funcTable.get i).isSome = true) :
    i < ctableMaxfunc ctx := by
  unfold ctableMaxfunc
  cases hfind : (List.range maxNrFunc).reverse.find? fun i => (ctx.funcTable.get i).isSome with
  | none =>
    have hnot := List.find?_eq_none.mp hfind i (List.mem_reverse.mpr (List.mem_range.mpr hi))
    exact absurd hs hnot
  | some k => exact Nat.lt_succ_of_le (Search.le_of_find?_reverse_range hfind hi hs)

theorem ctableMaxfunc_le : ctableMaxfunc ctx ≤ maxNrFunc := by
  unfold ctableMaxfunc
  cases hfind : (List.range maxNrFunc).reverse.find? fun i => (ctx.funcTable.get i).isSome with
  | none => exact Nat.zero_le _
  | some k =>
    have hmem := List.mem_of_find?_eq_some hfind
    rw [List.mem_reverse, List.mem_range] at hmem
    exact hmem

/-- The buffer before a string, the string, and the rest. -/
theorem funcBufObject_split {i : Nat} (hi : i < ctableMaxfunc ctx) :
    ∃ before after, (funcBufObject charSigned ctx).cells = before ++ stringCells charSigned ctx i ++ after ∧
      before.length = funcTableOffs ctx i := by
  have hrange : List.range (ctableMaxfunc ctx) =
      List.range i ++ i :: List.range' (i + 1) (ctableMaxfunc ctx - (i + 1)) := by
    rw [List.range_eq_range', List.range_eq_range', ← List.range'_succ,
      ← show i + (ctableMaxfunc ctx - (i + 1) + 1) = ctableMaxfunc ctx by omega, ← List.range'_append_1]
    congr 2 <;> omega
  refine ⟨(List.range i).flatMap (stringCells charSigned ctx),
    (List.range' (i + 1) (ctableMaxfunc ctx - (i + 1))).flatMap (stringCells charSigned ctx) ++
      (if ctableMaxfunc ctx = 0 then [.int 0] else []), ?_, (funcTableOffs_eq charSigned ctx i).symm⟩
  rw [funcBufObject, hrange, List.flatMap_append, List.flatMap_cons]
  simp only [List.append_assoc]

theorem isDecl_funcBufDecl : IsDecl (kernelHeaders charSigned) (funcBufDecl ctx)
    ⟨.int ⟨8, charSigned⟩, bytes "func_buf", some none⟩
    (.list ((funcBufItems ctx).map (fun t => .expr [t]) ++
      if ctableMaxfunc ctx = 0 then [.expr [zeroWord]] else [])) := by
  have hitems (t : C.Token) (ht : t ∈ funcBufItems ctx) : IsItem [t] (.expr [t]) := by
    refine .one ?_
    rw [funcBufItems, List.mem_flatMap] at ht
    obtain ⟨i, -, ht⟩ := ht
    cases hs : ctx.funcTable.get i with
    | none =>
      rw [hs] at ht
      cases ht
    | some s =>
      rw [hs, Option.map_some, Option.getD_some, funcItems, List.mem_append, List.mem_map] at ht
      rcases ht with ⟨c, -, rfl⟩ | ht
      · rfl
      · rw [List.mem_singleton.mp ht]
        rfl
  have htail : IsTail ((if ctableMaxfunc ctx = 0 then [zeroWord] else []) ++ [.punct '\x7d'])
      (if ctableMaxfunc ctx = 0 then [.expr [zeroWord]] else []) := by
    split
    · exact .one (.one rfl)
    · exact .nil
  exact .mk rfl (by decide) (.braces (.flatMap hitems htail))

/-- A character of a string is in the range of `char`. -/
theorem convert_charOfByte {n : Nat} (h : n < 256) :
    ∃ v : Int, charOfByte charSigned n = some v ∧ IntType.convert ⟨8, charSigned⟩ v = v ∧ v % 256 = n := by
  refine ⟨_, if_pos h, ?_⟩
  cases charSigned with
  | false => 
    simp [IntType.convert]
    omega
  | true =>
    by_cases hn : n ≥ 128
    · simp [IntType.convert, hn, Int.bmod]
      omega
    · simp [IntType.convert, hn, Int.bmod]
      omega

variable (hbytes : ∀ i s, ctx.funcTable.get i = some s → ∀ c ∈ s, c.toNat < 256)

include hbytes

theorem initCell_funcBufItem {env : Env} :
    ∀ t ∈ funcBufItems ctx, initCell (kernelHeaders charSigned) env (.int ⟨8, charSigned⟩) (.expr [t]) =
      some (funcBufCell charSigned t) := by
  intro t ht
  rw [funcBufItems, List.mem_flatMap] at ht
  obtain ⟨i, -, ht⟩ := ht
  cases hs : ctx.funcTable.get i with
  | none =>
    rw [hs] at ht
    cases ht
  | some s =>
    rw [hs, Option.map_some, Option.getD_some, funcItems, List.mem_append, List.mem_map] at ht
    rcases ht with ⟨c, hc, rfl⟩ | ht
    · have hmem : c ∈ s := (List.takeWhile_sublist _).subset hc
      obtain ⟨v, hv, hconvert, -⟩ := convert_charOfByte charSigned (hbytes i s hs c hmem)
      have hvalue : evalExpr (kernelHeaders charSigned) env [.chr (charBody c.toNat)] = some (.int v) := by
        rw [evalExpr_charBody]
        simp only [kernelHeaders, hv, Option.map_some]
      simp only [initCell, evalInt, hvalue, hconvert, Option.map_some, funcBufCell, charValue_charBody, hv,
        Option.getD_some]
    · rw [List.mem_singleton.mp ht]
      exact initCell_zeroWord _

theorem readDecl_funcBufDecl {env : Env} (hnew : env.lookup (bytes "func_buf") = none) :
    readDecl (kernelHeaders charSigned) env (funcBufDecl ctx) =
      some (env ++ [(bytes "func_buf", funcBufObject charSigned ctx)]) := by
  have hcells : ((funcBufItems ctx).map (fun t => Init.expr [t]) ++
      if ctableMaxfunc ctx = 0 then [Init.expr [zeroWord]] else []).mapM
        (initCell (kernelHeaders charSigned) env (.int ⟨8, charSigned⟩)) =
          some (funcBufObject charSigned ctx).cells := by
    have hstrings : ((funcBufItems ctx).map (fun t => Init.expr [t])).mapM
        (initCell (kernelHeaders charSigned) env (.int ⟨8, charSigned⟩)) =
          some ((List.range (ctableMaxfunc ctx)).flatMap (stringCells charSigned ctx)) := by
      rw [List.mapM_map, ← map_funcBufCell]
      exact Checked.mapM_of_some (initCell_funcBufItem charSigned ctx hbytes)
    rw [List.mapM_append, hstrings, funcBufObject]
    split
    · simp only [List.mapM_cons, initCell_zeroWord, List.mapM_nil]
      rfl
    · rfl
  rw [(isDecl_funcBufDecl charSigned ctx).readDecl hnew, initObject_list rfl (Nat.le_refl _), hcells]
  simp [funcBufObject]

omit hbytes

theorem address_funcBuf {index : Nat} (h : index ≤ (funcBufObject charSigned ctx).cells.length) :
    address (bytes "func_buf") index (funcBufObject charSigned ctx) =
      some (.address (bytes "func_buf") index ⟨8, charSigned⟩) := by
  unfold address funcBufObject at *
  exact if_pos ⟨rfl, h⟩

theorem isDecl_funcBufPtrDecl : IsDecl (kernelHeaders charSigned) funcBufPtrDecl
    ⟨.ptr ⟨8, charSigned⟩, bytes "funcbufptr", none⟩ (.expr [.word (bytes "func_buf")]) :=
  .mk rfl (by decide) (.one rfl)

theorem isDecl_funcBufSizeDecl : IsDecl (kernelHeaders charSigned) funcBufSizeDecl
    ⟨.int ⟨32, true⟩, bytes "funcbufsize", none⟩
    (.expr [.word kwSizeof, .punct '(', .word (bytes "func_buf"), .punct ')']) :=
  .mk rfl (by decide) (.expr (by simp) (by decide))

theorem isDecl_funcBufLeftDecl : IsDecl (kernelHeaders charSigned) funcBufLeftDecl
    ⟨.int ⟨32, true⟩, bytes "funcbufleft", none⟩ (.expr [zeroWord]) :=
  .mk rfl (by decide) (.one rfl)

theorem isDecl_funcTableDecl : IsDecl (kernelHeaders charSigned) (funcTableDecl ctx)
    ⟨.ptr ⟨8, charSigned⟩, bytes "func_table", some (some maxNrFunc)⟩
    (.list ((List.range (ctableMaxfunc ctx)).map (fun i => .expr (funcTableItem ctx i)) ++
      if ctableMaxfunc ctx < maxNrFunc then [.expr [zeroWord]] else [])) := by
  have hitems (i : Nat) (_ : i ∈ List.range (ctableMaxfunc ctx)) :
      IsItem (funcTableItem ctx i) (.expr (funcTableItem ctx i)) := by
    unfold funcTableItem
    split
    · exact .expr (by simp) (by simp [isExprToken])
    · exact .one rfl
  have htail : IsTail ((if ctableMaxfunc ctx < maxNrFunc then [zeroWord, .punct ','] else []) ++
      [.punct '\x7d']) (if ctableMaxfunc ctx < maxNrFunc then [.expr [zeroWord]] else []) := by
    split
    · exact .cons (.one rfl) .nil
    · exact .nil
  exact .mk rfl (by decide) (.braces (.flatMap hitems htail))

section Pointers

variable {env : Env} (hbuf : env.lookup (bytes "func_buf") = some (funcBufObject charSigned ctx))

include hbuf

theorem readDecl_funcBufPtrDecl (hnew : env.lookup (bytes "funcbufptr") = none) :
    readDecl (kernelHeaders charSigned) env funcBufPtrDecl = some (env ++
      [(bytes "funcbufptr", ⟨.ptr ⟨8, charSigned⟩, false, [.ptr (some (bytes "func_buf", 0))]⟩)]) := by
  have hvalue : initCell (kernelHeaders charSigned) env (.ptr ⟨8, charSigned⟩)
      (.expr [.word (bytes "func_buf")]) = some (.ptr (some (bytes "func_buf", 0))) := by
    have hconst : constant (bytes "func_buf") = none := by decide
    have haddress := address_funcBuf charSigned ctx (Nat.zero_le _)
    simp only [initCell, evalExpr, hconst, hbuf, Option.bind_some, haddress, if_true]
  rw [(isDecl_funcBufPtrDecl charSigned).readDecl hnew]
  simp only [initObject, hvalue, Option.map_some]

theorem readDecl_funcBufSizeDecl (hnew : env.lookup (bytes "funcbufsize") = none) :
    readDecl (kernelHeaders charSigned) env funcBufSizeDecl = some (env ++ [(bytes "funcbufsize",
      ⟨.int ⟨32, true⟩, false,
        [.int (IntType.convert ⟨32, true⟩ (funcBufObject charSigned ctx).cells.length)]⟩)]) := by
  have hsize : (funcBufObject charSigned ctx).size = some (funcBufObject charSigned ctx).cells.length := by
    simp [Object.size, funcBufObject]
  rw [(isDecl_funcBufSizeDecl charSigned).readDecl hnew]
  simp [initObject, initCell, evalInt, evalExpr, hbuf, hsize]

theorem readDecl_funcTableDecl (hnew : env.lookup (bytes "func_table") = none) :
    readDecl (kernelHeaders charSigned) env (funcTableDecl ctx) =
      some (env ++ [(bytes "func_table", funcTableObject charSigned ctx)]) := by
  have hcells (i : Nat) (hi : i < ctableMaxfunc ctx) :
      initCell (kernelHeaders charSigned) env (.ptr ⟨8, charSigned⟩) (.expr (funcTableItem ctx i)) =
        some (funcTableCell ctx i) := by
    unfold funcTableItem funcTableCell
    split
    · obtain ⟨before, after, hsplit, hlen⟩ := funcBufObject_split charSigned ctx hi
      have hle : funcTableOffs ctx i ≤ (funcBufObject charSigned ctx).cells.length := by
        rw [hsplit, List.length_append, List.length_append, hlen]
        omega
      have haddress := address_funcBuf charSigned ctx hle
      have hconst : constant (fmtU (funcTableOffs ctx i)) = some (funcTableOffs ctx i) :=
        constant_toDigits _
      simp only [initCell, evalExpr, hbuf, hconst, Option.bind_eq_bind, Option.bind_some, haddress, if_true]
    · rfl
  have hrest (i : Nat) (hi : ctableMaxfunc ctx ≤ i) (hi' : i < maxNrFunc) :
      funcTableCell ctx i = (ElemType.ptr ⟨8, charSigned⟩).zero := by
    rw [funcTableCell, if_neg]
    · rfl
    · intro hs
      have := lt_ctableMaxfunc ctx hi' hs
      omega
  rw [(isDecl_funcTableDecl charSigned ctx).readDecl hnew,
    initObject_prefix rfl (ctableMaxfunc_le ctx) hcells hrest rfl]
  rfl

end Pointers

theorem readDecl_funcBufLeftDecl {env : Env} (hnew : env.lookup (bytes "funcbufleft") = none) :
    readDecl (kernelHeaders charSigned) env funcBufLeftDecl =
      some (env ++ [(bytes "funcbufleft", ⟨.int ⟨32, true⟩, false, [.int 0]⟩)]) := by
  rw [(isDecl_funcBufLeftDecl charSigned).readDecl hnew]
  simp only [initObject, initCell_zeroWord, Option.map_some]

end Strings

/-! ## The compose definitions -/

section Accents

variable (charSigned unicode : Bool)

/-- The type of the fields of an entry. -/
def fieldType : IntType := if unicode then uint else uchar

/-- The result is a number in the Unicode mode. -/
def resultValue (result : Nat) : Option Int :=
  if unicode then some result else charOfByte charSigned result

/-- What `accent_table` holds for an entry, where C says what its characters are. -/
def accentCell (d : LkKbdiacr) : Option Cell := do
  let diacr ← charOfByte charSigned d.diacr
  let base ← charOfByte charSigned d.base
  let result ← resultValue charSigned unicode d.result
  return .struct ([diacr, base, result].map (fieldType unicode).convert)

def accentObject (cells : List Cell) : Object :=
  ⟨.struct (List.replicate 3 (fieldType unicode)), true,
    cells ++ List.replicate (maxDiacr - cells.length) (.struct [0, 0, 0])⟩

def accentInit (d : LkKbdiacr) : Init :=
  .list [.expr [.chr (charBody d.diacr)], .expr [.chr (charBody d.base)],
    .expr [accentResult unicode d.result]]

theorem isItem_accentItem (d : LkKbdiacr) : IsItem (accentItem unicode d) (accentInit unicode d) := by
  have hresult : isExprToken (accentResult unicode d.result) = true := by
    unfold accentResult
    split <;> rfl
  exact .braces (.cons (.one rfl) (.cons (.one rfl) (.one (.one hresult))))

theorem initCell_accentInit {env : Env} (d : LkKbdiacr) :
    initCell (kernelHeaders charSigned) env (.struct (List.replicate 3 (fieldType unicode)))
      (accentInit unicode d) = accentCell charSigned unicode d := by
  have hresult : evalExpr (kernelHeaders charSigned) env [accentResult unicode d.result] =
      (resultValue charSigned unicode d.result).map .int := by
    unfold accentResult resultValue
    split
    · exact evalExpr_hexWord _
    · exact evalExpr_charBody _
  have hchar (n : Nat) : evalExpr (kernelHeaders charSigned) env [.chr (charBody n)] =
      (charOfByte charSigned n).map .int := evalExpr_charBody n
  simp only [accentInit, initCell, List.replicate_succ, List.replicate_zero, structFields, evalInt, hchar,
    hresult, accentCell]
  cases charOfByte charSigned d.diacr with
  | none => rfl
  | some x =>
    cases charOfByte charSigned d.base with
    | none => rfl
    | some y =>
      cases resultValue charSigned unicode d.result with
      | none => rfl
      | some z => rfl

theorem isDecl_accentDecl (entries : List LkKbdiacr) :
    IsDecl (kernelHeaders charSigned) (accentDecl unicode entries)
      ⟨.struct (List.replicate 3 (fieldType unicode)), bytes "accent_table", some (some maxDiacr)⟩
      (.list (entries.map (accentInit unicode) ++ [])) := by
  have hhead : parseHead (kernelHeaders charSigned) (accentHead unicode) =
      some ⟨.struct (List.replicate 3 (fieldType unicode)), bytes "accent_table", some (some maxDiacr)⟩ := by
    cases unicode <;> rfl
  have htokens : C.Token.punct '=' ∉ accentHead unicode ∧ C.Token.punct ';' ∉ accentHead unicode := by
    cases unicode <;> decide
  have hitems (d : LkKbdiacr) (_ : d ∈ entries) : IsItem (accentItem unicode d) (accentInit unicode d) :=
    isItem_accentItem unicode d
  exact .mk hhead htokens (.braces (.flatMap hitems .nil))

theorem readDecl_accentDecl {env : Env} {entries : List LkKbdiacr} (hlen : entries.length ≤ maxDiacr)
    (hnew : env.lookup (bytes "accent_table") = none) :
    readDecl (kernelHeaders charSigned) env (accentDecl unicode entries) =
      (entries.mapM (accentCell charSigned unicode)).map fun cells =>
        env ++ [(bytes "accent_table", accentObject unicode cells)] := by
  have hinits : (entries.map (accentInit unicode) ++ []).length = entries.length := by simp
  have hcells : (entries.map (accentInit unicode) ++ []).mapM (initCell (kernelHeaders charSigned) env
      (.struct (List.replicate 3 (fieldType unicode)))) =
        entries.mapM (accentCell charSigned unicode) := by
    rw [List.append_nil, List.mapM_map]
    congr 1
    funext d
    exact initCell_accentInit charSigned unicode d
  rw [(isDecl_accentDecl charSigned unicode entries).readDecl hnew,
    initObject_list rfl (by rw [hinits]; exact hlen), hcells, hinits, Option.getD_some]
  cases hm : entries.mapM (accentCell charSigned unicode) with
  | none => rfl
  | some cells =>
    rw [← Checked.length_of_mapM hm]
    rfl

/-- The fields fit what the mode has. -/
def FieldsFit (d : LkKbdiacr) : Prop :=
  let max := if unicode then 0xffff else 0xff
  d.diacr ≤ max ∧ d.base ≤ max ∧ d.result ≤ max

/-- The greatest character of which the `char` is not negative. -/
def charMax : Nat := if charSigned then 0x7f else 0xff

theorem convert_uchar_charOfByte {n : Nat} (h : n < 256) :
    ∃ v, charOfByte charSigned n = some v ∧ uchar.convert v = n := by
  refine ⟨_, if_pos h, ?_⟩
  simp only [IntType.convert, uchar, Bool.false_eq_true, if_false]
  split <;> norm_num <;> omega

theorem convert_uint_charOfByte_iff (n : Nat) :
    (∃ v, charOfByte charSigned n = some v ∧ uint.convert v = n) ↔ n ≤ charMax charSigned := by
  unfold charOfByte charMax
  by_cases hn : n < 256
  · rw [if_pos hn]
    simp only [Option.some.injEq, exists_eq_left', IntType.convert, uint]
    cases charSigned
    · norm_num
      omega
    · norm_num
      split <;> omega
  · rw [if_neg hn]
    simp only [reduceCtorEq, false_and, exists_false, false_iff]
    split <;> omega

/-- An entry is read back in the 8-bit mode, and in the Unicode mode if its characters are not those of
negative values. -/
theorem accentCell_eq_iff {d : LkKbdiacr} (h : FieldsFit unicode d) :
    accentCell charSigned unicode d = some (.struct [d.diacr, d.base, d.result]) ↔
      (unicode = true → d.diacr ≤ charMax charSigned ∧ d.base ≤ charMax charSigned) := by
  have hcell : accentCell charSigned unicode d = some (.struct [d.diacr, d.base, d.result]) ↔
      (∃ v, charOfByte charSigned d.diacr = some v ∧ (fieldType unicode).convert v = d.diacr) ∧
      (∃ v, charOfByte charSigned d.base = some v ∧ (fieldType unicode).convert v = d.base) ∧
      ∃ v, resultValue charSigned unicode d.result = some v ∧
        (fieldType unicode).convert v = d.result := by
    constructor
    · intro hd
      simp only [accentCell, Option.bind_eq_bind, Option.bind_eq_some_iff, Option.pure_def,
        Option.some.injEq, Cell.struct.injEq, List.map_cons, List.map_nil, List.cons.injEq] at hd
      obtain ⟨x, hx, y, hy, z, hz, hx', hy', hz', -⟩ := hd
      exact ⟨⟨x, hx, hx'⟩, ⟨y, hy, hy'⟩, z, hz, hz'⟩
    · rintro ⟨⟨x, hx, hx'⟩, ⟨y, hy, hy'⟩, z, hz, hz'⟩
      simp only [accentCell, hx, hy, hz, Option.bind_eq_bind, Option.bind_some, Option.pure_def,
        List.map_cons, List.map_nil, hx', hy', hz']
  rw [hcell]
  cases unicode with
  | true =>
    have hmax : d.result ≤ 0xffff := h.2.2
    have hresult : ∃ v, some (d.result : Int) = some v ∧ uint.convert v = d.result := by
      refine ⟨d.result, rfl, ?_⟩
      simp only [IntType.convert, uint]
      norm_num
      omega
    have hdiacr := convert_uint_charOfByte_iff charSigned d.diacr
    have hbase := convert_uint_charOfByte_iff charSigned d.base
    simp only [fieldType, resultValue, if_true, hdiacr, hbase, hresult, and_true, forall_const]
  | false =>
    have hmax : d.diacr ≤ 0xff ∧ d.base ≤ 0xff ∧ d.result ≤ 0xff := h
    have hfield {n : Nat} (hn : n ≤ 0xff) := convert_uchar_charOfByte charSigned (show n < 256 by omega)
    simp only [fieldType, resultValue, Bool.false_eq_true, if_false, hfield hmax.1, hfield hmax.2.1, hfield hmax.2.2,
      and_true, false_implies]

end Accents

/-! ## The file -/

section File

variable (charSigned : Bool) (ctx : LkCtx)

/-- The variables between the maps and the compose definitions. -/
def tableVars : Env :=
  [(bytes "key_maps", keyMapsObject ctx),
    (bytes "keymap_count", ⟨.int uint, false, [.int (uint.convert ctx.keymap.count)]⟩),
    (bytes "func_buf", funcBufObject charSigned ctx),
    (bytes "funcbufptr", ⟨.ptr ⟨8, charSigned⟩, false, [.ptr (some (bytes "func_buf", 0))]⟩),
    (bytes "funcbufsize", ⟨.int ⟨32, true⟩, false,
      [.int (IntType.convert ⟨32, true⟩ (funcBufObject charSigned ctx).cells.length)]⟩),
    (bytes "funcbufleft", ⟨.int ⟨32, true⟩, false, [.int 0]⟩),
    (bytes "func_table", funcTableObject charSigned ctx)]

/-- The variables of the file. -/
def ctableVars (cells : List Cell) : Env :=
  mapVars ctx ++ (tableVars charSigned ctx ++
    [(bytes "accent_table", accentObject ctx.flags.preferUnicode cells),
      (bytes "accent_table_size", ⟨.int uint, false, [.int (uint.convert ctx.accentTable.count)]⟩)])

theorem defines_tables (hbytes : ∀ i s, ctx.funcTable.get i = some s → ∀ c ∈ s, c.toNat < 256) :
    Defines (kernelHeaders charSigned) (mapVars ctx)
      [keyMapsDecl ctx, countDecl (bytes "keymap_count") ctx.keymap.count, funcBufDecl ctx, funcBufPtrDecl,
        funcBufSizeDecl, funcBufLeftDecl, funcTableDecl ctx] (tableVars charSigned ctx) := by
  have hlookup {name : List Char} {vars : Env} {o : Option Object} (hname : ¬ bytes "_map" <:+ name)
      (ho : vars.lookup name = o) : (mapVars ctx ++ vars).lookup name = o :=
    (lookup_not_map ctx hname vars).trans ho
  have hkeyMaps : Defines (kernelHeaders charSigned) (mapVars ctx ++ []) [keyMapsDecl ctx]
      [(bytes "key_maps", keyMapsObject ctx)] :=
    .one (readDecl_keyMapsDecl charSigned ctx (hlookup (by decide) rfl))
  rw [List.append_nil] at hkeyMaps
  have hcount := hkeyMaps.append (.one (readDecl_countDecl (kernelHeaders charSigned) (bytes "keymap_count")
    ctx.keymap.count (hlookup (by decide) rfl)))
  have hbuf := hcount.append (.one (readDecl_funcBufDecl charSigned ctx hbytes
    (hlookup (by decide) rfl)))
  have hptr := hbuf.append (.one (readDecl_funcBufPtrDecl charSigned ctx
    (hlookup (by decide) rfl) (hlookup (by decide) rfl)))
  have hsize := hptr.append (.one (readDecl_funcBufSizeDecl charSigned ctx
    (hlookup (by decide) rfl) (hlookup (by decide) rfl)))
  have hleft := hsize.append (.one (readDecl_funcBufLeftDecl charSigned
    (hlookup (by decide) rfl)))
  exact hleft.append (.one (readDecl_funcTableDecl charSigned ctx
    (hlookup (by decide) rfl) (hlookup (by decide) rfl)))

/-- The semicolons are those between the declarations. -/
theorem declarations_ctableDecls (entries : List LkKbdiacr) :
    declarations [] ((ctableDecls ctx entries).flatMap fun d => d ++ [.punct ';']) =
      some (ctableDecls ctx entries) := by
  refine declarations_flatMap fun d hd => ?_
  simp only [ctableDecls, List.mem_append, List.mem_map, List.mem_cons, List.not_mem_nil, or_false] at hd
  rcases hd with (⟨i, -, rfl⟩ | rfl | rfl | rfl | rfl | rfl | rfl | rfl) | rfl | rfl
  · exact (isDecl_mapDecl true ctx i).noEnd
  · exact (isDecl_keyMapsDecl true ctx).noEnd
  · exact (isDecl_countDecl (kernelHeaders true) _ _).noEnd
  · exact (isDecl_funcBufDecl true ctx).noEnd
  · exact (isDecl_funcBufPtrDecl true).noEnd
  · exact (isDecl_funcBufSizeDecl true).noEnd
  · exact (isDecl_funcBufLeftDecl true).noEnd
  · exact (isDecl_funcTableDecl true ctx).noEnd
  · exact (isDecl_accentDecl true _ entries).noEnd
  · exact (isDecl_countDecl (kernelHeaders true) _ _).noEnd

/-- The text is read as these variables, if C says what the compose definitions are. -/
theorem read_ctableText (hvalues : ∀ t i, lkMapExists ctx t = true → IsUshort (lkGetKey ctx t i))
    (hbytes : ∀ i s, ctx.funcTable.get i = some s → ∀ c ∈ s, c.toNat < 256)
    {entries : List LkKbdiacr} (hentries : ctableDiacs ctx = some entries)
    (hlen : entries.length ≤ maxDiacr) :
    ∃ text, ctableText ctx = some text ∧ C.read (kernelHeaders charSigned) text =
      (entries.mapM (accentCell charSigned ctx.flags.preferUnicode)).map (ctableVars charSigned ctx) := by
  obtain ⟨text, htext, hlex⟩ := lex_ctableText ctx hentries
  refine ⟨text, htext, ?_⟩
  have hmaps := (defines_maps charSigned ctx hvalues).append (defines_tables charSigned ctx hbytes)
  have hnew {name : List Char} (vars : Env) (hname : ¬ bytes "_map" <:+ name)
      (h : vars.lookup name = none) : (mapVars ctx ++ vars).lookup name = none :=
    (lookup_not_map ctx hname vars).trans h
  have haccent := readDecl_accentDecl charSigned ctx.flags.preferUnicode hlen
    (hnew (tableVars charSigned ctx) (by decide) rfl)
  have hfirst : ((ctableMaps ctx).map (mapDecl ctx) ++
      [keyMapsDecl ctx, countDecl (bytes "keymap_count") ctx.keymap.count, funcBufDecl ctx, funcBufPtrDecl,
        funcBufSizeDecl, funcBufLeftDecl, funcTableDecl ctx]).foldlM (readDecl (kernelHeaders charSigned)) [] =
          some (mapVars ctx ++ tableVars charSigned ctx) := hmaps
  rw [C.read, hlex]
  simp only [Option.bind_eq_bind, Option.bind_some, declarations_ctableDecls]
  rw [ctableDecls, List.foldlM_append, hfirst]
  simp only [Option.bind_eq_bind, Option.bind_some, List.foldlM_cons, haccent]
  cases hm : entries.mapM (accentCell charSigned ctx.flags.preferUnicode) with
  | none => rfl
  | some cells =>
    have hsize := readDecl_countDecl (kernelHeaders charSigned) (bytes "accent_table_size")
      ctx.accentTable.count (hnew (tableVars charSigned ctx ++
        [(bytes "accent_table", accentObject ctx.flags.preferUnicode cells)]) (by decide) rfl)
    rw [← List.append_assoc] at hsize
    rw [Option.map_some, Option.bind_some, hsize]
    simp [ctableVars]

/-! ### What the variables hold -/

section Holds

variable (cells : List Cell)

theorem cell_eq {name : List Char} (hname : ¬ bytes "_map" <:+ name) {o : Object}
    (ho : (tableVars charSigned ctx ++
      [(bytes "accent_table", accentObject ctx.flags.preferUnicode cells),
        (bytes "accent_table_size", ⟨.int uint, false, [.int (uint.convert ctx.accentTable.count)]⟩)]).lookup
          name = some o) (i : Nat) :
    (ctableVars charSigned ctx cells).cell name i = o.cells[i]? := by
  rw [Env.cell, ctableVars, lookup_not_map ctx hname, ho, Option.bind_some]

theorem cell_keyMaps {i : Nat} (hi : i < maxNrKeymaps) :
    (ctableVars charSigned ctx cells).cell (bytes "key_maps") i = some (keyMapsCell ctx i) := by
  rw [cell_eq charSigned ctx cells (by decide) rfl]
  simp [keyMapsObject, hi]

theorem cell_mapName {i j : Nat} (hi : i < maxNrKeymaps) (hm : lkMapExists ctx i = true)
    (hj : j < nrKeys) : (ctableVars charSigned ctx cells).cell (mapName i) j =
      some (.int (U (lkGetKey ctx i j))) := by
  rw [Env.cell, ctableVars, lookup_mapName ctx hi hm, Option.bind_some]
  simp [mapObject, hj]

theorem cell_funcTable {i : Nat} (hi : i < maxNrFunc) :
    (ctableVars charSigned ctx cells).cell (bytes "func_table") i = some (funcTableCell ctx i) := by
  rw [cell_eq charSigned ctx cells (by decide) rfl]
  simp [funcTableObject, hi]

theorem holdsString_funcBuf (hbytes : ∀ i s, ctx.funcTable.get i = some s → ∀ c ∈ s, c.toNat < 256)
    {i : Nat} (hi : i < maxNrFunc) {s : List Char} (hs : ctx.funcTable.get i = some s) :
    HoldsString (ctableVars charSigned ctx cells) (bytes "func_buf") (funcTableOffs ctx i) (cstr s) := by
  have hlt := lt_ctableMaxfunc ctx hi (by rw [hs]; rfl)
  obtain ⟨before, after, hsplit, hlen⟩ := funcBufObject_split charSigned ctx hlt
  have hstring : stringCells charSigned ctx i = (cstr s).map (charCell charSigned) ++ [.int 0] := by
    rw [stringCells, hs, Option.map_some, Option.getD_some]
  have hcell {k : Nat} (hk : k < (stringCells charSigned ctx i).length) :
      (ctableVars charSigned ctx cells).cell (bytes "func_buf") (funcTableOffs ctx i + k) =
        (stringCells charSigned ctx i)[k]? := by
    rw [cell_eq charSigned ctx cells (by decide) rfl, hsplit, ← hlen, List.append_assoc,
      List.getElem?_append_right (Nat.le_add_right _ _), Nat.add_sub_cancel_left,
      List.getElem?_append_left hk]
  rw [hstring] at hcell
  refine ⟨fun k hk => ?_, ?_⟩
  · have hmem : (cstr s)[k] ∈ s := (List.takeWhile_sublist _).subset (List.getElem_mem hk)
    obtain ⟨v, hv, -, hbyte⟩ := convert_charOfByte charSigned (hbytes i s hs _ hmem)
    refine ⟨v, ?_, hbyte⟩
    have hvalue : charCell charSigned (cstr s)[k] = .int v := by
      rw [charCell, hv, Option.getD_some]
    rw [hcell (by simp; omega), List.getElem?_append_left (by simpa using hk), List.getElem?_map,
      List.getElem?_eq_getElem hk, Option.map_some, hvalue]
  · rw [hcell (by simp)]
    simp

end Holds

theorem get_of_ctableDiacs {entries : List LkKbdiacr} (h : ctableDiacs ctx = some entries) :
    entries.length = ctx.accentTable.count ∧
      ∀ i < ctx.accentTable.count, ctx.accentTable.get i = entries[i]? := by
  have hlen : entries.length = ctx.accentTable.count := by
    rw [Checked.length_of_mapM h, List.length_range]
  refine ⟨hlen, fun i hi => ?_⟩
  have hmap := congrArg (·[i]?) (Checked.map_of_mapM h)
  have hi' : i < entries.length := by omega
  simpa [List.getElem?_map, hi, hi'] using hmap

/-- All but the compose definitions is always as it should be. -/
theorem ctableDenotes_iff (hbytes : ∀ i s, ctx.funcTable.get i = some s → ∀ c ∈ s, c.toNat < 256)
    {entries : List LkKbdiacr} (hentries : ctableDiacs ctx = some entries) (hlen : entries.length < maxDiacr)
    {cells : List Cell} (hcells : entries.mapM (accentCell charSigned ctx.flags.preferUnicode) = some cells) :
    CtableDenotes ctx (ctableVars charSigned ctx cells) ↔ ∀ d ∈ entries,
      accentCell charSigned ctx.flags.preferUnicode d = some (.struct [d.diacr, d.base, d.result]) := by
  obtain ⟨hcount, hget⟩ := get_of_ctableDiacs ctx hentries
  have hmap := Checked.map_of_mapM hcells
  have hcell {i : Nat} (hi : i < entries.length) :
      (ctableVars charSigned ctx cells).cell (bytes "accent_table") i =
        accentCell charSigned ctx.flags.preferUnicode entries[i] := by
    have hi' : i < cells.length := by rwa [Checked.length_of_mapM hcells]
    have hat := congrArg (·[i]?) hmap
    simp only [List.getElem?_map, List.getElem?_eq_getElem hi, List.getElem?_eq_getElem hi',
      Option.map_some, Option.some.injEq] at hat
    rw [cell_eq charSigned ctx cells (by decide) rfl, hat, accentObject, List.getElem?_append_left hi',
      List.getElem?_eq_getElem hi']
  constructor
  · intro h d hd
    obtain ⟨i, hi, rfl⟩ := List.getElem_of_mem hd
    obtain ⟨d, hd, hstruct⟩ := h.diacs i (by omega)
    rw [hget i (by omega), List.getElem?_eq_getElem hi] at hd
    obtain rfl := Option.some.inj hd
    rw [← hcell hi]
    exact hstruct
  · intro h
    constructor
    · intro i hi hm
      refine ⟨mapName i, ?_, fun j hj => cell_mapName charSigned ctx cells hi hm hj⟩
      rw [cell_keyMaps charSigned ctx cells hi, keyMapsCell, if_pos hm]
    · intro i hi hm
      rw [cell_keyMaps charSigned ctx cells hi, keyMapsCell, if_neg (by simp [hm])]
    · intro i hi s hs
      refine ⟨funcTableOffs ctx i, ?_, holdsString_funcBuf charSigned ctx cells hbytes hi hs⟩
      rw [cell_funcTable charSigned ctx cells hi, funcTableCell, if_pos (by rw [hs]; rfl)]
    · intro i hi hs
      rw [cell_funcTable charSigned ctx cells hi, funcTableCell, if_neg (by simp [hs])]
    · intro i hi
      have hi' : i < entries.length := by omega
      refine ⟨entries[i], (hget i hi).trans (List.getElem?_eq_getElem hi'), ?_⟩
      rw [hcell hi']
      exact h _ (List.getElem_mem hi')
    · rw [cell_eq charSigned ctx cells (by decide) rfl]
      have hfew : ctx.accentTable.count < 256 := hcount ▸ hlen
      have hsize : uint.convert ctx.accentTable.count = ctx.accentTable.count := by
        simp only [IntType.convert, uint]
        norm_num
        omega
      rw [hsize]
      rfl

end File

/-! ## `lk_dump_ctable` -/

/-- What a keymap has: the codes are 16 bits, the strings are bytes, and the compose definitions have
no holes, fit the mode and are fewer than the table has room for. -/
structure CtableInput (ctx : LkCtx) : Prop where
  values : ∀ t i, lkMapExists ctx t = true → IsUshort (lkGetKey ctx t i)
  strings : ∀ i s, ctx.funcTable.get i = some s → ∀ c ∈ s, c.toNat < 256
  noHoles : NoHoles ctx
  count : ctx.accentTable.count < maxDiacr
  fields : ∀ d ∈ liveDiacrs ctx, FieldsFit ctx.flags.preferUnicode d

/-- The compose definitions have no characters that C does not read back. -/
def AccentsReadBack (charSigned : Bool) (ctx : LkCtx) : Prop :=
  ctx.flags.preferUnicode = true →
    ∀ d ∈ liveDiacrs ctx, d.diacr ≤ charMax charSigned ∧ d.base ≤ charMax charSigned

section

variable {ctx ctx' : LkCtx}

/-- `lk_add_constants` does not leave the codes, and leaves the other tables alone. -/
theorem CtableInput.addConstants (h : CtableInput ctx) (hrun : lkAddConstants.run ctx = .ok () ctx') :
    CtableInput ctx' := by
  have hsame := (rowsUpdate_of_run hrun).settings
  have hlive : liveDiacrs ctx' = liveDiacrs ctx := by
    unfold liveDiacrs
    rw [hsame.accentTable]
  have hcells : CellsIn IsUshort ctx := by
    intro i t v hv
    by_cases hk : lkKeyExists ctx t i = true
    · have hm : lkMapExists ctx t = true := by
        by_contra hm
        rw [row_eq_none_of_not_exists (Bool.eq_false_iff.mpr hm)] at hv
        cases hv
      rw [LkCtx.row, if_pos hk] at hv
      rw [← Option.some.inj hv]
      exact h.values t i hm
    · rw [LkCtx.row, if_neg hk] at hv
      cases hv
  have hshort (v : Int) (h0 : 0 ≤ v) (hv : v < 0x10000) : IsUshort v := ⟨h0, by omega⟩
  have hcells' : CellsIn IsUshort ctx' := by
    have hkeeps := keepsIn_lkAddConstants hshort ctx hcells
    rwa [hrun] at hkeeps
  refine ⟨fun t i hm => hcells'.lkGetKey (hshort kHole (by decide) (by decide)) hm i, ?_, ?_, ?_, ?_⟩
  · rw [hsame.funcTable]
    exact h.strings
  · unfold NoHoles
    rw [hsame.accentTable]
    exact h.noHoles
  · rw [hsame.accentTable]
    exact h.count
  · rw [hlive, hsame.flags]
    exact h.fields

/-- The text of a context denotes its tables if the characters of the compose definitions are read
back. -/
theorem ctableText_denotes_iff (charSigned : Bool) (h : CtableInput ctx) :
    ∃ text, ctableText ctx = some text ∧
      ((∃ env, C.read (kernelHeaders charSigned) text = some env ∧ CtableDenotes ctx env) ↔
        AccentsReadBack charSigned ctx) := by
  have hentries : ctableDiacs ctx = some (liveDiacrs ctx) := by
    rw [ctableDiacs, mapM_get_of_isSome fun i hi => (h.noHoles i).mpr (List.mem_range.mp hi),
      h.noHoles.liveDiacrs_eq, dumpedDiacs]
  have hlen : (liveDiacrs ctx).length < maxDiacr := by
    rw [(get_of_ctableDiacs ctx hentries).1]
    exact h.count
  obtain ⟨text, htext, hread⟩ :=
    read_ctableText charSigned ctx h.values h.strings hentries (Nat.le_of_lt hlen)
  refine ⟨text, htext, ?_⟩
  have hback : AccentsReadBack charSigned ctx ↔ ∀ d ∈ liveDiacrs ctx,
      accentCell charSigned ctx.flags.preferUnicode d = some (.struct [d.diacr, d.base, d.result]) := by
    constructor
    · intro hback d hd
      exact (accentCell_eq_iff charSigned _ (h.fields d hd)).mpr fun hu => hback hu d hd
    · intro hcell hu d hd
      exact (accentCell_eq_iff charSigned _ (h.fields d hd)).mp (hcell d hd) hu
  rw [hread, hback]
  constructor
  · rintro ⟨env, henv, hdenotes⟩
    obtain ⟨cells, hcells, rfl⟩ := Option.map_eq_some_iff.mp henv
    exact (ctableDenotes_iff charSigned ctx h.strings hentries hlen hcells).mp hdenotes
  · intro hcell
    obtain ⟨cells, hcells⟩ : ∃ cells, (liveDiacrs ctx).mapM
        (accentCell charSigned ctx.flags.preferUnicode) = some cells :=
      ⟨_, Checked.mapM_of_some hcell⟩
    refine ⟨ctableVars charSigned ctx cells, by rw [hcells]; rfl, ?_⟩
    exact (ctableDenotes_iff charSigned ctx h.strings hentries hlen hcells).mpr hcell

/-- The C source denotes the tables of the context after `lk_add_constants`, except that in the Unicode
mode the characters of the compose definitions have to be those of the positive values of a `char`. -/
theorem lkDumpCtable_denotes_iff (charSigned : Bool) (h : CtableInput ctx)
    (hrun : lkAddConstants.run ctx = .ok () ctx') :
    ∃ text, lkDumpCtable ctx = .ok (some text) ∧
      ((∃ env, C.read (kernelHeaders charSigned) text = some env ∧ CtableDenotes ctx' env) ↔
        AccentsReadBack charSigned ctx) := by
  obtain ⟨text, htext, hdenotes⟩ := ctableText_denotes_iff charSigned (h.addConstants hrun)
  have hsame := (rowsUpdate_of_run hrun).settings
  have hback : AccentsReadBack charSigned ctx' ↔ AccentsReadBack charSigned ctx := by
    unfold AccentsReadBack liveDiacrs
    rw [hsame.flags, hsame.accentTable]
  refine ⟨text, ?_, hdenotes.trans hback⟩
  rw [lkDumpCtable, hrun]
  exact congrArg Except.ok htext

end

/-- A context with a map, a string and a compose definition. -/
def sampleCtx (unicode : Bool) (d : LkKbdiacr) : LkCtx :=
  { lkInit { preferUnicode := unicode } 0 with
    keymap := ⟨[some ⟨[0, 0xb62], 1⟩], 1⟩
    funcTable := ⟨[some ['\x1b', '\x27']], 1⟩
    accentTable := ⟨[some d], 1⟩ }

theorem ctableInput_sampleCtx {unicode : Bool} {d : LkKbdiacr} (hd : FieldsFit unicode d) :
    CtableInput (sampleCtx unicode d) := by
  constructor
  · intro t i hm
    cases t with
    | zero =>
      have hget : lkGetKey (sampleCtx unicode d) 0 i = if [0, 0xb62].getD i 0 = (0 : Int) then kHole
        else [0, 0xb62].getD i 0 - 1 := rfl
      rw [hget]
      match i with
      | 0 => exact ⟨by decide, by decide⟩
      | 1 => exact ⟨by decide, by decide⟩
      | i + 2 =>
        change IsUshort kHole
        exact ⟨by decide, by decide⟩
    | succ t => cases hm
  · intro i s hs
    match i with
    | 0 =>
      obtain rfl := Option.some.inj hs
      exact List.forall_mem_cons.mpr ⟨by decide, List.forall_mem_singleton.mpr (by decide)⟩
    | i + 1 => cases hs
  · intro i
    match i with
    | 0 => exact iff_of_true rfl Nat.zero_lt_one
    | i + 1 => exact iff_of_false Bool.false_ne_true (Nat.not_lt.mpr (Nat.le_add_left 1 i))
  · exact Nat.lt_of_lt_of_le Nat.one_lt_two (by decide)
  · intro d' hd'
    obtain rfl := List.mem_singleton.mp hd'
    exact hd

theorem lkDumpCtable_denotes_sample : ∃ text,
    lkDumpCtable (sampleCtx false ⟨0xb4, 0x65, 0xe9⟩) = .ok (some text) ∧
      ∃ env, C.read (kernelHeaders true) text = some env ∧
        CtableDenotes (sampleCtx false ⟨0xb4, 0x65, 0xe9⟩) env := by
  have hinput : CtableInput (sampleCtx false ⟨0xb4, 0x65, 0xe9⟩) :=
    ctableInput_sampleCtx ⟨by decide, by decide, by decide⟩
  obtain ⟨text, htext, hdenotes⟩ :=
    lkDumpCtable_denotes_iff true hinput (lkAddConstants_of_init rfl)
  exact ⟨text, htext, hdenotes.mpr fun hu => nomatch hu⟩

theorem not_lkDumpCtable_denotes : ¬ ∀ charSigned ctx ctx', CtableInput ctx →
    lkAddConstants.run ctx = .ok () ctx' → ∃ text env, lkDumpCtable ctx = .ok (some text) ∧
      C.read (kernelHeaders charSigned) text = some env ∧ CtableDenotes ctx' env := by
  intro hall
  have hinput : CtableInput (sampleCtx true ⟨0x301, 0x65, 0xe9⟩) :=
    ctableInput_sampleCtx ⟨by decide, by decide, by decide⟩
  have hrun : lkAddConstants.run (sampleCtx true ⟨0x301, 0x65, 0xe9⟩) =
      .ok () (sampleCtx true ⟨0x301, 0x65, 0xe9⟩) := lkAddConstants_of_init rfl
  obtain ⟨text, env, htext, hdenotes⟩ := hall false _ _ hinput hrun
  obtain ⟨text', htext', hiff⟩ := ctableText_denotes_iff false hinput
  have hsame : text' = text := by
    rw [lkDumpCtable, hrun] at htext
    exact Option.some.inj (htext'.symm.trans (Except.ok.inj htext))
  rw [hsame] at hiff
  have hback := hiff.mp ⟨env, hdenotes⟩ rfl ⟨0x301, 0x65, 0xe9⟩ (List.mem_singleton_self _)
  exact absurd hback.1 (by decide)

end Kbd.Keymap
