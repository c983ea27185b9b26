import Mathlib.Data.List.Basic
import Mathlib.Tactic.Common

/-!
# Trees of files and pathnames

A file system is a tree of directories and regular files together with a working directory. A
pathname is resolved one component at a time, as `stat` does it: every component but the last has to
lead to a directory, empty components and `.` stay where they are, and `..` leaves the directory.
-/

namespace Kbd.Lib.FileTree

/-- A regular file, or a directory with its entries in the order in which they are listed. -/
inductive Node where
  | file
  | dir (entries : List (List Char × Node))

/-- The way from the root to a node. -/
abbrev Place := List (List Char)

namespace Node

/-- The entry of a directory. -/
def child : Node → List Char → Option Node
  | file, _ => none
  | dir es, name => es.lookup name

/-- The node at the end of the way. -/
def get? : Node → Place → Option Node
  | n, [] => some n
  | n, name :: p => (n.child name).bind (get? · p)

/-- The entries, of a directory only. -/
def entries? : Node → Option (List (List Char × Node))
  | file => none
  | dir es => some es

/-- It is a regular file (`S_ISREG`). -/
def isReg : Node → Bool
  | file => true
  | dir _ => false

/-- A name that an entry can have. -/
def GoodName (name : List Char) : Prop := name ≠ [] ∧ '/' ∉ name ∧ name ≠ ['.'] ∧ name ≠ ['.', '.']

instance (name : List Char) : Decidable (GoodName name) :=
  inferInstanceAs (Decidable (name ≠ [] ∧ '/' ∉ name ∧ name ≠ ['.'] ∧ name ≠ ['.', '.']))

/-- The entries of every directory have names, all different. -/
inductive Good : Node → Prop where
  | file : Good file
  | dir {es : List (List Char × Node)} (nodup : (es.map Prod.fst).Nodup)
      (names : ∀ e ∈ es, GoodName e.1) (nodes : ∀ e ∈ es, Good e.2) : Good (dir es)

end Node

/-- A tree with a working directory. -/
structure FileSystem where
  root : List (List Char × Node)
  cwd : Place
  good : (Node.dir root).Good
  cwd_dir : ((Node.dir root).get? cwd).bind Node.entries? ≠ none

namespace FileSystem

variable (fs : FileSystem)

/-- The node at a place. -/
def node (p : Place) : Option Node := (Node.dir fs.root).get? p

/-- The entries of the directory at a place. -/
def entriesAt (p : Place) : Option (List (List Char × Node)) := (fs.node p).bind Node.entries?

/-- One component of a pathname. -/
def step (p : Place) (comp : List Char) : Option Place :=
  (fs.entriesAt p).bind fun es =>
    if comp = [] ∨ comp = ['.'] then some p
    else if comp = ['.', '.'] then some p.dropLast
    else if (es.lookup comp).isSome then some (p ++ [comp]) else none

/-- The place a pathname leads to. -/
def resolve (path : List Char) : Option Place :=
  if path = [] then none
  else (path.splitOn '/').foldlM fs.step (if path.head? = some '/' then [] else fs.cwd)

/-- The regular file a pathname leads to (`stat` and `S_ISREG`). -/
def fileAt (path : List Char) : Option Place :=
  (fs.resolve path).filter fun p => (fs.node p).any Node.isReg

/-- The directory a pathname leads to (`stat` and `S_ISDIR`), with its entries. -/
def dirAt (path : List Char) : Option (Place × List (List Char × Node)) :=
  (fs.resolve path).bind fun p => (fs.entriesAt p).map (p, ·)

/-- `scandir`: the names of a directory, its own and that of the one above it included. -/
def scandir (path : List Char) : Option (List (List Char)) :=
  (fs.dirAt path).map fun d => ['.'] :: ['.', '.'] :: d.2.map Prod.fst

end FileSystem

/-! ## Nodes -/

namespace Node

theorem Good.child {n m : Node} (h : n.Good) {name : List Char} (hm : n.child name = some m) :
    m.Good := by
  cases h with
  | file => cases hm
  | dir _ _ hnodes =>
    obtain ⟨l₁, l₂, rfl, -⟩ := List.lookup_eq_some_iff.mp hm
    exact hnodes (name, m) (by simp)

theorem Good.get? {p : Place} : ∀ {n m : Node}, n.Good → n.get? p = some m → m.Good := by
  induction p with
  | nil =>
    intro n m h hm
    cases hm
    exact h
  | cons name p ih =>
    intro n m h hm
    obtain ⟨k, hk, hm⟩ := Option.bind_eq_some_iff.mp hm
    exact ih (h.child hk) hm

theorem get?_append (p q : Place) : ∀ n : Node, n.get? (p ++ q) = (n.get? p).bind (get? · q) := by
  induction p with
  | nil =>
    intro n
    rfl
  | cons name p ih =>
    intro n
    cases h : n.child name with
    | none => simp [get?, h]
    | some m => simp [get?, h, ih m]

end Node

namespace FileSystem

variable {fs : FileSystem} {p q : Place} {es : List (List Char × Node)}

theorem node_append_singleton (h : fs.entriesAt p = some es) (name : List Char) :
    fs.node (p ++ [name]) = es.lookup name := by
  obtain ⟨n, hn, hes⟩ := Option.bind_eq_some_iff.mp h
  cases n with
  | file => cases hes
  | dir es' =>
    cases hes
    rw [node] at hn ⊢
    rw [Node.get?_append, hn]
    simp [Node.get?, Node.child]

theorem entriesAt_append_singleton (h : fs.entriesAt p = some es) (name : List Char) :
    fs.entriesAt (p ++ [name]) = (es.lookup name).bind Node.entries? := by
  rw [entriesAt, node_append_singleton h]

theorem good_entriesAt (h : fs.entriesAt p = some es) : (Node.dir es).Good := by
  obtain ⟨n, hn, hes⟩ := Option.bind_eq_some_iff.mp h
  cases n with
  | file => cases hes
  | dir es' =>
    cases hes
    exact fs.good.get? hn

theorem nodup_entriesAt (h : fs.entriesAt p = some es) : (es.map Prod.fst).Nodup := by
  cases good_entriesAt h with
  | dir hnodup _ _ => exact hnodup

theorem goodName_of_mem (h : fs.entriesAt p = some es) {e : List Char × Node} (he : e ∈ es) :
    Node.GoodName e.1 := by
  cases good_entriesAt h with
  | dir _ hnames _ => exact hnames e he

theorem goodName_of_lookup (h : fs.entriesAt p = some es) {name : List Char} {n : Node}
    (hn : es.lookup name = some n) : Node.GoodName name := by
  obtain ⟨l₁, l₂, rfl, -⟩ := List.lookup_eq_some_iff.mp hn
  exact goodName_of_mem h (e := (name, n)) (by simp)

theorem lookup_of_mem (h : fs.entriesAt p = some es) {e : List Char × Node} (he : e ∈ es) :
    es.lookup e.1 = some e.2 := by
  have hnodup := nodup_entriesAt h
  obtain ⟨l₁, l₂, rfl⟩ := List.append_of_mem he
  refine List.lookup_eq_some_iff.mpr ⟨l₁, l₂, rfl, ?_⟩
  intro e' he'
  rw [List.map_append, List.nodup_append] at hnodup
  exact bne_iff_ne.mpr (hnodup.2.2 e'.1 (List.mem_map_of_mem he') e.1 (by simp)).symm

/-- What lies above a directory is a directory. -/
theorem entriesAt_dropLast (h : fs.entriesAt p = some es) : ∃ es', fs.entriesAt p.dropLast = some es' := by
  rcases List.eq_nil_or_concat p with rfl | ⟨q, name, rfl⟩
  · exact ⟨es, h⟩
  · rw [List.concat_eq_append] at h ⊢
    rw [List.dropLast_concat]
    obtain ⟨n, hn, -⟩ := Option.bind_eq_some_iff.mp h
    rw [node, Node.get?_append] at hn
    obtain ⟨m, hm, hn⟩ := Option.bind_eq_some_iff.mp hn
    cases m with
    | file => cases hn
    | dir es' => exact ⟨es', by rw [entriesAt, node, hm]; rfl⟩

/-! ## Pathnames -/

/-- A pathname with one more component. -/
theorem resolve_append {dir comp : List Char} (hdir : dir ≠ []) (hcomp : '/' ∉ comp) :
    fs.resolve (dir ++ '/' :: comp) = (fs.resolve dir).bind (fs.step · comp) := by
  have hhead : (dir ++ '/' :: comp).head? = dir.head? := by
    rw [List.head?_append_of_ne_nil _ hdir]
  rw [resolve, if_neg (by simp), hhead, List.splitOn_append_cons_self,
    List.splitOn_eq_singleton hcomp, List.foldlM_append, resolve, if_neg hdir]
  simp

theorem resolve_dot : fs.resolve ['.'] = some fs.cwd := by
  have h := fs.cwd_dir
  obtain ⟨es, hes⟩ := Option.ne_none_iff_exists'.mp h
  have hes' : fs.entriesAt fs.cwd = some es := hes
  have hs : (['.'] : List Char).splitOn '/' = [['.']] := by decide
  simp [resolve, hs, step, hes']

theorem dirAt_of_entriesAt {dir : List Char} (hp : fs.resolve dir = some p)
    (hes : fs.entriesAt p = some es) : fs.dirAt dir = some (p, es) := by
  simp [dirAt, hp, hes]

section Dir

variable {dir : List Char} (hdir : dir ≠ []) (hp : fs.resolve dir = some p)
  (hes : fs.entriesAt p = some es)

include hdir hp hes

theorem resolve_entry {name : List Char} {n : Node} (hn : es.lookup name = some n) :
    fs.resolve (dir ++ '/' :: name) = some (p ++ [name]) := by
  obtain ⟨hne, hslash, hdot, hdots⟩ := goodName_of_lookup hes hn
  rw [resolve_append hdir hslash, hp]
  simp [step, hes, hne, hdot, hdots, hn]

/-- The regular files below a directory are those among its entries. -/
theorem fileAt_entry {name : List Char} (hslash : '/' ∉ name) :
    fs.fileAt (dir ++ '/' :: name)
      = if (es.lookup name).any Node.isReg then some (p ++ [name]) else none := by
  cases hn : es.lookup name with
  | some n =>
    rw [fileAt, resolve_entry hdir hp hes hn]
    simp [Option.filter, node_append_singleton hes, hn]
  | none =>
    obtain ⟨es', hes'⟩ := entriesAt_dropLast hes
    rw [fileAt, resolve_append hdir hslash, hp]
    simp only [Option.bind_some, step, hes, Option.any_none, Bool.false_eq_true, if_false, hn,
      Option.isSome_none]
    obtain ⟨m, hm, hmes⟩ := Option.bind_eq_some_iff.mp hes
    obtain ⟨m', hm', hmes'⟩ := Option.bind_eq_some_iff.mp hes'
    have hreg : ∀ {k : Node} {l}, k.entries? = some l → k.isReg = false := by
      intro k l hk
      cases k with
      | file => cases hk
      | dir _ => rfl
    split
    · simp [Option.filter, hm, hreg hmes]
    · split
      · simp [Option.filter, hm', hreg hmes']
      · rfl

theorem dirAt_entry {name : List Char} {n : Node} (hn : es.lookup name = some n) :
    fs.dirAt (dir ++ '/' :: name) = n.entries?.map (p ++ [name], ·) := by
  rw [dirAt, resolve_entry hdir hp hes hn, Option.bind_some, entriesAt_append_singleton hes, hn]
  rfl

end Dir

end FileSystem

end Kbd.Lib.FileTree
