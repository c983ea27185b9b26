import Kbd.Keymap.Diacr

/-!
# Reading the kernel's keymap (`kernel.c`)

`dumpkeys` fills a context from the tables, the strings and the accent table of the kernel. A
`KernelReader` says how the console answers the requests for them. No request is made twice in a run,
so an answer that depends on the request only can be any answer.
-/

namespace Kbd.Keymap

/-- How the console answers the requests of `lk_kernel_keymap`. -/
structure KernelReader where
  /-- `KDGKBENT`: the `kb_value` for `kb_table` and `kb_index` -/
  kdgkbent (kbTable kbIndex : Nat) : Except Errno Nat
  /-- `KDGKBSENT`: the `kb_string` for `kb_func` -/
  kdgkbsent (kbFunc : Nat) : Except Errno (List Char)
  /-- `KDGKBDIACRUC`: the first `kb_cnt` entries of `kbdiacruc` -/
  kdgkbdiacruc : Except Errno (List LkKbdiacr)

/-- Why `lk_kernel_keymap` fails. -/
inductive KernelErr where
  /-- "table %d must be less than %d" -/
  | table (t : Nat)
  /-- "index %d must be less than %d", which is given the table -/
  | index (t : Nat)
  /-- "KDGKBENT: %s: error at index %d in table %d" -/
  | kdgkbent (errno : Errno) (i t : Nat)
  /-- "function index %d must be less than %d" -/
  | func (i : Nat)
  /-- "KDGKBSENT: %s: Unable to get function key string" -/
  | kdgkbsent (errno : Errno)
  /-- "KDGKBDIACR(UC): %s: Unable to get accent table" -/
  | kdgkbdiacr (errno : Errno)
  /-- a call of the library that fails -/
  | lk (err : LkErr)
  deriving DecidableEq, Repr

/-- Calls that read the kernel into a context. -/
abbrev Kernel (α : Type) := EStateM KernelErr LkCtx α

/-- A call of the library. -/
def callLk {α : Type} (x : Lk α) : Kernel α := fun ctx =>
  match x.run ctx with
  | .ok a ctx => .ok a ctx
  | .error err ctx => .error (.lk err) ctx

variable (r : KernelReader)

/-- The loop of `lk_kernel_keys` over the key indices of table `t`. -/
def kernelTableFrom (t : Nat) : List Nat → Kernel Unit
  | [] => pure ()
  | i :: is => do
    if i > ucharMax then throw (.index t)
    match r.kdgkbent (t % 256) (i % 256) with
    | .error errno => throw (.kdgkbent errno i t)
    | .ok kbValue =>
      if i = 0 ∧ kbValue = kNosuchmap.toNat then pure ()
      else do
        callLk (lkAddKey t i kbValue)
        kernelTableFrom t is

/-- A round of the loop of `lk_kernel_keys` over the tables. -/
def kernelTable (t : Nat) : Kernel Unit := do
  if t > ucharMax then throw (.table t)
  kernelTableFrom r t (List.range nrKeys)

/-- `lk_kernel_keys`. -/
def lkKernelKeys : Kernel Unit := do
  (List.range maxNrKeymaps).forM (kernelTable r)
  callLk lkAddConstants

/-- A round of the loop of `lk_kernel_funcs`. -/
def kernelFunc (i : Nat) : Kernel Unit := do
  if i > ucharMax then throw (.func i)
  match r.kdgkbsent (i % 256) with
  | .error errno => throw (.kdgkbsent errno)
  | .ok kbString =>
    if kbString = [] then pure ()
    else callLk (lkAddFunc i kbString)

/-- `lk_kernel_funcs`. -/
def lkKernelFuncs : Kernel Unit := (List.range maxNrFunc).forM (kernelFunc r)

/-- `lk_kernel_diacrs`. -/
def lkKernelDiacrs : Kernel Unit :=
  match r.kdgkbdiacruc with
  | .error errno => throw (.kdgkbdiacr errno)
  | .ok ar => ar.zipIdx.forM fun (dcr, i) => modify fun ctx => lkAddDiacr ctx i dcr

/-- `lk_kernel_keymap`. -/
def lkKernelKeymap : Kernel Unit := do
  lkKernelKeys r
  lkKernelFuncs r
  lkKernelDiacrs r

end Kbd.Keymap
