import Kbd.Keymap.Kmap
import Kbd.Keymap.Text

/-!
# What the kernel supports (`summary.c`)

`lk_dump_summary` finds out which action codes the kernel takes by trying them on the entry for key 0
in table 0. The kernel here does store the value of that entry, which the kernels of machines whose
keyboards generate keycode zero do; which values it takes is a parameter.
-/

namespace Kbd.Keymap

/-- The entries of the kernel, by table and index. -/
abbrev KernelKeymap := Nat → Nat → Nat

/-- Code that asks the kernel. -/
abbrev Probe (α : Type) := StateM KernelKeymap α

/-- The kernel with another value in one entry. -/
def KernelKeymap.put (km : KernelKeymap) (table index value : Nat) : KernelKeymap :=
  Function.update km table (Function.update (km table) index value)

/-- `KDGKBENT`. -/
def kdgkbent (table index : Nat) : Probe Nat := fun km => (km table index, km)

section

variable (accept : Nat → Bool)

/-- `KDSKBENT`; whether the call returns 0. -/
def kdskbent (table index value : Nat) : Probe Bool := fun km =>
  if accept value then (true, km.put table index value) else (false, km)

/-- `(unsigned short) K(t, v)`. -/
def kbValue (t v : Nat) : Nat := (K t v).toNat % 65536

/-- `valid_type`. -/
def validType (t : Nat) : Probe Bool := kdskbent accept 0 0 (kbValue t 0)

/-- The loop of `maximum_val`, over the remaining values: `i` at its end. -/
def maximumValFrom (t : Nat) : List Nat → Nat → Probe Nat
  | [], i => pure i
  | v :: rest, i => do
    if ← kdskbent accept 0 0 (kbValue t v) then maximumValFrom t rest (i + 1) else pure i

/-- `maximum_val`; the result is an `unsigned char`. -/
def maximumVal (t : Nat) : Probe Nat := do
  let ke0 ← kdgkbent 0 0
  let i ← maximumValFrom accept t (List.range 256) 0
  let _ ← kdskbent accept 0 0 ke0
  return (i + 255) % 256

abbrev nrTypes : Nat := 15

/-- The line for a type. -/
def rangeLine (t max : Nat) : List Char :=
  bytes "\t0x" ++ fmt04X (K t 0).toNat ++ bytes " - 0x" ++ fmt04X (K t max).toNat ++ ['\n']

/-- The loop of `lk_dump_summary`, over the remaining types. -/
def dumpRanges : List Nat → Probe (List Char)
  | [] => pure []
  | t :: ts => do
    if ← validType accept t then
      let max ← maximumVal accept t
      return rangeLine t max ++ (← dumpRanges ts)
    else return []

abbrev kAllocated : Int := K ktSpec 126

/-- `keymaps_alloced` of `lk_get_kmapinfo`. -/
def keymapsAlloced (ctx : LkCtx) : Nat :=
  (List.range maxNrKeymaps).countP fun i => lkMapExists ctx i && lkGetKey ctx i 0 = kAllocated

/-- `lk_dump_summary`. -/
def lkDumpSummary (ctx : LkCtx) : Probe (List Char) := do
  let ranges ← dumpRanges accept (List.range nrTypes)
  return bytes "keycode range supported by kernel:           1 - " ++ fmtU (nrKeys - 1) ++ ['\n'] ++
    bytes "max number of actions bindable to a key:         " ++ fmtU maxNrKeymaps ++ ['\n'] ++
    bytes "number of keymaps in actual use:                 " ++ fmtU ctx.keymap.count ++ ['\n'] ++
    bytes "of which " ++ fmtU (keymapsAlloced ctx) ++ bytes " dynamically allocated\n" ++
    bytes "ranges of action codes supported by kernel:\n" ++ ranges ++
    bytes "number of function keys supported by kernel: " ++ fmtU maxNrFunc ++ ['\n'] ++
    bytes "max nr of compose definitions: " ++ fmtU maxDiacr ++ ['\n'] ++
    bytes "nr of compose definitions in actual use: " ++ fmtU ctx.accentTable.count ++ ['\n']

end

end Kbd.Keymap
