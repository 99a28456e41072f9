/-
  V4Engine.Vm.Create

  Creating a VM and resetting it.

  The embedder's MMIO array is a list: reading past its end is `none`.  The names
  of words have a model of their own (V4Engine.Vm.Dictionary); what is left of
  `vm_reset_dictionary` here is that no word is registered afterwards.
-/
import V4Engine.Vm.State

namespace V4Engine

/-! ## Resetting -/

/-- `vm_reset_stacks`. -/
def vmResetStacks (vm : Vm) : Vm := { vm with sp := 0, rp := 0, fp := none }

/-- `vm_reset`: the dictionary, then the stacks. -/
def vmReset (vm : Vm) : Vm := vmResetStacks { vm with wordCount := 0 }

/-! ## Creating -/

/-- `VmConfig`; `mmio` is the array the pointer leads to. -/
structure VmConfig where
  mem : Option Ram
  memSize : BitVec 32
  mmio : Option (List V4Mmio)
  mmioCount : Int

/-- `vm->mmio[i] = list[i]` from `i` on, with `k` turns left. -/
def copyMmio (list : List V4Mmio) (i : Nat) : Nat → Vm → Option Vm
  | 0, vm => some vm
  | k + 1, vm => do
      let w ← list[i]?
      copyMmio list (i + 1) k { vm with mmio := Function.update vm.mmio i w }

/-- The table of `vm_create`: the first 16 windows of the configuration. -/
def loadMmio (cfg : VmConfig) (vm : Vm) : Option Vm :=
  match cfg.mmio with
  | none => some vm
  | some list =>
      if 0 < cfg.mmioCount then
        let n := if cfg.mmioCount ≤ 16 then cfg.mmioCount.toNat else 16
        (copyMmio list 0 n vm).map fun vm => { vm with mmioCount := n }
      else some vm

/-- `vm_create`; `ok` is the answer of `malloc`.  The inner `none` is the null pointer. -/
def vmCreate (ok : Bool) (cfg : Option VmConfig) : Option (Option Vm) :=
  match cfg with
  | none => some none
  | some c =>
      if ok then
        (loadMmio c { vmReset Vm.blank with mem := c.mem, memSize := c.memSize }).map some
      else some none

end V4Engine
