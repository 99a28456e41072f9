/-
  V4Engine.Vm.Host

  The machine the interpreter runs on: a `Vm`, the rest of the process as seen
  by host callbacks, and counters for the answers taken from outside.

  `Host` collects the code that is not part of the engine: the SYS handler,
  panic handlers, MMIO callbacks, the interrupt lock, and the sequences of tick
  readings, `malloc` answers and indeterminate stack garbage the run meets.
  A callback receives the whole machine and returns a new one; what it may
  change is a hypothesis of the theorems (`Host.Within`), never of the model.
-/
import V4Engine.Vm.State
import V4Engine.Lib.Outcome
import Mathlib.Data.Fin.VecNotation

namespace V4Engine

open Lib

/-- `V4PanicInfo`.  `pc` is a constant zero in the source. -/
structure V4PanicInfo where
  errorCode : V4Err
  tos : Cell
  nos : Cell
  dsDepth : BitVec 8
  rsDepth : BitVec 8
  hasStackData : Bool
  stack : Fin 4 → Cell

/-- `tickNo`, `mallocNo` and `indetNo` count the answers already taken from the
    host; `panicLog` lists the calls made to a registered panic handler, newest
    first, and exists only for stating properties. -/
structure Machine (W : Type) where
  vm : Vm
  world : W
  gSysHandler : Option FnPtr
  tickNo : Nat
  mallocNo : Nat
  indetNo : Nat
  panicLog : List V4PanicInfo

/-- Everything outside the engine. -/
structure Host (W : Type) where
  sys : FnPtr → (sysId arg0 arg1 arg2 : Cell) → Machine W → Cell × Machine W
  panic : FnPtr → HostPtr → V4PanicInfo → Machine W → Machine W
  read32 : FnPtr → HostPtr → (addr out : Cell) → Machine W → V4Err × Cell × Machine W
  write32 : FnPtr → HostPtr → (addr val : Cell) → Machine W → V4Err × Machine W
  criticalEnter : W → W
  criticalExit : W → W
  tick : Nat → BitVec 32
  malloc : Nat → Bool
  indet : Nat → Cell

variable {W : Type}

/-- Every callback of the host stays within the relation `R`. -/
structure Host.Within (H : Host W) (R : Machine W → Machine W → Prop) : Prop where
  sys : ∀ f i a b c m, R m (H.sys f i a b c m).2
  panic : ∀ f u info m, R m (H.panic f u info m)
  read32 : ∀ f u addr out m, R m (H.read32 f u addr out m).2.2
  write32 : ∀ f u addr val m, R m (H.write32 f u addr val m).2

theorem Host.Within.mono {H : Host W} {R S : Machine W → Machine W → Prop}
    (h : H.Within R) (hRS : ∀ m m', R m m' → S m m') : H.Within S where
  sys f i a b c m := hRS _ _ (h.sys f i a b c m)
  panic f u info m := hRS _ _ (h.panic f u info m)
  read32 f u addr out m := hRS _ _ (h.read32 f u addr out m)
  write32 f u addr val m := hRS _ _ (h.write32 f u addr val m)

/-- Computations of the interpreter. -/
abbrev VmM (W α : Type) := FaultM V4Err (Machine W) α

/-- A host whose callbacks do nothing: reads give `0`, every tick is `0`, every
    allocation succeeds. -/
def Host.silent : Host Unit where
  sys _ _ _ _ _ m := (0, m)
  panic _ _ _ m := m
  read32 _ _ _ out m := (0, out, m)
  write32 _ _ _ _ m := (0, m)
  criticalEnter := id
  criticalExit := id
  tick _ := 0
  malloc _ := true
  indet _ := 0

/-- The callbacks of `Host.silent` return the machine they were given. -/
theorem Host.silent_within : Host.silent.Within fun m m' => m' = m :=
  ⟨fun _ _ _ _ _ _ => rfl, fun _ _ _ _ => rfl, fun _ _ _ _ _ => rfl, fun _ _ _ _ _ => rfl⟩

/-- A machine around a VM, before any host interaction. -/
def Machine.boot (vm : Vm) : Machine Unit :=
  { vm := vm, world := (), gSysHandler := none, tickNo := 0, mallocNo := 0, indetNo := 0,
    panicLog := [] }

namespace VmM

/-- The VM part of the machine. -/
def getVm : VmM W Vm := fun m => .ok m.vm m

/-- Replace the VM part of the machine. -/
def modifyVm (f : Vm → Vm) : VmM W Unit := fun m => .ok () { m with vm := f m.vm }

/-- Run a VM function that may leave an array. -/
def liftVm {α : Type} (f : Vm → Option (α × Vm)) : VmM W α := fun m =>
  match f m.vm with
  | some (a, vm) => .ok a { m with vm := vm }
  | none => .fault

/-- `v4_task_platform_get_tick_ms()`. -/
def getTick (H : Host W) : VmM W (BitVec 32) := fun m =>
  .ok (H.tick m.tickNo) { m with tickNo := m.tickNo + 1 }

/-- The answer of one `malloc` call. -/
def mallocAnswer (H : Host W) : VmM W Bool := fun m =>
  .ok (H.malloc m.mallocNo) { m with mallocNo := m.mallocNo + 1 }

/-- The content of a local variable nobody wrote. -/
def indeterminate (H : Host W) : VmM W Cell := fun m =>
  .ok (H.indet m.indetNo) { m with indetNo := m.indetNo + 1 }

end VmM

/-! ## Panics (`panic.cpp`) -/

/-- `vm_ds_peek_public`: `some 0` when out of range, `none` outside `DS`. -/
def vmDsPeekPublic (vm : Vm) (indexFromTop : Nat) : Option Cell :=
  if indexFromTop ≥ vm.sp then some 0
  else if vm.sp - 1 - indexFromTop < 256 then some (vm.DS (vm.sp - 1 - indexFromTop))
  else none

/-- `info.stack[i]`: filled while `i < info.ds_depth`, zero otherwise. -/
def panicStack (vm : Vm) (depth : BitVec 8) (i : Fin 4) : Option Cell :=
  if i.val < depth.toNat then vmDsPeekPublic vm i.val else some 0

/-- The snapshot `vm_panic` hands to the handler.  The diagnostics it prints
    besides copy at most `RS[0..15]` and change nothing. -/
def panicInfo (vm : Vm) (errorCode : V4Err) : Option V4PanicInfo := do
  let depth := BitVec.ofNat 8 vm.sp
  let s0 ← panicStack vm depth 0
  let s1 ← panicStack vm depth 1
  let s2 ← panicStack vm depth 2
  let s3 ← panicStack vm depth 3
  return { errorCode := errorCode, tos := s0, nos := s1, dsDepth := depth,
           rsDepth := BitVec.ofNat 8 vm.rp, hasStackData := depth > 0,
           stack := ![s0, s1, s2, s3] }

/-- Report `errorCode` to the registered handler, if any, and fail with it. -/
def vmPanic {α : Type} (H : Host W) (errorCode : V4Err) : VmM W α := fun m =>
  match panicInfo m.vm errorCode with
  | none => .fault
  | some info =>
      match m.vm.panicHandler with
      | none => .err errorCode m
      | some handler =>
          .err errorCode
            (H.panic handler m.vm.panicUserData info { m with panicLog := info :: m.panicLog })

/-! ## SYS (`v4_invoke_sys_handler`) -/

/-- Without a handler the result is `-1`. -/
def v4InvokeSysHandler (H : Host W) (sysId arg0 arg1 arg2 : Cell) : VmM W Cell := fun m =>
  match m.gSysHandler with
  | none => .ok (-1) m
  | some f => .ok (H.sys f sysId arg0 arg1 arg2 m).1 (H.sys f sysId arg0 arg1 arg2 m).2

end V4Engine
