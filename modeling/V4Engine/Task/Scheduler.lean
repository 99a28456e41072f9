/-
  V4Engine.Task.Scheduler

  `scheduler.cpp`: context save and restore, task selection and the context
  switch.

  Each function takes the tick values it reads as arguments, in reading order.
  `none` means that the source would have left the task table or the return
  stack array (the data-stack copy cannot: `ds_depth` is an 8-bit field and
  `DS` has 256 slots).
-/
import V4Engine.Vm.State

namespace V4Engine

open Lib

/-- Save one stack: `memcpy(base, stack, depth)` when there is a buffer and
    something to copy. -/
def saveStack (base : Option Nat) (depth : Nat) (stack : Nat → Cell) (h : Heap) : Heap :=
  match base with
  | some id => if depth > 0 then h.copyIn id depth stack else h
  | none => h

/-- Restore one stack: `memcpy(stack, base, depth)` under the same guard. -/
def restoreStack (base : Option Nat) (depth : Nat) (h : Heap) (stack : Nat → Cell) : Nat → Cell :=
  match base with
  | some id => if depth > 0 then copyInto stack (h.cells id) depth else stack
  | none => stack

/-- The heap access a restore makes. -/
def touchStack (base : Option Nat) (depth : Nat) (h : Heap) : Heap :=
  match base with
  | some id => if depth > 0 then h.touch id depth else h
  | none => h

/-- A copy between `RS` and a buffer stays inside the 64 slots of `RS`. -/
def rsCopyOk (task : V4Task) : Bool :=
  task.rsBase.isNone || decide (task.rsDepth.toNat ≤ 64)

/-- The depths go through 8-bit fields on their way into the task record. -/
def savedTask (vm : Vm) (task : V4Task) : V4Task :=
  { task with dsDepth := BitVec.ofNat 8 vm.sp, rsDepth := BitVec.ofNat 8 vm.rp }

def v4TaskSaveContext (vm : Vm) (i : Fin 8) : Option Vm :=
  let task := savedTask vm (vm.task i)
  if rsCopyOk task then
    let heap := saveStack task.dsBase task.dsDepth.toNat vm.DS vm.heap
    let heap := saveStack task.rsBase task.rsDepth.toNat vm.RS heap
    some { vm.setTask i task with heap := heap }
  else none

def v4TaskRestoreContext (vm : Vm) (i : Fin 8) : Option Vm :=
  let task := vm.task i
  if rsCopyOk task then
    some
      { vm with
        DS := restoreStack task.dsBase task.dsDepth.toNat vm.heap vm.DS
        RS := restoreStack task.rsBase task.rsDepth.toNat vm.heap vm.RS
        sp := task.dsDepth.toNat
        rp := task.rsDepth.toNat
        heap := touchStack task.rsBase task.rsDepth.toNat
          (touchStack task.dsBase task.dsDepth.toNat vm.heap) }
  else none

/-! ## Selecting the next task -/

/-- `if (current_tick >= task->sleep_until_tick)`. -/
def wakeDue (tick : BitVec 32) (task : V4Task) : Bool := task.sleepUntilTick ≤ tick

/-- A sleeper whose deadline has passed becomes READY; every other task is left alone. -/
def wakeTask (tick : BitVec 32) (task : V4Task) : V4Task :=
  if task.state = .blocked ∧ wakeDue tick task then { task with state := .ready } else task

/-- The running maximum of the selection loop. -/
structure Selection where
  highestPriority : BitVec 8
  selectedTask : BitVec 8
  deriving DecidableEq

/-- One candidate in the selection loop.  `0xFF` is the "none yet" sentinel; a
    tie is resolved towards tasks after the current one. -/
def selectStep (current : BitVec 8) (sel : Selection) (i : BitVec 8) (task : V4Task) : Selection :=
  if task.state = .ready ∨ task.state = .running then
    if task.priority > sel.highestPriority then ⟨task.priority, i⟩
    -- Round robin among equals: the first later slot replaces one at or before the current.
    else if task.priority = sel.highestPriority ∧ sel.selectedTask ≠ 0xFF then
      if i > current ∧ sel.selectedTask ≤ current then { sel with selectedTask := i } else sel
    else sel
  else sel

/-- `vm->scheduler.tasks` after the wake-ups of one selection pass. -/
def wakeAll (tick : BitVec 32) (vm : Vm) : Vm :=
  { vm with scheduler :=
      { vm.scheduler with tasks := fun i => wakeTask tick (vm.scheduler.tasks i) } }

/-- The selection loop over `tasks[0..7]`, each entry seen after its own wake-up. -/
def selectLoop (tick : BitVec 32) (vm : Vm) : Selection :=
  (List.finRange 8).foldl
    (fun sel i =>
      selectStep vm.scheduler.currentTask sel (BitVec.ofNat 8 i.val) (wakeTask tick (vm.task i)))
    ⟨0, 0xFF⟩

/-- Returns the chosen slot and the VM with its due sleepers woken. -/
def v4TaskSelectNext (tick : BitVec 32) (vm : Vm) : BitVec 8 × Vm :=
  let sel := selectLoop tick vm
  -- Nobody eligible: the current slot is the answer, in whatever state it is.
  let next := if sel.selectedTask = 0xFF then vm.scheduler.currentTask else sel.selectedTask
  (next, wakeAll tick vm)

/-! ## Switching -/

/-- First part of `vm_schedule`: a RUNNING current task is saved and made READY. -/
def parkCurrent (vm : Vm) (cur : Fin 8) : Option Vm :=
  if (vm.task cur).state = .running then
    (v4TaskSaveContext vm cur).map fun vm => vm.setTask cur { vm.task cur with state := .ready }
  else some vm

/-- Last part of `vm_schedule`: load the context of `next` and make it RUNNING. -/
def switchTo (vm : Vm) (next : Fin 8) : Option Vm :=
  (v4TaskRestoreContext vm next).map fun vm =>
    let vm := vm.setTask next
      { vm.task next with state := .running, execCount := (vm.task next).execCount + 1 }
    { vm with scheduler :=
        { vm.scheduler with
          currentTask := BitVec.ofNat 8 next.val
          contextSwitches := vm.scheduler.contextSwitches + 1 } }

def vmSchedule (tick : BitVec 32) (vm : Vm) : Option Vm := do
  let cur ← Vm.taskPtr vm.scheduler.currentTask
  let vm ← parkCurrent vm cur
  let (nextTaskId, vm) := v4TaskSelectNext tick vm
  if nextTaskId = vm.scheduler.currentTask ∧ (vm.task cur).state ≠ .dead
      ∧ (vm.task cur).state ≠ .blocked then
    -- No switch needed: the stacks stay as they are.
    return vm.setTask cur { vm.task cur with state := .running }
  else
    -- The answer may still be the current slot, DEAD or BLOCKED: it is switched to all the same.
    let next ← Vm.taskPtr nextTaskId
    switchTo vm next

/-- `vm->scheduler.preemptions++`. -/
def countPreemption (vm : Vm) : Vm :=
  { vm with scheduler := { vm.scheduler with preemptions := vm.scheduler.preemptions + 1 } }

def vmScheduleFromIsr (tick : BitVec 32) (vm : Vm) : Option Vm :=
  if vm.scheduler.criticalNesting > 0 then some vm else vmSchedule tick (countPreemption vm)

end V4Engine
