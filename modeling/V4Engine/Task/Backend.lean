/-
  V4Engine.Task.Backend

  `task_backend_custom.cpp`, the task backend built on the engine's own
  scheduler, and the two critical-section calls of `task.cpp`.

  As in `Task.Scheduler`, ticks are arguments and `none` is an access outside
  an array.  The answers of the two `malloc` calls of a spawn are arguments
  too.
-/
import V4Engine.Task.Scheduler
import V4Engine.Lib.Ring

namespace V4Engine

open Lib

def v4BackendTaskInit (timeSliceMs : BitVec 32) (vm : Vm) : Vm :=
  { vm with
    scheduler :=
      { V4Scheduler.zero with timeSliceMs := if timeSliceMs > 0 then timeSliceMs else 10 }
    msgQueue := .zero }

/-- Release both stack buffers of slot `i` and mark it DEAD. -/
def retireTask (vm : Vm) (i : Fin 8) : Vm :=
  let task := vm.task i
  { vm.setTask i { task with dsBase := none, rsBase := none, state := .dead } with
    heap := (vm.heap.free task.dsBase).free task.rsBase }

def v4BackendTaskCleanup (vm : Vm) : Vm :=
  let vm := (List.finRange 8).foldl retireTask vm
  { vm with
    scheduler := { vm.scheduler with taskCount := 0 }
    msgQueue := .zero }

/-- The first DEAD slot. -/
def findDead (vm : Vm) : Option (Fin 8) :=
  (List.finRange 8).find? fun i => (vm.task i).state = .dead

/-- The size a spawn asks for: zero stands for the default. -/
def stackSize (size default : BitVec 16) : BitVec 16 := if size = 0 then default else size

/-- The record a successful spawn writes. -/
def freshTask (wordIdx : BitVec 16) (priority : BitVec 8) (dsSize rsSize : BitVec 16)
    (dsBase rsBase : Option Nat) : V4Task :=
  { wordIdx := wordIdx, pc := 0, dsBase := dsBase, rsBase := rsBase, dsDepth := 0, rsDepth := 0,
    state := .ready, priority := priority, sleepUntilTick := 0,
    -- `ds_size` and `rs_size` are `uint8_t`.
    dsSize := dsSize.setWidth 8, rsSize := rsSize.setWidth 8, execCount := 0 }

/-- Cleanup after a failed allocation: whatever was allocated is freed. -/
def abortSpawn (vm : Vm) (i : Fin 8) (dsBase rsBase : Option Nat) (heap : Heap) : Vm :=
  { vm.setTask i { vm.task i with dsBase := none, rsBase := none } with
    heap := (heap.free dsBase).free rsBase }

/-- Fill slot `i` and count the task. -/
def installTask (vm : Vm) (i : Fin 8) (task : V4Task) (heap : Heap) : Vm :=
  { vm with
    heap := heap
    scheduler :=
      { vm.scheduler with
        tasks := Function.update vm.scheduler.tasks i task
        taskCount := vm.scheduler.taskCount + 1 } }

/-- The part of a spawn after the free slot `i` was found. -/
def spawnInto (vm : Vm) (i : Fin 8) (wordIdx : BitVec 16) (priority : BitVec 8)
    (dsSize rsSize : BitVec 16) (dsOk rsOk : Bool) : Int × Vm :=
  let ds := vm.heap.malloc dsOk dsSize.toNat
  -- The second block is requested even when the first was refused.
  let rs := ds.2.malloc rsOk rsSize.toNat
  if ds.1.isNone ∨ rs.1.isNone then (Err.noMemory.code, abortSpawn vm i ds.1 rs.1 rs.2)
  else (i.val, installTask vm i (freshTask wordIdx priority dsSize rsSize ds.1 rs.1) rs.2)

/-- Returns the task id, or a negative error code, and the new VM. -/
def v4BackendTaskSpawn (wordIdx : BitVec 16) (priority : BitVec 8) (dsSize rsSize : BitVec 16)
    (dsOk rsOk : Bool) (vm : Vm) : Int × Vm :=
  if wordIdx.toNat ≥ vm.wordCount then (Err.invalidWordIdx.code, vm)
  else
    match findDead vm with
    | none => (Err.taskLimit.code, vm)
    | some i =>
        spawnInto vm i wordIdx priority (stackSize dsSize 256) (stackSize rsSize 64) dsOk rsOk

/-- The part of `v4_backend_task_exit` before the reschedule. -/
def exitCurrent (vm : Vm) (cur : Fin 8) : Vm :=
  let vm := retireTask vm cur
  { vm with scheduler := { vm.scheduler with taskCount := vm.scheduler.taskCount - 1 } }

def v4BackendTaskExit (tick : BitVec 32) (vm : Vm) : Option Vm := do
  let cur ← Vm.taskPtr vm.scheduler.currentTask
  vmSchedule tick (exitCurrent vm cur)

/-- The part of `v4_backend_task_sleep` before the reschedule: the deadline is
    computed modulo 2^32 and the task marked BLOCKED. -/
def blockCurrent (tick msDelay : BitVec 32) (vm : Vm) (cur : Fin 8) : Vm :=
  vm.setTask cur
    { vm.task cur with sleepUntilTick := tick + msDelay, state := .blocked }

def v4BackendTaskSleep (msDelay tick tick' : BitVec 32) (vm : Vm) : Option Vm := do
  let cur ← Vm.taskPtr vm.scheduler.currentTask
  vmSchedule tick' (blockCurrent tick msDelay vm cur)

def v4BackendTaskYield (tick : BitVec 32) (vm : Vm) : Option Vm := vmSchedule tick vm

def v4BackendTaskCurrent (vm : Vm) : BitVec 8 := vm.scheduler.currentTask

/-! ## Critical sections (`task.cpp`) -/

def vmTaskCriticalEnter (vm : Vm) : Vm :=
  { vm with scheduler :=
      { vm.scheduler with criticalNesting := vm.scheduler.criticalNesting + 1 } }

/-- Returns whether the platform lock is released, and the new VM. -/
def vmTaskCriticalExit (vm : Vm) : Bool × Vm :=
  if vm.scheduler.criticalNesting > 0 then
    let nesting := vm.scheduler.criticalNesting - 1
    (nesting = 0, { vm with scheduler := { vm.scheduler with criticalNesting := nesting } })
  else (false, vm)

/-! ## Messages -/

/-- The message a send by the current task would enqueue. -/
def outgoing (vm : Vm) (dstTask msgType : BitVec 8) (data : Cell) : V4Message :=
  { srcTask := vm.scheduler.currentTask, dstTask := dstTask, msgType := msgType, flags := 0,
    data := data }

/-- The write position and the counter after one more message. -/
def V4MsgQueue.push (q : V4MsgQueue) (msg : V4Message) : V4MsgQueue :=
  { queue := Function.update q.queue q.writeIdx.toNat msg
    readIdx := q.readIdx
    writeIdx := BitVec.ofNat 8 ((q.writeIdx.toNat + 1) % 16)
    count := q.count + 1 }

/-- Returns `0` or a negative error code, and the new VM. -/
def v4BackendTaskSend (dstTask msgType : BitVec 8) (data : Cell) (vm : Vm) : Option (Int × Vm) :=
  -- `0xFF` addresses every task.
  if dstTask.toNat ≥ 8 ∧ dstTask ≠ 0xFF then some (Err.invalidArg.code, vm)
  else if vm.msgQueue.count.toNat ≥ 16 then some (Err.msgQueueFull.code, vm)
  else if vm.msgQueue.writeIdx.toNat < 16 then
    some (0, { vm with msgQueue := vm.msgQueue.push (outgoing vm dstTask msgType data) })
  else none

/-- The match test of a receive by task `current`. -/
def V4Message.wanted (current msgType : BitVec 8) (msg : V4Message) : Bool :=
  (msg.dstTask == current || msg.dstTask == 0xFF) && (msgType == 0 || msg.msgType == msgType)

/-- The `i`-th pending message, found at slot `(read_idx + i) % 16`. -/
def V4MsgQueue.pending (q : V4MsgQueue) (i : Nat) : V4Message :=
  q.queue ((q.readIdx.toNat + i) % 16)

/-- The search loop: position of the first pending match, from `i` on with `k`
    messages left to look at. -/
def V4MsgQueue.findFrom (q : V4MsgQueue) (current msgType : BitVec 8) (i : Nat) : Nat → Option Nat
  | 0 => none
  | k + 1 =>
      if (q.pending i).wanted current msgType then some i
      else q.findFrom current msgType (i + 1) k

/-- Remove the `i`-th pending message by shifting the later ones down. -/
def V4MsgQueue.removeAt (q : V4MsgQueue) (i : Nat) : V4MsgQueue :=
  { q with
    queue := shiftDown 16 q.readIdx.toNat i (q.count.toNat - 1 - i) q.queue
    count := q.count - 1 }

/-- `some (data, src_task)` is result `1` with both outputs written, `none` is
    result `0` with both outputs untouched. -/
def v4BackendTaskReceive (msgType : BitVec 8) (vm : Vm) : Option (Cell × BitVec 8) × Vm :=
  let q := vm.msgQueue
  match q.findFrom vm.scheduler.currentTask msgType 0 q.count.toNat with
  | some i =>
      (some ((q.pending i).data, (q.pending i).srcTask), { vm with msgQueue := q.removeAt i })
  | none => (none, vm)

/-! ## Blocking receive -/

/-- What one iteration of the polling loop decides. -/
inductive Poll where
  | received (data : Cell) (src : BitVec 8)
  | timeout
  | again
  deriving DecidableEq

/-- One iteration of the `while (true)` loop of
    `v4_backend_task_receive_blocking`.  `tick` lists the tick readings of the
    run and `n` is the number of readings made so far; the loop makes one for
    its timeout check and two more inside its 10 ms sleep. -/
def receiveBlockingPoll (tick : Nat → BitVec 32) (msgType : BitVec 8) (timeoutMs start : BitVec 32)
    (n : Nat) (vm : Vm) : Option (Poll × Nat × Vm) :=
  match v4BackendTaskReceive msgType vm with
  | (some (data, src), vm) => some (.received data src, n, vm)
  | (none, vm) =>
      -- A timeout of zero waits forever and reads no tick.
      if timeoutMs > 0 ∧ tick n - start ≥ timeoutMs then some (.timeout, n + 1, vm)
      else
        let n := if timeoutMs > 0 then n + 1 else n
        (v4BackendTaskSleep 10 (tick n) (tick (n + 1)) vm).map fun vm => (.again, n + 2, vm)

/-- At most `fuel` iterations of the polling loop; the outer `none` is an
    access outside an array, the inner one a loop that is still polling. -/
def receiveBlockingLoop (tick : Nat → BitVec 32) (msgType : BitVec 8)
    (timeoutMs start : BitVec 32) : Nat → Nat → Vm → Option (Option (Option (Cell × BitVec 8) × Vm))
  | 0, _, _ => some none
  | fuel + 1, n, vm =>
      match receiveBlockingPoll tick msgType timeoutMs start n vm with
      | none => none
      | some (.received data src, _, vm) => some (some (some (data, src), vm))
      | some (.timeout, _, vm) => some (some (none, vm))
      | some (.again, n, vm) => receiveBlockingLoop tick msgType timeoutMs start fuel n vm

/-- The start tick is the first reading. -/
def v4BackendTaskReceiveBlocking (tick : Nat → BitVec 32) (msgType : BitVec 8)
    (timeoutMs : BitVec 32) (fuel : Nat) (vm : Vm) :
    Option (Option (Option (Cell × BitVec 8) × Vm)) :=
  receiveBlockingLoop tick msgType timeoutMs (tick 0) fuel 1 vm

end V4Engine
