/-
  V4Engine.FreeRtos.Backend

  `task_backend_freertos.cpp`, the task backend that leaves scheduling and messages
  to FreeRTOS.

  The handle table and the message queue are file-level statics, so they are not
  part of any `Vm`; they form the record `Rtos` together with the set of tasks the
  kernel has.  Answers of the kernel (`pvPortMalloc`, `xTaskCreate`, `xQueueCreate`,
  the handle of the calling task) are arguments, and its queue is a parameter
  (`FifoApi`).
-/
import V4Engine.Task.Backend
import V4Engine.Lib.Fifo
import V4Engine.Lib.Runs

namespace V4Engine.FreeRtos

open Lib

abbrev TaskHandle := Nat

/-- The calls of a FreeRTOS message queue. -/
abbrev QueueApi (Q : Type) := FifoApi Q V4Message

/-- `task_handles` and `msg_queue`, and the tasks that exist in the kernel. -/
structure Rtos (Q : Type) where
  taskHandles : Fin 8 → Option TaskHandle
  msgQueue : Option Q
  live : TaskHandle → Bool

variable {Q : Type}

/-- `vTaskDelete(handle)`. -/
def vTaskDelete (handle : TaskHandle) (os : Rtos Q) : Rtos Q :=
  { os with live := Function.update os.live handle false }

/-- `queueOk` is the answer of `xQueueCreate`; a queue created before is forgotten. -/
def v4BackendTaskInit (api : QueueApi Q) (timeSliceMs : BitVec 32) (queueOk : Bool) (vm : Vm)
    (os : Rtos Q) : V4Err × Vm × Rtos Q :=
  (if queueOk then Err.ok.code else Err.noMemory.code,
    { vm with scheduler :=
        { V4Scheduler.zero with timeSliceMs := if timeSliceMs > 0 then timeSliceMs else 10 } },
    { os with
      taskHandles := fun _ => none
      msgQueue := if queueOk then some api.create else none })

/-- Delete the task behind slot `i`, if there is a handle. -/
def deleteTask (os : Rtos Q) (i : Fin 8) : Rtos Q :=
  match os.taskHandles i with
  | some handle =>
      { vTaskDelete handle os with taskHandles := Function.update os.taskHandles i none }
  | none => os

def v4BackendTaskCleanup (vm : Vm) (os : Rtos Q) : V4Err × Vm × Rtos Q :=
  (Err.ok.code,
    { vm with scheduler :=
        { vm.scheduler with
          tasks := fun i => { vm.task i with state := .dead }
          taskCount := 0 } },
    { (List.finRange 8).foldl deleteTask os with msgQueue := none })

/-- The record a spawn writes before it asks the kernel for anything.  Unlike the
    custom backend it leaves the other fields as they were. -/
def readyTask (wordIdx : BitVec 16) (priority : BitVec 8) (dsSize rsSize : BitVec 16)
    (task : V4Task) : V4Task :=
  { task with
    wordIdx := wordIdx
    priority := priority
    dsSize := dsSize.setWidth 8
    rsSize := rsSize.setWidth 8
    state := .ready }

/-- Returns the task id, or a negative error code.  `paramsOk` is the answer of
    `pvPortMalloc` and `handle` that of `xTaskCreate`. -/
def v4BackendTaskSpawn (wordIdx : BitVec 16) (priority : BitVec 8) (dsSize rsSize : BitVec 16)
    (paramsOk : Bool) (handle : Option TaskHandle) (vm : Vm) (os : Rtos Q) : Int × Vm × Rtos Q :=
  if wordIdx.toNat ≥ vm.wordCount then (Err.invalidWordIdx.code, vm, os)
  else
    match findDead vm with
    | none => (Err.taskLimit.code, vm, os)
    | some i =>
        let vm := vm.setTask i
          (readyTask wordIdx priority (stackSize dsSize 256) (stackSize rsSize 64) (vm.task i))
        -- Without memory for its parameters the slot stays READY.
        if !paramsOk then (Err.noMemory.code, vm, os)
        else
          match handle with
          | none =>
              (Err.noMemory.code, vm.setTask i { vm.task i with state := .dead }, os)
          | some handle =>
              (i.val,
                { vm with scheduler :=
                    { vm.scheduler with taskCount := vm.scheduler.taskCount + 1 } },
                { os with
                  taskHandles := Function.update os.taskHandles i (some handle)
                  live := Function.update os.live handle true })

/-- `v4_backend_task_current`, called by the FreeRTOS task `self`. -/
def v4BackendTaskCurrent (self : TaskHandle) (os : Rtos Q) : BitVec 8 :=
  match (List.finRange 8).find? fun i => os.taskHandles i = some self with
  | some i => BitVec.ofNat 8 i.val
  -- A caller that is in no slot counts as task 0.
  | none => 0

/-- The message a send by `self` enqueues. -/
def outgoing (self : TaskHandle) (dstTask msgType : BitVec 8) (data : Cell) (os : Rtos Q) :
    V4Message :=
  { srcTask := v4BackendTaskCurrent self os, dstTask := dstTask, msgType := msgType, flags := 0,
    data := data }

def v4BackendTaskSend (api : QueueApi Q) (self : TaskHandle) (dstTask msgType : BitVec 8)
    (data : Cell) (os : Rtos Q) : V4Err × Rtos Q :=
  if dstTask.toNat ≥ 8 ∧ dstTask ≠ 0xFF then (Err.invalidArg.code, os)
  else
    match os.msgQueue with
    | none => (Err.invalidArg.code, os)
    | some q =>
        let r := api.send (outgoing self dstTask msgType data os) q
        (if r.1 then Err.ok.code else Err.msgQueueFull.code, { os with msgQueue := some r.2 })

/-- What both receives do with the answer of `xQueueReceive`.  A message that does not
    match is not put back. -/
def deliver (current msgType : BitVec 8) : Option V4Message → Option (Cell × BitVec 8)
  | some msg => if msg.wanted current msgType then some (msg.data, msg.srcTask) else none
  | none => none

/-- Both receives from `xQueueReceive` on; `some (data, src_task)` is result `1`, `none`
    is result `0`. -/
def takeMessage (api : QueueApi Q) (current msgType : BitVec 8) (os : Rtos Q) :
    Option (Cell × BitVec 8) × Rtos Q :=
  match os.msgQueue with
  | none => (none, os)
  | some q =>
      let r := api.receive q
      (deliver current msgType r.1, { os with msgQueue := some r.2 })

def v4BackendTaskReceive (api : QueueApi Q) (self : TaskHandle) (msgType : BitVec 8)
    (os : Rtos Q) : Option (Cell × BitVec 8) × Rtos Q :=
  if os.msgQueue.isNone then (none, os)
  else takeMessage api (v4BackendTaskCurrent self os) msgType os

/-- `v4_backend_task_receive_blocking` up to the wait in `xQueueReceive`: the task it
    waits as, or `none` for result `0` without waiting. -/
def receiveBlockingBegin (self : TaskHandle) (os : Rtos Q) : Option (BitVec 8) :=
  if os.msgQueue.isNone then none else some (v4BackendTaskCurrent self os)

/-- The rest of it, in the state in which the wait ends: there is a message, or the
    timeout has passed without one. -/
def receiveBlockingEnd (api : QueueApi Q) (current msgType : BitVec 8) (os : Rtos Q) :
    Option (Cell × BitVec 8) × Rtos Q := takeMessage api current msgType os

/-! ## What the calls do -/

/-- The pending messages. -/
def Rtos.contents (contents : Q → List V4Message) (os : Rtos Q) : List V4Message :=
  match os.msgQueue with
  | some q => contents q
  | none => []

variable {api : QueueApi Q} {contents : Q → List V4Message}

/-- A send: refused, or one more message at the end. -/
theorem v4BackendTaskSend_cases (hq : api.Bounded 16 contents) (self : TaskHandle)
    (dstTask msgType : BitVec 8) (data : Cell) (os : Rtos Q) :
    ((v4BackendTaskSend api self dstTask msgType data os).1 ≠ Err.ok.code ∧
      (v4BackendTaskSend api self dstTask msgType data os).2.contents contents
        = os.contents contents) ∨
    ((v4BackendTaskSend api self dstTask msgType data os).1 = Err.ok.code ∧
      (v4BackendTaskSend api self dstTask msgType data os).2.contents contents
        = os.contents contents ++ [outgoing self dstTask msgType data os]) := by
  rw [v4BackendTaskSend]
  by_cases hdst : dstTask.toNat ≥ 8 ∧ dstTask ≠ 0xFF
  · rw [if_pos hdst]
    exact .inl ⟨(by decide : Err.invalidArg.code ≠ Err.ok.code), rfl⟩
  · rw [if_neg hdst]
    cases hmq : os.msgQueue with
    | none => exact .inl ⟨(by decide : Err.invalidArg.code ≠ Err.ok.code), rfl⟩
    | some q =>
        have hc : os.contents contents = contents q := by rw [Rtos.contents, hmq]
        -- The only thing left is whether the queue has room.
        obtain ⟨-, hok, hsent⟩ | ⟨-, hok, hsent⟩ :=
          hq.send_cases (outgoing self dstTask msgType data os) q
        · refine .inr ⟨?_, ?_⟩
          · simp only [hok, if_true]
          · rw [hc]
            exact hsent
        · refine .inl ⟨?_, ?_⟩
          · simp only [hok, Bool.false_eq_true, if_false]
            decide
          · rw [hc]
            exact hsent

/-- A receive takes the head away whether it matches or not. -/
theorem takeMessage_eq (hq : api.Bounded 16 contents) (current msgType : BitVec 8) (os : Rtos Q) :
    (takeMessage api current msgType os).1
      = deliver current msgType (os.contents contents).head? ∧
    (takeMessage api current msgType os).2.contents contents = (os.contents contents).tail := by
  rw [takeMessage]
  cases hmq : os.msgQueue with
  | none =>
      have hc : os.contents contents = [] := by rw [Rtos.contents, hmq]
      simp only [hc]
      exact ⟨rfl, rfl⟩
  | some q =>
      have hc : os.contents contents = contents q := by rw [Rtos.contents, hmq]
      obtain ⟨hmsg, hrest⟩ := hq.receive_eq q
      rw [hc, ← hmsg]
      exact ⟨rfl, hrest⟩

theorem v4BackendTaskReceive_eq_take (self : TaskHandle) (msgType : BitVec 8) (os : Rtos Q) :
    v4BackendTaskReceive api self msgType os
      = takeMessage api (v4BackendTaskCurrent self os) msgType os := by
  rw [v4BackendTaskReceive, takeMessage]
  cases os.msgQueue <;> rfl

/-! ## A failed spawn -/

/-- The same task count, the same handles and the same DEAD slots. -/
structure SameSlots (vm vm' : Vm) (os os' : Rtos Q) : Prop where
  taskCount : vm'.scheduler.taskCount = vm.scheduler.taskCount
  taskHandles : os'.taskHandles = os.taskHandles
  dead : ∀ i, (vm'.task i).state = .dead ↔ (vm.task i).state = .dead

theorem SameSlots.refl (vm : Vm) (os : Rtos Q) : SameSlots vm vm os os :=
  ⟨rfl, rfl, fun _ => Iff.rfl⟩

theorem SameSlots.trans {vm vm' vm'' : Vm} {os os' os'' : Rtos Q} (h : SameSlots vm vm' os os')
    (h' : SameSlots vm' vm'' os' os'') : SameSlots vm vm'' os os'' where
  taskCount := h'.taskCount.trans h.taskCount
  taskHandles := h'.taskHandles.trans h.taskHandles
  dead i := (h'.dead i).trans (h.dead i)

/-- Arguments of a spawn, with the answers of `pvPortMalloc` and `xTaskCreate`. -/
structure SpawnCall where
  wordIdx : BitVec 16
  priority : BitVec 8
  dsSize : BitVec 16
  rsSize : BitVec 16
  paramsOk : Bool
  handle : Option TaskHandle

def SpawnCall.run (c : SpawnCall) (vm : Vm) (os : Rtos Q) : Int × Vm × Rtos Q :=
  v4BackendTaskSpawn c.wordIdx c.priority c.dsSize c.rsSize c.paramsOk c.handle vm os

/-- If the spawn returns a negative code, it leaves the slots as they were. -/
def SpawnCall.TracelessFailure (c : SpawnCall) (vm : Vm) (os : Rtos Q) : Prop :=
  (c.run vm os).1 < 0 → SameSlots vm (c.run vm os).2.1 os (c.run vm os).2.2

/-- The call does not get as far as `pvPortMalloc`, or gets the memory. -/
def SpawnCall.HasMemory (c : SpawnCall) (vm : Vm) : Prop :=
  c.wordIdx.toNat < vm.wordCount → (findDead vm).isSome → c.paramsOk = true

theorem findDead_state {vm : Vm} {i : Fin 8} (h : findDead vm = some i) :
    (vm.task i).state = .dead := by simpa using List.find?_some h

/-- The slot taken for a task that `xTaskCreate` refuses is DEAD again. -/
theorem sameSlots_refused {vm : Vm} {i : Fin 8} (hdead : (vm.task i).state = .dead)
    (task : V4Task) (os : Rtos Q) :
    SameSlots vm ((vm.setTask i task).setTask i { (vm.setTask i task).task i with state := .dead })
      os os := by
  refine ⟨rfl, rfl, fun j => ?_⟩
  by_cases hj : j = i
  · subst hj
    simp [hdead]
  · rw [Vm.task_setTask_of_ne _ _ hj, Vm.task_setTask_of_ne _ _ hj]

/-- A spawn succeeds, leaves the slots as they were, or fails for want of memory with a
    slot that was DEAD and is READY now. -/
theorem SpawnCall.run_cases (c : SpawnCall) (vm : Vm) (os : Rtos Q) :
    (c.HasMemory vm ∧ 0 ≤ (c.run vm os).1) ∨
    (c.HasMemory vm ∧ SameSlots vm (c.run vm os).2.1 os (c.run vm os).2.2) ∨
    (¬ c.HasMemory vm ∧ (c.run vm os).1 < 0 ∧
      ∃ i, (vm.task i).state = .dead ∧ ((c.run vm os).2.1.task i).state = .ready) := by
  unfold HasMemory run v4BackendTaskSpawn
  by_cases hword : c.wordIdx.toNat ≥ vm.wordCount
  · simp only [if_pos hword]
    exact .inr (.inl ⟨fun h => absurd h (Nat.not_lt.mpr hword), .refl vm os⟩)
  · have hvalid : c.wordIdx.toNat < vm.wordCount := Nat.lt_of_not_le hword
    simp only [if_neg hword]
    cases hfind : findDead vm with
    | none => exact .inr (.inl ⟨fun _ h => Bool.noConfusion h, .refl vm os⟩)
    | some i =>
        have hdead := findDead_state hfind
        cases c.paramsOk with
        | false =>
            refine .inr (.inr ⟨fun h => Bool.noConfusion (h hvalid rfl), ?_, i, hdead, ?_⟩)
            · exact (by decide : Err.noMemory.code < 0)
            · exact congrArg V4Task.state (Vm.task_setTask_self vm i _)
        | true =>
            cases c.handle with
            | none => exact .inr (.inl ⟨fun _ _ => rfl, sameSlots_refused hdead _ os⟩)
            | some handle => exact .inl ⟨fun _ _ => rfl, Int.natCast_nonneg i.val⟩

theorem SpawnCall.traceless {c : SpawnCall} {vm : Vm} {os : Rtos Q} (hmem : c.HasMemory vm) :
    c.TracelessFailure vm os := by
  intro hfail
  rcases c.run_cases vm os with ⟨-, hok⟩ | ⟨-, hsame⟩ | ⟨hno, -⟩
  · exact absurd hfail (Int.not_lt.mpr hok)
  · exact hsame
  · exact absurd hmem hno

/-- **A failed spawn** leaves no trace exactly when the memory for its parameters was not
    refused. -/
theorem failed_spawn_traceless_iff (c : SpawnCall) (vm : Vm) (os : Rtos Q) :
    c.TracelessFailure vm os ↔ c.HasMemory vm := by
  refine ⟨fun h => ?_, SpawnCall.traceless⟩
  rcases c.run_cases vm os with ⟨hmem, -⟩ | ⟨hmem, -⟩ | ⟨-, hfail, i, hdead, hready⟩
  · exact hmem
  · exact hmem
  · have hstill := ((h hfail).dead i).mpr hdead
    rw [hready] at hstill
    cases hstill

/-- Spawns one after another. -/
def spawnStep (c : SpawnCall) (s : Vm × Rtos Q) : Option (Vm × Rtos Q) := some (c.run s.1 s.2).2

/-- **Repeated failures** use up no slots as long as each had the memory it asked for. -/
theorem failed_spawns_keep_slots {calls : List SpawnCall} {s s' : Vm × Rtos Q}
    (hfail : Along spawnStep (fun s c => (c.run s.1 s.2).1 < 0 ∧ c.HasMemory s.1) calls s)
    (h : exec spawnStep calls s = some s') : SameSlots s.1 s'.1 s.2 s'.2 := by
  induction calls generalizing s with
  | nil =>
      cases h
      exact .refl _ _
  | cons c calls ih =>
      obtain ⟨⟨hneg, hmem⟩, hrest⟩ := hfail
      have hsame := SpawnCall.traceless hmem hneg
      exact hsame.trans (ih (hrest _ rfl) h)

/-- A VM with one word, and the statics before any task was created. -/
def singleWord : Vm := { Vm.blank with wordCount := 1 }
def noTasks : Rtos Unit :=
  { taskHandles := fun _ => none, msgQueue := none, live := fun _ => false }

/-- A spawn of that word for which `pvPortMalloc` has no memory. -/
def starved : SpawnCall := ⟨0, 0, 0, 0, false, none⟩

/-- It fails, and slot 0 is not DEAD any more. -/
theorem starved_spawn_takes_slot :
    (starved.run singleWord noTasks).1 = Err.noMemory.code ∧
      ((starved.run singleWord noTasks).2.1.task 0).state = .ready ∧
      ¬ starved.TracelessFailure singleWord noTasks := by
  refine ⟨by decide, by decide, fun h => ?_⟩
  exact absurd ((h (by decide)).dead 0) (by decide)

end V4Engine.FreeRtos
