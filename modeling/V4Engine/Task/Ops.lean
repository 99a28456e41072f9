/-
  V4Engine.Task.Ops

  The task backend as a state machine: its calls, in any order and with any
  arguments, interleaved with the stack operations of the running program.

  `backendStep_inv` is the invariant of every reachable state and, at the same
  time, the proof that no call leaves the task table, `RS` or the message ring.
-/
import V4Engine.Task.Switch
import V4Engine.Task.MsgQueue
import V4Engine.Lib.Runs

namespace V4Engine

open Lib

/-- The stacks a program leaves behind; their depths respect the arrays. -/
structure Stacks where
  DS : Nat → Cell
  RS : Nat → Cell
  sp : Nat
  rp : Nat
  sp_le : sp ≤ 256
  rp_le : rp ≤ 64

theorem Stacks.empty_rp_le : 0 ≤ 64 := Nat.zero_le 64

/-- A data stack of `n` equal cells, and an empty return stack. -/
def Stacks.filled (cell : Cell) (n : Nat) (h : n ≤ 256) : Stacks where
  DS _ := cell
  RS _ := 0
  sp := n
  rp := 0
  sp_le := h
  rp_le := empty_rp_le

inductive BackendOp where
  | spawn (wordIdx : BitVec 16) (priority : BitVec 8) (dsSize rsSize : BitVec 16)
      (dsOk rsOk : Bool)
  | exit (tick : BitVec 32)
  | sleep (msDelay tick tick' : BitVec 32)
  | yield (tick : BitVec 32)
  | schedule (tick : BitVec 32)
  | scheduleFromIsr (tick : BitVec 32)
  | selectNext (tick : BitVec 32)
  | cleanup
  | criticalEnter
  | criticalExit
  | send (dstTask msgType : BitVec 8) (data : Cell)
  | receive (msgType : BitVec 8)
  | program (s : Stacks)

/-- The running program's stacks replaced. -/
def Vm.withStacks (vm : Vm) (s : Stacks) : Vm :=
  { vm with DS := s.DS, RS := s.RS, sp := s.sp, rp := s.rp }

/-- The VM after the call; `none` is an access outside an array. -/
def backendStep : BackendOp → Vm → Option Vm
  | .spawn w p ds rs dsOk rsOk, vm => some (v4BackendTaskSpawn w p ds rs dsOk rsOk vm).2
  | .exit tick, vm => v4BackendTaskExit tick vm
  | .sleep ms tick tick', vm => v4BackendTaskSleep ms tick tick' vm
  | .yield tick, vm => v4BackendTaskYield tick vm
  | .schedule tick, vm => vmSchedule tick vm
  | .scheduleFromIsr tick, vm => vmScheduleFromIsr tick vm
  | .selectNext tick, vm => some (v4TaskSelectNext tick vm).2
  | .cleanup, vm => some (v4BackendTaskCleanup vm)
  | .criticalEnter, vm => some (vmTaskCriticalEnter vm)
  | .criticalExit, vm => some (vmTaskCriticalExit vm).2
  | .send dst ty data, vm => (v4BackendTaskSend dst ty data vm).map Prod.snd
  | .receive ty, vm => some (v4BackendTaskReceive ty vm).2
  | .program s, vm => some (vm.withStacks s)

/-! ## The invariant -/

structure BackendInv (vm : Vm) : Prop where
  sched : SchedWF vm
  queue : vm.msgQueue.WF

namespace SchedWF

/-- The invariant reads the current index, `rp` and the saved depths only. -/
theorem congr {vm vm' : Vm} (h : SchedWF vm)
    (hcur : vm'.scheduler.currentTask = vm.scheduler.currentTask) (hrp : vm'.rp = vm.rp)
    (htask : ∀ i, (vm'.task i).rsDepth.toNat ≤ (vm.task i).rsDepth.toNat) : SchedWF vm' :=
  ⟨hcur ▸ h.current, hrp ▸ h.rp, fun i => Nat.le_trans (htask i) (h.saved i)⟩

theorem setTask {vm : Vm} (h : SchedWF vm) (i : Fin 8) {t : V4Task} (ht : t.rsDepth.toNat ≤ 64) :
    SchedWF (vm.setTask i t) := by
  refine ⟨h.current, h.rp, fun j => ?_⟩
  by_cases hj : j = i
  · subst hj
    rw [Vm.task_setTask_self]
    exact ht
  · rw [Vm.task_setTask_of_ne vm t hj]
    exact h.saved j

end SchedWF

/-! ## Retiring slots -/

theorem retireTask_task (vm : Vm) (i j : Fin 8) :
    (retireTask vm i).task j
      = if j = i then { vm.task i with dsBase := none, rsBase := none, state := .dead }
        else vm.task j := by
  by_cases h : j = i
  · subst h
    rw [if_pos rfl]
    exact Vm.task_setTask_self vm j _
  · rw [if_neg h]
    exact Vm.task_setTask_of_ne vm _ h

/-- Retiring the slots of a list, one after the other. -/
theorem foldl_retireTask_task (l : List (Fin 8)) (vm : Vm) (j : Fin 8) :
    (j ∈ l → (l.foldl retireTask vm).task j
      = { vm.task j with dsBase := none, rsBase := none, state := .dead }) ∧
    (j ∉ l → (l.foldl retireTask vm).task j = vm.task j) := by
  induction l generalizing vm with
  | nil => exact ⟨fun h => absurd h List.not_mem_nil, fun _ => rfl⟩
  | cons i l ih =>
      obtain ⟨hmem, hnot⟩ := ih (retireTask vm i)
      rw [List.foldl_cons]
      rw [retireTask_task] at hmem hnot
      by_cases hji : j = i
      · subst hji
        rw [if_pos rfl] at hmem hnot
        refine ⟨fun _ => ?_, fun h => absurd List.mem_cons_self h⟩
        -- A slot that occurs twice is retired twice, to the same effect.
        by_cases hjl : j ∈ l
        · exact hmem hjl
        · exact hnot hjl
      · rw [if_neg hji] at hmem hnot
        refine ⟨fun h => ?_, fun h => hnot fun hjl => h (List.mem_cons_of_mem i hjl)⟩
        exact hmem ((List.mem_cons.mp h).resolve_left hji)

theorem v4BackendTaskCleanup_task (vm : Vm) (j : Fin 8) :
    (v4BackendTaskCleanup vm).task j
      = { vm.task j with dsBase := none, rsBase := none, state := .dead } :=
  (foldl_retireTask_task (List.finRange 8) vm j).1 (List.mem_finRange j)

theorem exitCurrent_task (vm : Vm) (cur j : Fin 8) :
    (exitCurrent vm cur).task j
      = if j = cur then { vm.task cur with dsBase := none, rsBase := none, state := .dead }
        else vm.task j := retireTask_task vm cur j

theorem exitCurrent_wf {vm : Vm} (h : SchedWF vm) (cur : Fin 8) : SchedWF (exitCurrent vm cur) := by
  refine h.congr rfl rfl fun i => ?_
  rw [exitCurrent_task]
  split
  case isTrue hi =>
    subst hi
    exact Nat.le_refl _
  case isFalse => exact Nat.le_refl _

theorem blockCurrent_task (tick ms : BitVec 32) (vm : Vm) (cur j : Fin 8) :
    (blockCurrent tick ms vm cur).task j
      = if j = cur then { vm.task cur with sleepUntilTick := tick + ms, state := .blocked }
        else vm.task j := by
  by_cases h : j = cur
  · subst h
    rw [if_pos rfl]
    exact Vm.task_setTask_self vm j _
  · rw [if_neg h]
    exact Vm.task_setTask_of_ne vm _ h

theorem blockCurrent_wf {vm : Vm} (h : SchedWF vm) (tick ms : BitVec 32) (cur : Fin 8) :
    SchedWF (blockCurrent tick ms vm cur) := h.setTask cur (h.saved cur)

/-! ## Spawning -/

/-- What a spawn does: refuse and change nothing, or go on with a DEAD slot. -/
theorem v4BackendTaskSpawn_cases (w : BitVec 16) (p : BitVec 8) (ds rs : BitVec 16)
    (dsOk rsOk : Bool) (vm : Vm) :
    (∃ e : Err, e ≠ .ok ∧ v4BackendTaskSpawn w p ds rs dsOk rsOk vm = (e.code, vm)) ∨
    ∃ i, (vm.task i).state = .dead ∧ v4BackendTaskSpawn w p ds rs dsOk rsOk vm
      = spawnInto vm i w p (stackSize ds 256) (stackSize rs 64) dsOk rsOk := by
  unfold v4BackendTaskSpawn
  by_cases hw : w.toNat ≥ vm.wordCount
  · exact .inl ⟨.invalidWordIdx, by decide, by rw [if_pos hw]⟩
  · rw [if_neg hw]
    cases hfind : findDead vm with
    | none => exact .inl ⟨.taskLimit, by decide, rfl⟩
    | some i => exact .inr ⟨i, by simpa using List.find?_some hfind, rfl⟩

/-- The two ends of a spawn that found a slot. -/
theorem spawnInto_cases (vm : Vm) (i : Fin 8) (w : BitVec 16) (p : BitVec 8)
    (ds rs : BitVec 16) (dsOk rsOk : Bool) :
    (∃ a b heap, spawnInto vm i w p ds rs dsOk rsOk
      = (Err.noMemory.code, abortSpawn vm i a b heap)) ∨
    ∃ a b heap, spawnInto vm i w p ds rs dsOk rsOk
      = ((i.val : Int), installTask vm i (freshTask w p ds rs a b) heap) := by
  by_cases hnull : (vm.heap.malloc dsOk ds.toNat).1.isNone ∨
      ((vm.heap.malloc dsOk ds.toNat).2.malloc rsOk rs.toNat).1.isNone
  · exact .inl ⟨_, _, _, if_pos hnull⟩
  · exact .inr ⟨_, _, _, if_neg hnull⟩

theorem installTask_task (vm : Vm) (i j : Fin 8) (t : V4Task) (heap : Heap) :
    (installTask vm i t heap).task j = if j = i then t else vm.task j := by
  by_cases h : j = i
  · subst h
    rw [if_pos rfl]
    exact Function.update_self ..
  · rw [if_neg h]
    exact Function.update_of_ne h ..

theorem installTask_task_of_ne (vm : Vm) {i j : Fin 8} (t : V4Task) (heap : Heap) (h : j ≠ i) :
    (installTask vm i t heap).task j = vm.task j := Function.update_of_ne h ..

/-- Undoing a spawn leaves every state as it was. -/
theorem abortSpawn_state (vm : Vm) (i j : Fin 8) (a b : Option Nat) (heap : Heap) :
    ((abortSpawn vm i a b heap).task j).state = (vm.task j).state := by
  show ((vm.setTask i { vm.task i with dsBase := none, rsBase := none }).task j).state = _
  by_cases hj : j = i
  · subst hj
    rw [Vm.task_setTask_self]
  · rw [Vm.task_setTask_of_ne vm _ hj]

/-! ## Every call is defined and keeps the invariant -/

/-- A VM that differs in the scheduler's tick-driven part only. -/
theorem BackendInv.of_scheduled {vm vm' : Vm} {tick : BitVec 32} (hw : SchedWF vm)
    (hq : vm.msgQueue.WF) (h : Scheduled tick vm hw.cur vm') : BackendInv vm' :=
  ⟨h.wf, h.frame.msgQueue.symm ▸ hq⟩

/-- `vm_schedule` keeps the invariant. -/
theorem vmSchedule_inv (vm : Vm) (h : BackendInv vm) (tick : BitVec 32) :
    ∃ vm', vmSchedule tick vm = some vm' ∧ BackendInv vm' := by
  obtain ⟨vm', heq, hs⟩ := vmSchedule_scheduled h.sched tick
  exact ⟨vm', heq, .of_scheduled h.sched h.queue hs⟩

theorem abortSpawn_wf {vm : Vm} (h : SchedWF vm) (i : Fin 8) (a b : Option Nat) (heap : Heap) :
    SchedWF (abortSpawn vm i a b heap) := by
  have hset := h.setTask i (t := { vm.task i with dsBase := none, rsBase := none }) (h.saved i)
  exact ⟨hset.current, hset.rp, hset.saved⟩

theorem installTask_wf {vm : Vm} (h : SchedWF vm) (i : Fin 8) {t : V4Task}
    (ht : t.rsDepth.toNat ≤ 64) (heap : Heap) : SchedWF (installTask vm i t heap) := by
  refine ⟨h.current, h.rp, fun j => ?_⟩
  rw [installTask_task]
  split
  · exact ht
  · exact h.saved j

/-- A spawn keeps the invariant. -/
theorem spawn_inv {vm : Vm} (h : BackendInv vm) (w : BitVec 16) (p : BitVec 8) (ds rs : BitVec 16)
    (dsOk rsOk : Bool) : BackendInv (v4BackendTaskSpawn w p ds rs dsOk rsOk vm).2 := by
  obtain ⟨e, -, heq⟩ | ⟨i, -, heq⟩ := v4BackendTaskSpawn_cases w p ds rs dsOk rsOk vm
  · rw [heq]; exact h
  · rw [heq]
    obtain ⟨a, b, heap, hs⟩ | ⟨a, b, heap, hs⟩ :=
      spawnInto_cases vm i w p (stackSize ds 256) (stackSize rs 64) dsOk rsOk
    · rw [hs]; exact ⟨abortSpawn_wf h.sched i a b heap, h.queue⟩
    · rw [hs]; exact ⟨installTask_wf h.sched i (Nat.zero_le _) heap, h.queue⟩

theorem cleanup_wf {vm : Vm} (h : SchedWF vm) : SchedWF (v4BackendTaskCleanup vm) := by
  have hfold : ∀ (l : List (Fin 8)) (vm : Vm), SchedWF vm → SchedWF (l.foldl retireTask vm) := by
    intro l
    induction l with
    | nil => intro vm h; exact h
    | cons i l ih =>
        intro vm h
        have hset := h.setTask i
          (t := { vm.task i with dsBase := none, rsBase := none, state := .dead }) (h.saved i)
        exact ih _ ⟨hset.current, hset.rp, hset.saved⟩
  have h8 := hfold (List.finRange 8) vm h
  exact ⟨h8.current, h8.rp, h8.saved⟩

theorem countPreemption_inv {vm : Vm} (h : BackendInv vm) : BackendInv (countPreemption vm) :=
  ⟨h.sched.congr rfl rfl fun _ => Nat.le_refl _, h.queue⟩

/-- **One call.**  In a state satisfying the invariant every call is defined, and
    the invariant holds afterwards. -/
theorem backendStep_inv {vm : Vm} (h : BackendInv vm) (o : BackendOp) :
    ∃ vm', backendStep o vm = some vm' ∧ BackendInv vm' := by
  cases o with
  | spawn w p ds rs dsOk rsOk => exact ⟨_, rfl, spawn_inv h w p ds rs dsOk rsOk⟩
  | exit tick =>
      -- the scheduler starts from the state in which the current task is dead already
      have hmid : BackendInv (exitCurrent vm h.sched.cur) :=
        ⟨exitCurrent_wf h.sched h.sched.cur, h.queue⟩
      obtain ⟨vm', heq, hinv⟩ := vmSchedule_inv _ hmid tick
      refine ⟨vm', ?_, hinv⟩
      rw [backendStep, v4BackendTaskExit, h.sched.taskPtr]
      exact heq
  | sleep ms tick tick' =>
      have hmid : BackendInv (blockCurrent tick ms vm h.sched.cur) :=
        ⟨blockCurrent_wf h.sched tick ms h.sched.cur, h.queue⟩
      obtain ⟨vm', heq, hinv⟩ := vmSchedule_inv _ hmid tick'
      refine ⟨vm', ?_, hinv⟩
      rw [backendStep, v4BackendTaskSleep, h.sched.taskPtr]
      exact heq
  | yield tick => exact vmSchedule_inv vm h tick
  | schedule tick => exact vmSchedule_inv vm h tick
  | scheduleFromIsr tick =>
      rw [backendStep, vmScheduleFromIsr]
      split
      · exact ⟨vm, rfl, h⟩
      · exact vmSchedule_inv (countPreemption vm) (countPreemption_inv h) tick
  | selectNext tick =>
      refine ⟨wakeAll tick vm, rfl, h.sched.congr rfl rfl fun i => ?_, h.queue⟩
      exact Nat.le_of_eq (congrArg BitVec.toNat (wakeTask_rsDepth tick (vm.task i)))
  | cleanup => exact ⟨_, rfl, cleanup_wf h.sched, .zero⟩
  | criticalEnter => exact ⟨_, rfl, h.sched.congr rfl rfl fun _ => Nat.le_refl _, h.queue⟩
  | criticalExit =>
      refine ⟨_, rfl, ?_⟩
      unfold vmTaskCriticalExit
      split
      · exact ⟨h.sched.congr rfl rfl fun _ => Nat.le_refl _, h.queue⟩
      · exact h
  | send dst ty data =>
      obtain ⟨-, hs⟩ | ⟨-, -, hs⟩ | ⟨-, hroom, hs⟩ :=
        v4BackendTaskSend_cases vm h.queue.write dst ty data
      · exact ⟨vm, by rw [backendStep, hs]; rfl, h⟩
      · exact ⟨vm, by rw [backendStep, hs]; rfl, h⟩
      · refine ⟨_, by rw [backendStep, hs]; rfl, ?_⟩
        exact ⟨h.sched.congr rfl rfl fun _ => Nat.le_refl _, h.queue.push hroom⟩
  | receive ty =>
      obtain ⟨-, hr⟩ | ⟨i, hi, -, hr⟩ := v4BackendTaskReceive_cases vm ty
      · exact ⟨vm, by rw [backendStep, hr], h⟩
      · refine ⟨_, by rw [backendStep, hr], ?_⟩
        exact ⟨h.sched.congr rfl rfl fun _ => Nat.le_refl _, h.queue.removeAt hi⟩
  | program s =>
      exact ⟨_, rfl, ⟨h.sched.current, s.rp_le, h.sched.saved⟩, h.queue⟩

theorem BackendInv.step {vm vm' : Vm} (h : BackendInv vm) {o : BackendOp}
    (hs : backendStep o vm = some vm') : BackendInv vm' := by
  obtain ⟨v, heq, hinv⟩ := backendStep_inv h o
  obtain rfl : v = vm' := Option.some.inj (heq.symm.trans hs)
  exact hinv

theorem BackendInv.defined {vm : Vm} (h : BackendInv vm) (o : BackendOp) :
    (backendStep o vm).isSome := by
  obtain ⟨v, heq, -⟩ := backendStep_inv h o
  rw [heq]
  rfl

/-! ## The calls that are not about tasks -/

/-- The critical sections, the messages, and the running program. -/
def BackendOp.keepsTasks : BackendOp → Bool
  | .criticalEnter | .criticalExit | .send _ _ _ | .receive _ | .program _ => true
  | _ => false

/-- Agreement on the tasks and the heap of their stacks. -/
structure SameTasks (vm vm' : Vm) : Prop where
  tasks : vm'.scheduler.tasks = vm.scheduler.tasks
  currentTask : vm'.scheduler.currentTask = vm.scheduler.currentTask
  taskCount : vm'.scheduler.taskCount = vm.scheduler.taskCount
  heap : vm'.heap = vm.heap

theorem SameTasks.task {vm vm' : Vm} (h : SameTasks vm vm') (i : Fin 8) :
    vm'.task i = vm.task i := congrFun h.tasks i

theorem backendStep_sameTasks {o : BackendOp} (ho : o.keepsTasks = true) {vm vm' : Vm}
    (h : backendStep o vm = some vm') : SameTasks vm vm' := by
  cases o with
  | criticalEnter =>
      cases h
      exact ⟨rfl, rfl, rfl, rfl⟩
  | criticalExit =>
      cases h
      unfold vmTaskCriticalExit
      split <;> exact ⟨rfl, rfl, rfl, rfl⟩
  | send dst ty data =>
      obtain ⟨r, hr, rfl⟩ := Option.map_eq_some_iff.mp h
      unfold v4BackendTaskSend at hr
      split at hr
      · cases hr
        exact ⟨rfl, rfl, rfl, rfl⟩
      · split at hr
        · cases hr
          exact ⟨rfl, rfl, rfl, rfl⟩
        · split at hr <;> cases hr
          exact ⟨rfl, rfl, rfl, rfl⟩
  | receive ty =>
      cases h
      obtain ⟨-, hr⟩ | ⟨i, -, -, hr⟩ := v4BackendTaskReceive_cases vm ty
      · rw [hr]
        exact ⟨rfl, rfl, rfl, rfl⟩
      · rw [hr]
        exact ⟨rfl, rfl, rfl, rfl⟩
  | program s =>
      cases h
      exact ⟨rfl, rfl, rfl, rfl⟩
  | _ => cases ho

/-- The invariant holds after `vm_task_init`. -/
theorem init_inv (timeSliceMs : BitVec 32) {vm : Vm} (h : vm.rp ≤ 64) :
    BackendInv (v4BackendTaskInit timeSliceMs vm) where
  sched := ⟨Nat.zero_lt_succ 7, h, fun _ => Nat.zero_le 64⟩
  queue := .zero

/-- A state reached by calls of the backend from `vm_task_init` on some VM. -/
def BackendReachable (vm : Vm) : Prop :=
  ∃ (timeSliceMs : BitVec 32) (vm0 : Vm) (ops : List BackendOp), vm0.rp ≤ 64 ∧
    exec backendStep ops (v4BackendTaskInit timeSliceMs vm0) = some vm

/-- A VM with one registered word. -/
def oneWordVm : Vm :=
  { Vm.blank with words := fun _ => ⟨some [0x51], 1⟩, wordCount := 1 }

/-- Where a run of calls from `vm_task_init` on `oneWordVm` leads. -/
def vmAfter (ops : List BackendOp) : Vm :=
  (exec backendStep ops (v4BackendTaskInit 10 oneWordVm)).getD .blank

theorem vmAfter_reachable {ops : List BackendOp}
    (h : (exec backendStep ops (v4BackendTaskInit 10 oneWordVm)).isSome) :
    BackendReachable (vmAfter ops) := by
  obtain ⟨vm, hrun⟩ := Option.isSome_iff_exists.mp h
  refine ⟨10, oneWordVm, ops, Nat.zero_le 64, ?_⟩
  rw [vmAfter, hrun]
  rfl

/-- **Every reachable state** satisfies the invariant. -/
theorem BackendReachable.inv {vm : Vm} (h : BackendReachable vm) : BackendInv vm := by
  obtain ⟨timeSliceMs, vm0, ops, hrp, hrun⟩ := h
  exact exec_invariant (fun o s s' hs hstep => hs.step hstep) (init_inv timeSliceMs hrp) hrun

/-- **Further invariants.**  What holds after `vm_task_init`, and is kept by every call
    made in a state satisfying the invariant, holds in every reachable state. -/
theorem BackendReachable.induct {I : Vm → Prop} {vm : Vm} (h : BackendReachable vm)
    (init : ∀ timeSliceMs vm, I (v4BackendTaskInit timeSliceMs vm))
    (step : ∀ o vm vm', BackendInv vm → I vm → backendStep o vm = some vm' → I vm') : I vm := by
  obtain ⟨timeSliceMs, vm0, ops, hrp, hrun⟩ := h
  have hstep : ∀ o s s', BackendInv s ∧ I s → backendStep o s = some s' → BackendInv s' ∧ I s' :=
    fun o s s' hs hrun => ⟨hs.1.step hrun, step o s s' hs.1 hs.2 hrun⟩
  exact (exec_invariant hstep ⟨init_inv timeSliceMs hrp, init timeSliceMs vm0⟩ hrun).2

end V4Engine
