/-
  V4Engine.Task.Processor

  Who gets the processor, and what the statistics say about it.

  The processor changes hands in `vm_schedule` only, whatever call it was made from
  (`backendStep_kind`).  It goes to an eligible task of the highest priority, if that
  is positive: a task of priority 0 that does not have the processor waits for ever.
  `context_switches` and the `exec_count` of the slots count the same events, in words
  of different widths, and `exec_count` starts again at every spawn.
-/
import Mathlib.Algebra.BigOperators.Group.Finset.Piecewise
import V4Engine.Task.Census
import V4Engine.Task.Critical
import V4Engine.Lib.Tally

namespace V4Engine

open Lib

/-! ## The calls that schedule -/

/-- The run of `vm_schedule` that a call ends in: its tick, and the VM it starts from. -/
def BackendOp.schedules (vm : Vm) : BackendOp → Option (BitVec 32 × Vm)
  | .exit tick => (Vm.taskPtr vm.scheduler.currentTask).map fun cur => (tick, exitCurrent vm cur)
  | .sleep ms tick tick' =>
      (Vm.taskPtr vm.scheduler.currentTask).map fun cur => (tick', blockCurrent tick ms vm cur)
  | .yield tick | .schedule tick => some (tick, vm)
  | .scheduleFromIsr tick =>
      if vm.scheduler.criticalNesting > 0 then none else some (tick, countPreemption vm)
  | _ => none

/-- The call is an interrupt's request to schedule, outside critical sections. -/
def preempts (vm : Vm) : BackendOp → Bool
  | .scheduleFromIsr _ => vm.scheduler.criticalNesting = 0
  | _ => false

/-- Whether a call gives the processor to slot `i`: the slot becomes the current one, or
    remains it although its task cannot go on. -/
def switchesTo (i : Fin 8) (vm : Vm) (o : BackendOp) : Bool :=
  match o.schedules vm, backendStep o vm with
  | some (tick, pre), some vm' =>
      vm'.IsCurrent i && (!vm.IsCurrent i || !((pre.task i).Eligible tick))
  | _, _ => false

/-- The call is a spawn that answers `i`, the slot it filled. -/
def spawnsInto (i : Fin 8) (vm : Vm) : BackendOp → Bool
  | .spawn w p ds rs dsOk rsOk => (v4BackendTaskSpawn w p ds rs dsOk rsOk vm).1 = i.val
  | _ => false

/-- The context switches of a run to slot `i`. -/
def switchesInto (i : Fin 8) : List BackendOp → Vm → Nat :=
  tally backendStep fun vm o => if switchesTo i vm o then 1 else 0

/-- The preemptions of a run. -/
def preemptionsOf : List BackendOp → Vm → Nat :=
  tally backendStep fun vm o => if preempts vm o then 1 else 0

/-- The execution counts that the spawns of a run have dropped from slot `i`. -/
def droppedFrom (i : Fin 8) : List BackendOp → Vm → Nat :=
  tally backendStep fun vm o => if spawnsInto i vm o then (vm.task i).execCount.toNat else 0

/-- The processor changes hands only where a call schedules, and goes to a task that can
    run and has the highest priority among those, a positive one. -/
def HandoverLaw (vm : Vm) (o : BackendOp) (vm' : Vm) : Prop :=
  vm'.scheduler.currentTask = vm.scheduler.currentTask ∨
    ∃ tick pre i, o.schedules vm = some (tick, pre) ∧ vm'.IsCurrent i ∧
      (vm'.task i).state = .running ∧ (pre.task i).Eligible tick ∧ (pre.task i).priority ≠ 0 ∧
      ∀ j, (pre.task j).Eligible tick → (pre.task j).priority ≤ (pre.task i).priority

/-- A spawn into slot `i` asks for priority 0. -/
def IdleSpawn (i : Fin 8) (vm : Vm) : BackendOp → Prop
  | .spawn w p ds rs dsOk rsOk => spawnsInto i vm (.spawn w p ds rs dsOk rsOk) → p = 0
  | _ => True

/-! ## The three kinds of calls -/

/-- Agreement on the current slot, on what selection compares and on the statistics;
    nobody has become RUNNING. -/
structure SameCounts (vm vm' : Vm) : Prop where
  currentTask : vm'.scheduler.currentTask = vm.scheduler.currentTask
  contextSwitches : vm'.scheduler.contextSwitches = vm.scheduler.contextSwitches
  priority : ∀ i, (vm'.task i).priority = (vm.task i).priority
  execCount : ∀ i, (vm'.task i).execCount = (vm.task i).execCount
  running : ∀ i, (vm'.task i).state = .running → (vm.task i).state = .running

theorem setTask_task (vm : Vm) (i j : Fin 8) (t : V4Task) :
    (vm.setTask i t).task j = if j = i then t else vm.task j := by
  split
  case isTrue h => rw [h, Vm.task_setTask_self]
  case isFalse h => exact Vm.task_setTask_of_ne vm t h

namespace SameCounts

theorem refl (vm : Vm) : SameCounts vm vm :=
  ⟨rfl, rfl, fun _ => rfl, fun _ => rfl, fun _ => id⟩

/-- The current slot, the counter and the tasks decide. -/
theorem of_tasks {vm vm' : Vm} (hcur : vm'.scheduler.currentTask = vm.scheduler.currentTask)
    (hsw : vm'.scheduler.contextSwitches = vm.scheduler.contextSwitches)
    (htasks : vm'.scheduler.tasks = vm.scheduler.tasks) : SameCounts vm vm' := by
  have htask : ∀ i, vm'.task i = vm.task i := fun i => congrFun htasks i
  refine ⟨hcur, hsw, fun i => ?_, fun i => ?_, fun i => ?_⟩
  · rw [htask i]
  · rw [htask i]
  · rw [htask i]
    exact id

/-- One slot rewritten. -/
theorem of_task {vm vm' : Vm} (cur : Fin 8) {t : V4Task}
    (hcur : vm'.scheduler.currentTask = vm.scheduler.currentTask)
    (hsw : vm'.scheduler.contextSwitches = vm.scheduler.contextSwitches)
    (htask : ∀ i, vm'.task i = if i = cur then t else vm.task i)
    (hp : t.priority = (vm.task cur).priority) (he : t.execCount = (vm.task cur).execCount)
    (hr : t.state = .running → (vm.task cur).state = .running) : SameCounts vm vm' := by
  refine ⟨hcur, hsw, fun i => ?_, fun i => ?_, fun i => ?_⟩ <;> rw [htask i] <;> split
  case refine_1.isTrue hi => rw [hi, hp]
  case refine_2.isTrue hi => rw [hi, he]
  case refine_3.isTrue hi => rw [hi]; exact hr
  case refine_3.isFalse => exact id
  all_goals rfl

end SameCounts

/-- What a call does to the current slot and to the statistics: nothing, one new task, or
    a run of `vm_schedule` from a state in which only the current task may have stopped. -/
inductive StepKind (vm : Vm) (o : BackendOp) (vm' : Vm) : Prop where
  | quiet (hs : o.schedules vm = none) (hn : ∀ i, spawnsInto i vm o = false)
      (hp : preempts vm o = false)
      (h : SameCounts vm vm') (hpre : vm'.scheduler.preemptions = vm.scheduler.preemptions)
  | spawned (i : Fin 8) (w : BitVec 16) (p : BitVec 8) (ds rs : BitVec 16) (dsOk rsOk : Bool)
      (a b : Option Nat) (heap : Heap) (ho : o = .spawn w p ds rs dsOk rsOk)
      (hi : ∀ j, spawnsInto j vm o = true ↔ j = i)
      (h : vm' = installTask vm i
        (freshTask w p (stackSize ds 256) (stackSize rs 64) a b) heap)
  | scheduled (tick : BitVec 32) (pre : Vm) (hs : o.schedules vm = some (tick, pre))
      (hn : ∀ i, spawnsInto i vm o = false) (hw : SchedWF pre) (h : SameCounts vm pre)
      (hpre : pre.scheduler.preemptions
        = vm.scheduler.preemptions + if preempts vm o then 1 else 0)
      (heq : vmSchedule tick pre = some vm')

/-- What a spawn does: nothing with a negative answer, or a new task with its slot. -/
theorem spawn_kind (w : BitVec 16) (p : BitVec 8) (ds rs : BitVec 16) (dsOk rsOk : Bool)
    (vm : Vm) : StepKind vm (.spawn w p ds rs dsOk rsOk)
      (v4BackendTaskSpawn w p ds rs dsOk rsOk vm).2 := by
  -- an error code is no slot
  have hcode : ∀ (e : Err) (i : Fin 8), e ≠ .ok → ¬ e.code = (i.val : Int) := by
    intro e i he h
    have hneg : e.code < (0 : Int) := by cases e <;> first | exact absurd rfl he | decide
    rw [h] at hneg
    exact absurd hneg (Int.not_lt.mpr (Int.natCast_nonneg i.val))
  obtain ⟨e, he, heq⟩ | ⟨i, hdead, heq⟩ := v4BackendTaskSpawn_cases w p ds rs dsOk rsOk vm
  · rw [heq]
    refine .quiet rfl (fun i => ?_) rfl (.refl vm) rfl
    rw [spawnsInto, heq]
    exact decide_eq_false (hcode e i he)
  · obtain ⟨a, b, heap, hs⟩ | ⟨a, b, heap, hs⟩ :=
      spawnInto_cases vm i w p (stackSize ds 256) (stackSize rs 64) dsOk rsOk
    · rw [heq, hs]
      refine .quiet rfl (fun j => ?_) rfl ?_ rfl
      · rw [spawnsInto, heq, hs]
        exact decide_eq_false (hcode .noMemory j (by decide))
      · exact .of_task i rfl rfl (fun j => setTask_task vm i j _) rfl rfl id
    · rw [heq, hs]
      refine .spawned i w p ds rs dsOk rsOk a b heap rfl (fun j => ?_) rfl
      rw [spawnsInto, heq, hs, decide_eq_true_eq]
      omega

/-- Retiring and blocking the current slot keep the counts. -/
theorem exitCurrent_sameCounts (vm : Vm) (cur : Fin 8) : SameCounts vm (exitCurrent vm cur) :=
  .of_task cur rfl rfl (exitCurrent_task vm cur) rfl rfl fun h => by cases h

theorem blockCurrent_sameCounts (tick ms : BitVec 32) (vm : Vm) (cur : Fin 8) :
    SameCounts vm (blockCurrent tick ms vm cur) :=
  .of_task cur rfl rfl (blockCurrent_task tick ms vm cur) rfl rfl fun h => by cases h

theorem cleanup_scheduler (vm : Vm) :
    (v4BackendTaskCleanup vm).scheduler.currentTask = vm.scheduler.currentTask ∧
      (v4BackendTaskCleanup vm).scheduler.contextSwitches = vm.scheduler.contextSwitches ∧
      (v4BackendTaskCleanup vm).scheduler.preemptions = vm.scheduler.preemptions := by
  have hfold : ∀ (l : List (Fin 8)) (vm : Vm),
      (l.foldl retireTask vm).scheduler.currentTask = vm.scheduler.currentTask ∧
        (l.foldl retireTask vm).scheduler.contextSwitches = vm.scheduler.contextSwitches ∧
        (l.foldl retireTask vm).scheduler.preemptions = vm.scheduler.preemptions := by
    intro l
    induction l with
    | nil => exact fun vm => ⟨rfl, rfl, rfl⟩
    | cons i l ih => exact fun vm => ih (retireTask vm i)
  exact hfold (List.finRange 8) vm

theorem cleanup_sameCounts (vm : Vm) : SameCounts vm (v4BackendTaskCleanup vm) := by
  obtain ⟨hcur, hsw, -⟩ := cleanup_scheduler vm
  refine ⟨hcur, hsw, fun i => ?_, fun i => ?_, fun i h => ?_⟩
  · rw [v4BackendTaskCleanup_task]
  · rw [v4BackendTaskCleanup_task]
  · rw [v4BackendTaskCleanup_task] at h
    cases h

theorem wakeAll_sameCounts (tick : BitVec 32) (vm : Vm) : SameCounts vm (wakeAll tick vm) := by
  exact ⟨rfl, rfl, fun i => wakeTask_priority tick _, fun i => wakeTask_execCount tick _,
    fun i => wakeTask_running⟩

/-- **The calls of the backend**, seen from the statistics. -/
theorem backendStep_kind {vm vm' : Vm} (hinv : BackendInv vm) {o : BackendOp}
    (h : backendStep o vm = some vm') : StepKind vm o vm' := by
  cases o with
  | spawn w p ds rs dsOk rsOk =>
      cases h
      exact spawn_kind w p ds rs dsOk rsOk vm
  | exit tick =>
      rw [backendStep, v4BackendTaskExit, hinv.sched.taskPtr] at h
      refine .scheduled tick _ ?_ (fun _ => rfl) (exitCurrent_wf hinv.sched hinv.sched.cur)
        (exitCurrent_sameCounts vm hinv.sched.cur) (BitVec.add_zero _).symm h
      rw [BackendOp.schedules, hinv.sched.taskPtr]
      rfl
  | sleep ms tick tick' =>
      rw [backendStep, v4BackendTaskSleep, hinv.sched.taskPtr] at h
      refine .scheduled tick' _ ?_ (fun _ => rfl)
        (blockCurrent_wf hinv.sched tick ms hinv.sched.cur)
        (blockCurrent_sameCounts tick ms vm hinv.sched.cur) (BitVec.add_zero _).symm h
      rw [BackendOp.schedules, hinv.sched.taskPtr]
      rfl
  | yield tick =>
      exact .scheduled tick vm rfl (fun _ => rfl) hinv.sched (.refl vm) (BitVec.add_zero _).symm h
  | schedule tick =>
      exact .scheduled tick vm rfl (fun _ => rfl) hinv.sched (.refl vm) (BitVec.add_zero _).symm h
  | scheduleFromIsr tick =>
      rw [backendStep, vmScheduleFromIsr] at h
      by_cases hn : vm.scheduler.criticalNesting > 0
      · -- held off by a critical section
        rw [if_pos hn] at h
        cases h
        refine .quiet (if_pos hn) (fun _ => rfl) (decide_eq_false fun hz => ?_) (.refl vm) rfl
        rw [hz] at hn
        exact absurd hn (by decide)
      · rw [if_neg hn] at h
        have hzero : preempts vm (.scheduleFromIsr tick) = true := decide_eq_true (by bv_omega)
        refine .scheduled tick (countPreemption vm) (if_neg hn) (fun _ => rfl)
          (countPreemption_inv hinv).sched (.of_tasks rfl rfl rfl) ?_ h
        rw [if_pos hzero]
        rfl
  | selectNext tick =>
      cases h
      exact .quiet rfl (fun _ => rfl) rfl (wakeAll_sameCounts tick vm) rfl
  | cleanup =>
      cases h
      exact .quiet rfl (fun _ => rfl) rfl (cleanup_sameCounts vm) (cleanup_scheduler vm).2.2
  | criticalEnter =>
      cases h
      exact .quiet rfl (fun _ => rfl) rfl (.of_tasks rfl rfl rfl) rfl
  | criticalExit =>
      cases h
      unfold vmTaskCriticalExit
      split <;> exact .quiet rfl (fun _ => rfl) rfl (.of_tasks rfl rfl rfl) rfl
  | send dst ty data =>
      obtain ⟨-, hs⟩ | ⟨-, -, hs⟩ | ⟨-, hroom, hs⟩ :=
        v4BackendTaskSend_cases vm hinv.queue.write dst ty data
      all_goals
        rw [backendStep, hs] at h
        cases h
        exact .quiet rfl (fun _ => rfl) rfl (.of_tasks rfl rfl rfl) rfl
  | receive ty =>
      cases h
      obtain ⟨-, hr⟩ | ⟨i, -, -, hr⟩ := v4BackendTaskReceive_cases vm ty <;> rw [hr] <;>
        exact .quiet rfl (fun _ => rfl) rfl (.of_tasks rfl rfl rfl) rfl
  | program s =>
      cases h
      exact .quiet rfl (fun _ => rfl) rfl (.of_tasks rfl rfl rfl) rfl

/-! ## What `vm_schedule` counts -/

theorem parked_statistics (vm : Vm) (cur : Fin 8) :
    (parked vm cur).scheduler.contextSwitches = vm.scheduler.contextSwitches ∧
      (parked vm cur).scheduler.preemptions = vm.scheduler.preemptions := by
  unfold parked
  split <;> exact ⟨rfl, rfl⟩

/-- A context switch, from the state before the schedule: another slot is chosen, or the
    task of the current one cannot go on. -/
def Switching (tick : BitVec 32) (vm : Vm) (cur next : Fin 8) : Prop :=
  next ≠ cur ∨ ¬ (vm.task cur).Eligible tick

instance (tick : BitVec 32) (vm : Vm) (cur next : Fin 8) :
    Decidable (Switching tick vm cur next) := inferInstanceAs (Decidable (_ ∨ _))

/-- The outcome of `vm_schedule` for the processor and the statistics. -/
structure Counted (tick : BitVec 32) (vm : Vm) (cur next : Fin 8) (vm' : Vm) : Prop where
  chosen : Chosen tick vm cur next
  current : vm'.IsCurrent next
  running : (vm'.task next).state = .running
  others : ∀ i, i ≠ next → i ≠ cur → (vm'.task i).state = .running →
    (vm.task i).state = .running
  priority : ∀ i, (vm'.task i).priority = (vm.task i).priority
  execCount : ∀ i, (vm'.task i).execCount
    = (vm.task i).execCount + if i = next ∧ Switching tick vm cur next then 1 else 0
  contextSwitches : vm'.scheduler.contextSwitches
    = vm.scheduler.contextSwitches + if Switching tick vm cur next then 1 else 0
  preemptions : vm'.scheduler.preemptions = vm.scheduler.preemptions

/-- **One schedule** counts one switch, in the counter and in the chosen slot, or none. -/
theorem Scheduled.counted {tick : BitVec 32} {vm vm' : Vm} {hw : SchedWF vm}
    (h : Scheduled tick vm hw.cur vm') : ∃ next, Counted tick vm hw.cur next vm' := by
  obtain ⟨hsw, hpre⟩ := parked_statistics vm hw.cur
  have hwoken := wakeAll_sameCounts tick (parked vm hw.cur)
  have hcount : ∀ i, ((wakeAll tick (parked vm hw.cur)).task i).execCount
      = (vm.task i).execCount := fun i => (hwoken.execCount i).trans (parked_execCount vm hw.cur i)
  have hprio : ∀ i, ((wakeAll tick (parked vm hw.cur)).task i).priority
      = (vm.task i).priority := fun i => (hwoken.priority i).trans (parked_priority vm hw.cur i)
  have hrun : ∀ i, i ≠ hw.cur → ((wakeAll tick (parked vm hw.cur)).task i).state = .running →
      (vm.task i).state = .running := by
    intro i hi hr
    rw [← parked_task_of_ne hi]
    exact hwoken.running i hr
  cases h with
  | stay hc he =>
      have hno : ¬ Switching tick vm hw.cur hw.cur := by
        rintro (hs | hs)
        · exact hs rfl
        · exact hs he
      refine ⟨hw.cur, hc, ?_, ?_, fun i hi _ hr => ?_, fun i => ?_, fun i => ?_, ?_, hpre⟩
      · rw [Vm.IsCurrent, Vm.setTask_currentTask, hw.cur_id]
        exact parked_currentTask vm hw.cur
      · rw [Vm.task_setTask_self]
      · rw [Vm.task_setTask_of_ne _ _ hi] at hr
        exact hrun i hi hr
      · rw [setTask_task]
        split
        case isTrue hi => rw [hi]; exact hprio hw.cur
        case isFalse => exact hprio i
      · rw [if_neg fun hs => hno hs.2]
        refine Eq.trans ?_ (BitVec.add_zero _).symm
        rw [setTask_task]
        split
        case isTrue hi => rw [hi]; exact hcount hw.cur
        case isFalse => exact hcount i
      · rw [if_neg hno]
        exact hsw.trans (BitVec.add_zero _).symm
  | switch next hc hne =>
      have hyes : Switching tick vm hw.cur next := hne
      have htask : ∀ i, (switched (wakeAll tick (parked vm hw.cur)) next).task i
          = if i = next then
              { (wakeAll tick (parked vm hw.cur)).task next with
                state := .running
                execCount := ((wakeAll tick (parked vm hw.cur)).task next).execCount + 1 }
            else (wakeAll tick (parked vm hw.cur)).task i := by
        intro i
        split
        case isTrue hi => rw [hi]; exact Function.update_self ..
        case isFalse hi => exact Function.update_of_ne hi ..
      refine ⟨next, hc, rfl, ?_, fun i hi hcur hr => ?_, fun i => ?_, fun i => ?_, ?_, hpre⟩
      · rw [htask, if_pos rfl]
      · rw [htask, if_neg hi] at hr
        exact hrun i hcur hr
      · rw [htask]
        split
        case isTrue hi => rw [hi]; exact hprio next
        case isFalse => exact hprio i
      · rw [htask]
        by_cases hi : i = next
        · rw [if_pos hi, if_pos ⟨hi, hyes⟩, hi]
          exact congrArg (· + 1) (hcount next)
        · rw [if_neg hi, if_neg fun hs => hi hs.1]
          exact (hcount i).trans (BitVec.add_zero _).symm
      · rw [if_pos hyes]
        exact congrArg (· + 1) hsw

/-- A schedule from `pre`, seen from the VM before the call. -/
theorem switchesTo_iff {tick : BitVec 32} {vm pre vm' : Vm} {o : BackendOp} {hw : SchedWF pre}
    {next : Fin 8} (hs : o.schedules vm = some (tick, pre)) (hb : backendStep o vm = some vm')
    (hcur : pre.scheduler.currentTask = vm.scheduler.currentTask)
    (h : Counted tick pre hw.cur next vm') (i : Fin 8) :
    switchesTo i vm o = true ↔ i = next ∧ Switching tick pre hw.cur next := by
  have hnext : vm'.IsCurrent i ↔ i = next :=
    ⟨fun hi => slotId_injective (hi.symm.trans h.current), fun hi => hi ▸ h.current⟩
  have hold : vm.IsCurrent i ↔ i = hw.cur := by
    rw [← hw.isCurrent_iff, Vm.IsCurrent, Vm.IsCurrent, hcur]
  simp only [switchesTo, hs, hb, Bool.and_eq_true, Bool.or_eq_true, Bool.not_eq_true',
    decide_eq_true_eq, decide_eq_false_iff_not, hnext, hold, Switching]
  refine and_congr_right ?_
  rintro rfl
  by_cases hi : i = hw.cur
  · rw [hi]
  · exact iff_of_true (.inl hi) (.inl hi)

/-! ## Who runs -/

/-- **One call** obeys the law. -/
theorem StepKind.handover {vm vm' : Vm} {o : BackendOp} (h : StepKind vm o vm') :
    HandoverLaw vm o vm' := by
  cases h with
  | quiet _ _ _ h => exact .inl h.currentTask
  | spawned i w p ds rs dsOk rsOk a b heap ho hi h =>
      rw [h]
      exact .inl rfl
  | scheduled tick pre hs _ hw h _ heq =>
      obtain ⟨next, hcount⟩ := (scheduled_of_eq hw heq).counted
      obtain ⟨-, rfl⟩ | ⟨he, hp, hmax⟩ := hcount.chosen
      · -- nobody to choose: the current slot goes on
        refine .inl ?_
        rw [hcount.current, hw.cur_id, h.currentTask]
      · exact .inr ⟨tick, pre, next, hs, hcount.current, hcount.running, he, hp, hmax⟩

/-- The slot does not have the processor, its task has priority 0, and its count is what
    it was at `vm0` or that of a new task. -/
structure Unserved (i : Fin 8) (vm0 vm : Vm) : Prop where
  notCurrent : ¬ vm.IsCurrent i
  notRunning : (vm.task i).state ≠ .running
  priority : (vm.task i).priority = 0
  execCount : (vm.task i).execCount = (vm0.task i).execCount ∨ (vm.task i).execCount = 0

theorem Unserved.of_sameCounts {i : Fin 8} {vm0 vm vm' : Vm} (h : Unserved i vm0 vm)
    (hs : SameCounts vm vm') : Unserved i vm0 vm' where
  notCurrent hc := h.notCurrent (hs.currentTask.symm.trans hc)
  notRunning hr := h.notRunning (hs.running i hr)
  priority := (hs.priority i).trans h.priority
  execCount := (hs.execCount i).symm ▸ h.execCount

/-- **One call** leaves such a slot as it is, unless it fills it with a task of positive
    priority. -/
theorem StepKind.unserved {i : Fin 8} {vm0 vm vm' : Vm} {o : BackendOp}
    (hk : StepKind vm o vm') (hidle : IdleSpawn i vm o) (h : Unserved i vm0 vm) :
    Unserved i vm0 vm' := by
  cases hk with
  | quiet _ _ _ hs => exact h.of_sameCounts hs
  | spawned j w p ds rs dsOk rsOk a b heap ho hi hvm =>
      have htask := installTask_task vm j i
        (freshTask w p (stackSize ds 256) (stackSize rs 64) a b) heap
      rw [← hvm] at htask
      have hcur : vm'.scheduler.currentTask = vm.scheduler.currentTask := by rw [hvm]; rfl
      by_cases hij : i = j
      · rw [if_pos hij] at htask
        rw [ho] at hidle hi
        have hp : p = 0 := hidle ((hi i).mpr hij)
        refine ⟨fun hc => h.notCurrent (hcur.symm.trans hc), ?_, ?_, ?_⟩ <;> rw [htask]
        · exact fun hr => by cases hr
        · exact hp
        · exact .inr rfl
      · rw [if_neg hij] at htask
        refine ⟨fun hc => h.notCurrent (hcur.symm.trans hc), ?_, ?_, ?_⟩ <;> rw [htask]
        · exact h.notRunning
        · exact h.priority
        · exact h.execCount
  | scheduled tick pre _ _ hw hs _ heq =>
      have hpre := h.of_sameCounts hs
      obtain ⟨next, hcount⟩ := (scheduled_of_eq hw heq).counted
      have hcur : i ≠ hw.cur := fun hi => hpre.notCurrent ((hw.isCurrent_iff i).mpr hi)
      -- the chosen slot is the current one or has a positive priority
      have hnext : i ≠ next := by
        rintro rfl
        obtain ⟨-, hi⟩ | ⟨-, hp, -⟩ := hcount.chosen
        · exact hcur hi
        · exact hp hpre.priority
      refine ⟨fun hc => hnext (slotId_injective (hc.symm.trans hcount.current)), fun hr => ?_,
        (hcount.priority i).trans hpre.priority, ?_⟩
      · exact hpre.notRunning (hcount.others i hnext hcur hr)
      · rw [hcount.execCount i, if_neg fun hs => hnext hs.1]
        exact (BitVec.add_zero (pre.task i).execCount).symm ▸ hpre.execCount

/-- **Who runs.**  In every run of calls, whenever the processor changes hands it goes to
    an eligible task of the highest, positive priority.  So a slot that does not have the
    processor and whose task has priority 0, the lowest one, does not get it as long as
    only tasks of priority 0 are spawned into the slot. -/
theorem processor_goes_to_highest {vm : Vm} (h : BackendReachable vm) (ops : List BackendOp) :
    EachStep backendStep HandoverLaw ops vm ∧
    ∀ i, ¬ vm.IsCurrent i → (vm.task i).priority = 0 → Along backendStep (IdleSpawn i) ops vm →
      ∃ vm', exec backendStep ops vm = some vm' ∧ ¬ vm'.IsCurrent i ∧
        (vm'.task i).state ≠ .running ∧
        ((vm'.task i).execCount = (vm.task i).execCount ∨ (vm'.task i).execCount = 0) := by
  obtain ⟨hdef, hlaw⟩ := exec_eachStep (F := fun _ => True) (L := HandoverLaw)
    (fun o s hs _ => by
      obtain ⟨s', heq, hinv⟩ := backendStep_inv hs o
      exact ⟨s', heq, hinv, (backendStep_kind hs heq).handover⟩)
    h.inv fun _ (_ : _ ∈ ops) => trivial
  refine ⟨hlaw, fun i hcur hp hidle => ?_⟩
  obtain ⟨vm', hrun⟩ := Option.isSome_iff_exists.mp hdef
  -- only the current slot can be RUNNING
  have hone : OneRunning vm := by
    apply h.induct
    · intro timeSliceMs vm0 j hj
      cases hj
    · intro o s s' hinv hone hstep
      exact backendStep_oneRunning hinv hone hstep
  have hslot : BackendInv vm' ∧ Unserved i vm vm' := by
    refine hidle.invariant (I := fun s => BackendInv s ∧ Unserved i vm s) ?_
      ⟨h.inv, hcur, fun hr => hcur (hone i hr), hp, .inl rfl⟩ hrun
    rintro o s s' ⟨hinv, hs⟩ ho hstep
    exact ⟨hinv.step hstep, (backendStep_kind hinv hstep).unserved ho hs⟩
  exact ⟨vm', hrun, hslot.2.notCurrent, hslot.2.notRunning, hslot.2.execCount⟩

/-- A task of priority 1 and one of priority 0: the second does not run even after the
    first has exited. -/
theorem processor_goes_to_highest_pair :
    ∃ vm', exec backendStep [.schedule 0, .yield 1, .exit 2, .yield 3]
        (vmAfter [.spawn 0 1 0 0 true true, .spawn 0 0 0 0 true true]) = some vm' ∧
      ¬ vm'.IsCurrent 1 ∧ (vm'.task 1).state ≠ .running ∧ ((vm'.task 1).execCount
        = ((vmAfter [.spawn 0 1 0 0 true true, .spawn 0 0 0 0 true true]).task 1).execCount ∨
        (vm'.task 1).execCount = 0) :=
  (processor_goes_to_highest (vmAfter_reachable (by decide)) _).2 1 (by decide) (by decide)
    ⟨trivial, fun _ _ => ⟨trivial, fun _ _ => ⟨trivial, fun _ _ => ⟨trivial, fun _ _ =>
      trivial⟩⟩⟩⟩

/-! ## The statistics -/

/-- What one call adds to the counters, modulo their ranges. -/
structure CountedCall (vm : Vm) (o : BackendOp) (vm' : Vm) : Prop where
  switches : vm'.scheduler.contextSwitches.toNat ≡ vm.scheduler.contextSwitches.toNat +
    ∑ i, (if switchesTo i vm o then 1 else 0) [MOD 2 ^ 32]
  preemptions : vm'.scheduler.preemptions.toNat ≡ vm.scheduler.preemptions.toNat +
    (if preempts vm o then 1 else 0) [MOD 2 ^ 32]
  execCount : ∀ i, (vm'.task i).execCount.toNat +
      (if spawnsInto i vm o then (vm.task i).execCount.toNat else 0) ≡
    (vm.task i).execCount.toNat + (if switchesTo i vm o then 1 else 0) [MOD 2 ^ 16]

/-- A counter moved by a conditional increment. -/
theorem toNat_count {w : Nat} {x y : BitVec w} (p : Prop) [Decidable p]
    (h : y = x + if p then 1 else 0) : y.toNat ≡ x.toNat + (if p then 1 else 0) [MOD 2 ^ w] := by
  rw [h]
  split
  · rw [BitVec.toNat_add]
    refine (Nat.mod_modEq _ _).trans (Nat.ModEq.add_left _ ?_)
    show (BitVec.ofNat w 1).toNat ≡ 1 [MOD 2 ^ w]
    rw [BitVec.toNat_ofNat]
    exact Nat.mod_modEq 1 _
  · show (x + 0#w).toNat ≡ x.toNat [MOD 2 ^ w]
    rw [BitVec.add_zero]

/-- **One call** keeps the statistics. -/
theorem StepKind.countedCall {vm vm' : Vm} {o : BackendOp} (h : StepKind vm o vm')
    (hb : backendStep o vm = some vm') : CountedCall vm o vm' := by
  have hnone : o.schedules vm = none → ∀ i, switchesTo i vm o = false := by
    intro hs i
    rw [switchesTo, hs]
  have hzero : o.schedules vm = none → (∑ i, if switchesTo i vm o then 1 else 0) = 0 := by
    intro hs
    refine Finset.sum_eq_zero fun i _ => ?_
    rw [hnone hs i]
    rfl
  cases h with
  | quiet hs hn hp h hpre =>
      refine ⟨?_, ?_, fun i => ?_⟩
      · rw [hzero hs, h.contextSwitches]
        rfl
      · rw [hpre, hp]
        rfl
      · rw [h.execCount i, hn i, hnone hs i]
        rfl
  | spawned j w p ds rs dsOk rsOk a b heap ho hi h =>
      have hs : o.schedules vm = none := by rw [ho]; rfl
      have hp : preempts vm o = false := by rw [ho]; rfl
      refine ⟨?_, ?_, fun i => ?_⟩
      · rw [hzero hs, h]
        rfl
      · rw [h, hp]
        rfl
      · -- the new task starts at 0, and what the slot had counted is dropped
        rw [h, installTask_task, hnone hs i]
        by_cases hij : i = j
        · rw [if_pos hij, if_pos ((hi i).mpr hij)]
          show 0 + (vm.task i).execCount.toNat ≡ (vm.task i).execCount.toNat + 0 [MOD 2 ^ 16]
          rw [Nat.zero_add]
          rfl
        · rw [if_neg hij, if_neg fun hsp => hij ((hi i).mp hsp)]
          rfl
  | scheduled tick pre hs hn hw h hpre heq =>
      obtain ⟨next, hcount⟩ := (scheduled_of_eq hw heq).counted
      have hto := switchesTo_iff hs hb h.currentTask hcount
      refine ⟨?_, ?_, fun i => ?_⟩
      · have hsum : (∑ i, if switchesTo i vm o then 1 else 0)
            = if Switching tick pre hw.cur next then 1 else 0 := by
          simp only [hto, ite_and]
          rw [Finset.sum_ite_eq' Finset.univ next]
          simp
        rw [hsum, ← h.contextSwitches]
        exact toNat_count _ hcount.contextSwitches
      · rw [hcount.preemptions]
        exact toNat_count _ hpre
      · rw [hn i, ← h.execCount i]
        simp only [hto i]
        exact toNat_count _ (hcount.execCount i)

/-- **The statistics.**  After every run from `vm_task_init` the two counters of the
    scheduler are the numbers of context switches and of preemptions, modulo 2^32; the
    `exec_count` of a slot is the number of switches to it, less what its earlier tasks
    had counted, modulo 2^16. -/
theorem statistics_balance (timeSliceMs : BitVec 32) {vm vm' : Vm} (h : vm.rp ≤ 64)
    {ops : List BackendOp}
    (hrun : exec backendStep ops (v4BackendTaskInit timeSliceMs vm) = some vm') :
    vm'.scheduler.contextSwitches.toNat
      = (∑ i, switchesInto i ops (v4BackendTaskInit timeSliceMs vm)) % 2 ^ 32 ∧
    vm'.scheduler.preemptions.toNat
      = preemptionsOf ops (v4BackendTaskInit timeSliceMs vm) % 2 ^ 32 ∧
    ∀ i, (vm'.task i).execCount.toNat + droppedFrom i ops (v4BackendTaskInit timeSliceMs vm)
      ≡ switchesInto i ops (v4BackendTaskInit timeSliceMs vm) [MOD 2 ^ 16] := by
  have hinit : BackendInv (v4BackendTaskInit timeSliceMs vm) := init_inv timeSliceMs h
  have hinv : ∀ o s s', BackendInv s → backendStep o s = some s' → BackendInv s' :=
    fun o s s' hs hstep => hs.step hstep
  have hcall : ∀ o s s', BackendInv s → backendStep o s = some s' → CountedCall s o s' :=
    fun o s s' hs hstep => (backendStep_kind hs hstep).countedCall hstep
  -- the counters start from 0, and a word is below its range
  have hword : ∀ {w n : Nat} (x : BitVec w), x.toNat ≡ 0 + n [MOD 2 ^ w] → x.toNat = n % 2 ^ w := by
    intro w n x hx
    rw [Nat.zero_add, Nat.ModEq, Nat.mod_eq_of_lt x.isLt] at hx
    exact hx
  refine ⟨?_, ?_, fun i => ?_⟩
  · have hcount := exec_count _ hinv
      (fun o s s' hs hstep => (hcall o s s' hs hstep).switches) hinit hrun
    rw [tally_sum] at hcount
    exact hword _ hcount
  · exact hword _ (exec_count _ hinv
      (fun o s s' hs hstep => (hcall o s s' hs hstep).preemptions) hinit hrun)
  · have hbal := exec_balance _ _ hinv
      (fun o s s' hs hstep => (hcall o s s' hs hstep).execCount i) hinit hrun
    exact hbal.trans (congrArg (· % 2 ^ 16) (Nat.zero_add _))

/-- Two tasks, one interrupt and one new task in the slot of the first. -/
def busyRun : List BackendOp :=
  [.spawn 0 1 0 0 true true, .spawn 0 1 0 0 true true, .schedule 0, .scheduleFromIsr 1, .exit 2,
    .spawn 0 2 0 0 true true, .yield 3]

/-- The statistics of `busyRun`. -/
theorem statistics_balance_busyRun :
    (vmAfter busyRun).scheduler.contextSwitches.toNat
      = (∑ i, switchesInto i busyRun (v4BackendTaskInit 10 oneWordVm)) % 2 ^ 32 ∧
    (vmAfter busyRun).scheduler.preemptions.toNat
      = preemptionsOf busyRun (v4BackendTaskInit 10 oneWordVm) % 2 ^ 32 ∧
    ∀ i, ((vmAfter busyRun).task i).execCount.toNat
        + droppedFrom i busyRun (v4BackendTaskInit 10 oneWordVm)
      ≡ switchesInto i busyRun (v4BackendTaskInit 10 oneWordVm) [MOD 2 ^ 16] := by
  have hsome : (exec backendStep busyRun (v4BackendTaskInit 10 oneWordVm)).isSome := by decide
  obtain ⟨vm', hrun⟩ := Option.isSome_iff_exists.mp hsome
  have hvm : vmAfter busyRun = vm' := by rw [vmAfter, hrun]; rfl
  rw [hvm]
  exact statistics_balance 10 (Nat.zero_le 64) hrun

/-- Four switches in all, two of them to slot 1. -/
example : (vmAfter busyRun).scheduler.contextSwitches = 4 ∧
    (vmAfter busyRun).scheduler.preemptions = 1 ∧
    switchesInto 1 busyRun (v4BackendTaskInit 10 oneWordVm) = 2 := by decide

end V4Engine
