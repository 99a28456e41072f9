/-
  V4Engine.Task.Deadline

  The deadline of a sleeping task.

  A deadline is computed modulo 2^32 and compared as a plain number.  While a task
  sleeps nothing else writes its deadline (`Sleeping`), so it is woken on time
  exactly when the deadline and the moment of the comparison lie on the same side
  of a wrap of the tick counter (`sleep_deadline_iff`).
-/
import V4Engine.Task.Heap

namespace V4Engine

open Lib

/-- The current task is not asleep. -/
def CurrentAwake (vm : Vm) : Prop := ∀ i, vm.IsCurrent i → (vm.task i).state ≠ .blocked

/-- A selection `elapsed` ms after `start` makes slot `t`, asleep for `delay` ms, READY
    exactly when the delay is over. -/
def WokenOnTime (vm : Vm) (t : Fin 8) (start delay elapsed : BitVec 32) : Prop :=
  ((v4TaskSelectNext (start + elapsed) vm).2.task t).state = .ready ↔ elapsed ≥ delay

/-! ## Who is asleep -/

theorem parked_sleepUntilTick (vm : Vm) (cur j : Fin 8) :
    ((parked vm cur).task j).sleepUntilTick = (vm.task j).sleepUntilTick := by
  by_cases h : j = cur
  · subst h
    rw [parked_task_self]
    split <;> rfl
  · rw [parked_task_of_ne h]

theorem wakeTask_sleepUntilTick (tick : BitVec 32) (t : V4Task) :
    (wakeTask tick t).sleepUntilTick = t.sleepUntilTick := by
  obtain ⟨-, -, h⟩ | ⟨-, h⟩ := wakeTask_cases tick t <;> rw [h]

/-- A schedule writes no deadline and goes on with a RUNNING task. -/
theorem vmSchedule_asleep {tick : BitVec 32} {vm vm' : Vm} (hw : SchedWF vm)
    (hs : vmSchedule tick vm = some vm') :
    CurrentAwake vm' ∧ ∀ i, (vm'.task i).sleepUntilTick = (vm.task i).sleepUntilTick := by
  have hsched := scheduled_of_eq hw hs
  obtain ⟨next, -, hcur, ⟨n, hnext⟩, hrest⟩ := hsched.task_eq
  refine ⟨fun i hi => ?_, fun i => ?_⟩
  · obtain rfl : next = i := slotId_injective (hcur.symm.trans hi)
    rw [hnext]
    exact TaskState.noConfusion
  · by_cases hi : i = next
    · subst hi
      rw [hnext]
      exact (wakeTask_sleepUntilTick ..).trans (parked_sleepUntilTick ..)
    · rw [hrest i hi, wakeTask_sleepUntilTick, parked_sleepUntilTick]

theorem CurrentAwake.of_blocked {vm vm' : Vm} (h : CurrentAwake vm)
    (hcur : vm'.scheduler.currentTask = vm.scheduler.currentTask)
    (hsub : ∀ i, (vm'.task i).state = .blocked → (vm.task i).state = .blocked) :
    CurrentAwake vm' := by
  intro i hi hb
  exact h i (hcur.symm.trans hi) (hsub i hb)

/-- A spawn leaves sleepers alone and puts nobody to sleep. -/
theorem spawn_asleep {vm : Vm} (h : CurrentAwake vm) (w : BitVec 16) (p : BitVec 8)
    (ds rs : BitVec 16) (dsOk rsOk : Bool) {t : Fin 8} (ht : (vm.task t).state = .blocked) :
    CurrentAwake (v4BackendTaskSpawn w p ds rs dsOk rsOk vm).2 ∧
      ((v4BackendTaskSpawn w p ds rs dsOk rsOk vm).2.task t).sleepUntilTick
        = (vm.task t).sleepUntilTick := by
  obtain ⟨e, -, heq⟩ | ⟨i, hdead, heq⟩ := v4BackendTaskSpawn_cases w p ds rs dsOk rsOk vm
  · rw [heq]
    exact ⟨h, rfl⟩
  · rw [heq]
    have hti : t ≠ i := by
      rintro rfl
      rw [ht] at hdead
      cases hdead
    -- Slot `i` was DEAD, so it is not `t`; it is DEAD again or READY.
    obtain ⟨a, b, heap, hs⟩ | ⟨a, b, heap, hs⟩ :=
      spawnInto_cases vm i w p (stackSize ds 256) (stackSize rs 64) dsOk rsOk
    · rw [hs]
      refine ⟨h.of_blocked rfl fun j hj => ?_, ?_⟩
      · rwa [abortSpawn_state] at hj
      · rw [abortSpawn_task_of_ne vm a b heap hti]
    · rw [hs]
      refine ⟨h.of_blocked rfl fun j hj => ?_, ?_⟩
      · rw [installTask_task] at hj
        split at hj
        · cases hj
        · exact hj
      · rw [installTask_task_of_ne vm _ heap hti]

/-! ## A task that stays asleep -/

/-- Slot `t` sleeps until `deadline` while somebody who is awake is running. -/
structure Sleeping (t : Fin 8) (deadline : BitVec 32) (vm : Vm) : Prop where
  inv : BackendInv vm
  awake : CurrentAwake vm
  blocked : (vm.task t).state = .blocked
  deadline_eq : (vm.task t).sleepUntilTick = deadline

/-- **One call** that does not wake slot `t` leaves its deadline alone. -/
theorem Sleeping.step {t : Fin 8} {deadline : BitVec 32} {vm vm' : Vm}
    (h : Sleeping t deadline vm) {o : BackendOp} (hstep : backendStep o vm = some vm')
    (hb : (vm'.task t).state = .blocked) : Sleeping t deadline vm' := by
  have hinv := h.inv
  have htcur : t ≠ hinv.sched.cur := fun ht =>
    h.awake t ((hinv.sched.isCurrent_iff t).mpr ht) h.blocked
  suffices hkeep : CurrentAwake vm' ∧ (vm'.task t).sleepUntilTick = (vm.task t).sleepUntilTick from
    ⟨hinv.step hstep, hkeep.1, hb, hkeep.2.trans h.deadline_eq⟩
  cases o with
  | spawn w p ds rs dsOk rsOk =>
      cases hstep
      exact spawn_asleep h.awake w p ds rs dsOk rsOk h.blocked
  | exit tick =>
      rw [backendStep, v4BackendTaskExit, hinv.sched.taskPtr] at hstep
      obtain ⟨hawake, hsleep⟩ := vmSchedule_asleep (exitCurrent_wf hinv.sched _) hstep
      refine ⟨hawake, (hsleep t).trans ?_⟩
      rw [exitCurrent_task, if_neg htcur]
  | sleep ms tick tick' =>
      -- the task that goes to sleep is the current one, so it is not `t`
      rw [backendStep, v4BackendTaskSleep, hinv.sched.taskPtr] at hstep
      obtain ⟨hawake, hsleep⟩ :=
        vmSchedule_asleep (blockCurrent_wf hinv.sched tick ms hinv.sched.cur) hstep
      refine ⟨hawake, (hsleep t).trans ?_⟩
      rw [blockCurrent_task, if_neg htcur]
  | yield tick =>
      obtain ⟨hawake, hsleep⟩ := vmSchedule_asleep hinv.sched hstep
      exact ⟨hawake, hsleep t⟩
  | schedule tick =>
      obtain ⟨hawake, hsleep⟩ := vmSchedule_asleep hinv.sched hstep
      exact ⟨hawake, hsleep t⟩
  | scheduleFromIsr tick =>
      rw [backendStep, vmScheduleFromIsr] at hstep
      split at hstep
      · cases hstep
        exact ⟨h.awake, rfl⟩
      · obtain ⟨hawake, hsleep⟩ := vmSchedule_asleep (countPreemption_inv hinv).sched hstep
        exact ⟨hawake, hsleep t⟩
  | selectNext tick =>
      cases hstep
      refine ⟨h.awake.of_blocked rfl fun i hi => ?_, wakeTask_sleepUntilTick tick (vm.task t)⟩
      have hi' : (wakeTask tick (vm.task i)).state = .blocked := hi
      obtain ⟨-, -, heq⟩ | ⟨-, heq⟩ := wakeTask_cases tick (vm.task i)
      · rw [heq] at hi'
        cases hi'
      · rwa [heq] at hi'
  | cleanup =>
      cases hstep
      rw [v4BackendTaskCleanup_task] at hb
      cases hb
  | _ =>
      have hsame := backendStep_sameTasks rfl hstep
      refine ⟨h.awake.of_blocked hsame.currentTask fun i hi => ?_, ?_⟩
      · rwa [hsame.task] at hi
      · rw [hsame.task]

/-- Asleep before every call and at the end is asleep from the start. -/
theorem asleep_at_start {t : Fin 8} {vm vm' : Vm} {ops : List BackendOp}
    (hasleep : Along backendStep (fun v _ => (v.task t).state = .blocked) ops vm)
    (hrun : exec backendStep ops vm = some vm') (hb : (vm'.task t).state = .blocked) :
    (vm.task t).state = .blocked := by
  cases ops with
  | nil =>
      cases hrun
      exact hb
  | cons o ops => exact hasleep.1

/-- **A run** in which slot `t` stays asleep leaves its deadline alone. -/
theorem Sleeping.run {t : Fin 8} {deadline : BitVec 32} {vm vm' : Vm}
    (h : Sleeping t deadline vm) {ops : List BackendOp}
    (hasleep : Along backendStep (fun v _ => (v.task t).state = .blocked) ops vm)
    (hrun : exec backendStep ops vm = some vm') (hb : (vm'.task t).state = .blocked) :
    Sleeping t deadline vm' := by
  induction ops generalizing vm with
  | nil =>
      cases hrun
      exact h
  | cons o ops ih =>
      obtain ⟨mid, hstep, hrest⟩ := exec_cons_eq_some.mp hrun
      have hasleep' := hasleep.2 mid hstep
      exact ih (h.step hstep (asleep_at_start hasleep' hrest hb)) hasleep' hrest

/-- The state right after a task went to sleep, provided that it was not woken at once. -/
theorem sleep_sleeping {vm vm' : Vm} (h : BackendInv vm) {t : Fin 8} (hcur : vm.IsCurrent t)
    {delay start tick : BitVec 32} (hs : v4BackendTaskSleep delay start tick vm = some vm')
    (hb : (vm'.task t).state = .blocked) : Sleeping t (start + delay) vm' := by
  have hinv : BackendInv vm' := h.step (o := .sleep delay start tick) hs
  rw [v4BackendTaskSleep, h.sched.taskPtr] at hs
  obtain ⟨hawake, hsleep⟩ :=
    vmSchedule_asleep (blockCurrent_wf h.sched start delay h.sched.cur) hs
  refine ⟨hinv, hawake, hb, (hsleep t).trans ?_⟩
  rw [blockCurrent_task, if_pos ((h.sched.isCurrent_iff t).mp hcur)]

/-! ## The comparison -/

/-- Two moments less than 2^31 ticks after `start` are compared correctly exactly when
    both or neither lie past the wrap. -/
theorem deadline_le_iff {start delay elapsed : BitVec 32} (hd : delay.toNat < 2 ^ 31)
    (he : elapsed.toNat < 2 ^ 31) :
    (start + delay ≤ start + elapsed ↔ elapsed ≥ delay) ↔
      (start.toNat + delay.toNat < 2 ^ 32 ↔ start.toNat + elapsed.toNat < 2 ^ 32) := by
  -- Each sum wraps at most once.
  have hwrap : ∀ {x : BitVec 32}, x.toNat < 2 ^ 31 → (start + x).toNat
      = if start.toNat + x.toNat < 2 ^ 32 then start.toNat + x.toNat
        else start.toNat + x.toNat - 2 ^ 32 := by
    intro x hx
    have := start.isLt
    rw [BitVec.toNat_add]
    split <;> omega
  have hs := start.isLt
  rw [ge_iff_le, BitVec.le_def, BitVec.le_def, hwrap hd, hwrap he]
  by_cases hdw : start.toNat + delay.toNat < 2 ^ 32
  · by_cases hew : start.toNat + elapsed.toNat < 2 ^ 32
    · rw [if_pos hdw, if_pos hew]
      exact iff_of_true (by omega) (iff_of_true hdw hew)
    · -- the delay is over, yet the deadline lies above the counter
      rw [if_pos hdw, if_neg hew]
      refine iff_of_false (fun h => ?_) fun h => hew (h.mp hdw)
      have := h.mpr (by omega)
      omega
  · by_cases hew : start.toNat + elapsed.toNat < 2 ^ 32
    · -- the delay is not over, yet the deadline lies below the counter
      rw [if_neg hdw, if_pos hew]
      refine iff_of_false (fun h => ?_) fun h => hdw (h.mpr hew)
      have := h.mp (by omega)
      omega
    · rw [if_neg hdw, if_neg hew]
      exact iff_of_true (by omega) (iff_of_false hdw hew)

/-- **Deadlines.**  A task that went to sleep at `start` for `delay` ms and has been
    asleep since is woken on time exactly when its deadline and the moment of the
    selection lie on the same side of a wrap of the tick counter. -/
theorem sleep_deadline_iff {vm vm1 vm2 : Vm} (h : BackendInv vm) {t : Fin 8}
    (hcur : vm.IsCurrent t) {delay start tick : BitVec 32}
    (hsleep : v4BackendTaskSleep delay start tick vm = some vm1) {ops : List BackendOp}
    (hasleep : Along backendStep (fun v _ => (v.task t).state = .blocked) ops vm1)
    (hrun : exec backendStep ops vm1 = some vm2) (hlast : (vm2.task t).state = .blocked)
    {elapsed : BitVec 32}
    (hd : delay.toNat < 2 ^ 31) (he : elapsed.toNat < 2 ^ 31) :
    WokenOnTime vm2 t start delay elapsed ↔
      (start.toNat + delay.toNat < 2 ^ 32 ↔ start.toNat + elapsed.toNat < 2 ^ 32) := by
  have hfirst := asleep_at_start hasleep hrun hlast
  have hsl := (sleep_sleeping h hcur hsleep hfirst).run hasleep hrun hlast
  -- What the selection compares are the deadline and the tick, both reduced modulo 2^32.
  have hwoken : ((v4TaskSelectNext (start + elapsed) vm2).2.task t).state = .ready ↔
      start + delay ≤ start + elapsed := by
    show (wakeTask (start + elapsed) (vm2.task t)).state = .ready ↔ _
    obtain ⟨-, hdue, heq⟩ | ⟨hnot, heq⟩ := wakeTask_cases (start + elapsed) (vm2.task t)
    · rw [heq, ← hsl.deadline_eq]
      exact iff_of_true rfl (of_decide_eq_true hdue)
    · rw [heq, hsl.blocked, ← hsl.deadline_eq]
      refine iff_of_false TaskState.noConfusion fun hle => hnot ⟨hsl.blocked, ?_⟩
      exact decide_eq_true hle
  rw [WokenOnTime, hwoken]
  exact deadline_le_iff hd he

/-- Two tasks of which the second sleeps for 5 ms from tick `start` on. -/
def sleeperFrom (start : BitVec 32) : Vm := vmAfter
  [.spawn 0 1 0 0 true true, .spawn 0 1 0 0 true true, .schedule 0, .sleep 5 start start]

/-- Far from the wrap the sleeper is woken, here 7 ms after tick 100. -/
theorem sleep_deadline_at_100 : WokenOnTime (sleeperFrom 100) 1 100 5 7 := by
  have hreach : BackendReachable
      (vmAfter [.spawn 0 1 0 0 true true, .spawn 0 1 0 0 true true, .schedule 0]) :=
    vmAfter_reachable (by decide)
  have hsleep : v4BackendTaskSleep 5 100 100
      (vmAfter [.spawn 0 1 0 0 true true, .spawn 0 1 0 0 true true, .schedule 0])
        = some (sleeperFrom 100) := rfl
  have hrun : exec backendStep [] (sleeperFrom 100) = some (sleeperFrom 100) := rfl
  have hcur : (vmAfter [.spawn 0 1 0 0 true true, .spawn 0 1 0 0 true true,
    .schedule 0]).IsCurrent 1 := by decide
  have hasleep : Along backendStep (fun v _ => (v.task 1).state = .blocked) []
      (sleeperFrom 100) := trivial
  exact (sleep_deadline_iff hreach.inv hcur hsleep hasleep hrun (by decide) (by decide)
    (by decide)).mpr (by decide)

/-- Ten ticks before the wrap it is left asleep 12 ms later. -/
theorem sleeper_misses_wrap :
    BackendReachable (sleeperFrom 0xFFFFFFF6) ∧
      ((sleeperFrom 0xFFFFFFF6).task 1).state = .blocked ∧
      ¬ WokenOnTime (sleeperFrom 0xFFFFFFF6) 1 0xFFFFFFF6 5 12 := by
  refine ⟨vmAfter_reachable (by decide), by decide, ?_⟩
  intro hwoken
  exact absurd (hwoken.mpr (by decide)) (by decide)

end V4Engine
