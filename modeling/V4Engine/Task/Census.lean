/-
  V4Engine.Task.Census

  Which slots are alive, which one is RUNNING, and what `task_count` says.

  A RUNNING slot is always the current one (`running_is_current`).  The counter is
  kept by spawn, exit and cleanup only, while a schedule can bring a DEAD slot to
  life and an exit does not look whether there is a task to end.  `CensusOk` is the
  exact condition on a call under which the counter stays right.
-/
import V4Engine.Task.Ops
import Mathlib.Data.Finset.Card
import Mathlib.Data.Fintype.Card

namespace V4Engine

open Lib

/-! ## The RUNNING slot -/

/-- No slot but the current one is RUNNING. -/
def OneRunning (vm : Vm) : Prop :=
  ∀ i, (vm.task i).state = .running → vm.IsCurrent i

/-- A call that keeps the current slot and makes no other slot RUNNING. -/
theorem OneRunning.of_running {vm vm' : Vm} (h : OneRunning vm)
    (hcur : vm'.scheduler.currentTask = vm.scheduler.currentTask)
    (hrun : ∀ i, (vm'.task i).state = .running → (vm.task i).state = .running) :
    OneRunning vm' := by
  intro i hi
  rw [Vm.IsCurrent, hcur]
  exact h i (hrun i hi)

/-- Waking makes nobody RUNNING. -/
theorem wakeTask_running {tick : BitVec 32} {t : V4Task}
    (h : (wakeTask tick t).state = .running) : t.state = .running := by
  obtain ⟨-, -, heq⟩ | ⟨-, heq⟩ := wakeTask_cases tick t
  · rw [heq] at h
    cases h
  · rw [heq] at h
    exact h

/-- A parked slot is not RUNNING. -/
theorem parked_not_running (vm : Vm) (cur : Fin 8) :
    ((parked vm cur).task cur).state ≠ .running := by
  rw [parked_task_self]
  split
  case isTrue => simp
  case isFalse hr => exact hr

/-- `vm_schedule` leaves the chosen slot RUNNING and no other. -/
theorem vmSchedule_oneRunning {tick : BitVec 32} {vm vm' : Vm} (hw : SchedWF vm)
    (h : OneRunning vm) (hs : vmSchedule tick vm = some vm') : OneRunning vm' := by
  have hsched := scheduled_of_eq hw hs
  obtain ⟨next, -, hcur, -, hrest⟩ := hsched.task_eq
  intro i hi
  by_cases hn : i = next
  · rw [hn]
    exact hcur
  · -- only the current slot was RUNNING, and it has been parked
    rw [hrest i hn] at hi
    have hparked := wakeTask_running hi
    by_cases hc : i = hw.cur
    · rw [hc] at hparked
      exact absurd hparked (parked_not_running vm hw.cur)
    · rw [parked_task_of_ne hc] at hparked
      exact absurd ((hw.isCurrent_iff i).mp (h i hparked)) hc

theorem spawn_oneRunning {vm : Vm} (h : OneRunning vm) (w : BitVec 16) (p : BitVec 8)
    (ds rs : BitVec 16) (dsOk rsOk : Bool) :
    OneRunning (v4BackendTaskSpawn w p ds rs dsOk rsOk vm).2 := by
  obtain ⟨e, -, heq⟩ | ⟨i, -, heq⟩ := v4BackendTaskSpawn_cases w p ds rs dsOk rsOk vm
  · rw [heq]
    exact h
  · rw [heq]
    obtain ⟨a, b, heap, hs⟩ | ⟨a, b, heap, hs⟩ :=
      spawnInto_cases vm i w p (stackSize ds 256) (stackSize rs 64) dsOk rsOk
    · rw [hs]
      refine OneRunning.of_running h rfl fun j hj => ?_
      rwa [abortSpawn_state] at hj
    · rw [hs]
      refine OneRunning.of_running h rfl fun j hj => ?_
      rw [installTask_task] at hj
      split at hj
      · cases hj
      · exact hj

/-- **One call** keeps the property. -/
theorem backendStep_oneRunning {vm vm' : Vm} {o : BackendOp} (hinv : BackendInv vm)
    (h : OneRunning vm) (hstep : backendStep o vm = some vm') : OneRunning vm' := by
  cases o with
  | spawn w p ds rs dsOk rsOk =>
      cases hstep
      exact spawn_oneRunning h w p ds rs dsOk rsOk
  | exit tick =>
      rw [backendStep, v4BackendTaskExit, hinv.sched.taskPtr] at hstep
      refine vmSchedule_oneRunning (exitCurrent_wf hinv.sched hinv.sched.cur) ?_ hstep
      -- exit and sleep take RUNNING away from the current slot before the schedule
      refine OneRunning.of_running h rfl fun i hi => ?_
      rw [exitCurrent_task] at hi
      split at hi
      · cases hi
      · exact hi
  | sleep ms tick tick' =>
      rw [backendStep, v4BackendTaskSleep, hinv.sched.taskPtr] at hstep
      refine vmSchedule_oneRunning (blockCurrent_wf hinv.sched tick ms hinv.sched.cur) ?_ hstep
      refine OneRunning.of_running h rfl fun i hi => ?_
      rw [blockCurrent_task] at hi
      split at hi
      · cases hi
      · exact hi
  | yield tick => exact vmSchedule_oneRunning hinv.sched h hstep
  | schedule tick => exact vmSchedule_oneRunning hinv.sched h hstep
  | scheduleFromIsr tick =>
      rw [backendStep, vmScheduleFromIsr] at hstep
      split at hstep
      · cases hstep
        exact h
      · exact vmSchedule_oneRunning (countPreemption_inv hinv).sched
          (h.of_running rfl fun _ hi => hi) hstep
  | selectNext tick =>
      cases hstep
      exact h.of_running rfl fun _ hi => wakeTask_running hi
  | cleanup =>
      cases hstep
      intro i hi
      rw [v4BackendTaskCleanup_task] at hi
      cases hi
  | _ =>
      have hsame := backendStep_sameTasks rfl hstep
      refine h.of_running hsame.currentTask fun i hi => ?_
      rwa [hsame.task] at hi

/-- **At most one RUNNING task.**  In every reachable state the current index is in
    the table and a RUNNING slot is the current one. -/
theorem running_is_current {vm : Vm} (h : BackendReachable vm) :
    vm.scheduler.currentTask.toNat < 8 ∧
      ∀ i : Fin 8, (vm.task i).state = .running → i.val = vm.scheduler.currentTask.toNat := by
  refine ⟨h.inv.sched.current, fun i hi => ?_⟩
  have hone : OneRunning vm := by
    apply h.induct
    · intro timeSliceMs vm0 j hj
      cases hj
    · intro o s s' hinv hone hstep
      exact backendStep_oneRunning hinv hone hstep
  have hcur := hone i hi
  rw [hcur, slotId_toNat]

/-- The running program of two tasks. -/
theorem running_is_current_two_tasks :
    (vmAfter [.spawn 0 1 0 0 true true, .spawn 0 2 0 0 true true,
        .schedule 0]).scheduler.currentTask.toNat < 8 ∧
      ∀ i : Fin 8,
        ((vmAfter [.spawn 0 1 0 0 true true, .spawn 0 2 0 0 true true, .schedule 0]).task i).state
            = .running →
          i.val = (vmAfter [.spawn 0 1 0 0 true true, .spawn 0 2 0 0 true true,
            .schedule 0]).scheduler.currentTask.toNat :=
  running_is_current (vmAfter_reachable (by decide))

/-! ## Counting -/

/-- The slots whose state is not DEAD. -/
def liveSlots (vm : Vm) : Finset (Fin 8) :=
  Finset.univ.filter fun i => (vm.task i).state ≠ .dead

/-- `task_count` is the number of live slots. -/
def CountExact (vm : Vm) : Prop := vm.scheduler.taskCount.toNat = (liveSlots vm).card

instance (vm : Vm) : Decidable (CountExact vm) := inferInstanceAs (Decidable (_ = _))

/-- The current slot is not DEAD. -/
def Vm.CurrentLive (vm : Vm) : Prop := ∀ i, vm.IsCurrent i → (vm.task i).state ≠ .dead

instance (vm : Vm) : Decidable vm.CurrentLive := inferInstanceAs (Decidable (∀ _, _))

/-- Somebody alive may be chosen: the current slot, or an eligible slot of positive
    priority. -/
def SomebodyAlive (tick : BitVec 32) (vm : Vm) : Prop :=
  vm.CurrentLive ∨
    ∃ j, (vm.task j).Eligible tick ∧ (vm.task j).priority ≠ 0

instance (tick : BitVec 32) (vm : Vm) : Decidable (SomebodyAlive tick vm) :=
  inferInstanceAs (Decidable (_ ∨ _))

/-- The condition on a call under which the counter stays exact: an exit or a sleep
    is made by a live task, and a schedule finds somebody alive to run. -/
def CensusOk (vm : Vm) : BackendOp → Prop
  | .exit tick =>
      vm.CurrentLive ∧ ∃ j, ¬vm.IsCurrent j ∧ (vm.task j).Eligible tick ∧ (vm.task j).priority ≠ 0
  | .sleep _ _ _ => vm.CurrentLive
  | .yield tick | .schedule tick => SomebodyAlive tick vm
  | .scheduleFromIsr tick => vm.scheduler.criticalNesting > 0 ∨ SomebodyAlive tick vm
  | _ => True

instance (vm : Vm) (o : BackendOp) : Decidable (CensusOk vm o) :=
  match o with
  | .exit _ => inferInstanceAs (Decidable (_ ∧ _))
  | .sleep _ _ _ => inferInstanceAs (Decidable vm.CurrentLive)
  | .yield tick | .schedule tick => inferInstanceAs (Decidable (SomebodyAlive tick vm))
  | .scheduleFromIsr _ => inferInstanceAs (Decidable (_ ∨ _))
  | .spawn .. | .selectNext _ | .cleanup | .criticalEnter | .criticalExit | .send .. | .receive _
  | .program _ => inferInstanceAs (Decidable True)

@[simp] theorem mem_liveSlots {vm : Vm} {i : Fin 8} :
    i ∈ liveSlots vm ↔ (vm.task i).state ≠ .dead := by
  simp [liveSlots]

theorem currentLive_iff {vm : Vm} (hw : SchedWF vm) : vm.CurrentLive ↔ hw.cur ∈ liveSlots vm := by
  rw [mem_liveSlots]
  constructor
  · intro h
    exact h hw.cur ((hw.isCurrent_iff hw.cur).mpr rfl)
  · intro h i hi
    rw [(hw.isCurrent_iff i).mp hi]
    exact h

theorem liveSlots_card_le (vm : Vm) : (liveSlots vm).card ≤ 8 :=
  (Finset.card_le_univ _).trans (by simp)

theorem liveSlots_congr {vm vm' : Vm}
    (h : ∀ i, (vm'.task i).state = .dead ↔ (vm.task i).state = .dead) :
    liveSlots vm' = liveSlots vm := by
  ext i
  rw [mem_liveSlots, mem_liveSlots, ne_eq, ne_eq, h]

/-- One slot comes to life or stays alive, the others are as they were. -/
theorem liveSlots_insert {vm vm' : Vm} {i : Fin 8} (hi : (vm'.task i).state ≠ .dead)
    (h : ∀ j, j ≠ i → ((vm'.task j).state = .dead ↔ (vm.task j).state = .dead)) :
    liveSlots vm' = insert i (liveSlots vm) := by
  ext j
  rw [Finset.mem_insert, mem_liveSlots, mem_liveSlots]
  by_cases hj : j = i
  · subst hj
    exact iff_of_true hi (Or.inl rfl)
  · rw [ne_eq, h j hj]
    simp [hj]

/-- One slot dies or stays DEAD, the others are as they were. -/
theorem liveSlots_erase {vm vm' : Vm} {i : Fin 8} (hi : (vm'.task i).state = .dead)
    (h : ∀ j, j ≠ i → ((vm'.task j).state = .dead ↔ (vm.task j).state = .dead)) :
    liveSlots vm' = (liveSlots vm).erase i := by
  ext j
  rw [Finset.mem_erase, mem_liveSlots, mem_liveSlots]
  by_cases hj : j = i
  · subst hj
    simp [hi]
  · rw [ne_eq, h j hj]
    simp [hj]

theorem CountExact.congr {vm vm' : Vm} (h : CountExact vm)
    (hcount : vm'.scheduler.taskCount = vm.scheduler.taskCount)
    (hdead : ∀ i, (vm'.task i).state = .dead ↔ (vm.task i).state = .dead) : CountExact vm' := by
  rw [CountExact, hcount, liveSlots_congr hdead]
  exact h

/-! ## A schedule -/

theorem parked_taskCount (vm : Vm) (cur : Fin 8) :
    (parked vm cur).scheduler.taskCount = vm.scheduler.taskCount := by
  unfold parked
  split <;> rfl

theorem Scheduled.taskCount {tick : BitVec 32} {vm vm' : Vm} {cur : Fin 8}
    (h : Scheduled tick vm cur vm') : vm'.scheduler.taskCount = vm.scheduler.taskCount := by
  cases h with
  | stay => exact parked_taskCount vm cur
  | switch => exact parked_taskCount vm cur

/-- Parking and waking bring nobody to life and kill nobody. -/
theorem wake_parked_dead_iff (tick : BitVec 32) (vm : Vm) (cur i : Fin 8) :
    (wakeTask tick ((parked vm cur).task i)).state = .dead ↔ (vm.task i).state = .dead := by
  rw [wakeTask_dead_iff]
  by_cases hi : i = cur
  · subst hi
    rw [parked_task_self]
    split
    case isTrue hr => simp [hr]
    case isFalse => exact Iff.rfl
  · rw [parked_task_of_ne hi]

theorem V4Task.Eligible.live {tick : BitVec 32} {t : V4Task} (h : t.Eligible tick) :
    t.state ≠ .dead := by
  rcases h with h | h | ⟨h, -⟩
  · simp [h]
  · simp [h]
  · simp [h]

/-- **What a schedule does to the live slots**: nothing, or it brings the current one
    to life, which it does exactly when nobody alive may be chosen. -/
theorem vmSchedule_liveSlots {tick : BitVec 32} {vm vm' : Vm} (hw : SchedWF vm)
    (hs : vmSchedule tick vm = some vm') :
    vm'.scheduler.taskCount = vm.scheduler.taskCount ∧
      ((SomebodyAlive tick vm ∧ liveSlots vm' = liveSlots vm) ∨
        (¬SomebodyAlive tick vm ∧ hw.cur ∉ liveSlots vm ∧
          liveSlots vm' = insert hw.cur (liveSlots vm))) := by
  have hsched := scheduled_of_eq hw hs
  refine ⟨hsched.taskCount, ?_⟩
  obtain ⟨next, hchosen, -, ⟨n, hnext⟩, hrest⟩ := hsched.task_eq
  have hinsert : liveSlots vm' = insert next (liveSlots vm) := by
    apply liveSlots_insert
    · rw [hnext]
      simp
    · intro j hj
      rw [hrest j hj]
      exact wake_parked_dead_iff tick vm hw.cur j
  have hcurrent := currentLive_iff hw
  rcases hchosen with ⟨hnone, rfl⟩ | ⟨he, hp, -⟩
  · -- nobody eligible has a positive priority: the current slot is chosen
    by_cases hmem : hw.cur ∈ liveSlots vm
    · left
      rw [Finset.insert_eq_of_mem hmem] at hinsert
      exact ⟨Or.inl (hcurrent.mpr hmem), hinsert⟩
    · right
      refine ⟨?_, hmem, hinsert⟩
      rintro (h | ⟨j, he, hp⟩)
      · exact hmem (hcurrent.mp h)
      · exact hp (hnone j he)
  · left
    rw [Finset.insert_eq_of_mem (mem_liveSlots.mpr he.live)] at hinsert
    exact ⟨Or.inr ⟨next, he, hp⟩, hinsert⟩

/-- A schedule keeps an exact counter exact when somebody alive may be chosen, and
    only then. -/
theorem vmSchedule_countExact_iff {tick : BitVec 32} {vm vm' : Vm} (hw : SchedWF vm)
    (h : CountExact vm) (hs : vmSchedule tick vm = some vm') :
    CountExact vm' ↔ SomebodyAlive tick vm := by
  obtain ⟨hcount, ⟨halive, hlive⟩ | ⟨hnone, hdead, hlive⟩⟩ := vmSchedule_liveSlots hw hs
  · rw [CountExact, hcount, hlive]
    exact iff_of_true h halive
  · rw [CountExact, hcount, hlive, Finset.card_insert_of_notMem hdead, h]
    exact iff_of_false (by omega) hnone

/-! ## The calls -/

theorem exit_countExact_iff {tick : BitVec 32} {vm vm' : Vm} (hw : SchedWF vm)
    (h : CountExact vm) (hs : backendStep (.exit tick) vm = some vm') :
    CountExact vm' ↔ CensusOk vm (.exit tick) := by
  rw [backendStep, v4BackendTaskExit, hw.taskPtr] at hs
  have hmid := exitCurrent_wf hw hw.cur
  have hcur : hmid.cur = hw.cur := rfl
  have hdead : ((exitCurrent vm hw.cur).task hw.cur).state = .dead := by
    rw [exitCurrent_task, if_pos rfl]
  have herase : liveSlots (exitCurrent vm hw.cur) = (liveSlots vm).erase hw.cur := by
    apply liveSlots_erase hdead
    intro j hj
    rw [exitCurrent_task, if_neg hj]
  have hmem : hw.cur ∉ liveSlots (exitCurrent vm hw.cur) := by
    rw [herase]
    exact Finset.notMem_erase _ _
  -- the retired slot itself is neither alive nor eligible
  have hsome : SomebodyAlive tick (exitCurrent vm hw.cur) ↔
      ∃ j, ¬vm.IsCurrent j ∧ (vm.task j).Eligible tick ∧ (vm.task j).priority ≠ 0 := by
    rw [SomebodyAlive, currentLive_iff hmid, hcur, or_iff_right hmem]
    apply exists_congr
    intro j
    rw [hw.isCurrent_iff, exitCurrent_task]
    by_cases hj : j = hw.cur
    · rw [if_pos hj]
      simp [V4Task.Eligible, hj]
    · rw [if_neg hj]
      simp [hj]
  have hpred : (exitCurrent vm hw.cur).scheduler.taskCount.toNat
      = (vm.scheduler.taskCount.toNat + 255) % 256 := by
    show (vm.scheduler.taskCount - 1).toNat = _
    rw [BitVec.toNat_sub]
    simp [Nat.add_comm]
  have hle := liveSlots_card_le vm
  obtain ⟨hcount, hlive⟩ := vmSchedule_liveSlots hmid hs
  rw [hsome, hcur] at hlive
  rw [CountExact, hcount, hpred, h, CensusOk, currentLive_iff hw]
  by_cases hc : hw.cur ∈ liveSlots vm
  · have hpos : 0 < (liveSlots vm).card := Finset.card_pos.mpr ⟨hw.cur, hc⟩
    obtain ⟨hex, hlive⟩ | ⟨hex, -, hlive⟩ := hlive
    · rw [hlive, herase, Finset.card_erase_of_mem hc]
      exact iff_of_true (by omega) ⟨hc, hex⟩
    · rw [hlive, herase, Finset.insert_erase hc]
      exact iff_of_false (by omega) fun hok => hex hok.2
  · rw [Finset.erase_eq_of_notMem hc] at herase
    obtain ⟨-, hlive⟩ | ⟨-, -, hlive⟩ := hlive
    · rw [hlive, herase]
      exact iff_of_false (by omega) fun hok => hc hok.1
    · rw [hlive, herase, Finset.card_insert_of_notMem hc]
      exact iff_of_false (by omega) fun hok => hc hok.1

theorem sleep_countExact_iff {ms tick tick' : BitVec 32} {vm vm' : Vm} (hw : SchedWF vm)
    (h : CountExact vm) (hs : backendStep (.sleep ms tick tick') vm = some vm') :
    CountExact vm' ↔ CensusOk vm (.sleep ms tick tick') := by
  rw [backendStep, v4BackendTaskSleep, hw.taskPtr] at hs
  have hmid := blockCurrent_wf hw tick ms hw.cur
  have hcur : hmid.cur = hw.cur := rfl
  have hblocked : ((blockCurrent tick ms vm hw.cur).task hw.cur).state ≠ .dead := by
    rw [blockCurrent_task, if_pos rfl]
    simp
  -- a DEAD current slot comes back to life here, and nothing counts it
  have hinsert : liveSlots (blockCurrent tick ms vm hw.cur) = insert hw.cur (liveSlots vm) := by
    apply liveSlots_insert hblocked
    intro j hj
    rw [blockCurrent_task, if_neg hj]
  obtain ⟨hcount, hlive⟩ := vmSchedule_liveSlots hmid hs
  have hlive : liveSlots vm' = insert hw.cur (liveSlots vm) := by
    obtain ⟨-, hlive⟩ | ⟨-, hnot, -⟩ := hlive
    · rw [hlive, hinsert]
    · exact absurd (mem_liveSlots.mpr hblocked) hnot
  have hcount : vm'.scheduler.taskCount = vm.scheduler.taskCount := hcount
  rw [CountExact, hcount, hlive, h, CensusOk, currentLive_iff hw]
  by_cases hc : hw.cur ∈ liveSlots vm
  · rw [Finset.insert_eq_of_mem hc]
    exact iff_of_true rfl hc
  · rw [Finset.card_insert_of_notMem hc]
    exact iff_of_false (by omega) hc

/-- A spawn that fills a slot counts it. -/
theorem spawn_countExact {vm : Vm} (h : CountExact vm) (w : BitVec 16) (p : BitVec 8)
    (ds rs : BitVec 16) (dsOk rsOk : Bool) :
    CountExact (v4BackendTaskSpawn w p ds rs dsOk rsOk vm).2 := by
  obtain ⟨e, -, heq⟩ | ⟨i, hdead, heq⟩ := v4BackendTaskSpawn_cases w p ds rs dsOk rsOk vm
  · rw [heq]
    exact h
  · rw [heq]
    obtain ⟨a, b, heap, hs⟩ | ⟨a, b, heap, hs⟩ :=
      spawnInto_cases vm i w p (stackSize ds 256) (stackSize rs 64) dsOk rsOk
    · rw [hs]
      refine CountExact.congr h rfl fun j => ?_
      rw [abortSpawn_state]
    · rw [hs]
      have hinsert : liveSlots (installTask vm i (freshTask w p (stackSize ds 256)
          (stackSize rs 64) a b) heap) = insert i (liveSlots vm) := by
        apply liveSlots_insert
        · rw [installTask_task, if_pos rfl]
          simp [freshTask]
        · intro j hj
          rw [installTask_task, if_neg hj]
      have hnot : i ∉ liveSlots vm := by
        rw [mem_liveSlots]
        simp [hdead]
      -- there are eight slots, so the 8-bit counter does not wrap
      have hle := liveSlots_card_le vm
      rw [CountExact, hinsert, Finset.card_insert_of_notMem hnot]
      show (vm.scheduler.taskCount + 1).toNat = _
      rw [BitVec.toNat_add, h]
      simp
      omega

/-- **One call** keeps the counter exact when it meets `CensusOk`, and only then. -/
theorem countExact_iff {vm vm' : Vm} (hinv : BackendInv vm) (h : CountExact vm) (o : BackendOp)
    (hstep : backendStep o vm = some vm') : CountExact vm' ↔ CensusOk vm o := by
  cases o with
  | spawn w p ds rs dsOk rsOk =>
      cases hstep
      exact iff_of_true (spawn_countExact h w p ds rs dsOk rsOk) trivial
  | exit tick => exact exit_countExact_iff hinv.sched h hstep
  | sleep ms tick tick' => exact sleep_countExact_iff hinv.sched h hstep
  | yield tick => exact vmSchedule_countExact_iff hinv.sched h hstep
  | schedule tick => exact vmSchedule_countExact_iff hinv.sched h hstep
  | scheduleFromIsr tick =>
      rw [backendStep, vmScheduleFromIsr] at hstep
      by_cases hn : vm.scheduler.criticalNesting > 0
      · rw [if_pos hn] at hstep
        cases hstep
        exact iff_of_true h (Or.inl hn)
      · rw [if_neg hn] at hstep
        rw [CensusOk, or_iff_right hn]
        have hmid : CountExact (countPreemption vm) := CountExact.congr h rfl fun _ => Iff.rfl
        have hiff := vmSchedule_countExact_iff (countPreemption_inv hinv).sched hmid hstep
        exact hiff
  | selectNext tick =>
      cases hstep
      refine iff_of_true (CountExact.congr h rfl fun i => ?_) trivial
      exact wakeTask_dead_iff tick (vm.task i)
  | cleanup =>
      -- every slot is DEAD and the counter is zero
      cases hstep
      have hnone : liveSlots (v4BackendTaskCleanup vm) = ∅ := by
        apply Finset.eq_empty_of_forall_notMem
        intro i
        rw [mem_liveSlots, v4BackendTaskCleanup_task]
        simp
      refine iff_of_true ?_ trivial
      rw [CountExact, hnone]
      rfl
  | _ =>
      have hsame := backendStep_sameTasks rfl hstep
      refine iff_of_true (CountExact.congr h hsame.taskCount fun i => ?_) trivial
      rw [hsame.task]

/-! ## Runs -/

/-- Nobody is alive, and nobody counted, after `vm_task_init`. -/
theorem init_countExact (timeSliceMs : BitVec 32) (vm : Vm) :
    CountExact (v4BackendTaskInit timeSliceMs vm) := by
  have hnone : liveSlots (v4BackendTaskInit timeSliceMs vm) = ∅ := by
    apply Finset.eq_empty_of_forall_notMem
    intro i
    rw [mem_liveSlots]
    exact fun h => h rfl
  rw [CountExact, hnone]
  rfl

/-- **The counter over runs.**  From `vm_task_init` on, the counter is exact after
    every call of a run exactly when every call of it meets `CensusOk`. -/
theorem task_count_exact_iff (timeSliceMs : BitVec 32) {vm : Vm} (h : vm.rp ≤ 64)
    (ops : List BackendOp) :
    EachStep backendStep (fun _ _ vm' => CountExact vm') ops (v4BackendTaskInit timeSliceMs vm) ↔
      Along backendStep CensusOk ops (v4BackendTaskInit timeSliceMs vm) := by
  apply eachStep_iff_along_of (I := fun vm => BackendInv vm ∧ CountExact vm)
  · intro o s s' hs hok hstep
    exact ⟨hs.1.step hstep, (countExact_iff hs.1 hs.2 o hstep).mpr hok⟩
  · intro o s hs
    exact hs.1.defined o
  · intro o s s' hs hstep
    exact countExact_iff hs.1 hs.2 o hstep
  · exact ⟨init_inv timeSliceMs h, init_countExact timeSliceMs vm⟩

/-- Two tasks, one of which goes to sleep and comes back before the other exits. -/
theorem task_count_two_tasks :
    EachStep backendStep (fun _ _ vm' => CountExact vm')
      [.spawn 0 1 0 0 true true, .spawn 0 1 0 0 true true, .schedule 0, .sleep 10 0 0, .exit 20]
      (v4BackendTaskInit 10 oneWordVm) :=
  (task_count_exact_iff 10 (Nat.zero_le 64) _).mpr (by decide)

/-- The only task exits: its slot is RUNNING again and the counter says 0. -/
theorem exit_last_task_uncounted :
    ¬EachStep backendStep (fun _ _ vm' => CountExact vm')
      [.spawn 0 1 0 0 true true, .schedule 0, .exit 0] (v4BackendTaskInit 10 oneWordVm) := by
  decide

end V4Engine
