/-
  V4Engine.Task.Life

  The life cycle of a task slot.

  `LifeLaw` is the intended cycle, one clause for each call: a DEAD slot stays
  DEAD until a spawn returns it, a sleeper gets up only when its deadline has
  passed.  The code breaks it in two ways, and `LifeOk` is the exact condition
  on a call: when nobody eligible has a positive priority, the current slot is
  made RUNNING whatever its state, and a sleep marks a DEAD current slot BLOCKED.
-/
import V4Engine.Task.Ops

namespace V4Engine

open Lib

/-- The deadline has passed at the tick of the call, if the call reads one. -/
def dueAt (tick : Option (BitVec 32)) (t : V4Task) : Bool := tick.any (wakeDue · t)

/-- One slot before and after a call made at `tick` (`none`: no tick is read). -/
def SlotLegal (tick : Option (BitVec 32)) (t t' : V4Task) : Prop :=
  (t.state = .dead → t'.state = .dead) ∧
    (t.state = .blocked → t'.state = .ready ∨ t'.state = .running → dueAt tick t)

instance (tick : Option (BitVec 32)) (t t' : V4Task) : Decidable (SlotLegal tick t t') :=
  inferInstanceAs (Decidable (_ ∧ _))

/-- The intended life cycle across one call. -/
def LifeLaw (vm : Vm) (o : BackendOp) (vm' : Vm) : Prop :=
  match o with
  | .spawn w p ds rs dsOk rsOk => ∀ i : Fin 8,
      SlotLegal none (vm.task i) (vm'.task i) ∨
        ((v4BackendTaskSpawn w p ds rs dsOk rsOk vm).1 = i.val ∧ (vm.task i).state = .dead)
  | .exit tick => ∀ i,
      if vm.IsCurrent i then (vm'.task i).state = .dead
      else SlotLegal (some tick) (vm.task i) (vm'.task i)
  | .sleep ms tick tick' => ∀ i,
      if vm.IsCurrent i then
        ((vm.task i).state = .dead → (vm'.task i).state = .dead) ∧
          ((vm'.task i).state = .ready ∨ (vm'.task i).state = .running → tick + ms ≤ tick')
      else SlotLegal (some tick') (vm.task i) (vm'.task i)
  | .yield tick | .schedule tick | .scheduleFromIsr tick | .selectNext tick =>
      ∀ i, SlotLegal (some tick) (vm.task i) (vm'.task i)
  | .cleanup | .criticalEnter | .criticalExit | .send _ _ _ | .receive _ | .program _ =>
      ∀ i, SlotLegal none (vm.task i) (vm'.task i)

instance (vm : Vm) (o : BackendOp) (vm' : Vm) : Decidable (LifeLaw vm o vm') := by
  unfold LifeLaw
  split <;> infer_instance

/-- The condition on a call under which it respects the life cycle. -/
def LifeOk (vm : Vm) : BackendOp → Prop
  | .exit tick =>
      ∃ j, ¬ vm.IsCurrent j ∧ (vm.task j).Eligible tick ∧ (vm.task j).priority ≠ 0
  | .sleep ms tick tick' =>
      (∀ i, vm.IsCurrent i → (vm.task i).state ≠ .dead) ∧
        (tick + ms ≤ tick' ∨
          ∃ j, ¬ vm.IsCurrent j ∧ (vm.task j).Eligible tick' ∧ (vm.task j).priority ≠ 0)
  | .yield tick | .schedule tick =>
      ∃ j, (vm.task j).Eligible tick ∧ (vm.IsCurrent j ∨ (vm.task j).priority ≠ 0)
  | .scheduleFromIsr tick =>
      vm.scheduler.criticalNesting > 0 ∨
        ∃ j, (vm.task j).Eligible tick ∧ (vm.IsCurrent j ∨ (vm.task j).priority ≠ 0)
  | _ => True

instance (vm : Vm) (o : BackendOp) : Decidable (LifeOk vm o) := by
  unfold LifeOk
  split <;> infer_instance

namespace SlotLegal

theorem of_state_eq {tick : Option (BitVec 32)} {t t' : V4Task} (h : t'.state = t.state) :
    SlotLegal tick t t' := by
  refine ⟨fun hd => h.trans hd, fun hb hr => ?_⟩
  rw [h, hb] at hr
  simp at hr

theorem of_dead {tick : Option (BitVec 32)} {t t' : V4Task} (h : t'.state = .dead) :
    SlotLegal tick t t' := by
  refine ⟨fun _ => h, fun _ hr => ?_⟩
  rw [h] at hr
  simp at hr

/-- Waking is legal. -/
theorem of_wake (tick : BitVec 32) (t : V4Task) : SlotLegal (some tick) t (wakeTask tick t) := by
  refine ⟨(wakeTask_dead_iff tick t).mpr, fun hb hr => ?_⟩
  obtain ⟨-, hd, -⟩ | ⟨hn, heq⟩ := wakeTask_cases tick t
  · exact hd
  · rw [heq, hb] at hr
    simp at hr

/-- Becoming RUNNING is legal for the eligible slots only. -/
theorem running_iff {tick : BitVec 32} {t t' : V4Task} (h : t'.state = .running) :
    SlotLegal (some tick) t t' ↔ t.Eligible tick := by
  rw [SlotLegal, V4Task.Eligible, h]
  cases ht : t.state <;> simp [dueAt]

end SlotLegal

/-! ## `vm_schedule` -/

/-- Parking is legal. -/
theorem wake_parked_legal (tick : BitVec 32) (vm : Vm) (cur i : Fin 8) :
    SlotLegal (some tick) (vm.task i) (wakeTask tick ((parked vm cur).task i)) := by
  by_cases hi : i = cur
  · subst hi
    rw [parked_task_self]
    by_cases hr : (vm.task i).state = .running
    · rw [if_pos hr]
      refine ⟨fun hd => ?_, fun hb => ?_⟩
      · rw [hr] at hd; cases hd
      · rw [hr] at hb; cases hb
    · rw [if_neg hr]
      exact .of_wake tick _
  · rw [parked_task_of_ne hi]
    exact .of_wake tick _

/-- **Schedule law.**  Every slot is treated legally exactly when somebody may run:
    the current slot, or a slot of positive priority. -/
theorem schedule_legal_iff {tick : BitVec 32} {vm vm' : Vm} (hw : SchedWF vm)
    (h : vmSchedule tick vm = some vm') :
    (∀ i, SlotLegal (some tick) (vm.task i) (vm'.task i)) ↔
      ∃ j, (vm.task j).Eligible tick ∧ (j = hw.cur ∨ (vm.task j).priority ≠ 0) := by
  have hs := scheduled_of_eq hw h
  obtain ⟨next, hchosen, -, ⟨n, hnext⟩, hrest⟩ := hs.task_eq
  have hrun : (vm'.task next).state = .running := by rw [hnext]
  -- Only the slot that becomes RUNNING can break the law.
  have hlaw : (∀ i, SlotLegal (some tick) (vm.task i) (vm'.task i)) ↔
      (vm.task next).Eligible tick := by
    constructor
    · intro hall
      exact (SlotLegal.running_iff hrun).mp (hall next)
    · intro he i
      by_cases hi : i = next
      · subst hi
        exact (SlotLegal.running_iff hrun).mpr he
      · rw [hrest i hi]
        exact wake_parked_legal tick vm hw.cur i
  rw [hlaw]
  obtain ⟨hnone, rfl⟩ | ⟨he, hp, -⟩ := hchosen
  · -- nobody eligible has a positive priority: the current slot runs again
    constructor
    · intro he
      exact ⟨hw.cur, he, .inl rfl⟩
    · rintro ⟨j, he, rfl | hp⟩
      · exact he
      · exact absurd (hnone j he) hp
  · exact iff_of_true he ⟨next, he, .inr hp⟩

/-! ## The calls -/

theorem exit_life_iff {tick : BitVec 32} {vm vm' : Vm} (hw : SchedWF vm)
    (h : backendStep (.exit tick) vm = some vm') :
    LifeLaw vm (.exit tick) vm' ↔ LifeOk vm (.exit tick) := by
  rw [backendStep, v4BackendTaskExit, hw.taskPtr] at h
  have hmid := exitCurrent_wf hw hw.cur
  have hiff := schedule_legal_iff hmid h
  have hcur : hmid.cur = hw.cur := rfl
  simp only [hcur, exitCurrent_task] at hiff
  -- The schedule is judged from the state in which the current slot is DEAD.
  have hlaw : LifeLaw vm (.exit tick) vm' ↔ ∀ i, SlotLegal (some tick)
      (if i = hw.cur then { vm.task hw.cur with dsBase := none, rsBase := none, state := .dead }
        else vm.task i) (vm'.task i) := by
    refine forall_congr' fun i => ?_
    by_cases hi : i = hw.cur
    · rw [if_pos ((hw.isCurrent_iff i).mpr hi), if_pos hi]
      exact ⟨.of_dead, fun hl => hl.1 rfl⟩
    · rw [if_neg fun hc => hi ((hw.isCurrent_iff i).mp hc), if_neg hi]
  rw [hlaw, hiff, LifeOk]
  refine exists_congr fun j => ?_
  rw [hw.isCurrent_iff]
  by_cases hj : j = hw.cur
  · rw [if_pos hj]
    simp [V4Task.Eligible, hj]
  · rw [if_neg hj]
    simp [hj]

theorem sleep_life_iff {ms tick tick' : BitVec 32} {vm vm' : Vm} (hw : SchedWF vm)
    (h : backendStep (.sleep ms tick tick') vm = some vm') :
    LifeLaw vm (.sleep ms tick tick') vm' ↔ LifeOk vm (.sleep ms tick tick') := by
  rw [backendStep, v4BackendTaskSleep, hw.taskPtr] at h
  have hmid := blockCurrent_wf hw tick ms hw.cur
  have hiff := schedule_legal_iff hmid h
  have hcur : hmid.cur = hw.cur := rfl
  simp only [hcur, blockCurrent_task] at hiff
  -- A sleeper does not come out of a schedule DEAD.
  have halive : (vm'.task hw.cur).state ≠ .dead := by
    have hs := scheduled_of_eq hmid h
    obtain ⟨next, -, -, ⟨n, hnext⟩, hrest⟩ := hs.task_eq
    by_cases hn : hw.cur = next
    · rw [hn, hnext]; simp
    · rw [hrest _ hn, ne_eq, wakeTask_dead_iff, hcur, parked_task_self, blockCurrent_task,
        if_pos rfl]
      simp
  have hlaw : LifeLaw vm (.sleep ms tick tick') vm' ↔ (vm.task hw.cur).state ≠ .dead ∧
      ∀ i, SlotLegal (some tick')
        (if i = hw.cur then
          { vm.task hw.cur with sleepUntilTick := tick + ms, state := .blocked }
        else vm.task i) (vm'.task i) := by
    constructor
    · intro hall
      have hc := hall hw.cur
      rw [if_pos ((hw.isCurrent_iff hw.cur).mpr rfl)] at hc
      refine ⟨fun hd => halive (hc.1 hd), fun i => ?_⟩
      by_cases hi : i = hw.cur
      · rw [if_pos hi, hi]
        exact ⟨fun hd => TaskState.noConfusion hd, fun _ hr => decide_eq_true (hc.2 hr)⟩
      · have hl := hall i
        rw [if_neg fun hcur => hi ((hw.isCurrent_iff i).mp hcur)] at hl
        rw [if_neg hi]
        exact hl
    · rintro ⟨hne, hall⟩ i
      have hl := hall i
      by_cases hi : i = hw.cur
      · rw [if_pos ((hw.isCurrent_iff i).mpr hi)]
        rw [if_pos hi] at hl
        refine ⟨fun hd => absurd (hi ▸ hd) hne, fun hr => ?_⟩
        exact of_decide_eq_true (hl.2 rfl hr)
      · rw [if_neg fun hcur => hi ((hw.isCurrent_iff i).mp hcur)]
        rw [if_neg hi] at hl
        exact hl
  have hrunnable : (∃ j, (if j = hw.cur then
        { vm.task hw.cur with sleepUntilTick := tick + ms, state := .blocked }
        else vm.task j).Eligible tick' ∧ (j = hw.cur ∨ (if j = hw.cur then
        { vm.task hw.cur with sleepUntilTick := tick + ms, state := .blocked }
        else vm.task j).priority ≠ 0)) ↔
      (tick + ms ≤ tick' ∨ ∃ j, ¬ vm.IsCurrent j ∧ (vm.task j).Eligible tick' ∧
        (vm.task j).priority ≠ 0) := by
    constructor
    · rintro ⟨j, he, hj⟩
      by_cases hjc : j = hw.cur
      · rw [if_pos hjc] at he
        simp only [V4Task.Eligible, wakeDue] at he
        simp at he
        exact .inl he
      · rw [if_neg hjc] at he hj
        exact .inr ⟨j, fun hc => hjc ((hw.isCurrent_iff j).mp hc), he, hj.resolve_left hjc⟩
    · rintro (hdue | ⟨j, hjc, he, hp⟩)
      · refine ⟨hw.cur, ?_, .inl rfl⟩
        rw [if_pos rfl]
        exact .inr (.inr ⟨rfl, decide_eq_true hdue⟩)
      · have hne : j ≠ hw.cur := fun hj => hjc ((hw.isCurrent_iff j).mpr hj)
        refine ⟨j, ?_, .inr ?_⟩
        · rw [if_neg hne]; exact he
        · rw [if_neg hne]; exact hp
  rw [hlaw, hiff, hrunnable, LifeOk]
  refine and_congr_left fun _ => ?_
  constructor
  · intro hne i hi
    rw [(hw.isCurrent_iff i).mp hi]
    exact hne
  · intro hall
    exact hall hw.cur ((hw.isCurrent_iff hw.cur).mpr rfl)

/-- A schedule made directly, by a yield or by an interrupt. -/
theorem schedule_life_iff {tick : BitVec 32} (vm : Vm) {vm' : Vm} (hw : SchedWF vm)
    (h : vmSchedule tick vm = some vm') :
    (∀ i, SlotLegal (some tick) (vm.task i) (vm'.task i)) ↔
      ∃ j, (vm.task j).Eligible tick ∧ (vm.IsCurrent j ∨ (vm.task j).priority ≠ 0) := by
  rw [schedule_legal_iff hw h]
  exact exists_congr fun j => by rw [hw.isCurrent_iff]

theorem spawn_life (w : BitVec 16) (p : BitVec 8) (ds rs : BitVec 16) (dsOk rsOk : Bool)
    (vm : Vm) :
    LifeLaw vm (.spawn w p ds rs dsOk rsOk) (v4BackendTaskSpawn w p ds rs dsOk rsOk vm).2 := by
  intro i
  obtain ⟨e, -, heq⟩ | ⟨j, hdead, heq⟩ := v4BackendTaskSpawn_cases w p ds rs dsOk rsOk vm
  · rw [heq]
    exact .inl (.of_state_eq rfl)
  · rw [heq]
    obtain ⟨a, b, heap, hs⟩ | ⟨a, b, heap, hs⟩ :=
      spawnInto_cases vm j w p (stackSize ds 256) (stackSize rs 64) dsOk rsOk
    · rw [hs]
      exact .inl (.of_state_eq (abortSpawn_state vm j i a b heap))
    · rw [hs]
      by_cases hi : i = j
      · subst hi
        exact .inr ⟨rfl, hdead⟩
      · refine .inl (.of_state_eq ?_)
        rw [installTask_task, if_neg hi]

/-- **One call.**  It respects the life cycle exactly when it meets `LifeOk`. -/
theorem lifeLaw_iff {vm vm' : Vm} (h : BackendInv vm) (o : BackendOp)
    (hstep : backendStep o vm = some vm') : LifeLaw vm o vm' ↔ LifeOk vm o := by
  cases o with
  | spawn w p ds rs dsOk rsOk =>
      cases hstep
      exact iff_of_true (spawn_life w p ds rs dsOk rsOk vm) trivial
  | exit tick => exact exit_life_iff h.sched hstep
  | sleep ms tick tick' => exact sleep_life_iff h.sched hstep
  | yield tick => exact schedule_life_iff vm h.sched hstep
  | schedule tick => exact schedule_life_iff vm h.sched hstep
  | scheduleFromIsr tick =>
      rw [backendStep, vmScheduleFromIsr] at hstep
      by_cases hn : vm.scheduler.criticalNesting > 0
      · -- inside a critical section the interrupt leaves the tasks alone
        rw [if_pos hn] at hstep
        cases hstep
        exact iff_of_true (fun i => .of_state_eq rfl) (.inl hn)
      · rw [if_neg hn] at hstep
        rw [LifeOk, or_iff_right hn]
        exact schedule_life_iff (countPreemption vm) (countPreemption_inv h).sched hstep
  | selectNext tick =>
      cases hstep
      exact iff_of_true (fun i => .of_wake tick (vm.task i)) trivial
  | cleanup =>
      cases hstep
      refine iff_of_true (fun i => .of_dead ?_) trivial
      rw [v4BackendTaskCleanup_task]
  | _ =>
      have hsame := backendStep_sameTasks rfl hstep
      refine iff_of_true (fun i => .of_state_eq ?_) trivial
      rw [hsame.task]

/-! ## Runs -/

/-- **The life cycle over runs.**  From `vm_task_init` on, every call of a run
    respects the life cycle exactly when every call of it meets `LifeOk`. -/
theorem life_cycle_iff (timeSliceMs : BitVec 32) {vm : Vm} (h : vm.rp ≤ 64)
    (ops : List BackendOp) :
    EachStep backendStep LifeLaw ops (v4BackendTaskInit timeSliceMs vm) ↔
      Along backendStep LifeOk ops (v4BackendTaskInit timeSliceMs vm) := by
  refine eachStep_iff_along (I := BackendInv) ?_ ?_ ?_ (init_inv timeSliceMs h)
  · exact fun o s s' hs hstep => hs.step hstep
  · exact fun o s hs => hs.defined o
  · exact fun o s s' hs hstep => lifeLaw_iff hs o hstep

/-- Two tasks take turns: a sleep hands over to the other task, which may exit
    once the sleeper is due. -/
theorem life_cycle_two_tasks :
    EachStep backendStep LifeLaw
      [.spawn 0 1 0 0 true true, .spawn 0 1 0 0 true true, .schedule 0, .sleep 10 0 0, .exit 20]
      (v4BackendTaskInit 10 oneWordVm) :=
  (life_cycle_iff 10 (Nat.zero_le 64) _).mpr (by decide)

/-- Spawn one task, run it, exit it: its DEAD slot is RUNNING again. -/
theorem exit_last_task_revives :
    ¬ EachStep backendStep LifeLaw [.spawn 0 1 0 0 true true, .schedule 0, .exit 0]
      (v4BackendTaskInit 10 oneWordVm) := by
  decide

end V4Engine
