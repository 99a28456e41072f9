/-
  V4Engine.Task.Alone

  Scheduling when there is nobody to switch to.

  A current slot that may run goes on, and its stacks are left where they are.
  A DEAD or sleeping current slot is "switched to" instead: its saved context is
  loaded over the live stacks, which survive only when the two are equal.
-/
import V4Engine.Task.Context
import V4Engine.Task.Frame

namespace V4Engine

open Lib

/-- At `tick` no slot but the current one may run. -/
def Alone (tick : BitVec 32) (vm : Vm) : Prop :=
  ∀ j, ¬ vm.IsCurrent j → ¬ (vm.task j).Eligible tick

instance (tick : BitVec 32) (vm : Vm) : Decidable (Alone tick vm) :=
  inferInstanceAs (Decidable (∀ _, _ → _))

/-- The context slot `i` would restore is the live one. -/
structure ContextLive (vm : Vm) (i : Fin 8) : Prop where
  sp : (vm.task i).dsDepth.toNat = vm.sp
  ds : ∀ a, (vm.task i).dsBase = some a → live (vm.heap.cells a) vm.sp = vm.ds
  rp : (vm.task i).rsDepth.toNat = vm.rp
  rs : ∀ b, (vm.task i).rsBase = some b → live (vm.heap.cells b) vm.rp = vm.rs

/-- The current slot may run, or restoring it changes nothing. -/
def CurrentKeeps (tick : BitVec 32) (vm : Vm) : Prop :=
  ∀ i, vm.IsCurrent i → (vm.task i).Eligible tick ∨ ContextLive vm i

/-- The same for an interrupt, which a critical section keeps out. -/
def IsrKeeps (tick : BitVec 32) (vm : Vm) : Prop :=
  vm.scheduler.criticalNesting > 0 ∨ CurrentKeeps tick vm

/-- The live stacks are the same. -/
def SameStacks (vm vm' : Vm) : Prop := vm'.ds = vm.ds ∧ vm'.rs = vm.rs

/-! ## What a schedule does -/

/-- When a restored stack is the live one. -/
theorem live_restoreStack_iff (base : Option Nat) (n k : Nat) (h : Heap) (stack : Nat → Cell) :
    live (restoreStack base n h stack) n = live stack k ↔
      n = k ∧ ∀ id, base = some id → live (h.cells id) k = live stack k := by
  cases base with
  | none =>
      rw [restoreStack, live_eq_iff]
      exact ⟨fun hl => ⟨hl.1, nofun⟩, fun hl => ⟨hl.1, fun _ _ => rfl⟩⟩
  | some id =>
      rw [live_restoreStack]
      constructor
      · intro hl
        obtain rfl := (live_eq_iff.mp hl).1
        exact ⟨rfl, fun _ hid => Option.some.inj hid ▸ hl⟩
      · rintro ⟨rfl, hl⟩
        exact hl id rfl

/-- The stacks after the context of `i` was loaded. -/
theorem switched_sameStacks_iff (tick : BitVec 32) (vm : Vm) (i : Fin 8) :
    SameStacks vm (switched (wakeAll tick vm) i) ↔ ContextLive vm i := by
  have hds : (switched (wakeAll tick vm) i).ds = live (restoreStack (vm.task i).dsBase
      (vm.task i).dsDepth.toNat vm.heap vm.DS) (vm.task i).dsDepth.toNat := by
    rw [← wakeTask_dsBase tick, ← wakeTask_dsDepth tick]
    rfl
  have hrs : (switched (wakeAll tick vm) i).rs = live (restoreStack (vm.task i).rsBase
      (vm.task i).rsDepth.toNat vm.heap vm.RS) (vm.task i).rsDepth.toNat := by
    rw [← wakeTask_rsBase tick, ← wakeTask_rsDepth tick]
    rfl
  unfold SameStacks
  rw [hds, hrs, Vm.ds, Vm.rs, live_restoreStack_iff, live_restoreStack_iff]
  exact ⟨fun ⟨hd, hr⟩ => ⟨hd.1, hd.2, hr.1, hr.2⟩, fun h => ⟨⟨h.sp, h.ds⟩, h.rp, h.rs⟩⟩

section

variable {tick : BitVec 32} {vm vm' : Vm}

/-- Nobody else is chosen. -/
theorem Chosen.alone {hw : SchedWF vm} {next : Fin 8} (hc : Chosen tick vm hw.cur next)
    (ha : Alone tick vm) : next = hw.cur := by
  obtain ⟨-, hnext⟩ | ⟨he, -, -⟩ := hc
  · exact hnext
  · by_contra hne
    exact ha next (fun hcur => hne ((hw.isCurrent_iff next).mp hcur)) he

/-- The slots other than the current one, and which one that is, stay the same. -/
theorem Scheduled.alone_slots {hw : SchedWF vm} (h : Scheduled tick vm hw.cur vm')
    (ha : Alone tick vm) : vm'.scheduler.currentTask = vm.scheduler.currentTask ∧
      ∀ j, ¬ vm.IsCurrent j → vm'.task j = vm.task j := by
  obtain ⟨next, hc, hcur, -, hrest⟩ := h.task_eq
  obtain rfl := hc.alone ha
  refine ⟨hcur.trans hw.cur_id, fun j hj => ?_⟩
  have hne : j ≠ hw.cur := fun heq => hj ((hw.isCurrent_iff j).mpr heq)
  rw [hrest j hne, parked_task_of_ne hne]
  obtain ⟨hb, hdue, -⟩ | ⟨-, heq⟩ := wakeTask_cases tick (vm.task j)
  · exact absurd (.inr (.inr ⟨hb, hdue⟩)) (ha j hj)
  · exact heq

/-- The stacks stay the same exactly when the current slot may run or finds the
    live stacks in its saved context. -/
theorem Scheduled.alone_stacks_iff {hw : SchedWF vm} (h : Scheduled tick vm hw.cur vm')
    (ha : Alone tick vm) : SameStacks vm vm' ↔ CurrentKeeps tick vm := by
  have hcurrent : CurrentKeeps tick vm ↔
      (vm.task hw.cur).Eligible tick ∨ ContextLive vm hw.cur :=
    ⟨fun hk => hk hw.cur ((hw.isCurrent_iff _).mpr rfl), fun hk i hi =>
      (hw.isCurrent_iff i).mp hi ▸ hk⟩
  rw [hcurrent]
  cases h with
  | stay hc he =>
      refine iff_of_true ?_ (.inl he)
      unfold parked
      split
      · exact ⟨rfl, rfl⟩
      · exact ⟨rfl, rfl⟩
  | switch next hc hne =>
      obtain rfl := hc.alone ha
      have hnot := hne.resolve_left fun h => h rfl
      -- A current slot that may not run is not RUNNING: nothing was saved.
      have hparked : parked vm hw.cur = vm := if_neg fun hrun => hnot (.inr (.inl hrun))
      rw [hparked, or_iff_right hnot]
      exact switched_sameStacks_iff tick vm hw.cur

end

/-! ## The two calls -/

/-- What a call of the scheduler leaves behind when there is nobody to switch to. -/
structure AloneAfter (vm vm' : Vm) (keeps : Prop) : Prop where
  wf : SchedWF vm'
  current : vm'.scheduler.currentTask = vm.scheduler.currentTask
  others : ∀ j, ¬ vm.IsCurrent j → vm'.task j = vm.task j
  live : SameStacks vm vm' ↔ keeps

theorem vmSchedule_alone {tick : BitVec 32} {vm : Vm} (hw : SchedWF vm) (ha : Alone tick vm) :
    ∃ vm', vmSchedule tick vm = some vm' ∧ AloneAfter vm vm' (CurrentKeeps tick vm) := by
  obtain ⟨vm', heq, hs⟩ := vmSchedule_scheduled hw tick
  obtain ⟨hcur, hothers⟩ := hs.alone_slots ha
  exact ⟨vm', heq, hs.wf, hcur, hothers, hs.alone_stacks_iff ha⟩

theorem vmScheduleFromIsr_alone {tick : BitVec 32} {vm : Vm} (hw : SchedWF vm)
    (ha : Alone tick vm) :
    ∃ vm', vmScheduleFromIsr tick vm = some vm' ∧ AloneAfter vm vm' (IsrKeeps tick vm) := by
  unfold vmScheduleFromIsr
  by_cases hn : vm.scheduler.criticalNesting > 0
  · rw [if_pos hn]
    exact ⟨vm, rfl, hw, rfl, fun _ _ => rfl, iff_of_true ⟨rfl, rfl⟩ (.inl hn)⟩
  · rw [if_neg hn]
    have hw' : SchedWF (countPreemption vm) := hw.congr rfl rfl fun _ => Nat.le_refl _
    obtain ⟨vm', heq, hafter⟩ := vmSchedule_alone hw' ha
    refine ⟨vm', heq, hafter.wf, hafter.current, hafter.others, hafter.live.trans ?_⟩
    -- The preemption counter is not part of the condition.
    exact ⟨fun hk => .inr fun i hi => (hk i hi).imp_right fun h => ⟨h.sp, h.ds, h.rp, h.rs⟩,
      fun hk i hi => ((hk.resolve_left hn) i hi).imp_right fun h => ⟨h.sp, h.ds, h.rp, h.rs⟩⟩

/-- **Nobody to switch to.**  A yield, and an interrupt, leave the live stacks as
    they are exactly when the current slot may run, its saved context is the live
    one or, for an interrupt, a critical section is open. -/
theorem schedule_alone_iff {vm : Vm} (hw : SchedWF vm) {tick : BitVec 32} (ha : Alone tick vm) :
    (∃ vm', backendStep (.yield tick) vm = some vm' ∧
      (SameStacks vm vm' ↔ CurrentKeeps tick vm)) ∧
    ∃ vm', backendStep (.scheduleFromIsr tick) vm = some vm' ∧
      (SameStacks vm vm' ↔ IsrKeeps tick vm) := by
  obtain ⟨vm1, h1, hafter1⟩ := vmSchedule_alone hw ha
  obtain ⟨vm2, h2, hafter2⟩ := vmScheduleFromIsr_alone hw ha
  exact ⟨⟨vm1, h1, hafter1.live⟩, vm2, h2, hafter2.live⟩

end V4Engine
