/-
  V4Engine.Task.Critical

  Critical sections and preemption.

  `vm_schedule_from_isr` does nothing while the nesting counter is not zero.  The
  counter has eight bits, so the 256th nested enter brings it back to zero: the
  sequences after which it is zero are the `Forgotten 256` ones.  After these a tick
  goes unnoticed only in a VM in which it would change nothing anyway (`Inert`).
-/
import V4Engine.Task.Choice
import V4Engine.Lib.Brackets

namespace V4Engine

open Lib

/-- The call an enter or an exit stands for. -/
def Lib.Bracket.call : Bracket → BackendOp
  | .enter => .criticalEnter
  | .exit => .criticalExit

/-- Agreement on what a preemption would change. -/
structure Untouched (vm vm' : Vm) : Prop where
  tasks : vm'.scheduler.tasks = vm.scheduler.tasks
  currentTask : vm'.scheduler.currentTask = vm.scheduler.currentTask
  sp : vm'.sp = vm.sp
  rp : vm'.rp = vm.rp
  DS : vm'.DS = vm.DS
  RS : vm'.RS = vm.RS

/-- After the enters and exits, no number of ticks preempts the current task. -/
def HeldOff (vm : Vm) (ops : List Bracket) : Prop :=
  ∃ mid, exec backendStep (ops.map Bracket.call) vm = some mid ∧
    ∀ ticks : List (BitVec 32), ∃ vm',
      exec backendStep (ticks.map .scheduleFromIsr) mid = some vm' ∧ Untouched mid vm'

/-- The current task runs on the stacks last saved for it, nobody sleeps and nobody
    competes with it. -/
structure InertAt (vm : Vm) (cur : Fin 8) : Prop where
  current : vm.IsCurrent cur
  running : (vm.task cur).state = .running
  dsDepth : (vm.task cur).dsDepth = BitVec.ofNat 8 vm.sp
  rsDepth : (vm.task cur).rsDepth = BitVec.ofNat 8 vm.rp
  copyOk : rsCopyOk (vm.task cur) = true
  others : ∀ j, j ≠ cur → (vm.task j).state = .dead ∨ ((vm.task j).state ≠ .blocked ∧
    ((vm.task j).priority = 0 ∨ (vm.task j).priority < (vm.task cur).priority))

/-- A preemption would change nothing. -/
def Inert (vm : Vm) : Prop := ∃ cur, InertAt vm cur

namespace Untouched

theorem refl (vm : Vm) : Untouched vm vm := ⟨rfl, rfl, rfl, rfl, rfl, rfl⟩

theorem symm {a b : Vm} (h : Untouched a b) : Untouched b a :=
  ⟨h.tasks.symm, h.currentTask.symm, h.sp.symm, h.rp.symm, h.DS.symm, h.RS.symm⟩

theorem trans {a b c : Vm} (h : Untouched a b) (h' : Untouched b c) : Untouched a c :=
  ⟨h'.tasks.trans h.tasks, h'.currentTask.trans h.currentTask, h'.sp.trans h.sp,
    h'.rp.trans h.rp, h'.DS.trans h.DS, h'.RS.trans h.RS⟩

theorem task {vm vm' : Vm} (h : Untouched vm vm') (i : Fin 8) : vm'.task i = vm.task i :=
  congrFun h.tasks i

end Untouched

theorem InertAt.congr {vm vm' : Vm} {cur : Fin 8} (h : InertAt vm cur) (hu : Untouched vm vm') :
    InertAt vm' cur where
  current := hu.currentTask.trans h.current
  running := by rw [hu.task]; exact h.running
  dsDepth := by rw [hu.task, hu.sp]; exact h.dsDepth
  rsDepth := by rw [hu.task, hu.rp]; exact h.rsDepth
  copyOk := by rw [hu.task]; exact h.copyOk
  others j hj := by rw [hu.task, hu.task]; exact h.others j hj

/-! ## The parts of a schedule -/

/-- The slot `vm_schedule` goes on with is the selected one; it stays or it switches. -/
theorem vmSchedule_parts {tick : BitVec 32} {vm vm' : Vm} (hs : vmSchedule tick vm = some vm') :
    ∃ cur next, vm.IsCurrent cur ∧
      ((vm.task cur).state = .running → rsCopyOk (savedTask vm (vm.task cur)) = true) ∧
      (v4TaskSelectNext tick (parked vm cur)).1 = BitVec.ofNat 8 next.val ∧
      ((next = cur ∧ vm' = (wakeAll tick (parked vm cur)).setTask cur
        { (wakeAll tick (parked vm cur)).task cur with state := .running }) ∨
      switchTo (wakeAll tick (parked vm cur)) next = some vm') := by
  simp only [vmSchedule, Option.bind_eq_bind, Option.bind_eq_some_iff] at hs
  obtain ⟨cur, hptr, w, hpark, hrest⟩ := hs
  obtain ⟨hok, rfl⟩ := parkCurrent_eq_some_iff.mp hpark
  have hcur : vm.IsCurrent cur := by
    apply BitVec.eq_of_toNat_eq
    rw [Vm.taskPtr_eq_some.mp hptr, slotId_toNat]
  have hsame : (v4TaskSelectNext tick (parked vm cur)).2.scheduler.currentTask
      = BitVec.ofNat 8 cur.val := (parked_currentTask vm cur).trans hcur
  rw [hsame] at hrest
  split at hrest
  case isTrue hstay =>
    cases hrest
    exact ⟨cur, cur, hcur, hok, hstay.1, .inl ⟨rfl, rfl⟩⟩
  case isFalse =>
    obtain ⟨next, hnext, hswitch⟩ := Option.bind_eq_some_iff.mp hrest
    refine ⟨cur, next, hcur, hok, ?_, .inr hswitch⟩
    apply BitVec.eq_of_toNat_eq
    rw [Vm.taskPtr_eq_some.mp hnext, slotId_toNat]

/-- A switch counts, so it shows in the task table. -/
theorem switchTo_execCount {vm vm' : Vm} {next : Fin 8} (hs : switchTo vm next = some vm') :
    (vm'.task next).execCount = (vm.task next).execCount + 1 := by
  obtain ⟨w, hw, rfl⟩ := Option.map_eq_some_iff.mp hs
  have htask : w.task next = vm.task next := by
    simp only [v4TaskRestoreContext] at hw
    split at hw <;> cases hw
    rfl
  show ((w.setTask next _).task next).execCount = _
  rw [Vm.task_setTask_self, htask]

theorem wakeTask_execCount (tick : BitVec 32) (t : V4Task) :
    (wakeTask tick t).execCount = t.execCount := by
  obtain ⟨-, -, h⟩ | ⟨-, h⟩ := wakeTask_cases tick t <;> rw [h]

theorem parked_execCount (vm : Vm) (cur j : Fin 8) :
    ((parked vm cur).task j).execCount = (vm.task j).execCount := by
  by_cases h : j = cur
  · subst h
    rw [parked_task_self]
    split <;> rfl
  · rw [parked_task_of_ne h]

/-! ## A tick in an inert VM -/

/-- In an inert VM the current slot is selected. -/
theorem InertAt.selects {vm : Vm} {cur : Fin 8} (h : InertAt vm cur) (tick : BitVec 32) :
    (v4TaskSelectNext tick (parked vm cur)).1 = BitVec.ofNat 8 cur.val := by
  have hpc : (parked vm cur).IsCurrent cur := (parked_currentTask vm cur).trans h.current
  obtain ⟨-, hsel⟩ | ⟨i, hp, ⟨⟨he, hmax⟩, -⟩, hsel⟩ := v4TaskSelectNext_nextIn tick hpc
  · rw [hsel]
    exact hpc
  · rw [hsel]
    by_cases hic : i = cur
    · rw [hic]
    · -- a competitor of highest priority, which an inert VM does not have
      rw [parked_eligible_iff] at he
      rw [parked_priority] at hp
      have hle := hmax cur ((parked_eligible_iff ..).mpr (.inr (.inl h.running)))
      rw [parked_priority, parked_priority] at hle
      obtain hdead | ⟨-, hzero | hlow⟩ := h.others i hic
      · rw [V4Task.Eligible, hdead] at he
        simp at he
      · exact absurd hzero hp
      · exact absurd hlow (BitVec.not_lt.mpr hle)

/-- A schedule in an inert VM is defined and changes nothing that shows. -/
theorem InertAt.schedule {vm : Vm} {cur : Fin 8} (h : InertAt vm cur) (tick : BitVec 32) :
    ∃ vm', vmSchedule tick vm = some vm' ∧ Untouched vm vm' := by
  have hsaved : savedTask vm (vm.task cur) = vm.task cur := by
    rw [savedTask, ← h.dsDepth, ← h.rsDepth]
  have hpark : parkCurrent vm cur = some (parked vm cur) :=
    parkCurrent_eq_some_iff.mpr ⟨fun _ => hsaved.symm ▸ h.copyOk, rfl⟩
  have hptr : Vm.taskPtr vm.scheduler.currentTask = some cur :=
    Vm.taskPtr_eq_some.mpr (by rw [h.current, slotId_toNat])
  -- The save writes what is saved already, so only the state changes, to READY and back.
  have hself : (wakeAll tick (parked vm cur)).task cur = { vm.task cur with state := .ready } := by
    show wakeTask tick ((parked vm cur).task cur) = _
    rw [parked_task_self, if_pos h.running, hsaved]
    exact wakeTask_of_not_blocked TaskState.noConfusion tick
  have hcur : (v4TaskSelectNext tick (parked vm cur)).2.scheduler.currentTask
      = BitVec.ofNat 8 cur.val := (parked_currentTask vm cur).trans h.current
  refine ⟨(wakeAll tick (parked vm cur)).setTask cur
    { (wakeAll tick (parked vm cur)).task cur with state := .running }, ?_, ?_⟩
  · simp only [vmSchedule, Option.bind_eq_bind, hptr, Option.bind_some, hpark, h.selects tick,
      hcur]
    refine if_pos ⟨trivial, ?_, ?_⟩
    · show ((wakeAll tick (parked vm cur)).task cur).state ≠ .dead
      rw [hself]
      exact TaskState.noConfusion
    · show ((wakeAll tick (parked vm cur)).task cur).state ≠ .blocked
      rw [hself]
      exact TaskState.noConfusion
  · have hstacks : (parked vm cur).sp = vm.sp ∧ (parked vm cur).rp = vm.rp ∧
        (parked vm cur).DS = vm.DS ∧ (parked vm cur).RS = vm.RS := by
      unfold parked
      split <;> exact ⟨rfl, rfl, rfl, rfl⟩
    obtain ⟨hsp, hrp, hDS, hRS⟩ := hstacks
    refine ⟨funext fun j => ?_, parked_currentTask vm cur, hsp, hrp, hDS, hRS⟩
    show ((wakeAll tick (parked vm cur)).setTask cur _).task j = vm.task j
    by_cases hj : j = cur
    · rw [hj, Vm.task_setTask_self, hself, ← h.running]
    · rw [Vm.task_setTask_of_ne _ _ hj]
      show wakeTask tick ((parked vm cur).task j) = _
      rw [parked_task_of_ne hj]
      refine wakeTask_of_not_blocked ?_ tick
      obtain hdead | ⟨hawake, -⟩ := h.others j hj
      · rw [hdead]
        exact TaskState.noConfusion
      · exact hawake

/-- Every sleeper is due at the last tick before the wrap. -/
theorem wakeTask_last {t : V4Task} (h : wakeTask 0xFFFFFFFF t = t) : t.state ≠ .blocked := by
  intro hb
  have hdue : wakeDue 0xFFFFFFFF t = true := decide_eq_true (by bv_omega)
  rw [wakeTask, if_pos ⟨hb, hdue⟩] at h
  rw [← h] at hb
  cases hb

/-- Where the current slot is selected, nobody else has its priority. -/
theorem outranked {tick : BitVec 32} {vm : Vm} {cur j : Fin 8} (hcur : vm.IsCurrent cur)
    (hsel : (v4TaskSelectNext tick (parked vm cur)).1 = BitVec.ofNat 8 cur.val) (hj : j ≠ cur)
    (he : (vm.task j).Eligible tick) :
    (vm.task j).priority = 0 ∨ (vm.task j).priority < (vm.task cur).priority := by
  have hpc : (parked vm cur).IsCurrent cur := (parked_currentTask vm cur).trans hcur
  rw [← parked_eligible_iff tick vm cur j] at he
  rw [← parked_priority vm cur j, ← parked_priority vm cur cur]
  obtain ⟨hzero, -⟩ | ⟨i, -, hnext, heq⟩ := v4TaskSelectNext_nextIn tick hpc
  · exact .inl (hzero j he)
  · rw [heq] at hsel
    obtain rfl : i = cur := slotId_injective hsel
    obtain ⟨⟨hei, hmax⟩, ⟨hlt, -⟩ | ⟨hall, hmin⟩⟩ := hnext
    · exact absurd hlt (lt_irrefl i)
    · refine .inr (BitVec.lt_of_le_ne (hmax j he) fun hp => hj ?_)
      have hbest : Best tick (parked vm i) j := ⟨he, fun c hc => hp.symm ▸ hmax c hc⟩
      exact le_antisymm (hall j hbest) (hmin j hbest)

/-- A VM in which the tick before the wrap changes nothing is inert. -/
theorem inert_of_untouched {vm vm' : Vm} (hs : vmSchedule 0xFFFFFFFF vm = some vm')
    (hu : Untouched vm vm') : Inert vm := by
  obtain ⟨cur, next, hcur, hok, hsel, ⟨rfl, rfl⟩ | hswitch⟩ := vmSchedule_parts hs
  · -- it stayed: compare the two task tables slot by slot
    have hself := hu.task next
    rw [Vm.task_setTask_self] at hself
    have hrun : (vm.task next).state = .running := by rw [← hself]
    have hparked : (parked vm next).task next
        = { savedTask vm (vm.task next) with state := .ready } := by
      rw [parked_task_self, if_pos hrun]
    -- The record saved in this tick is the record from before it.
    have hsaved : savedTask vm (vm.task next) = vm.task next := by
      have hwake : (wakeAll 0xFFFFFFFF (parked vm next)).task next
          = { savedTask vm (vm.task next) with state := .ready } := by
        show wakeTask 0xFFFFFFFF ((parked vm next).task next) = _
        rw [hparked]
        exact wakeTask_of_not_blocked TaskState.noConfusion _
      rw [hwake] at hself
      calc savedTask vm (vm.task next)
          = { savedTask vm (vm.task next) with state := (vm.task next).state } := rfl
        _ = vm.task next := by rw [hrun]; exact hself
    refine ⟨next, hcur, hrun, ?_, ?_, ?_, fun j hj => ?_⟩
    · exact (congrArg V4Task.dsDepth hsaved).symm
    · exact (congrArg V4Task.rsDepth hsaved).symm
    · rw [← hsaved]
      exact hok hrun
    · -- The others were not woken, and the round robin would have gone to an equal.
      have hother := hu.task j
      rw [Vm.task_setTask_of_ne _ _ hj] at hother
      have hwake : wakeTask 0xFFFFFFFF ((parked vm next).task j) = vm.task j := hother
      rw [parked_task_of_ne hj] at hwake
      by_cases hdead : (vm.task j).state = .dead
      · exact .inl hdead
      · have hawake := wakeTask_last hwake
        refine .inr ⟨hawake, outranked hcur hsel hj ?_⟩
        rw [← wakeTask_runnable_iff, hwake]
        revert hdead hawake
        cases (vm.task j).state <;> simp
  · -- it switched, and the switch was counted
    have hcount := switchTo_execCount hswitch
    have hsame := congrArg V4Task.execCount (hu.task next)
    have hold : ((wakeAll 0xFFFFFFFF (parked vm cur)).task next).execCount
        = (vm.task next).execCount :=
      (wakeTask_execCount ..).trans (parked_execCount vm cur next)
    rw [hcount, hold] at hsame
    bv_omega

/-! ## Sections -/

/-- Enters and exits write the counter only, and count modulo 256. -/
theorem criticalRun (ops : List Bracket) (vm : Vm) (n : Nat)
    (hn : vm.scheduler.criticalNesting.toNat = n) :
    ∃ mid, exec backendStep (ops.map Bracket.call) vm = some mid ∧ Untouched vm mid ∧
      mid.scheduler.criticalNesting.toNat = ops.foldl (countStep 256) n := by
  -- Induction on the calls, from any value of the counter.
  induction ops generalizing vm n with
  | nil => exact ⟨vm, rfl, .refl vm, hn⟩
  | cons b ops ih =>
      have hstep : ∃ mid, backendStep b.call vm = some mid ∧ Untouched vm mid ∧
          mid.scheduler.criticalNesting.toNat = countStep 256 n b := by
        cases b with
        | enter =>
            refine ⟨_, rfl, ⟨rfl, rfl, rfl, rfl, rfl, rfl⟩, ?_⟩
            show (vm.scheduler.criticalNesting + 1).toNat = (n + 1) % 256
            rw [BitVec.toNat_add, hn]
            rfl
        | exit =>
            refine ⟨_, rfl, ?_, ?_⟩
            · unfold vmTaskCriticalExit
              split <;> exact ⟨rfl, rfl, rfl, rfl, rfl, rfl⟩
            · unfold vmTaskCriticalExit
              split
              · show (vm.scheduler.criticalNesting - 1).toNat = n - 1
                bv_omega
              · show vm.scheduler.criticalNesting.toNat = n - 1
                bv_omega
      obtain ⟨mid, heq, hu, hmid⟩ := hstep
      obtain ⟨last, hlast, hu', hcount⟩ := ih mid _ hmid
      refine ⟨last, ?_, hu.trans hu', hcount⟩
      rw [List.map_cons, exec_cons, heq]
      exact hlast

/-- In an inert VM, and in one that is in a critical section, ticks change nothing. -/
theorem isr_untouched {vm : Vm} (h : vm.scheduler.criticalNesting > 0 ∨ Inert vm)
    (ticks : List (BitVec 32)) : ∃ vm',
      exec backendStep (ticks.map .scheduleFromIsr) vm = some vm' ∧ Untouched vm vm' := by
  induction ticks generalizing vm with
  | nil => exact ⟨vm, rfl, .refl vm⟩
  | cons tick ticks ih =>
      rw [List.map_cons, exec_cons, backendStep, vmScheduleFromIsr]
      by_cases hin : vm.scheduler.criticalNesting > 0
      · rw [if_pos hin]
        exact ih (.inl hin)
      · obtain ⟨cur, hinert⟩ := h.resolve_left hin
        have hcount : Untouched vm (countPreemption vm) := ⟨rfl, rfl, rfl, rfl, rfl, rfl⟩
        obtain ⟨mid, heq, hu⟩ := (hinert.congr hcount).schedule tick
        rw [if_neg hin, heq]
        obtain ⟨last, hlast, hu'⟩ := ih (.inr ⟨cur, (hinert.congr hcount).congr hu⟩)
        exact ⟨last, hlast, (hcount.trans hu).trans hu'⟩

/-- A VM outside every section that no tick changes is inert. -/
theorem inert_of_held {vm : Vm} (hin : ¬ vm.scheduler.criticalNesting > 0)
    (h : ∀ ticks : List (BitVec 32), ∃ vm',
      exec backendStep (ticks.map .scheduleFromIsr) vm = some vm' ∧ Untouched vm vm') :
    Inert vm := by
  -- one tick, at the last moment before the wrap
  obtain ⟨last, hlast, hu⟩ := h [0xFFFFFFFF]
  obtain ⟨last', hstep, hnil⟩ := exec_cons_eq_some.mp hlast
  cases hnil
  rw [backendStep, vmScheduleFromIsr, if_neg hin] at hstep
  have hcount : Untouched vm (countPreemption vm) := ⟨rfl, rfl, rfl, rfl, rfl, rfl⟩
  obtain ⟨cur, hinert⟩ := inert_of_untouched hstep (hcount.symm.trans hu)
  exact ⟨cur, hinert.congr hcount.symm⟩

/-- The sequence leaves a section open unless the counter has forgotten it. -/
theorem section_open_iff {vm : Vm} (h : vm.scheduler.criticalNesting = 0) (ops : List Bracket) :
    ∃ mid, exec backendStep (ops.map Bracket.call) vm = some mid ∧ Untouched vm mid ∧
      (mid.scheduler.criticalNesting > 0 ↔ ¬ Forgotten 256 ops) := by
  obtain ⟨mid, hrun, hu, hcount⟩ := criticalRun ops vm 0 (by rw [h]; rfl)
  refine ⟨mid, hrun, hu, ?_⟩
  rw [← counter_eq_zero_iff (by decide), counter, ← hcount]
  constructor <;> intro h <;> bv_omega

theorem heldOff_of {vm : Vm} (h : vm.scheduler.criticalNesting = 0) {ops : List Bracket}
    (hcond : ¬ Forgotten 256 ops ∨ Inert vm) : HeldOff vm ops := by
  obtain ⟨mid, hrun, hu, hopen⟩ := section_open_iff h ops
  refine ⟨mid, hrun, isr_untouched (hcond.imp hopen.mpr ?_)⟩
  rintro ⟨cur, hinert⟩
  exact ⟨cur, hinert.congr hu⟩

/-- Sections nested less than 256 deep hold preemption off in every VM. -/
theorem heldOff_of_inside {vm : Vm} (h : vm.scheduler.criticalNesting = 0) {ops : List Bracket}
    (hne : ops ≠ []) (hin : Inside 256 ops) : HeldOff vm ops :=
  heldOff_of h (.inl (hin.not_forgotten hne))

/-- **Critical sections.**  They hold preemption off exactly after the sequences the
    eight-bit counter has not forgotten, and in the VMs in which a preemption would
    change nothing. -/
theorem critical_section_holds_off_iff {vm : Vm} (h : vm.scheduler.criticalNesting = 0)
    (ops : List Bracket) : HeldOff vm ops ↔ ¬ Forgotten 256 ops ∨ Inert vm := by
  refine ⟨?_, heldOff_of h⟩
  rintro ⟨mid, hrun, hheld⟩
  obtain ⟨mid', hrun', hu, hopen⟩ := section_open_iff h ops
  obtain rfl := Option.some.inj (hrun.symm.trans hrun')
  by_cases hin : mid.scheduler.criticalNesting > 0
  · exact .inl (hopen.mp hin)
  · obtain ⟨cur, hinert⟩ := inert_of_held hin hheld
    exact .inr ⟨cur, hinert.congr hu.symm⟩

/-- Two tasks of the same priority, the second of them running. -/
def rivals : Vm := vmAfter [.spawn 0 1 0 0 true true, .spawn 0 1 0 0 true true, .schedule 0]

theorem rivals_hold_off : HeldOff rivals [.enter, .enter, .exit] := by
  refine (critical_section_holds_off_iff rfl _).mpr (.inl ?_)
  rw [← counter_eq_zero_iff (by decide)]
  decide

/-- 256 nested enters do not hold the other task off. -/
theorem rivals_not_held_off :
    BackendReachable rivals ∧ rivals.scheduler.criticalNesting = 0 ∧
      (∀ l, l ≠ [] → l <+: List.replicate 256 Bracket.enter → 0 < net l) ∧
      ¬ HeldOff rivals (List.replicate 256 .enter) := by
  refine ⟨vmAfter_reachable (by decide), by decide, fun l hne hl => ?_, ?_⟩
  · obtain ⟨-, hall⟩ := List.prefix_replicate_iff.mp hl
    have hlen := List.length_pos_of_ne_nil hne
    rw [hall, net_replicate_enter]
    omega
  · rintro ⟨mid, hrun, hheld⟩
    obtain ⟨mid', hrun', hu, hcount⟩ := criticalRun (List.replicate 256 .enter) rivals 0 rfl
    obtain rfl := Option.some.inj (hrun.symm.trans hrun')
    have hwrap : (List.replicate 256 Bracket.enter).foldl (countStep 256) 0 = 0 := by
      decide +kernel
    rw [hwrap] at hcount
    obtain ⟨cur, hinert⟩ := inert_of_held (by bv_omega) hheld
    have hcur : rivals.IsCurrent 1 := by decide
    obtain rfl : 1 = cur := slotId_injective (hcur.symm.trans (hu.currentTask.symm.trans
      hinert.current))
    exact absurd ((hinert.congr hu.symm).others 0 (by decide)) (by decide)

end V4Engine
