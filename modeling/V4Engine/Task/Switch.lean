/-
  V4Engine.Task.Switch

  What `vm_schedule` does, said once.

  `v4TaskSelectNext_cases` says which slot is chosen, `scheduled_of_eq` which
  VM comes out: the current slot goes on, or the context of a slot is restored.
  Later modules use these two and the field lemmas of `parked` and `switched`;
  none of them unfolds the scheduler again.
-/
import V4Engine.Task.Scheduler

namespace V4Engine

open Lib

/-! ## Waking -/

/-- READY, RUNNING, or a sleeper whose deadline has passed. -/
def V4Task.Eligible (tick : BitVec 32) (t : V4Task) : Prop :=
  t.state = .ready ∨ t.state = .running ∨ (t.state = .blocked ∧ wakeDue tick t)

instance (tick : BitVec 32) (t : V4Task) : Decidable (t.Eligible tick) :=
  inferInstanceAs (Decidable (_ ∨ _ ∨ _))

/-- Waking changes at most the state, and only that of a due sleeper. -/
theorem wakeTask_cases (tick : BitVec 32) (t : V4Task) :
    (t.state = .blocked ∧ wakeDue tick t ∧ wakeTask tick t = { t with state := .ready }) ∨
      (¬ (t.state = .blocked ∧ wakeDue tick t) ∧ wakeTask tick t = t) := by
  unfold wakeTask
  by_cases h : t.state = .blocked ∧ wakeDue tick t
  · rw [if_pos h]; exact .inl ⟨h.1, h.2, rfl⟩
  · rw [if_neg h]; exact .inr ⟨h, rfl⟩

/-- After waking, the runnable tasks are those that were eligible. -/
theorem wakeTask_runnable_iff (tick : BitVec 32) (t : V4Task) :
    ((wakeTask tick t).state = .ready ∨ (wakeTask tick t).state = .running) ↔
      t.Eligible tick := by
  obtain ⟨hb, hd, h⟩ | ⟨hn, h⟩ := wakeTask_cases tick t
  · rw [h]
    exact iff_of_true (.inl rfl) (.inr (.inr ⟨hb, hd⟩))
  · rw [h, V4Task.Eligible]
    tauto

@[simp] theorem wakeTask_priority (tick : BitVec 32) (t : V4Task) :
    (wakeTask tick t).priority = t.priority := by
  obtain ⟨-, -, h⟩ | ⟨-, h⟩ := wakeTask_cases tick t <;> rw [h]

@[simp] theorem wakeTask_dsBase (tick : BitVec 32) (t : V4Task) :
    (wakeTask tick t).dsBase = t.dsBase := by
  obtain ⟨-, -, h⟩ | ⟨-, h⟩ := wakeTask_cases tick t <;> rw [h]

@[simp] theorem wakeTask_rsBase (tick : BitVec 32) (t : V4Task) :
    (wakeTask tick t).rsBase = t.rsBase := by
  obtain ⟨-, -, h⟩ | ⟨-, h⟩ := wakeTask_cases tick t <;> rw [h]

@[simp] theorem wakeTask_dsDepth (tick : BitVec 32) (t : V4Task) :
    (wakeTask tick t).dsDepth = t.dsDepth := by
  obtain ⟨-, -, h⟩ | ⟨-, h⟩ := wakeTask_cases tick t <;> rw [h]

@[simp] theorem wakeTask_rsDepth (tick : BitVec 32) (t : V4Task) :
    (wakeTask tick t).rsDepth = t.rsDepth := by
  obtain ⟨-, -, h⟩ | ⟨-, h⟩ := wakeTask_cases tick t <;> rw [h]

theorem wakeTask_of_not_blocked {t : V4Task} (h : t.state ≠ .blocked) (tick : BitVec 32) :
    wakeTask tick t = t := by
  obtain ⟨hb, -, -⟩ | ⟨-, heq⟩ := wakeTask_cases tick t
  · exact absurd hb h
  · exact heq

theorem wakeTask_dead_iff (tick : BitVec 32) (t : V4Task) :
    (wakeTask tick t).state = .dead ↔ t.state = .dead := by
  obtain ⟨hb, -, h⟩ | ⟨-, h⟩ := wakeTask_cases tick t
  · rw [h, hb]; simp
  · rw [h]

/-! ## Selecting -/

/-- What the selection loop has established once the slots of `seen` are done:
    no candidate, or one of the candidates of highest priority. -/
inductive Selected (tick : BitVec 32) (tasks : Fin 8 → V4Task) (seen : List (Fin 8)) :
    Selection → Prop where
  | none (h : ∀ j ∈ seen, (tasks j).Eligible tick → (tasks j).priority = 0) :
      Selected tick tasks seen ⟨0, 0xFF⟩
  | some (i : Fin 8) (he : (tasks i).Eligible tick) (hp : (tasks i).priority ≠ 0)
      (hmax : ∀ j ∈ seen, (tasks j).Eligible tick → (tasks j).priority ≤ (tasks i).priority) :
      Selected tick tasks seen ⟨(tasks i).priority, BitVec.ofNat 8 i.val⟩

@[simp] theorem slotId_toNat (i : Fin 8) : (BitVec.ofNat 8 i.val).toNat = i.val := by
  rw [BitVec.toNat_ofNat]
  omega

theorem slotId_ne_sentinel (i : Fin 8) : BitVec.ofNat 8 i.val ≠ 0xFF := by
  intro h
  have hnat : (BitVec.ofNat 8 i.val).toNat = 255 := congrArg BitVec.toNat h
  rw [slotId_toNat] at hnat
  omega

theorem slotId_injective {i j : Fin 8} (h : BitVec.ofNat 8 i.val = BitVec.ofNat 8 j.val) :
    i = j := by
  have := congrArg BitVec.toNat h
  rw [slotId_toNat, slotId_toNat] at this
  exact Fin.ext this

/-- **One pass of the loop**, on a task already woken: the task is no candidate, the
    new maximum, or the next in a tie; otherwise it changes nothing. -/
theorem selectStep_cases (tick : BitVec 32) (current i : BitVec 8) (sel : Selection)
    (t : V4Task) :
    (¬ t.Eligible tick ∧ selectStep current sel i (wakeTask tick t) = sel) ∨
    (t.Eligible tick ∧ t.priority > sel.highestPriority ∧
      selectStep current sel i (wakeTask tick t) = ⟨t.priority, i⟩) ∨
    (t.Eligible tick ∧ t.priority = sel.highestPriority ∧ sel.selectedTask ≠ 0xFF ∧
      i > current ∧ sel.selectedTask ≤ current ∧
      selectStep current sel i (wakeTask tick t) = { sel with selectedTask := i }) ∨
    (t.Eligible tick ∧ t.priority ≤ sel.highestPriority ∧
      (t.priority = sel.highestPriority → sel.selectedTask ≠ 0xFF → i > current →
        sel.selectedTask > current) ∧
      selectStep current sel i (wakeTask tick t) = sel) := by
  unfold selectStep
  rw [wakeTask_priority]
  by_cases hrun : (wakeTask tick t).state = .ready ∨ (wakeTask tick t).state = .running
  · have he := (wakeTask_runnable_iff tick t).mp hrun
    rw [if_pos hrun]
    -- A candidate is compared with the maximum first; a tie looks at the current slot.
    by_cases hgt : t.priority > sel.highestPriority
    · rw [if_pos hgt]
      exact .inr (.inl ⟨he, hgt, rfl⟩)
    · have hle : t.priority ≤ sel.highestPriority := BitVec.not_lt.mp hgt
      rw [if_neg hgt]
      by_cases htie : t.priority = sel.highestPriority ∧ sel.selectedTask ≠ 0xFF
      · rw [if_pos htie]
        by_cases hrobin : i > current ∧ sel.selectedTask ≤ current
        · rw [if_pos hrobin]
          exact .inr (.inr (.inl ⟨he, htie.1, htie.2, hrobin.1, hrobin.2, rfl⟩))
        · rw [if_neg hrobin]
          refine .inr (.inr (.inr ⟨he, hle, fun _ _ hi => ?_, rfl⟩))
          exact BitVec.not_le.mp fun hsel => hrobin ⟨hi, hsel⟩
      · rw [if_neg htie]
        exact .inr (.inr (.inr ⟨he, hle, fun heq hsel => absurd ⟨heq, hsel⟩ htie, rfl⟩))
  · rw [if_neg hrun]
    exact .inl ⟨fun he => hrun ((wakeTask_runnable_iff tick t).mpr he), rfl⟩

/-- No candidate seen has a higher priority. -/
theorem Selected.priority_le {tick : BitVec 32} {tasks : Fin 8 → V4Task} {seen : List (Fin 8)}
    {sel : Selection} (h : Selected tick tasks seen sel) {j : Fin 8} (hj : j ∈ seen)
    (he : (tasks j).Eligible tick) : (tasks j).priority ≤ sel.highestPriority := by
  cases h with
  | none h => rw [h j hj he]; exact Nat.zero_le _
  | some _ _ _ hmax => exact hmax j hj he

/-- One more candidate. -/
theorem Selected.step {tick : BitVec 32} {tasks : Fin 8 → V4Task} {seen : List (Fin 8)}
    {sel : Selection} (h : Selected tick tasks seen sel) (current : BitVec 8) (i : Fin 8) :
    Selected tick tasks (seen ++ [i])
      (selectStep current sel (BitVec.ofNat 8 i.val) (wakeTask tick (tasks i))) := by
  have hmem : ∀ {p : Fin 8 → Prop}, (∀ j ∈ seen, p j) → p i → ∀ j ∈ seen ++ [i], p j := by
    intro p hs hi j hj
    rcases List.mem_append.mp hj with hj | hj
    · exact hs j hj
    · rw [List.mem_singleton.mp hj]; exact hi
  obtain ⟨hi, heq⟩ | ⟨hi, hgt, heq⟩ | ⟨hi, htie, hsel, -, -, heq⟩ | ⟨hi, hle, -, heq⟩ :=
    selectStep_cases tick current (BitVec.ofNat 8 i.val) sel (tasks i)
  · -- not a candidate: there is nothing new to compare with
    rw [heq]
    cases h with
    | none h => exact .none (hmem h fun he => absurd he hi)
    | some k he hp hmax => exact .some k he hp (hmem hmax fun he => absurd he hi)
  · -- a strictly higher priority takes over
    rw [heq]
    have hpos : (tasks i).priority ≠ 0 := by bv_omega
    refine .some i hi hpos (hmem (fun j hj he => ?_) fun _ => BitVec.le_refl _)
    exact BitVec.le_trans (h.priority_le hj he) (BitVec.le_of_lt hgt)
  · -- A tie goes to the later slot, whose priority is the maximum too.
    rw [heq]
    cases h with
    | none h => exact absurd rfl hsel
    | some k he hp hmax =>
        rw [← htie]
        refine .some i hi (htie ▸ hp) (hmem (fun j hj hj' => ?_) fun _ => BitVec.le_refl _)
        rw [htie]
        exact hmax j hj hj'
  · -- Passed over.  Without a selection the best priority is 0, so this one is 0 too.
    rw [heq]
    cases h with
    | none h => exact .none (hmem h fun _ => by bv_omega)
    | some k he hp hmax => exact .some k he hp (hmem hmax fun _ => hle)

/-- The whole loop. -/
theorem selectLoop_selected (tick : BitVec 32) (vm : Vm) :
    Selected tick vm.task (List.finRange 8) (selectLoop tick vm) := by
  have general : ∀ (todo seen : List (Fin 8)) (sel : Selection), Selected tick vm.task seen sel →
      Selected tick vm.task (seen ++ todo)
        (todo.foldl (fun sel i => selectStep vm.scheduler.currentTask sel (BitVec.ofNat 8 i.val)
          (wakeTask tick (vm.task i))) sel) := by
    intro todo
    induction todo with
    | nil => intro seen sel h; simpa using h
    | cons i todo ih =>
        intro seen sel h
        have := ih (seen ++ [i]) _ (h.step vm.scheduler.currentTask i)
        rwa [List.append_assoc] at this
  exact general (List.finRange 8) [] ⟨0, 0xFF⟩ (.none fun j hj => absurd hj List.not_mem_nil)

/-- **Selection.**  Nobody eligible has a positive priority and the current slot
    is kept, or an eligible slot of highest, positive priority is chosen. -/
theorem v4TaskSelectNext_cases (tick : BitVec 32) (vm : Vm) :
    ((∀ j, (vm.task j).Eligible tick → (vm.task j).priority = 0) ∧
      v4TaskSelectNext tick vm = (vm.scheduler.currentTask, wakeAll tick vm)) ∨
    ∃ i : Fin 8, (vm.task i).Eligible tick ∧ (vm.task i).priority ≠ 0 ∧
      (∀ j, (vm.task j).Eligible tick → (vm.task j).priority ≤ (vm.task i).priority) ∧
      v4TaskSelectNext tick vm = (BitVec.ofNat 8 i.val, wakeAll tick vm) := by
  have h := selectLoop_selected tick vm
  rw [v4TaskSelectNext]
  generalize selectLoop tick vm = sel at h
  cases h with
  | none h => exact .inl ⟨fun j => h j (List.mem_finRange j), rfl⟩
  | some i he hp hmax =>
      refine .inr ⟨i, he, hp, fun j => hmax j (List.mem_finRange j), ?_⟩
      simp only [if_neg (slotId_ne_sentinel i)]

/-! ## Switching -/

/-- The VM after a RUNNING current task was saved and made READY. -/
def parked (vm : Vm) (cur : Fin 8) : Vm :=
  if (vm.task cur).state = .running then
    let task := { savedTask vm (vm.task cur) with state := .ready }
    { vm.setTask cur task with
      heap := saveStack task.rsBase task.rsDepth.toNat vm.RS
        (saveStack task.dsBase task.dsDepth.toNat vm.DS vm.heap) }
  else vm

/-- The VM after the context of `next` was loaded and `next` made RUNNING. -/
def switched (vm : Vm) (next : Fin 8) : Vm :=
  let task := vm.task next
  { vm with
    DS := restoreStack task.dsBase task.dsDepth.toNat vm.heap vm.DS
    RS := restoreStack task.rsBase task.rsDepth.toNat vm.heap vm.RS
    sp := task.dsDepth.toNat
    rp := task.rsDepth.toNat
    heap := touchStack task.rsBase task.rsDepth.toNat
      (touchStack task.dsBase task.dsDepth.toNat vm.heap)
    scheduler :=
      { vm.scheduler with
        tasks := Function.update vm.scheduler.tasks next
          { task with state := .running, execCount := task.execCount + 1 }
        currentTask := BitVec.ofNat 8 next.val
        contextSwitches := vm.scheduler.contextSwitches + 1 } }

/-- A save copies at most 64 cells. -/
theorem savedTask_rsCopyOk {vm : Vm} (hrp : vm.rp ≤ 64) (t : V4Task) :
    rsCopyOk (savedTask vm t) = true := by
  simp only [rsCopyOk, savedTask, BitVec.toNat_ofNat, Bool.or_eq_true, decide_eq_true_eq]
  right
  omega

/-- Parking is defined unless the save would copy from outside `RS`. -/
theorem parkCurrent_eq_some_iff {vm w : Vm} {cur : Fin 8} : parkCurrent vm cur = some w ↔
    ((vm.task cur).state = .running → rsCopyOk (savedTask vm (vm.task cur)) = true) ∧
      w = parked vm cur := by
  by_cases hrun : (vm.task cur).state = .running
  · by_cases hok : rsCopyOk (savedTask vm (vm.task cur)) = true
    · have heq : parkCurrent vm cur = some (parked vm cur) := by
        unfold parkCurrent parked
        rw [if_pos hrun, if_pos hrun, v4TaskSaveContext, if_pos hok]
        simp [Vm.setTask, Vm.task]
      rw [heq, Option.some_inj]
      exact ⟨fun h => ⟨fun _ => hok, h.symm⟩, fun h => h.2.symm⟩
    · rw [parkCurrent, if_pos hrun, v4TaskSaveContext, if_neg hok]
      exact iff_of_false (Option.some_ne_none w).symm fun h => hok (h.1 hrun)
  · rw [parkCurrent, if_neg hrun, parked, if_neg hrun, Option.some_inj]
    exact ⟨fun h => ⟨fun hr => absurd hr hrun, h.symm⟩, fun h => h.2.symm⟩

theorem parkCurrent_eq {vm : Vm} {cur : Fin 8} (hrp : vm.rp ≤ 64) :
    parkCurrent vm cur = some (parked vm cur) :=
  parkCurrent_eq_some_iff.mpr ⟨fun _ => savedTask_rsCopyOk hrp (vm.task cur), rfl⟩

theorem switchTo_eq {vm : Vm} {next : Fin 8} (h : (vm.task next).rsDepth.toNat ≤ 64) :
    switchTo vm next = some (switched vm next) := by
  have hok : rsCopyOk (vm.task next) = true := by
    simp only [rsCopyOk, Bool.or_eq_true, decide_eq_true_eq]
    exact .inr h
  rw [switchTo, v4TaskRestoreContext, if_pos hok]
  rfl

/-! Parking touches the current slot and the heap, and of the slot only what the
    scheduler never looks at. -/

theorem parked_task_of_ne {vm : Vm} {cur j : Fin 8} (h : j ≠ cur) :
    (parked vm cur).task j = vm.task j := by
  unfold parked
  split
  · exact Vm.task_setTask_of_ne vm _ h
  · rfl

theorem parked_task_self (vm : Vm) (cur : Fin 8) :
    (parked vm cur).task cur
      = if (vm.task cur).state = .running then { savedTask vm (vm.task cur) with state := .ready }
        else vm.task cur := by
  unfold parked
  split
  · exact Vm.task_setTask_self vm cur _
  · rfl

theorem parked_priority (vm : Vm) (cur j : Fin 8) :
    ((parked vm cur).task j).priority = (vm.task j).priority := by
  by_cases h : j = cur
  · subst h
    rw [parked_task_self]
    split <;> rfl
  · rw [parked_task_of_ne h]

theorem parked_eligible_iff (tick : BitVec 32) (vm : Vm) (cur j : Fin 8) :
    ((parked vm cur).task j).Eligible tick ↔ (vm.task j).Eligible tick := by
  by_cases h : j = cur
  · subst h
    rw [parked_task_self]
    by_cases hr : (vm.task j).state = .running
    · rw [if_pos hr]
      exact iff_of_true (.inl rfl) (.inr (.inl hr))
    · rw [if_neg hr]
  · rw [parked_task_of_ne h]

theorem parked_currentTask (vm : Vm) (cur : Fin 8) :
    (parked vm cur).scheduler.currentTask = vm.scheduler.currentTask := by
  unfold parked
  split <;> rfl

theorem parked_rp (vm : Vm) (cur : Fin 8) : (parked vm cur).rp = vm.rp := by
  unfold parked
  split <;> rfl

/-- `next` is what selection returns: the current slot for want of a candidate, or
    an eligible slot of highest, positive priority. -/
def Chosen (tick : BitVec 32) (vm : Vm) (cur next : Fin 8) : Prop :=
  ((∀ j, (vm.task j).Eligible tick → (vm.task j).priority = 0) ∧ next = cur) ∨
    ((vm.task next).Eligible tick ∧ (vm.task next).priority ≠ 0 ∧
      ∀ j, (vm.task j).Eligible tick → (vm.task j).priority ≤ (vm.task next).priority)

/-- The two results of `vm_schedule`. -/
inductive Scheduled (tick : BitVec 32) (vm : Vm) (cur : Fin 8) : Vm → Prop where
  | stay (hc : Chosen tick vm cur cur) (he : (vm.task cur).Eligible tick) :
      Scheduled tick vm cur
        ((wakeAll tick (parked vm cur)).setTask cur
          { (wakeAll tick (parked vm cur)).task cur with state := .running })
  | switch (next : Fin 8) (hc : Chosen tick vm cur next)
      (hne : next ≠ cur ∨ ¬ (vm.task cur).Eligible tick) :
      Scheduled tick vm cur (switched (wakeAll tick (parked vm cur)) next)

/-- What every state of the scheduler satisfies: the current slot exists, and no
    return stack, live or saved, is deeper than `RS`. -/
structure SchedWF (vm : Vm) : Prop where
  current : vm.scheduler.currentTask.toNat < 8
  rp : vm.rp ≤ 64
  saved : ∀ i, (vm.task i).rsDepth.toNat ≤ 64

/-- The current slot. -/
def SchedWF.cur {vm : Vm} (h : SchedWF vm) : Fin 8 := ⟨vm.scheduler.currentTask.toNat, h.current⟩

theorem SchedWF.cur_id {vm : Vm} (h : SchedWF vm) :
    BitVec.ofNat 8 h.cur.val = vm.scheduler.currentTask := by
  rw [cur, BitVec.ofNat_toNat, BitVec.setWidth_eq]

theorem SchedWF.taskPtr {vm : Vm} (h : SchedWF vm) :
    Vm.taskPtr vm.scheduler.currentTask = some h.cur := Vm.taskPtr_of_lt h.current

/-- `vm->scheduler.current_task == i`. -/
def Vm.IsCurrent (vm : Vm) (i : Fin 8) : Prop := vm.scheduler.currentTask = BitVec.ofNat 8 i.val

instance (vm : Vm) (i : Fin 8) : Decidable (vm.IsCurrent i) := inferInstanceAs (Decidable (_ = _))

theorem SchedWF.isCurrent_iff {vm : Vm} (h : SchedWF vm) (i : Fin 8) :
    vm.IsCurrent i ↔ i = h.cur := by
  rw [Vm.IsCurrent, ← h.cur_id]
  exact ⟨fun heq => (slotId_injective heq).symm, fun heq => heq ▸ rfl⟩

theorem parked_saved {vm : Vm} (h : SchedWF vm) (cur i : Fin 8) :
    ((parked vm cur).task i).rsDepth.toNat ≤ 64 := by
  by_cases hi : i = cur
  · subst hi
    rw [parked_task_self]
    split
    · show (BitVec.ofNat 8 vm.rp).toNat ≤ 64
      have := h.rp
      rw [BitVec.toNat_ofNat]
      omega
    · exact h.saved i
  · rw [parked_task_of_ne hi]
    exact h.saved i

/-- The guard of the "no switch needed" branch. -/
theorem wakeTask_switch_guard_iff (tick : BitVec 32) (t : V4Task) :
    ((wakeTask tick t).state ≠ .dead ∧ (wakeTask tick t).state ≠ .blocked) ↔ t.Eligible tick := by
  rw [← wakeTask_runnable_iff]
  cases (wakeTask tick t).state <;> simp

/-- `vm_schedule` from the point where the next slot is known. -/
theorem schedule_tail {tick : BitVec 32} {vm : Vm} (h : SchedWF vm) (next : Fin 8)
    (hc : Chosen tick vm h.cur next) (hsel : v4TaskSelectNext tick (parked vm h.cur)
      = (BitVec.ofNat 8 next.val, wakeAll tick (parked vm h.cur))) :
    ∃ vm', vmSchedule tick vm = some vm' ∧ Scheduled tick vm h.cur vm' := by
  have hcur : (wakeAll tick (parked vm h.cur)).scheduler.currentTask
      = BitVec.ofNat 8 h.cur.val := by
    show (parked vm h.cur).scheduler.currentTask = _
    rw [parked_currentTask, h.cur_id]
  -- `vm_schedule` stays exactly when the current slot is chosen and eligible.
  have hguard := wakeTask_switch_guard_iff tick ((parked vm h.cur).task h.cur)
  rw [parked_eligible_iff] at hguard
  rw [vmSchedule, h.taskPtr]
  simp only [Option.bind_eq_bind, Option.bind_some, parkCurrent_eq h.rp, hsel, hcur]
  by_cases hstay : next = h.cur ∧ (vm.task h.cur).Eligible tick
  · obtain ⟨rfl, he⟩ := hstay
    rw [if_pos ⟨rfl, hguard.mpr he⟩]
    exact ⟨_, rfl, .stay hc he⟩
  · rw [if_neg fun hif => hstay ⟨slotId_injective hif.1, hguard.mp hif.2⟩]
    have hptr : Vm.taskPtr (BitVec.ofNat 8 next.val) = some next :=
      Vm.taskPtr_eq_some.mpr (slotId_toNat next)
    have hsaved : ((wakeAll tick (parked vm h.cur)).task next).rsDepth.toNat ≤ 64 := by
      show (wakeTask tick ((parked vm h.cur).task next)).rsDepth.toNat ≤ 64
      rw [wakeTask_rsDepth]
      exact parked_saved h h.cur next
    simp only [hptr, Option.bind_some, switchTo_eq hsaved]
    refine ⟨_, rfl, .switch next hc ?_⟩
    -- A switch to the slot itself happens only when that slot is not eligible.
    by_cases hn : next = h.cur
    · exact .inr fun he => hstay ⟨hn, he⟩
    · exact .inl hn

/-- **`vm_schedule`.**  It never leaves an array and has one of the two results. -/
theorem vmSchedule_scheduled {vm : Vm} (h : SchedWF vm) (tick : BitVec 32) :
    ∃ vm', vmSchedule tick vm = some vm' ∧ Scheduled tick vm h.cur vm' := by
  obtain ⟨hnone, hsel⟩ | ⟨i, he, hp, hmax, hsel⟩ :=
    v4TaskSelectNext_cases tick (parked vm h.cur)
  · simp only [parked_eligible_iff, parked_priority] at hnone
    refine schedule_tail h h.cur (.inl ⟨hnone, rfl⟩) ?_
    rw [hsel, parked_currentTask, h.cur_id]
  · simp only [parked_eligible_iff, parked_priority] at he hp hmax
    exact schedule_tail h i (.inr ⟨he, hp, hmax⟩) hsel

/-- The same for a schedule already known to be defined. -/
theorem scheduled_of_eq {tick : BitVec 32} {vm vm' : Vm} (h : SchedWF vm)
    (hs : vmSchedule tick vm = some vm') : Scheduled tick vm h.cur vm' := by
  obtain ⟨v, heq, hsched⟩ := vmSchedule_scheduled h tick
  obtain rfl : v = vm' := Option.some.inj (heq.symm.trans hs)
  exact hsched

/-! ## What a schedule leaves alone, and what it does to the slots -/

/-- Agreement on everything but the stacks, the scheduler and the heap. -/
structure SchedFrame (vm vm' : Vm) : Prop where
  fp : vm'.fp = vm.fp
  mem : vm'.mem = vm.mem
  memSize : vm'.memSize = vm.memSize
  mmio : vm'.mmio = vm.mmio
  mmioCount : vm'.mmioCount = vm.mmioCount
  words : vm'.words = vm.words
  wordCount : vm'.wordCount = vm.wordCount
  msgQueue : vm'.msgQueue = vm.msgQueue
  panicHandler : vm'.panicHandler = vm.panicHandler
  panicUserData : vm'.panicUserData = vm.panicUserData

theorem SchedFrame.trans {a b c : Vm} (h : SchedFrame a b) (h' : SchedFrame b c) :
    SchedFrame a c where
  fp := h'.fp.trans h.fp
  mem := h'.mem.trans h.mem
  memSize := h'.memSize.trans h.memSize
  mmio := h'.mmio.trans h.mmio
  mmioCount := h'.mmioCount.trans h.mmioCount
  words := h'.words.trans h.words
  wordCount := h'.wordCount.trans h.wordCount
  msgQueue := h'.msgQueue.trans h.msgQueue
  panicHandler := h'.panicHandler.trans h.panicHandler
  panicUserData := h'.panicUserData.trans h.panicUserData

theorem wakeAll_frame (tick : BitVec 32) (vm : Vm) : SchedFrame vm (wakeAll tick vm) :=
  ⟨rfl, rfl, rfl, rfl, rfl, rfl, rfl, rfl, rfl, rfl⟩

theorem setTask_frame (vm : Vm) (i : Fin 8) (t : V4Task) : SchedFrame vm (vm.setTask i t) :=
  ⟨rfl, rfl, rfl, rfl, rfl, rfl, rfl, rfl, rfl, rfl⟩

theorem switched_frame (vm : Vm) (next : Fin 8) : SchedFrame vm (switched vm next) :=
  ⟨rfl, rfl, rfl, rfl, rfl, rfl, rfl, rfl, rfl, rfl⟩

theorem parked_frame (vm : Vm) (cur : Fin 8) : SchedFrame vm (parked vm cur) := by
  unfold parked
  split <;> exact ⟨rfl, rfl, rfl, rfl, rfl, rfl, rfl, rfl, rfl, rfl⟩

namespace Scheduled

variable {tick : BitVec 32} {vm vm' : Vm} {cur : Fin 8}

theorem frame (h : Scheduled tick vm cur vm') : SchedFrame vm vm' := by
  have hwake := (parked_frame vm cur).trans (wakeAll_frame tick _)
  cases h with
  | stay => exact hwake.trans (setTask_frame _ cur _)
  | switch next => exact hwake.trans (switched_frame _ next)

/-- The slot made RUNNING, and every other slot after its own wake-up. -/
theorem task_eq {vm : Vm} {hw : SchedWF vm} (h : Scheduled tick vm hw.cur vm') :
    ∃ next, Chosen tick vm hw.cur next ∧
      vm'.scheduler.currentTask = BitVec.ofNat 8 next.val ∧
      (∃ n, vm'.task next = { wakeTask tick ((parked vm hw.cur).task next) with
        state := .running, execCount := n }) ∧
      ∀ j, j ≠ next → vm'.task j = wakeTask tick ((parked vm hw.cur).task j) := by
  cases h with
  | stay hc he =>
      refine ⟨hw.cur, hc, ?_, ⟨_, Vm.task_setTask_self ..⟩, fun j hj => ?_⟩
      · rw [Vm.setTask_currentTask, hw.cur_id]
        exact parked_currentTask vm hw.cur
      · exact Vm.task_setTask_of_ne _ _ hj
  | switch next hc hne =>
      refine ⟨next, hc, rfl, ⟨_, Function.update_self ..⟩, fun j hj => ?_⟩
      exact Function.update_of_ne hj _ _

theorem wf {vm : Vm} {hw : SchedWF vm} (h : Scheduled tick vm hw.cur vm') : SchedWF vm' := by
  obtain ⟨next, -, hcur, ⟨n, hnext⟩, hrest⟩ := h.task_eq
  have hsaved : ∀ i, (vm'.task i).rsDepth.toNat ≤ 64 := by
    intro i
    by_cases hi : i = next
    · subst hi
      rw [hnext]
      exact (wakeTask_rsDepth tick _).symm ▸ parked_saved hw hw.cur i
    · rw [hrest i hi, wakeTask_rsDepth]
      exact parked_saved hw hw.cur i
  refine ⟨by rw [hcur, slotId_toNat]; exact next.isLt, ?_, hsaved⟩
  cases h with
  | stay => exact (parked_rp vm hw.cur).symm ▸ hw.rp
  | switch next' =>
      show (wakeTask tick ((parked vm hw.cur).task next')).rsDepth.toNat ≤ 64
      rw [wakeTask_rsDepth]
      exact parked_saved hw hw.cur next'

end Scheduled

end V4Engine
