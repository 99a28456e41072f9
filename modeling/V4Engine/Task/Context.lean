/-
  V4Engine.Task.Context

  Contexts of descheduled tasks.

  A task that is switched away by a yield or an interrupt is RUNNING at that
  moment, so its stacks are saved; they are what it finds when it is selected
  again, whatever the other tasks do in between.  A sleep marks the task BLOCKED
  first, so nothing is saved: what comes back is the context saved last.
  `SleepKeeps` says when that makes no difference.
-/
import V4Engine.Task.Heap

namespace V4Engine

open Lib

/-- The buffers of slot `t` hold data stack `D` and return stack `R`. -/
def SavedAs (vm : Vm) (t : Fin 8) (D R : List Cell) : Prop :=
  ∃ a b, (vm.task t).dsBase = some a ∧ (vm.task t).rsBase = some b ∧
    live (vm.heap.cells a) (vm.task t).dsDepth.toNat = D ∧
    live (vm.heap.cells b) (vm.task t).rsDepth.toNat = R

/-- The live stacks fit the 8-bit depth field, `RS` and the buffers of the current
    task. -/
structure DepthsFit (vm : Vm) : Prop where
  sp : vm.sp ≤ 255
  rp : vm.rp ≤ 64
  ds : ∀ i, vm.IsCurrent i → ∀ id, (vm.task i).dsBase = some id → vm.heap.holds id vm.sp
  rs : ∀ i, vm.IsCurrent i → ∀ id, (vm.task i).rsBase = some id → vm.heap.holds id vm.rp

/-- Slot `t` is alive, and either its buffers hold `D` and `R` or it has priority
    zero and is never selected. -/
def Descheduled (vm : Vm) (t : Fin 8) (D R : List Cell) : Prop :=
  (vm.task t).state ≠ .dead ∧ ((vm.task t).priority = 0 ∨ SavedAs vm t D R)

/-- The condition on a sleep of `t` under which its stacks are not lost: its last
    saved context is the live one; or it is due at once and nobody competes; or it
    has priority zero and somebody else takes over for good. -/
def SleepKeeps (vm : Vm) (t : Fin 8) (ms tick tick' : BitVec 32) : Prop :=
  SavedAs vm t vm.ds vm.rs ∨
    (tick + ms ≤ tick' ∧ ∀ j, j ≠ t → (vm.task j).Eligible tick' →
      (vm.task j).priority = 0 ∨ (vm.task j).priority < (vm.task t).priority) ∨
    ((vm.task t).priority = 0 ∧
      ∃ j, j ≠ t ∧ (vm.task j).Eligible tick' ∧ (vm.task j).priority ≠ 0)

/-- The condition on a scheduling call made for `t`; `none` marks the calls that
    are not scheduling calls of a running task. -/
def CallKeeps (vm : Vm) (t : Fin 8) : BackendOp → Prop
  | .yield _ | .scheduleFromIsr _ => True
  | .sleep ms tick tick' => SleepKeeps vm t ms tick tick'
  | _ => False

/-- From the call `o` on, as long as other tasks run and nobody calls cleanup, the
    first state in which `t` is current again has the stacks `t` had. -/
def ContextSurvives (vm : Vm) (t : Fin 8) (o : BackendOp) : Prop :=
  ∀ vm1 ops vm2, backendStep o vm = some vm1 →
    Along backendStep (fun v o => ¬ v.IsCurrent t ∧ DepthsFit v ∧ o ≠ .cleanup) ops vm1 →
    exec backendStep ops vm1 = some vm2 → vm2.IsCurrent t →
    vm2.ds = vm.ds ∧ vm2.rs = vm.rs

/-! ## Saving and restoring -/

theorem SavedAs.kept {vm vm' : Vm} {t : Fin 8} {D R : List Cell} (h : SavedAs vm t D R)
    (hk : SlotKept vm vm' t) : SavedAs vm' t D R := by
  obtain ⟨a, b, ha, hb, hD, hR⟩ := h
  refine ⟨a, b, (hk.base true).trans ha, (hk.base false).trans hb, ?_, ?_⟩
  · rw [hk.dsDepth, Heap.cells_congr (hk.blocks true a ha)]
    exact hD
  · rw [hk.rsDepth, Heap.cells_congr (hk.blocks false b hb)]
    exact hR

theorem live_saveStack {h : Heap} {id : Nat} (hid : (h.blocks id).isSome) (n : Nat)
    (stack : Nat → Cell) : live ((saveStack (some id) n stack h).cells id) n = live stack n := by
  obtain ⟨b, hb⟩ := Option.isSome_iff_exists.mp hid
  unfold saveStack
  by_cases hn : n > 0
  · simp only [if_pos hn, Heap.cells, Heap.copyIn_blocks_self, hb, Option.map_some]
    exact live_copyInto b.data stack n
  · obtain rfl : n = 0 := by omega
    rfl

theorem live_restoreStack (id n : Nat) (h : Heap) (stack : Nat → Cell) :
    live (restoreStack (some id) n h stack) n = live (h.cells id) n := by
  unfold restoreStack
  by_cases hn : n > 0
  · simp only [if_pos hn]
    exact live_copyInto stack (h.cells id) n
  · obtain rfl : n = 0 := by omega
    rfl

/-- Parking a RUNNING task saves exactly its live stacks. -/
theorem parked_savedAs {vm : Vm} (hh : HeapInv vm) {t : Fin 8}
    (hrun : (vm.task t).state = .running) {a b : Nat} (ha : (vm.task t).dsBase = some a)
    (hb : (vm.task t).rsBase = some b) (hsp : vm.sp ≤ 255) (hrp : vm.rp ≤ 64) :
    SavedAs (parked vm t) t vm.ds vm.rs := by
  have htask := parked_task_self vm t
  rw [if_pos hrun] at htask
  -- The depths survive their 8-bit fields.
  have hds : (BitVec.ofNat 8 vm.sp).toNat = vm.sp := by rw [BitVec.toNat_ofNat]; omega
  have hrs : (BitVec.ofNat 8 vm.rp).toNat = vm.rp := by rw [BitVec.toNat_ofNat]; omega
  -- The two buffers are different blocks, so the second copy does not touch the first.
  have hab : a ≠ b := fun hab => by
    have := (hh.distinct t true t false a ha (hab ▸ hb)).2
    cases this
  have hheap : (parked vm t).heap
      = saveStack (some b) vm.rp vm.RS (saveStack (some a) vm.sp vm.DS vm.heap) := by
    rw [parked, if_pos hrun, ← ha, ← hb]
    show saveStack _ (BitVec.ofNat 8 vm.rp).toNat vm.RS
      (saveStack _ (BitVec.ofNat 8 vm.sp).toNat vm.DS vm.heap) = _
    rw [hds, hrs]
    rfl
  refine ⟨a, b, by rw [htask]; exact ha, by rw [htask]; exact hb, ?_, ?_⟩
  · rw [htask, hheap]
    show live _ (BitVec.ofNat 8 vm.sp).toNat = _
    rw [hds, Heap.cells_congr
      (saveStack_blocks_of_ne vm.rp vm.RS _ fun h => hab (Option.some.inj h).symm)]
    exact live_saveStack (hh.owned t true a ha) vm.sp vm.DS
  · rw [htask, hheap]
    show live _ (BitVec.ofNat 8 vm.rp).toNat = _
    rw [hrs]
    refine live_saveStack ?_ vm.rp vm.RS
    rw [saveStack_isSome]
    exact hh.owned t false b hb

/-- Switching to a slot loads what its buffers hold. -/
theorem switched_stacks {vm : Vm} {t : Fin 8} {D R : List Cell} (h : SavedAs vm t D R) :
    (switched vm t).ds = D ∧ (switched vm t).rs = R := by
  obtain ⟨a, b, ha, hb, hD, hR⟩ := h
  constructor
  · show live (restoreStack (vm.task t).dsBase (vm.task t).dsDepth.toNat vm.heap vm.DS)
      (vm.task t).dsDepth.toNat = D
    rw [ha, live_restoreStack]
    exact hD
  · show live (restoreStack (vm.task t).rsBase (vm.task t).rsDepth.toNat vm.heap vm.RS)
      (vm.task t).rsDepth.toNat = R
    rw [hb, live_restoreStack]
    exact hR

/-! ## One call while `t` is not current -/

theorem Descheduled.kept {vm vm' : Vm} {t : Fin 8} {D R : List Cell} (h : Descheduled vm t D R)
    (hk : SlotKept vm vm' t) (hstate : (vm'.task t).state ≠ .dead)
    (hprio : (vm'.task t).priority = (vm.task t).priority) : Descheduled vm' t D R :=
  ⟨hstate, h.2.imp (fun hp => hprio.trans hp) fun hs => hs.kept hk⟩

/-- What becomes of a descheduled task: it stays so, or it is current and has its
    stacks back. -/
def Resumed (vm : Vm) (t : Fin 8) (D R : List Cell) : Prop :=
  (¬ vm.IsCurrent t ∧ Descheduled vm t D R) ∨ (vm.IsCurrent t ∧ vm.ds = D ∧ vm.rs = R)

/-- A schedule made while another task is current. -/
theorem Scheduled.resumed {tick : BitVec 32} {vm vm' : Vm} {hw : SchedWF vm} (hh : HeapInv vm)
    (h : Scheduled tick vm hw.cur vm') {t : Fin 8} (ht : t ≠ hw.cur) {D R : List Cell}
    (hd : Descheduled vm t D R) : Resumed vm' t D R := by
  have hkept := h.kept hh ht
  have hparked : (parked vm hw.cur).task t = vm.task t := parked_task_of_ne ht
  obtain ⟨next, -, hcur, -, hrest⟩ := h.task_eq
  by_cases hn : t = next
  · subst hn
    refine .inr ⟨hcur, ?_⟩
    -- Chosen after having been descheduled: only a switch gets here.
    cases h with
    | stay hc he =>
        have hid : (parked vm hw.cur).scheduler.currentTask = BitVec.ofNat 8 t.val := hcur
        rw [parked_currentTask, ← hw.cur_id] at hid
        exact absurd (slotId_injective hid).symm ht
    | switch next hc hne =>
        obtain rfl : next = t := slotId_injective hcur
        obtain ⟨-, hcur'⟩ | ⟨-, hp, -⟩ := hc
        · exact absurd hcur' ht
        · have hmid := (parked_kept hh ht).trans (wakeAll_kept tick (parked vm hw.cur) next)
          exact switched_stacks ((hd.2.resolve_left hp).kept hmid)
  · refine .inl ⟨fun ht' => hn (slotId_injective (ht'.symm.trans hcur)), hd.kept hkept ?_ ?_⟩
    · rw [hrest t hn, ne_eq, wakeTask_dead_iff, hparked]
      exact hd.1
    · rw [hrest t hn, wakeTask_priority, hparked]

/-- **One call** while another task is current. -/
theorem backendStep_resumed {vm vm' : Vm} {o : BackendOp} {t : Fin 8} {D R : List Cell}
    (h : BackendInv vm) (hh : HeapInv vm) (ht : ¬ vm.IsCurrent t) (ho : o ≠ .cleanup)
    (hd : Descheduled vm t D R) (hstep : backendStep o vm = some vm') : Resumed vm' t D R := by
  have htc : t ≠ h.sched.cur := fun hc => ht ((h.sched.isCurrent_iff t).mpr hc)
  -- A call that leaves the slots and their buffers alone.
  have still : ∀ v : Vm, v.scheduler.currentTask = vm.scheduler.currentTask → SlotKept vm v t →
      (v.task t).state = (vm.task t).state ∨ (v.task t).state = .ready →
      (v.task t).priority = (vm.task t).priority → Resumed v t D R := by
    intro v hcur hk hstate hprio
    refine .inl ⟨fun hc => ht (hcur.symm.trans hc), hd.kept hk ?_ hprio⟩
    rcases hstate with hstate | hstate
    · rw [hstate]; exact hd.1
    · rw [hstate]; simp
  have schedule : ∀ (m : Vm) (hw : SchedWF m) (tick : BitVec 32), HeapInv m → t ≠ hw.cur →
      Descheduled m t D R → vmSchedule tick m = some vm' → Resumed vm' t D R := by
    intro m hw tick hhm htm hdm hs
    have hsched := scheduled_of_eq hw hs
    exact hsched.resumed hhm htm hdm
  cases o with
  | spawn w p ds rs dsOk rsOk =>
      cases hstep
      obtain ⟨e, -, heq⟩ | ⟨i, hdead, heq⟩ := v4BackendTaskSpawn_cases w p ds rs dsOk rsOk vm
      · rw [heq]; exact .inl ⟨ht, hd⟩
      · have hti : t ≠ i := fun hti => hd.1 (hti ▸ hdead)
        have hk := spawnInto_kept hh hti w p (stackSize ds 256) (stackSize rs 64) dsOk rsOk
        rw [heq]
        obtain ⟨a, b, heap, hs⟩ | ⟨a, b, heap, hs⟩ :=
          spawnInto_cases vm i w p (stackSize ds 256) (stackSize rs 64) dsOk rsOk
        · rw [hs] at hk ⊢
          have htask := abortSpawn_task_of_ne vm a b heap hti
          exact still _ rfl hk (.inl (congrArg V4Task.state htask)) (congrArg V4Task.priority htask)
        · rw [hs] at hk ⊢
          exact still _ rfl hk
            (.inl (congrArg V4Task.state (installTask_task_of_ne vm _ heap hti)))
            (congrArg V4Task.priority (installTask_task_of_ne vm _ heap hti))
  | exit tick =>
      rw [backendStep, v4BackendTaskExit, h.sched.taskPtr] at hstep
      have htask : (exitCurrent vm h.sched.cur).task t = vm.task t := by
        rw [exitCurrent_task, if_neg htc]
      exact schedule _ (exitCurrent_wf h.sched h.sched.cur) tick (exitCurrent_heapInv hh _) htc
        (hd.kept (exitCurrent_kept hh htc) (htask ▸ hd.1) (htask ▸ rfl)) hstep
  | sleep ms tick tick' =>
      rw [backendStep, v4BackendTaskSleep, h.sched.taskPtr] at hstep
      have htask : (blockCurrent tick ms vm h.sched.cur).task t = vm.task t := by
        rw [blockCurrent_task, if_neg htc]
      exact schedule _ (blockCurrent_wf h.sched tick ms h.sched.cur) tick'
        (blockCurrent_heapInv hh tick ms _) htc
        (hd.kept (blockCurrent_kept tick ms vm h.sched.cur t) (htask ▸ hd.1) (htask ▸ rfl)) hstep
  | yield tick => exact schedule vm h.sched tick hh htc hd hstep
  | schedule tick => exact schedule vm h.sched tick hh htc hd hstep
  | scheduleFromIsr tick =>
      rw [backendStep, vmScheduleFromIsr] at hstep
      split at hstep
      · cases hstep; exact .inl ⟨ht, hd⟩
      · exact schedule (countPreemption vm) (countPreemption_inv h).sched tick
          (hh.congr (fun _ _ => rfl) fun _ => rfl) htc hd hstep
  | selectNext tick =>
      cases hstep
      refine still _ rfl (wakeAll_kept tick vm t) ?_ (wakeTask_priority tick (vm.task t))
      obtain ⟨-, -, hw⟩ | ⟨-, hw⟩ := wakeTask_cases tick (vm.task t)
      · exact .inr (congrArg V4Task.state hw)
      · exact .inl (congrArg V4Task.state hw)
  | cleanup => exact absurd rfl ho
  | _ =>
      have hsame := backendStep_sameTasks rfl hstep
      have htask := hsame.task t
      exact still vm' hsame.currentTask
        ⟨fun _ => by rw [htask], by rw [htask], by rw [htask], fun _ _ _ => by rw [hsame.heap]⟩
        (.inl (by rw [htask])) (by rw [htask])

/-- **Runs** of the other tasks, by induction on the calls: the first state in which
    `t` is current has its stacks. -/
theorem run_resumed {vm vm' : Vm} {t : Fin 8} {D R : List Cell} {ops : List BackendOp}
    (h : BackendInv vm) (hh : HeapInv vm) (hr : Resumed vm t D R)
    (halong : Along backendStep (fun v o => ¬ v.IsCurrent t ∧ DepthsFit v ∧ o ≠ .cleanup) ops vm)
    (hrun : exec backendStep ops vm = some vm') : Resumed vm' t D R := by
  induction ops generalizing vm with
  | nil => cases hrun; exact hr
  | cons o ops ih =>
      obtain ⟨⟨ht, -, ho⟩, hrest⟩ := halong
      obtain ⟨v, hstep, hrun'⟩ := exec_cons_eq_some.mp hrun
      have hinv := h.step hstep
      have hd : Descheduled vm t D R := by
        rcases hr with hr | hr
        · exact hr.2
        · exact absurd hr.1 ht
      exact ih hinv (backendStep_heapInv h hh hstep) (backendStep_resumed h hh ht ho hd hstep)
        (hrest v hstep) hrun'

/-! ## The scheduling call itself -/

theorem parked_ds (vm : Vm) (cur : Fin 8) : (parked vm cur).ds = vm.ds := by
  unfold parked
  split <;> rfl

theorem parked_rs (vm : Vm) (cur : Fin 8) : (parked vm cur).rs = vm.rs := by
  unfold parked
  split <;> rfl

/-- A RUNNING task with buffers is scheduled away with its stacks saved, or stays. -/
theorem Scheduled.running_resumed {tick : BitVec 32} {vm vm' : Vm} {hw : SchedWF vm}
    (hh : HeapInv vm) (h : Scheduled tick vm hw.cur vm')
    (hrun : (vm.task hw.cur).state = .running) {a b : Nat}
    (ha : (vm.task hw.cur).dsBase = some a) (hb : (vm.task hw.cur).rsBase = some b)
    (hsp : vm.sp ≤ 255) : Resumed vm' hw.cur vm.ds vm.rs := by
  have hsaved : SavedAs vm' hw.cur vm.ds vm.rs :=
    (parked_savedAs hh hrun ha hb hsp hw.rp).kept (h.kept_parked hw.cur)
  obtain ⟨next, -, hcur, -, hrest⟩ := h.task_eq
  by_cases hn : hw.cur = next
  · refine .inr ⟨hn ▸ hcur, ?_⟩
    cases h with
    | stay => exact ⟨parked_ds vm hw.cur, parked_rs vm hw.cur⟩
    | switch next' hc hne =>
        obtain rfl : next' = next := slotId_injective hcur
        obtain hne | hne := hne
        · exact absurd hn.symm hne
        · exact absurd (.inr (.inl hrun)) hne
  · refine .inl ⟨fun hc => hn (slotId_injective (hc.symm.trans hcur)), ?_, .inr hsaved⟩
    rw [hrest hw.cur hn, ne_eq, wakeTask_dead_iff, parked_task_self, if_pos hrun]
    simp

/-- A BLOCKED current task is not saved: it is scheduled away with the context
    saved last, is loaded from it when nobody may run, or stays. -/
theorem Scheduled.blocked_resumed {tick : BitVec 32} {vm vm' : Vm} {hw : SchedWF vm}
    (h : Scheduled tick vm hw.cur vm') (hblocked : (vm.task hw.cur).state = .blocked)
    (hok : SavedAs vm hw.cur vm.ds vm.rs ∨
      ((vm.task hw.cur).Eligible tick ∧ ∀ j, j ≠ hw.cur → (vm.task j).Eligible tick →
        (vm.task j).priority = 0 ∨ (vm.task j).priority < (vm.task hw.cur).priority) ∨
      ((vm.task hw.cur).priority = 0 ∧
        ∃ j, j ≠ hw.cur ∧ (vm.task j).Eligible tick ∧ (vm.task j).priority ≠ 0)) :
    Resumed vm' hw.cur vm.ds vm.rs := by
  have hpark : parked vm hw.cur = vm := by
    rw [parked, if_neg (by rw [hblocked]; simp)]
  have hkept : SlotKept vm vm' hw.cur := by
    have hk := h.kept_parked hw.cur
    rwa [hpark] at hk
  obtain ⟨next, hchosen, hcur, -, hrest⟩ := h.task_eq
  by_cases hn : hw.cur = next
  · refine .inr ⟨hn ▸ hcur, ?_⟩
    cases h with
    | stay => exact ⟨parked_ds vm hw.cur, parked_rs vm hw.cur⟩
    | switch next' hc hne =>
        -- The fallback: nobody may run, not even the caller, and it is restored.
        obtain rfl : next' = next := slotId_injective hcur
        have hnot : ¬ (vm.task hw.cur).Eligible tick := hne.resolve_left (not_not.mpr hn.symm)
        obtain hsaved | ⟨he, -⟩ | ⟨-, j, -, he, hp⟩ := hok
        · rw [← hn, hpark]
          exact switched_stacks (hsaved.kept (wakeAll_kept tick vm hw.cur))
        · exact absurd he hnot
        · obtain ⟨hnone, -⟩ | ⟨he', -, -⟩ := hc
          · exact absurd (hnone j he) hp
          · exact absurd (hn ▸ he') hnot
  · refine .inl ⟨fun hc => hn (slotId_injective (hc.symm.trans hcur)), ?_, ?_⟩
    · rw [hrest hw.cur hn, ne_eq, wakeTask_dead_iff, hpark, hblocked]
      simp
    · obtain hsaved | ⟨he, hbest⟩ | ⟨hzero, -⟩ := hok
      · exact .inr (hsaved.kept hkept)
      · -- Due at once and without a competitor, the caller would have been chosen.
        obtain ⟨-, hc⟩ | ⟨he', hp, hmax⟩ := hchosen
        · exact absurd hc.symm hn
        · have hle := hmax hw.cur he
          obtain h0 | hlt := hbest next (Ne.symm hn) he'
          · exact absurd h0 hp
          · bv_omega
      · rw [hrest hw.cur hn, wakeTask_priority, hpark]
        exact .inl hzero

/-- The sleep's condition, read in the state in which the task is BLOCKED already. -/
theorem SleepKeeps.blocked {vm : Vm} {cur : Fin 8} {ms tick tick' : BitVec 32}
    (h : SleepKeeps vm cur ms tick tick') (m : Vm) (hm : m = blockCurrent tick ms vm cur) :
    SavedAs m cur vm.ds vm.rs ∨
      ((m.task cur).Eligible tick' ∧ ∀ j, j ≠ cur → (m.task j).Eligible tick' →
        (m.task j).priority = 0 ∨ (m.task j).priority < (m.task cur).priority) ∨
      ((m.task cur).priority = 0 ∧
        ∃ j, j ≠ cur ∧ (m.task j).Eligible tick' ∧ (m.task j).priority ≠ 0) := by
  have hself : m.task cur
      = { vm.task cur with sleepUntilTick := tick + ms, state := .blocked } := by
    rw [hm, blockCurrent_task, if_pos rfl]
  have hother : ∀ j, j ≠ cur → m.task j = vm.task j :=
    fun j hj => by rw [hm, blockCurrent_task, if_neg hj]
  -- The three ways a sleep keeps the stacks, read in the state after the task was blocked.
  obtain hsaved | ⟨hdue, hbest⟩ | ⟨hzero, j, hj, he, hp⟩ := h
  · exact .inl (hm ▸ hsaved.kept (blockCurrent_kept tick ms vm cur cur))
  · refine .inr (.inl ⟨?_, fun j hj he => ?_⟩)
    · rw [hself]
      exact .inr (.inr ⟨rfl, decide_eq_true hdue⟩)
    · rw [hother j hj] at he ⊢
      rw [hself]
      exact hbest j hj he
  · refine .inr (.inr ⟨?_, j, hj, ?_, ?_⟩)
    · rw [hself]; exact hzero
    · rw [hother j hj]; exact he
    · rw [hother j hj]; exact hp

/-- A sleep meeting its condition. -/
theorem sleep_resumed {vm vm' : Vm} (hw : SchedWF vm) {ms tick tick' : BitVec 32}
    (hok : SleepKeeps vm hw.cur ms tick tick')
    (hstep : v4BackendTaskSleep ms tick tick' vm = some vm') :
    Resumed vm' hw.cur vm.ds vm.rs := by
  rw [v4BackendTaskSleep, hw.taskPtr] at hstep
  have hmid := blockCurrent_wf hw tick ms hw.cur
  have hok' := hok.blocked _ rfl
  have hblocked : ((blockCurrent tick ms vm hw.cur).task hw.cur).state = .blocked := by
    rw [blockCurrent_task, if_pos rfl]
  have hs := scheduled_of_eq hmid hstep
  exact hs.blocked_resumed hblocked hok'

/-- A schedule made for a RUNNING task, directly or from an interrupt. -/
theorem schedule_resumed {vm vm' : Vm} (hw : SchedWF vm) (hh : HeapInv vm) {tick : BitVec 32}
    (hrun : (vm.task hw.cur).state = .running) {a b : Nat}
    (ha : (vm.task hw.cur).dsBase = some a) (hb : (vm.task hw.cur).rsBase = some b)
    (hsp : vm.sp ≤ 255) (hstep : vmSchedule tick vm = some vm') :
    Resumed vm' hw.cur vm.ds vm.rs := by
  have hs := scheduled_of_eq hw hstep
  exact hs.running_resumed hh hrun ha hb hsp

/-- **Contexts survive.**  In every reachable state, for every task that is RUNNING and
    current with stacks that fit and owns both of its buffers, as every task does from its
    spawn to its exit, and every scheduling call meeting `CallKeeps`, the first state in
    which the task is current again has its stacks. -/
theorem context_survives {vm : Vm} (h : BackendReachable vm) {t : Fin 8} (hcur : vm.IsCurrent t)
    (hrun : (vm.task t).state = .running) {a b : Nat} (ha : (vm.task t).dsBase = some a)
    (hb : (vm.task t).rsBase = some b) (hfit : DepthsFit vm) {o : BackendOp}
    (hok : CallKeeps vm t o) : ContextSurvives vm t o := by
  intro vm1 ops vm2 hstep halong hexec hcur2
  have hinv := h.inv
  have hheap := h.heapInv
  have hw := hinv.sched
  obtain rfl := (hw.isCurrent_iff t).mp hcur
  have hinv1 := hinv.step hstep
  -- The call itself keeps the context; the run after it is `run_resumed`.
  have hr : Resumed vm1 hw.cur vm.ds vm.rs := by
    cases o with
    | yield tick => exact schedule_resumed hw hheap hrun ha hb hfit.sp hstep
    | scheduleFromIsr tick =>
        rw [backendStep, vmScheduleFromIsr] at hstep
        split at hstep
        · cases hstep
          exact .inr ⟨hcur, rfl, rfl⟩
        · exact schedule_resumed (countPreemption_inv hinv).sched
            (hheap.congr (fun _ _ => rfl) fun _ => rfl) hrun ha hb hfit.sp hstep
    | sleep ms tick tick' => exact sleep_resumed hw hok hstep
    | _ => exact hok.elim
  obtain ⟨hno, -⟩ | ⟨-, hds, hrs⟩ :=
    run_resumed hinv1 (backendStep_heapInv hinv hheap hstep) hr halong hexec
  · exact absurd hcur2 hno
  · exact ⟨hds, hrs⟩

/-- A program whose data stack is `[7]`. -/
def pushedSeven : BackendOp :=
  .program { DS := fun _ => 7, RS := fun _ => 0, sp := 1, rp := 0, sp_le := by decide,
             rp_le := by decide }

/-- The higher of two tasks yields with `[7]` on its stack. -/
theorem context_survives_yield :
    ContextSurvives (vmAfter [.spawn 0 2 0 0 true true, .spawn 0 1 0 0 true true, .schedule 0,
      pushedSeven]) 0 (.yield 5) := by
  have hds : ((vmAfter [.spawn 0 2 0 0 true true, .spawn 0 1 0 0 true true, .schedule 0,
      pushedSeven]).task 0).dsBase = some 0 := by decide
  have hrs : ((vmAfter [.spawn 0 2 0 0 true true, .spawn 0 1 0 0 true true, .schedule 0,
      pushedSeven]).task 0).rsBase = some 1 := by decide
  refine context_survives (vmAfter_reachable (by decide)) (by decide) (by decide) hds hrs ?_ trivial
  exact ⟨by decide, by decide, by decide, by decide⟩

/-- The only task sleeps with `[7]` on its stack.  It is current again at once, with
    the empty stacks it was spawned with. -/
theorem sleep_loses_stack :
    ¬ ContextSurvives (vmAfter [.spawn 0 1 0 0 true true, .schedule 0, pushedSeven]) 0
      (.sleep 10 0 0) := by
  intro h
  have hds := (h _ [] _ rfl trivial rfl rfl).1
  revert hds
  decide

end V4Engine
