/-
  V4Engine.Task.Frame

  What the task backend leaves alone, whatever state it is called in: the
  program, its RAM, the MMIO table, the panic handler and the frame pointer.
-/
import V4Engine.Task.Ops

namespace V4Engine

open Lib

/-- Agreement on everything that is not the backend's business. -/
structure BackendFrame (vm vm' : Vm) : Prop where
  fp : vm'.fp = vm.fp
  mem : vm'.mem = vm.mem
  memSize : vm'.memSize = vm.memSize
  mmio : vm'.mmio = vm.mmio
  mmioCount : vm'.mmioCount = vm.mmioCount
  words : vm'.words = vm.words
  wordCount : vm'.wordCount = vm.wordCount
  panicHandler : vm'.panicHandler = vm.panicHandler
  panicUserData : vm'.panicUserData = vm.panicUserData

namespace BackendFrame

/-- The fields a backend call may write. -/
theorem update (vm : Vm) (DS RS : Nat → Cell) (sp rp : Nat) (scheduler : V4Scheduler)
    (msgQueue : V4MsgQueue) (heap : Heap) :
    BackendFrame vm { vm with DS := DS, RS := RS, sp := sp, rp := rp, scheduler := scheduler,
                              msgQueue := msgQueue, heap := heap } :=
  ⟨rfl, rfl, rfl, rfl, rfl, rfl, rfl, rfl, rfl⟩

theorem refl (vm : Vm) : BackendFrame vm vm := .update vm ..

theorem trans {a b c : Vm} (h : BackendFrame a b) (h' : BackendFrame b c) : BackendFrame a c where
  fp := h'.fp.trans h.fp
  mem := h'.mem.trans h.mem
  memSize := h'.memSize.trans h.memSize
  mmio := h'.mmio.trans h.mmio
  mmioCount := h'.mmioCount.trans h.mmioCount
  words := h'.words.trans h.words
  wordCount := h'.wordCount.trans h.wordCount
  panicHandler := h'.panicHandler.trans h.panicHandler
  panicUserData := h'.panicUserData.trans h.panicUserData

/-- The fields outside the frame are the only ones that differ. -/
theorem eq_update {vm vm' : Vm} (h : BackendFrame vm vm') :
    vm' = { vm with DS := vm'.DS, RS := vm'.RS, sp := vm'.sp, rp := vm'.rp,
                    scheduler := vm'.scheduler, msgQueue := vm'.msgQueue, heap := vm'.heap } := by
  obtain ⟨hfp, hmem, hmemSize, hmmio, hmmioCount, hwords, hwordCount, hpanic, huser⟩ := h
  cases vm
  cases vm'
  simp_all

end BackendFrame

/-! ## Context switches -/

theorem parkCurrent_frame {vm vm' : Vm} {cur : Fin 8} (h : parkCurrent vm cur = some vm') :
    BackendFrame vm vm' ∧ vm'.sp = vm.sp := by
  unfold parkCurrent at h
  split at h
  · obtain ⟨v, hv, rfl⟩ := Option.map_eq_some_iff.mp h
    simp only [v4TaskSaveContext] at hv
    split at hv
    · cases hv
      exact ⟨.update .., rfl⟩
    · cases hv
  · cases h
    exact ⟨.refl vm, rfl⟩

/-- A restored data stack is as deep as an 8-bit field can say. -/
theorem switchTo_frame {vm vm' : Vm} {next : Fin 8} (h : switchTo vm next = some vm') :
    BackendFrame vm vm' ∧ vm'.sp < 256 := by
  obtain ⟨v, hv, rfl⟩ := Option.map_eq_some_iff.mp h
  simp only [v4TaskRestoreContext] at hv
  split at hv
  · cases hv
    exact ⟨.update .., (vm.task next).dsDepth.isLt⟩
  · cases hv

theorem vmSchedule_frame {tick : BitVec 32} {vm vm' : Vm} (h : vmSchedule tick vm = some vm') :
    BackendFrame vm vm' ∧ (vm.sp ≤ 256 → vm'.sp ≤ 256) := by
  simp only [vmSchedule, Option.bind_eq_bind, Option.bind_eq_some_iff] at h
  obtain ⟨cur, -, v, hpark, hrest⟩ := h
  obtain ⟨hframe, hsp⟩ := parkCurrent_frame hpark
  split at hrest
  · cases hrest
    exact ⟨hframe.trans (.update ..), fun hle => hsp ▸ hle⟩
  · obtain ⟨next, -, hswitch⟩ := Option.bind_eq_some_iff.mp hrest
    obtain ⟨hframe', hlt⟩ := switchTo_frame hswitch
    have hwake : BackendFrame v (wakeAll tick v) := .update ..
    exact ⟨hframe.trans (hwake.trans hframe'), fun _ => Nat.le_of_lt hlt⟩

/-- Parking the current task leaves the index and the messages alone. -/
theorem parkCurrent_keeps {vm vm' : Vm} {cur : Fin 8} (h : parkCurrent vm cur = some vm') :
    vm'.scheduler.currentTask = vm.scheduler.currentTask ∧ vm'.msgQueue = vm.msgQueue := by
  unfold parkCurrent at h
  split at h
  · obtain ⟨v, hv, rfl⟩ := Option.map_eq_some_iff.mp h
    simp only [v4TaskSaveContext] at hv
    split at hv <;> cases hv
    exact ⟨rfl, rfl⟩
  · cases h
    exact ⟨rfl, rfl⟩

/-- A switch leaves the messages alone. -/
theorem vmSchedule_msgQueue {tick : BitVec 32} {vm vm' : Vm} (h : vmSchedule tick vm = some vm') :
    vm'.msgQueue = vm.msgQueue := by
  simp only [vmSchedule, Option.bind_eq_bind, Option.bind_eq_some_iff] at h
  obtain ⟨cur, -, v, hpark, hrest⟩ := h
  have hqueue := (parkCurrent_keeps hpark).2
  split at hrest
  · cases hrest
    exact hqueue
  · obtain ⟨next, -, hswitch⟩ := Option.bind_eq_some_iff.mp hrest
    obtain ⟨u, hu, rfl⟩ := Option.map_eq_some_iff.mp hswitch
    simp only [v4TaskRestoreContext] at hu
    split at hu <;> cases hu
    exact hqueue

theorem sleep_keeps_msgQueue {ms tick tick' : BitVec 32} {vm vm' : Vm}
    (h : v4BackendTaskSleep ms tick tick' vm = some vm') : vm'.msgQueue = vm.msgQueue := by
  obtain ⟨cur, -, hs⟩ := Option.bind_eq_some_iff.mp h
  have hqueue := vmSchedule_msgQueue hs
  exact hqueue

/-! ## Every call -/

theorem spawn_frame (w : BitVec 16) (p : BitVec 8) (ds rs : BitVec 16) (dsOk rsOk : Bool)
    (vm : Vm) :
    BackendFrame vm (v4BackendTaskSpawn w p ds rs dsOk rsOk vm).2 ∧
      (v4BackendTaskSpawn w p ds rs dsOk rsOk vm).2.sp = vm.sp := by
  obtain ⟨e, -, heq⟩ | ⟨i, -, heq⟩ := v4BackendTaskSpawn_cases w p ds rs dsOk rsOk vm
  · rw [heq]
    exact ⟨.refl vm, rfl⟩
  · rw [heq]
    obtain ⟨a, b, heap, hs⟩ | ⟨a, b, heap, hs⟩ :=
      spawnInto_cases vm i w p (stackSize ds 256) (stackSize rs 64) dsOk rsOk
    · rw [hs]
      exact ⟨.update .., rfl⟩
    · rw [hs]
      exact ⟨.update .., rfl⟩

theorem retireAll_frame (l : List (Fin 8)) (vm : Vm) :
    BackendFrame vm (l.foldl retireTask vm) ∧ (l.foldl retireTask vm).sp = vm.sp := by
  induction l generalizing vm with
  | nil => exact ⟨.refl vm, rfl⟩
  | cons i l ih =>
      have hone : BackendFrame vm (retireTask vm i) := .update ..
      exact ⟨hone.trans (ih _).1, (ih _).2⟩

/-- **Frame of the backend.**  Besides, no call makes the data stack deeper than
    `DS`. -/
theorem backendStep_frame {o : BackendOp} {vm vm' : Vm} (h : backendStep o vm = some vm') :
    BackendFrame vm vm' ∧ (vm.sp ≤ 256 → vm'.sp ≤ 256) := by
  cases o with
  | spawn w p ds rs dsOk rsOk =>
      cases h
      obtain ⟨hframe, hsp⟩ := spawn_frame w p ds rs dsOk rsOk vm
      exact ⟨hframe, fun hle => hsp ▸ hle⟩
  | exit tick =>
      obtain ⟨cur, -, hs⟩ := Option.bind_eq_some_iff.mp h
      -- what comes before the reschedule stays within the backend fields
      have hmid : BackendFrame vm (exitCurrent vm cur) := .update ..
      exact ⟨hmid.trans (vmSchedule_frame hs).1, (vmSchedule_frame hs).2⟩
  | sleep ms tick tick' =>
      obtain ⟨cur, -, hs⟩ := Option.bind_eq_some_iff.mp h
      have hmid : BackendFrame vm (blockCurrent tick ms vm cur) := .update ..
      exact ⟨hmid.trans (vmSchedule_frame hs).1, (vmSchedule_frame hs).2⟩
  | yield tick => exact vmSchedule_frame h
  | schedule tick => exact vmSchedule_frame h
  | scheduleFromIsr tick =>
      change vmScheduleFromIsr tick vm = some vm' at h
      unfold vmScheduleFromIsr at h
      split at h
      · cases h
        exact ⟨.refl vm, id⟩
      · have hmid : BackendFrame vm (countPreemption vm) := .update ..
        exact ⟨hmid.trans (vmSchedule_frame h).1, (vmSchedule_frame h).2⟩
  | selectNext tick =>
      cases h
      exact ⟨.update .., id⟩
  | cleanup =>
      cases h
      obtain ⟨hframe, hsp⟩ := retireAll_frame (List.finRange 8) vm
      exact ⟨hframe.trans (.update ..), fun hle => Nat.le_trans (Nat.le_of_eq hsp) hle⟩
  | criticalEnter =>
      cases h
      exact ⟨.update .., id⟩
  | criticalExit =>
      cases h
      unfold vmTaskCriticalExit
      split <;> exact ⟨.update .., id⟩
  | send dst ty data =>
      obtain ⟨r, hr, rfl⟩ := Option.map_eq_some_iff.mp h
      unfold v4BackendTaskSend at hr
      split at hr
      · cases hr
        exact ⟨.refl vm, id⟩
      · split at hr
        · cases hr
          exact ⟨.refl vm, id⟩
        · split at hr
          · cases hr
            exact ⟨.update .., id⟩
          · cases hr
  | receive ty =>
      cases h
      obtain ⟨-, hr⟩ | ⟨i, -, -, hr⟩ := v4BackendTaskReceive_cases vm ty
      · rw [hr]
        exact ⟨.refl vm, id⟩
      · rw [hr]
        exact ⟨.update .., id⟩
  | program s =>
      cases h
      exact ⟨.update .., fun _ => s.sp_le⟩

end V4Engine
