/-
  V4Engine.FreeRtos.Handles

  Handles and the tasks they stand for.

  A spawned task is a thread of its own and runs its wrapper while others spawn,
  initialise and clean up.  The kernel may hand out a handle again once its task is
  gone, so tasks are numbered in the order of their creation and every entry of the
  handle table remembers the number of the task it was written for.

  The wrapper deletes its task without clearing the entry, so handles and tasks stay
  in step exactly as long as no task ends by itself while the table still has it
  (`handles_alive_iff`).
-/
import V4Engine.FreeRtos.Isolation

namespace V4Engine.FreeRtos

open Lib

/-! ## The wrapper -/

/-- `v4_freertos_task_wrapper` up to the execution of the word, which the source
    leaves out. -/
def wrapperStart (taskId : Fin 8) (vm : Vm) : Vm :=
  let vm := vm.setTask taskId { vm.task taskId with state := .running }
  { vm with scheduler := { vm.scheduler with currentTask := BitVec.ofNat 8 taskId.val } }

/-- Its end, before `vTaskDelete(NULL)`. -/
def wrapperEnd (taskId : Fin 8) (vm : Vm) : Vm :=
  let vm := vm.setTask taskId { vm.task taskId with state := .dead }
  { vm with scheduler := { vm.scheduler with taskCount := vm.scheduler.taskCount - 1 } }

/-- How far a wrapper has come. -/
inductive Phase where
  | created | running | leaving
  deriving DecidableEq

/-- The parameters of a wrapper, and how far it has come. -/
structure Thread (ι : Type) where
  vm : ι
  taskId : Fin 8
  phase : Phase

/-! ## The system -/

/-- All VMs, the statics and the spawned tasks.  `number` is the task a handle was last
    given to and `written` the one a slot of the handle table was written for;
    `misuse` lists the handles that were deleted when their task was gone already. -/
structure System (ι Q : Type) where
  vms : ι → Vm
  os : Rtos Q
  threads : TaskHandle → Option (Thread ι)
  number : TaskHandle → Nat
  written : Fin 8 → Nat
  created : Nat
  misuse : List TaskHandle

inductive Event (ι : Type) where
  | init (A : ι) (timeSliceMs : BitVec 32) (queueOk : Bool)
  | spawn (A : ι) (call : SpawnCall)
  | start (handle : TaskHandle)
  | finish (handle : TaskHandle)
  | delete (handle : TaskHandle)
  | cleanup (A : ι)

variable {ι Q : Type}

namespace System

/-- The task of `handle` if it exists and its wrapper is in that phase. -/
def threadIn (s : System ι Q) (handle : TaskHandle) (phase : Phase) : Option (Thread ι) :=
  (s.threads handle).filter fun t => s.os.live handle ∧ t.phase = phase

/-- The entry `handle` of slot `i` stands for a task that has not been deleted. -/
def Alive (s : System ι Q) (i : Fin 8) (handle : TaskHandle) : Prop :=
  s.os.live handle = true ∧ s.number handle = s.written i

instance (s : System ι Q) (i : Fin 8) (handle : TaskHandle) : Decidable (s.Alive i handle) :=
  inferInstanceAs (Decidable (_ ∧ _))

/-- One turn of the loop of `v4_backend_task_cleanup`. -/
def deleteEntry (s : System ι Q) (i : Fin 8) : System ι Q :=
  { s with
    os := deleteTask s.os i
    misuse :=
      match s.os.taskHandles i with
      | some handle => if s.Alive i handle then s.misuse else handle :: s.misuse
      | none => s.misuse }

/-- A new task behind `handle`, with its entry in slot `i`. -/
def record (s : System ι Q) (A : ι) (i : Fin 8) (handle : TaskHandle) : System ι Q :=
  { s with
    threads := Function.update s.threads handle (some ⟨A, i, .created⟩)
    number := Function.update s.number handle s.created
    written := Function.update s.written i s.created
    created := s.created + 1 }

variable [DecidableEq ι]

/-- The VM `A` and the statics after a call. -/
def after (s : System ι Q) (A : ι) (r : Vm × Rtos Q) : System ι Q :=
  { s with vms := Function.update s.vms A r.1, os := r.2 }

/-- The slot and the handle of the task a spawn created. -/
def spawned (call : SpawnCall) (vm : Vm) (code : Int) : Option (Fin 8 × TaskHandle) :=
  if 0 ≤ code then (findDead vm).bind fun i => call.handle.map fun handle => (i, handle)
  else none

/-- A wrapper goes on: its VM becomes `f` of it. -/
def advance (s : System ι Q) (handle : TaskHandle) (t : Thread ι) (next : Phase)
    (f : Fin 8 → Vm → Vm) : System ι Q :=
  { s with
    vms := Function.update s.vms t.vm (f t.taskId (s.vms t.vm))
    threads := Function.update s.threads handle (some { t with phase := next }) }

/-- `none` where no such event can happen: the kernel hands out no handle in use, and only
    an existing task runs its wrapper. -/
def step (api : QueueApi Q) : Event ι → System ι Q → Option (System ι Q)
  | .init A timeSliceMs queueOk, s =>
      some (s.after A (v4BackendTaskInit api timeSliceMs queueOk (s.vms A) s.os).2)
  | .spawn A call, s =>
      if call.handle.any s.os.live then none
      else
        let r := call.run (s.vms A) s.os
        match spawned call (s.vms A) r.1 with
        | some (i, handle) => some ((s.after A r.2).record A i handle)
        | none => some (s.after A r.2)
  | .start handle, s =>
      (s.threadIn handle .created).map fun t => s.advance handle t .running wrapperStart
  | .finish handle, s =>
      (s.threadIn handle .running).map fun t => s.advance handle t .leaving wrapperEnd
  | .delete handle, s =>
      (s.threadIn handle .leaving).map fun _ => { s with os := vTaskDelete handle s.os }
  | .cleanup A, s =>
      some { s.after A (v4BackendTaskCleanup (s.vms A) s.os).2 with
        misuse := ((List.finRange 8).foldl deleteEntry s).misuse }

/-- No handle was deleted twice, and every handle in the table stands for a task. -/
structure Safe (s : System ι Q) : Prop where
  misuse : s.misuse = []
  alive : ∀ i handle, s.os.taskHandles i = some handle → s.Alive i handle

/-- Before the first call. -/
structure AtStart (s : System ι Q) : Prop where
  taskHandles : ∀ i, s.os.taskHandles i = none
  misuse : s.misuse = []

/-- The condition on an event: when a task deletes itself, the table no longer has its
    handle. -/
def Forgotten (s : System ι Q) : Event ι → Prop
  | .delete handle => (s.threadIn handle .leaving).isSome → ∀ i, s.os.taskHandles i ≠ some handle
  | _ => True

instance (s : System ι Q) : ∀ e : Event ι, Decidable (s.Forgotten e)
  | .delete handle => inferInstanceAs (Decidable
      ((s.threadIn handle .leaving).isSome → ∀ i, s.os.taskHandles i ≠ some handle))
  | .init _ _ _ => .isTrue trivial
  | .spawn _ _ => .isTrue trivial
  | .start _ => .isTrue trivial
  | .finish _ => .isTrue trivial
  | .cleanup _ => .isTrue trivial

end System

/-! ## One event -/

namespace System

/-- Safe, and no handle is in the table twice. -/
structure Inv (s : System ι Q) : Prop extends s.Safe where
  distinct : ∀ i j handle, s.os.taskHandles i = some handle → s.os.taskHandles j = some handle →
    i = j

/-- The invariant looks at four fields only. -/
theorem Inv.congr {s s' : System ι Q} (h : s.Inv) (hos : s'.os = s.os)
    (hnumber : s'.number = s.number) (hwritten : s'.written = s.written)
    (hmisuse : s'.misuse = s.misuse) : s'.Inv where
  misuse := by rw [hmisuse, h.misuse]
  alive := by
    unfold Alive
    rw [hos, hnumber, hwritten]
    exact h.alive
  distinct := by
    rw [hos]
    exact h.distinct

/-- An empty table. -/
theorem Inv.of_empty {s : System ι Q} (hmisuse : s.misuse = [])
    (hempty : ∀ i, s.os.taskHandles i = none) : s.Inv where
  misuse := hmisuse
  alive i handle h := by
    rw [hempty i] at h
    cases h
  distinct i j handle h := by
    rw [hempty i] at h
    cases h

/-- Deleting the task of a valid entry leaves the other entries valid. -/
theorem Inv.deleteEntry {s : System ι Q} (h : s.Inv) (i : Fin 8) : (s.deleteEntry i).Inv := by
  obtain ⟨htable, hlive⟩ := deleteTask_spec s.os i
  have hentry : ∀ j handle, (deleteTask s.os i).taskHandles j = some handle →
      j ≠ i ∧ s.os.taskHandles j = some handle := by
    intro j handle hj
    rw [htable] at hj
    by_cases hji : j = i
    · rw [if_pos hji] at hj
      cases hj
    · rw [if_neg hji] at hj
      exact ⟨hji, hj⟩
  refine ⟨⟨?_, ?_⟩, ?_⟩
  · show (match s.os.taskHandles i with | some _ => _ | none => _) = []
    cases hi : s.os.taskHandles i with
    | none => exact h.misuse
    | some handle => exact (if_pos (h.alive i handle hi)).trans h.misuse
  · intro j handle hj
    obtain ⟨hji, hold⟩ := hentry j handle hj
    obtain ⟨hlives, hnumber⟩ := h.alive j handle hold
    refine ⟨?_, hnumber⟩
    -- another slot holds another handle
    show (deleteTask s.os i).live handle = true
    rw [hlive, if_neg fun hi => hji (h.distinct j i handle hold hi)]
    exact hlives
  · intro j k handle hj hk
    exact h.distinct j k handle (hentry j handle hj).2 (hentry k handle hk).2

theorem Inv.deleteEntries {s : System ι Q} (h : s.Inv) (l : List (Fin 8)) :
    (l.foldl System.deleteEntry s).Inv := by
  induction l generalizing s with
  | nil => exact h
  | cons i l ih => exact ih (h.deleteEntry i)

/-- The entries after a handle that was not in use is written to slot `i`. -/
theorem Inv.entry_cases {s : System ι Q} (h : s.Inv) {taskHandles : Fin 8 → Option TaskHandle}
    {i : Fin 8} {handle : TaskHandle} (hfresh : s.os.live handle = false)
    (htable : taskHandles = Function.update s.os.taskHandles i (some handle)) {j : Fin 8}
    {handle' : TaskHandle} (hj : taskHandles j = some handle') :
    j = i ∧ handle' = handle ∨
      j ≠ i ∧ handle' ≠ handle ∧ s.os.taskHandles j = some handle' := by
  rw [htable] at hj
  by_cases hji : j = i
  · rw [hji, Function.update_self] at hj
    exact .inl ⟨hji, (Option.some.inj hj).symm⟩
  · rw [Function.update_of_ne hji] at hj
    refine .inr ⟨hji, ?_, hj⟩
    -- entries of the old table stand for tasks that exist
    rintro rfl
    exact Bool.noConfusion (hfresh.symm.trans (h.alive j _ hj).1)

/-- A new task with a handle that was not in use. -/
theorem Inv.record {s : System ι Q} (h : s.Inv) {os : Rtos Q} {i : Fin 8} {handle : TaskHandle}
    (hfresh : s.os.live handle = false)
    (htable : os.taskHandles = Function.update s.os.taskHandles i (some handle))
    (hlive : os.live = Function.update s.os.live handle true) (vms : ι → Vm) (A : ι) :
    (({ s with vms := vms, os := os } : System ι Q).record A i handle).Inv where
  misuse := h.misuse
  alive j handle' hj := by
    show os.live handle' = true ∧ Function.update s.number handle s.created handle'
      = Function.update s.written i s.created j
    rw [hlive]
    rcases h.entry_cases hfresh htable hj with ⟨rfl, rfl⟩ | ⟨hji, hne, hold⟩
    · constructor
      · rw [Function.update_self]
      · rw [Function.update_self, Function.update_self]
    · obtain ⟨hlives, hnumber⟩ := h.alive j handle' hold
      constructor
      · rw [Function.update_of_ne hne, hlives]
      · rw [Function.update_of_ne hne, Function.update_of_ne hji, hnumber]
  distinct j k handle' hj hk := by
    rcases h.entry_cases hfresh htable hj with ⟨rfl, rfl⟩ | ⟨-, hne, hold⟩
    · rcases h.entry_cases hfresh htable hk with ⟨rfl, -⟩ | ⟨-, hne, -⟩
      · rfl
      · exact absurd rfl hne
    · rcases h.entry_cases hfresh htable hk with ⟨-, rfl⟩ | ⟨-, -, hold'⟩
      · exact absurd rfl hne
      · exact h.distinct j k handle' hold hold'

/-- A task that the table has forgotten deletes itself. -/
theorem Inv.delete {s : System ι Q} (h : s.Inv) {handle : TaskHandle}
    (hforgotten : ∀ i, s.os.taskHandles i ≠ some handle) :
    Inv { s with os := vTaskDelete handle s.os } where
  misuse := h.misuse
  alive i handle' hi := by
    obtain ⟨hlives, hnumber⟩ := h.alive i handle' hi
    refine ⟨?_, hnumber⟩
    show Function.update s.os.live handle false handle' = true
    rw [Function.update_of_ne, hlives]
    rintro rfl
    exact hforgotten i hi
  distinct := h.distinct

variable [DecidableEq ι] {api : QueueApi Q}

/-- A spawn fails and leaves the statics, or writes a handle that was not in use. -/
theorem Inv.spawn {s s' : System ι Q} (h : s.Inv) {A : ι} {call : SpawnCall}
    (hs : System.step api (.spawn A call) s = some s') : s'.Inv := by
  simp only [System.step] at hs
  by_cases huse : call.handle.any s.os.live = true
  · rw [if_pos huse] at hs
    cases hs
  · rw [if_neg huse] at hs
    rcases v4BackendTaskSpawn_cases (Q := Q) call.wordIdx call.priority call.dsSize call.rsSize
      call.paramsOk call.handle (s.vms A) with
      ⟨code, vm', hneg, hrun⟩ | ⟨i, handle, vm', -, -, hfind, hhandle, hrun⟩
    · have hcall : call.run (s.vms A) s.os = (code, vm', s.os) := hrun s.os
      have hnone : spawned call (s.vms A) code = none := if_neg (Int.not_le.mpr hneg)
      rw [hcall] at hs
      simp only [hnone] at hs
      cases hs
      exact h.congr rfl rfl rfl rfl
    · have hcall : call.run (s.vms A) s.os = _ := hrun s.os
      -- the code of a success is the slot, so it is not negative
      have hsome : spawned call (s.vms A) i.val = some (i, handle) := by
        rw [spawned, if_pos (Int.natCast_nonneg i.val), hfind, hhandle]
        rfl
      rw [hcall] at hs
      simp only [hsome] at hs
      cases hs
      have hfresh : s.os.live handle = false := by
        rw [hhandle] at huse
        exact Bool.eq_false_iff.mpr huse
      exact h.record hfresh rfl rfl _ A

/-- **One event** that meets the condition keeps the invariant. -/
theorem Inv.step {e : Event ι} {s s' : System ι Q} (h : s.Inv) (hf : s.Forgotten e)
    (hs : System.step api e s = some s') : s'.Inv := by
  cases e with
  | init A timeSliceMs queueOk =>
      cases hs
      exact .of_empty h.misuse fun _ => rfl
  | spawn A call => exact h.spawn hs
  | start handle =>
      -- a wrapper writes to its VM only, also at its end
      obtain ⟨t, -, rfl⟩ := Option.map_eq_some_iff.mp hs
      exact h.congr rfl rfl rfl rfl
  | finish handle =>
      obtain ⟨t, -, rfl⟩ := Option.map_eq_some_iff.mp hs
      exact h.congr rfl rfl rfl rfl
  | delete handle =>
      obtain ⟨t, ht, rfl⟩ := Option.map_eq_some_iff.mp hs
      exact h.delete (hf (by rw [ht]; rfl))
  | cleanup A =>
      -- slots of other VMs are emptied as well: the table is static
      cases hs
      exact .of_empty (h.deleteEntries _).misuse (v4BackendTaskCleanup_spec (s.vms A) s.os).1

/-- An event leaves a safe state exactly when it meets the condition. -/
theorem Inv.safe_iff {s : System ι Q} (h : s.Inv) (e : Event ι) :
    (∀ s', System.step api e s = some s' → s'.Safe) ↔ s.Forgotten e := by
  refine ⟨fun hsafe => ?_, fun hf s' hs => (h.step hf hs).toSafe⟩
  cases e with
  | delete handle =>
      intro hsome i hi
      obtain ⟨t, ht⟩ := Option.isSome_iff_exists.mp hsome
      -- the entry outlives its task
      have hdead := (hsafe _ (Option.map_eq_some_iff.mpr ⟨t, ht, rfl⟩)).alive i handle hi
      have hlive : Function.update s.os.live handle false handle = true := hdead.1
      rw [Function.update_self] at hlive
      cases hlive
  | _ => trivial

end System

/-! ## Runs -/

/-- **No handle outlives its task** in exactly the runs in which no task deletes itself
    while the table has its handle. -/
theorem handles_alive_iff [DecidableEq ι] (api : QueueApi Q) {s : System ι Q} (hs : s.AtStart)
    (events : List (Event ι)) :
    EachStep (System.step api) (fun _ _ s' => s'.Safe) events s ↔
      Along (System.step api) System.Forgotten events s := by
  apply along_iff_along (I := System.Inv)
  · intro e s s' h hf hstep
    exact h.step hf hstep
  · intro e s h
    exact h.safe_iff e
  · exact .of_empty hs.misuse hs.taskHandles

/-- One VM with one word, before any task. -/
def oneVm : System Unit (List V4Message) where
  vms _ := singleWord
  os := { taskHandles := fun _ => none, msgQueue := none, live := fun _ => false }
  threads _ := none
  number _ := 0
  written _ := 0
  created := 0
  misuse := []

/-- A spawn that the kernel answers with handle 1. -/
def spawnOne : Event Unit := .spawn () ⟨0, 0, 0, 0, true, some 1⟩

/-- The task ends by itself. -/
def runsToEnd : List (Event Unit) := [.start 1, .finish 1, .delete 1]

/-- After `vm_task_init` has cleared the table nothing refers to the task any more. -/
theorem reinitialised_handles_alive :
    EachStep (System.step (.ofList V4Message 16)) (fun _ _ s' => s'.Safe)
      (spawnOne :: .init () 10 true :: runsToEnd ++ [.cleanup ()]) oneVm :=
  (handles_alive_iff (.ofList V4Message 16) ⟨fun _ => rfl, rfl⟩ _).mpr (by decide)

/-- Otherwise the entry outlives the task, and the cleanup deletes it a second time. -/
theorem cleanup_deletes_twice :
    (exec (System.step (.ofList V4Message 16)) (spawnOne :: runsToEnd) oneVm).map
        (fun s => (s.os.taskHandles 0, s.os.live 1)) = some (some 1, false) ∧
      (exec (System.step (.ofList V4Message 16)) (spawnOne :: runsToEnd ++ [.cleanup ()]) oneVm).map
        System.misuse = some [1] := by
  decide

end V4Engine.FreeRtos
