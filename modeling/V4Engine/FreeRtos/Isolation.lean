/-
  V4Engine.FreeRtos.Isolation

  Several VMs on one FreeRTOS.

  The statics belong to nobody: a call on one VM may change what another VM sees.
  `SameView A` relates a run to the run without the calls on other VMs.  Every call
  on `A` maintains it, and a call on another VM does as long as it leaves alone what
  `A` sees (`Undisturbed`).  Before the first call on `A` there is nothing to see, and
  an initialisation leaves nothing of what was there before (`Unseen`);
  `vms_isolated` is the statement about whole runs.
-/
import V4Engine.FreeRtos.Backend
import V4Engine.Lib.Purge

namespace V4Engine.FreeRtos

open Lib

inductive Call where
  | init (timeSliceMs : BitVec 32) (queueOk : Bool)
  | cleanup
  | spawn (wordIdx : BitVec 16) (priority : BitVec 8) (dsSize rsSize : BitVec 16)
      (paramsOk : Bool) (handle : Option TaskHandle)
  | send (dstTask msgType : BitVec 8) (data : Cell)
  | receive (msgType : BitVec 8)

/-- A call on the VM `vm`, made by the FreeRTOS task `self`. -/
structure ApiCall (ι : Type) where
  vm : ι
  self : TaskHandle
  call : Call

inductive Answer where
  | code (c : Int)
  | message (m : Option (Cell × BitVec 8))
  deriving DecidableEq

/-- All VMs and the statics.  `owner` remembers for which VM a task was created and
    `log` what was answered to whom. -/
structure World (ι Q : Type) where
  vms : ι → Vm
  os : Rtos Q
  owner : TaskHandle → Option ι
  log : List (ι × Answer)

variable {ι Q : Type}

def Call.run (api : QueueApi Q) (self : TaskHandle) (vm : Vm) (os : Rtos Q) :
    Call → Answer × Vm × Rtos Q
  | .init timeSliceMs queueOk =>
      let r := v4BackendTaskInit api timeSliceMs queueOk vm os
      (.code r.1, r.2)
  | .cleanup =>
      let r := v4BackendTaskCleanup vm os
      (.code r.1, r.2)
  | .spawn w p ds rs paramsOk handle =>
      let r := v4BackendTaskSpawn w p ds rs paramsOk handle vm os
      (.code r.1, r.2)
  | .send dst ty data =>
      let r := v4BackendTaskSend api self dst ty data os
      (.code r.1, vm, r.2)
  | .receive ty =>
      let r := v4BackendTaskReceive api self ty os
      (.message r.1, vm, r.2)

/-- The task that came into being. -/
def Call.created : Call → Answer → Option TaskHandle
  | .spawn _ _ _ _ _ handle, .code c => if 0 ≤ c then handle else none
  | _, _ => none

/-- The tasks of the VMs after one more was created for `X`. -/
def ownerAfter (owner : TaskHandle → Option ι) (X : ι) : Option TaskHandle → TaskHandle → Option ι
  | some handle => Function.update owner handle (some X)
  | none => owner

def World.step [DecidableEq ι] (api : QueueApi Q) (c : ApiCall ι) (w : World ι Q) :
    Option (World ι Q) :=
  let r := c.call.run api c.self (w.vms c.vm) w.os
  some {
    vms := Function.update w.vms c.vm r.2.1
    os := r.2.2
    owner := ownerAfter w.owner c.vm (c.call.created r.1)
    log := w.log ++ [(c.vm, r.1)] }

/-- No VM has called anything yet. -/
structure World.AtStart (w : World ι Q) : Prop where
  taskHandles : ∀ i, w.os.taskHandles i = none
  msgQueue : w.os.msgQueue = none
  owner : ∀ handle, w.owner handle = none
  log : w.log = []

/-- Slot `i` of the handle table is not taken by a task of `A`. -/
def Spares (A : ι) (owner : TaskHandle → Option ι) (os : Rtos Q) (i : Fin 8) : Prop :=
  ∀ handle, os.taskHandles i = some handle → owner handle ≠ some A

/-- A call on the VM `vm` leaves alone what `A` sees of the statics. -/
def Harmless (contents : Q → List V4Message) (A : ι) (owner : TaskHandle → Option ι) (os : Rtos Q)
    (vm : Vm) : Call → Prop
  -- it replaces an empty queue, or no queue by none, and the table has no task of `A`
  | .init _ queueOk =>
      os.msgQueue.map contents = (if queueOk then some [] else none) ∧ ∀ i, Spares A owner os i
  -- there is no queue to delete and no task of `A` to delete
  | .cleanup => os.msgQueue.isNone ∧ ∀ i, Spares A owner os i
  -- it is refused, or the slot it takes is not used by `A`
  | .spawn wordIdx _ _ _ paramsOk handle =>
      wordIdx.toNat < vm.wordCount → paramsOk = true → handle.isSome →
        ∀ i, findDead vm = some i → Spares A owner os i
  -- it is refused
  | .send dst _ _ => (dst.toNat ≥ 8 ∧ dst ≠ 0xFF) ∨ os.msgQueue.isNone ∨
      16 ≤ (os.contents contents).length
  -- there is nothing to take
  | .receive _ => os.contents contents = []

/-- There was no call on `A` yet. -/
def World.Untouched (A : ι) (w : World ι Q) : Prop := ∀ entry ∈ w.log, entry.1 ≠ A

instance [DecidableEq ι] (A : ι) (w : World ι Q) : Decidable (w.Untouched A) :=
  inferInstanceAs (Decidable (∀ entry ∈ w.log, entry.1 ≠ A))

/-- The condition on a call: the kernel hands out no handle of an existing task, the
    calls on `A` are not made by tasks of other VMs, the first of them initialises `A`
    unless there is no queue, and from then on the calls on other VMs are harmless. -/
def Undisturbed (contents : Q → List V4Message) (A : ι) (w : World ι Q) (c : ApiCall ι) : Prop :=
  (∀ word p ds rs paramsOk handle, c.call = .spawn word p ds rs paramsOk (some handle) →
    w.os.live handle = false) ∧
  (c.vm = A → (∀ X, w.owner c.self = some X → X = A) ∧
    (w.Untouched A → w.os.msgQueue = none ∨ ∃ ms queueOk, c.call = .init ms queueOk)) ∧
  (c.vm ≠ A → w.Untouched A ∨ Harmless contents A w.owner w.os (w.vms c.vm) c.call)

/-- Every handle in the table belongs to a living task of some VM. -/
def Known (owner : TaskHandle → Option ι) (os : Rtos Q) : Prop :=
  ∀ i handle, os.taskHandles i = some handle → owner handle ≠ none ∧ os.live handle = true

/-- The statics `os'` are the statics `os` without the tasks of VMs other than `A`. -/
structure SameStatics (contents : Q → List V4Message) (A : ι)
    (owner owner' : TaskHandle → Option ι) (os os' : Rtos Q) : Prop where
  queue : os'.msgQueue.map contents = os.msgQueue.map contents
  handles : ∀ i handle, os'.taskHandles i = some handle ↔
    os.taskHandles i = some handle ∧ owner handle = some A
  known : Known owner os
  tasks : ∀ handle, (owner' handle = some A ∧ os'.live handle = true) ↔
    (owner handle = some A ∧ os.live handle = true)

/-- World `t` is world `s` as `A` sees it. -/
structure SameView [DecidableEq ι] (contents : Q → List V4Message) (A : ι) (s t : World ι Q) :
    Prop where
  vm : t.vms A = s.vms A
  statics : SameStatics contents A s.owner t.owner s.os t.os
  log : t.log = s.log.filter fun entry => entry.1 = A

variable {api : QueueApi Q} {contents : Q → List V4Message} {A : ι}

/-! ## What the calls do to the statics -/

theorem deleteTask_spec (os : Rtos Q) (i : Fin 8) :
    (∀ j, (deleteTask os i).taskHandles j = if j = i then none else os.taskHandles j) ∧
    ∀ handle, (deleteTask os i).live handle
      = if os.taskHandles i = some handle then false else os.live handle := by
  unfold deleteTask
  cases hi : os.taskHandles i with
  | none =>
      refine ⟨fun j => ?_, fun handle => by simp⟩
      by_cases hj : j = i
      · rw [if_pos hj, hj, hi]
      · rw [if_neg hj]
  | some h =>
      refine ⟨fun j => ?_, fun handle => ?_⟩
      · show Function.update os.taskHandles i none j = _
        rw [Function.update_apply]
      · show Function.update os.live h false handle = _
        rw [Function.update_apply]
        simp only [Option.some_inj, eq_comm]

theorem foldl_deleteTask_spec (l : List (Fin 8)) (os : Rtos Q) :
    (∀ j, (l.foldl deleteTask os).taskHandles j = if j ∈ l then none else os.taskHandles j) ∧
    ∀ handle, (l.foldl deleteTask os).live handle
      = if ∃ i ∈ l, os.taskHandles i = some handle then false else os.live handle := by
  induction l generalizing os with
  | nil => exact ⟨fun j => by simp, fun handle => by simp⟩
  | cons i l ih =>
      obtain ⟨hhandles, hlive⟩ := ih (deleteTask os i)
      obtain ⟨hone, hgone⟩ := deleteTask_spec os i
      rw [List.foldl_cons]
      refine ⟨fun j => ?_, fun handle => ?_⟩
      · rw [hhandles, hone]
        by_cases hj : j = i
        · simp [hj]
        · simp [hj]
      · rw [hlive, hgone]
        simp only [hone, List.mem_cons]
        -- The handle is in this slot, or it is gone exactly if a later slot has it.
        by_cases hi : os.taskHandles i = some handle
        · rw [if_pos hi, ite_self, if_pos ⟨i, Or.inl rfl, hi⟩]
        · rw [if_neg hi]
          refine if_congr ⟨?_, ?_⟩ rfl rfl
          · rintro ⟨j, hj, heq⟩
            by_cases hji : j = i
            · rw [if_pos hji] at heq
              cases heq
            · rw [if_neg hji] at heq
              exact ⟨j, .inr hj, heq⟩
          · rintro ⟨j, rfl | hj, heq⟩
            · exact absurd heq hi
            · refine ⟨j, hj, ?_⟩
              rwa [if_neg fun hji : j = i => hi (hji ▸ heq)]

theorem v4BackendTaskCleanup_spec (vm : Vm) (os : Rtos Q) :
    (∀ j, (v4BackendTaskCleanup vm os).2.2.taskHandles j = none) ∧
    ∀ handle, (v4BackendTaskCleanup vm os).2.2.live handle
      = if ∃ i, os.taskHandles i = some handle then false else os.live handle := by
  obtain ⟨hhandles, hlive⟩ := foldl_deleteTask_spec (List.finRange 8) os
  refine ⟨fun j => (hhandles j).trans (if_pos (List.mem_finRange j)), fun handle => ?_⟩
  refine (hlive handle).trans (if_congr ?_ rfl rfl)
  simp only [List.mem_finRange, true_and]

/-- A spawn is refused, whatever the statics are, or puts the new handle into the first
    DEAD slot. -/
theorem v4BackendTaskSpawn_cases (w : BitVec 16) (p : BitVec 8) (ds rs : BitVec 16)
    (paramsOk : Bool) (handle : Option TaskHandle) (vm : Vm) :
    (∃ (e : Int) (vm' : Vm), e < 0 ∧ ∀ os : Rtos Q,
      v4BackendTaskSpawn w p ds rs paramsOk handle vm os = (e, vm', os)) ∨
    ∃ (i : Fin 8) (h : TaskHandle) (vm' : Vm), w.toNat < vm.wordCount ∧ paramsOk = true ∧
      findDead vm = some i ∧ handle = some h ∧ ∀ os : Rtos Q,
        v4BackendTaskSpawn w p ds rs paramsOk handle vm os = ((i.val : Int), vm', { os with
          taskHandles := Function.update os.taskHandles i (some h)
          live := Function.update os.live h true }) := by
  unfold v4BackendTaskSpawn
  -- The three refusals do not read the statics; what a refusal writes is in the VM.
  by_cases hw : w.toNat ≥ vm.wordCount
  · simp only [if_pos hw]
    exact .inl ⟨_, _, (by decide : Err.invalidWordIdx.code < 0), fun _ => rfl⟩
  · simp only [if_neg hw]
    cases findDead vm with
    | none => exact .inl ⟨_, _, (by decide : Err.taskLimit.code < 0), fun _ => rfl⟩
    | some i =>
        cases paramsOk with
        | false => exact .inl ⟨_, _, (by decide : Err.noMemory.code < 0), fun _ => rfl⟩
        | true =>
            cases handle with
            | none => exact .inl ⟨_, _, (by decide : Err.noMemory.code < 0), fun _ => rfl⟩
            | some h => exact .inr ⟨i, h, _, Nat.lt_of_not_le hw, rfl, rfl, rfl, fun _ => rfl⟩

theorem created_refused {w : BitVec 16} {p : BitVec 8} {ds rs : BitVec 16} {paramsOk : Bool}
    {handle : Option TaskHandle} {e : Int} (he : e < 0) :
    (Call.spawn w p ds rs paramsOk handle).created (.code e) = none := by
  rw [Call.created, if_neg (Int.not_le.mpr he)]

theorem created_served {w : BitVec 16} {p : BitVec 8} {ds rs : BitVec 16} {paramsOk : Bool}
    {handle : Option TaskHandle} (i : Fin 8) :
    (Call.spawn w p ds rs paramsOk handle).created (.code (i.val : Int)) = handle := by
  rw [Call.created, if_pos (Int.natCast_nonneg i.val)]

namespace Known

variable {owner : TaskHandle → Option ι} {os : Rtos Q}

/-- A handle in the table is not a new one. -/
theorem ne_new (h : Known owner os) {new : TaskHandle} (hnew : os.live new = false) {i : Fin 8}
    {handle : TaskHandle} (hi : os.taskHandles i = some handle) : handle ≠ new :=
  fun heq => Bool.eq_false_iff.mp hnew (heq ▸ (h i handle hi).2)

/-- After a spawn every handle in the table still is a task of some VM. -/
theorem insert (h : Known owner os) {new : TaskHandle} (hnew : os.live new = false) (X : ι)
    (i : Fin 8) :
    Known (Function.update owner new (some X)) { os with
      taskHandles := Function.update os.taskHandles i (some new)
      live := Function.update os.live new true } := by
  intro j handle hj
  simp only [Function.update_apply] at hj ⊢
  by_cases hji : j = i
  · rw [if_pos hji] at hj
    have heq := (Option.some.inj hj).symm
    rw [if_pos heq, if_pos heq]
    exact ⟨nofun, rfl⟩
  · rw [if_neg hji] at hj
    have hne := h.ne_new hnew hj
    rw [if_neg hne, if_neg hne]
    exact h j handle hj

/-- Whatever a call does to the queue, the table stays as it is. -/
theorem withQueue (h : Known owner os) (q : Option Q) : Known owner { os with msgQueue := q } := h

/-- **Any call on any VM** leaves handles of living tasks in the table only. -/
theorem run (h : Known owner os) (api : QueueApi Q) (self : TaskHandle) (vm : Vm) (X : ι)
    (c : Call) (hnew : ∀ w p ds rs paramsOk handle, c = .spawn w p ds rs paramsOk (some handle) →
      os.live handle = false) :
    Known (ownerAfter owner X (c.created (c.run api self vm os).1)) (c.run api self vm os).2.2 := by
  cases c with
  | init timeSliceMs queueOk =>
      intro i handle hi
      cases hi
  | cleanup =>
      intro i handle hi
      cases ((v4BackendTaskCleanup_spec vm os).1 i).symm.trans hi
  | spawn w p ds rs paramsOk handle =>
      obtain ⟨e, vm', he, hrun⟩ | ⟨i, new, vm', -, -, -, rfl, hrun⟩ :=
        v4BackendTaskSpawn_cases (Q := Q) w p ds rs paramsOk handle vm
      · simp only [Call.run, hrun, created_refused he]
        exact h
      · simp only [Call.run, hrun, created_served, ownerAfter]
        exact h.insert (hnew w p ds rs paramsOk new rfl) X i
  | send dst ty data =>
      show Known owner (v4BackendTaskSend api self dst ty data os).2
      rw [v4BackendTaskSend]
      split
      · exact h
      · split
        · exact h
        · exact h.withQueue _
  | receive ty =>
      show Known owner (v4BackendTaskReceive api self ty os).2
      rw [v4BackendTaskReceive_eq_take, takeMessage]
      split
      · exact h
      · exact h.withQueue _

end Known

namespace SameStatics

variable {owner owner' : TaskHandle → Option ι} {os os' : Rtos Q}

/-- Another queue with the same messages on both sides. -/
theorem withQueue (h : SameStatics contents A owner owner' os os') {q q' : Option Q}
    (hq : q'.map contents = q.map contents) :
    SameStatics contents A owner owner' { os with msgQueue := q } { os' with msgQueue := q' } :=
  ⟨hq, h.handles, h.known, h.tasks⟩

/-- Another queue with the same messages on the first side. -/
theorem withQueueLeft (h : SameStatics contents A owner owner' os os') {q : Option Q}
    (hq : os.msgQueue.map contents = q.map contents) :
    SameStatics contents A owner owner' { os with msgQueue := q } os' :=
  ⟨h.queue.trans hq, h.handles, h.known, h.tasks⟩

/-- There is a queue in both runs, with the same messages, or in neither. -/
theorem queue_cases (h : SameStatics contents A owner owner' os os') :
    (os.msgQueue = none ∧ os'.msgQueue = none) ∨
    ∃ q q', os.msgQueue = some q ∧ os'.msgQueue = some q' ∧ contents q = contents q' := by
  have hqueue := h.queue
  cases hs : os.msgQueue with
  | none =>
      rw [hs] at hqueue
      exact .inl ⟨rfl, Option.map_eq_none_iff.mp hqueue⟩
  | some q =>
      rw [hs] at hqueue
      obtain ⟨q', ht, hsame⟩ := Option.map_eq_some_iff.mp hqueue
      exact .inr ⟨q, q', rfl, ht, hsame.symm⟩

theorem pending (h : SameStatics contents A owner owner' os os') :
    os'.contents contents = os.contents contents := by
  rw [Rtos.contents, Rtos.contents]
  obtain ⟨hs, ht⟩ | ⟨q, q', hs, ht, hsame⟩ := h.queue_cases
  · rw [hs, ht]
  · rw [hs, ht]
    exact hsame.symm

/-- A caller that is no task of another VM is found in the same slot. -/
theorem current (h : SameStatics contents A owner owner' os os') {self : TaskHandle}
    (hself : ∀ X, owner self = some X → X = A) :
    v4BackendTaskCurrent self os' = v4BackendTaskCurrent self os := by
  have hslot : ∀ i, os'.taskHandles i = some self ↔ os.taskHandles i = some self := by
    intro i
    rw [h.handles]
    refine and_iff_left_of_imp fun hi => ?_
    obtain ⟨X, hX⟩ := Option.ne_none_iff_exists'.mp (h.known i self hi).1
    rw [hX, hself X hX]
  have hfind : (fun i => decide (os'.taskHandles i = some self))
      = fun i => decide (os.taskHandles i = some self) :=
    funext fun i => decide_eq_decide.mpr (hslot i)
  rw [v4BackendTaskCurrent, v4BackendTaskCurrent, hfind]

/-- Slots without a task of `A` are empty in the run of `A` alone. -/
theorem not_mem_of_spares (h : SameStatics contents A owner owner' os os') {i : Fin 8}
    (hspare : Spares A owner os i) (handle : TaskHandle) : os'.taskHandles i ≠ some handle :=
  fun hi => hspare handle ((h.handles i handle).mp hi).1 ((h.handles i handle).mp hi).2

/-- A task created for `A` in both runs. -/
theorem insert (h : SameStatics contents A owner owner' os os') {new : TaskHandle}
    (hnew : os.live new = false) (i : Fin 8) :
    SameStatics contents A (Function.update owner new (some A))
      (Function.update owner' new (some A))
      { os with
        taskHandles := Function.update os.taskHandles i (some new)
        live := Function.update os.live new true }
      { os' with
        taskHandles := Function.update os'.taskHandles i (some new)
        live := Function.update os'.live new true } where
  queue := h.queue
  handles j handle := by
    simp only [Function.update_apply]
    -- Slot `i` holds the new task of `A`; another slot does not hold the new handle.
    by_cases hj : j = i
    · rw [if_pos hj, if_pos hj]
      refine (and_iff_left_of_imp fun heq => ?_).symm
      rw [if_pos (Option.some.inj heq).symm]
    · rw [if_neg hj, if_neg hj, h.handles]
      refine and_congr_right fun hi => ?_
      rw [if_neg (h.known.ne_new hnew hi)]
  known := h.known.insert hnew A i
  tasks handle := by
    simp only [Function.update_apply]
    by_cases hh : handle = new
    · rw [if_pos hh, if_pos hh, if_pos hh, if_pos hh]
    · rw [if_neg hh, if_neg hh, if_neg hh, if_neg hh]
      exact h.tasks handle

/-- A task created for another VM in the first run only. -/
theorem insertOther (h : SameStatics contents A owner owner' os os') {new : TaskHandle}
    (hnew : os.live new = false) {X : ι} (hX : X ≠ A) {i : Fin 8}
    (hspare : Spares A owner os i) :
    SameStatics contents A (Function.update owner new (some X)) owner'
      { os with
        taskHandles := Function.update os.taskHandles i (some new)
        live := Function.update os.live new true } os' where
  queue := h.queue
  handles j handle := by
    simp only [Function.update_apply]
    by_cases hj : j = i
    · -- the slot had no task of `A` before and has none now
      subst hj
      rw [if_pos rfl]
      refine iff_of_false (h.not_mem_of_spares hspare handle) fun ⟨heq, hA⟩ => ?_
      rw [if_pos (Option.some.inj heq).symm] at hA
      exact hX (Option.some.inj hA)
    · rw [if_neg hj, h.handles]
      refine and_congr_right fun hi => ?_
      rw [if_neg (h.known.ne_new hnew hi)]
  known := h.known.insert hnew X i
  tasks handle := by
    simp only [Function.update_apply]
    rw [h.tasks]
    by_cases hh : handle = new
    · -- the handle may have been one of `A` whose task is gone
      rw [if_pos hh, if_pos hh, hh, hnew]
      exact iff_of_false (fun hlive => nomatch hlive.2) fun hA => hX (Option.some.inj hA.1)
    · rw [if_neg hh, if_neg hh]

/-- A send made in both runs. -/
theorem send (hq : api.Bounded 16 contents) (h : SameStatics contents A owner owner' os os')
    {self : TaskHandle} (hself : ∀ X, owner self = some X → X = A) (dst ty : BitVec 8)
    (data : Cell) :
    (v4BackendTaskSend api self dst ty data os').1 = (v4BackendTaskSend api self dst ty data os).1 ∧
    SameStatics contents A owner owner' (v4BackendTaskSend api self dst ty data os).2
      (v4BackendTaskSend api self dst ty data os').2 := by
  have hmsg : outgoing self dst ty data os' = outgoing self dst ty data os := by
    rw [outgoing, outgoing, h.current hself]
  rw [v4BackendTaskSend, v4BackendTaskSend, hmsg]
  by_cases hdst : dst.toNat ≥ 8 ∧ dst ≠ 0xFF
  · rw [if_pos hdst, if_pos hdst]
    exact ⟨rfl, h⟩
  · rw [if_neg hdst, if_neg hdst]
    obtain ⟨hs, ht⟩ | ⟨q, q', hs, ht, hsame⟩ := h.queue_cases
    · rw [hs, ht]
      exact ⟨rfl, h⟩
    · rw [hs, ht]
      obtain ⟨hok, hrest⟩ := hq.send_congr (outgoing self dst ty data os) hsame
      refine ⟨?_, h.withQueue (congrArg some hrest.symm)⟩
      simp only [hok]

/-- A receive made in both runs. -/
theorem receive (hq : api.Bounded 16 contents) (h : SameStatics contents A owner owner' os os')
    {self : TaskHandle} (hself : ∀ X, owner self = some X → X = A) (ty : BitVec 8) :
    (v4BackendTaskReceive api self ty os').1 = (v4BackendTaskReceive api self ty os).1 ∧
    SameStatics contents A owner owner' (v4BackendTaskReceive api self ty os).2
      (v4BackendTaskReceive api self ty os').2 := by
  rw [v4BackendTaskReceive_eq_take, v4BackendTaskReceive_eq_take, h.current hself, takeMessage,
    takeMessage]
  obtain ⟨hs, ht⟩ | ⟨q, q', hs, ht, hsame⟩ := h.queue_cases
  · rw [hs, ht]
    exact ⟨rfl, h⟩
  · rw [hs, ht]
    obtain ⟨hmsg, hrest⟩ := hq.receive_eq q
    obtain ⟨hmsg', hrest'⟩ := hq.receive_eq q'
    refine ⟨?_, h.withQueue (congrArg some ?_)⟩
    · simp only [hmsg, hmsg', hsame]
    · rw [hrest, hrest', hsame]

/-- A cleanup of `A` deletes the tasks of `A` in both runs, and in the first run also
    those of the other VMs. -/
theorem cleanup (h : SameStatics contents A owner owner' os os') (vm : Vm) :
    SameStatics contents A owner owner' (v4BackendTaskCleanup vm os).2.2
      (v4BackendTaskCleanup vm os').2.2 := by
  obtain ⟨hnone, hlive⟩ := v4BackendTaskCleanup_spec vm os
  obtain ⟨hnone', hlive'⟩ := v4BackendTaskCleanup_spec vm os'
  refine ⟨rfl, fun i handle => ?_, fun i handle hi => ?_, fun handle => ?_⟩
  · exact iff_of_false (fun hi => nomatch (hnone' i).symm.trans hi)
      fun hi => nomatch (hnone i).symm.trans hi.1
  · exact nomatch (hnone i).symm.trans hi
  · rw [hlive, hlive']
    -- A task of `A` is in both tables or in neither.
    by_cases hA : owner handle = some A
    · have hmem : (∃ i, os'.taskHandles i = some handle) ↔
          ∃ i, os.taskHandles i = some handle :=
        exists_congr fun i => (h.handles i handle).trans (and_iff_left hA)
      by_cases hgone : ∃ i, os.taskHandles i = some handle
      · rw [if_pos hgone, if_pos (hmem.mpr hgone)]
        exact iff_of_false (fun hl => nomatch hl.2) fun hl => nomatch hl.2
      · rw [if_neg hgone, if_neg (mt hmem.mp hgone)]
        exact h.tasks handle
    · refine iff_of_false (fun hl => hA ?_) fun hl => hA hl.1
      refine ((h.tasks handle).mp ⟨hl.1, ?_⟩).1
      exact (ite_eq_iff.mp hl.2).elim (fun hi => nomatch hi.2) fun hi => hi.2

/-- **A call on `A`** made in both runs. -/
theorem run (hq : api.Bounded 16 contents) (h : SameStatics contents A owner owner' os os')
    {self : TaskHandle} (hself : ∀ X, owner self = some X → X = A) (vm : Vm) (c : Call)
    (hnew : ∀ w p ds rs paramsOk handle, c = .spawn w p ds rs paramsOk (some handle) →
      os.live handle = false) :
    (c.run api self vm os').1 = (c.run api self vm os).1 ∧
    (c.run api self vm os').2.1 = (c.run api self vm os).2.1 ∧
    SameStatics contents A (ownerAfter owner A (c.created (c.run api self vm os).1))
      (ownerAfter owner' A (c.created (c.run api self vm os).1))
      (c.run api self vm os).2.2 (c.run api self vm os').2.2 := by
  cases c with
  | init timeSliceMs queueOk =>
      refine ⟨rfl, rfl, rfl, fun i handle => ?_, nofun, h.tasks⟩
      exact iff_of_false nofun fun hi => nomatch hi.1
  | cleanup => exact ⟨rfl, rfl, h.cleanup vm⟩
  | spawn w p ds rs paramsOk handle =>
      obtain ⟨e, vm', he, hrun⟩ | ⟨i, new, vm', -, -, -, rfl, hrun⟩ :=
        v4BackendTaskSpawn_cases (Q := Q) w p ds rs paramsOk handle vm
      · simp only [Call.run, hrun, created_refused he]
        exact ⟨trivial, trivial, h⟩
      · have hfresh := hnew w p ds rs paramsOk new rfl
        simp only [Call.run, hrun, created_served, ownerAfter]
        exact ⟨trivial, trivial, h.insert hfresh i⟩
  | send dst ty data =>
      obtain ⟨hanswer, hsame⟩ := h.send hq hself dst ty data
      exact ⟨congrArg Answer.code hanswer, rfl, hsame⟩
  | receive ty =>
      obtain ⟨hanswer, hsame⟩ := h.receive hq hself ty
      exact ⟨congrArg Answer.message hanswer, rfl, hsame⟩

/-- **A call on another VM** made in the first run only. -/
theorem harmless (hq : api.Bounded 16 contents) (h : SameStatics contents A owner owner' os os')
    (self : TaskHandle) (vm : Vm) {X : ι} (hX : X ≠ A) (c : Call)
    (hnew : ∀ w p ds rs paramsOk handle, c = .spawn w p ds rs paramsOk (some handle) →
      os.live handle = false)
    (hharm : Harmless contents A owner os vm c) :
    SameStatics contents A (ownerAfter owner X (c.created (c.run api self vm os).1)) owner'
      (c.run api self vm os).2.2 os' := by
  cases c with
  | init timeSliceMs queueOk =>
      obtain ⟨hreplaced, hspare⟩ := hharm
      refine ⟨?_, fun i handle => ?_, nofun, h.tasks⟩
      · rw [h.queue, hreplaced]
        cases queueOk with
        | false => rfl
        | true => exact congrArg some hq.create.symm
      · exact iff_of_false (h.not_mem_of_spares (hspare i) handle) fun hi => nomatch hi.1
  | cleanup =>
      -- it clears a table in which `A` has no task, and there is no queue
      obtain ⟨hnull, hspare⟩ := hharm
      obtain ⟨hnone, hlive⟩ := v4BackendTaskCleanup_spec vm os
      refine ⟨?_, fun i handle => ?_, fun i handle hi => ?_, fun handle => ?_⟩
      · rw [h.queue, Option.isNone_iff_eq_none.mp hnull]
        rfl
      · exact iff_of_false (h.not_mem_of_spares (hspare i) handle)
          fun hi => nomatch (hnone i).symm.trans hi.1
      · exact nomatch (hnone i).symm.trans hi
      · refine (h.tasks handle).trans (and_congr_right fun hA => ?_)
        refine (iff_of_eq (congrArg (· = true) ((hlive handle).trans (if_neg ?_)))).symm
        rintro ⟨i, hi⟩
        exact hspare i handle hi hA
  | spawn w p ds rs paramsOk handle =>
      obtain ⟨e, vm', he, hrun⟩ | ⟨i, new, vm', hw, hok, hfind, rfl, hrun⟩ :=
        v4BackendTaskSpawn_cases (Q := Q) w p ds rs paramsOk handle vm
      · simp only [Call.run, hrun, created_refused he]
        exact h
      · simp only [Call.run, hrun, created_served, ownerAfter]
        exact h.insertOther (hnew w p ds rs paramsOk new rfl) hX (hharm hw hok rfl i hfind)
  | send dst ty data =>
      show SameStatics contents A owner owner' (v4BackendTaskSend api self dst ty data os).2 os'
      rw [v4BackendTaskSend]
      by_cases hdst : dst.toNat ≥ 8 ∧ dst ≠ 0xFF
      · rw [if_pos hdst]
        exact h
      · rw [if_neg hdst]
        cases hs : os.msgQueue with
        | none => exact h
        | some q =>
            -- The target is valid and there is a queue, so it must be full.
            have hfull : 16 ≤ (contents q).length := by
              obtain hbad | hnull | hfull := hharm
              · exact absurd hbad hdst
              · rw [hs] at hnull
                cases hnull
              · rwa [Rtos.contents, hs] at hfull
            refine h.withQueueLeft ?_
            rw [hs]
            exact congrArg some (hq.full _ q hfull).2.symm
  | receive ty =>
      show SameStatics contents A owner owner' (v4BackendTaskReceive api self ty os).2 os'
      rw [v4BackendTaskReceive_eq_take, takeMessage]
      cases hs : os.msgQueue with
      | none => exact h
      | some q =>
          have hempty : contents q = [] := by rwa [Harmless, Rtos.contents, hs] at hharm
          refine h.withQueueLeft ?_
          rw [hs]
          exact congrArg some (hempty.trans (hq.empty q hempty).2.symm)

end SameStatics

/-! ## Whole runs -/

variable [DecidableEq ι]

/-- A call on `A` in both runs keeps the views equal. -/
theorem SameView.keep (hq : api.Bounded 16 contents) {s t s' : World ι Q} {c : ApiCall ι}
    (hc : c.vm = A) (h : SameView contents A s t) (hu : Undisturbed contents A s c)
    (hs : World.step api c s = some s') :
    ∃ t', World.step api c t = some t' ∧ SameView contents A s' t' := by
  subst hc
  cases hs
  obtain ⟨hanswer, hvm, hstatics⟩ :=
    h.statics.run hq (hu.2.1 rfl).1 (s.vms c.vm) c.call hu.1
  refine ⟨_, rfl, ?_, ?_, ?_⟩
  · simp only [Function.update_self]
    rw [h.vm]
    exact hvm
  · simp only [h.vm, hanswer]
    exact hstatics
  · simp only [h.vm, hanswer, h.log, List.filter_append]
    simp

/-- A harmless call on another VM in the first run keeps the views equal. -/
theorem SameView.purge (hq : api.Bounded 16 contents) {s t s' : World ι Q} {c : ApiCall ι}
    (hc : c.vm ≠ A) (h : SameView contents A s t) (hu : Undisturbed contents A s c)
    (hharm : Harmless contents A s.owner s.os (s.vms c.vm) c.call)
    (hs : World.step api c s = some s') : SameView contents A s' t := by
  cases hs
  have hstatics := h.statics.harmless hq c.self (s.vms c.vm) hc c.call hu.1 hharm
  refine ⟨?_, hstatics, ?_⟩
  · simp only [Function.update_of_ne (Ne.symm hc)]
    exact h.vm
  · simp only [h.log, List.filter_append]
    simp [hc]

/-- There was no call on `A`; `t` is the start. -/
structure Unseen (A : ι) (s t : World ι Q) : Prop where
  start : t.AtStart
  untouched : s.Untouched A
  vm : t.vms A = s.vms A
  owner : ∀ handle, s.owner handle ≠ some A
  known : Known s.owner s.os

namespace Unseen

variable {s t s' : World ι Q} {c : ApiCall ι} (h : Unseen A s t)
include h

/-- Any call on another VM leaves it so. -/
theorem purge (hc : c.vm ≠ A) (hu : Undisturbed contents A s c)
    (hs : World.step api c s = some s') : Unseen A s' t := by
  cases hs
  refine ⟨h.start, ?_, ?_, fun handle => ?_, h.known.run api c.self _ c.vm c.call hu.1⟩
  · intro entry hentry
    obtain hold | hnew := List.mem_append.mp hentry
    · exact h.untouched entry hold
    · rw [List.mem_singleton.mp hnew]
      exact hc
  · simp only [Function.update_of_ne (Ne.symm hc)]
    exact h.vm
  · show ownerAfter s.owner c.vm _ handle ≠ some A
    cases c.call.created (c.call.run api c.self (s.vms c.vm) s.os).1 with
    | none => exact h.owner handle
    | some new =>
        rw [ownerAfter, Function.update_apply]
        split
        · exact fun heq => hc (Option.some.inj heq)
        · exact h.owner handle

theorem log_eq : t.log = s.log.filter fun entry => entry.1 = A := by
  rw [h.start.log, List.filter_eq_nil_iff.mpr fun entry hentry => ?_]
  rw [decide_eq_true_eq]
  exact h.untouched entry hentry

omit [DecidableEq ι] in
theorem tasks (handle : TaskHandle) :
    (t.owner handle = some A ∧ t.os.live handle = true) ↔
      (s.owner handle = some A ∧ s.os.live handle = true) := by
  refine iff_of_false (fun ht => ?_) fun hs => h.owner handle hs.1
  rw [h.start.owner] at ht
  cases ht.1

/-- As long as there is no queue `A` cannot tell the difference. -/
theorem sameView (hqueue : s.os.msgQueue = none) : SameView contents A s t where
  vm := h.vm
  statics := by
    refine ⟨?_, fun i handle => ?_, h.known, h.tasks⟩
    · rw [h.start.msgQueue, hqueue]
    · rw [h.start.taskHandles]
      exact iff_of_false nofun fun hi => h.owner handle hi.2
  log := h.log_eq

/-- An initialisation makes the statics of both runs the same. -/
theorem init {ms : BitVec 32} {queueOk : Bool} (hc : c.vm = A) (hcall : c.call = .init ms queueOk)
    (hs : World.step api c s = some s') :
    ∃ t', World.step api c t = some t' ∧ SameView contents A s' t' := by
  obtain ⟨X, self, call⟩ := c
  subst hc hcall
  cases hs
  refine ⟨_, rfl, ?_, ?_, ?_⟩
  · simp only [Function.update_self, h.vm]
    rfl
  · refine ⟨rfl, fun i handle => ?_, nofun, h.tasks⟩
    exact iff_of_false nofun fun hi => nomatch hi.1
  · simp only [h.log_eq, List.filter_append]
    simp [Call.run, v4BackendTaskInit]

end Unseen

/-- What relates the two runs: there was no call on `A`, or the views are the same. -/
def Related (contents : Q → List V4Message) (A : ι) (s t : World ι Q) : Prop :=
  Unseen A s t ∨ ¬ s.Untouched A ∧ SameView contents A s t

/-- A call on `A` touches it. -/
theorem World.step_touches {s s' : World ι Q} {c : ApiCall ι}
    (hs : World.step api c s = some s') : ¬ s'.Untouched c.vm := by
  cases hs
  exact fun h => h _ (List.mem_append_right _ (List.mem_singleton_self _)) rfl

/-- What has been touched stays so. -/
theorem World.step_keeps_touched {s s' : World ι Q} {c : ApiCall ι} (h : ¬ s.Untouched A)
    (hs : World.step api c s = some s') : ¬ s'.Untouched A := by
  cases hs
  exact fun h' => h fun entry hentry => h' entry (List.mem_append_left _ hentry)

theorem Related.keep (hq : api.Bounded 16 contents) {s t s' : World ι Q} {c : ApiCall ι}
    (hc : c.vm = A) (h : Related contents A s t) (hu : Undisturbed contents A s c)
    (hs : World.step api c s = some s') :
    ∃ t', World.step api c t = some t' ∧ Related contents A s' t' := by
  have hsame : ∃ t', World.step api c t = some t' ∧ SameView contents A s' t' := by
    obtain hunseen | ⟨-, hview⟩ := h
    · obtain hqueue | ⟨ms, queueOk, hcall⟩ := (hu.2.1 hc).2 hunseen.untouched
      · exact (hunseen.sameView hqueue).keep hq hc hu hs
      · exact hunseen.init hc hcall hs
    · exact hview.keep hq hc hu hs
  obtain ⟨t', ht, hview⟩ := hsame
  exact ⟨t', ht, .inr ⟨hc ▸ World.step_touches hs, hview⟩⟩

theorem Related.purge (hq : api.Bounded 16 contents) {s t s' : World ι Q} {c : ApiCall ι}
    (hc : c.vm ≠ A) (h : Related contents A s t) (hu : Undisturbed contents A s c)
    (hs : World.step api c s = some s') : Related contents A s' t := by
  obtain hunseen | ⟨htouched, hview⟩ := h
  · exact .inl (hunseen.purge hc hu hs)
  · have hharm := (hu.2.2 hc).resolve_left htouched
    exact .inr ⟨World.step_keeps_touched htouched hs, hview.purge hq hc hu hharm hs⟩

omit [DecidableEq ι] in
/-- At the start there was no call at all. -/
theorem World.AtStart.unseen {w : World ι Q} (h : w.AtStart) : Unseen A w w where
  start := h
  untouched entry hentry := by
    rw [h.log] at hentry
    cases hentry
  vm := rfl
  owner handle := by
    rw [h.owner]
    exact (Option.some_ne_none A).symm
  known i handle hi := by
    rw [h.taskHandles] at hi
    cases hi

/-- **VMs are isolated in an undisturbed run.**  The calls on `A` are answered as in the
    run without the other VMs, which leaves `A`, the pending messages and the live tasks
    of `A` the same.  Before the first call on `A` a queue and its messages are those of
    other VMs. -/
theorem vms_isolated (hq : api.Bounded 16 contents) (A : ι) {w₀ : World ι Q}
    (hstart : w₀.AtStart) {calls : List (ApiCall ι)}
    (hun : Along (World.step api) (Undisturbed contents A) calls w₀) {w : World ι Q}
    (hrun : exec (World.step api) calls w₀ = some w) :
    ∃ w', exec (World.step api) (calls.filter fun c => c.vm = A) w₀ = some w' ∧
      w'.log = w.log.filter (fun entry => entry.1 = A) ∧
      w'.vms A = w.vms A ∧
      ((w.Untouched A → w.os.msgQueue = none) → w'.os.contents contents = w.os.contents contents) ∧
      ∀ handle, (w'.owner handle = some A ∧ w'.os.live handle = true) ↔
        (w.owner handle = some A ∧ w.os.live handle = true) := by
  -- The calls on `A` are made in both runs, the others in the first one only.
  have hkeep : ∀ (c : ApiCall ι) (s t s' : World ι Q), decide (c.vm = A) = true →
      Related contents A s t → Undisturbed contents A s c → World.step api c s = some s' →
      ∃ t', World.step api c t = some t' ∧ Related contents A s' t' :=
    fun c s t s' hc h hu hs => h.keep hq (of_decide_eq_true hc) hu hs
  have hpurge : ∀ (c : ApiCall ι) (s t s' : World ι Q), decide (c.vm = A) = false →
      Related contents A s t → Undisturbed contents A s c → World.step api c s = some s' →
      Related contents A s' t :=
    fun c s t s' hc h hu hs => h.purge hq (of_decide_eq_false hc) hu hs
  obtain ⟨w', hrun', hrelated⟩ := exec_purge hkeep hpurge (.inl hstart.unseen) hun hrun
  refine ⟨w', hrun', ?_⟩
  obtain hunseen | ⟨-, hview⟩ := hrelated
  · refine ⟨hunseen.log_eq, hunseen.vm, fun hqueue => ?_, hunseen.tasks⟩
    exact (hunseen.sameView (hqueue hunseen.untouched)).statics.pending
  · exact ⟨hview.log, hview.vm, fun _ => hview.statics.pending, hview.statics.tasks⟩

/-- Two VMs before their first call. -/
def twoVms : World Bool (List V4Message) where
  vms _ := Vm.blank
  os := { taskHandles := fun _ => none, msgQueue := none, live := fun _ => false }
  owner _ := none
  log := []

/-- The same with a word each. -/
def twoPrograms : World Bool (List V4Message) :=
  { twoVms with vms := fun _ =>
    { Vm.blank with words := fun _ => ⟨some [0x51], 1⟩, wordCount := 1 } }

/-- The other VM has a task and a pending message before the first starts.  Later it creates
    another task, sends to no task, and asks for messages when there are none. -/
def politeCalls : List (ApiCall Bool) :=
  [⟨false, 2, .init 10 true⟩, ⟨false, 2, .spawn 0 1 0 0 true (some 5)⟩, ⟨false, 5, .send 0 7 13⟩,
    ⟨true, 1, .init 20 true⟩, ⟨true, 1, .spawn 0 1 0 0 true (some 6)⟩,
    ⟨false, 5, .spawn 0 1 0 0 true (some 7)⟩, ⟨true, 6, .send 0 7 42⟩, ⟨false, 5, .send 8 7 13⟩,
    ⟨true, 6, .receive 7⟩, ⟨false, 7, .receive 0⟩]

/-- Every call of the other VM that is not refused takes effect, and the first VM receives its
    own message. -/
theorem vms_isolated_polite :
    ∃ w w', exec (World.step (.ofList V4Message 16)) politeCalls twoPrograms = some w ∧
      exec (World.step (.ofList V4Message 16)) (politeCalls.filter fun c => c.vm = true)
        twoPrograms = some w' ∧
      w.log.map Prod.snd = [.code 0, .code 0, .code 0, .code 0, .code 0, .code 1, .code 0,
        .code Err.invalidArg.code, .message (some (42, 0)), .message none] ∧
      w'.log = w.log.filter (fun entry => entry.1 = true) ∧ w'.vms true = w.vms true := by
  have hun : Along (World.step (.ofList V4Message 16)) (Undisturbed id true) politeCalls
      twoPrograms := by
    refine ⟨⟨nofun, nofun, fun _ => .inl (by decide)⟩, ?_⟩
    rintro _ ⟨⟩
    refine ⟨⟨?_, nofun, fun _ => .inl (by decide)⟩, ?_⟩
    · rintro _ _ _ _ _ _ ⟨⟩
      rfl
    rintro _ ⟨⟩
    refine ⟨⟨nofun, nofun, fun _ => .inl (by decide)⟩, ?_⟩
    rintro _ ⟨⟩
    -- the first call on the first VM is an initialisation, and replaces the queue
    refine ⟨⟨nofun, fun _ => ⟨nofun, fun _ => .inr ⟨20, true, rfl⟩⟩, nofun⟩, ?_⟩
    rintro _ ⟨⟩
    refine ⟨⟨?_, fun _ => ⟨nofun, fun h => absurd h (by decide)⟩, nofun⟩, ?_⟩
    · rintro _ _ _ _ _ _ ⟨⟩
      rfl
    rintro _ ⟨⟩
    refine ⟨⟨?_, nofun, fun _ => .inr ?_⟩, ?_⟩
    · rintro _ _ _ _ _ _ ⟨⟩
      rfl
    · -- the other VM counts slot 0 as its own and takes slot 1
      rintro - - - i ⟨⟩
      exact nofun
    rintro _ ⟨⟩
    refine ⟨⟨nofun, fun _ => ⟨?_, fun h => absurd h (by decide)⟩, nofun⟩, ?_⟩
    · rintro X ⟨⟩
      rfl
    rintro _ ⟨⟩
    -- there is no task 8
    refine ⟨⟨nofun, nofun, fun _ => .inr (.inl (by decide))⟩, ?_⟩
    rintro _ ⟨⟩
    refine ⟨⟨nofun, fun _ => ⟨?_, fun h => absurd h (by decide)⟩, nofun⟩, ?_⟩
    · rintro X ⟨⟩
      rfl
    rintro _ ⟨⟩
    exact ⟨⟨nofun, nofun, fun _ => .inr rfl⟩, fun _ _ => trivial⟩
  obtain ⟨w', hrun', hlog, hvm, -⟩ :=
    vms_isolated (FifoApi.ofList_bounded 16) true ⟨fun _ => rfl, rfl, fun _ => rfl, rfl⟩ hun rfl
  exact ⟨_, w', rfl, hrun', by decide, hlog, hvm⟩

/-- The other VM starts after the first has sent itself a message. -/
def lateInit : List (ApiCall Bool) :=
  [⟨true, 1, .init 10 true⟩, ⟨true, 1, .send 0 7 42⟩, ⟨false, 2, .init 10 true⟩,
    ⟨true, 1, .receive 7⟩]

/-- The late init replaces the queue: the receive of the first VM is answered `none`
    instead of the message. -/
theorem late_init_drops_message :
    (exec (World.step (.ofList V4Message 16)) lateInit twoVms).map
        (fun w => w.log.filter fun entry => entry.1 = true)
      ≠ (exec (World.step (.ofList V4Message 16)) (lateInit.filter fun c => c.vm = true)
        twoVms).map World.log := by
  decide

end V4Engine.FreeRtos
