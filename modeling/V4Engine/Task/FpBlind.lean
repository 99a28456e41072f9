/-
  V4Engine.Task.FpBlind

  The task backend does not know about frames of local variables.

  No function of the backend reads or writes `vm->fp`: called on a VM with
  another frame pointer it does the same and leaves that pointer where it was.
-/
import V4Engine.Task.Backend

namespace V4Engine

open Lib

/-- The VM with another frame pointer. -/
def Vm.setFp (vm : Vm) (fp : Option Nat) : Vm := { vm with fp := fp }

/-- `f` neither reads nor writes the frame pointer. -/
def IgnoresFp (f : Vm → Option Vm) : Prop :=
  ∀ vm fp, f (vm.setFp fp) = (f vm).map (·.setFp fp)

/-! ## Combinators -/

namespace IgnoresFp

variable {f g : Vm → Option Vm}

theorem bind (hf : IgnoresFp f) (hg : IgnoresFp g) : IgnoresFp fun vm => (f vm).bind g := by
  intro vm fp
  show (f (vm.setFp fp)).bind g = ((f vm).bind g).map _
  rw [hf]
  cases f vm with
  | none => rfl
  | some w => exact hg w fp

/-- A choice that does not look at the frame pointer. -/
theorem ite {c : Vm → Prop} [DecidablePred c] (hc : ∀ vm fp, c (vm.setFp fp) ↔ c vm)
    (hf : IgnoresFp f) (hg : IgnoresFp g) : IgnoresFp fun vm => if c vm then f vm else g vm := by
  intro vm fp
  show (if c (vm.setFp fp) then _ else _) = (if c vm then f vm else g vm).map _
  by_cases h : c vm
  · rw [if_pos h, if_pos ((hc vm fp).mpr h), hf]
  · rw [if_neg h, if_neg fun h' => h ((hc vm fp).mp h'), hg]

/-- An index computed without the frame pointer. -/
theorem taskPtr {i : Vm → BitVec 8} {k : Vm → Fin 8 → Option Vm}
    (hi : ∀ vm fp, i (vm.setFp fp) = i vm) (hk : ∀ cur, IgnoresFp fun vm => k vm cur) :
    IgnoresFp fun vm => (Vm.taskPtr (i vm)).bind (k vm) := by
  intro vm fp
  show (Vm.taskPtr (i (vm.setFp fp))).bind _ = ((Vm.taskPtr (i vm)).bind (k vm)).map _
  rw [hi]
  cases Vm.taskPtr (i vm) with
  | none => rfl
  | some cur => exact hk cur vm fp

theorem map {u : Vm → Vm} (hf : IgnoresFp f) (hu : ∀ vm fp, u (vm.setFp fp) = (u vm).setFp fp) :
    IgnoresFp fun vm => (f vm).map u := by
  intro vm fp
  show (f (vm.setFp fp)).map u = ((f vm).map u).map _
  rw [hf, Option.map_map, Option.map_map]
  exact congrArg (Option.map · (f vm)) (funext fun w => hu w fp)

/-- An update that leaves the frame pointer alone, and then `f`. -/
theorem after {u : Vm → Vm} (hf : IgnoresFp f) (hu : ∀ vm fp, u (vm.setFp fp) = (u vm).setFp fp) :
    IgnoresFp fun vm => f (u vm) := by
  intro vm fp
  show f (u (vm.setFp fp)) = (f (u vm)).map _
  rw [hu, hf]

end IgnoresFp

/-! ## The backend -/

theorem saveContext_ignoresFp (i : Fin 8) : IgnoresFp fun vm => v4TaskSaveContext vm i :=
  .ite (fun _ _ => Iff.rfl) (fun _ _ => rfl) (fun _ _ => rfl)

theorem restoreContext_ignoresFp (i : Fin 8) : IgnoresFp fun vm => v4TaskRestoreContext vm i :=
  .ite (fun _ _ => Iff.rfl) (fun _ _ => rfl) (fun _ _ => rfl)

theorem parkCurrent_ignoresFp (cur : Fin 8) : IgnoresFp fun vm => parkCurrent vm cur :=
  .ite (fun _ _ => Iff.rfl) ((saveContext_ignoresFp cur).map fun _ _ => rfl) (fun _ _ => rfl)

theorem switchTo_ignoresFp (next : Fin 8) : IgnoresFp fun vm => switchTo vm next :=
  (restoreContext_ignoresFp next).map fun _ _ => rfl

theorem vmSchedule_ignoresFp (tick : BitVec 32) : IgnoresFp (vmSchedule tick) := by
  refine .taskPtr (i := fun vm => vm.scheduler.currentTask) (fun _ _ => rfl) fun cur => ?_
  refine .bind (parkCurrent_ignoresFp cur) ?_
  -- What follows the selection works on the VM with its sleepers woken.
  refine .ite (fun _ _ => Iff.rfl) (fun _ _ => rfl) ?_
  refine .taskPtr (i := fun vm => (v4TaskSelectNext tick vm).1) (fun _ _ => rfl) fun next => ?_
  exact (switchTo_ignoresFp next).after fun _ _ => rfl

theorem v4BackendTaskExit_ignoresFp (tick : BitVec 32) : IgnoresFp (v4BackendTaskExit tick) :=
  .taskPtr (i := fun vm => vm.scheduler.currentTask) (fun _ _ => rfl) fun _ =>
    (vmSchedule_ignoresFp tick).after fun _ _ => rfl

theorem v4BackendTaskSleep_ignoresFp (msDelay tick tick' : BitVec 32) :
    IgnoresFp (v4BackendTaskSleep msDelay tick tick') :=
  .taskPtr (i := fun vm => vm.scheduler.currentTask) (fun _ _ => rfl) fun _ =>
    (vmSchedule_ignoresFp tick').after fun _ _ => rfl

theorem vmTaskCriticalExit_setFp (vm : Vm) (fp : Option Nat) :
    vmTaskCriticalExit (vm.setFp fp) = Prod.map id (·.setFp fp) (vmTaskCriticalExit vm) := by
  have hnesting : (vm.setFp fp).scheduler = vm.scheduler := rfl
  unfold vmTaskCriticalExit
  rw [hnesting]
  split <;> rfl

theorem v4BackendTaskSpawn_setFp (wordIdx : BitVec 16) (priority : BitVec 8)
    (dsSize rsSize : BitVec 16) (dsOk rsOk : Bool) (vm : Vm) (fp : Option Nat) :
    v4BackendTaskSpawn wordIdx priority dsSize rsSize dsOk rsOk (vm.setFp fp) =
      Prod.map id (·.setFp fp)
        (v4BackendTaskSpawn wordIdx priority dsSize rsSize dsOk rsOk vm) := by
  have hdead : findDead (vm.setFp fp) = findDead vm := rfl
  have hwords : (vm.setFp fp).wordCount = vm.wordCount := rfl
  unfold v4BackendTaskSpawn
  rw [hdead, hwords]
  by_cases hw : wordIdx.toNat ≥ vm.wordCount
  · rw [if_pos hw, if_pos hw]
    rfl
  · rw [if_neg hw, if_neg hw]
    cases findDead vm with
    | none => rfl
    | some i =>
        show spawnInto (vm.setFp fp) i _ _ _ _ _ _ = Prod.map id _ (spawnInto vm i _ _ _ _ _ _)
        unfold spawnInto
        rw [apply_ite (Prod.map id _)]
        rfl

theorem v4BackendTaskSend_setFp (dst msgType : BitVec 8) (data : Cell) (vm : Vm)
    (fp : Option Nat) :
    v4BackendTaskSend dst msgType data (vm.setFp fp) =
      (v4BackendTaskSend dst msgType data vm).map (Prod.map id (·.setFp fp)) := by
  have hqueue : (vm.setFp fp).msgQueue = vm.msgQueue := rfl
  unfold v4BackendTaskSend
  rw [hqueue]
  split
  · rfl
  · split
    · rfl
    · split <;> rfl

theorem v4BackendTaskReceive_setFp (msgType : BitVec 8) (vm : Vm) (fp : Option Nat) :
    v4BackendTaskReceive msgType (vm.setFp fp) =
      Prod.map id (·.setFp fp) (v4BackendTaskReceive msgType vm) := by
  have hqueue : (vm.setFp fp).msgQueue = vm.msgQueue := rfl
  have hsched : (vm.setFp fp).scheduler = vm.scheduler := rfl
  simp only [v4BackendTaskReceive, hqueue, hsched]
  cases vm.msgQueue.findFrom vm.scheduler.currentTask msgType 0 vm.msgQueue.count.toNat <;> rfl

theorem receiveBlockingPoll_setFp (tick : Nat → BitVec 32) (msgType : BitVec 8)
    (timeoutMs start : BitVec 32) (n : Nat) (vm : Vm) (fp : Option Nat) :
    receiveBlockingPoll tick msgType timeoutMs start n (vm.setFp fp) =
      (receiveBlockingPoll tick msgType timeoutMs start n vm).map
        (Prod.map id (Prod.map id (·.setFp fp))) := by
  unfold receiveBlockingPoll
  rw [v4BackendTaskReceive_setFp]
  obtain ⟨r, w⟩ := v4BackendTaskReceive msgType vm
  cases r with
  | some r => rfl
  | none =>
      show (if _ then _ else Option.map _ (v4BackendTaskSleep 10 _ _ (w.setFp fp))) =
        (if _ then _ else Option.map _ (v4BackendTaskSleep 10 _ _ w)).map _
      split
      · rfl
      · rw [v4BackendTaskSleep_ignoresFp, Option.map_map, Option.map_map]
        rfl

end V4Engine
