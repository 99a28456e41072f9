/-
  V4Engine.Task.MsgQueue

  The message queue against a bounded FIFO list.

  `V4MsgQueue.contents` is the list a queue stands for, oldest first.  A
  receive removes the first match of that list whatever the counters say.  A
  send appends to it only when its slot is the one behind the pending messages:
  a receive closes its gap by shifting but leaves `write_idx` where it was, so
  after a receive the next send lands one slot too far.  `V4MsgQueue.InPlace`
  is the exact condition on a send.
-/
import V4Engine.Task.Backend
import V4Engine.Lib.Runs

namespace V4Engine

open Lib

namespace V4MsgQueue

/-- The pending messages, oldest first. -/
def contents (q : V4MsgQueue) : List V4Message :=
  ringSeq 16 q.queue q.readIdx.toNat q.count.toNat

/-- The counters are within the ring. -/
structure WF (q : V4MsgQueue) : Prop where
  read : q.readIdx.toNat < 16
  write : q.writeIdx.toNat < 16
  count : q.count.toNat ≤ 16

theorem WF.zero : WF .zero := ⟨by decide, by decide, by decide⟩

@[simp] theorem contents_zero : contents .zero = [] := rfl

@[simp] theorem contents_length (q : V4MsgQueue) : q.contents.length = q.count.toNat :=
  ringSeq_length ..

theorem contents_getElem (q : V4MsgQueue) (i : Nat) (h : i < q.contents.length) :
    q.contents[i] = q.pending i := ringSeq_getElem ..

/-! ## Receiving -/

/-- The search loop finds the first wanted message among those it has left. -/
theorem findFrom_eq (q : V4MsgQueue) (current msgType : BitVec 8) (i k : Nat) :
    q.findFrom current msgType i k
      = (((List.range' i k).map q.pending).findIdx? (V4Message.wanted current msgType)).map
          (i + ·) := by
  induction k generalizing i with
  | zero => rfl
  | succ k ih =>
      rw [findFrom, List.range'_succ, List.map_cons, List.findIdx?_cons]
      by_cases h : (q.pending i).wanted current msgType
      · rw [if_pos h, if_pos h]
        rfl
      · rw [if_neg h, if_neg h, ih, Option.map_map]
        congr 1
        funext j
        simp only [Function.comp_apply]
        omega

/-- A receive looks for the oldest wanted message. -/
theorem findFrom_zero (q : V4MsgQueue) (current msgType : BitVec 8) :
    q.findFrom current msgType 0 q.count.toNat
      = q.contents.findIdx? (V4Message.wanted current msgType) := by
  have hlist : (List.range' 0 q.count.toNat).map q.pending = q.contents := by
    rw [← List.range_eq_range']
    rfl
  rw [findFrom_eq, hlist]
  simp

theorem WF.count_pred {q : V4MsgQueue} (h : 0 < q.count.toNat) :
    (q.count - 1).toNat = q.count.toNat - 1 := by
  rw [BitVec.toNat_sub]
  simp
  omega

/-- Removing the `i`-th message leaves the others in order. -/
theorem contents_removeAt {q : V4MsgQueue} (hq : q.count.toNat ≤ 16) {i : Nat}
    (hi : i < q.count.toNat) :
    (q.removeAt i).contents = q.contents.eraseIdx i := by
  have hcount : (q.count - 1).toNat = q.count.toNat - 1 := WF.count_pred (by omega)
  rw [contents, removeAt, hcount]
  exact ringSeq_shiftDown q.queue q.readIdx.toNat q.count.toNat i hi hq

theorem WF.removeAt {q : V4MsgQueue} (hq : q.WF) {i : Nat} (hi : i < q.count.toNat) :
    (q.removeAt i).WF where
  read := hq.read
  write := hq.write
  count := by
    show (q.count - 1).toNat ≤ 16
    rw [count_pred (by omega)]
    have := hq.count
    omega

/-! ## Sending -/

/-- A send of `msg` appends: its slot follows the pending messages, or that slot
    already holds `msg` and the one overwritten is free or holds `msg` too. -/
def InPlace (q : V4MsgQueue) (msg : V4Message) : Prop :=
  q.writeIdx.toNat = (q.readIdx.toNat + q.count.toNat) % 16 ∨
    (q.pending q.count.toNat = msg ∧
      ∀ i, i < q.count.toNat → (q.readIdx.toNat + i) % 16 = q.writeIdx.toNat →
        q.queue q.writeIdx.toNat = msg)

theorem push_count {q : V4MsgQueue} {msg : V4Message} (h : q.count.toNat < 16) :
    (q.push msg).count.toNat = q.count.toNat + 1 := by
  show (q.count + 1).toNat = _
  rw [BitVec.toNat_add]
  simp
  omega

theorem WF.push {q : V4MsgQueue} (hq : q.WF) {msg : V4Message} (h : q.count.toNat < 16) :
    (q.push msg).WF where
  read := hq.read
  write := by
    show (BitVec.ofNat 8 ((q.writeIdx.toNat + 1) % 16)).toNat < 16
    rw [BitVec.toNat_ofNat]
    omega
  count := by
    rw [push_count h]
    omega

theorem contents_push_eq_append_iff (q : V4MsgQueue) (msg : V4Message) (h : q.count.toNat < 16) :
    (q.push msg).contents = q.contents ++ [msg] ↔ q.InPlace msg := by
  rw [contents, push_count h]
  exact ringSeq_update_eq_append_iff q.queue q.readIdx.toNat q.count.toNat q.writeIdx.toNat msg h

end V4MsgQueue

/-! ## The calls -/

/-- A call, with the value of `current_task` it is made under. -/
inductive QueueOp where
  | send (current dstTask msgType : BitVec 8) (data : Cell)
  | receive (current msgType : BitVec 8)
  deriving DecidableEq, Repr

/-- What a call returns. -/
inductive QueueResult where
  | sent (code : Int)
  | received (msg : Option (Cell × BitVec 8))
  deriving DecidableEq, Repr

/-- `vm->scheduler.current_task = current`. -/
def Vm.withCurrent (vm : Vm) (current : BitVec 8) : Vm :=
  { vm with scheduler := { vm.scheduler with currentTask := current } }

/-- Make the call. -/
def queueCall : QueueOp → Vm → Option (QueueResult × Vm)
  | .send current dstTask msgType data, vm =>
      (v4BackendTaskSend dstTask msgType data (vm.withCurrent current)).map fun r =>
        (.sent r.1, r.2)
  | .receive current msgType, vm =>
      let r := v4BackendTaskReceive msgType (vm.withCurrent current)
      some (.received r.1, r.2)

/-- The same call on a bounded list of pending messages. -/
def fifoCall : QueueOp → List V4Message → QueueResult × List V4Message
  | .send current dstTask msgType data, q =>
      if dstTask.toNat ≥ 8 ∧ dstTask ≠ 0xFF then (.sent Err.invalidArg.code, q)
      else if q.length ≥ 16 then (.sent Err.msgQueueFull.code, q)
      else (.sent 0, q ++ [⟨current, dstTask, msgType, 0, data⟩])
  | .receive current msgType, q =>
      match q.findIdx? (V4Message.wanted current msgType) with
      | some i => (.received (q[i]?.map fun msg => (msg.data, msg.srcTask)), q.eraseIdx i)
      | none => (.received none, q)

/-- Results of a sequence of calls, and the final state. -/
def queueRun : List QueueOp → Vm → Option (List QueueResult × Vm)
  | [], vm => some ([], vm)
  | o :: os, vm => do
      let (r, vm) ← queueCall o vm
      let (rs, vm) ← queueRun os vm
      return (r :: rs, vm)

def fifoRun : List QueueOp → List V4Message → List QueueResult × List V4Message
  | [], q => ([], q)
  | o :: os, q =>
      let (r, q) := fifoCall o q
      let (rs, q) := fifoRun os q
      (r :: rs, q)

/-- The condition on a call: an accepted send is in place. -/
def CallInPlace (vm : Vm) : QueueOp → Prop
  | .send current dstTask msgType data =>
      (dstTask.toNat < 8 ∨ dstTask = 0xFF) → vm.msgQueue.count.toNat < 16 →
        vm.msgQueue.InPlace ⟨current, dstTask, msgType, 0, data⟩
  | .receive _ _ => True

/-- One call, its result dropped. -/
def queueStep (o : QueueOp) (vm : Vm) : Option Vm := (queueCall o vm).map Prod.snd

/-- The run and the list model agree: same results, and the queue ends up
    holding the model's list. -/
def RunMatches (os : List QueueOp) (vm : Vm) : Prop :=
  ∃ rs vm', queueRun os vm = some (rs, vm') ∧
    fifoRun os vm.msgQueue.contents = (rs, vm'.msgQueue.contents)

/-! ## One call -/

/-- What a receive does, in terms of the pending list. -/
theorem v4BackendTaskReceive_cases (vm : Vm) (msgType : BitVec 8) :
    (vm.msgQueue.contents.findIdx? (V4Message.wanted vm.scheduler.currentTask msgType) = none ∧
      v4BackendTaskReceive msgType vm = (none, vm)) ∨
    ∃ i, i < vm.msgQueue.count.toNat ∧
      vm.msgQueue.contents.findIdx? (V4Message.wanted vm.scheduler.currentTask msgType) = some i ∧
      v4BackendTaskReceive msgType vm
        = (some ((vm.msgQueue.pending i).data, (vm.msgQueue.pending i).srcTask),
            { vm with msgQueue := vm.msgQueue.removeAt i }) := by
  have hfind := vm.msgQueue.findFrom_zero vm.scheduler.currentTask msgType
  rw [v4BackendTaskReceive]
  cases h : vm.msgQueue.contents.findIdx?
      (V4Message.wanted vm.scheduler.currentTask msgType) with
  | none =>
      rw [h] at hfind
      simp only [hfind]
      exact .inl ⟨trivial, trivial⟩
  | some i =>
      rw [h] at hfind
      simp only [hfind]
      obtain ⟨hi, -, -⟩ := List.findIdx?_eq_some_iff_getElem.mp h
      exact .inr ⟨i, by simpa using hi, rfl, rfl⟩

/-- What a send does: the two refusals, and the push. -/
theorem v4BackendTaskSend_cases (vm : Vm) (hq : vm.msgQueue.writeIdx.toNat < 16)
    (dstTask msgType : BitVec 8) (data : Cell) :
    ((dstTask.toNat ≥ 8 ∧ dstTask ≠ 0xFF) ∧
      v4BackendTaskSend dstTask msgType data vm = some (Err.invalidArg.code, vm)) ∨
    (¬ (dstTask.toNat ≥ 8 ∧ dstTask ≠ 0xFF) ∧ vm.msgQueue.count.toNat ≥ 16 ∧
      v4BackendTaskSend dstTask msgType data vm = some (Err.msgQueueFull.code, vm)) ∨
    (¬ (dstTask.toNat ≥ 8 ∧ dstTask ≠ 0xFF) ∧ vm.msgQueue.count.toNat < 16 ∧
      v4BackendTaskSend dstTask msgType data vm
        = some (0,
            { vm with msgQueue := vm.msgQueue.push (outgoing vm dstTask msgType data) })) := by
  unfold v4BackendTaskSend
  by_cases hdst : dstTask.toNat ≥ 8 ∧ dstTask ≠ 0xFF
  · exact .inl ⟨hdst, if_pos hdst⟩
  · by_cases hfull : vm.msgQueue.count.toNat ≥ 16
    · exact .inr (.inl ⟨hdst, hfull, by rw [if_neg hdst, if_pos hfull]⟩)
    · exact .inr (.inr ⟨hdst, by omega, by rw [if_neg hdst, if_neg hfull, if_pos hq]⟩)

/-- A call's `current_task` is the value it was made under. -/
theorem Vm.findIdx?_withCurrent {vm : Vm} {current msgType : BitVec 8} {r : Option Nat}
    (h : (vm.withCurrent current).msgQueue.contents.findIdx?
      (V4Message.wanted (vm.withCurrent current).scheduler.currentTask msgType) = r) :
    vm.msgQueue.contents.findIdx? (V4Message.wanted current msgType) = r := h

/-- A receive does what the list model does. -/
theorem receive_eq_fifo {vm : Vm} (hq : vm.msgQueue.WF) (current msgType : BitVec 8) :
    ∃ r vm', queueCall (.receive current msgType) vm = some (r, vm') ∧ vm'.msgQueue.WF ∧
      fifoCall (.receive current msgType) vm.msgQueue.contents = (r, vm'.msgQueue.contents) := by
  obtain ⟨hnone, h⟩ | ⟨i, hi, hsome, h⟩ :=
    v4BackendTaskReceive_cases (vm.withCurrent current) msgType
  · refine ⟨.received none, vm.withCurrent current, by rw [queueCall, h], hq, ?_⟩
    rw [fifoCall, Vm.findIdx?_withCurrent hnone]
    rfl
  · refine ⟨_, _, by rw [queueCall, h], hq.removeAt hi, ?_⟩
    have hlen : i < vm.msgQueue.contents.length := vm.msgQueue.contents_length ▸ hi
    rw [fifoCall, Vm.findIdx?_withCurrent hsome]
    simp only [List.getElem?_eq_getElem hlen, V4MsgQueue.contents_getElem]
    exact Prod.ext rfl (V4MsgQueue.contents_removeAt hq.count hi).symm

/-- A send does what the list model does exactly when it is in place. -/
theorem send_eq_fifo_iff {vm : Vm} (hq : vm.msgQueue.WF) (current dstTask msgType : BitVec 8)
    (data : Cell) :
    ∃ r vm', queueCall (.send current dstTask msgType data) vm = some (r, vm') ∧
      vm'.msgQueue.WF ∧
      (fifoCall (.send current dstTask msgType data) vm.msgQueue.contents
          = (r, vm'.msgQueue.contents) ↔
        CallInPlace vm (.send current dstTask msgType data)) := by
  obtain ⟨hdst, h⟩ | ⟨hdst, hfull, h⟩ | ⟨hdst, hroom, h⟩ :=
    v4BackendTaskSend_cases (vm.withCurrent current) hq.write dstTask msgType data
  · -- no such destination: both refuse the message before they look at the room
    refine ⟨_, vm.withCurrent current, by rw [queueCall, h]; rfl, hq, iff_of_true ?_ ?_⟩
    · rw [fifoCall, if_pos hdst]
      rfl
    · intro haccept
      exact absurd hdst (by simpa [imp_iff_not_or] using haccept)
  · -- the queue is full: nothing changes
    have hfull' : vm.msgQueue.count.toNat ≥ 16 := hfull
    refine ⟨_, vm.withCurrent current, by rw [queueCall, h]; rfl, hq, iff_of_true ?_ ?_⟩
    · rw [fifoCall, if_neg hdst, V4MsgQueue.contents_length, if_pos hfull']
      rfl
    · intro _ hroom
      omega
  · -- accepted: the answer is right when the message lands behind the last one
    have hroom' : vm.msgQueue.count.toNat < 16 := hroom
    refine ⟨_, _, by rw [queueCall, h]; rfl, hq.push hroom, ?_⟩
    rw [fifoCall, if_neg hdst, V4MsgQueue.contents_length, if_neg (by omega), Prod.mk.injEq]
    have hpush := vm.msgQueue.contents_push_eq_append_iff
      (outgoing (vm.withCurrent current) dstTask msgType data) hroom'
    constructor
    · intro heq _ _
      exact hpush.mp heq.2.symm
    · intro hplace
      refine ⟨rfl, (hpush.mpr (hplace ?_ hroom')).symm⟩
      by_cases h8 : dstTask.toNat < 8
      · exact .inl h8
      · exact .inr (not_not.mp fun hne => hdst ⟨by omega, hne⟩)

/-- **One call.**  It is defined, keeps the counters within the ring, and agrees
    with the list model exactly when it is in place. -/
theorem queueCall_eq_fifo_iff {vm : Vm} (hq : vm.msgQueue.WF) (o : QueueOp) :
    ∃ r vm', queueCall o vm = some (r, vm') ∧ vm'.msgQueue.WF ∧
      (fifoCall o vm.msgQueue.contents = (r, vm'.msgQueue.contents) ↔ CallInPlace vm o) := by
  cases o with
  | send current dstTask msgType data => exact send_eq_fifo_iff hq current dstTask msgType data
  | receive current msgType =>
      obtain ⟨r, vm', h, hwf, heq⟩ := receive_eq_fifo hq current msgType
      exact ⟨r, vm', h, hwf, iff_of_true heq trivial⟩

/-! ## Runs -/

theorem runMatches_nil (vm : Vm) : RunMatches [] vm := ⟨[], vm, rfl, rfl⟩

/-- A run agrees with the list model call by call. -/
theorem runMatches_cons_iff {vm vm' : Vm} {o : QueueOp} {os : List QueueOp} {r : QueueResult}
    (h : queueCall o vm = some (r, vm'))
    (heq : fifoCall o vm.msgQueue.contents = (r, vm'.msgQueue.contents)) :
    RunMatches (o :: os) vm ↔ RunMatches os vm' := by
  constructor
  · rintro ⟨rs, vm'', hrun, hfifo⟩
    simp only [queueRun, h, Option.bind_eq_bind, Option.bind_some] at hrun
    obtain ⟨⟨rs', w⟩, hrest, hpure⟩ := Option.bind_eq_some_iff.mp hrun
    cases hpure
    simp only [fifoRun, heq, Prod.mk.injEq, List.cons.injEq, true_and] at hfifo
    exact ⟨rs', w, hrest, Prod.ext hfifo.1 hfifo.2⟩
  · rintro ⟨rs, vm'', hrun, hfifo⟩
    refine ⟨r :: rs, vm'', ?_, ?_⟩
    · simp only [queueRun, h, Option.bind_eq_bind, Option.bind_some, hrun]
      rfl
    · simp only [fifoRun, heq, hfifo]

theorem queueStep_eq {vm vm' : Vm} {o : QueueOp} {r : QueueResult}
    (h : queueCall o vm = some (r, vm')) : queueStep o vm = some vm' := by
  rw [queueStep, h]
  rfl

/-- **Runs.**  From a well-formed queue, every prefix of a run agrees with the
    list model exactly when every call of the run is in place. -/
theorem prefixes_match_iff (vm : Vm) (hq : vm.msgQueue.WF) (os : List QueueOp) :
    (∀ pre, pre <+: os → RunMatches pre vm) ↔ Along queueStep CallInPlace os vm := by
  induction os generalizing vm with
  | nil =>
      refine iff_of_true (fun pre hpre => ?_) trivial
      rw [List.prefix_nil.mp hpre]
      exact runMatches_nil vm
  | cons o os ih =>
      obtain ⟨r, vm', h, hwf, hiff⟩ := queueCall_eq_fifo_iff hq o
      constructor
      · intro hpre
        -- The prefix of length one pins down the result and content of this call.
        obtain ⟨rs, w, hrun, hfifo⟩ := hpre [o] ⟨os, rfl⟩
        have heq : fifoCall o vm.msgQueue.contents = (r, vm'.msgQueue.contents) := by
          simp only [queueRun, h, Option.bind_eq_bind, Option.bind_some, Option.pure_def,
            Option.some.injEq, Prod.mk.injEq] at hrun
          obtain ⟨rfl, rfl⟩ := hrun
          simp only [fifoRun, Prod.mk.injEq, List.cons.injEq, and_true] at hfifo
          exact Prod.ext hfifo.1 hfifo.2
        refine ⟨hiff.mp heq, fun v hv => ?_⟩
        obtain rfl : vm' = v := Option.some.inj ((queueStep_eq h).symm.trans hv)
        refine (ih vm' hwf).mp fun pre hp => (runMatches_cons_iff h heq).mp (hpre (o :: pre) ?_)
        exact List.cons_prefix_cons.mpr ⟨rfl, hp⟩
      · rintro ⟨hplace, hrest⟩ pre hpre
        have heq := hiff.mpr hplace
        cases pre with
        | nil => exact runMatches_nil vm
        | cons o' pre =>
            obtain ⟨rfl, hp⟩ := List.cons_prefix_cons.mp hpre
            refine (runMatches_cons_iff h heq).mpr ?_
            exact (ih vm' hwf).mpr (hrest vm' (queueStep_eq h)) pre hp

/-- The queue after `vm_task_init` against the empty list. -/
theorem queue_refines_fifo_iff (timeSliceMs : BitVec 32) (vm : Vm) (os : List QueueOp) :
    (∀ pre, pre <+: os → ∃ rs vm',
        queueRun pre (v4BackendTaskInit timeSliceMs vm) = some (rs, vm') ∧
        fifoRun pre [] = (rs, vm'.msgQueue.contents)) ↔
      Along queueStep CallInPlace os (v4BackendTaskInit timeSliceMs vm) :=
  prefixes_match_iff (v4BackendTaskInit timeSliceMs vm) .zero os

/-- Send `11`, receive it, send `22`: the next receive delivers `11` again. -/
theorem queue_redelivers :
    let os : List QueueOp := [.send 0 0 1 11, .receive 0 0, .send 0 0 1 22, .receive 0 0]
    (queueRun os (v4BackendTaskInit 10 .blank)).map Prod.fst
        = some [.sent 0, .received (some (11, 0)), .sent 0, .received (some (11, 0))] ∧
      (fifoRun os []).1
        = [.sent 0, .received (some (11, 0)), .sent 0, .received (some (22, 0))] := by
  decide

end V4Engine
