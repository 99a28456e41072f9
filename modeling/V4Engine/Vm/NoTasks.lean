/-
  V4Engine.Vm.NoTasks

  The build without tasks (`V4_ENABLE_TASKS=OFF`).

  The task opcodes are left out of the `switch`, so that they fall through to
  its `default` label, and the task API is a row of stubs; the VM keeps its
  layout, so it still has a scheduler, a message queue and room for tasks.

  Such a build runs as the full build does as long as no task opcode comes up,
  and stops before the first one that does (`NoTasks.returns_iff`).  What it
  never does is to touch the scheduler (`NoTasks.session_keeps_tasks`).
-/
import V4Engine.Vm.Transparent
import V4Engine.Vm.FrameRules
import V4Engine.Lib.Iterate

namespace V4Engine

open Lib FaultM VmM

variable {W : Type}

namespace NoTasks

/-! ## The interpreter -/

/-- A task opcode has no `case` of its own. -/
def execOp (H : Host W) (a : Activation) (ip : Nat) (op : Op) : VmM W Flow :=
  if op.isTask then vmPanic H Err.unknownOp.code else V4Engine.execOp H a ip op

def execInstr (H : Host W) (a : Activation) : VmM W Flow := do
  let b ← codeByte a a.ip
  match Op.ofByte b with
  | none => vmPanic H Err.unknownOp.code
  | some op => execOp H a (a.ip + 1) op

def fetch (H : Host W) (cur : Activation) : VmM W Flow :=
  if cur.ip < cur.len then execInstr H cur else vmPanic H Err.fellOffEnd.code

/-- Only the instructions differ from those of the full build. -/
def step (H : Host W) : Config W → Option (Config W)
  | .run m cur callers => some (settle cur callers (fetch H cur m))
  | .poll w m cur callers => V4Engine.step H (.poll w m cur callers)
  | .ret e m callers => V4Engine.step H (.ret e m callers)
  | .fault => none

def Step (H : Host W) (c c' : Config W) : Prop := step H c = some c'

abbrev Reaches (H : Host W) : Config W → Config W → Prop := Relation.ReflTransGen (Step H)

/-- `vm_exec_raw` of this build returns `e`, leaving machine `m'`. -/
def Returns (H : Host W) (m : Machine W) (bc : List Byte) (len : Nat) (e : V4Err)
    (m' : Machine W) : Prop := Reaches H (.start m bc len) (.ret e m' [])

/-! ## The task API -/

/-- What every stub answers, whatever its other arguments. -/
def unavailable (vm : Option Vm) : V4Err :=
  if vm.isSome then Err.unknownOp.code else Err.invalidArg.code

def vmTaskInit (vm : Option Vm) (_ : BitVec 32) : V4Err := unavailable vm

def vmSchedule (vm : Option Vm) : V4Err := unavailable vm

def vmScheduleFromIsr (vm : Option Vm) : V4Err := unavailable vm

def vmTaskCleanup (vm : Option Vm) : V4Err := unavailable vm

def vmTaskSpawn (vm : Option Vm) (_ : BitVec 16) (_ : BitVec 8) (_ _ : BitVec 16) : V4Err :=
  unavailable vm

def vmTaskExit (vm : Option Vm) : V4Err := unavailable vm

def vmTaskSleep (vm : Option Vm) (_ : BitVec 32) : V4Err := unavailable vm

def vmTaskYield (vm : Option Vm) : V4Err := unavailable vm

def vmTaskCriticalEnter (vm : Option Vm) : V4Err := unavailable vm

def vmTaskCriticalExit (vm : Option Vm) : V4Err := unavailable vm

def vmTaskSelf (vm : Option Vm) : V4Err := unavailable vm

/-- The output pointers are not looked at. -/
def vmTaskGetInfo (vm : Option Vm) (_ : BitVec 8) : V4Err := unavailable vm

def vmTaskSend (vm : Option Vm) (_ _ : BitVec 8) (_ : Cell) : V4Err := unavailable vm

def vmTaskReceive (vm : Option Vm) (_ : BitVec 8) : V4Err := unavailable vm

def vmTaskReceiveBlocking (vm : Option Vm) (_ : BitVec 8) (_ : BitVec 32) : V4Err :=
  unavailable vm

/-- The calls a program can make to the task API. -/
inductive TaskCall where
  | init (timeSliceMs : BitVec 32)
  | schedule
  | scheduleFromIsr
  | cleanup
  | spawn (wordIdx : BitVec 16) (priority : BitVec 8) (dsSize rsSize : BitVec 16)
  | exit
  | sleep (ms : BitVec 32)
  | yield
  | criticalEnter
  | criticalExit
  | self
  | getInfo (taskId : BitVec 8)
  | send (dstTask msgType : BitVec 8) (data : Cell)
  | receive (msgType : BitVec 8)
  | receiveBlocking (msgType : BitVec 8) (timeoutMs : BitVec 32)

def TaskCall.run : TaskCall → Option Vm → V4Err
  | .init ms, vm => vmTaskInit vm ms
  | .schedule, vm => vmSchedule vm
  | .scheduleFromIsr, vm => vmScheduleFromIsr vm
  | .cleanup, vm => vmTaskCleanup vm
  | .spawn w p ds rs, vm => vmTaskSpawn vm w p ds rs
  | .exit, vm => vmTaskExit vm
  | .sleep ms, vm => vmTaskSleep vm ms
  | .yield, vm => vmTaskYield vm
  | .criticalEnter, vm => vmTaskCriticalEnter vm
  | .criticalExit, vm => vmTaskCriticalExit vm
  | .self, vm => vmTaskSelf vm
  | .getInfo i, vm => vmTaskGetInfo vm i
  | .send dst t data, vm => vmTaskSend vm dst t data
  | .receive t, vm => vmTaskReceive vm t
  | .receiveBlocking t ms, vm => vmTaskReceiveBlocking vm t ms

/-! ## One instruction -/

section

variable {H : Host W} {a : Activation}

/-- Without a task opcode the instruction is that of the full build. -/
theorem fetch_plain (hop : ∀ op, a.nextOp = some op → op.isTask = false) (m : Machine W) :
    fetch H a m = V4Engine.fetch H a m := by
  unfold fetch V4Engine.fetch
  by_cases hlt : a.ip < a.len
  · rw [if_pos hlt, if_pos hlt, execInstr, V4Engine.execInstr]
    cases hb : a.bc[a.ip]? with
    | none =>
        have hbyte : codeByte a a.ip m = .fault := by
          rw [codeByte, hb]
          rfl
        rw [bind_fault hbyte, bind_fault hbyte]
    | some b =>
        have hbyte : codeByte a a.ip m = .ok b m := by
          rw [codeByte, hb]
          rfl
        rw [bind_ok hbyte, bind_ok hbyte]
        cases hdec : Op.ofByte b with
        | none => rfl
        | some op =>
            have hplain := hop op (Activation.nextOp_eq hlt hb hdec)
            show execOp H a (a.ip + 1) op m = _
            rw [execOp, hplain]
            rfl
  · rw [if_neg hlt, if_neg hlt]

/-- A task opcode is unknown, and nothing has happened by then. -/
theorem fetch_task {op : Op} (hop : a.nextOp = some op) (htask : op.isTask = true) (m : Machine W) :
    fetch H a m = vmPanic H Err.unknownOp.code m := by
  unfold Activation.nextOp at hop
  by_cases hlt : a.ip < a.len
  · rw [if_pos hlt] at hop
    obtain ⟨b, hb, hdec⟩ := Option.bind_eq_some_iff.mp hop
    have hbyte : codeByte a a.ip m = .ok b m := by
      rw [codeByte, hb]
      rfl
    rw [fetch, if_pos hlt, execInstr, bind_ok hbyte, hdec]
    show execOp H a (a.ip + 1) op m = _
    rw [execOp, if_pos htask]
  · rw [if_neg hlt] at hop
    cases hop

end

/-! ## Runs -/

/-- A run of the full build on which no task opcode is executed. -/
abbrev Tame (H : Host W) : Config W → Config W → Prop :=
  Relation.ReflTransGen fun c d => c.NoTask ∧ V4Engine.step H c = some d

/-- The next instruction is a task opcode. -/
def AtTask (a : Activation) : Prop := ∃ op, a.nextOp = some op ∧ op.isTask = true

/-- The machine once an error has been handed through all callers: each of them puts its
    frame pointer back. -/
def unwound (m : Machine W) : List Caller → Machine W
  | [] => m
  | x :: cs => unwound (m.setFp x.oldFp) cs

/-- The run goes on for ever. -/
def Diverges (H : Host W) (c : Config W) : Prop := ∀ d, Reaches H c d → ∃ d', Step H d d'

section

variable {H : Host W} {c d : Config W} {m : Machine W} {cur : Activation} {cs : List Caller}

theorem not_noTask_run : ¬ (Config.run m cur cs).NoTask ↔ AtTask cur := by
  constructor
  · intro h
    by_contra hat
    refine h fun op hop => ?_
    cases ht : op.isTask with
    | false => rfl
    | true => exact absurd ⟨op, hop, ht⟩ hat
  · rintro ⟨op, hop, ht⟩ h
    rw [h op hop] at ht
    cases ht

/-- The two builds agree as long as no task opcode comes up. -/
theorem step_plain (hc : c.NoTask) : step H c = V4Engine.step H c := by
  cases c with
  | run m cur cs =>
      show some (settle cur cs (fetch H cur m)) = some (settle cur cs (V4Engine.fetch H cur m))
      rw [fetch_plain hc]
  | poll w m cur cs => exact hc.elim
  | ret e m cs => rfl
  | fault => rfl

/-- At a task opcode the run fails, or faults on the snapshot of a broken stack. -/
theorem step_task (m : Machine W) (cs : List Caller) (hat : AtTask cur) : step H (.run m cur cs) =
    some (match panicInfo m.vm Err.unknownOp.code with
      | none => .fault
      | some info => .ret Err.unknownOp.code (m.notified H info) cs) := by
  obtain ⟨op, hop, htask⟩ := hat
  rw [step, fetch_task hop htask, vmPanic_run]
  cases panicInfo m.vm Err.unknownOp.code <;> rfl

/-- Polling inside a blocking receive. -/
def Polling : Config W → Prop
  | .poll _ _ _ _ => True
  | _ => False

/-- A blocking receive is never begun. -/
theorem step_not_polling (hc : ¬ Polling c) (hs : Step H c d) : ¬ Polling d := by
  cases c with
  | run m cur cs =>
      by_cases hplain : (Config.run m cur cs).NoTask
      · obtain rfl : settle cur cs (V4Engine.fetch H cur m) = d :=
          Option.some.inj ((step_plain hplain).symm.trans hs)
        have hleaves := fetch_leaves (H := H) cur m trivial
        cases hr : V4Engine.fetch H cur m with
        | ok f m' =>
            rw [hr] at hleaves
            cases f with
            | wait w ip => exact absurd (hplain _ hleaves.2.1) (by decide)
            | _ => exact id
        | err e m' => exact id
        | fault => exact id
      · have htask := step_task (H := H) m cs (not_noTask_run.mp hplain)
        obtain rfl := Option.some.inj (htask.symm.trans hs)
        cases panicInfo m.vm Err.unknownOp.code <;> exact id
  | poll w m cur cs => exact absurd trivial hc
  | ret e m cs =>
      cases cs with
      | nil => cases hs
      | cons x cs =>
          by_cases he : e = 0
          · obtain rfl := Option.some.inj ((if_pos he).symm.trans hs)
            exact id
          · obtain rfl := Option.some.inj ((if_neg he).symm.trans hs)
            exact id
  | fault => cases hs

theorem Reaches.not_polling (h : Reaches H c d) (hc : ¬ Polling c) : ¬ Polling d := by
  induction h with
  | refl => exact hc
  | tail _ hs ih => exact step_not_polling ih hs

/-- A tame run of the full build is a run of this one. -/
theorem Tame.reaches (h : Tame H c d) : Reaches H c d := by
  induction h with
  | refl => exact .refl
  | tail _ hs ih => exact ih.tail ((step_plain hs.1).trans hs.2)

/-- A tame run ends where it may, or before a task opcode. -/
theorem Tame.plain_or_task (h : Tame H (.run m cur cs) d) :
    d.NoTask ∨ ∃ m' cur' cs', d = .run m' cur' cs' ∧ AtTask cur' := by
  cases d with
  | run m' cur' cs' =>
      by_cases hplain : (Config.run m' cur' cs').NoTask
      · exact .inl hplain
      · exact .inr ⟨m', cur', cs', rfl, not_noTask_run.mp hplain⟩
  | poll w m' cur' cs' => exact absurd trivial (h.reaches.not_polling id)
  | ret e m' cs' => exact .inl trivial
  | fault => exact .inl trivial

/-- A failure goes through all callers and nowhere else. -/
theorem unwinds_iff {e e' : V4Err} (he : e ≠ 0) {m' : Machine W} :
    Reaches H (.ret e m cs) (.ret e' m' []) ↔ e' = e ∧ m' = unwound m cs := by
  induction cs generalizing m with
  | nil =>
      constructor
      · intro h
        obtain heq | ⟨b, hs, -⟩ := h.cases_head
        · cases heq
          exact ⟨rfl, rfl⟩
        · cases hs
      · rintro ⟨rfl, rfl⟩
        exact .refl
  | cons x cs ih =>
      have hs : Step H (.ret e m (x :: cs)) (.ret e (m.setFp x.oldFp) cs) := if_neg he
      constructor
      · intro h
        obtain heq | ⟨b, hb, hrest⟩ := h.cases_head
        · cases heq
        · obtain rfl : b = .ret e (m.setFp x.oldFp) cs := Option.some.inj (hb.symm.trans hs)
          exact ih.mp hrest
      · exact fun h => .head hs (ih.mpr h)

theorem failed_not_fault {e : V4Err} (he : e ≠ 0) : ¬ Reaches H (.ret e m cs) .fault := by
  induction cs generalizing m with
  | nil =>
      intro h
      obtain heq | ⟨b, hs, -⟩ := h.cases_head
      · cases heq
      · cases hs
  | cons x cs ih =>
      intro h
      obtain heq | ⟨b, hb, hrest⟩ := h.cases_head
      · cases heq
      · obtain rfl : b = .ret e (m.setFp x.oldFp) cs :=
          Option.some.inj (hb.symm.trans (if_neg he))
        exact ih hrest

/-- Where a run that has come to a task opcode ends. -/
theorem task_returns_iff (hat : AtTask cur) {e : V4Err} {m' : Machine W} :
    Reaches H (.run m cur cs) (.ret e m' []) ↔ ∃ info,
      panicInfo m.vm Err.unknownOp.code = some info ∧ e = Err.unknownOp.code ∧
        m' = unwound (m.notified H info) cs := by
  have hs := step_task (H := H) m cs hat
  cases hinfo : panicInfo m.vm Err.unknownOp.code with
  | none =>
      rw [hinfo] at hs
      refine iff_of_false (fun h => ?_) fun ⟨_, heq, _⟩ => by cases heq
      obtain heq | ⟨b, hb, hrest⟩ := h.cases_head
      · cases heq
      · obtain rfl : b = .fault := Option.some.inj (hb.symm.trans hs)
        obtain heq | ⟨b', hb', -⟩ := hrest.cases_head
        · cases heq
        · cases hb'
  | some info =>
      rw [hinfo] at hs
      have hunwind : Reaches H (.ret Err.unknownOp.code (m.notified H info) cs) (.ret e m' []) ↔
          e = Err.unknownOp.code ∧ m' = unwound (m.notified H info) cs := unwinds_iff (by decide)
      constructor
      · intro h
        obtain heq | ⟨b, hb, hrest⟩ := h.cases_head
        · cases heq
        · obtain rfl := Option.some.inj (hb.symm.trans hs)
          exact ⟨info, rfl, hunwind.mp hrest⟩
      · rintro ⟨info', heq, h⟩
        obtain rfl := Option.some.inj heq
        exact .head hs (hunwind.mpr h)

end

/-- Where it faults. -/
theorem task_faults_iff {H : Host W} {m : Machine W} {cur : Activation} {cs : List Caller}
    (hat : AtTask cur) :
    Reaches H (.run m cur cs) .fault ↔ panicInfo m.vm Err.unknownOp.code = none := by
  have hs := step_task (H := H) m cs hat
  cases hinfo : panicInfo m.vm Err.unknownOp.code with
  | none =>
      rw [hinfo] at hs
      exact iff_of_true (.single hs) rfl
  | some info =>
      rw [hinfo] at hs
      refine iff_of_false (fun h => ?_) fun heq => by cases heq
      obtain heq | ⟨b, hb, hrest⟩ := h.cases_head
      · cases heq
      · obtain rfl := Option.some.inj (hb.symm.trans hs)
        exact failed_not_fault (by decide) hrest

/-- It ends in one of these ways. -/
theorem task_ends (H : Host W) (m : Machine W) {cur : Activation} (cs : List Caller)
    (hat : AtTask cur) : ∃ d, Reaches H (.run m cur cs) d ∧ step H d = none := by
  cases hinfo : panicInfo m.vm Err.unknownOp.code with
  | none => exact ⟨.fault, (task_faults_iff hat).mpr hinfo, rfl⟩
  | some info => exact ⟨_, (task_returns_iff hat).mpr ⟨info, hinfo, rfl, rfl⟩, rfl⟩

/-- A run is tame, or a tame run up to a task opcode and what follows it. -/
theorem reaches_iff {H : Host W} {m : Machine W} {cur : Activation} {cs : List Caller}
    {d : Config W} :
    Reaches H (.run m cur cs) d ↔ Tame H (.run m cur cs) d ∨
      ∃ m' cur' cs', Tame H (.run m cur cs) (.run m' cur' cs') ∧ AtTask cur' ∧
        Reaches H (.run m' cur' cs') d := by
  refine (reaches_agreeing (fun c => step_plain)).trans (or_congr_right ?_)
  constructor
  · rintro ⟨u, hu, hout, hrest⟩
    obtain hplain | ⟨m', cur', cs', rfl, hat⟩ := Tame.plain_or_task hu
    · exact absurd hplain hout
    · exact ⟨m', cur', cs', hu, hat, hrest⟩
  · rintro ⟨m', cur', cs', hu, hat, hrest⟩
    exact ⟨_, hu, not_noTask_run.mpr hat, hrest⟩

/-- **The build without tasks.**  `vm_exec_raw` returns, faults and runs for ever as in the full
    build on the runs that execute no task opcode.  A run of the full build that comes to one
    ends there: with `UnknownOp`, the stacks as they were before the opcode and the frame
    pointers of the callers put back. -/
theorem returns_iff (H : Host W) (m : Machine W) (bc : List Byte) (len : Nat) :
    (∀ e m'', Returns H m bc len e m'' ↔ Tame H (.start m bc len) (.ret e m'' []) ∨
        ∃ m' cur cs info, Tame H (.start m bc len) (.run m' cur cs) ∧ AtTask cur ∧
          panicInfo m'.vm Err.unknownOp.code = some info ∧ e = Err.unknownOp.code ∧
            m'' = unwound (m'.notified H info) cs) ∧
      (Reaches H (.start m bc len) .fault ↔ Tame H (.start m bc len) .fault ∨
        ∃ m' cur cs, Tame H (.start m bc len) (.run m' cur cs) ∧ AtTask cur ∧
          panicInfo m'.vm Err.unknownOp.code = none) ∧
      (Diverges H (.start m bc len) ↔
        ∀ d, Tame H (.start m bc len) d → d.NoTask ∧ ∃ d', V4Engine.Step H d d') := by
  refine ⟨fun e m'' => ?_, ?_, fun h d hd => ?_, fun h d hd => ?_⟩
  · refine reaches_iff.trans (or_congr_right ?_)
    constructor
    · rintro ⟨m', cur, cs, hu, hat, hrest⟩
      obtain ⟨info, hend⟩ := (task_returns_iff hat).mp hrest
      exact ⟨m', cur, cs, info, hu, hat, hend⟩
    · rintro ⟨m', cur, cs, info, hu, hat, hend⟩
      exact ⟨m', cur, cs, hu, hat, (task_returns_iff hat).mpr ⟨info, hend⟩⟩
  · refine reaches_iff.trans (or_congr_right ?_)
    constructor
    · rintro ⟨m', cur, cs, hu, hat, hrest⟩
      exact ⟨m', cur, cs, hu, hat, (task_faults_iff hat).mp hrest⟩
    · rintro ⟨m', cur, cs, hu, hat, hend⟩
      exact ⟨m', cur, cs, hu, hat, (task_faults_iff hat).mpr hend⟩
  · obtain ⟨d', hs⟩ := h d (Tame.reaches hd)
    obtain hplain | ⟨m', cur, cs, rfl, hat⟩ := Tame.plain_or_task hd
    · exact ⟨hplain, d', (step_plain hplain).symm.trans hs⟩
    · -- a task opcode would end the run
      obtain ⟨u, hu, hend⟩ := task_ends H m' cs hat
      obtain ⟨u', hu'⟩ := h u ((Tame.reaches hd).trans hu)
      rw [Step, hend] at hu'
      cases hu'
  · obtain htame | ⟨m', cur, cs, hu, hat, -⟩ := reaches_iff.mp hd
    · obtain ⟨hplain, d', hs⟩ := h d htame
      exact ⟨d', (step_plain hplain).trans hs⟩
    · exact absurd (h _ hu).1 (not_noTask_run.mpr hat)

/-! ## The scheduler -/

/-- The scheduler, the message queue and the stacks of tasks are as they were. -/
structure TasksUntouched (vm vm' : Vm) : Prop where
  scheduler : vm'.scheduler = vm.scheduler
  msgQueue : vm'.msgQueue = vm.msgQueue
  heap : vm'.heap = vm.heap

namespace TasksUntouched

theorem refl (vm : Vm) : TasksUntouched vm vm := ⟨rfl, rfl, rfl⟩

theorem trans {a b c : Vm} (h : TasksUntouched a b) (h' : TasksUntouched b c) :
    TasksUntouched a c where
  scheduler := h'.scheduler.trans h.scheduler
  msgQueue := h'.msgQueue.trans h.msgQueue
  heap := h'.heap.trans h.heap

end TasksUntouched

/-- The tasks are those of `vm0`. -/
def tasksOf (W : Type) (vm0 : Vm) : RunInv W where
  machine m := TasksUntouched vm0 m.vm
  act _ := True
  fp _ := True
  err _ m := TasksUntouched vm0 m.vm
  fault := True

theorem tasksUntouched_frame : Vm.FrameRelation TasksUntouched where
  refl := .refl
  trans := .trans
  stackUpdate _ _ _ _ _ _ := ⟨rfl, rfl, rfl⟩
  byteUpdate _ _ _ _ := ⟨rfl, rfl, rfl⟩

section

variable {H : Host W} {vm0 : Vm}

theorem tasksOf_closed : (tasksOf W vm0).Closed := framedBy_closed tasksUntouched_frame

variable (hH : H.Within fun m m' => TasksUntouched m.vm m'.vm)
include hH

/-- **One instruction**, a task opcode or another. -/
theorem tasksOf_fetch (cur : Activation) :
    Meets (tasksOf W vm0).effect (fetch H cur) ((tasksOf W vm0).flow cur) := by
  by_cases hat : AtTask cur
  · obtain ⟨op, hop, htask⟩ := hat
    intro m hm
    rw [fetch_task hop htask]
    exact (framedBy_panic tasksUntouched_frame hH (e := .unknownOp) (by decide)).meets m hm
  · have hplain : ∀ op, cur.nextOp = some op → op.isTask = false := fun op hop =>
      Bool.eq_false_iff.mpr fun htask => hat ⟨op, hop, htask⟩
    intro m hm
    rw [fetch_plain hplain]
    refine framedBy_fetch tasksUntouched_frame hH (fun op hop htask => ?_) m hm
    rw [hplain op hop] at htask
    cases htask

theorem tasksOf_reaches {c d : Config W} (hc : (tasksOf W vm0).Holds [] c) (hpoll : ¬ Polling c)
    (h : Reaches H c d) : (tasksOf W vm0).Holds [] d := by
  induction h with
  | refl => exact hc
  | @tail c1 d hreach hs ih =>
      cases c1 with
      | run m cur cs =>
          cases hs
          exact RunInv.holds_settle tasksOf_closed ih.2.2 (tasksOf_fetch hH cur m ih.1)
      | poll w m cur cs => exact absurd trivial (Reaches.not_polling hreach hpoll)
      | ret e m cs =>
          refine ih.step (H := H) tasksOf_closed hs ?_ ?_ ?_
          · rintro e' m' heq
            cases heq
            cases hs
          · intro m' cur cs' heq
            cases heq
          · intro w m' cur cs' heq
            cases heq
      | fault => cases hs

end

/-! ## Sessions -/

/-- What a program does with the VM. -/
inductive Event where
  | exec (bc : List Byte) (len : Nat)
  | call (c : TaskCall)

/-- `o` answers `e` and leaves machine `m'`. -/
def Event.Answers (H : Host W) (o : Event) (m : Machine W) (e : V4Err) (m' : Machine W) : Prop :=
  match o with
  | .exec bc len => Returns H m bc len e m'
  | .call c => e = c.run (some m.vm) ∧ m' = m

/-- A program that executes bytecode and calls the task API, with the answers it gets. -/
inductive Session (H : Host W) : Machine W → List (Event × V4Err) → Machine W → Prop where
  | nil (m : Machine W) : Session H m [] m
  | cons {m m1 m' : Machine W} {o : Event} {e : V4Err} {os : List (Event × V4Err)}
      (first : o.Answers H m e m1) (rest : Session H m1 os m') : Session H m ((o, e) :: os) m'

theorem TaskCall.run_some (c : TaskCall) (vm : Vm) : c.run (some vm) = Err.unknownOp.code := by
  cases c <;> rfl

/-- **No task is ever created.**  Whatever bytecode a program executes and whatever it asks of
    the task API, the scheduler, the message queue and the stacks of tasks stay as they were,
    every call answers `UnknownOp`, and a run of bytecode leaves the tasks alone on its way. -/
theorem session_keeps_tasks {H : Host W} (hH : H.Within fun m m' => TasksUntouched m.vm m'.vm)
    {m m' : Machine W} {os : List (Event × V4Err)} (h : Session H m os m') :
    TasksUntouched m.vm m'.vm ∧ (∀ c e, (.call c, e) ∈ os → e = Err.unknownOp.code) ∧
      ∀ bc len d n, Reaches H (.start m' bc len) d → d.machine = some n →
        TasksUntouched m.vm n.vm := by
  have hrun : ∀ (m0 : Machine W) bc len d n, Reaches H (.start m0 bc len) d →
      d.machine = some n → TasksUntouched m0.vm n.vm := by
    intro m0 bc len d n hd hn
    have hstart : (tasksOf W m0.vm).Holds [] (.start m0 bc len) :=
      ⟨.refl m0.vm, trivial, [], rfl, fun _ hx => by cases hx⟩
    have hend := tasksOf_reaches hH hstart id hd
    cases d with
    | run m1 cur cs => cases hn; exact hend.1
    | poll w m1 cur cs => cases hn; exact hend.1
    | ret e m1 cs => cases hn; exact hend.1.elim And.right And.right
    | fault => cases hn
  induction h with
  | nil m => exact ⟨.refl m.vm, fun _ _ hmem => (List.not_mem_nil hmem).elim, hrun m⟩
  | @cons m m1 m' o e os hfirst _ ih =>
      obtain ⟨htasks, hcalls, hafter⟩ := ih
      have hkept : TasksUntouched m.vm m1.vm := by
        cases o with
        | exec bc len => exact hrun m bc len _ m1 hfirst rfl
        | call c => exact hfirst.2 ▸ .refl m.vm
      refine ⟨hkept.trans htasks, fun c e' hmem => ?_, fun bc len d n hd hn => ?_⟩
      · obtain heq | hmem := List.mem_cons.mp hmem
        · cases heq
          exact hfirst.1.trans (c.run_some m.vm)
        · exact hcalls c e' hmem
      · exact hkept.trans (hafter bc len d n hd hn)

/-- A yield, then the opcode `TASK_SELF` behind `LIT1`. -/
theorem session_keeps_tasks_two : ∃ m', Session Host.silent (.boot .blank)
    [(.call .yield, Err.unknownOp.code), (.exec [0x74, 0x99] 2, Err.unknownOp.code)] m' ∧
      TasksUntouched .blank m'.vm := by
  have hsilent : Host.silent.Within fun m m' => TasksUntouched m.vm m'.vm :=
    Host.silent_within.mono fun m m' h => h ▸ .refl m.vm
  have hrun : Returns Host.silent (.boot .blank) [0x74, 0x99] 2 Err.unknownOp.code _ :=
    reaches_iff_iterate.mpr ⟨2, rfl⟩
  have hsession : Session Host.silent (.boot .blank)
      [(.call .yield, Err.unknownOp.code), (.exec [0x74, 0x99] 2, Err.unknownOp.code)] _ :=
    .cons ⟨rfl, rfl⟩ (.cons hrun (.nil _))
  exact ⟨_, hsession, (session_keeps_tasks hsilent hsession).1⟩

end NoTasks

end V4Engine
