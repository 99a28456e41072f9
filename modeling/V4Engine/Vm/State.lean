/-
  V4Engine.Vm.State

  The records of `internal/vm.h` and `internal/task.hpp`.

  Pointers into `DS` and `RS` are kept as offsets (`sp - DS`, `rp - RS`,
  `fp - RS`), `fp = none` being the null frame pointer.  Fixed-capacity C
  arrays are functions of the index; every access that the source does not
  bound by construction goes through a checked accessor, so that leaving an
  array is a fault of the model.  The task table has eight entries and is
  indexed by `Fin 8`: a C pointer `&tasks[i]` exists once `taskPtr` accepts `i`.

  The stack buffers of tasks live on a small heap of their own.  Its
  operations are total; an illegal use (freeing a dead block, running past the
  end of one) is recorded in `Heap.errors` the way a sanitizer would.
-/
import V4Engine.Vm.Types
import V4Engine.Lib.Live
import Mathlib.Logic.Function.Basic

namespace V4Engine

/-! ## Task stack buffers -/

/-- A block returned by `malloc`, `cap` cells long. -/
structure Block where
  cap : Nat
  data : Nat → Cell

/-- An illegal use of the heap. -/
inductive HeapError where
  | badFree (id : Nat)
  | badAccess (id n : Nat)
  deriving DecidableEq, Repr

/-- The heap blocks that back the stacks of tasks.  Identifiers are handed out in
    order, so no block exists at or past `next`. -/
structure Heap where
  next : Nat
  blocks : Nat → Option Block
  errors : List HeapError
  fresh : ∀ id, next ≤ id → blocks id = none

namespace Heap

/-- A heap without live blocks. -/
def empty : Heap := ⟨0, fun _ => none, [], fun _ _ => rfl⟩

theorem lt_next {h : Heap} {id : Nat} {b : Block} (hb : h.blocks id = some b) : id < h.next := by
  by_contra hlt
  rw [h.fresh id (Nat.le_of_not_lt hlt)] at hb
  cases hb

/-- `malloc` of `n` cells; `ok` is the allocator's answer. -/
def malloc (ok : Bool) (n : Nat) (h : Heap) : Option Nat × Heap :=
  if ok then
    (some h.next,
      { next := h.next + 1
        blocks := Function.update h.blocks h.next (some ⟨n, fun _ => 0⟩)
        errors := h.errors
        fresh := fun id hid => by
          rw [Function.update_of_ne (by omega)]
          exact h.fresh id (by omega) })
  else (none, h)

/-- Record an illegal use. -/
def report (e : HeapError) (h : Heap) : Heap := { h with errors := e :: h.errors }

/-- Take block `id` out of the heap. -/
def remove (id : Nat) (h : Heap) : Heap :=
  { h with
    blocks := Function.update h.blocks id none
    fresh := fun k hk => by
      by_cases hkid : k = id
      · rw [hkid, Function.update_self]
      · rw [Function.update_of_ne hkid]
        exact h.fresh k hk }

/-- `free(p)`; a null pointer is ignored. -/
def free (p : Option Nat) (h : Heap) : Heap :=
  match p with
  | none => h
  | some id => if (h.blocks id).isSome then h.remove id else h.report (.badFree id)

/-- Block `id` is live and has room for `n` cells. -/
def holds (id n : Nat) (h : Heap) : Bool := (h.blocks id).any fun b => n ≤ b.cap

/-- Record an access to the first `n` cells of block `id`. -/
def touch (id n : Nat) (h : Heap) : Heap :=
  if h.holds id n then h else h.report (.badAccess id n)

/-- The cells of block `id`. -/
def cells (h : Heap) (id : Nat) : Nat → Cell :=
  match h.blocks id with
  | some b => b.data
  | none => fun _ => 0

/-- `f` applied to the cells of block `id`. -/
def modify (id : Nat) (f : (Nat → Cell) → Nat → Cell) (h : Heap) : Heap :=
  { h with
    blocks := Function.update h.blocks id ((h.blocks id).map fun b => { b with data := f b.data })
    fresh := fun k hk => by
      by_cases hkid : k = id
      · rw [hkid, Function.update_self, h.fresh id (hkid ▸ hk)]
        rfl
      · rw [Function.update_of_ne hkid]
        exact h.fresh k hk }

/-- `memcpy(block, src, n)`. -/
def copyIn (id n : Nat) (src : Nat → Cell) (h : Heap) : Heap :=
  (h.touch id n).modify id fun data => Lib.copyInto data src n

@[simp] theorem report_blocks (e : HeapError) (h : Heap) : (h.report e).blocks = h.blocks := rfl

@[simp] theorem touch_blocks (id n : Nat) (h : Heap) : (h.touch id n).blocks = h.blocks := by
  unfold touch
  split <;> rfl

theorem copyIn_blocks (id n : Nat) (src : Nat → Cell) (h : Heap) :
    (h.copyIn id n src).blocks = Function.update h.blocks id
      ((h.blocks id).map fun b => { b with data := Lib.copyInto b.data src n }) := by
  show Function.update (h.touch id n).blocks id (((h.touch id n).blocks id).map _) = _
  rw [touch_blocks]

theorem copyIn_blocks_of_ne {id k n : Nat} (src : Nat → Cell) (h : Heap) (hk : k ≠ id) :
    (h.copyIn id n src).blocks k = h.blocks k := by
  rw [copyIn_blocks, Function.update_of_ne hk]

theorem copyIn_blocks_self (id n : Nat) (src : Nat → Cell) (h : Heap) :
    (h.copyIn id n src).blocks id
      = (h.blocks id).map fun b => { b with data := Lib.copyInto b.data src n } := by
  rw [copyIn_blocks, Function.update_self]

theorem copyIn_isSome (id k n : Nat) (src : Nat → Cell) (h : Heap) :
    ((h.copyIn id n src).blocks k).isSome = (h.blocks k).isSome := by
  by_cases hk : k = id
  · rw [hk, copyIn_blocks_self, Option.isSome_map]
  · rw [copyIn_blocks_of_ne src h hk]

theorem cells_congr {h h' : Heap} {id : Nat} (hb : h'.blocks id = h.blocks id) :
    h'.cells id = h.cells id := by
  rw [cells, cells, hb]

theorem free_blocks_of_ne {p : Option Nat} {k : Nat} (h : Heap) (hk : p ≠ some k) :
    (h.free p).blocks k = h.blocks k := by
  cases p with
  | none => rfl
  | some id =>
      have hid : k ≠ id := fun h => hk (congrArg some h.symm)
      simp only [free]
      split
      · exact Function.update_of_ne hid _ _
      · rfl

theorem malloc_blocks_of_lt {ok : Bool} {n k : Nat} (h : Heap) (hk : k < h.next) :
    (h.malloc ok n).2.blocks k = h.blocks k := by
  unfold malloc
  split
  · exact Function.update_of_ne (Nat.ne_of_lt hk) _ _
  · rfl

end Heap

/-! ## Tasks -/

/-- `v4_task_state_t`. -/
inductive TaskState where
  | dead | ready | running | blocked
  deriving DecidableEq, Repr

/-- `v4_task_t`. -/
structure V4Task where
  wordIdx : BitVec 16
  pc : BitVec 16
  dsBase : Option Nat
  rsBase : Option Nat
  dsDepth : BitVec 8
  rsDepth : BitVec 8
  state : TaskState
  priority : BitVec 8
  sleepUntilTick : BitVec 32
  dsSize : BitVec 8
  rsSize : BitVec 8
  execCount : BitVec 16
  deriving DecidableEq

/-- The all-zero task record left by `memset`. -/
def V4Task.zero : V4Task :=
  { wordIdx := 0, pc := 0, dsBase := none, rsBase := none, dsDepth := 0, rsDepth := 0,
    state := .dead, priority := 0, sleepUntilTick := 0, dsSize := 0, rsSize := 0,
    execCount := 0 }

/-- `v4_scheduler_t`. -/
structure V4Scheduler where
  tasks : Fin 8 → V4Task
  currentTask : BitVec 8
  taskCount : BitVec 8
  timeSliceMs : BitVec 32
  contextSwitches : BitVec 32
  preemptions : BitVec 32
  criticalNesting : BitVec 8

/-- The all-zero scheduler. -/
def V4Scheduler.zero : V4Scheduler :=
  { tasks := fun _ => .zero, currentTask := 0, taskCount := 0, timeSliceMs := 0,
    contextSwitches := 0, preemptions := 0, criticalNesting := 0 }

/-! ## Messages -/

/-- `v4_message_t`. -/
structure V4Message where
  srcTask : BitVec 8
  dstTask : BitVec 8
  msgType : BitVec 8
  flags : BitVec 8
  data : Cell
  deriving DecidableEq, Repr

/-- The all-zero message. -/
def V4Message.zero : V4Message := ⟨0, 0, 0, 0, 0⟩

/-- `v4_msg_queue_t`: sixteen slots and three counters. -/
structure V4MsgQueue where
  queue : Nat → V4Message
  readIdx : BitVec 8
  writeIdx : BitVec 8
  count : BitVec 8

/-- The all-zero queue. -/
def V4MsgQueue.zero : V4MsgQueue := ⟨fun _ => .zero, 0, 0, 0⟩

/-! ## The VM -/

/-- `V4_Mmio`: a window `[base, base + size)` with optional callbacks. -/
structure V4Mmio where
  base : BitVec 32
  size : BitVec 32
  read32 : Option FnPtr
  write32 : Option FnPtr
  user : HostPtr
  deriving DecidableEq, Repr

/-- `Word`: `code` holds the bytes the code pointer leads to, `codeLen` is the
    length given at registration. -/
structure Word where
  code : Option (List Byte)
  codeLen : Int
  deriving DecidableEq, Repr

/-- The RAM buffer the embedder provides: `cap` bytes. -/
structure Ram where
  cap : Nat
  byte : Nat → Byte

/-- The `Vm` structure, together with the heap its task stacks live on. -/
structure Vm where
  DS : Nat → Cell
  RS : Nat → Cell
  sp : Nat
  rp : Nat
  fp : Option Nat
  mem : Option Ram
  memSize : BitVec 32
  mmio : Nat → V4Mmio
  mmioCount : Nat
  words : Nat → Word
  wordCount : Nat
  scheduler : V4Scheduler
  msgQueue : V4MsgQueue
  panicHandler : Option FnPtr
  panicUserData : HostPtr
  heap : Heap

namespace Vm

/-- The live data stack, bottom first. -/
def ds (vm : Vm) : List Cell := Lib.live vm.DS vm.sp

/-- The live return stack, bottom first. -/
def rs (vm : Vm) : List Cell := Lib.live vm.RS vm.rp

/-- `vm->scheduler.tasks[i]`. -/
def task (vm : Vm) (i : Fin 8) : V4Task := vm.scheduler.tasks i

/-- Store a task record. -/
def setTask (vm : Vm) (i : Fin 8) (t : V4Task) : Vm :=
  { vm with scheduler := { vm.scheduler with tasks := Function.update vm.scheduler.tasks i t } }

/-- `&vm->scheduler.tasks[i]`: defined only for an index inside the table. -/
def taskPtr (i : BitVec 8) : Option (Fin 8) :=
  if h : i.toNat < 8 then some ⟨i.toNat, h⟩ else none

/-- The VM of `vm_create` with no configuration: everything zero, stacks empty. -/
def blank : Vm :=
  { DS := fun _ => 0, RS := fun _ => 0, sp := 0, rp := 0, fp := none,
    mem := none, memSize := 0, mmio := fun _ => ⟨0, 0, none, none, 0⟩, mmioCount := 0,
    words := fun _ => ⟨none, 0⟩, wordCount := 0,
    scheduler := .zero, msgQueue := .zero, panicHandler := none, panicUserData := 0,
    heap := .empty }

@[simp] theorem task_setTask_self (vm : Vm) (i : Fin 8) (t : V4Task) :
    (vm.setTask i t).task i = t := by
  simp [task, setTask]

theorem task_setTask_of_ne (vm : Vm) {i j : Fin 8} (t : V4Task) (h : j ≠ i) :
    (vm.setTask i t).task j = vm.task j := by
  simp [task, setTask, Function.update_of_ne h]

@[simp] theorem setTask_ds (vm : Vm) (i : Fin 8) (t : V4Task) :
    (vm.setTask i t).ds = vm.ds := rfl

@[simp] theorem setTask_rs (vm : Vm) (i : Fin 8) (t : V4Task) :
    (vm.setTask i t).rs = vm.rs := rfl

@[simp] theorem setTask_currentTask (vm : Vm) (i : Fin 8) (t : V4Task) :
    (vm.setTask i t).scheduler.currentTask = vm.scheduler.currentTask := rfl

@[simp] theorem setTask_heap (vm : Vm) (i : Fin 8) (t : V4Task) :
    (vm.setTask i t).heap = vm.heap := rfl

theorem taskPtr_of_lt {i : BitVec 8} (h : i.toNat < 8) :
    taskPtr i = some ⟨i.toNat, h⟩ := dif_pos h

theorem taskPtr_eq_some {i : BitVec 8} {t : Fin 8} :
    taskPtr i = some t ↔ i.toNat = t.val := by
  unfold taskPtr
  constructor
  · intro h
    split at h
    · cases h; rfl
    · cases h
  · intro h
    have hlt : i.toNat < 8 := h ▸ t.isLt
    rw [dif_pos hlt]
    exact congrArg some (Fin.ext h)

end Vm

end V4Engine
