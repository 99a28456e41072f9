/-
  V4Engine.Task.Ownership

  Who frees which stack buffer.

  `Ownership h0` says of a state that the blocks allocated since the heap was `h0`
  and not freed yet are exactly the buffers of the task table, each owned once, and
  that no `free` ever went wrong.  Every call keeps it: a schedule moves neither
  buffers nor blocks, and every other call gives new buffers, or none, to one slot
  at a time (`Ownership.replace`).
-/
import V4Engine.Task.Buffers
import V4Engine.Task.Census
import Mathlib.Data.Set.Basic

namespace V4Engine

open Lib

/-- The blocks that were allocated since the heap was `h0` and not freed since. -/
def Vm.outstanding (h0 : Heap) (vm : Vm) : Set Nat :=
  {id | h0.next ≤ id ∧ (vm.heap.blocks id).isSome}

/-- The non-null buffer pointers of the task table. -/
def Vm.buffers (vm : Vm) : Set Nat := {id | ∃ i s, (vm.task i).base s = some id}

def HeapError.isBadFree : HeapError → Bool
  | .badFree _ => true
  | .badAccess _ _ => false

/-- The `free` calls that were applied to no live block. -/
def Heap.badFrees (h : Heap) : List HeapError := h.errors.filter HeapError.isBadFree

structure Ownership (h0 : Heap) (vm : Vm) : Prop where
  next_le : h0.next ≤ vm.heap.next
  balanced : vm.outstanding h0 = vm.buffers
  distinct : ∀ i s j s' id, (vm.task i).base s = some id → (vm.task j).base s' = some id →
    i = j ∧ s = s'
  dead : ∀ i, (vm.task i).state = .dead → ∀ s, (vm.task i).base s = none
  /-- Blocks from before are left alone. -/
  older : ∀ id, id < h0.next → (vm.heap.blocks id).isSome = (h0.blocks id).isSome
  frees : vm.heap.badFrees = h0.badFrees

/-- What is expected of one call: ownership afterwards; a spawn that fails leaves the
    tasks alone, and a cleanup leaves nothing allocated. -/
def OwnershipLaw (h0 : Heap) (vm : Vm) (o : BackendOp) (vm' : Vm) : Prop :=
  Ownership h0 vm' ∧
    match o with
    | .spawn w p ds rs dsOk rsOk =>
        (v4BackendTaskSpawn w p ds rs dsOk rsOk vm).1 < 0 →
          vm'.scheduler.tasks = vm.scheduler.tasks ∧
            vm'.scheduler.taskCount = vm.scheduler.taskCount
    | .cleanup => vm'.outstanding h0 = ∅
    | _ => True

namespace Ownership

variable {h0 : Heap} {vm vm' : Vm}

theorem mem_iff (h : Ownership h0 vm) (id : Nat) :
    (h0.next ≤ id ∧ (vm.heap.blocks id).isSome) ↔ ∃ i s, (vm.task i).base s = some id :=
  Set.ext_iff.mp h.balanced id

theorem heapInv (h : Ownership h0 vm) : HeapInv vm where
  owned i s id hid := ((h.mem_iff id).mpr ⟨i, s, hid⟩).2
  distinct := h.distinct

/-- Ownership reads the buffer pointers, which slots are DEAD, which blocks are live,
    and the bad frees. -/
theorem congr (h : Ownership h0 vm) (hnext : vm'.heap.next = vm.heap.next)
    (hbase : ∀ i s, (vm'.task i).base s = (vm.task i).base s)
    (hlive : ∀ id, (vm'.heap.blocks id).isSome = (vm.heap.blocks id).isSome)
    (hdead : ∀ i, (vm'.task i).state = .dead → (vm.task i).state = .dead)
    (hfrees : vm'.heap.badFrees = vm.heap.badFrees) : Ownership h0 vm' where
  next_le := hnext ▸ h.next_le
  balanced := by
    ext id
    show (h0.next ≤ id ∧ (vm'.heap.blocks id).isSome) ↔ ∃ i s, (vm'.task i).base s = some id
    simp only [hlive, hbase]
    exact h.mem_iff id
  distinct i s j s' id hi hj := h.distinct i s j s' id (hbase i s ▸ hi) (hbase j s' ▸ hj)
  dead i hi s := (hbase i s).trans (h.dead i (hdead i hi) s)
  older id hid := (hlive id).trans (h.older id hid)
  frees := hfrees.trans h.frees

/-- **One slot changes hands.**  The old buffers of slot `i` are freed, and its new
    ones, if any, are freshly allocated. -/
theorem replace (h : Ownership h0 vm) (i : Fin 8) (hnext : vm.heap.next ≤ vm'.heap.next)
    (hrest : ∀ j, j ≠ i → vm'.task j = vm.task j)
    (hlive : ∀ id, (vm'.heap.blocks id).isSome ↔
      ((vm.heap.blocks id).isSome ∧ ∀ s, (vm.task i).base s ≠ some id) ∨
        ∃ s, (vm'.task i).base s = some id)
    (hnew : ∀ s id, (vm'.task i).base s = some id → vm.heap.next ≤ id)
    (hdis : ∀ s s' id, (vm'.task i).base s = some id → (vm'.task i).base s' = some id → s = s')
    (hdead : (vm'.task i).state = .dead → ∀ s, (vm'.task i).base s = none)
    (hfrees : vm'.heap.badFrees = vm.heap.badFrees) : Ownership h0 vm' where
  next_le := Nat.le_trans h.next_le hnext
  balanced := by
    ext id
    show (h0.next ≤ id ∧ (vm'.heap.blocks id).isSome) ↔ ∃ j s, (vm'.task j).base s = some id
    constructor
    · rintro ⟨hge, hsome⟩
      obtain ⟨hold, hne⟩ | ⟨s, hs⟩ := (hlive id).mp hsome
      · obtain ⟨j, s, hjs⟩ := (h.mem_iff id).mp ⟨hge, hold⟩
        have hj : j ≠ i := fun hj => hne s (hj ▸ hjs)
        exact ⟨j, s, (hrest j hj).symm ▸ hjs⟩
      · exact ⟨i, s, hs⟩
    · rintro ⟨j, s, hjs⟩
      by_cases hj : j = i
      · subst hj
        exact ⟨Nat.le_trans h.next_le (hnew s id hjs), (hlive id).mpr (.inr ⟨s, hjs⟩)⟩
      · rw [hrest j hj] at hjs
        obtain ⟨hge, hsome⟩ := (h.mem_iff id).mpr ⟨j, s, hjs⟩
        refine ⟨hge, (hlive id).mpr (.inl ⟨hsome, fun s' hs' => ?_⟩)⟩
        exact hj (h.distinct j s i s' id hjs hs').1
  distinct := by
    -- A new buffer is younger than every block of another slot.
    have hold : ∀ j s id, j ≠ i → (vm'.task j).base s = some id → id < vm.heap.next :=
      fun j s id hj hid => h.heapInv.lt_next (hrest j hj ▸ hid)
    intro j s k s' id hjid hkid
    by_cases hj : j = i <;> by_cases hk : k = i
    · subst hj hk
      exact ⟨rfl, hdis s s' id hjid hkid⟩
    · have hge := hnew s id (hj ▸ hjid)
      have hlt := hold k s' id hk hkid
      omega
    · have hge := hnew s' id (hk ▸ hkid)
      have hlt := hold j s id hj hjid
      omega
    · exact h.distinct j s k s' id (hrest j hj ▸ hjid) (hrest k hk ▸ hkid)
  dead j hj s := by
    by_cases hji : j = i
    · subst hji
      exact hdead hj s
    · rw [hrest j hji] at hj ⊢
      exact h.dead j hj s
  older id hid := by
    have hne : ∀ s, (vm'.task i).base s ≠ some id := fun s hs => by
      have hge := hnew s id hs
      have hle := h.next_le
      omega
    have hne' : ∀ s, (vm.task i).base s ≠ some id := fun s hs => by
      have hge := ((h.mem_iff id).mpr ⟨i, s, hs⟩).1
      omega
    rw [← h.older id hid]
    apply Bool.eq_iff_iff.mpr
    rw [hlive id]
    exact ⟨fun hor => hor.elim And.left fun ⟨s, hs⟩ => absurd hs (hne s), fun hs => .inl ⟨hs, hne'⟩⟩
  frees := hfrees.trans h.frees

end Ownership

/-! ## Allocations -/

namespace Heap

theorem touch_next (id n : Nat) (h : Heap) : (h.touch id n).next = h.next := by
  unfold touch
  split <;> rfl

theorem free_next (p : Option Nat) (h : Heap) : (h.free p).next = h.next := by
  cases p with
  | none => rfl
  | some id =>
      simp only [free]
      split <;> rfl

theorem free_isSome (p : Option Nat) (h : Heap) (k : Nat) :
    ((h.free p).blocks k).isSome ↔ (h.blocks k).isSome ∧ p ≠ some k := by
  by_cases hp : p = some k
  · subst hp
    simp only [free]
    split
    · simp [remove]
    · simp_all
  · rw [free_blocks_of_ne h hp]
    simp [hp]

theorem malloc_isSome (ok : Bool) (n : Nat) (h : Heap) (k : Nat) :
    ((h.malloc ok n).2.blocks k).isSome ↔ (h.blocks k).isSome ∨ (h.malloc ok n).1 = some k := by
  cases ok with
  | false => simp [malloc]
  | true =>
      by_cases hk : k = h.next
      · subst hk
        simp [malloc]
      · have hne : h.next ≠ k := Ne.symm hk
        simp [malloc, Function.update_of_ne hk, hne]

/-- A new block was not live before. -/
theorem malloc_fresh {ok : Bool} {n k : Nat} {h : Heap} (hk : (h.malloc ok n).1 = some k) :
    ¬(h.blocks k).isSome := by
  cases ok with
  | false => cases hk
  | true =>
      obtain rfl : h.next = k := Option.some.inj hk
      rw [h.fresh h.next (Nat.le_refl _)]
      exact Bool.false_ne_true

theorem badFrees_congr {h h' : Heap} (he : h'.errors = h.errors) : h'.badFrees = h.badFrees :=
  congrArg (List.filter HeapError.isBadFree) he

end Heap

/-! ## Schedules -/

theorem accessErrors_badFree (base : Option Nat) (n : Nat) (h : Heap) :
    (accessErrors base n h).filter HeapError.isBadFree = [] := by
  cases base with
  | none => rfl
  | some id =>
      simp only [accessErrors]
      split <;> rfl

theorem touchStack_badFrees (base : Option Nat) (n : Nat) (h : Heap) :
    (touchStack base n h).badFrees = h.badFrees := by
  rw [Heap.badFrees, touchStack_errors, List.filter_append, accessErrors_badFree]
  rfl

theorem saveStack_badFrees (base : Option Nat) (n : Nat) (stack : Nat → Cell) (h : Heap) :
    (saveStack base n stack h).badFrees = h.badFrees := by
  rw [Heap.badFrees, saveStack_errors, List.filter_append, accessErrors_badFree]
  rfl

theorem touchStack_next (base : Option Nat) (n : Nat) (h : Heap) :
    (touchStack base n h).next = h.next := by
  cases base with
  | none => rfl
  | some id =>
      simp only [touchStack]
      split
      · exact Heap.touch_next id n h
      · rfl

theorem saveStack_next (base : Option Nat) (n : Nat) (stack : Nat → Cell) (h : Heap) :
    (saveStack base n stack h).next = h.next := by
  cases base with
  | none => rfl
  | some id =>
      simp only [saveStack]
      split
      · exact Heap.touch_next id n h
      · rfl

/-- Parking allocates and frees nothing. -/
theorem parked_allocs (vm : Vm) (cur : Fin 8) :
    (parked vm cur).heap.next = vm.heap.next ∧
      (parked vm cur).heap.badFrees = vm.heap.badFrees := by
  by_cases hr : (vm.task cur).state = .running
  · rw [parked_heap_of_running hr]
    constructor
    · rw [saveStack_next, saveStack_next]
    · rw [saveStack_badFrees, saveStack_badFrees]
  · rw [parked_eq_of_not_running hr]
    exact ⟨rfl, rfl⟩

/-- Nor does the rest of a schedule. -/
theorem Scheduled.allocs {tick : BitVec 32} {vm vm' : Vm} {cur : Fin 8}
    (h : Scheduled tick vm cur vm') :
    vm'.heap.next = vm.heap.next ∧ vm'.heap.badFrees = vm.heap.badFrees := by
  obtain ⟨hnext, hfrees⟩ := parked_allocs vm cur
  cases h with
  | stay => exact ⟨hnext, hfrees⟩
  | switch next =>
      constructor
      · exact ((touchStack_next _ _ _).trans (touchStack_next _ _ _)).trans hnext
      · exact ((touchStack_badFrees _ _ _).trans (touchStack_badFrees _ _ _)).trans hfrees

namespace Ownership

variable {h0 : Heap} {vm vm' : Vm}

/-- **A schedule** keeps ownership; a slot it revives had no buffers and gets none. -/
theorem schedule {tick : BitVec 32} (h : Ownership h0 vm) (hw : SchedWF vm)
    (hs : vmSchedule tick vm = some vm') : Ownership h0 vm' := by
  have hsched := scheduled_of_eq hw hs
  obtain ⟨hnext, hfrees⟩ := hsched.allocs
  refine h.congr hnext (fun i s => ?_) (fun id => ?_) (fun i hi => ?_) hfrees
  · rw [(hsched.kept_parked i).base, parked_base]
  · rw [hsched.blocks, parked_isSome]
  · obtain ⟨next, -, -, ⟨n, hrun⟩, hrest⟩ := hsched.task_eq
    by_cases hin : i = next
    · rw [hin, hrun] at hi
      cases hi
    · rw [hrest i hin] at hi
      exact (wake_parked_dead_iff tick vm hw.cur i).mp hi

/-! ## Retiring and spawning -/

theorem retire (h : Ownership h0 vm) (i : Fin 8) : Ownership h0 (retireTask vm i) := by
  have hself : (retireTask vm i).task i
      = { vm.task i with dsBase := none, rsBase := none, state := .dead } := by
    rw [retireTask_task, if_pos rfl]
  have hnone : ∀ s, ((retireTask vm i).task i).base s = none := by
    intro s
    rw [hself]
    cases s <;> rfl
  refine h.replace i ?_ (fun j hj => ?_) (fun id => ?_) (fun s id hid => ?_)
    (fun s s' id hid => ?_) (fun _ => hnone) ?_
  · show vm.heap.next ≤ ((vm.heap.free _).free _).next
    rw [Heap.free_next, Heap.free_next]
  · rw [retireTask_task, if_neg hj]
  · show (((vm.heap.free (vm.task i).dsBase).free (vm.task i).rsBase).blocks id).isSome ↔ _
    -- the blocks of both pointers go, no other one
    rw [Heap.free_isSome, Heap.free_isSome, and_assoc, Bool.forall_bool]
    simp only [hnone, reduceCtorEq, exists_false, or_false]
    exact and_congr_right fun _ => and_comm
  · rw [hnone] at hid
    cases hid
  · rw [hnone] at hid
    cases hid
  · exact Heap.badFrees_congr (retireTask_errors h.heapInv i)

/-- Undoing a spawn: the slot had no buffers and has none again. -/
theorem abort (h : Ownership h0 vm) {i : Fin 8} (hi : (vm.task i).state = .dead) (w : BitVec 16)
    (p : BitVec 8) (ds rs : BitVec 16) {dsOk rsOk : Bool} (hok : ¬(dsOk = true ∧ rsOk = true)) :
    Ownership h0 (spawnInto vm i w p ds rs dsOk rsOk).2 := by
  obtain ⟨herr, hnone⟩ := spawnInto_refused vm i w p ds rs hok
  refine h.replace i ?_ (fun j hj => spawnInto_task_of_ne vm hj w p ds rs dsOk rsOk)
    (fun id => ?_) (fun s id hid => ?_) (fun s s' id hid => ?_) (fun _ => hnone)
    (Heap.badFrees_congr herr)
  · rw [spawnInto_eq_abort vm i w p ds rs hok]
    show vm.heap.next ≤ ((((vm.heap.malloc dsOk ds.toNat).2.malloc rsOk rs.toNat).2.free _).free
      _).next
    rw [Heap.free_next, Heap.free_next]
    exact Nat.le_trans (malloc_next_le dsOk _ vm.heap) (malloc_next_le rsOk _ _)
  · have hsame : ((spawnInto vm i w p ds rs dsOk rsOk).2.heap.blocks id).isSome ↔
        (vm.heap.blocks id).isSome := by
      -- A fresh block is not one of the old ones, so freeing it brings the old set back.
      have hds : (vm.heap.malloc dsOk ds.toNat).1 = some id → ¬(vm.heap.blocks id).isSome :=
        Heap.malloc_fresh
      have hrs : ((vm.heap.malloc dsOk ds.toNat).2.malloc rsOk rs.toNat).1 = some id →
          ¬((vm.heap.malloc dsOk ds.toNat).2.blocks id).isSome := Heap.malloc_fresh
      rw [Heap.malloc_isSome] at hrs
      rw [spawnInto_eq_abort vm i w p ds rs hok]
      show ((((vm.heap.malloc dsOk ds.toNat).2.malloc rsOk rs.toNat).2.free _).free _ |>.blocks
        id).isSome ↔ _
      rw [Heap.free_isSome, Heap.free_isSome, Heap.malloc_isSome, Heap.malloc_isSome]
      tauto
    rw [hsame]
    simp [hnone, h.dead i hi]
  · rw [hnone] at hid
    cases hid
  · rw [hnone] at hid
    cases hid

/-- A spawn that gets its memory: two new blocks, one for each stack. -/
theorem install (h : Ownership h0 vm) {i : Fin 8} (hi : (vm.task i).state = .dead) (w : BitVec 16)
    (p : BitVec 8) (ds rs : BitVec 16) : Ownership h0 (spawnInto vm i w p ds rs true true).2 := by
  have hbase : ∀ s : Bool, ((spawnInto vm i w p ds rs true true).2.task i).base s
      = some (if s then vm.heap.next else vm.heap.next + 1) := by
    intro s
    show ((installTask vm i _ _).task i).base s = _
    rw [installTask_task, if_pos rfl]
    cases s <;> rfl
  refine h.replace i (Nat.le_add_right _ 2)
    (fun j hj => spawnInto_task_of_ne vm hj w p ds rs true true) (fun id => ?_)
    (fun s id hid => ?_) (fun s s' id hid hid' => ?_) (fun hdead => ?_)
    (Heap.badFrees_congr (spawnInto_served vm i w p ds rs).1)
  · show (((vm.heap.malloc true ds.toNat).2.malloc true rs.toNat).2.blocks id).isSome ↔ _
    -- live afterwards are the old blocks and the two new ones
    rw [Heap.malloc_isSome, Heap.malloc_isSome, Bool.exists_bool, hbase, hbase]
    simp only [h.dead i hi, ne_eq, reduceCtorEq, not_false_eq_true, implies_true, and_true]
    rw [or_assoc, or_comm (a := some _ = some _)]
    exact Iff.rfl
  · rw [hbase] at hid
    have heq := Option.some.inj hid
    split at heq <;> omega
  · rw [hbase] at hid hid'
    -- the two blocks differ
    have heq := (Option.some.inj hid).trans (Option.some.inj hid').symm
    cases s <;> cases s' <;> simp at heq <;> rfl
  · rw [show (spawnInto vm i w p ds rs true true).2 = installTask vm i _ _ from rfl,
      installTask_task, if_pos rfl] at hdead
    cases hdead

/-- **A spawn** keeps ownership, and one that fails leaves the tasks alone. -/
theorem spawn (h : Ownership h0 vm) (w : BitVec 16) (p : BitVec 8) (ds rs : BitVec 16)
    (dsOk rsOk : Bool) :
    OwnershipLaw h0 vm (.spawn w p ds rs dsOk rsOk)
      (v4BackendTaskSpawn w p ds rs dsOk rsOk vm).2 := by
  obtain ⟨e, -, heq⟩ | ⟨i, hi, heq⟩ := v4BackendTaskSpawn_cases w p ds rs dsOk rsOk vm
  · rw [OwnershipLaw, heq]
    exact ⟨h, fun _ => ⟨rfl, rfl⟩⟩
  rw [OwnershipLaw, heq]
  by_cases hok : dsOk = true ∧ rsOk = true
  · obtain ⟨rfl, rfl⟩ := hok
    refine ⟨h.install hi w p _ _, fun hneg => ?_⟩
    have hpos : (0 : Int) ≤ i.val := Int.natCast_nonneg i.val
    exact absurd hneg (Int.not_lt.mpr hpos)
  · refine ⟨h.abort hi w p _ _ hok, fun _ => ?_⟩
    rw [spawnInto_eq_abort vm i w p _ _ hok]
    -- the two pointers cleared were null already
    have hsame : { vm.task i with dsBase := none, rsBase := none } = vm.task i := by
      have hds : (vm.task i).dsBase = none := h.dead i hi true
      have hrs : (vm.task i).rsBase = none := h.dead i hi false
      generalize vm.task i = task at hds hrs
      cases task
      cases hds
      cases hrs
      rfl
    refine ⟨?_, rfl⟩
    show Function.update vm.scheduler.tasks i { vm.task i with dsBase := none, rsBase := none } = _
    rw [hsame]
    exact Function.update_eq_self i vm.scheduler.tasks

theorem retireAll (l : List (Fin 8)) (h : Ownership h0 vm) :
    Ownership h0 (l.foldl retireTask vm) := by
  induction l generalizing vm with
  | nil => exact h
  | cons i l ih => exact ih (h.retire i)

/-- **Cleanup** frees every buffer there is. -/
theorem cleanup (h : Ownership h0 vm) :
    OwnershipLaw h0 vm .cleanup (v4BackendTaskCleanup vm) := by
  have hall : Ownership h0 (v4BackendTaskCleanup vm) :=
    (h.retireAll (List.finRange 8)).congr rfl (fun _ _ => rfl) (fun _ => rfl) (fun _ hd => hd) rfl
  refine ⟨hall, ?_⟩
  show (v4BackendTaskCleanup vm).outstanding h0 = ∅
  rw [hall.balanced, Set.eq_empty_iff_forall_notMem]
  rintro id ⟨i, s, hid⟩
  rw [v4BackendTaskCleanup_task] at hid
  cases s <;> cases hid

/-! ## Every call -/

/-- **One call.** -/
theorem step {o : BackendOp} (h : Ownership h0 vm) (hinv : BackendInv vm)
    (hstep : backendStep o vm = some vm') : OwnershipLaw h0 vm o vm' := by
  cases o with
  | spawn w p ds rs dsOk rsOk =>
      cases hstep
      exact h.spawn w p ds rs dsOk rsOk
  | exit tick =>
      rw [backendStep, v4BackendTaskExit, hinv.sched.taskPtr] at hstep
      -- The slot is retired first, the schedule comes after it.
      have hmid : Ownership h0 (exitCurrent vm hinv.sched.cur) :=
        (h.retire hinv.sched.cur).congr rfl (fun _ _ => rfl) (fun _ => rfl) (fun _ hd => hd) rfl
      exact ⟨hmid.schedule (exitCurrent_wf hinv.sched _) hstep, trivial⟩
  | sleep ms tick tick' =>
      rw [backendStep, v4BackendTaskSleep, hinv.sched.taskPtr] at hstep
      -- Going to sleep writes no pointer.
      have hkept := blockCurrent_kept tick ms vm hinv.sched.cur
      have hmid : Ownership h0 (blockCurrent tick ms vm hinv.sched.cur) := by
        refine h.congr rfl (fun i s => (hkept i).base s) (fun _ => rfl) (fun i hi => ?_) rfl
        rw [blockCurrent_task] at hi
        split at hi
        · cases hi
        · exact hi
      exact ⟨hmid.schedule (blockCurrent_wf hinv.sched tick ms _) hstep, trivial⟩
  | yield tick => exact ⟨h.schedule hinv.sched hstep, trivial⟩
  | schedule tick => exact ⟨h.schedule hinv.sched hstep, trivial⟩
  | scheduleFromIsr tick =>
      rw [backendStep, vmScheduleFromIsr] at hstep
      split at hstep
      · cases hstep
        exact ⟨h, trivial⟩
      · have hmid : Ownership h0 (countPreemption vm) :=
          h.congr rfl (fun _ _ => rfl) (fun _ => rfl) (fun _ hd => hd) rfl
        exact ⟨hmid.schedule (countPreemption_inv hinv).sched hstep, trivial⟩
  | selectNext tick =>
      cases hstep
      refine ⟨h.congr rfl (fun i s => wakeTask_base tick (vm.task i) s) (fun _ => rfl)
        (fun i hi => ?_) rfl, trivial⟩
      exact (wakeTask_dead_iff tick (vm.task i)).mp hi
  | cleanup =>
      cases hstep
      exact h.cleanup
  | criticalEnter | criticalExit | send | receive | program =>
      have hsame := backendStep_sameTasks rfl hstep
      refine ⟨h.congr (by rw [hsame.heap]) (fun i s => by rw [hsame.task])
        (fun _ => by rw [hsame.heap]) (fun i hi => ?_) (by rw [hsame.heap]), trivial⟩
      rwa [hsame.task] at hi

/-- After `vm_task_init` nothing has been allocated yet. -/
theorem init (timeSliceMs : BitVec 32) (vm : Vm) :
    Ownership vm.heap (v4BackendTaskInit timeSliceMs vm) where
  next_le := Nat.le_refl _
  balanced := by
    ext id
    constructor
    · rintro ⟨hge, hsome⟩
      have hsome : (vm.heap.blocks id).isSome := hsome
      rw [vm.heap.fresh id hge] at hsome
      cases hsome
    · rintro ⟨i, s, hid⟩
      cases s <;> cases hid
  distinct i s j s' id hid _ := by cases s <;> cases hid
  dead i _ s := by cases s <;> rfl
  older _ _ := rfl
  frees := rfl

end Ownership

/-- **Every stack buffer has one owner.**  After `vm_task_init` and in every state a
    run of calls leads to, the blocks allocated by spawns and not yet freed are the
    buffers of the task table; no block has two owners and no `free` goes wrong. -/
theorem stacks_owned (timeSliceMs : BitVec 32) {vm : Vm} (h : vm.rp ≤ 64) (ops : List BackendOp) :
    Ownership vm.heap (v4BackendTaskInit timeSliceMs vm) ∧
      (exec backendStep ops (v4BackendTaskInit timeSliceMs vm)).isSome ∧
      EachStep backendStep (OwnershipLaw vm.heap) ops (v4BackendTaskInit timeSliceMs vm) := by
  have hinit := Ownership.init timeSliceMs vm
  refine ⟨hinit, ?_⟩
  refine exec_eachStep (I := fun v => BackendInv v ∧ Ownership vm.heap v) (F := fun _ => True) ?_
    ⟨init_inv timeSliceMs h, hinit⟩ fun _ _ => trivial
  rintro o v ⟨hinv, hown⟩ -
  obtain ⟨v', hstep, hinv'⟩ := backendStep_inv hinv o
  have hlaw := hown.step hinv hstep
  exact ⟨v', hstep, ⟨hinv', hlaw.1⟩, hlaw⟩

/-- Two spawns, one of them refused its second block, and a cleanup. -/
theorem stacks_owned_two_spawns :
    Ownership oneWordVm.heap (v4BackendTaskInit 10 oneWordVm) ∧
      (exec backendStep [.spawn 0 1 0 0 true true, .spawn 0 1 0 0 true false, .cleanup]
        (v4BackendTaskInit 10 oneWordVm)).isSome ∧
      EachStep backendStep (OwnershipLaw oneWordVm.heap)
        [.spawn 0 1 0 0 true true, .spawn 0 1 0 0 true false, .cleanup]
        (v4BackendTaskInit 10 oneWordVm) :=
  stacks_owned 10 (Nat.zero_le 64) _

end V4Engine
