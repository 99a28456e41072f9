/-
  V4Engine.Task.Heap

  Who owns which stack buffer.

  `HeapInv` holds in every reachable state: each buffer a task record points to
  is a live block, and no block has two owners.  It is what makes a context that
  was saved once stay what it is while other tasks run: `SlotKept` says that the
  blocks of one slot come through a call unchanged.
-/
import V4Engine.Task.Ops

namespace V4Engine

open Lib

/-- The two buffers of a task: `true` for data, `false` for return. -/
def V4Task.base (t : V4Task) : Bool → Option Nat
  | true => t.dsBase
  | false => t.rsBase

structure HeapInv (vm : Vm) : Prop where
  owned : ∀ i s id, (vm.task i).base s = some id → (vm.heap.blocks id).isSome
  distinct : ∀ i s j s' id, (vm.task i).base s = some id → (vm.task j).base s' = some id →
    i = j ∧ s = s'

/-- The buffers of slot `i` are the same blocks with the same content. -/
structure SlotKept (vm vm' : Vm) (i : Fin 8) : Prop where
  base : ∀ s, (vm'.task i).base s = (vm.task i).base s
  dsDepth : (vm'.task i).dsDepth = (vm.task i).dsDepth
  rsDepth : (vm'.task i).rsDepth = (vm.task i).rsDepth
  blocks : ∀ s id, (vm.task i).base s = some id → vm'.heap.blocks id = vm.heap.blocks id

namespace SlotKept

theorem refl (vm : Vm) (i : Fin 8) : SlotKept vm vm i :=
  ⟨fun _ => rfl, rfl, rfl, fun _ _ _ => rfl⟩

theorem trans {vm vm' vm'' : Vm} {i : Fin 8} (h : SlotKept vm vm' i) (h' : SlotKept vm' vm'' i) :
    SlotKept vm vm'' i where
  base s := (h'.base s).trans (h.base s)
  dsDepth := h'.dsDepth.trans h.dsDepth
  rsDepth := h'.rsDepth.trans h.rsDepth
  blocks s id hid := (h'.blocks s id ((h.base s).trans hid)).trans (h.blocks s id hid)

end SlotKept

namespace HeapInv

/-- The invariant reads the buffer pointers and which blocks are live. -/
theorem congr {vm vm' : Vm} (h : HeapInv vm)
    (hbase : ∀ i s, (vm'.task i).base s = (vm.task i).base s)
    (hlive : ∀ id, (vm'.heap.blocks id).isSome = (vm.heap.blocks id).isSome) : HeapInv vm' where
  owned i s id hid := by
    rw [hlive]
    exact h.owned i s id (hbase i s ▸ hid)
  distinct i s j s' id hi hj := h.distinct i s j s' id (hbase i s ▸ hi) (hbase j s' ▸ hj)

theorem lt_next {vm : Vm} (h : HeapInv vm) {i : Fin 8} {s : Bool} {id : Nat}
    (hid : (vm.task i).base s = some id) : id < vm.heap.next := by
  obtain ⟨b, hb⟩ := Option.isSome_iff_exists.mp (h.owned i s id hid)
  exact Heap.lt_next hb

end HeapInv

/-! ## Parking and switching -/

theorem saveStack_blocks_of_ne {base : Option Nat} {k : Nat} (n : Nat) (stack : Nat → Cell)
    (h : Heap) (hk : base ≠ some k) : (saveStack base n stack h).blocks k = h.blocks k := by
  unfold saveStack
  cases base with
  | none => rfl
  | some id =>
      simp only
      split
      · exact Heap.copyIn_blocks_of_ne stack h fun hkid => hk (congrArg some hkid.symm)
      · rfl

theorem saveStack_isSome (base : Option Nat) (n k : Nat) (stack : Nat → Cell) (h : Heap) :
    ((saveStack base n stack h).blocks k).isSome = (h.blocks k).isSome := by
  unfold saveStack
  cases base with
  | none => rfl
  | some id =>
      simp only
      split
      · exact Heap.copyIn_isSome id k n stack h
      · rfl

theorem touchStack_blocks (base : Option Nat) (n : Nat) (h : Heap) :
    (touchStack base n h).blocks = h.blocks := by
  unfold touchStack
  cases base with
  | none => rfl
  | some id =>
      simp only
      split
      · exact Heap.touch_blocks id n h
      · rfl

theorem parked_base (vm : Vm) (cur j : Fin 8) (s : Bool) :
    ((parked vm cur).task j).base s = (vm.task j).base s := by
  by_cases hj : j = cur
  · subst hj
    rw [parked_task_self]
    split <;> cases s <;> rfl
  · rw [parked_task_of_ne hj]

theorem parked_isSome (vm : Vm) (cur : Fin 8) (id : Nat) :
    ((parked vm cur).heap.blocks id).isSome = (vm.heap.blocks id).isSome := by
  unfold parked
  split
  · exact (saveStack_isSome _ _ _ _ _).trans (saveStack_isSome _ _ _ _ _)
  · rfl

theorem parked_blocks_of_ne {vm : Vm} {cur : Fin 8} {id : Nat}
    (h : ∀ s, (vm.task cur).base s ≠ some id) :
    (parked vm cur).heap.blocks id = vm.heap.blocks id := by
  unfold parked
  split
  · exact (saveStack_blocks_of_ne _ _ _ (h false)).trans (saveStack_blocks_of_ne _ _ _ (h true))
  · rfl

/-- Parking the current slot keeps the buffers of every other slot. -/
theorem parked_kept {vm : Vm} (h : HeapInv vm) {cur i : Fin 8} (hi : i ≠ cur) :
    SlotKept vm (parked vm cur) i where
  base := parked_base vm cur i
  dsDepth := by rw [parked_task_of_ne hi]
  rsDepth := by rw [parked_task_of_ne hi]
  blocks s id hid := parked_blocks_of_ne fun s' hs' =>
    hi (h.distinct i s cur s' id hid hs').1

theorem wakeTask_base (tick : BitVec 32) (t : V4Task) (s : Bool) :
    (wakeTask tick t).base s = t.base s := by
  cases s
  · exact wakeTask_rsBase tick t
  · exact wakeTask_dsBase tick t

theorem wakeAll_kept (tick : BitVec 32) (vm : Vm) (i : Fin 8) :
    SlotKept vm (wakeAll tick vm) i where
  base := wakeTask_base tick (vm.task i)
  dsDepth := wakeTask_dsDepth tick (vm.task i)
  rsDepth := wakeTask_rsDepth tick (vm.task i)
  blocks _ _ _ := rfl

namespace Scheduled

variable {tick : BitVec 32} {vm vm' : Vm}

/-- A schedule changes no block except by parking the current slot. -/
theorem blocks {cur : Fin 8} (h : Scheduled tick vm cur vm') :
    vm'.heap.blocks = (parked vm cur).heap.blocks := by
  cases h with
  | stay => rfl
  | switch next => exact (touchStack_blocks _ _ _).trans (touchStack_blocks _ _ _)

theorem kept_parked {hw : SchedWF vm} (h : Scheduled tick vm hw.cur vm') (i : Fin 8) :
    SlotKept (parked vm hw.cur) vm' i := by
  have hblocks := h.blocks
  obtain ⟨next, -, -, ⟨n, hnext⟩, hrest⟩ := h.task_eq
  by_cases hi : i = next
  · subst hi
    exact ⟨fun s => by rw [hnext]; exact (by cases s <;> rfl :
        _ = (wakeTask tick ((parked vm hw.cur).task i)).base s).trans (wakeTask_base tick _ s),
      by rw [hnext]; exact wakeTask_dsDepth tick _, by rw [hnext]; exact wakeTask_rsDepth tick _,
      fun _ _ _ => by rw [hblocks]⟩
  · exact ⟨fun s => by rw [hrest i hi, wakeTask_base], by rw [hrest i hi, wakeTask_dsDepth],
      by rw [hrest i hi, wakeTask_rsDepth], fun _ _ _ => by rw [hblocks]⟩

theorem heapInv {hw : SchedWF vm} (hh : HeapInv vm) (h : Scheduled tick vm hw.cur vm') :
    HeapInv vm' := by
  refine hh.congr (fun i s => ?_) fun id => ?_
  · rw [(h.kept_parked i).base, parked_base]
  · rw [h.blocks, parked_isSome]

/-- The buffers of a slot other than the current one come through a schedule. -/
theorem kept {hw : SchedWF vm} (hh : HeapInv vm) (h : Scheduled tick vm hw.cur vm') {i : Fin 8}
    (hi : i ≠ hw.cur) : SlotKept vm vm' i := (parked_kept hh hi).trans (h.kept_parked i)

end Scheduled

/-! ## Retiring and spawning -/

/-- Retiring slot `i` keeps the buffers of the others. -/
theorem retireTask_kept {vm : Vm} (h : HeapInv vm) {i j : Fin 8} (hj : j ≠ i) :
    SlotKept vm (retireTask vm i) j := by
  have htask : (retireTask vm i).task j = vm.task j := by
    rw [retireTask_task, if_neg hj]
  refine ⟨fun s => by rw [htask], by rw [htask], by rw [htask], fun s id hid => ?_⟩
  have hne : ∀ s', (vm.task i).base s' ≠ some id := fun s' hs' =>
    hj (h.distinct j s i s' id hid hs').1
  exact (Heap.free_blocks_of_ne _ (hne false)).trans (Heap.free_blocks_of_ne _ (hne true))

theorem retireTask_heapInv {vm : Vm} (h : HeapInv vm) (i : Fin 8) : HeapInv (retireTask vm i) := by
  have hown : ∀ j s id, ((retireTask vm i).task j).base s = some id →
      j ≠ i ∧ (vm.task j).base s = some id := by
    intro j s id hid
    rw [retireTask_task] at hid
    by_cases hj : j = i
    · rw [if_pos hj] at hid
      cases s <;> cases hid
    · rw [if_neg hj] at hid
      exact ⟨hj, hid⟩
  constructor
  · intro j s id hid
    obtain ⟨hj, hid'⟩ := hown j s id hid
    rw [(retireTask_kept h hj).blocks s id hid']
    exact h.owned j s id hid'
  · intro j s k s' id hj hk
    exact h.distinct j s k s' id (hown j s id hj).2 (hown k s' id hk).2

theorem exitCurrent_heapInv {vm : Vm} (h : HeapInv vm) (cur : Fin 8) :
    HeapInv (exitCurrent vm cur) :=
  (retireTask_heapInv h cur).congr (fun _ _ => rfl) fun _ => rfl

theorem exitCurrent_kept {vm : Vm} (h : HeapInv vm) {cur j : Fin 8} (hj : j ≠ cur) :
    SlotKept vm (exitCurrent vm cur) j :=
  (retireTask_kept h hj).trans ⟨fun _ => rfl, rfl, rfl, fun _ _ _ => rfl⟩

theorem cleanup_heapInv {vm : Vm} (h : HeapInv vm) : HeapInv (v4BackendTaskCleanup vm) := by
  have hfold : ∀ (l : List (Fin 8)) (vm : Vm), HeapInv vm → HeapInv (l.foldl retireTask vm) := by
    intro l
    induction l with
    | nil => intro vm h; exact h
    | cons i l ih => intro vm h; exact ih _ (retireTask_heapInv h i)
  exact (hfold (List.finRange 8) vm h).congr (fun _ _ => rfl) fun _ => rfl

theorem malloc_fst (ok : Bool) (n : Nat) (h : Heap) :
    (h.malloc ok n).1 = none ∨
      ((h.malloc ok n).1 = some h.next ∧ (h.malloc ok n).2.next = h.next + 1 ∧
        ((h.malloc ok n).2.blocks h.next).isSome) := by
  cases ok with
  | false => exact .inl rfl
  | true =>
      refine .inr ⟨rfl, rfl, ?_⟩
      show (Function.update h.blocks h.next _ h.next).isSome = true
      rw [Function.update_self]
      rfl

theorem malloc_next_le (ok : Bool) (n : Nat) (h : Heap) : h.next ≤ (h.malloc ok n).2.next := by
  cases ok with
  | false => exact Nat.le_refl _
  | true => exact Nat.le_succ _

/-- The heap after the two allocations of a spawn, and after undoing them, still has
    every earlier block. -/
theorem two_mallocs_blocks {h : Heap} {id : Nat} (hid : id < h.next) (dsOk rsOk : Bool)
    (n m : Nat) :
    ((h.malloc dsOk n).2.malloc rsOk m).2.blocks id = h.blocks id ∧
      ((((h.malloc dsOk n).2.malloc rsOk m).2.free (h.malloc dsOk n).1).free
        ((h.malloc dsOk n).2.malloc rsOk m).1).blocks id = h.blocks id := by
  have hle := malloc_next_le dsOk n h
  have hblocks : ((h.malloc dsOk n).2.malloc rsOk m).2.blocks id = h.blocks id :=
    (Heap.malloc_blocks_of_lt _ (by omega)).trans (Heap.malloc_blocks_of_lt _ hid)
  have hds : (h.malloc dsOk n).1 ≠ some id := by
    obtain h0 | ⟨h1, -⟩ := malloc_fst dsOk n h
    · rw [h0]; exact fun hc => nomatch hc
    · rw [h1]; exact fun hc => by have := Option.some.inj hc; omega
  have hrs : ((h.malloc dsOk n).2.malloc rsOk m).1 ≠ some id := by
    obtain h0 | ⟨h1, -⟩ := malloc_fst rsOk m (h.malloc dsOk n).2
    · rw [h0]; exact fun hc => nomatch hc
    · rw [h1]; exact fun hc => by have := Option.some.inj hc; omega
  refine ⟨hblocks, ?_⟩
  exact ((Heap.free_blocks_of_ne _ hrs).trans (Heap.free_blocks_of_ne _ hds)).trans hblocks

theorem abortSpawn_task_of_ne (vm : Vm) {i j : Fin 8} (a b : Option Nat) (heap : Heap)
    (hj : j ≠ i) : (abortSpawn vm i a b heap).task j = vm.task j :=
  Vm.task_setTask_of_ne vm _ hj

/-- A spawn into slot `i` keeps the buffers of the others. -/
theorem spawnInto_kept {vm : Vm} (h : HeapInv vm) {i j : Fin 8} (hj : j ≠ i) (w : BitVec 16)
    (p : BitVec 8) (ds rs : BitVec 16) (dsOk rsOk : Bool) :
    SlotKept vm (spawnInto vm i w p ds rs dsOk rsOk).2 j := by
  unfold spawnInto
  simp only
  split
  · have htask := abortSpawn_task_of_ne vm (vm.heap.malloc dsOk ds.toNat).1
      ((vm.heap.malloc dsOk ds.toNat).2.malloc rsOk rs.toNat).1
      ((vm.heap.malloc dsOk ds.toNat).2.malloc rsOk rs.toNat).2 hj
    exact ⟨fun s => by rw [htask], by rw [htask], by rw [htask],
      fun s id hid => (two_mallocs_blocks (h.lt_next hid) dsOk rsOk _ _).2⟩
  · exact ⟨fun s => by rw [installTask_task, if_neg hj], by rw [installTask_task, if_neg hj],
      by rw [installTask_task, if_neg hj],
      fun s id hid => (two_mallocs_blocks (h.lt_next hid) dsOk rsOk _ _).1⟩

/-- One slot gets new buffers, all of them younger than the others. -/
theorem HeapInv.replace {vm vm' : Vm} (h : HeapInv vm) (i : Fin 8)
    (hkept : ∀ j, j ≠ i → SlotKept vm vm' j)
    (hnew : ∀ s id, (vm'.task i).base s = some id →
      vm.heap.next ≤ id ∧ (vm'.heap.blocks id).isSome)
    (hdis : ∀ id, (vm'.task i).base true = some id → (vm'.task i).base false ≠ some id) :
    HeapInv vm' := by
  have hold : ∀ j s id, j ≠ i → (vm'.task j).base s = some id → (vm.task j).base s = some id :=
    fun j s id hj hid => (hkept j hj).base s ▸ hid
  constructor
  · intro j s id hid
    by_cases hj : j = i
    · exact (hnew s id (hj ▸ hid)).2
    · rw [(hkept j hj).blocks s id (hold j s id hj hid)]
      exact h.owned j s id (hold j s id hj hid)
  · intro j s k s' id hjid hkid
    -- New blocks lie at or above `next`, old ones below it.
    by_cases hj : j = i <;> by_cases hk : k = i
    · subst hj hk
      refine ⟨rfl, ?_⟩
      cases s <;> cases s'
      · rfl
      · exact absurd hjid (hdis id hkid)
      · exact absurd hkid (hdis id hjid)
      · rfl
    · have hge := (hnew s id (hj ▸ hjid)).1
      have hlt := h.lt_next (hold k s' id hk hkid)
      omega
    · have hge := (hnew s' id (hk ▸ hkid)).1
      have hlt := h.lt_next (hold j s id hj hjid)
      omega
    · exact h.distinct j s k s' id (hold j s id hj hjid) (hold k s' id hk hkid)

theorem spawnInto_heapInv {vm : Vm} (h : HeapInv vm) (i : Fin 8) (w : BitVec 16)
    (p : BitVec 8) (ds rs : BitVec 16) (dsOk rsOk : Bool) :
    HeapInv (spawnInto vm i w p ds rs dsOk rsOk).2 := by
  have hkept := fun j hj => spawnInto_kept h (i := i) (j := j) hj w p ds rs dsOk rsOk
  by_cases hnull : (vm.heap.malloc dsOk ds.toNat).1.isNone ∨
      ((vm.heap.malloc dsOk ds.toNat).2.malloc rsOk rs.toNat).1.isNone
  · have heq : spawnInto vm i w p ds rs dsOk rsOk = (_, abortSpawn vm i _ _ _) := if_pos hnull
    rw [heq] at hkept ⊢
    have htask : (abortSpawn vm i (vm.heap.malloc dsOk ds.toNat).1
        ((vm.heap.malloc dsOk ds.toNat).2.malloc rsOk rs.toNat).1
        ((vm.heap.malloc dsOk ds.toNat).2.malloc rsOk rs.toNat).2).task i
        = { vm.task i with dsBase := none, rsBase := none } := Vm.task_setTask_self vm i _
    refine h.replace i hkept (fun s id hid => ?_) fun id hid => ?_
    · rw [htask] at hid
      cases s <;> cases hid
    · rw [htask] at hid
      cases hid
  · have heq : spawnInto vm i w p ds rs dsOk rsOk = (_, installTask vm i _ _) := if_neg hnull
    rw [heq] at hkept ⊢
    rw [not_or] at hnull
    -- Both blocks are granted: they are `next` and `next + 1`.
    obtain h0 | ⟨hds, hnext, hdsLive⟩ := malloc_fst dsOk ds.toNat vm.heap
    · exact absurd (h0 ▸ rfl) hnull.1
    · obtain h0 | ⟨hrs, hnext', hrsLive⟩ :=
        malloc_fst rsOk rs.toNat (vm.heap.malloc dsOk ds.toNat).2
      · exact absurd (h0 ▸ rfl) hnull.2
      · rw [hnext] at hrs hrsLive
        have htask : ∀ t heap, (installTask vm i t heap).task i = t := fun t heap => by
          rw [installTask_task, if_pos rfl]
        refine h.replace i hkept (fun s id hid => ?_) fun id hid hid' => ?_
        · rw [htask] at hid
          cases s
          · obtain rfl : vm.heap.next + 1 = id := Option.some.inj (hrs.symm.trans hid)
            exact ⟨Nat.le_succ _, hrsLive⟩
          · obtain rfl : vm.heap.next = id := Option.some.inj (hds.symm.trans hid)
            refine ⟨Nat.le_refl _, ?_⟩
            rw [show (installTask vm i _ _).heap.blocks vm.heap.next = _ from
              Heap.malloc_blocks_of_lt _ (by omega)]
            exact hdsLive
        · rw [htask] at hid hid'
          have h1 : vm.heap.next = id := Option.some.inj (hds.symm.trans hid)
          have h2 : vm.heap.next + 1 = id := Option.some.inj (hrs.symm.trans hid')
          omega

/-! ## Every call -/

theorem blockCurrent_heapInv {vm : Vm} (h : HeapInv vm) (tick ms : BitVec 32) (cur : Fin 8) :
    HeapInv (blockCurrent tick ms vm cur) := by
  refine h.congr (fun i s => ?_) fun _ => rfl
  rw [blockCurrent_task]
  split
  · next hi => subst hi; cases s <;> rfl
  · rfl

theorem blockCurrent_kept (tick ms : BitVec 32) (vm : Vm) (cur i : Fin 8) :
    SlotKept vm (blockCurrent tick ms vm cur) i := by
  have htask : (blockCurrent tick ms vm cur).task i = if i = cur then _ else vm.task i :=
    blockCurrent_task tick ms vm cur i
  by_cases hi : i = cur
  · subst hi
    rw [if_pos rfl] at htask
    exact ⟨fun s => by rw [htask]; cases s <;> rfl, by rw [htask], by rw [htask],
      fun _ _ _ => rfl⟩
  · rw [if_neg hi] at htask
    exact ⟨fun s => by rw [htask], by rw [htask], by rw [htask], fun _ _ _ => rfl⟩

/-- `vm_schedule` keeps the ownership invariant. -/
theorem vmSchedule_heapInv {tick : BitVec 32} {vm vm' : Vm} (hw : SchedWF vm) (hh : HeapInv vm)
    (h : vmSchedule tick vm = some vm') : HeapInv vm' := by
  have hs := scheduled_of_eq hw h
  exact hs.heapInv hh

theorem backendStep_heapInv {vm vm' : Vm} {o : BackendOp} (h : BackendInv vm) (hh : HeapInv vm)
    (hstep : backendStep o vm = some vm') : HeapInv vm' := by
  -- only spawn, exit, cleanup and the switches touch a buffer or the heap
  have same : ∀ v : Vm, (∀ i s, (v.task i).base s = (vm.task i).base s) →
      v.heap = vm.heap → HeapInv v :=
    fun v hb hheap => hh.congr hb fun id => by rw [hheap]
  cases o with
  | spawn w p ds rs dsOk rsOk =>
      cases hstep
      obtain ⟨e, -, heq⟩ | ⟨i, -, heq⟩ := v4BackendTaskSpawn_cases w p ds rs dsOk rsOk vm
      · rw [heq]; exact hh
      · rw [heq]; exact spawnInto_heapInv hh i w p _ _ dsOk rsOk
  | exit tick =>
      rw [backendStep, v4BackendTaskExit, h.sched.taskPtr] at hstep
      exact vmSchedule_heapInv (exitCurrent_wf h.sched h.sched.cur) (exitCurrent_heapInv hh _) hstep
  | sleep ms tick tick' =>
      rw [backendStep, v4BackendTaskSleep, h.sched.taskPtr] at hstep
      exact vmSchedule_heapInv (blockCurrent_wf h.sched tick ms h.sched.cur)
        (blockCurrent_heapInv hh tick ms _) hstep
  | yield tick => exact vmSchedule_heapInv h.sched hh hstep
  | schedule tick => exact vmSchedule_heapInv h.sched hh hstep
  | scheduleFromIsr tick =>
      rw [backendStep, vmScheduleFromIsr] at hstep
      split at hstep
      · cases hstep; exact hh
      · exact vmSchedule_heapInv (countPreemption_inv h).sched
          (same _ (fun _ _ => rfl) rfl) hstep
  | selectNext tick =>
      cases hstep
      exact same _ (fun i s => wakeTask_base tick (vm.task i) s) rfl
  | cleanup => cases hstep; exact cleanup_heapInv hh
  | _ =>
      have hsame := backendStep_sameTasks rfl hstep
      exact same vm' (fun i s => by rw [hsame.task]) hsame.heap

/-- No slot owns a buffer after `vm_task_init`. -/
theorem init_heapInv (timeSliceMs : BitVec 32) (vm : Vm) :
    HeapInv (v4BackendTaskInit timeSliceMs vm) := by
  have hnone : ∀ i s, ((v4BackendTaskInit timeSliceMs vm).task i).base s = none :=
    fun i s => by cases s <;> rfl
  constructor
  · intro i s id hid
    rw [hnone] at hid
    cases hid
  · intro i s j s' id hid _
    rw [hnone] at hid
    cases hid

/-- **Ownership** holds in every reachable state. -/
theorem BackendReachable.heapInv {vm : Vm} (h : BackendReachable vm) : HeapInv vm :=
  h.induct init_heapInv fun _ _ _ hinv hheap hstep => backendStep_heapInv hinv hheap hstep

end V4Engine
