/-
  V4Engine.Task.Buffers

  The stack buffers of tasks: how large they are, and what is copied into them.

  A spawn allocates what it was asked for, but records the size in eight bits, and
  a schedule copies as many cells as the live stacks hold.  `BuffersOk` is the
  exact condition on a call under which the recorded sizes are those of the blocks
  and every copy stays within its block.
-/
import V4Engine.Task.Heap

namespace V4Engine

open Lib

namespace Heap

/-- The size of block `id`, if it is live. -/
def capOf (h : Heap) (id : Nat) : Option Nat := (h.blocks id).map Block.cap

theorem holds_iff {h : Heap} {id cap : Nat} (hc : h.capOf id = some cap) (n : Nat) :
    h.holds id n = true ↔ n ≤ cap := by
  obtain ⟨b, hb, rfl⟩ := Option.map_eq_some_iff.mp hc
  simp [holds, hb]

theorem touch_errors (id n : Nat) (h : Heap) :
    (h.touch id n).errors = if h.holds id n then h.errors else .badAccess id n :: h.errors := by
  unfold touch
  split <;> rfl

theorem capOf_copyIn (id k n : Nat) (src : Nat → Cell) (h : Heap) :
    (h.copyIn id n src).capOf k = h.capOf k := by
  by_cases hk : k = id
  · rw [hk, capOf, copyIn_blocks_self, Option.map_map]
    rfl
  · rw [capOf, copyIn_blocks_of_ne src h hk]
    rfl

theorem malloc_errors (ok : Bool) (n : Nat) (h : Heap) : (h.malloc ok n).2.errors = h.errors := by
  unfold malloc
  split <;> rfl

theorem malloc_capOf_next (n : Nat) (h : Heap) : (h.malloc true n).2.capOf h.next = some n := by
  show (Function.update h.blocks h.next (some ⟨n, fun _ => 0⟩) h.next).map Block.cap = some n
  rw [Function.update_self]
  rfl

/-- Freeing a live block, or nothing, is legal. -/
theorem free_errors {p : Option Nat} {h : Heap} (hp : ∀ id, p = some id → (h.blocks id).isSome) :
    (h.free p).errors = h.errors := by
  cases p with
  | none => rfl
  | some id => rw [free, if_pos (hp id rfl)]; rfl

/-- A block may be given back at once. -/
theorem malloc_free_errors (n : Nat) (h : Heap) :
    ((h.malloc true n).2.free (some h.next)).errors = h.errors := by
  rw [free_errors, malloc_errors]
  intro id hid
  obtain rfl := Option.some.inj hid
  have hcap := congrArg Option.isSome (malloc_capOf_next n h)
  exact Option.isSome_map.symm.trans hcap

end Heap

/-! ## Accesses of a schedule -/

/-- The error recorded by an access to the first `n` cells behind `base`, if any. -/
def accessErrors (base : Option Nat) (n : Nat) (h : Heap) : List HeapError :=
  match base with
  | some id => if n > 0 ∧ h.holds id n = false then [.badAccess id n] else []
  | none => []

theorem touchStack_errors (base : Option Nat) (n : Nat) (h : Heap) :
    (touchStack base n h).errors = accessErrors base n h ++ h.errors := by
  cases base with
  | none => rfl
  | some id =>
      by_cases hn : n > 0
      · rw [touchStack, if_pos hn, Heap.touch_errors, accessErrors]
        cases h.holds id n with
        | true => simp
        | false => simp [hn]
      · simp [touchStack, accessErrors, hn]

/-- A copy into a buffer makes the same access. -/
theorem saveStack_errors (base : Option Nat) (n : Nat) (stack : Nat → Cell) (h : Heap) :
    (saveStack base n stack h).errors = accessErrors base n h ++ h.errors := by
  rw [← touchStack_errors]
  cases base with
  | none => rfl
  | some id =>
      simp only [saveStack, touchStack]
      split <;> rfl

theorem capOf_saveStack (base : Option Nat) (n k : Nat) (stack : Nat → Cell) (h : Heap) :
    (saveStack base n stack h).capOf k = h.capOf k := by
  cases base with
  | none => rfl
  | some id =>
      simp only [saveStack]
      split
      · exact Heap.capOf_copyIn id k n stack h
      · rfl

/-- The access is legal when the block is large enough, and only then. -/
theorem accessErrors_eq_nil_iff {base : Option Nat} {n cap : Nat} {h : Heap}
    (hcap : ∀ id, base = some id → h.capOf id = some cap) :
    accessErrors base n h = [] ↔ (base.isSome → n ≤ cap) := by
  cases base with
  | none => simp [accessErrors]
  | some id =>
      have hholds := Heap.holds_iff (hcap id rfl) n
      rw [accessErrors]
      by_cases hle : n ≤ cap
      · simp [hholds.mpr hle, hle]
      · have hfalse : h.holds id n = false := by
          rw [Bool.eq_false_iff]
          exact fun ht => hle (hholds.mp ht)
        have hn : n > 0 := by omega
        simp [hfalse, hn, hle]

/-! ## Sizes and depths -/

/-- The recorded sizes and saved depths of a task: `true` for data, `false` for
    return. -/
def V4Task.size (t : V4Task) : Bool → BitVec 8
  | true => t.dsSize
  | false => t.rsSize

def V4Task.depth (t : V4Task) : Bool → BitVec 8
  | true => t.dsDepth
  | false => t.rsDepth

/-- The depth of the live stack as it goes into a task record. -/
def Vm.depth (vm : Vm) : Bool → BitVec 8
  | true => BitVec.ofNat 8 vm.sp
  | false => BitVec.ofNat 8 vm.rp

/-- Every buffer is as large as the task record says. -/
def SizesExact (vm : Vm) : Prop :=
  ∀ i s id, (vm.task i).base s = some id → vm.heap.capOf id = some ((vm.task i).size s).toNat

/-- What is expected of one call: it makes no illegal access, and afterwards the
    recorded sizes are right. -/
def BufferLaw (vm : Vm) (_o : BackendOp) (vm' : Vm) : Prop :=
  vm'.heap.errors = vm.heap.errors ∧ SizesExact vm'

/-- The live stacks fit the buffers of the current task, if a schedule saves them. -/
def DepthsFitBuffers (vm : Vm) : Prop :=
  ∀ i, vm.IsCurrent i → (vm.task i).state = .running →
    ∀ s, ((vm.task i).base s).isSome → vm.depth s ≤ (vm.task i).size s

instance (vm : Vm) : Decidable (DepthsFitBuffers vm) := inferInstanceAs (Decidable (∀ _, _))

/-- The condition on a call: a spawn that succeeds asks for sizes below 256, and a
    schedule finds the live stacks no deeper than the buffers they are saved to. -/
def BuffersOk (vm : Vm) : BackendOp → Prop
  | .spawn w _ ds rs dsOk rsOk =>
      w.toNat < vm.wordCount → (∃ i, (vm.task i).state = .dead) → dsOk → rsOk →
        (stackSize ds 256).toNat < 256 ∧ (stackSize rs 64).toNat < 256
  | .yield _ | .schedule _ => DepthsFitBuffers vm
  | .scheduleFromIsr _ => vm.scheduler.criticalNesting > 0 ∨ DepthsFitBuffers vm
  | _ => True

instance (vm : Vm) (o : BackendOp) : Decidable (BuffersOk vm o) :=
  match o with
  | .spawn .. => inferInstanceAs (Decidable (_ → _))
  | .yield _ | .schedule _ => inferInstanceAs (Decidable (DepthsFitBuffers vm))
  | .scheduleFromIsr _ => inferInstanceAs (Decidable (_ ∨ _))
  | .exit _ | .sleep .. | .selectNext _ | .cleanup | .criticalEnter | .criticalExit | .send ..
  | .receive _ | .program _ => inferInstanceAs (Decidable True)

/-- One slot: its buffers are as large as recorded, and what was saved fits. -/
def SlotSized (vm : Vm) (i : Fin 8) : Prop :=
  ∀ s id, (vm.task i).base s = some id →
    vm.heap.capOf id = some ((vm.task i).size s).toNat ∧ (vm.task i).depth s ≤ (vm.task i).size s

/-- The invariant. -/
def BufferInv (vm : Vm) : Prop := ∀ i, SlotSized vm i

theorem BufferInv.sizes {vm : Vm} (h : BufferInv vm) : SizesExact vm :=
  fun i s id hid => (h i s id hid).1

theorem BufferInv.congr {vm vm' : Vm} (h : BufferInv vm) (hsame : SameTasks vm vm') :
    BufferInv vm' := by
  intro i s id hid
  rw [hsame.task] at hid ⊢
  rw [hsame.heap]
  exact h i s id hid

theorem SlotSized.of_none {vm : Vm} {i : Fin 8} (h : ∀ s, (vm.task i).base s = none) :
    SlotSized vm i := by
  intro s id hid
  rw [h s] at hid
  cases hid

theorem SlotKept.depth {vm vm' : Vm} {i : Fin 8} (h : SlotKept vm vm' i) (s : Bool) :
    (vm'.task i).depth s = (vm.task i).depth s := by
  cases s
  · exact h.rsDepth
  · exact h.dsDepth

theorem SlotSized.kept {vm vm' : Vm} {i : Fin 8} (h : SlotSized vm i) (hk : SlotKept vm vm' i)
    (hsize : ∀ s, (vm'.task i).size s = (vm.task i).size s) : SlotSized vm' i := by
  intro s id hid
  rw [hk.base] at hid
  rw [hsize, hk.depth, Heap.capOf, hk.blocks s id hid]
  exact h s id hid

/-! ## `vm_schedule` -/

/-- The stacks that would be saved fit the buffers of slot `cur`. -/
def SaveFits (vm : Vm) (cur : Fin 8) : Prop :=
  (vm.task cur).state = .running →
    ∀ s, ((vm.task cur).base s).isSome → vm.depth s ≤ (vm.task cur).size s

theorem depthsFitBuffers_iff {vm : Vm} (hw : SchedWF vm) :
    DepthsFitBuffers vm ↔ SaveFits vm hw.cur := by
  constructor
  · intro h
    exact h hw.cur ((hw.isCurrent_iff hw.cur).mpr rfl)
  · intro h i hi
    rw [(hw.isCurrent_iff i).mp hi]
    exact h

/-- Parking a RUNNING task copies both stacks into its buffers. -/
theorem parked_heap_of_running {vm : Vm} {cur : Fin 8} (hr : (vm.task cur).state = .running) :
    (parked vm cur).heap = saveStack (vm.task cur).rsBase (vm.depth false).toNat vm.RS
      (saveStack (vm.task cur).dsBase (vm.depth true).toNat vm.DS vm.heap) := by
  rw [parked, if_pos hr]
  rfl

theorem parked_eq_of_not_running {vm : Vm} {cur : Fin 8} (hr : (vm.task cur).state ≠ .running) :
    parked vm cur = vm := if_neg hr

/-- The errors of parking are those of its two copies: none when the stacks fit. -/
theorem parked_errors {vm : Vm} (h : SizesExact vm) (cur : Fin 8) :
    ∃ l, (parked vm cur).heap.errors = l ++ vm.heap.errors ∧ (l = [] ↔ SaveFits vm cur) := by
  by_cases hr : (vm.task cur).state = .running
  · rw [parked_heap_of_running hr, saveStack_errors, saveStack_errors, ← List.append_assoc]
    refine ⟨_, rfl, ?_⟩
    -- Each copy is legal when its depth is at most the recorded size.
    have hds : accessErrors (vm.task cur).dsBase (vm.depth true).toNat vm.heap = [] ↔
        ((vm.task cur).dsBase.isSome → (vm.depth true).toNat ≤ ((vm.task cur).size true).toNat) :=
      accessErrors_eq_nil_iff fun id hid => h cur true id hid
    have hrs : accessErrors (vm.task cur).rsBase (vm.depth false).toNat
          (saveStack (vm.task cur).dsBase (vm.depth true).toNat vm.DS vm.heap) = [] ↔
        ((vm.task cur).rsBase.isSome →
          (vm.depth false).toNat ≤ ((vm.task cur).size false).toNat) := by
      apply accessErrors_eq_nil_iff
      intro id hid
      rw [capOf_saveStack]
      exact h cur false id hid
    rw [List.append_eq_nil_iff, hds, hrs, SaveFits]
    constructor
    · rintro ⟨hrfit, hdfit⟩ _ s hs
      cases s
      · exact BitVec.le_def.mpr (hrfit hs)
      · exact BitVec.le_def.mpr (hdfit hs)
    · intro hfits
      exact ⟨fun hs => BitVec.le_def.mp (hfits hr false hs),
        fun hs => BitVec.le_def.mp (hfits hr true hs)⟩
  · rw [parked_eq_of_not_running hr]
    exact ⟨[], rfl, iff_of_true rfl fun hr' => absurd hr' hr⟩

theorem parked_size (vm : Vm) (cur i : Fin 8) (s : Bool) :
    ((parked vm cur).task i).size s = (vm.task i).size s := by
  by_cases hi : i = cur
  · subst hi
    rw [parked_task_self]
    split <;> cases s <;> rfl
  · rw [parked_task_of_ne hi]

/-- What was saved fits, if it fitted when it was saved. -/
theorem parked_bufferInv {vm : Vm} (hh : HeapInv vm) (h : BufferInv vm) {cur : Fin 8}
    (hfits : SaveFits vm cur) : BufferInv (parked vm cur) := by
  intro i
  by_cases hi : i = cur
  · subst hi
    by_cases hr : (vm.task i).state = .running
    · intro s id hid
      rw [parked_base] at hid
      have hcap : (parked vm i).heap.capOf id = vm.heap.capOf id := by
        rw [parked_heap_of_running hr, capOf_saveStack, capOf_saveStack]
      have hdepth : ((parked vm i).task i).depth s = vm.depth s := by
        rw [parked_task_self, if_pos hr]
        cases s <;> rfl
      rw [parked_size, hcap, hdepth]
      exact ⟨(h i s id hid).1, hfits hr s (hid ▸ rfl)⟩
    · rw [parked_eq_of_not_running hr]
      exact h i
  · exact (h i).kept (parked_kept hh hi) (parked_size vm cur i)

theorem wakeTask_size (tick : BitVec 32) (t : V4Task) (s : Bool) :
    (wakeTask tick t).size s = t.size s := by
  obtain ⟨-, -, heq⟩ | ⟨-, heq⟩ := wakeTask_cases tick t
  · rw [heq]
    cases s <;> rfl
  · rw [heq]

/-- The two reads of a restore are legal when the saved depths fit. -/
theorem restored_errors (vm : Vm) (next : Fin 8) :
    ∃ l, (switched vm next).heap.errors = l ++ vm.heap.errors ∧ (SlotSized vm next → l = []) := by
  have hheap : (switched vm next).heap.errors
      = accessErrors (vm.task next).rsBase (vm.task next).rsDepth.toNat
          (touchStack (vm.task next).dsBase (vm.task next).dsDepth.toNat vm.heap)
        ++ (accessErrors (vm.task next).dsBase (vm.task next).dsDepth.toNat vm.heap
          ++ vm.heap.errors) := by
    rw [← touchStack_errors, ← touchStack_errors]
    rfl
  rw [hheap, ← List.append_assoc]
  refine ⟨_, rfl, fun hsized => ?_⟩
  have hfits : ∀ s, ((vm.task next).base s).isSome →
      ((vm.task next).depth s).toNat ≤ ((vm.task next).size s).toNat := by
    intro s hs
    obtain ⟨id, hid⟩ := Option.isSome_iff_exists.mp hs
    exact BitVec.le_def.mp (hsized s id hid).2
  rw [List.append_eq_nil_iff]
  constructor
  · refine (accessErrors_eq_nil_iff fun id hid => ?_).mpr (hfits false)
    rw [Heap.capOf, touchStack_blocks]
    exact (hsized false id hid).1
  · refine (accessErrors_eq_nil_iff fun id hid => ?_).mpr (hfits true)
    exact (hsized true id hid).1

namespace Scheduled

variable {tick : BitVec 32} {vm vm' : Vm}

theorem size {hw : SchedWF vm} (h : Scheduled tick vm hw.cur vm') (i : Fin 8) (s : Bool) :
    (vm'.task i).size s = ((parked vm hw.cur).task i).size s := by
  obtain ⟨next, -, -, ⟨n, hnext⟩, hrest⟩ := h.task_eq
  by_cases hi : i = next
  · rw [hi, ← wakeTask_size tick ((parked vm hw.cur).task next), hnext]
    cases s <;> rfl
  · rw [hrest i hi, wakeTask_size]

theorem bufferInv {hw : SchedWF vm} (h : Scheduled tick vm hw.cur vm')
    (hb : BufferInv (parked vm hw.cur)) : BufferInv vm' :=
  fun i => (hb i).kept (h.kept_parked i) (h.size i)

/-- After parking, a schedule reads back a saved context: legal when it fits. -/
theorem errors {hw : SchedWF vm} (h : Scheduled tick vm hw.cur vm') :
    ∃ l, vm'.heap.errors = l ++ (parked vm hw.cur).heap.errors ∧
      (BufferInv (parked vm hw.cur) → l = []) := by
  cases h with
  | stay => exact ⟨[], rfl, fun _ => rfl⟩
  | switch next =>
      obtain ⟨l, hl, hnil⟩ := restored_errors (wakeAll tick (parked vm hw.cur)) next
      refine ⟨l, hl, fun hb => hnil ?_⟩
      exact (hb next).kept (wakeAll_kept tick _ next) (wakeTask_size tick _)

end Scheduled

/-- **A schedule** makes no illegal access exactly when the stacks it saves fit, and
    then it keeps the invariant. -/
theorem vmSchedule_buffers {tick : BitVec 32} {vm vm' : Vm} (hw : SchedWF vm) (hh : HeapInv vm)
    (hb : BufferInv vm) (hs : vmSchedule tick vm = some vm') :
    (SaveFits vm hw.cur ∧ vm'.heap.errors = vm.heap.errors ∧ BufferInv vm') ∨
      (¬SaveFits vm hw.cur ∧ vm'.heap.errors ≠ vm.heap.errors) := by
  have hsched := scheduled_of_eq hw hs
  -- `l` are the illegal accesses of the save, `l'` those of the restore after it
  obtain ⟨l, hl, hlnil⟩ := parked_errors hb.sizes hw.cur
  obtain ⟨l', hl', hl'nil⟩ := hsched.errors
  by_cases hfits : SaveFits vm hw.cur
  · left
    have hparked := parked_bufferInv hh hb hfits
    refine ⟨hfits, ?_, hsched.bufferInv hparked⟩
    rw [hl', hl, hl'nil hparked, hlnil.mpr hfits]
    rfl
  · right
    refine ⟨hfits, fun herr => ?_⟩
    rw [hl', hl, ← List.append_assoc, List.append_left_eq_self, List.append_eq_nil_iff] at herr
    exact hfits (hlnil.mp herr.2)

/-! ## Retiring -/

/-- Both buffers of a retired slot were live. -/
theorem retireTask_errors {vm : Vm} (hh : HeapInv vm) (i : Fin 8) :
    (retireTask vm i).heap.errors = vm.heap.errors := by
  show ((vm.heap.free (vm.task i).dsBase).free (vm.task i).rsBase).errors = _
  rw [Heap.free_errors, Heap.free_errors]
  · intro id hid
    exact hh.owned i true id hid
  · intro id hid
    rw [Heap.free_blocks_of_ne]
    · exact hh.owned i false id hid
    · -- the two buffers of a slot are different blocks
      intro hds
      cases (hh.distinct i true i false id hds hid).2

theorem retireTask_bufferInv {vm : Vm} (hh : HeapInv vm) (h : BufferInv vm) (i : Fin 8) :
    BufferInv (retireTask vm i) := by
  intro j
  have htask := retireTask_task vm i j
  by_cases hj : j = i
  · rw [if_pos hj] at htask
    refine SlotSized.of_none fun s => ?_
    rw [htask]
    cases s <;> rfl
  · rw [if_neg hj] at htask
    exact (h j).kept (retireTask_kept hh hj) fun s => by rw [htask]

/-- Retiring the slots of a list one after the other makes no illegal access. -/
theorem foldl_retireTask_buffers (l : List (Fin 8)) {vm : Vm} (hh : HeapInv vm)
    (h : BufferInv vm) :
    (l.foldl retireTask vm).heap.errors = vm.heap.errors ∧ BufferInv (l.foldl retireTask vm) := by
  induction l generalizing vm with
  | nil => exact ⟨rfl, h⟩
  | cons i l ih =>
      obtain ⟨herr, hinv⟩ := ih (retireTask_heapInv hh i) (retireTask_bufferInv hh h i)
      exact ⟨herr.trans (retireTask_errors hh i), hinv⟩

/-! ## Spawning -/

theorem spawnInto_task_of_ne (vm : Vm) {i j : Fin 8} (hj : j ≠ i) (w : BitVec 16)
    (p : BitVec 8) (ds rs : BitVec 16) (dsOk rsOk : Bool) :
    (spawnInto vm i w p ds rs dsOk rsOk).2.task j = vm.task j := by
  obtain ⟨a, b, heap, hs⟩ | ⟨a, b, heap, hs⟩ := spawnInto_cases vm i w p ds rs dsOk rsOk
  · rw [hs]
    exact abortSpawn_task_of_ne vm a b heap hj
  · rw [hs]
    exact installTask_task_of_ne vm _ heap hj

/-- A spawn that is refused one of its blocks is undone. -/
theorem spawnInto_eq_abort (vm : Vm) (i : Fin 8) (w : BitVec 16) (p : BitVec 8)
    (ds rs : BitVec 16) {dsOk rsOk : Bool} (hok : ¬(dsOk = true ∧ rsOk = true)) :
    spawnInto vm i w p ds rs dsOk rsOk = (Err.noMemory.code,
      abortSpawn vm i (vm.heap.malloc dsOk ds.toNat).1
        ((vm.heap.malloc dsOk ds.toNat).2.malloc rsOk rs.toNat).1
        ((vm.heap.malloc dsOk ds.toNat).2.malloc rsOk rs.toNat).2) := by
  refine if_pos ?_
  cases dsOk with
  | false => exact Or.inl rfl
  | true =>
      cases rsOk with
      | false => exact Or.inr rfl
      | true => exact absurd ⟨rfl, rfl⟩ hok

/-- A spawn that is refused memory leaves its slot without buffers. -/
theorem spawnInto_refused (vm : Vm) (i : Fin 8) (w : BitVec 16) (p : BitVec 8)
    (ds rs : BitVec 16) {dsOk rsOk : Bool} (hok : ¬(dsOk = true ∧ rsOk = true)) :
    (spawnInto vm i w p ds rs dsOk rsOk).2.heap.errors = vm.heap.errors ∧
      ∀ s, ((spawnInto vm i w p ds rs dsOk rsOk).2.task i).base s = none := by
  rw [spawnInto_eq_abort vm i w p ds rs hok]
  constructor
  · -- only blocks of this call are freed
    show ((((vm.heap.malloc dsOk ds.toNat).2.malloc rsOk rs.toNat).2.free
      (vm.heap.malloc dsOk ds.toNat).1).free
      ((vm.heap.malloc dsOk ds.toNat).2.malloc rsOk rs.toNat).1).errors = _
    cases dsOk with
    | false =>
        cases rsOk with
        | false => rfl
        | true => exact Heap.malloc_free_errors rs.toNat vm.heap
    | true =>
        cases rsOk with
        | false => exact Heap.malloc_free_errors ds.toNat vm.heap
        | true => exact absurd ⟨rfl, rfl⟩ hok
  · intro s
    show ((abortSpawn vm i _ _ _).task i).base s = none
    rw [abortSpawn]
    show ((vm.setTask i _).task i).base s = none
    rw [Vm.task_setTask_self]
    cases s <;> rfl

/-- A spawn that gets its memory gives the slot two buffers of the sizes asked for,
    and records those sizes in eight bits. -/
theorem spawnInto_served (vm : Vm) (i : Fin 8) (w : BitVec 16) (p : BitVec 8)
    (ds rs : BitVec 16) :
    (spawnInto vm i w p ds rs true true).2.heap.errors = vm.heap.errors ∧
      ∀ s : Bool, ∃ id, ((spawnInto vm i w p ds rs true true).2.task i).base s = some id ∧
        (spawnInto vm i w p ds rs true true).2.heap.capOf id
          = some (if s then ds else rs).toNat ∧
        ((spawnInto vm i w p ds rs true true).2.task i).size s
          = (if s then ds else rs).setWidth 8 ∧
        ((spawnInto vm i w p ds rs true true).2.task i).depth s = 0 := by
  have heq : spawnInto vm i w p ds rs true true
      = ((i.val : Int), installTask vm i
          (freshTask w p ds rs (some vm.heap.next) (some (vm.heap.next + 1)))
          ((vm.heap.malloc true ds.toNat).2.malloc true rs.toNat).2) := rfl
  rw [heq]
  constructor
  · show ((vm.heap.malloc true ds.toNat).2.malloc true rs.toNat).2.errors = _
    rw [Heap.malloc_errors, Heap.malloc_errors]
  · intro s
    rw [installTask_task, if_pos rfl]
    cases s with
    | false =>
        exact ⟨_, rfl, Heap.malloc_capOf_next rs.toNat (vm.heap.malloc true ds.toNat).2, rfl, rfl⟩
    | true =>
        -- the data stack's block is the older one: the second request leaves it alone
        refine ⟨_, rfl, ?_, rfl, rfl⟩
        show (((vm.heap.malloc true ds.toNat).2.malloc true rs.toNat).2.blocks vm.heap.next).map
          Block.cap = _
        rw [Heap.malloc_blocks_of_lt _ (Nat.lt_succ_self _)]
        exact Heap.malloc_capOf_next ds.toNat vm.heap

/-- A size survives the 8-bit field when it is below 256. -/
theorem setWidth_toNat_iff (n : BitVec 16) : n.toNat = (n.setWidth 8).toNat ↔ n.toNat < 256 := by
  rw [BitVec.toNat_setWidth]
  omega

/-- Requests below 256 leave the new slot with buffers of the recorded sizes. -/
theorem spawnInto_slotSized (vm : Vm) (i : Fin 8) (w : BitVec 16) (p : BitVec 8)
    {ds rs : BitVec 16} (hsmall : ∀ s : Bool, (if s then ds else rs).toNat < 256) :
    SlotSized (spawnInto vm i w p ds rs true true).2 i := by
  intro s id hid
  obtain ⟨id', hid', hcap, hsize, hdepth⟩ := (spawnInto_served vm i w p ds rs).2 s
  obtain rfl : id' = id := Option.some.inj (hid'.symm.trans hid)
  rw [hcap, hsize, hdepth, ← (setWidth_toNat_iff _).mpr (hsmall s)]
  exact ⟨rfl, BitVec.le_def.mpr (Nat.zero_le _)⟩

/-- Sizes are recorded exactly only for requests below 256. -/
theorem spawnInto_small (vm : Vm) (i : Fin 8) (w : BitVec 16) (p : BitVec 8) {ds rs : BitVec 16}
    (hexact : ∀ s id, ((spawnInto vm i w p ds rs true true).2.task i).base s = some id →
      (spawnInto vm i w p ds rs true true).2.heap.capOf id
        = some (((spawnInto vm i w p ds rs true true).2.task i).size s).toNat) (s : Bool) :
    (if s then ds else rs).toNat < 256 := by
  obtain ⟨id, hid, hcap, hsize, -⟩ := (spawnInto_served vm i w p ds rs).2 s
  have hrec := hexact s id hid
  rw [hcap, hsize] at hrec
  exact (setWidth_toNat_iff _).mp (Option.some.inj hrec)

/-- When a slot and both blocks are available, a spawn request meets its condition
    exactly when both sizes are below 256. -/
theorem buffersOk_spawn_iff {vm : Vm} {w : BitVec 16} {p : BitVec 8} {ds rs : BitVec 16}
    (hw : w.toNat < vm.wordCount) (hdead : ∃ i, (vm.task i).state = .dead) :
    BuffersOk vm (.spawn w p ds rs true true) ↔
      ∀ s : Bool, (if s then stackSize ds 256 else stackSize rs 64).toNat < 256 := by
  constructor
  · intro h s
    obtain ⟨h1, h2⟩ := h hw hdead rfl rfl
    cases s
    · exact h2
    · exact h1
  · intro h _ _ _ _
    exact ⟨h true, h false⟩

/-- **A spawn** makes no illegal access; it records the sizes of its buffers exactly
    when its request meets the condition. -/
theorem spawn_buffers {vm : Vm} (hh : HeapInv vm) (hb : BufferInv vm) (w : BitVec 16)
    (p : BitVec 8) (ds rs : BitVec 16) (dsOk rsOk : Bool) :
    (v4BackendTaskSpawn w p ds rs dsOk rsOk vm).2.heap.errors = vm.heap.errors ∧
      ((BuffersOk vm (.spawn w p ds rs dsOk rsOk) ∧
          BufferInv (v4BackendTaskSpawn w p ds rs dsOk rsOk vm).2) ∨
        (¬BuffersOk vm (.spawn w p ds rs dsOk rsOk) ∧
          ¬SizesExact (v4BackendTaskSpawn w p ds rs dsOk rsOk vm).2)) := by
  unfold v4BackendTaskSpawn
  by_cases hw : w.toNat ≥ vm.wordCount
  · rw [if_pos hw]
    exact ⟨rfl, Or.inl ⟨fun hlt => absurd hlt (Nat.not_lt.mpr hw), hb⟩⟩
  rw [if_neg hw]
  cases hfind : findDead vm with
  | none =>
      refine ⟨rfl, Or.inl ⟨fun _ hdead => ?_, hb⟩⟩
      obtain ⟨i, hi⟩ := hdead
      have hnone := List.find?_eq_none.mp hfind i (List.mem_finRange i)
      exact absurd hi (by simpa using hnone)
  | some i =>
      have hdead : (vm.task i).state = .dead := by simpa using List.find?_some hfind
      have hothers : ∀ j, j ≠ i → SlotSized (spawnInto vm i w p (stackSize ds 256)
          (stackSize rs 64) dsOk rsOk).2 j := by
        intro j hj
        refine (hb j).kept (spawnInto_kept hh hj w p _ _ dsOk rsOk) fun s => ?_
        rw [spawnInto_task_of_ne vm hj]
      by_cases hok : dsOk = true ∧ rsOk = true
      · -- both blocks are granted: the sizes asked for decide
        obtain ⟨rfl, rfl⟩ := hok
        have herr := (spawnInto_served vm i w p (stackSize ds 256) (stackSize rs 64)).1
        refine ⟨herr, ?_⟩
        rw [buffersOk_spawn_iff (Nat.not_le.mp hw) ⟨i, hdead⟩]
        by_cases hsmall : ∀ s : Bool, (if s then stackSize ds 256 else stackSize rs 64).toNat < 256
        · refine Or.inl ⟨hsmall, fun j => ?_⟩
          by_cases hj : j = i
          · subst hj
            exact spawnInto_slotSized vm j w p hsmall
          · exact hothers j hj
        · exact Or.inr ⟨hsmall, fun hexact => hsmall (spawnInto_small vm i w p (hexact i))⟩
      · -- a refused block: the slot is left without buffers
        obtain ⟨herr, hnone⟩ :=
          spawnInto_refused vm i w p (stackSize ds 256) (stackSize rs 64) hok
        refine ⟨herr, Or.inl ⟨fun _ _ h1 h2 => absurd ⟨h1, h2⟩ hok, fun j => ?_⟩⟩
        by_cases hj : j = i
        · subst hj
          exact SlotSized.of_none hnone
        · exact hothers j hj

/-! ## Every call -/

/-- A schedule that parks nothing. -/
theorem vmSchedule_buffers_of_not_running {tick : BitVec 32} {vm vm' : Vm} (hw : SchedWF vm)
    (hh : HeapInv vm) (hb : BufferInv vm) (hr : (vm.task hw.cur).state ≠ .running)
    (hs : vmSchedule tick vm = some vm') :
    vm'.heap.errors = vm.heap.errors ∧ BufferInv vm' := by
  obtain ⟨-, hgood⟩ | ⟨hbad, -⟩ := vmSchedule_buffers hw hh hb hs
  · exact hgood
  · exact absurd (fun hr' => absurd hr' hr) hbad

/-- A schedule made directly, by a yield or by an interrupt. -/
theorem schedule_buffers {tick : BitVec 32} {vm vm' : Vm} (hw : SchedWF vm) (hh : HeapInv vm)
    (hb : BufferInv vm) (hs : vmSchedule tick vm = some vm') :
    (DepthsFitBuffers vm ∧ vm'.heap.errors = vm.heap.errors ∧ BufferInv vm') ∨
      (¬DepthsFitBuffers vm ∧ vm'.heap.errors ≠ vm.heap.errors) := by
  rw [depthsFitBuffers_iff hw]
  exact vmSchedule_buffers hw hh hb hs

/-- **One call**, in a state satisfying the invariants: it meets the condition, obeys
    the law and keeps the invariant, or it neither meets the one nor obeys the other. -/
theorem backendStep_buffers {vm vm' : Vm} {o : BackendOp} (hinv : BackendInv vm)
    (hh : HeapInv vm) (hb : BufferInv vm) (hstep : backendStep o vm = some vm') :
    (BuffersOk vm o ∧ vm'.heap.errors = vm.heap.errors ∧ BufferInv vm') ∨
      (¬BuffersOk vm o ∧ ¬BufferLaw vm o vm') := by
  cases o with
  | spawn w p ds rs dsOk rsOk =>
      cases hstep
      obtain ⟨herr, ⟨hok, hgood⟩ | ⟨hok, hbad⟩⟩ := spawn_buffers hh hb w p ds rs dsOk rsOk
      · exact Or.inl ⟨hok, herr, hgood⟩
      · exact Or.inr ⟨hok, fun hlaw => hbad hlaw.2⟩
  | exit tick =>
      rw [backendStep, v4BackendTaskExit, hinv.sched.taskPtr] at hstep
      -- a DEAD slot is not saved
      have hdead : ((exitCurrent vm hinv.sched.cur).task hinv.sched.cur).state ≠ .running := by
        rw [exitCurrent_task, if_pos rfl]
        simp
      obtain ⟨herr, hgood⟩ := vmSchedule_buffers_of_not_running
        (exitCurrent_wf hinv.sched hinv.sched.cur) (exitCurrent_heapInv hh _)
        (retireTask_bufferInv hh hb hinv.sched.cur) hdead hstep
      exact Or.inl ⟨trivial, herr.trans (retireTask_errors hh hinv.sched.cur), hgood⟩
  | sleep ms tick tick' =>
      rw [backendStep, v4BackendTaskSleep, hinv.sched.taskPtr] at hstep
      -- nor is a BLOCKED one
      have hblocked :
          ((blockCurrent tick ms vm hinv.sched.cur).task hinv.sched.cur).state ≠ .running := by
        rw [blockCurrent_task, if_pos rfl]
        simp
      have hmid : BufferInv (blockCurrent tick ms vm hinv.sched.cur) := by
        intro i
        refine (hb i).kept (blockCurrent_kept tick ms vm hinv.sched.cur i) fun s => ?_
        rw [blockCurrent_task]
        split
        case isTrue hi => subst hi; cases s <;> rfl
        case isFalse => rfl
      have hgood := vmSchedule_buffers_of_not_running
        (blockCurrent_wf hinv.sched tick ms hinv.sched.cur) (blockCurrent_heapInv hh tick ms _)
        hmid hblocked hstep
      exact Or.inl ⟨trivial, hgood⟩
  | yield tick =>
      obtain hgood | ⟨hbad, herr⟩ := schedule_buffers hinv.sched hh hb hstep
      · exact Or.inl hgood
      · exact Or.inr ⟨hbad, fun hlaw => herr hlaw.1⟩
  | schedule tick =>
      obtain hgood | ⟨hbad, herr⟩ := schedule_buffers hinv.sched hh hb hstep
      · exact Or.inl hgood
      · exact Or.inr ⟨hbad, fun hlaw => herr hlaw.1⟩
  | scheduleFromIsr tick =>
      rw [backendStep, vmScheduleFromIsr] at hstep
      by_cases hn : vm.scheduler.criticalNesting > 0
      · rw [if_pos hn] at hstep
        cases hstep
        exact Or.inl ⟨Or.inl hn, rfl, hb⟩
      · rw [if_neg hn] at hstep
        rw [BuffersOk, or_iff_right hn]
        have hheap : HeapInv (countPreemption vm) := hh.congr (fun _ _ => rfl) fun _ => rfl
        have hsched := schedule_buffers (countPreemption_inv hinv).sched hheap hb hstep
        obtain hgood | ⟨hbad, herr⟩ := hsched
        · exact Or.inl hgood
        · exact Or.inr ⟨hbad, fun hlaw => herr hlaw.1⟩
  | selectNext tick =>
      cases hstep
      exact Or.inl ⟨trivial, rfl, fun i =>
        (hb i).kept (wakeAll_kept tick vm i) (wakeTask_size tick (vm.task i))⟩
  | cleanup =>
      cases hstep
      obtain ⟨herr, hgood⟩ := foldl_retireTask_buffers (List.finRange 8) hh hb
      exact Or.inl ⟨trivial, herr, hgood⟩
  | _ =>
      have hsame := backendStep_sameTasks rfl hstep
      exact Or.inl ⟨trivial, by rw [hsame.heap], hb.congr hsame⟩

/-! ## Runs -/

theorem init_bufferInv (timeSliceMs : BitVec 32) (vm : Vm) :
    BufferInv (v4BackendTaskInit timeSliceMs vm) := by
  intro i
  refine SlotSized.of_none fun s => ?_
  cases s <;> rfl

/-- **Buffers over runs.**  From `vm_task_init` on, no call of a run accesses a buffer
    past its end and every recorded size is right, exactly when every call of the
    run meets `BuffersOk`. -/
theorem buffers_safe_iff (timeSliceMs : BitVec 32) {vm : Vm} (h : vm.rp ≤ 64)
    (ops : List BackendOp) :
    EachStep backendStep BufferLaw ops (v4BackendTaskInit timeSliceMs vm) ↔
      Along backendStep BuffersOk ops (v4BackendTaskInit timeSliceMs vm) := by
  apply eachStep_iff_along_of (I := fun vm => BackendInv vm ∧ HeapInv vm ∧ BufferInv vm)
  · intro o s s' ⟨hinv, hh, hb⟩ hok hstep
    refine ⟨hinv.step hstep, backendStep_heapInv hinv hh hstep, ?_⟩
    obtain ⟨-, -, hb'⟩ | ⟨hbad, -⟩ := backendStep_buffers hinv hh hb hstep
    · exact hb'
    · exact absurd hok hbad
  · intro o s hs
    exact hs.1.defined o
  · intro o s s' ⟨hinv, hh, hb⟩ hstep
    obtain ⟨hok, herr, hb'⟩ | ⟨hbad, hlaw⟩ := backendStep_buffers hinv hh hb hstep
    · exact iff_of_true ⟨herr, hb'.sizes⟩ hok
    · exact iff_of_false hlaw hbad
  · exact ⟨init_inv timeSliceMs h, init_heapInv timeSliceMs vm, init_bufferInv timeSliceMs vm⟩

/-- A program with two cells on its data stack. -/
def pushedTwo : BackendOp := .program (.filled 7 2 (by decide))

/-- Two tasks with buffers of four cells, and two cells to save. -/
theorem buffers_safe_two_cells :
    EachStep backendStep BufferLaw
      [.spawn 0 1 4 4 true true, .spawn 0 1 4 4 true true, .schedule 0, pushedTwo, .yield 0]
      (v4BackendTaskInit 10 oneWordVm) :=
  (buffers_safe_iff 10 (Nat.zero_le 64) _).mpr (by decide)

/-- Two cells are saved to a buffer of one. -/
theorem save_overruns_buffer :
    ¬EachStep backendStep BufferLaw
      [.spawn 0 1 1 1 true true, .schedule 0, pushedTwo, .yield 0]
      (v4BackendTaskInit 10 oneWordVm) := by
  intro h
  obtain ⟨herr, -⟩ := (h.2 _ rfl).2 _ rfl |>.2 _ rfl |>.1 _ rfl
  exact absurd herr (by decide)

end V4Engine
