/-
  V4Engine.Vm.Lifetime

  A VM from `vm_create` to `vm_destroy`, and what it leaves in the heap.

  Two kinds of blocks come and go with a VM: the names of its words, copied with
  `strdup` unless there is an arena, and the stacks of its tasks.  Names are freed
  when the dictionary is reset and by `vm_destroy`; stacks are freed by exits and
  by `vm_task_cleanup`, and forgotten by `vm_task_init`.

  No run frees anything twice, and no name is left over.  Stacks are left over by
  exactly the runs that call `vm_task_init` or `vm_destroy` while a task still has
  its stacks (`lifetime_ledger`).
-/
import V4Engine.Vm.Dictionary
import V4Engine.Vm.Create
import V4Engine.Task.Ownership

namespace V4Engine

open Lib

/-- A VM and its dictionary with the names. -/
structure Lifetime where
  dict : Dictionary
  vm : Vm

/-- The dictionary of a new VM. -/
def Dictionary.fresh (arena : Option NameArena) : Dictionary :=
  { words := fun _ => ⟨none, none, 0⟩, wordCount := 0, arena := arena, next := 0,
    blocks := fun _ => none }

inductive LifetimeOp where
  | words (o : DictOp)
  | reset
  | init (timeSliceMs : BitVec 32)
  | task (o : BackendOp)

/-- The task table counts on as many words as the dictionary has. -/
def Lifetime.withWords (s : Lifetime) (d : Dictionary) : Lifetime :=
  ⟨d, { s.vm with wordCount := d.wordCount }⟩

/-- One call. -/
def lifetimeStep : LifetimeOp → Lifetime → Option Lifetime
  | .words o, s => (dictCall o s.dict).map fun r => s.withWords r.2
  | .reset, s => (vmResetDictionary s.dict).map fun d =>
      ⟨d, vmResetStacks { s.vm with wordCount := 0 }⟩
  | .init ms, s => some ⟨s.dict, v4BackendTaskInit ms s.vm⟩
  | .task o, s => (backendStep o s.vm).map fun vm => ⟨s.dict, vm⟩

/-- What is left in the heap. -/
structure Remains where
  names : Nat → Option (List Byte)
  taskStacks : Heap

/-- `vm_destroy`: the names are freed, the task table is not looked at. -/
def vmDestroy (s : Lifetime) : Option Remains :=
  match s.dict.arena with
  | some _ => some ⟨s.dict.blocks, s.vm.heap⟩
  | none => (freeNames 0 s.dict.wordCount s.dict).map fun d => ⟨d.blocks, s.vm.heap⟩

/-! ## Names -/

/-- Every block of `strdup` belongs to one of the first `k` words. -/
def NamesOwned (d : Dictionary) (k : Nat) : Prop :=
  ∀ id, (d.blocks id).isSome → d.arena = none ∧ ∃ i, i < k ∧ (d.words i).name = some (.heap id)

theorem NamesOwned.mono {d : Dictionary} {k n : Nat} (h : NamesOwned d k) (hle : k ≤ n) :
    NamesOwned d n := by
  intro id hid
  obtain ⟨harena, i, hi, hname⟩ := h id hid
  exact ⟨harena, i, Nat.lt_of_lt_of_le hi hle, hname⟩

/-- The slot behind the last word can be given any name. -/
theorem NamesOwned.setName {d : Dictionary} (h : NamesOwned d d.wordCount)
    (name : Option NamePtr) : NamesOwned (d.setName name) d.wordCount := by
  intro id hid
  obtain ⟨harena, i, hi, hname⟩ := h id hid
  refine ⟨harena, i, hi, ?_⟩
  show (Function.update d.words d.wordCount _ i).name = _
  rw [Function.update_of_ne (Nat.ne_of_lt hi)]
  exact hname

/-- A copy made by `strdup` belongs to the new word. -/
theorem NamesOwned.strdup {d : Dictionary} (h : NamesOwned d d.wordCount)
    (harena : d.arena = none) (n : CString) :
    NamesOwned ((d.strdup n).setName (some (.heap d.next))) (d.wordCount + 1) := by
  intro id hid
  have hid : (Function.update d.blocks d.next (some n.data) id).isSome := hid
  by_cases hnew : id = d.next
  · refine ⟨harena, d.wordCount, Nat.lt_succ_self _, ?_⟩
    show (Function.update d.words d.wordCount _ d.wordCount).name = _
    rw [Function.update_self, hnew]
  · rw [Function.update_of_ne hnew] at hid
    obtain ⟨-, i, hi, hname⟩ := h id hid
    refine ⟨harena, i, Nat.lt_succ_of_lt hi, ?_⟩
    show (Function.update d.words d.wordCount _ i).name = _
    rw [Function.update_of_ne (Nat.ne_of_lt hi)]
    exact hname

/-- Setting the name of a new word. -/
theorem registerName_owned {d d' : Dictionary} (h : NamesOwned d d.wordCount)
    {name : Option CString} {dupOk ok : Bool} (hr : registerName name dupOk d = some (ok, d')) :
    d'.wordCount = d.wordCount ∧
      NamesOwned d' (if ok then d.wordCount + 1 else d.wordCount) := by
  cases name with
  | none =>
      cases hr
      exact ⟨rfl, (h.setName none).mono (Nat.le_succ _)⟩
  | some n =>
      simp only [registerName, copyName] at hr
      cases harena : d.arena with
      | some a =>
          -- with an arena there are no blocks at all
          have hnone : ∀ id, ¬ (d.blocks id).isSome := fun id hid => by
            cases harena.symm.trans (h id hid).1
          rw [harena] at hr
          dsimp only at hr
          rcases halloc : v4ArenaAlloc (BitVec.ofNat 64 n.size) 1 a.alloc with ⟨_ | off, alloc⟩
          · rw [halloc] at hr
            cases hr
            exact ⟨rfl, fun id hid => absurd hid (hnone id)⟩
          · rw [halloc] at hr
            dsimp only at hr
            split at hr
            · cases hr
              exact ⟨rfl, fun id hid => absurd hid (hnone id)⟩
            · cases hr
      | none =>
          rw [harena] at hr
          cases dupOk with
          | true =>
              cases hr
              exact ⟨rfl, h.strdup harena n⟩
          | false =>
              cases hr
              exact ⟨rfl, h.setName none⟩

/-- **A registration**, successful or not. -/
theorem vmRegisterWord_owned {d d' : Dictionary} (h : NamesOwned d d.wordCount)
    {name : Option CString} {code : Option CodePtr} {codeLen r : Int} {dupOk : Bool}
    (hr : vmRegisterWord name code codeLen dupOk d = some (r, d')) :
    NamesOwned d' d'.wordCount := by
  unfold vmRegisterWord at hr
  split at hr
  · cases hr
    exact h
  split at hr
  · cases hr
    exact h
  cases hname : registerName name dupOk d with
  | none =>
      rw [hname] at hr
      cases hr
  | some p =>
      obtain ⟨ok, d1⟩ := p
      rw [hname] at hr
      obtain ⟨hcount, howned⟩ := registerName_owned h hname
      cases ok with
      | false =>
          -- the name was refused, and its pointer is not counted
          cases hr
          rw [hcount]
          exact howned
      | true =>
          cases hr
          intro id hid
          obtain ⟨harena, i, hi, hi'⟩ := howned id hid
          refine ⟨harena, i, ?_, ?_⟩
          · show i < d1.wordCount + 1
            rw [hcount]
            exact hi
          · -- code and length are stored next to the name
            show (Function.update d1.words d1.wordCount _ i).name = _
            by_cases heq : i = d1.wordCount
            · rw [heq, Function.update_self]
              exact heq ▸ hi'
            · rw [Function.update_of_ne heq]
              exact hi'

/-- Freeing one name frees its block and nothing else. -/
theorem freeName_blocks {d d' : Dictionary} {i : Nat} (h : freeName i d = some d') :
    (∀ id, (d'.blocks id).isSome → (d.blocks id).isSome ∧ (d.words i).name ≠ some (.heap id)) ∧
      ∀ j, j ≠ i → d'.words j = d.words j := by
  unfold freeName at h
  cases hname : (d.words i).name with
  | none =>
      rw [hname] at h
      cases h
      exact ⟨fun id hid => ⟨hid, nofun⟩, fun _ _ => rfl⟩
  | some p =>
      rw [hname] at h
      cases p with
      | arena off => cases h
      | heap k =>
          dsimp only at h
          split at h
          · cases h
            refine ⟨fun id hid => ?_, fun j hj => Function.update_of_ne hj ..⟩
            have hid : (Function.update d.blocks k none id).isSome := hid
            have hne : id ≠ k := fun heq => by
              rw [heq, Function.update_self] at hid
              cases hid
            rw [Function.update_of_ne hne] at hid
            exact ⟨hid, fun heq => hne (NamePtr.heap.inj (Option.some.inj heq)).symm⟩
          · cases h

/-- So does the loop, by induction on the number of words left. -/
theorem freeNames_blocks {d d' : Dictionary} {i k : Nat} (h : freeNames i k d = some d') :
    ∀ id, (d'.blocks id).isSome → (d.blocks id).isSome ∧
      ∀ j, i ≤ j → j < i + k → (d.words j).name ≠ some (.heap id) := by
  induction k generalizing i d with
  | zero =>
      cases h
      exact fun id hid => ⟨hid, fun j _ _ => by omega⟩
  | succ k ih =>
      obtain ⟨d1, h1, hrest⟩ := Option.bind_eq_some_iff.mp h
      obtain ⟨hblocks, hwords⟩ := freeName_blocks h1
      intro id hid
      obtain ⟨hlive, hothers⟩ := ih hrest id hid
      obtain ⟨hlive0, hfirst⟩ := hblocks id hlive
      refine ⟨hlive0, fun j hj hlt => ?_⟩
      by_cases heq : j = i
      · exact heq ▸ hfirst
      · rw [← hwords j heq]
        exact hothers j (by omega) (by omega)

/-- Nothing is left once the names of all words have been freed. -/
theorem freeNames_empty {d d' : Dictionary} (howned : NamesOwned d d.wordCount)
    (h : freeNames 0 d.wordCount d = some d') (id : Nat) : d'.blocks id = none := by
  refine Option.not_isSome_iff_eq_none.mp fun hid => ?_
  obtain ⟨hlive, hfreed⟩ := freeNames_blocks h id hid
  obtain ⟨-, i, hi, hname⟩ := howned id hlive
  exact hfreed i (Nat.zero_le i) (by omega) hname

theorem NamesOwned.arena_empty {d : Dictionary} {k : Nat} (h : NamesOwned d k) {a : NameArena}
    (ha : d.arena = some a) (id : Nat) : d.blocks id = none :=
  Option.not_isSome_iff_eq_none.mp fun hid => by cases ha.symm.trans (h id hid).1

/-- **A reset** leaves no names. -/
theorem vmResetDictionary_owned {d d' : Dictionary} (howned : NamesOwned d d.wordCount)
    (h : vmResetDictionary d = some d') : NamesOwned d' d'.wordCount := by
  unfold vmResetDictionary at h
  cases harena : d.arena with
  | some a =>
      rw [harena] at h
      cases h
      intro id hid
      rw [show d.blocks id = none from howned.arena_empty harena id] at hid
      cases hid
  | none =>
      rw [harena] at h
      obtain ⟨d1, h1, rfl⟩ := Option.map_eq_some_iff.mp h
      intro id hid
      rw [show d1.blocks id = none from freeNames_empty howned h1 id] at hid
      cases hid

/-! ## Stacks of tasks -/

/-- The heap is empty when nothing older is left and no task has a stack. -/
theorem Ownership.heap_empty_iff {h0 : Heap} {vm : Vm} (h : Ownership h0 vm) :
    (∀ id, vm.heap.blocks id = none) ↔ (∀ id, h0.blocks id = none) ∧ vm.buffers = ∅ := by
  have hnone : ∀ {x : Option Block}, x = none ↔ ¬ x.isSome := Option.not_isSome_iff_eq_none.symm
  constructor
  · intro hall
    refine ⟨fun id => ?_, ?_⟩
    · -- blocks from before the tasks, and identifiers not handed out yet
      rcases Nat.lt_or_ge id h0.next with hlt | hge
      · rw [hnone, ← h.older id hlt, hall id]
        exact Bool.false_ne_true
      · exact h0.fresh id hge
    · rw [← h.balanced, Set.eq_empty_iff_forall_notMem]
      rintro id ⟨-, hid⟩
      rw [hall id] at hid
      cases hid
  · rintro ⟨hold, hbuf⟩ id
    rw [hnone]
    intro hid
    rcases Nat.lt_or_ge id h0.next with hlt | hge
    · rw [h.older id hlt, hold id] at hid
      cases hid
    · have hmem : id ∈ vm.outstanding h0 := ⟨hge, hid⟩
      rw [h.balanced, hbuf] at hmem
      exact hmem

/-- What holds between two calls; the heap was `h0` at the last `vm_task_init`. -/
structure Lifetime.Inv (s : Lifetime) (l : List DictEntry) (h0 : Heap) : Prop where
  dict : DictInv s.dict l
  names : NamesOwned s.dict s.dict.wordCount
  backend : BackendInv s.vm
  owner : Ownership h0 s.vm
  frees : h0.badFrees = []

namespace Lifetime

/-- A call that is about words leaves the tasks alone. -/
theorem Inv.words {s : Lifetime} {l l' : List DictEntry} {h0 : Heap} (h : s.Inv l h0)
    {d : Dictionary} {vm : Vm} (hd : DictInv d l') (hn : NamesOwned d d.wordCount)
    (hsched : vm.scheduler = s.vm.scheduler) (hqueue : vm.msgQueue = s.vm.msgQueue)
    (hheap : vm.heap = s.vm.heap) (hrp : vm.rp ≤ 64) : Inv ⟨d, vm⟩ l' h0 where
  dict := hd
  names := hn
  backend := by
    have htask : ∀ i, vm.task i = s.vm.task i := fun i =>
      congrArg (fun sched : V4Scheduler => sched.tasks i) hsched
    refine ⟨⟨?_, hrp, fun i => ?_⟩, ?_⟩
    · show vm.scheduler.currentTask.toNat < 8
      rw [hsched]
      exact h.backend.sched.current
    · show (vm.task i).rsDepth.toNat ≤ 64
      rw [htask]
      exact h.backend.sched.saved i
    · show vm.msgQueue.WF
      rw [hqueue]
      exact h.backend.queue
  owner := by
    have htask : ∀ i, vm.task i = s.vm.task i := fun i =>
      congrArg (fun sched : V4Scheduler => sched.tasks i) hsched
    refine h.owner.congr (congrArg Heap.next hheap) (fun i b => ?_) (fun id => ?_) (fun i hi => ?_)
      (congrArg Heap.badFrees hheap)
    · show (vm.task i).base b = _
      rw [htask]
    · show (vm.heap.blocks id).isSome = _
      rw [hheap]
    · rw [← htask i]
      exact hi
  frees := h.frees

/-- `vm_task_init` forgets whatever stacks there are. -/
theorem Inv.init {s : Lifetime} {l : List DictEntry} {h0 : Heap} (h : s.Inv l h0)
    (ms : BitVec 32) : Inv ⟨s.dict, v4BackendTaskInit ms s.vm⟩ l s.vm.heap where
  dict := h.dict
  names := h.names
  backend := init_inv ms h.backend.sched.rp
  owner := .init ms s.vm
  frees := h.owner.frees.trans h.frees

/-- The heap the tasks are counted from after a call. -/
def baseAfter (s : Lifetime) (h0 : Heap) : LifetimeOp → Heap
  | .init _ => s.vm.heap
  | _ => h0

/-- The names a call registers fit the address space. -/
def Fits (size : Nat) : LifetimeOp → Prop
  | .words o => o.Fits size
  | _ => True

/-- **One call** is defined, and what it leaves is in order. -/
theorem Inv.step {s : Lifetime} {l : List DictEntry} {h0 : Heap} (h : s.Inv l h0)
    {o : LifetimeOp} (hfits : Fits s.dict.arenaSize o) :
    ∃ s' l', lifetimeStep o s = some s' ∧ s'.dict.arenaSize = s.dict.arenaSize ∧
      s'.Inv l' (s.baseAfter h0 o) := by
  cases o with
  | words o =>
      cases o with
      | register name code codeLen dupOk =>
          obtain ⟨r, d', hr, hsize, hcase⟩ := vmRegisterWord_spec h.dict code codeLen dupOk hfits
          have hstep : lifetimeStep (.words (.register name code codeLen dupOk)) s
              = some (s.withWords d') := by
            rw [lifetimeStep, dictCall, hr]
            rfl
          have hn := vmRegisterWord_owned h.names hr
          -- whether the word was registered or refused
          obtain ⟨-, -, hd, -⟩ | ⟨-, -, hd, -⟩ := hcase
          · exact ⟨_, _, hstep, hsize, h.words hd hn rfl rfl rfl h.backend.sched.rp⟩
          · exact ⟨_, _, hstep, hsize, h.words hd hn rfl rfl rfl h.backend.sched.rp⟩
      | reset =>
          obtain ⟨d', hr, harena, hd⟩ := vmResetDictionary_spec h.dict
          have hsize := Dictionary.arenaSize_congr harena
          have hstep : lifetimeStep (.words .reset) s = some (s.withWords d') := by
            rw [lifetimeStep, dictCall, hr]
            rfl
          have hn := vmResetDictionary_owned h.names hr
          exact ⟨_, _, hstep, hsize, h.words hd hn rfl rfl rfl h.backend.sched.rp⟩
  | reset =>
      obtain ⟨d', hr, harena, hd⟩ := vmResetDictionary_spec h.dict
      have hsize := Dictionary.arenaSize_congr harena
      have hstep : lifetimeStep .reset s
          = some ⟨d', vmResetStacks { s.vm with wordCount := 0 }⟩ := by
        rw [lifetimeStep, hr]
        rfl
      have hn := vmResetDictionary_owned h.names hr
      exact ⟨_, _, hstep, hsize, h.words hd hn rfl rfl rfl (Nat.zero_le 64)⟩
  | init ms => exact ⟨_, l, rfl, rfl, h.init ms⟩
  | task o =>
      obtain ⟨vm', hvm, hinv⟩ := backendStep_inv h.backend o
      have hstep : lifetimeStep (.task o) s = some ⟨s.dict, vm'⟩ := by
        rw [lifetimeStep, hvm]
        rfl
      exact ⟨_, l, hstep, rfl, h.dict, h.names, hinv, (h.owner.step h.backend hvm).1, h.frees⟩

/-- No task has a stack where `vm_task_init` is called. -/
def InitClean (s : Lifetime) (o : LifetimeOp) : Prop := (∃ ms, o = .init ms) → s.vm.buffers = ∅

/-- **A run** is defined, and its heap is empty in the end just when nothing has been
    forgotten on the way and no task has a stack. -/
theorem Inv.run {s : Lifetime} {l : List DictEntry} {h0 : Heap} (h : s.Inv l h0) {size : Nat}
    (hsize : s.dict.arenaSize = size) {os : List LifetimeOp} (hfits : ∀ o ∈ os, Fits size o) :
    ∃ s' l' h1, exec lifetimeStep os s = some s' ∧ s'.Inv l' h1 ∧
      ((∀ id, s'.vm.heap.blocks id = none) ↔ (∀ id, h0.blocks id = none) ∧
        Along lifetimeStep InitClean os s ∧ s'.vm.buffers = ∅) := by
  induction os generalizing s l h0 with
  | nil =>
      refine ⟨s, l, h0, rfl, h, h.owner.heap_empty_iff.trans ?_⟩
      rw [show Along lifetimeStep InitClean [] s ↔ True from Iff.rfl, true_and]
  | cons o os ih =>
      obtain ⟨s1, l1, hstep, hsize1, h1⟩ := h.step (hsize ▸ hfits o List.mem_cons_self)
      obtain ⟨s', l', h2, hrun, hinv, hiff⟩ := ih h1 (hsize1.trans hsize)
        fun o' ho' => hfits o' (List.mem_cons_of_mem o ho')
      refine ⟨s', l', h2, exec_cons_eq_some.mpr ⟨s1, hstep, hrun⟩, hinv, hiff.trans ?_⟩
      have halong : Along lifetimeStep InitClean (o :: os) s ↔
          InitClean s o ∧ Along lifetimeStep InitClean os s1 := by
        refine and_congr_right fun _ => ⟨fun hall => hall s1 hstep, fun hrest s2 hs2 => ?_⟩
        obtain rfl := Option.some.inj (hstep.symm.trans hs2)
        exact hrest
      rw [halong]
      cases o with
      | init ms =>
          -- the stacks there are now are forgotten
          have hclean : InitClean s (.init ms) ↔ s.vm.buffers = ∅ :=
            ⟨fun hc => hc ⟨ms, rfl⟩, fun hc _ => hc⟩
          rw [hclean, baseAfter, h.owner.heap_empty_iff]
          exact ⟨fun ⟨⟨a, b⟩, c, d⟩ => ⟨a, ⟨b, c⟩, d⟩, fun ⟨a, ⟨b, c⟩, d⟩ => ⟨⟨a, b⟩, c, d⟩⟩
      | _ =>
          have hclean : ∀ {o : LifetimeOp}, (∀ ms, o ≠ .init ms) → InitClean s o :=
            fun hne ⟨ms, heq⟩ => absurd heq (hne ms)
          rw [and_iff_right (hclean fun _ heq => by cases heq)]
          exact Iff.rfl

/-- `vm_destroy` finds every name to free, and leaves none. -/
theorem Inv.destroy {s : Lifetime} {l : List DictEntry} {h0 : Heap} (h : s.Inv l h0) :
    ∃ r, vmDestroy s = some r ∧ (∀ id, r.names id = none) ∧ r.taskStacks = s.vm.heap := by
  unfold vmDestroy
  cases harena : s.dict.arena with
  | some a => exact ⟨_, rfl, h.names.arena_empty harena, rfl⟩
  | none =>
      obtain ⟨d', hd, -⟩ := freeNames_spec (h.dict.freeable harena)
      rw [hd]
      exact ⟨_, rfl, freeNames_empty h.names hd, rfl⟩

end Lifetime

/-! ## From `vm_create` on -/

theorem copyMmio_same {list : List V4Mmio} {i k : Nat} {vm vm' : Vm}
    (h : copyMmio list i k vm = some vm') : ∃ mmio, vm' = { vm with mmio := mmio } := by
  induction k generalizing i vm with
  | zero =>
      cases h
      exact ⟨_, rfl⟩
  | succ k ih =>
      obtain ⟨w, -, hrest⟩ := Option.bind_eq_some_iff.mp h
      obtain ⟨mmio, rfl⟩ := ih hrest
      exact ⟨mmio, rfl⟩

/-- A new VM has no tasks and an empty heap. -/
theorem vmCreate_same {ok : Bool} {cfg : VmConfig} {vm : Vm}
    (h : vmCreate ok (some cfg) = some (some vm)) :
    vm.scheduler = .zero ∧ vm.msgQueue = .zero ∧ vm.heap = .empty ∧ vm.rp = 0 := by
  cases ok with
  | false => cases h
  | true =>
      obtain ⟨loaded, hload, hvm⟩ := Option.map_eq_some_iff.mp h
      cases hvm
      unfold loadMmio at hload
      cases hlist : cfg.mmio with
      | none =>
          rw [hlist] at hload
          cases hload
          exact ⟨rfl, rfl, rfl, rfl⟩
      | some list =>
          rw [hlist] at hload
          dsimp only at hload
          split at hload
          · obtain ⟨copied, hcopy, rfl⟩ := Option.map_eq_some_iff.mp hload
            obtain ⟨mmio, rfl⟩ := copyMmio_same hcopy
            exact ⟨rfl, rfl, rfl, rfl⟩
          · cases hload
            exact ⟨rfl, rfl, rfl, rfl⟩

/-- A new VM and its dictionary. -/
theorem Lifetime.Inv.born {vm : Vm} (hsched : vm.scheduler = .zero) (hqueue : vm.msgQueue = .zero)
    (hheap : vm.heap = .empty) (hrp : vm.rp = 0) {arena : Option NameArena}
    (harena : ∀ a, arena = some a → a.alloc.used ≤ a.alloc.size) :
    Lifetime.Inv ⟨.fresh arena, vm⟩ [] .empty where
  dict := DictInv.nil rfl harena
  names id hid := by cases hid
  backend := by
    have htask : ∀ i, vm.task i = .zero := fun i =>
      congrArg (fun sched : V4Scheduler => sched.tasks i) hsched
    refine ⟨⟨?_, hrp ▸ Nat.zero_le 64, fun i => ?_⟩, ?_⟩
    · show vm.scheduler.currentTask.toNat < 8
      rw [hsched]
      decide
    · show (vm.task i).rsDepth.toNat ≤ 64
      rw [htask]
      decide
    · show vm.msgQueue.WF
      rw [hqueue]
      exact .zero
  owner := by
    have hbase : ∀ i b, (vm.task i).base b = none := by
      intro i b
      rw [show vm.task i = .zero from congrArg (fun sched : V4Scheduler => sched.tasks i) hsched]
      cases b <;> rfl
    refine ⟨Nat.zero_le _, ?_, ?_, fun i _ b => hbase i b,
      fun id hid => absurd hid (Nat.not_lt_zero id), ?_⟩
    · ext id
      constructor
      · rintro ⟨-, hid⟩
        rw [hheap] at hid
        cases hid
      · rintro ⟨i, b, hid⟩
        rw [hbase i b] at hid
        cases hid
    · intro i b j b' id hi _
      rw [hbase i b] at hi
      cases hi
    · rw [hheap]
  frees := rfl

end V4Engine
