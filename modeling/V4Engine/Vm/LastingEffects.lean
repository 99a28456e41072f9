/-
  V4Engine.Vm.LastingEffects

  What a failing instruction leaves behind.

  The stores, the sends and the spawns take all of their operands before they
  change anything, so nothing can fail once they have.  The two receives remove
  a message first and push its three cells afterwards.  A `Turn` is one turn of
  the interpreter's loop spent on an instruction: there is more than one only in
  a blocking receive, which sleeps between two polls.
-/
import V4Engine.Vm.RunRules
import V4Engine.Task.Frame
import V4Engine.Task.Blocking

namespace V4Engine

open Lib FaultM VmM

variable {W : Type} {H : Host W}

/-! ## The law -/

/-- RAM, the dictionary and the MMIO table are the same. -/
structure Vm.SameMemory (vm vm' : Vm) : Prop where
  mem : vm'.mem = vm.mem
  memSize : vm'.memSize = vm.memSize
  words : vm'.words = vm.words
  wordCount : vm'.wordCount = vm.wordCount
  mmio : vm'.mmio = vm.mmio
  mmioCount : vm'.mmioCount = vm.mmioCount

/-- So are the task table and the message queue. -/
structure Vm.Untouched (vm vm' : Vm) : Prop extends vm.SameMemory vm' where
  tasks : vm'.scheduler.tasks = vm.scheduler.tasks
  msgQueue : vm'.msgQueue = vm.msgQueue

/-- The turns of the instruction at which `c` stands: `c`, and a poll after each turn
    that ended in waiting. -/
inductive Turn (H : Host W) (c : Config W) : Config W → Prop
  | first : Turn H c c
  | again {x : Config W} {w : Waiting} {m : Machine W} {cur : Activation} {cs : List Caller}
      (h : Turn H c x) (hs : Step H x (.poll w m cur cs)) : Turn H c (.poll w m cur cs)

/-- The instruction at which `c` stands fails in its turn `x`, which makes
    `vm_exec_raw` return `e`. -/
structure Fails (H : Host W) (c x : Config W) (e : V4Err) (m' : Machine W) : Prop where
  turn : Turn H c x
  error : e ≠ 0
  returns : ∃ n cs, Step H x (.ret e n cs) ∧ Reaches H (.ret e n cs) (.ret e m' [])

/-- A message that the current task may receive is pending. -/
def Vm.HasMessage (vm : Vm) (msgType : BitVec 8) : Prop :=
  ∃ msg ∈ vm.msgQueue.contents, msg.wanted vm.scheduler.currentTask msgType = true

/-- The turn at which `x` stands takes a message out of the queue. -/
def Config.TakesMessage : Config W → Prop
  | .run m cur _ => cur.nextOp = some .TASK_RECEIVE ∧ 0 < m.vm.sp ∧
      m.vm.HasMessage ((m.operand 0).setWidth 8)
  | .poll w m _ _ => m.vm.HasMessage w.msgType
  | _ => False

/-! ## Agreement outside the stacks -/

namespace Vm

theorem SameMemory.refl (vm : Vm) : vm.SameMemory vm := ⟨rfl, rfl, rfl, rfl, rfl, rfl⟩

theorem SameMemory.trans {a b c : Vm} (h : a.SameMemory b) (h' : b.SameMemory c) :
    a.SameMemory c where
  mem := h'.mem.trans h.mem
  memSize := h'.memSize.trans h.memSize
  words := h'.words.trans h.words
  wordCount := h'.wordCount.trans h.wordCount
  mmio := h'.mmio.trans h.mmio
  mmioCount := h'.mmioCount.trans h.mmioCount

/-- The stacks and the frame pointer may change. -/
theorem Untouched.update (vm : Vm) (DS RS : Nat → Cell) (sp rp : Nat) (fp : Option Nat) :
    vm.Untouched { vm with DS := DS, RS := RS, sp := sp, rp := rp, fp := fp } :=
  ⟨⟨rfl, rfl, rfl, rfl, rfl, rfl⟩, rfl, rfl⟩

theorem Untouched.refl (vm : Vm) : vm.Untouched vm := .update vm ..

theorem Untouched.of_eq {vm vm' : Vm} (h : vm' = vm) : vm.Untouched vm' := h ▸ .refl vm

theorem Untouched.trans {a b c : Vm} (h : a.Untouched b) (h' : b.Untouched c) : a.Untouched c where
  toSameMemory := h.toSameMemory.trans h'.toSameMemory
  tasks := h'.tasks.trans h.tasks
  msgQueue := h'.msgQueue.trans h.msgQueue

end Vm

theorem BackendFrame.sameMemory {vm vm' : Vm} (h : BackendFrame vm vm') : vm.SameMemory vm' :=
  ⟨h.mem, h.memSize, h.words, h.wordCount, h.mmio, h.mmioCount⟩

/-- Nothing outside the stacks changes, whether the computation fails or not. -/
def untouched (W : Type) : Effect V4Err (Machine W) where
  pre _ := True
  ret m m' := m.vm.Untouched m'.vm
  err _ m m' := m.vm.Untouched m'.vm
  stuck _ := True

theorem untouched_composable : (untouched W).Composable where
  refl _ := .refl _
  pre _ _ := trivial
  trans h h' := h.trans h'
  err h h' := h.trans h'
  stuck _ _ := trivial

section

variable (hH : H.Within fun m m' => m'.vm = m.vm)
include hH

theorem untouched_panic (e : V4Err) : PanicAllows H (untouched W) e where
  err m info _ _ := by
    apply Vm.Untouched.of_eq
    unfold Machine.notified
    cases m.vm.panicHandler with
    | none => rfl
    | some handler => exact hH.panic handler m.vm.panicUserData info _
  out _ _ _ := trivial

theorem untouched_stack : StackAllows H (untouched W) where
  ds m _ _ _ _ := .update m.vm ..
  dsOut _ _ _ := trivial
  rsOut _ _ _ := trivial
  overflow := untouched_panic hH _
  underflow := untouched_panic hH _
  divByZero := untouched_panic hH _

theorem untouched_local : LocalAllows H (untouched W) where
  set m _ _ _ _ _ _ _ := .update m.vm ..
  noFrame := untouched_panic hH _

end

/-! ## Memory -/

section

variable (hH : H.Within fun m m' => m'.vm = m.vm)

theorem findMmio_untouched (addr : Cell) :
    Meets (untouched W) (findMmio addr : VmM W (Option V4Mmio)) anyValue := by
  intro m _
  obtain hr | ⟨hr, -⟩ := findMmio_cases addr m
  · rw [hr]
    exact ⟨.refl m.vm, trivial⟩
  · rw [hr]
    trivial

theorem ramByte_untouched (i : Nat) : Meets (untouched W) (ramByte i : VmM W Byte) anyValue := by
  intro m _
  unfold ramByte
  split
  · split
    · exact ⟨.refl m.vm, trivial⟩
    · trivial
  · trivial

theorem ldLe16_untouched (addr : Nat) :
    Meets (untouched W) (ldLe16 addr : VmM W (BitVec 16)) anyValue :=
  have hF := untouched_composable
  .bind hF (ramByte_untouched _) fun _ _ => .bind hF (ramByte_untouched _) fun _ _ =>
    .pure hF trivial

theorem ldLe32_untouched (addr : Nat) :
    Meets (untouched W) (ldLe32 addr : VmM W Cell) anyValue :=
  have hF := untouched_composable
  .bind hF (ramByte_untouched _) fun _ _ => .bind hF (ramByte_untouched _) fun _ _ =>
    .bind hF (ramByte_untouched _) fun _ _ => .bind hF (ramByte_untouched _) fun _ _ =>
      .pure hF trivial

theorem setRamByte_infallible (i : Nat) (b : Byte) :
    Meets (.infallible V4Err (Machine W)) (setRamByte i b) anyValue := by
  intro m _
  unfold setRamByte
  split
  · split
    · exact ⟨trivial, trivial⟩
    · trivial
  · trivial

theorem check_untouched (e : V4Err) : Meets (untouched W) (check e : VmM W Unit) anyValue :=
  .ite (fun _ m _ => Vm.Untouched.refl m.vm) fun _ => .pure untouched_composable trivial

/-- A write that has passed its checks cannot fail any more. -/
theorem written_infallible {x : VmM W Unit}
    (hx : Meets (.infallible V4Err (Machine W)) x anyValue) :
    Meets (.infallible V4Err (Machine W)) (x >>= fun _ => pure 0 >>= check) anyValue := by
  have hF := Effect.infallible_composable (ε := V4Err) (σ := Machine W)
  refine .bind hF hx fun _ _ => ?_
  have hzero : (pure 0 >>= check : VmM W Unit) = pure () := rfl
  rw [hzero]
  exact .pure hF trivial

include hH

theorem read32Core_untouched (addr out : Cell) :
    Meets (untouched W) (v4MemRead32Core H addr out) anyValue := by
  have hF := untouched_composable (W := W)
  refine .bind hF (findMmio_untouched addr) fun r _ => ?_
  cases r with
  | some w =>
      refine .ite (fun _ => .pure hF trivial) fun _ => ?_
      cases w.read32 with
      | none => exact .pure hF trivial
      | some f => exact fun m _ => ⟨.of_eq (hH.read32 f w.user addr out m), trivial⟩
  | none =>
      refine .bind hF (getVm_meets hF) fun vm _ => .ite (fun _ => .pure hF trivial) fun _ => ?_
      exact .ite (fun _ => .pure hF trivial) fun _ => .bind hF (ldLe32_untouched _) fun _ _ =>
        .pure hF trivial

/-- A load touches nothing. -/
theorem load_untouched {core : Cell → Cell → VmM W (V4Err × Cell)} (ext : Cell → Cell)
    (hcore : ∀ addr out, Meets (untouched W) (core addr out) anyValue) :
    Meets (untouched W) (loadOp H core ext) anyValue := by
  have hF := untouched_composable (W := W)
  have hS := untouched_stack hH
  exact .bind hF hS.pop fun addr _ => .bind hF (hcore addr 0) fun r _ =>
    .bind hF (check_untouched r.1) fun _ _ => hS.push _

/-- A store fails before it writes when its accessor does. -/
theorem store_fails {core : Cell → Cell → VmM W V4Err}
    (hcore : ∀ addr val m, FailsWithin (untouched W) (core addr val >>= check) m) (m : Machine W) :
    FailsWithin (untouched W) (storeOp H core) m := by
  have hF := untouched_composable (W := W)
  have hS := untouched_stack hH
  exact .bind hF hS.pop trivial fun addr m1 _ _ => .bind hF hS.pop trivial fun val m2 _ _ =>
    hcore addr val m2

omit hH in
/-- The RAM check in front of a write. -/
theorem ramWrite_fails {addr : Cell} {n : Nat} {x : VmM W V4Err}
    (hx : ∀ m, FailsWithin (untouched W) (x >>= check) m) (m : Machine W) :
    FailsWithin (untouched W) ((do
      let vm ← getVm
      if v4IsInRam vm addr n ≠ 0 then return v4IsInRam vm addr n else x) >>= check) m := by
  have hF := untouched_composable (W := W)
  rw [bind_assoc]
  refine .bind hF (getVm_meets hF) trivial fun vm m1 _ _ => ?_
  by_cases h : v4IsInRam vm addr n ≠ 0
  · rw [if_pos h]
    exact .of_meets (check_untouched _) trivial
  · rw [if_neg h]
    exact hx m1

omit hH in
theorem write8Core_fails (addr val : Cell) (m : Machine W) :
    FailsWithin (untouched W) (v4MemWrite8Core addr val >>= check) m := by
  refine ramWrite_fails (fun m1 => ?_) m
  rw [bind_assoc]
  exact .of_infallible (written_infallible (setRamByte_infallible _ _))

omit hH in
theorem write16Core_fails (addr val : Cell) (m : Machine W) :
    FailsWithin (untouched W) (v4MemWrite16Core addr val >>= check) m := by
  have hF := Effect.infallible_composable (ε := V4Err) (σ := Machine W)
  refine ramWrite_fails (fun m1 => ?_) m
  rw [bind_assoc]
  refine .of_infallible (written_infallible ?_)
  exact .bind hF (setRamByte_infallible _ _) fun _ _ => setRamByte_infallible _ _

theorem write32Core_fails (addr val : Cell) (m : Machine W) :
    FailsWithin (untouched W) (v4MemWrite32Core H addr val >>= check) m := by
  have hF := untouched_composable (W := W)
  have hI := Effect.infallible_composable (ε := V4Err) (σ := Machine W)
  rw [v4MemWrite32Core, bind_assoc]
  refine .bind hF (findMmio_untouched addr) trivial fun r m1 _ _ => ?_
  cases r with
  -- In a window the callback does not touch the VM, whatever it returns.
  | some w =>
      refine .of_meets (.bind hF (P := anyValue) ?_ fun e _ => check_untouched e) trivial
      refine .ite (fun _ => .pure hF trivial) fun _ => ?_
      cases w.write32 with
      | none => exact .pure hF trivial
      | some f => exact fun m2 _ => ⟨.of_eq (hH.write32 f w.user addr val m2), trivial⟩
  | none =>
      refine ramWrite_fails (fun m2 => ?_) m1
      by_cases h : v4IsAligned4 addr ≠ 0
      · rw [if_pos h]
        exact .of_meets (check_untouched _) trivial
      · rw [if_neg h, bind_assoc]
        -- In RAM the bytes are written only after both checks.
        refine .of_infallible (written_infallible ?_)
        exact .bind hI (setRamByte_infallible _ _) fun _ _ =>
          .bind hI (setRamByte_infallible _ _) fun _ _ =>
            .bind hI (setRamByte_infallible _ _) fun _ _ => setRamByte_infallible _ _

/-- The memory opcodes fail before they write. -/
theorem memory_fails {a : Activation} {ip : Nat} {op : Op} (hop : op.isMemory = true)
    (m : Machine W) : FailsWithin (untouched W) (execOp H a ip op) m := by
  have hF := untouched_composable (W := W)
  -- Reads leave everything alone, also when the push fails.
  have load : ∀ {core : Cell → Cell → VmM W (V4Err × Cell)} (ext : Cell → Cell),
      (∀ addr out, Meets (untouched W) (core addr out) anyValue) →
      FailsWithin (untouched W) (thenNext ip (loadOp H core ext)) m := fun ext hcore =>
    thenNext_failsWithin (.of_meets (load_untouched hH ext hcore) trivial)
  have read8 : ∀ addr out : Cell, Meets (untouched W) (v4MemRead8Core addr out) anyValue :=
    fun addr out => .bind hF (getVm_meets hF) fun vm _ => .ite (fun _ => .pure hF trivial) fun _ =>
      .bind hF (ramByte_untouched _) fun _ _ => .pure hF trivial
  have read16 : ∀ addr out : Cell, Meets (untouched W) (v4MemRead16Core addr out) anyValue :=
    fun addr out => .bind hF (getVm_meets hF) fun vm _ => .ite (fun _ => .pure hF trivial) fun _ =>
      .bind hF (ldLe16_untouched _) fun _ _ => .pure hF trivial
  have hcases : op ∈ [Op.LOAD, .STORE, .LOAD8U, .LOAD16U, .STORE8, .STORE16, .LOAD8S,
      .LOAD16S] := by
    revert hop
    cases op <;> decide
  simp only [List.mem_cons, List.not_mem_nil, or_false] at hcases
  obtain rfl | rfl | rfl | rfl | rfl | rfl | rfl | rfl := hcases
  · exact load _ (read32Core_untouched hH)
  · exact thenNext_failsWithin (store_fails hH (write32Core_fails hH) m)
  · exact load _ read8
  · exact load _ read16
  · exact thenNext_failsWithin (store_fails hH write8Core_fails m)
  · exact thenNext_failsWithin (store_fails hH write16Core_fails m)
  · exact load _ read8
  · exact load _ read16

/-! ## Tasks -/

omit hH in
theorem spawn_keeps_sp {w : BitVec 16} {p : BitVec 8} {ds rs : BitVec 16} {m m' : Machine W}
    {id : Int} (h : vmTaskSpawn H w p ds rs m = .ok id m') : m'.vm.sp = m.vm.sp := by
  obtain ⟨dsOk, m1, h1, h⟩ := bind_eq_ok.mp h
  cases h1
  obtain ⟨rsOk, m2, h2, h⟩ := bind_eq_ok.mp h
  cases h2
  have hspawn : v4BackendTaskSpawn w p ds rs (H.malloc m.mallocNo) (H.malloc (m.mallocNo + 1)) m.vm
      = (id, m'.vm) := Option.some.inj (liftVm_ok h)
  have hsp := (spawn_frame w p ds rs (H.malloc m.mallocNo) (H.malloc (m.mallocNo + 1)) m.vm).2
  rw [hspawn] at hsp
  exact hsp

omit hH in
theorem send_keeps_sp {dst ty : BitVec 8} {data : Cell} {vm vm' : Vm} {r : Int}
    (h : v4BackendTaskSend dst ty data vm = some (r, vm')) : vm'.sp = vm.sp := by
  unfold v4BackendTaskSend at h
  split at h
  · cases h
    rfl
  · split at h
    · cases h
      rfl
    · split at h <;> cases h
      rfl

omit hH in
/-- A call of the backend and the push of its result, after a pop. -/
theorem call_push_ne_err {x : VmM W Int} {m : Machine W} (hsp : m.vm.sp < 256)
    (hx : Meets (.infallible V4Err (Machine W)) x anyValue)
    (hkeep : ∀ r m', x m = .ok r m' → m'.vm.sp = m.vm.sp) (e : V4Err) (m' : Machine W) :
    (x >>= fun r => dsPush H (BitVec.ofInt 32 r)) m ≠ .err e m' := by
  intro h
  rcases bind_eq_err.mp h with hfail | ⟨r, m1, hok, hpush⟩
  · exact hx.ne_err e m m' hfail
  · exact dsPush_ne_err (hkeep r m1 hok ▸ hsp) hpush

/-- The task opcodes but the receives fail at their pops only. -/
theorem task_fails {a : Activation} {ip : Nat} {op : Op} (hop : op.isTask = true)
    (hrecv : op ≠ .TASK_RECEIVE) (m : Machine W) :
    FailsWithin (untouched W) (execOp H a ip op) m := by
  have hF := untouched_composable (W := W)
  have hI := Effect.infallible_composable (ε := V4Err) (σ := Machine W)
  have hS := untouched_stack hH
  have hT := infallible_task.taskMeets hI (H := H) (W := W)
  have hcases : op ∈ [Op.TASK_SPAWN, .TASK_EXIT, .TASK_SLEEP, .TASK_YIELD, .CRITICAL_ENTER,
      .CRITICAL_EXIT, .TASK_SEND, .TASK_RECEIVE_BLOCKING, .TASK_SELF, .TASK_COUNT] := by
    revert hop hrecv
    cases op <;> decide
  simp only [List.mem_cons, List.not_mem_nil, or_false] at hcases
  obtain rfl | rfl | rfl | rfl | rfl | rfl | rfl | rfl | rfl | rfl := hcases
  · -- after four pops the result has room, so the call's effect is never lost
    refine thenNext_failsWithin (.bind hF hS.pop trivial fun rs m1 _ _ => ?_)
    refine .bind hF hS.pop trivial fun ds m2 _ _ => .bind hF hS.pop trivial fun p m3 _ _ => ?_
    refine .bind hF hS.pop trivial fun w m4 hpop _ => ?_
    intro e m' hfail
    exact absurd hfail (call_push_ne_err (dsPop_lt hpop) (hT.spawn _ _ _ _)
      (fun _ _ => spawn_keeps_sp) e m')
  · exact .of_infallible (.bind hI hT.exit fun _ _ => .pure (P := anyValue) hI trivial)
  · apply thenNext_failsWithin
    exact .bind hF hS.pop trivial fun ms m1 _ _ => .of_infallible (hT.sleep ms)
  · exact thenNext_failsWithin (.of_infallible hT.yield)
  · exact thenNext_failsWithin (.of_infallible hT.enter)
  · exact thenNext_failsWithin (.of_infallible hT.leave)
  · refine thenNext_failsWithin (.bind hF hS.pop trivial fun data m1 _ _ => ?_)
    refine .bind hF hS.pop trivial fun ty m2 _ _ => .bind hF hS.pop trivial fun dst m3 hpop _ => ?_
    intro e m' hfail
    exact absurd hfail (call_push_ne_err (dsPop_lt hpop) (hT.send _ _ _)
      (fun _ _ hok => send_keeps_sp (liftVm_ok hok)) e m')
  · -- TASK_RECEIVE_BLOCKING only pops here: the polls are turns of their own
    refine .then_infallible ?_ fun _ _ _ _ _ => nofun
    refine .bind hF hS.pop trivial fun ms m1 _ _ => .bind hF hS.pop trivial fun ty m2 _ _ => ?_
    exact .of_infallible (.bind hI hT.tick fun _ _ => .pure (P := anyValue) hI trivial)
  · apply thenNext_failsWithin
    exact .of_meets (.bind hF (getVm_meets hF) fun vm _ => hS.push _) trivial
  · apply thenNext_failsWithin
    exact .of_meets (.bind hF (getVm_meets hF) fun vm _ => hS.push _) trivial

/-! ## Receives -/

end

theorem Vm.hasMessage_iff {vm : Vm} {msgType : BitVec 8} : vm.HasMessage msgType ↔
    vm.msgQueue.contents.findIdx? (V4Message.wanted vm.scheduler.currentTask msgType) ≠ none := by
  rw [Ne, List.findIdx?_eq_none_iff]
  simp [Vm.HasMessage]

theorem V4MsgQueue.removeAt_ne (q : V4MsgQueue) (i : Nat) : q.removeAt i ≠ q := by
  intro h
  have hcount : q.count - 1 = q.count := congrArg V4MsgQueue.count h
  have htoNat := congrArg BitVec.toNat hcount
  rw [BitVec.toNat_sub] at htoNat
  have := q.count.isLt
  simp at htoNat
  omega

/-- What a failing turn leaves: nothing has changed outside the stacks but, if it has
    taken a message, the queue. -/
structure Vm.FailedTurn (taken : Prop) (vm vm' : Vm) : Prop extends vm.SameMemory vm' where
  tasks : vm'.scheduler.tasks = vm.scheduler.tasks
  msgQueue : vm'.msgQueue = vm.msgQueue ↔ ¬ taken

theorem Vm.Untouched.failedTurn {taken : Prop} {vm vm' : Vm} (h : vm.Untouched vm')
    (hno : ¬ taken) : vm.FailedTurn taken vm' where
  toSameMemory := h.toSameMemory
  tasks := h.tasks
  msgQueue := iff_of_true h.msgQueue hno

/-- Only the stacks change once the message is out of the queue. -/
theorem Vm.FailedTurn.of_taken {taken : Prop} {vm vm1 vm' : Vm} {i : Nat} (htaken : taken)
    (h1 : vm1 = { vm with msgQueue := vm.msgQueue.removeAt i }) (h : vm1.Untouched vm') :
    vm.FailedTurn taken vm' := by
  subst h1
  refine ⟨⟨h.mem, h.memSize, h.words, h.wordCount, h.mmio, h.mmioCount⟩, h.tasks, ?_⟩
  refine iff_of_false (fun heq => ?_) (not_not.mpr htaken)
  exact V4MsgQueue.removeAt_ne vm.msgQueue i (h.msgQueue.symm.trans heq)

/-- What a receive and the failure after it leave. -/
theorem receive_leaves {msgType : BitVec 8} {vm vm1 vm' : Vm} {r : Option (Cell × BitVec 8)}
    (h : v4BackendTaskReceive msgType vm = (r, vm1)) (htail : vm1.Untouched vm') :
    vm.FailedTurn (vm.HasMessage msgType) vm' := by
  obtain ⟨hnone, heq⟩ | ⟨i, -, hsome, heq⟩ := v4BackendTaskReceive_cases vm msgType
  · cases h.symm.trans heq
    exact htail.failedTurn fun htaken => Vm.hasMessage_iff.mp htaken hnone
  · have htaken : vm.HasMessage msgType := Vm.hasMessage_iff.mpr (by rw [hsome]; exact nofun)
    cases h.symm.trans heq
    exact .of_taken htaken rfl htail

theorem pollQueue_ok {w : Waiting} {m m' : Machine W} {p : Poll}
    (h : pollQueue H w m = .ok p m') :
    ∃ k, receiveBlockingPoll (fun i => H.tick (m.tickNo + i)) w.msgType w.timeoutMs w.start 0 m.vm
      = some (p, k, m'.vm) := by
  unfold pollQueue at h
  split at h
  · next k vm heq =>
      cases h
      exact ⟨k, heq⟩
  · cases h

section

variable (hH : H.Within fun m m' => m'.vm = m.vm)
include hH

theorem pushReceived_untouched (r : Option (Cell × BitVec 8)) :
    Meets (untouched W) (pushReceived H r) anyValue :=
  pushReceived_meets (untouched_stack hH).stackMeets (fun m _ => ⟨.refl m.vm, trivial⟩)
    untouched_composable r

/-- A failing `TASK_RECEIVE`. -/
theorem receive_fails {m m' : Machine W} {e : V4Err} (h : taskReceiveOp H m = .err e m') :
    m.vm.FailedTurn (0 < m.vm.sp ∧ m.vm.HasMessage ((m.operand 0).setWidth 8)) m'.vm := by
  have hS := untouched_stack hH
  rcases bind_eq_err.mp h with hpop | ⟨ty, m1, hpop, hrest⟩
  · have huntouched := hS.pop m trivial
    rw [hpop] at huntouched
    refine huntouched.failedTurn fun htaken => ?_
    obtain hrun | hrun := dsPop_run (H := H) htaken.1
    · cases hpop.symm.trans hrun
    · cases hpop.symm.trans hrun
  · have hsp := (dsPop_ok hpop).1
    obtain ⟨rfl, rfl⟩ := dsPop_value hpop
    rcases bind_eq_err.mp hrest with hfail | ⟨r, m2, hrecv, hpush⟩
    · cases hfail
    · have htail := pushReceived_untouched hH r m2 trivial
      rw [hpush] at htail
      have hturn := receive_leaves (Option.some.inj (liftVm_ok hrecv)) htail
      -- The pop has changed nothing these facts are about.
      refine ⟨⟨hturn.mem, hturn.memSize, hturn.words, hturn.wordCount, hturn.mmio,
        hturn.mmioCount⟩, hturn.tasks, hturn.msgQueue.trans (not_congr ?_)⟩
      exact ⟨fun htaken => ⟨hsp, htaken⟩, And.right⟩

/-- An instruction outside the memory and task groups, or none at all. -/
theorem fetch_untouched {cur : Activation}
    (hplain : ∀ op, cur.nextOp = some op → op.isTask = false ∧ op.isMemory = false) :
    Meets (untouched W) (fetch H cur) anyValue := by
  have hF := untouched_composable (W := W)
  have hS := untouched_stack hH
  have out : CodeOut (untouched W) cur := fun _ _ _ => trivial
  have panics : ∀ e : Err, e ≠ .ok → PanicAllows H (untouched W) e.code := fun e _ =>
    untouched_panic hH e.code
  refine fetch_meets hF out (.inr (panics .fellOffEnd (by decide)))
    (fun _ => .inr (panics .unknownOp (by decide))) fun op hlt hop => ?_
  obtain ⟨htask, hmem⟩ := hplain op hop
  have hC : CodeMeets H (untouched W) cur (cur.ip + 1) op anyValue :=
    codeMeets_of_panics hF out panics (fun _ _ _ => trivial) hlt (fun _ _ => trivial)
      (fun _ _ _ _ _ _ _ _ _ => trivial) trivial fun _ => trivial
  exact execOp_meets hF hS.stackMeets hC (hS.rsMeets hF (fun m _ _ _ _ => .update m.vm ..) op)
    (fun _ => (untouched_local hH).localMeets hF hS)
    (fun h => absurd h (by rw [hmem]; decide))
    (fun _ => sys_meets hF fun f i x y z m _ => .of_eq (hH.sys f i x y z m))
    fun h => absurd h (by rw [htask]; decide)

/-- Every instruction but `TASK_RECEIVE` touches nothing before its last failure. -/
theorem fetch_failsWithin {cur : Activation} (hrecv : cur.nextOp ≠ some .TASK_RECEIVE)
    (m : Machine W) : FailsWithin (untouched W) (fetch H cur) m := by
  by_cases hplain : ∀ op, cur.nextOp = some op → op.isTask = false ∧ op.isMemory = false
  · exact .of_meets (fetch_untouched hH hplain) trivial
  · simp only [not_forall] at hplain
    obtain ⟨op, hop, hgroup⟩ := hplain
    intro e m' h
    rw [fetch_run hop] at h
    cases htask : op.isTask with
    | true => exact task_fails hH htask (fun heq => hrecv (heq ▸ hop)) m e m' h
    | false =>
        have hmem : op.isMemory = true := by
          rw [htask] at hgroup
          simpa using hgroup
        exact memory_fails hH hmem m e m' h

/-- The turn that starts an instruction fails. -/
theorem fetch_fails {cur : Activation} {cs : List Caller} {m m' : Machine W} {e : V4Err}
    (h : fetch H cur m = .err e m') :
    m.vm.FailedTurn (Config.run m cur cs).TakesMessage m'.vm := by
  by_cases hrecv : cur.nextOp = some .TASK_RECEIVE
  · rw [fetch_run hrecv] at h
    rcases bind_eq_err.mp h with hfail | ⟨u, m1, -, hret⟩
    · have hturn := receive_fails hH hfail
      refine ⟨hturn.toSameMemory, hturn.tasks, hturn.msgQueue.trans (not_congr ?_)⟩
      exact ⟨fun htaken => ⟨hrecv, htaken⟩, And.right⟩
    · cases hret
  · exact Vm.Untouched.failedTurn (fetch_failsWithin hH hrecv m e m' h) fun htaken =>
      hrecv htaken.1

/-- A poll fails. -/
theorem pollOnce_fails {w : Waiting} {ip : Nat} {m m' : Machine W} {e : V4Err}
    (h : pollOnce H w ip m = .err e m') : m.vm.FailedTurn (m.vm.HasMessage w.msgType) m'.vm := by
  have push : ∀ {r m1 m2}, thenNext ip (pushReceived H r) m1 = .err e m2 →
      m1.vm.Untouched m2.vm := by
    intro r m1 m2 hpush
    have hbody := pushReceived_untouched hH r
    have hmeets : Meets (untouched W) (thenNext ip (pushReceived H r)) anyValue :=
      thenNext_meets untouched_composable hbody trivial
    have htail := hmeets m1 trivial
    rw [hpush] at htail
    exact htail
  rcases bind_eq_err.mp h with hfail | ⟨p, m1, hpoll, hrest⟩
  · -- the poll itself cannot fail; only the pushes of its result can
    have hnever := infallible_task.pollQueue Effect.infallible_composable (H := H) w
    exact absurd hfail (hnever.ne_err e m m')
  · obtain ⟨k, hk⟩ := pollQueue_ok hpoll
    obtain ⟨i, -, hsome, hp, hvm⟩ | ⟨hnone, ⟨hp, hvm⟩ | ⟨hp, -⟩⟩ :=
      receiveBlockingPoll_cases hk
    · simp only at hp hvm
      subst hp
      exact .of_taken (Vm.hasMessage_iff.mpr (by rw [hsome]; exact nofun)) hvm (push hrest)
    · simp only at hp hvm
      subst hp
      have huntouched := push hrest
      rw [hvm] at huntouched
      exact huntouched.failedTurn fun htaken => Vm.hasMessage_iff.mp htaken hnone
    · simp only at hp
      subst hp
      cases hrest

/-! ## Waiting -/

omit hH in
/-- A poll that goes on waiting has only slept. -/
theorem pollOnce_waits {w w' : Waiting} {ip ip' : Nat} {m m' : Machine W}
    (h : pollOnce H w ip m = .ok (.wait w' ip') m') :
    m.vm.SameMemory m'.vm ∧ m'.vm.msgQueue = m.vm.msgQueue := by
  obtain ⟨p, m1, hpoll, hrest⟩ := bind_eq_ok.mp h
  obtain ⟨k, hk⟩ := pollQueue_ok hpoll
  obtain ⟨i, -, -, hp, -⟩ | ⟨-, ⟨hp, -⟩ | ⟨hp, t, t', hsleep⟩⟩ :=
    receiveBlockingPoll_cases hk
  · simp only at hp
    subst hp
    cases (thenNext_ok hrest).1
  · simp only at hp
    subst hp
    cases (thenNext_ok hrest).1
  · simp only at hp hsleep
    subst hp
    cases hrest
    have hframe := (backendStep_frame (o := .sleep 10 t t') hsleep).1
    exact ⟨hframe.sameMemory, sleep_keeps_msgQueue hsleep⟩

/-- A blocking receive starts to wait. -/
theorem fetch_waits {cur : Activation} {w : Waiting} {ip : Nat} {m m' : Machine W}
    (h : fetch H cur m = .ok (.wait w ip) m') : m.vm.Untouched m'.vm := by
  have hF := untouched_composable (W := W)
  have hS := untouched_stack hH
  have hl := fetch_leaves (H := H) cur m trivial
  rw [h] at hl
  rw [fetch_run hl.2.1] at h
  have hmeets : Meets (untouched W) (execOp H cur (cur.ip + 1) .TASK_RECEIVE_BLOCKING)
      anyValue := by
    refine .bind hF (P := anyValue) ?_ fun w _ => .pure hF trivial
    exact .bind hF hS.pop fun _ _ => .bind hF hS.pop fun _ _ =>
      .bind hF (P := anyValue) (fun m _ => ⟨.refl m.vm, trivial⟩) fun _ _ => .pure hF trivial
  have hm := hmeets m trivial
  rw [h] at hm
  exact hm.1

end

/-! ## Every instruction -/

theorem settle_eq_ret {cur : Activation} {cs cs' : List Caller} {o : Outcome V4Err (Machine W) Flow}
    {e : V4Err} {m : Machine W} (h : settle cur cs o = .ret e m cs') (he : e ≠ 0) :
    o = .err e m := by
  match o, h with
  | .ok .ret m, h =>
      cases h
      exact absurd rfl he
  | .err e m, h =>
      cases h
      rfl

theorem settle_eq_poll {cur cur' : Activation} {cs cs' : List Caller} {w : Waiting}
    {o : Outcome V4Err (Machine W) Flow} {m : Machine W}
    (h : settle cur cs o = .poll w m cur' cs') :
    ∃ ip, o = .ok (.wait w ip) m := by
  match o, h with
  | .ok (.wait w ip) m, h =>
      cases h
      exact ⟨ip, rfl⟩

section

variable (hH : H.Within fun m m' => m'.vm = m.vm)
include hH

/-- Up to a failing turn only the task table may have changed. -/
theorem Turn.machine {m n : Machine W} {cur : Activation} {cs : List Caller} {x : Config W}
    (h : Turn H (.run m cur cs) x) (hn : x.machine = some n) :
    m.vm.SameMemory n.vm ∧ n.vm.msgQueue = m.vm.msgQueue := by
  induction h generalizing n with
  | first =>
      cases hn
      exact ⟨.refl m.vm, rfl⟩
  | again h hs ih =>
      cases hn
      obtain ⟨m1, cur1, cs1, rfl, heq⟩ | ⟨w1, m1, cur1, cs1, rfl, heq⟩ | ⟨m1, y, cs1, -, heq⟩
        | ⟨e, m1, y, cs1, -, -, heq⟩ := hs.cases
      · -- the turn's first step starts the wait: the stacks change, memory does not
        obtain ⟨ip, hwait⟩ := settle_eq_poll heq.symm
        obtain ⟨hmem, hqueue⟩ := ih rfl
        have hturn := fetch_waits hH hwait
        exact ⟨hmem.trans hturn.toSameMemory, hturn.msgQueue.trans hqueue⟩
      · -- a poll that finds nothing schedules and waits on
        obtain ⟨ip, hwait⟩ := settle_eq_poll heq.symm
        obtain ⟨hmem, hqueue⟩ := ih rfl
        obtain ⟨hmem', hqueue'⟩ := pollOnce_waits hwait
        exact ⟨hmem.trans hmem', hqueue'.trans hqueue⟩
      · cases heq
      · cases heq

/-- **One turn.**  A failing turn leaves all but the queue, and that too unless it has
    taken a message. -/
theorem Turn.fails {c x : Config W} {m n n' : Machine W} {cur : Activation} {cs cs' : List Caller}
    {e : V4Err} (hc : c = .run m cur cs) (h : Turn H c x) (hn : x.machine = some n)
    (hs : Step H x (.ret e n' cs')) (he : e ≠ 0) : n.vm.FailedTurn x.TakesMessage n'.vm := by
  obtain ⟨m1, cur1, cs1, rfl, heq⟩ | ⟨w1, m1, cur1, cs1, rfl, heq⟩ | ⟨m1, y, cs1, -, heq⟩
    | ⟨e1, m1, y, cs1, -, rfl, -⟩ := hs.cases
  · cases hn
    exact fetch_fails hH (settle_eq_ret heq.symm he)
  · cases hn
    exact pollOnce_fails hH (settle_eq_ret heq.symm he)
  · cases heq
  · cases h
    cases hc

/-- **Failing instructions.**  One that makes `vm_exec_raw` return an error has left
    everything outside the stacks as it was exactly when its failing turn finds the
    task table as the instruction found it, and takes no message. -/
theorem failure_untouched_iff {m n m' : Machine W} {cur : Activation} {cs : List Caller}
    {x : Config W} {e : V4Err} (h : Fails H (.run m cur cs) x e m') (hn : x.machine = some n) :
    m.vm.Untouched m'.vm ↔ n.vm.scheduler.tasks = m.vm.scheduler.tasks ∧ ¬ x.TakesMessage := by
  obtain ⟨n', cs', hs, hreturn⟩ := h.returns
  obtain ⟨fp, cs'', heq⟩ := hreturn.failed h.error
  cases heq
  obtain ⟨hmem, hqueue⟩ := h.turn.machine hH hn
  have hturn := h.turn.fails hH rfl hn hs h.error
  constructor
  · intro huntouched
    have htasks : n'.vm.scheduler.tasks = m.vm.scheduler.tasks := huntouched.tasks
    have hqueue' : n'.vm.msgQueue = m.vm.msgQueue := huntouched.msgQueue
    exact ⟨hturn.tasks.symm.trans htasks, hturn.msgQueue.mp (hqueue'.trans hqueue.symm)⟩
  · rintro ⟨htasks, hno⟩
    have hsame := hmem.trans hturn.toSameMemory
    exact ⟨⟨hsame.mem, hsame.memSize, hsame.words, hsame.wordCount, hsame.mmio, hsame.mmioCount⟩,
      hturn.tasks.trans htasks, (hturn.msgQueue.mpr hno).trans hqueue⟩

end

/-- One running task with 255 cells on the data stack, and the messages of `sends`. -/
def deepVm (sends : List BackendOp) : Vm :=
  vmAfter (.spawn 0 1 0 0 true true :: .schedule 0 :: sends
    ++ [.program (.filled 0 255 (by decide))])

/-- The `TASK_RECEIVE` that is executed on it. -/
def deepReceive (sends : List BackendOp) : Config Unit :=
  .start (Machine.boot (deepVm sends)) [0x97] 1

theorem deepReceive_fails (sends : List BackendOp) {m' : Machine Unit}
    (h : fetch Host.silent ⟨[0x97], 1, 0⟩ (Machine.boot (deepVm sends))
      = .err Err.stackOverflow.code m') :
    Fails Host.silent (deepReceive sends) (deepReceive sends) Err.stackOverflow.code m' where
  turn := .first
  error := by decide
  returns := ⟨m', [], by rw [Step, deepReceive, Config.start, step, h]; rfl, .refl⟩

/-- No message is waiting: the third push overflows, and nothing is lost. -/
theorem overflow_without_message : ∃ m',
    Fails Host.silent (deepReceive []) (deepReceive []) Err.stackOverflow.code m' ∧
      (deepVm []).Untouched m'.vm := by
  have hfails := deepReceive_fails [] rfl
  refine ⟨_, hfails, ?_⟩
  have hsilent : Host.silent.Within fun m m' => m'.vm = m.vm :=
    Host.silent_within.mono fun _ _ h => congrArg Machine.vm h
  refine (failure_untouched_iff hsilent hfails rfl).mpr ⟨rfl, ?_⟩
  rintro ⟨-, -, msg, hmsg, -⟩
  cases hmsg

/-- The message that is waiting is taken, and the third push overflows. -/
theorem overflow_loses_message : ¬ ∀ x e m',
    Fails Host.silent (deepReceive [.send 0 1 42]) x e m' →
      (deepVm [.send 0 1 42]).Untouched m'.vm := by
  intro h
  have hqueue := (h _ _ _ (deepReceive_fails [.send 0 1 42] rfl)).msgQueue
  have hcount := congrArg V4MsgQueue.count hqueue
  revert hcount
  decide

end V4Engine
