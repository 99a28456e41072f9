/-
  V4Engine.Vm.Operands

  The operands of `TASK_SPAWN` and `TASK_SEND`.

  Each of these opcodes narrows its 32-bit operands to the width of the fields
  before the backend validates them.  A check therefore sees the value that fits
  the operand's own range exactly when the operand is representable, and an
  operand that is not can pass for one that is
  (`task_operands_checked_iff`).
-/
import V4Engine.Vm.StackRuns

namespace V4Engine

open Lib FaultM VmM

variable {W : Type} {H : Host W} {m : Machine W}

/-! ## What the opcodes promise -/

/-- Slot `i` went from free to used. -/
def Created (vm vm' : Vm) (i : Fin 8) : Prop :=
  (vm.task i).state = .dead ∧ (vm'.task i).state ≠ .dead

/-- `TASK_SPAWN` on its full operands: an index that names no word is answered with
    `InvalidWordIdx` and creates nothing, and a task that is created has the index and
    the priority that were given. -/
def SpawnExact (H : Host W) (m : Machine W) : Prop :=
  ∃ m', taskSpawnOp H m = .ok () m' ∧
    ((m.operand 3).toInt < 0 ∨ (m.vm.wordCount : Int) ≤ (m.operand 3).toInt →
      m'.operand 0 = BitVec.ofInt 32 Err.invalidWordIdx.code ∧ ∀ i, ¬ Created m.vm m'.vm i) ∧
    ∀ i, Created m.vm m'.vm i →
      (m'.vm.task i).wordIdx.setWidth 32 = m.operand 3 ∧
      (m'.vm.task i).priority.setWidth 32 = m.operand 2

/-- The target is a task or the broadcast address. -/
def IsTarget (t : Cell) : Prop := (0 ≤ t.toInt ∧ t.toInt ≤ 7) ∨ t.toInt = 255

/-- `TASK_SEND` on its full operands: a target that is neither a task nor the broadcast
    address is answered with `InvalidArg` and enqueues nothing, and a message that is
    enqueued has the target and the type that were given. -/
def SendExact (H : Host W) (m : Machine W) : Prop :=
  ∃ m', taskSendOp H m = .ok () m' ∧
    (¬ IsTarget (m.operand 2) →
      m'.operand 0 = BitVec.ofInt 32 Err.invalidArg.code ∧ m'.vm.msgQueue = m.vm.msgQueue) ∧
    (m'.vm.msgQueue.count ≠ m.vm.msgQueue.count →
      (m'.vm.msgQueue.queue m.vm.msgQueue.writeIdx.toNat).dstTask.setWidth 32 = m.operand 2 ∧
      (m'.vm.msgQueue.queue m.vm.msgQueue.writeIdx.toNat).msgType.setWidth 32 = m.operand 1)

/-- The allocator grants both requests of the next spawn. -/
def Host.Grants (H : Host W) (m : Machine W) : Prop :=
  H.malloc m.mallocNo = true ∧ H.malloc (m.mallocNo + 1) = true

/-- The word index is refused even after narrowing, or it is representable and so is the
    priority of a task that gets a slot and its memory. -/
def SpawnFits (H : Host W) (m : Machine W) : Prop :=
  m.vm.wordCount ≤ (m.operand 3).toNat % 65536 ∨
    ((m.operand 3).toNat < 65536 ∧
      ((m.operand 2).toNat < 256 ∨ findDead m.vm = none ∨ ¬ H.Grants m))

/-- The target is refused even after narrowing, or it is representable and so is the type
    of a message the queue has room for. -/
def SendFits (m : Machine W) : Prop :=
  (8 ≤ (m.operand 2).toNat % 256 ∧ (m.operand 2).toNat % 256 ≠ 255) ∨
    ((m.operand 2).toNat < 256 ∧
      ((m.operand 1).toNat < 256 ∨ 16 ≤ m.vm.msgQueue.count.toNat))

/-! ## Narrowing -/

/-- A value survives narrowing to `k` bits exactly when it is below `2^k`. -/
theorem setWidth_setWidth_eq_iff {k : Nat} (hk : k ≤ 32) (x : Cell) :
    (x.setWidth k).setWidth 32 = x ↔ x.toNat < 2 ^ k := by
  have hpow : 2 ^ k ≤ 2 ^ 32 := Nat.pow_le_pow_right (by omega) hk
  rw [← BitVec.toNat_inj, BitVec.toNat_setWidth, BitVec.toNat_setWidth]
  have hmod := Nat.mod_lt x.toNat (Nat.two_pow_pos k)
  rw [Nat.mod_eq_of_lt (Nat.lt_of_lt_of_le hmod hpow)]
  constructor
  · intro h
    omega
  · exact Nat.mod_eq_of_lt

/-- Outside `[0, n)` as a signed number, for a small bound. -/
theorem outside_iff {n : Nat} (hn : n ≤ 256) (x : Cell) :
    (x.toInt < 0 ∨ (n : Int) ≤ x.toInt) ↔ n ≤ x.toNat := by
  have hx := x.isLt
  rw [BitVec.toInt_eq_toNat_cond]
  split <;> omega

theorem isTarget_iff (t : Cell) : IsTarget t ↔ t.toNat < 8 ∨ t.toNat = 255 := by
  have ht := t.isLt
  rw [IsTarget, BitVec.toInt_eq_toNat_cond]
  split <;> omega

/-! ## Spawning -/

/-- What a spawn does, with the reason. -/
theorem v4BackendTaskSpawn_outcomes (w : BitVec 16) (p : BitVec 8) (ds rs : BitVec 16)
    (dsOk rsOk : Bool) (vm : Vm) :
    (vm.wordCount ≤ w.toNat ∧
      v4BackendTaskSpawn w p ds rs dsOk rsOk vm = (Err.invalidWordIdx.code, vm)) ∨
    (w.toNat < vm.wordCount ∧ (findDead vm = none ∨ ¬ (dsOk = true ∧ rsOk = true)) ∧
      ∃ e vm', v4BackendTaskSpawn w p ds rs dsOk rsOk vm = (e, vm') ∧
        BitVec.ofInt 32 e ≠ BitVec.ofInt 32 Err.invalidWordIdx.code ∧
        ∀ j, (vm'.task j).state = (vm.task j).state) ∨
    (w.toNat < vm.wordCount ∧ (findDead vm ≠ none ∧ dsOk = true ∧ rsOk = true) ∧
      ∃ i t heap, (vm.task i).state = .dead ∧
        (t.state ≠ .dead ∧ t.wordIdx = w ∧ t.priority = p) ∧
        v4BackendTaskSpawn w p ds rs dsOk rsOk vm = ((i.val : Int), installTask vm i t heap)) := by
  unfold v4BackendTaskSpawn
  by_cases hw : w.toNat ≥ vm.wordCount
  · exact .inl ⟨hw, if_pos hw⟩
  · rw [if_neg hw]
    right
    cases hfind : findDead vm with
    | none => exact .inl ⟨by omega, .inl rfl, _, vm, rfl, by decide, fun _ => rfl⟩
    | some i =>
        have hdead : (vm.task i).state = .dead := by simpa using List.find?_some hfind
        by_cases hok : dsOk = true ∧ rsOk = true
        · -- both buffers were granted
          obtain ⟨rfl, rfl⟩ := hok
          exact .inr ⟨by omega, ⟨by simp, rfl, rfl⟩, i, _, _, hdead,
            ⟨TaskState.noConfusion, rfl, rfl⟩, rfl⟩
        · -- one was refused; the other is freed again and slot `i` stays DEAD
          refine .inl ⟨by omega, .inr hok, ?_⟩
          have hnull : (vm.heap.malloc dsOk (stackSize ds 256).toNat).1.isNone ∨
              ((vm.heap.malloc dsOk (stackSize ds 256).toNat).2.malloc rsOk
                (stackSize rs 64).toNat).1.isNone := by
            cases dsOk with
            | false => exact .inl rfl
            | true =>
                cases rsOk with
                | false => exact .inr rfl
                | true => exact absurd ⟨rfl, rfl⟩ hok
          refine ⟨_, _, if_pos hnull, by decide, fun j => ?_⟩
          apply abortSpawn_state

/-- Installing a task creates it and no other. -/
theorem created_installTask_iff {vm : Vm} {i j : Fin 8} {t : V4Task} {heap : Heap}
    (hdead : (vm.task i).state = .dead) (ht : t.state ≠ .dead) :
    Created vm (installTask vm i t heap) j ↔ j = i := by
  rw [Created, installTask_task]
  by_cases hj : j = i
  · subst hj
    rw [if_pos rfl]
    exact iff_of_true ⟨hdead, ht⟩ rfl
  · rw [if_neg hj]
    exact iff_of_false (fun h => h.2 h.1) hj

/-- A spawn leaves the data stack alone. -/
theorem v4BackendTaskSpawn_sp (w : BitVec 16) (p : BitVec 8) (ds rs : BitVec 16)
    (dsOk rsOk : Bool) (vm : Vm) :
    (v4BackendTaskSpawn w p ds rs dsOk rsOk vm).2.sp = vm.sp := by
  obtain ⟨e, -, heq⟩ | ⟨i, -, heq⟩ := v4BackendTaskSpawn_cases w p ds rs dsOk rsOk vm
  · rw [heq]
  · rw [heq]
    obtain ⟨a, b, heap, hs⟩ | ⟨a, b, heap, hs⟩ :=
      spawnInto_cases vm i w p (stackSize ds 256) (stackSize rs 64) dsOk rsOk <;> rw [hs] <;> rfl

/-- The call `TASK_SPAWN` makes once its operands are popped. -/
def spawnCall (H : Host W) (m : Machine W) : Int × Vm :=
  v4BackendTaskSpawn ((m.operand 3).setWidth 16) ((m.operand 2).setWidth 8)
    ((m.operand 1).setWidth 16) ((m.operand 0).setWidth 16) (H.malloc m.mallocNo)
    (H.malloc (m.mallocNo + 1)) (m.popped 4).vm

theorem taskSpawnOp_run (hsp : 4 ≤ m.vm.sp) (hfit : m.vm.sp ≤ 256) :
    taskSpawnOp H m = .ok ()
      ({ m with vm := (spawnCall H m).2, mallocNo := m.mallocNo + 2 }.pushed
        (BitVec.ofInt 32 (spawnCall H m).1)) := by
  have hcall : (spawnCall H m).2.sp = m.vm.sp - 4 := v4BackendTaskSpawn_sp ..
  rw [taskSpawnOp, bind_ok (dsPop_run_first (by omega) hfit),
    bind_ok (dsPop_run_next (by omega) hfit), bind_ok (dsPop_run_next (by omega) hfit),
    bind_ok (dsPop_run_next (by omega) hfit)]
  exact dsPush_eq_ok.mpr ⟨by show (spawnCall H m).2.sp < 256; omega, rfl⟩

/-- The record of a new task carries the operands exactly when both fit their fields. -/
theorem created_fields_iff (vm : Vm) (i : Fin 8) (heap : Heap) {t : V4Task} {w p : Cell}
    (hword : t.wordIdx = w.setWidth 16) (hprio : t.priority = p.setWidth 8) :
    (((installTask vm i t heap).task i).wordIdx.setWidth 32 = w ∧
        ((installTask vm i t heap).task i).priority.setWidth 32 = p) ↔
      w.toNat < 65536 ∧ p.toNat < 256 := by
  rw [installTask_task, if_pos rfl, hword, hprio, setWidth_setWidth_eq_iff (by omega),
    setWidth_setWidth_eq_iff (by omega)]
  exact Iff.rfl

/-- **`TASK_SPAWN`** checks its operands exactly when narrowing does not make a
    difference. -/
theorem spawnExact_iff (hsp : 4 ≤ m.vm.sp) (hfit : m.vm.sp ≤ 256) (hwords : m.vm.wordCount ≤ 256) :
    SpawnExact H m ↔ SpawnFits H m := by
  have hw16 : ((m.operand 3).setWidth 16).toNat = (m.operand 3).toNat % 65536 :=
    BitVec.toNat_setWidth ..
  have hout := outside_iff hwords (m.operand 3)
  have hmod := Nat.mod_le (m.operand 3).toNat 65536
  have hrun := taskSpawnOp_run (H := H) hsp hfit
  rw [SpawnExact, SpawnFits, hout]
  obtain ⟨hw, hs⟩ | ⟨hw, hno, e, vm', hs, hne, hstate⟩ |
      ⟨hw, hyes, i, t, heap, hdead, ⟨hlive, hword, hprio⟩, hs⟩ :=
    v4BackendTaskSpawn_outcomes ((m.operand 3).setWidth 16) ((m.operand 2).setWidth 8)
      ((m.operand 1).setWidth 16) ((m.operand 0).setWidth 16) (H.malloc m.mallocNo)
      (H.malloc (m.mallocNo + 1)) (m.popped 4).vm
  · -- The narrowed index is refused, and so is the index itself.
    change m.vm.wordCount ≤ _ at hw
    change spawnCall H m = _ at hs
    rw [hs] at hrun
    refine iff_of_true ⟨_, hrun, fun _ => ⟨pushed_operand .., fun i hi => ?_⟩, fun i hi => ?_⟩
      (.inl (by omega)) <;> exact absurd hi.1 hi.2
  · -- Accepted, but no slot or no memory.
    change _ < m.vm.wordCount at hw
    change findDead m.vm = none ∨ ¬ H.Grants m at hno
    change spawnCall H m = _ at hs
    rw [hs] at hrun
    have hnone : ∀ i, ¬ Created m.vm vm' i := fun i hi => hi.2 ((hstate i).trans hi.1)
    constructor
    · rintro ⟨m', heq, hrefuse, -⟩
      rw [hrun] at heq
      cases heq
      by_cases hlt : (m.operand 3).toNat < 65536
      · exact .inr ⟨hlt, .inr hno⟩
      · exact absurd ((pushed_operand ..).symm.trans (hrefuse (by omega)).1) hne
    · rintro (hbig | ⟨hlt, -⟩)
      · omega
      · refine ⟨_, hrun, fun hge => ?_, fun i hi => absurd hi (hnone i)⟩
        rw [Nat.mod_eq_of_lt hlt] at hw16
        omega
  · -- A task is created in slot `i`.
    change _ < m.vm.wordCount at hw
    change findDead m.vm ≠ none ∧ H.Grants m at hyes
    change spawnCall H m = _ at hs
    rw [hs] at hrun
    have hcreated : ∀ j, Created m.vm (installTask (m.popped 4).vm i t heap) j ↔ j = i :=
      fun j => show Created (m.popped 4).vm _ j ↔ _ from created_installTask_iff hdead hlive
    have hfields := created_fields_iff (m.popped 4).vm i heap hword hprio
    constructor
    · rintro ⟨m', heq, -, hgiven⟩
      rw [hrun] at heq
      cases heq
      have hboth := hfields.mp (hgiven i ((hcreated i).mpr rfl))
      exact .inr ⟨hboth.1, .inl hboth.2⟩
    · rintro (hbig | ⟨hlt, hp⟩)
      · omega
      · have hp256 : (m.operand 2).toNat < 256 := by
          rcases hp with hp | hnone | hgrant
          · exact hp
          · exact absurd hnone hyes.1
          · exact absurd hyes.2 hgrant
        refine ⟨_, hrun, fun hge => ?_, fun j hj => ?_⟩
        · rw [Nat.mod_eq_of_lt hlt] at hw16
          omega
        · obtain rfl := (hcreated j).mp hj
          exact hfields.mpr ⟨hlt, hp256⟩

/-! ## Sending -/

/-- The opcode around one call of the backend. -/
theorem taskSendOp_run (hsp : 3 ≤ m.vm.sp) (hfit : m.vm.sp ≤ 256) {code : Int} {vm' : Vm}
    (hvm : vm'.sp = m.vm.sp - 3)
    (hcall : v4BackendTaskSend ((m.operand 2).setWidth 8) ((m.operand 1).setWidth 8) (m.operand 0)
      (m.popped 3).vm = some (code, vm')) :
    taskSendOp H m = .ok () ({ m with vm := vm' }.pushed (BitVec.ofInt 32 code)) := by
  have hlift : (liftVm (v4BackendTaskSend ((m.operand 2).setWidth 8) ((m.operand 1).setWidth 8)
      (m.operand 0)) : VmM W Int) (m.popped 3) = .ok code { m with vm := vm' } := by
    unfold liftVm
    rw [hcall]
    rfl
  rw [taskSendOp, bind_ok (dsPop_run_first (by omega) hfit),
    bind_ok (dsPop_run_next (by omega) hfit), bind_ok (dsPop_run_next (by omega) hfit),
    bind_ok hlift]
  exact dsPush_eq_ok.mpr ⟨by show vm'.sp < 256; omega, rfl⟩

/-- The message a send puts at the write index carries the operands exactly when both fit
    their fields. -/
theorem sent_fields_iff (q : V4MsgQueue) (vm : Vm) (target msgType data : Cell) :
    (((q.push (outgoing vm (target.setWidth 8) (msgType.setWidth 8) data)).queue
          q.writeIdx.toNat).dstTask.setWidth 32 = target ∧
        ((q.push (outgoing vm (target.setWidth 8) (msgType.setWidth 8) data)).queue
          q.writeIdx.toNat).msgType.setWidth 32 = msgType) ↔
      target.toNat < 256 ∧ msgType.toNat < 256 := by
  have hslot : ∀ msg, (q.push msg).queue q.writeIdx.toNat = msg :=
    fun msg => Function.update_self ..
  rw [hslot, outgoing, setWidth_setWidth_eq_iff (by omega), setWidth_setWidth_eq_iff (by omega)]
  exact Iff.rfl

/-- **`TASK_SEND`** checks its operands exactly when narrowing does not make a
    difference. -/
theorem sendExact_iff (hsp : 3 ≤ m.vm.sp) (hfit : m.vm.sp ≤ 256)
    (hq : m.vm.msgQueue.writeIdx.toNat < 16) : SendExact H m ↔ SendFits m := by
  have hdst : ((m.operand 2).setWidth 8).toNat = (m.operand 2).toNat % 256 :=
    BitVec.toNat_setWidth ..
  have hall : (m.operand 2).setWidth 8 = 0xFF ↔ (m.operand 2).toNat % 256 = 255 := by
    rw [← BitVec.toNat_inj, hdst]
    exact Iff.rfl
  have hmod : (m.operand 2).toNat < 256 → (m.operand 2).toNat % 256 = (m.operand 2).toNat :=
    Nat.mod_eq_of_lt
  rw [SendExact, SendFits, isTarget_iff]
  obtain ⟨hbad, hs⟩ | ⟨hok, hfull, hs⟩ | ⟨hok, hroom, hs⟩ :=
    v4BackendTaskSend_cases (m.popped 3).vm hq ((m.operand 2).setWidth 8)
      ((m.operand 1).setWidth 8) (m.operand 0)
  · -- The narrowed target is refused, and so is the target itself.
    have hrun := taskSendOp_run (H := H) hsp hfit (by rfl) hs
    rw [hdst, ne_eq, hall] at hbad
    exact iff_of_true ⟨_, hrun, fun _ => ⟨pushed_operand .., rfl⟩, fun h => absurd rfl h⟩
      (.inl hbad)
  · -- Accepted, but the queue is full.
    have hrun := taskSendOp_run (H := H) hsp hfit (by rfl) hs
    rw [hdst, ne_eq, hall] at hok
    change 16 ≤ m.vm.msgQueue.count.toNat at hfull
    constructor
    · rintro ⟨m', heq, hrefuse, -⟩
      rw [hrun] at heq
      cases heq
      by_cases htarget : (m.operand 2).toNat < 8 ∨ (m.operand 2).toNat = 255
      · exact .inr ⟨by omega, .inr hfull⟩
      · have hcode := (hrefuse htarget).1
        rw [pushed_operand] at hcode
        exact absurd hcode (by decide)
    · rintro (hbad | ⟨hlt, -⟩)
      · exact absurd hbad hok
      · refine ⟨_, hrun, fun htarget => absurd ?_ htarget, fun h => absurd rfl h⟩
        have := hmod hlt
        omega
  · -- A message is enqueued at the write index.
    have hrun := taskSendOp_run (H := H) hsp hfit (by rfl) hs
    rw [hdst, ne_eq, hall] at hok
    change m.vm.msgQueue.count.toNat < 16 at hroom
    have hfields := sent_fields_iff m.vm.msgQueue (m.popped 3).vm (m.operand 2) (m.operand 1)
      (m.operand 0)
    have hcount : ∀ msg, (m.vm.msgQueue.push msg).count ≠ m.vm.msgQueue.count := by
      intro msg heq
      have := congrArg BitVec.toNat heq
      rw [V4MsgQueue.push_count hroom] at this
      omega
    constructor
    · rintro ⟨m', heq, hrefuse, hgiven⟩
      rw [hrun] at heq
      cases heq
      have hboth := hfields.mp (hgiven (hcount _))
      exact .inr ⟨hboth.1, .inl hboth.2⟩
    · rintro (hbad | ⟨hlt, hty⟩)
      · exact absurd hbad hok
      · have hty256 : (m.operand 1).toNat < 256 := hty.resolve_right (by omega)
        refine ⟨_, hrun, fun htarget => absurd ?_ htarget, fun _ => hfields.mpr ⟨hlt, hty256⟩⟩
        have := hmod hlt
        omega

/-- **The operands of the task opcodes** are checked in full exactly when they fit. -/
theorem task_operands_checked_iff (H : Host W) (m : Machine W) (hfit : m.vm.sp ≤ 256)
    (hwords : m.vm.wordCount ≤ 256) (hq : m.vm.msgQueue.writeIdx.toNat < 16) :
    (4 ≤ m.vm.sp → (SpawnExact H m ↔ SpawnFits H m)) ∧
      (3 ≤ m.vm.sp → (SendExact H m ↔ SendFits m)) :=
  ⟨fun hsp => spawnExact_iff hsp hfit hwords, fun hsp => sendExact_iff hsp hfit hq⟩

/-- A machine with one word and the operands `xs`, the top of the stack first. -/
def withOperands (xs : List Cell) : Machine Unit :=
  .boot { Vm.blank with
    DS := fun i => xs.getD (xs.length - 1 - i) 0, sp := xs.length, wordCount := 1 }

/-- Word 0 with priority 5 is spawned as it is given, and a message of type 7 is sent to
    task 1 as it is given. -/
theorem small_operands_checked :
    SpawnExact Host.silent (withOperands [0, 0, 5, 0]) ∧
      SendExact Host.silent (withOperands [42, 7, 1]) :=
  ⟨((task_operands_checked_iff Host.silent (withOperands [0, 0, 5, 0]) (by decide) (by decide)
      (by decide)).1 (by decide)).mpr (.inr ⟨by decide, .inl (by decide)⟩),
    ((task_operands_checked_iff Host.silent (withOperands [42, 7, 1]) (by decide) (by decide)
      (by decide)).2 (by decide)).mpr (.inr ⟨by decide, .inl (by decide)⟩)⟩

/-- Word 65536 does not exist, and is spawned as word 0; task 256 does not exist, and
    gets the message as task 0. -/
theorem large_operands_pass :
    (∃ m', taskSpawnOp Host.silent (withOperands [0, 0, 5, 65536]) = .ok () m' ∧
      m'.operand 0 = 0 ∧ (m'.vm.task 0).state = .ready ∧ (m'.vm.task 0).wordIdx = 0) ∧
    (∃ m', taskSendOp Host.silent (withOperands [42, 7, 256]) = .ok () m' ∧
      m'.operand 0 = 0 ∧ m'.vm.msgQueue.contents = [⟨0, 0, 7, 0, 42⟩]) ∧
    ¬ SpawnExact Host.silent (withOperands [0, 0, 5, 65536]) ∧
    ¬ SendExact Host.silent (withOperands [42, 7, 256]) := by
  refine ⟨⟨_, rfl, by decide, by decide, by decide⟩, ⟨_, rfl, by decide, by decide⟩, ?_, ?_⟩
  · rw [spawnExact_iff (by decide) (by decide) (by decide)]
    rintro (hbig | ⟨hlt, -⟩)
    · exact absurd hbig (by decide)
    · exact absurd hlt (by decide)
  · rw [sendExact_iff (by decide) (by decide) (by decide)]
    rintro (⟨hbad, -⟩ | ⟨hlt, -⟩)
    · exact absurd hbad (by decide)
    · exact absurd hlt (by decide)

end V4Engine
