/-
  V4Engine.Vm.OpRules

  The switch of `vm_exec_raw`, gone through once for each program logic.

  `execOp_meets` and `execOp_tracks` reduce a property of all instructions to
  the same property of the helpers their bodies are made of: stacks, return
  stack moves, local variables, memory, host calls, tasks, and the reads of
  the instruction's own immediate.  A property that does not hold of one of
  these groups asks nothing of it where the code executes none of its opcodes.
-/
import V4Engine.Vm.Machine

namespace V4Engine

open Lib FaultM VmM

variable {W : Type}

/-! ## Opcode classes -/

/-- The opcodes that address the frame of local variables. -/
def Op.isLocal (op : Op) : Bool := 0x79 ≤ op.opcode ∧ op.opcode ≤ 0x81

/-- The opcodes that access memory. -/
def Op.isMemory (op : Op) : Bool := 0x30 ≤ op.opcode ∧ op.opcode ≤ 0x37

/-! ## One run -/

/-- No condition on the value returned. -/
abbrev anyValue {α : Type} : α → Prop := fun _ => True

/-- The data stack, the peek at the return stack, and the one panic of the
    arithmetic block. -/
structure StackMeets (H : Host W) (F : Effect V4Err (Machine W)) : Prop where
  push : ∀ v, Meets F (dsPush H v) anyValue
  pop : Meets F (dsPop H) anyValue
  peek : ∀ i, Meets F (dsPeek H i) anyValue
  rsPeek : ∀ i, Meets F (rsPeek H i) anyValue
  divByZero : Meets F (vmPanic H Err.divByZero.code : VmM W Unit) anyValue

/-- The two opcodes that move `rp`. -/
structure RsMeets (H : Host W) (F : Effect V4Err (Machine W)) (op : Op) : Prop where
  tor : op = .TOR → Meets F (do let v ← dsPop H; rsPush H v) anyValue
  fromr : op = .FROMR → Meets F (do let v ← rsPop H; dsPush H v) anyValue

structure LocalMeets (H : Host W) (F : Effect V4Err (Machine W)) : Prop where
  get : ∀ idx, Meets F (localGet H idx) anyValue
  set : ∀ idx, Meets F (localSet H idx) anyValue
  tee : ∀ idx, Meets F (localTee H idx) anyValue
  add : ∀ idx d, Meets F (localAdd H idx d) anyValue

structure MemoryMeets (H : Host W) (F : Effect V4Err (Machine W)) : Prop where
  load32 : ∀ ext, Meets F (loadOp H (v4MemRead32Core H) ext) anyValue
  load16 : ∀ ext, Meets F (loadOp H v4MemRead16Core ext) anyValue
  load8 : ∀ ext, Meets F (loadOp H v4MemRead8Core ext) anyValue
  store32 : Meets F (storeOp H (v4MemWrite32Core H)) anyValue
  store16 : Meets F (storeOp H v4MemWrite16Core) anyValue
  store8 : Meets F (storeOp H v4MemWrite8Core) anyValue

structure TaskMeets (H : Host W) (F : Effect V4Err (Machine W)) : Prop where
  spawn : ∀ w p d r, Meets F (vmTaskSpawn H w p d r) anyValue
  exit : Meets F (vmTaskExit H) anyValue
  sleep : ∀ ms, Meets F (vmTaskSleep H ms) anyValue
  yield : Meets F (vmTaskYield H) anyValue
  enter : Meets F (criticalEnter H) anyValue
  leave : Meets F (criticalExit H) anyValue
  send : ∀ dst ty data, Meets F (liftVm (v4BackendTaskSend dst ty data) : VmM W Int) anyValue
  receive : ∀ ty, Meets F
    (liftVm fun vm => some (v4BackendTaskReceive ty vm) :
      VmM W (Option (Cell × BitVec 8))) anyValue
  tick : Meets F (getTick H) anyValue
  indet : Meets F (indeterminate H) anyValue

/-- What the body of `op` reads from the code, and where it leaves the switch:
    `Q` is asked of every flow it can end with. -/
structure CodeMeets (H : Host W) (F : Effect V4Err (Machine W)) (a : Activation) (ip : Nat)
    (op : Op) (Q : Flow → Prop) : Prop where
  noImm : op.kind = .NoImm → op ≠ .RET → Q (.next ip)
  imm8 : op.kind = .Imm8 → Meets F (imm8 H a ip) fun _ => Q (.next (ip + 1))
  imm16 : op.kind = .Imm16 → Meets F (imm16 H .truncatedLiteral a ip) fun _ => Q (.next (ip + 2))
  imm32 : op.kind = .Imm32 → Meets F (imm32 H a ip) fun _ => Q (.next (ip + 4))
  rel16 : op.kind = .Rel16 → Meets F (V4Engine.imm16 H .truncatedJump a ip) fun off =>
    Meets F (jumpTo H a (ip + 2) off) Q ∧ (op ≠ .JMP → Q (.next (ip + 2)))
  idx16 : op.kind = .Idx16 → Meets F (V4Engine.imm16 H .truncatedJump a ip) fun idx =>
    Meets F (callee H idx) fun c => Q (.call c (ip + 2))
  ret : op = .RET ∨ op = .TASK_EXIT → Q .ret
  wait : op = .TASK_RECEIVE_BLOCKING → ∀ w, Q (.wait w ip)

section OneRun

variable {H : Host W} {F : Effect V4Err (Machine W)}

theorem thenNext_meets {ip : Nat} {body : VmM W Unit} {Q : Flow → Prop}
    (hF : F.Composable) (hb : Meets F body anyValue) (hQ : Q (.next ip)) :
    Meets F (thenNext ip body) Q :=
  .bind hF hb fun _ _ => .pure hF hQ

namespace StackMeets

variable (hF : F.Composable) (P : StackMeets H F)
include hF P

theorem binaryBlock (op : Op) : Meets F (binaryBlock H op) anyValue := by
  refine .bind hF P.pop fun b _ => .bind hF P.pop fun a _ => ?_
  cases binaryResult op a b with
  | none => exact P.divByZero
  | some r => exact P.push r

theorem popPopPush (f : Cell → Cell → Cell) : Meets F (popPopPush H f) anyValue :=
  .bind hF P.pop fun _ _ => .bind hF P.pop fun _ _ => P.push _

theorem popPush (f : Cell → Cell) : Meets F (popPush H f) anyValue :=
  .bind hF P.pop fun _ _ => P.push _

end StackMeets

theorem getVm_meets (hF : F.Composable) : Meets F (getVm : VmM W Vm) anyValue :=
  fun _ hs => ⟨hF.refl hs, trivial⟩

/-- The three pushes after a receive. -/
theorem pushReceived_meets (P : StackMeets H F) (hi : Meets F (indeterminate H) anyValue)
    (hF : F.Composable) (r : Option (Cell × BitVec 8)) : Meets F (pushReceived H r) anyValue := by
  cases r with
  | none =>
      exact .bind hF hi fun _ _ => .bind hF hi fun _ _ =>
        .bind hF (P.push _) fun _ _ => .bind hF (P.push _) fun _ _ => P.push _
  | some r =>
      exact .bind hF (P.push _) fun _ _ => .bind hF (P.push _) fun _ _ => P.push _

/-- **The switch, one run.**  Every instruction stays within a composable effect
    that its helpers stay within. -/
theorem execOp_meets (hF : F.Composable) {a : Activation} {ip : Nat} {op : Op} {Q : Flow → Prop}
    (P : StackMeets H F) (C : CodeMeets H F a ip op Q) (R : RsMeets H F op)
    (L : op.isLocal = true → LocalMeets H F) (M : op.isMemory = true → MemoryMeets H F)
    (S : op = .SYS → ∀ i x y z, Meets F (v4InvokeSysHandler H i x y z) anyValue)
    (T : op.isTask = true → TaskMeets H F) :
    Meets F (execOp H a ip op) Q := by
  -- A body without immediate, one with an 8-bit index, and the fall-through flow.
  have plain : ∀ body : VmM W Unit, op.kind = .NoImm → op ≠ .RET → Meets F body anyValue →
      Meets F (thenNext ip body) Q :=
    fun body hk hr hb => thenNext_meets hF hb (C.noImm hk hr)
  have indexed : ∀ body : Byte → VmM W Unit, op.kind = .Imm8 →
      (∀ b, Meets F (body b) anyValue) →
      Meets F (do let b ← imm8 H a ip; thenNext (ip + 1) (body b)) Q :=
    fun body hk hb => .bind hF (C.imm8 hk) fun b hQ => thenNext_meets hF (hb b) hQ
  match op with
  | .LIT =>
      exact .bind hF (C.imm32 rfl) fun k hQ => thenNext_meets hF (P.push k) hQ
  | .DUP => exact plain _ rfl (by decide) (.bind hF (P.peek 0) fun v _ => P.push v)
  | .DROP => exact plain _ rfl (by decide) (.bind hF P.pop fun _ _ => .pure hF trivial)
  | .SWAP =>
      refine plain _ rfl (by decide) ?_
      exact .bind hF P.pop fun v _ => .bind hF P.pop fun w _ =>
        .bind hF (P.push v) fun _ _ => P.push w
  | .OVER => exact plain _ rfl (by decide) (.bind hF (P.peek 1) fun v _ => P.push v)
  | .ADD | .SUB | .MUL | .DIV | .MOD | .DIVU | .MODU
  | .EQ | .NE | .LT | .LE | .GT | .GE | .LTU | .LEU =>
      exact plain _ rfl (by decide) (P.binaryBlock hF _)
  | .INC | .DEC | .INVERT => exact plain _ rfl (by decide) (P.popPush hF _)
  | .AND | .OR | .XOR | .SHL | .SHR | .SAR => exact plain _ rfl (by decide) (P.popPopPush hF _)
  | .JMP => exact .bind hF (C.rel16 rfl) fun off h => h.1
  | .JZ | .JNZ =>
      exact .bind hF (C.rel16 rfl) fun off h => .bind hF P.pop fun cond _ =>
        .ite (fun _ => h.1) fun _ => .pure hF (h.2 (by decide))
  | .SELECT =>
      refine plain _ rfl (by decide) ?_
      exact .bind hF P.pop fun v _ => .bind hF P.pop fun w _ => .bind hF P.pop fun f _ => P.push _
  | .LOAD => exact plain _ rfl (by decide) ((M rfl).load32 _)
  | .LOAD8U | .LOAD8S => exact plain _ rfl (by decide) ((M rfl).load8 _)
  | .LOAD16U | .LOAD16S => exact plain _ rfl (by decide) ((M rfl).load16 _)
  | .STORE => exact plain _ rfl (by decide) (M rfl).store32
  | .STORE8 => exact plain _ rfl (by decide) (M rfl).store8
  | .STORE16 => exact plain _ rfl (by decide) (M rfl).store16
  | .TOR => exact plain _ rfl (by decide) (R.tor rfl)
  | .FROMR => exact plain _ rfl (by decide) (R.fromr rfl)
  | .RFETCH => exact plain _ rfl (by decide) (.bind hF (P.rsPeek 0) fun v _ => P.push v)
  | .LIT0 | .LIT1 | .LITN1 => exact plain _ rfl (by decide) (P.push _)
  | .LIT_U8 | .LIT_I8 => exact indexed _ rfl fun b => P.push _
  | .LIT_I16 => exact .bind hF (C.imm16 rfl) fun v hQ => thenNext_meets hF (P.push _) hQ
  | .LGET => exact indexed _ rfl fun b => (L rfl).get _
  | .LSET => exact indexed _ rfl fun b => (L rfl).set _
  | .LTEE => exact indexed _ rfl fun b => (L rfl).tee _
  | .LGET0 | .LGET1 => exact plain _ rfl (by decide) ((L rfl).get _)
  | .LSET0 | .LSET1 => exact plain _ rfl (by decide) ((L rfl).set _)
  | .LINC | .LDEC => exact indexed _ rfl fun b => (L rfl).add _ _
  | .CALL =>
      exact .bind hF (C.idx16 rfl) fun idx h => .bind hF h fun c hQ => .pure hF hQ
  | .RET => exact .pure hF (C.ret (.inl rfl))
  | .SYS =>
      refine plain _ rfl (by decide) ?_
      exact .bind hF P.pop fun i _ => .bind hF P.pop fun z _ => .bind hF P.pop fun y _ =>
        .bind hF P.pop fun x _ => .bind hF (S rfl i x y z) fun r _ => P.push r
  | .TASK_SPAWN =>
      refine plain _ rfl (by decide) ?_
      exact .bind hF P.pop fun r _ => .bind hF P.pop fun d _ => .bind hF P.pop fun p _ =>
        .bind hF P.pop fun w _ => .bind hF ((T rfl).spawn _ _ _ _) fun id _ => P.push _
  | .TASK_EXIT => exact .bind hF (T rfl).exit fun _ _ => .pure hF (C.ret (.inr rfl))
  | .TASK_SLEEP =>
      exact plain _ rfl (by decide) (.bind hF P.pop fun ms _ => (T rfl).sleep ms)
  | .TASK_YIELD => exact plain _ rfl (by decide) (T rfl).yield
  | .CRITICAL_ENTER => exact plain _ rfl (by decide) (T rfl).enter
  | .CRITICAL_EXIT => exact plain _ rfl (by decide) (T rfl).leave
  | .TASK_SEND =>
      refine plain _ rfl (by decide) ?_
      exact .bind hF P.pop fun d _ => .bind hF P.pop fun ty _ => .bind hF P.pop fun dst _ =>
        .bind hF ((T rfl).send _ _ _) fun r _ => P.push _
  | .TASK_RECEIVE =>
      refine plain _ rfl (by decide) ?_
      exact .bind hF P.pop fun ty _ => .bind hF ((T rfl).receive _) fun r _ =>
        pushReceived_meets P (T rfl).indet hF r
  | .TASK_RECEIVE_BLOCKING =>
      refine .bind hF (P := anyValue) ?_ fun w _ => .pure hF (C.wait rfl w)
      exact .bind hF P.pop fun _ _ => .bind hF P.pop fun _ _ => .bind hF (T rfl).tick fun _ _ =>
        .pure hF trivial
  | .TASK_SELF | .TASK_COUNT =>
      exact plain _ rfl (by decide) (.bind hF (getVm_meets hF) fun vm _ => P.push _)

end OneRun

/-! ## Two runs in lockstep -/

/-- The data stack, the return stack and the panic of the arithmetic block.
    Only a step that ends its instruction may leave final states out, which is
    why `SWAP`, with its two pushes, is on the list. -/
structure StackTracks (H : Host W) (S : Sim V4Err (Machine W) (Machine W))
    (O : Machine W → Prop) : Prop where
  push : ∀ v, Tracks S O (dsPush H v) (dsPush H v)
  pop : Exact S (dsPop H) (dsPop H)
  peek : ∀ i, Exact S (dsPeek H i) (dsPeek H i)
  swap : Tracks S O (swapBody H) (swapBody H)
  rsPush : ∀ v, Tracks S O (rsPush H v) (rsPush H v)
  rsPop : Exact S (rsPop H) (rsPop H)
  rsPeek : ∀ i, Exact S (rsPeek H i) (rsPeek H i)
  divByZero : Tracks S O (vmPanic H Err.divByZero.code : VmM W Unit)
    (vmPanic H Err.divByZero.code)

structure LocalTracks (H : Host W) (S : Sim V4Err (Machine W) (Machine W))
    (O : Machine W → Prop) : Prop where
  get : ∀ idx, Tracks S O (localGet H idx) (localGet H idx)
  set : ∀ idx, Tracks S O (localSet H idx) (localSet H idx)
  tee : ∀ idx, Tracks S O (localTee H idx) (localTee H idx)
  add : ∀ idx d, Tracks S O (localAdd H idx d) (localAdd H idx d)

/-- The six accessors, matched exactly. -/
structure MemoryTracks (H : Host W) (S : Sim V4Err (Machine W) (Machine W)) : Prop where
  read32 : ∀ addr out, Exact S (v4MemRead32Core H addr out) (v4MemRead32Core H addr out)
  read16 : ∀ addr out, Exact S (v4MemRead16Core addr out) (v4MemRead16Core addr out)
  read8 : ∀ addr out, Exact S (v4MemRead8Core addr out) (v4MemRead8Core addr out)
  write32 : ∀ addr val, Exact S (v4MemWrite32Core H addr val) (v4MemWrite32Core H addr val)
  write16 : ∀ addr val, Exact S (v4MemWrite16Core addr val) (v4MemWrite16Core addr val)
  write8 : ∀ addr val, Exact S (v4MemWrite8Core addr val) (v4MemWrite8Core addr val)
  check : ∀ e, Exact S (check e : VmM W Unit) (check e)

/-- The code reads of one activation. -/
structure CodeTracks (H : Host W) (S : Sim V4Err (Machine W) (Machine W)) (a : Activation) :
    Prop where
  imm8 : ∀ ip, Exact S (imm8 H a ip) (imm8 H a ip)
  imm16 : ∀ e, e ≠ .ok → ∀ ip, Exact S (imm16 H e a ip) (imm16 H e a ip)
  imm32 : ∀ ip, Exact S (imm32 H a ip) (imm32 H a ip)
  jumpTo : ∀ ip off, Exact S (jumpTo H a ip off) (jumpTo H a ip off)
  callee : ∀ idx, Exact S (callee H idx) (callee H idx)

/-- The task calls, matched exactly; the two instructions that read the scheduler and the
    pushes after a receive may leave final states out. -/
structure TaskTracks (H : Host W) (S : Sim V4Err (Machine W) (Machine W))
    (O : Machine W → Prop) : Prop where
  spawn : ∀ w p d r, Exact S (vmTaskSpawn H w p d r) (vmTaskSpawn H w p d r)
  exit : Exact S (vmTaskExit H) (vmTaskExit H)
  sleep : ∀ ms, Exact S (vmTaskSleep H ms) (vmTaskSleep H ms)
  yield : Exact S (vmTaskYield H) (vmTaskYield H)
  enter : Exact S (criticalEnter H) (criticalEnter H)
  leave : Exact S (criticalExit H) (criticalExit H)
  send : ∀ dst ty data, Exact S (liftVm (v4BackendTaskSend dst ty data) : VmM W Int)
    (liftVm (v4BackendTaskSend dst ty data))
  receive : ∀ ty, Exact S
    (liftVm fun vm => some (v4BackendTaskReceive ty vm) : VmM W (Option (Cell × BitVec 8)))
    (liftVm fun vm => some (v4BackendTaskReceive ty vm))
  received : ∀ r, Tracks S O (pushReceived H r) (pushReceived H r)
  tick : Exact S (getTick H) (getTick H)
  self : Tracks S O (taskSelfOp H) (taskSelfOp H)
  count : Tracks S O (taskCountOp H) (taskCountOp H)

section TwoRuns

variable {H : Host W} {S : Sim V4Err (Machine W) (Machine W)} {O : Machine W → Prop}

theorem thenNext_tracks {ip : Nat} {x y : VmM W Unit} (h : Tracks S O x y) :
    Tracks S O (thenNext ip x) (thenNext ip y) := .bind_pure _ h

theorem loadOp_tracks (P : StackTracks H S O) {core : Cell → Cell → VmM W (V4Err × Cell)}
    (hc : ∀ addr out, Exact S (core addr out) (core addr out))
    (hk : ∀ e, Exact S (check e : VmM W Unit) (check e)) (ext : Cell → Cell) :
    Tracks S O (loadOp H core ext) (loadOp H core ext) :=
  .bind P.pop fun addr => .bind (hc addr 0) fun r => .bind (hk r.1) fun _ => P.push _

theorem storeOp_tracks (P : StackTracks H S O) {core : Cell → Cell → VmM W V4Err}
    (hc : ∀ addr val, Exact S (core addr val) (core addr val))
    (hk : ∀ e, Exact S (check e : VmM W Unit) (check e)) :
    Tracks S O (storeOp H core) (storeOp H core) :=
  .bind P.pop fun addr => .bind P.pop fun val => .bind (hc addr val) fun e =>
    (hk e).weaken fun _ h => h.elim

namespace StackTracks

variable (P : StackTracks H S O)
include P

theorem binaryBlock (op : Op) : Tracks S O (binaryBlock H op) (binaryBlock H op) := by
  refine .bind P.pop fun b => .bind P.pop fun a => ?_
  cases binaryResult op a b with
  | none => exact P.divByZero
  | some r => exact P.push r

theorem popPopPush (f : Cell → Cell → Cell) : Tracks S O (popPopPush H f) (popPopPush H f) :=
  .bind P.pop fun _ => .bind P.pop fun _ => P.push _

theorem popPush (f : Cell → Cell) : Tracks S O (popPush H f) (popPush H f) :=
  .bind P.pop fun _ => P.push _

end StackTracks

/-- The `LOAD*` and `STORE*` opcodes, each as a whole: a refused access is a value of the
    accessor, and an error only of the opcode. -/
structure LoadStoreTracks (H : Host W) (S : Sim V4Err (Machine W) (Machine W))
    (O : Machine W → Prop) : Prop where
  load32 : ∀ ext, Tracks S O (loadOp H (v4MemRead32Core H) ext) (loadOp H (v4MemRead32Core H) ext)
  load16 : ∀ ext, Tracks S O (loadOp H v4MemRead16Core ext) (loadOp H v4MemRead16Core ext)
  load8 : ∀ ext, Tracks S O (loadOp H v4MemRead8Core ext) (loadOp H v4MemRead8Core ext)
  store32 : Tracks S O (storeOp H (v4MemWrite32Core H)) (storeOp H (v4MemWrite32Core H))
  store16 : Tracks S O (storeOp H v4MemWrite16Core) (storeOp H v4MemWrite16Core)
  store8 : Tracks S O (storeOp H v4MemWrite8Core) (storeOp H v4MemWrite8Core)

theorem MemoryTracks.loadStore (M : MemoryTracks H S) (P : StackTracks H S O) :
    LoadStoreTracks H S O where
  load32 := loadOp_tracks P M.read32 M.check
  load16 := loadOp_tracks P M.read16 M.check
  load8 := loadOp_tracks P M.read8 M.check
  store32 := storeOp_tracks P M.write32 M.check
  store16 := storeOp_tracks P M.write16 M.check
  store8 := storeOp_tracks P M.write8 M.check

/-- **The switch, two runs.**  Every instruction is matched by itself from related states,
    once its helpers are. -/
theorem execOp_tracks_of {a : Activation} {ip : Nat} {op : Op} (P : StackTracks H S O)
    (C : CodeTracks H S a) (L : op.isLocal = true → LocalTracks H S O)
    (M : LoadStoreTracks H S O)
    (Y : op = .SYS → ∀ i x y z, Exact S (v4InvokeSysHandler H i x y z)
      (v4InvokeSysHandler H i x y z))
    (T : op.isTask = true → TaskTracks H S O) :
    Tracks S O (execOp H a ip op) (execOp H a ip op) := by
  have exact_body : ∀ {x y : VmM W Unit}, Exact S x y →
      Tracks S O (thenNext ip x) (thenNext ip y) :=
    fun h => thenNext_tracks (h.weaken fun _ h => h.elim)
  have jump : ∀ ip off, Tracks S O (jumpTo H a ip off) (jumpTo H a ip off) :=
    fun ip off => (C.jumpTo ip off).weaken fun _ h => h.elim
  have indexed : ∀ body : Byte → VmM W Unit, (∀ b, Tracks S O (body b) (body b)) →
      Tracks S O (do let b ← imm8 H a ip; thenNext (ip + 1) (body b))
        (do let b ← imm8 H a ip; thenNext (ip + 1) (body b)) :=
    fun body hb => .bind (C.imm8 ip) fun b => thenNext_tracks (hb b)
  match op with
  | .LIT => exact .bind (C.imm32 ip) fun k => thenNext_tracks (P.push k)
  | .DUP => exact thenNext_tracks (.bind (P.peek 0) fun v => P.push v)
  | .DROP => exact thenNext_tracks (.bind P.pop fun _ => .pure _)
  | .SWAP => exact thenNext_tracks P.swap
  | .OVER => exact thenNext_tracks (.bind (P.peek 1) fun v => P.push v)
  | .ADD | .SUB | .MUL | .DIV | .MOD | .DIVU | .MODU
  | .EQ | .NE | .LT | .LE | .GT | .GE | .LTU | .LEU => exact thenNext_tracks (P.binaryBlock _)
  | .INC | .DEC | .INVERT => exact thenNext_tracks (P.popPush _)
  | .AND | .OR | .XOR | .SHL | .SHR | .SAR => exact thenNext_tracks (P.popPopPush _)
  | .JMP => exact .bind (C.imm16 _ (by decide) ip) fun off => jump _ off
  | .JZ | .JNZ =>
      exact .bind (C.imm16 _ (by decide) ip) fun off => .bind P.pop fun cond =>
        .ite (fun _ => jump _ off) fun _ => .pure _
  | .SELECT =>
      exact thenNext_tracks
        (.bind P.pop fun v => .bind P.pop fun w => .bind P.pop fun f => P.push _)
  | .LOAD => exact thenNext_tracks (M.load32 _)
  | .LOAD8U | .LOAD8S => exact thenNext_tracks (M.load8 _)
  | .LOAD16U | .LOAD16S => exact thenNext_tracks (M.load16 _)
  | .STORE => exact thenNext_tracks M.store32
  | .STORE8 => exact thenNext_tracks M.store8
  | .STORE16 => exact thenNext_tracks M.store16
  | .TOR => exact thenNext_tracks (.bind P.pop fun v => P.rsPush v)
  | .FROMR => exact thenNext_tracks (.bind P.rsPop fun v => P.push v)
  | .RFETCH => exact thenNext_tracks (.bind (P.rsPeek 0) fun v => P.push v)
  | .LIT0 | .LIT1 | .LITN1 => exact thenNext_tracks (P.push _)
  | .LIT_U8 | .LIT_I8 => exact indexed _ fun b => P.push _
  | .LIT_I16 => exact .bind (C.imm16 _ (by decide) ip) fun v => thenNext_tracks (P.push _)
  | .LGET => exact indexed _ fun b => (L rfl).get _
  | .LSET => exact indexed _ fun b => (L rfl).set _
  | .LTEE => exact indexed _ fun b => (L rfl).tee _
  | .LGET0 | .LGET1 => exact thenNext_tracks ((L rfl).get _)
  | .LSET0 | .LSET1 => exact thenNext_tracks ((L rfl).set _)
  | .LINC | .LDEC => exact indexed _ fun b => (L rfl).add _ _
  | .CALL => exact .bind (C.imm16 _ (by decide) ip) fun idx => .bind (C.callee idx) fun c => .pure _
  | .RET => exact .pure _
  | .SYS =>
      exact thenNext_tracks (.bind P.pop fun i => .bind P.pop fun z => .bind P.pop fun y =>
        .bind P.pop fun x => .bind (Y rfl i x y z) fun r => P.push r)
  | .TASK_SPAWN =>
      exact thenNext_tracks (.bind P.pop fun r => .bind P.pop fun d => .bind P.pop fun p =>
        .bind P.pop fun w => .bind ((T rfl).spawn _ _ _ _) fun id => P.push _)
  | .TASK_EXIT => exact .bind (T rfl).exit fun _ => .pure _
  | .TASK_SLEEP => exact exact_body (.bind P.pop fun ms => (T rfl).sleep ms)
  | .TASK_YIELD => exact exact_body (T rfl).yield
  | .CRITICAL_ENTER => exact exact_body (T rfl).enter
  | .CRITICAL_EXIT => exact exact_body (T rfl).leave
  | .TASK_SEND =>
      exact thenNext_tracks (.bind P.pop fun d => .bind P.pop fun ty => .bind P.pop fun dst =>
        .bind ((T rfl).send _ _ _) fun r => P.push _)
  | .TASK_RECEIVE =>
      exact thenNext_tracks (.bind P.pop fun ty => .bind ((T rfl).receive _) fun r =>
        (T rfl).received r)
  | .TASK_RECEIVE_BLOCKING =>
      refine .bind ?_ fun w => .pure _
      exact .bind P.pop fun _ => .bind P.pop fun _ => .bind (T rfl).tick fun _ => .pure _
  | .TASK_SELF => exact thenNext_tracks (T rfl).self
  | .TASK_COUNT => exact thenNext_tracks (T rfl).count

/-- The same for accessors that are matched on their own. -/
theorem execOp_tracks {a : Activation} {ip : Nat} {op : Op} (P : StackTracks H S O)
    (C : CodeTracks H S a) (L : op.isLocal = true → LocalTracks H S O) (M : MemoryTracks H S)
    (Y : op = .SYS → ∀ i x y z, Exact S (v4InvokeSysHandler H i x y z)
      (v4InvokeSysHandler H i x y z))
    (T : op.isTask = true → TaskTracks H S O) :
    Tracks S O (execOp H a ip op) (execOp H a ip op) := execOp_tracks_of P C L (M.loadStore P) Y T

end TwoRuns

end V4Engine
