/-
  V4Engine.Vm.Interp

  `core.cpp`: the stack helpers and the `switch` of `vm_exec_raw`.

  The body of one `case` is `execOp`, with the instruction pointer already past
  the opcode byte.  It ends normally with a `Flow`: `break` out of the switch
  at a new instruction pointer, `return OK`, start of a nested activation, or
  start of the polling loop of a blocking receive.  `return e` with `e ≠ 0` is
  an error of the monad.  The C++ arithmetic on cells is read modulo 2^32.
-/
import V4Engine.Vm.Memory
import V4Engine.Task.Backend

namespace V4Engine

open Lib FaultM VmM

variable {W : Type}

/-! ## Data stack helpers -/

def dsPush (H : Host W) (v : Cell) : VmM W Unit := do
  let vm ← getVm
  if vm.sp ≥ 256 then vmPanic H Err.stackOverflow.code
  else modifyVm fun vm => { vm with DS := Function.update vm.DS vm.sp v, sp := vm.sp + 1 }

def dsPop (H : Host W) : VmM W Cell := do
  let vm ← getVm
  if vm.sp ≤ 0 then vmPanic H Err.stackUnderflow.code
  else
    let v ← slot 256 vm.DS (vm.sp - 1)
    modifyVm fun vm => { vm with sp := vm.sp - 1 }
    return v

def dsPeek (H : Host W) (i : Nat) : VmM W Cell := do
  let vm ← getVm
  if vm.sp < 1 + i then vmPanic H Err.stackUnderflow.code
  else slot 256 vm.DS (vm.sp - 1 - i)

/-! ## Return stack helpers -/

def rsPush (H : Host W) (v : Cell) : VmM W Unit := do
  let vm ← getVm
  if vm.rp ≥ 64 then vmPanic H Err.stackOverflow.code
  else modifyVm fun vm => { vm with RS := Function.update vm.RS vm.rp v, rp := vm.rp + 1 }

def rsPop (H : Host W) : VmM W Cell := do
  let vm ← getVm
  if vm.rp ≤ 0 then vmPanic H Err.stackUnderflow.code
  else
    let v ← slot 64 vm.RS (vm.rp - 1)
    modifyVm fun vm => { vm with rp := vm.rp - 1 }
    return v

def rsPeek (H : Host W) (i : Nat) : VmM W Cell := do
  let vm ← getVm
  if vm.rp < 1 + i then vmPanic H Err.stackUnderflow.code
  else slot 64 vm.RS (vm.rp - 1 - i)

/-! ## Local variables -/

/-- The null-frame and bounds checks shared by the local-variable opcodes. -/
def localSlot (H : Host W) (idx : Nat) : VmM W Nat := do
  let vm ← getVm
  match vm.fp with
  | none => vmPanic H Err.invalidArg.code
  | some fp =>
      if fp + idx ≥ vm.rp then vmPanic H Err.stackUnderflow.code else return fp + idx

/-- `vm->fp[idx] = val`, `i` being the slot `fp + idx`. -/
def setRs (i : Nat) (v : Cell) : VmM W Unit := fun m =>
  if i < 64 then .ok () { m with vm := { m.vm with RS := Function.update m.vm.RS i v } }
  else .fault

/-- `vm->fp[idx]`, `i` being the slot `fp + idx`. -/
def getRs (i : Nat) : VmM W Cell := fun m =>
  if i < 64 then .ok (m.vm.RS i) m else .fault

/-- `LGET idx`. -/
def localGet (H : Host W) (idx : Nat) : VmM W Unit := do
  let i ← localSlot H idx
  let v ← getRs i
  dsPush H v

/-- `LSET idx`. -/
def localSet (H : Host W) (idx : Nat) : VmM W Unit := do
  let i ← localSlot H idx
  let v ← dsPop H
  setRs i v

/-- `LTEE idx`. -/
def localTee (H : Host W) (idx : Nat) : VmM W Unit := do
  let i ← localSlot H idx
  let v ← dsPeek H 0
  setRs i v

/-- `LINC idx` and `LDEC idx`, with `d = 1` and `d = -1`. -/
def localAdd (H : Host W) (idx : Nat) (d : Cell) : VmM W Unit := do
  let i ← localSlot H idx
  let v ← getRs i
  setRs i (v + d)

/-! ## Code bytes -/

/-- One running activation of `vm_exec_raw`: the code bytes, the length the
    caller passed, and `ip - bc`. -/
structure Activation where
  bc : List Byte
  len : Nat
  ip : Nat
  deriving DecidableEq, Repr

/-- `bc[i]`, a fault past the end of the code buffer. -/
def codeByte (a : Activation) (i : Nat) : VmM W Byte := ofOption a.bc[i]?

def readI32Le (a : Activation) (p : Nat) : VmM W Cell := do
  let b0 ← codeByte a p
  let b1 ← codeByte a (p + 1)
  let b2 ← codeByte a (p + 2)
  let b3 ← codeByte a (p + 3)
  return b0.setWidth 32 ||| (b1.setWidth 32 <<< 8) ||| (b2.setWidth 32 <<< 16)
    ||| (b3.setWidth 32 <<< 24)

def readI16Le (a : Activation) (p : Nat) : VmM W (BitVec 16) := do
  let b0 ← codeByte a p
  let b1 ← codeByte a (p + 1)
  return b0.setWidth 16 ||| (b1.setWidth 16 <<< 8)

/-- `if (ip >= ip_end) panic(TruncatedLiteral); *ip` -/
def imm8 (H : Host W) (a : Activation) (ip : Nat) : VmM W Byte := do
  if ip ≥ a.len then vmPanic H Err.truncatedLiteral.code else codeByte a ip

/-- `if (ip + 2 > ip_end) panic(e); read_i16_le(ip)` -/
def imm16 (H : Host W) (e : Err) (a : Activation) (ip : Nat) : VmM W (BitVec 16) := do
  if ip + 2 > a.len then vmPanic H e.code else readI16Le a ip

/-- `if (ip + 4 > ip_end) panic(TruncatedLiteral); read_i32_le(ip)` -/
def imm32 (H : Host W) (a : Activation) (ip : Nat) : VmM W Cell := do
  if ip + 4 > a.len then vmPanic H Err.truncatedLiteral.code else readI32Le a ip

/-! ## Instructions -/

/-- A blocking receive that is polling: its arguments and its start tick. -/
structure Waiting where
  msgType : BitVec 8
  timeoutMs : BitVec 32
  start : BitVec 32

/-- How a `case` leaves the switch. -/
inductive Flow where
  | next (ip : Nat)
  | ret
  | call (callee : Activation) (ip : Nat)
  | wait (w : Waiting) (ip : Nat)

/-- The jump target `ip + off`, checked against `[bc, ip_end]`. -/
def jumpTo (H : Host W) (a : Activation) (ip : Nat) (off : BitVec 16) : VmM W Flow := do
  let tgt : Int := ip + off.toInt
  if tgt < 0 ∨ tgt > a.len then vmPanic H Err.jumpOutOfRange.code else return .next tgt.toNat

/-- The inner `switch` of the binary block; `none` is a zero divisor.  Where an `int32_t`
    expression overflows, `INT32_MIN / -1` included, C++ gives it no value and the wrapped one
    stands here, as it does for `INC`, `DEC` and `SHL`; `hostValue` tells these operands. -/
def binaryResult (op : Op) (a b : Cell) : Option Cell :=
  match op with
  | .ADD => some (a + b)
  | .SUB => some (a - b)
  | .MUL => some (a * b)
  | .DIV => if b = 0 then none else some (a.sdiv b)
  | .MOD => if b = 0 then none else some (a.srem b)
  | .DIVU => if b = 0 then none else some (a / b)
  | .MODU => if b = 0 then none else some (a % b)
  | .EQ => some (v4Bool (a == b))
  | .NE => some (v4Bool (a != b))
  | .LT => some (v4Bool (a.slt b))
  | .LE => some (v4Bool (a.sle b))
  | .GT => some (v4Bool (b.slt a))
  | .GE => some (v4Bool (b.sle a))
  | .LTU => some (v4Bool (a < b))
  | .LEU => some (v4Bool (a ≤ b))
  -- `default: break;`, with `result` still 0: only the fifteen opcodes above enter the block
  | _ => some 0

/-- The shared block of the fifteen arithmetic and comparison opcodes. -/
def binaryBlock (H : Host W) (op : Op) : VmM W Unit := do
  let b ← dsPop H
  let a ← dsPop H
  match binaryResult op a b with
  | none => vmPanic H Err.divByZero.code
  | some r => dsPush H r

/-- Two pops and a push: `AND`, `OR`, `XOR`, `SHL`, `SHR`, `SAR`. -/
def popPopPush (H : Host W) (f : Cell → Cell → Cell) : VmM W Unit := do
  let b ← dsPop H
  let a ← dsPop H
  dsPush H (f a b)

/-- A pop and a push: `INC`, `DEC`, `INVERT`. -/
def popPush (H : Host W) (f : Cell → Cell) : VmM W Unit := do
  let a ← dsPop H
  dsPush H (f a)

/-- `SWAP`. -/
def swapBody (H : Host W) : VmM W Unit := do
  let a ← dsPop H
  let b ← dsPop H
  dsPush H a
  dsPush H b

/-- `shift & 0x1F`. -/
def shiftCount (shift : Cell) : Nat := (shift &&& 0x1F).toNat

/-- `if (v4_err e = ...) return e;` for a helper that does not panic. -/
def check (e : V4Err) : VmM W Unit := if e ≠ 0 then raise e else pure ()

/-- The `LOAD*` opcodes: pop the address, read through `core`, push the
    extended value. -/
def loadOp (H : Host W) (core : Cell → Cell → VmM W (V4Err × Cell)) (ext : Cell → Cell) :
    VmM W Unit := do
  let addr ← dsPop H
  let (e, val) ← core addr 0
  check e
  dsPush H (ext val)

/-- The `STORE*` opcodes: pop address and value, write through `core`. -/
def storeOp (H : Host W) (core : Cell → Cell → VmM W V4Err) : VmM W Unit := do
  let addr ← dsPop H
  let val ← dsPop H
  let e ← core addr val
  check e

/-- `vm->words[i]`, a fault outside the 256 entries. -/
def wordAt (i : Nat) : VmM W Word := fun m =>
  if i < 256 then .ok (m.vm.words i) m else .fault

/-- The checks of `CALL` before the nested activation starts. -/
def callee (H : Host W) (idx : BitVec 16) : VmM W Activation := do
  let vm ← getVm
  -- `(uint16_t)vm->word_count`
  if idx.toNat ≥ vm.wordCount % 65536 then vmPanic H Err.invalidWordIdx.code
  else
    let word ← wordAt idx.toNat
    match word.code with
    | none => vmPanic H Err.invalidArg.code
    | some code =>
        if word.codeLen ≤ 0 then vmPanic H Err.invalidArg.code
        else return ⟨code, word.codeLen.toNat, 0⟩

/-- `SYS`. -/
def sysOp (H : Host W) : VmM W Unit := do
  let sysId ← dsPop H
  let arg2 ← dsPop H
  let arg1 ← dsPop H
  let arg0 ← dsPop H
  let result ← v4InvokeSysHandler H sysId arg0 arg1 arg2
  dsPush H result

/-! ## Task instructions -/

/-- `vm_task_spawn` with the allocator's two answers. -/
def vmTaskSpawn (H : Host W) (wordIdx : BitVec 16) (priority : BitVec 8)
    (dsSize rsSize : BitVec 16) : VmM W Int := do
  let dsOk ← mallocAnswer H
  let rsOk ← mallocAnswer H
  liftVm fun vm => some (v4BackendTaskSpawn wordIdx priority dsSize rsSize dsOk rsOk vm)

def vmTaskExit (H : Host W) : VmM W Unit := do
  let tick ← getTick H
  liftVm fun vm => (v4BackendTaskExit tick vm).map ((), ·)

def vmTaskSleep (H : Host W) (msDelay : BitVec 32) : VmM W Unit := do
  let tick ← getTick H
  let tick' ← getTick H
  liftVm fun vm => (v4BackendTaskSleep msDelay tick tick' vm).map ((), ·)

def vmTaskYield (H : Host W) : VmM W Unit := do
  let tick ← getTick H
  liftVm fun vm => (v4BackendTaskYield tick vm).map ((), ·)

/-- `vm_task_critical_enter`: the platform lock first, then the nesting count. -/
def criticalEnter (H : Host W) : VmM W Unit := fun m =>
  .ok () { m with world := H.criticalEnter m.world, vm := vmTaskCriticalEnter m.vm }

/-- `vm_task_critical_exit`: the platform lock is released at nesting zero. -/
def criticalExit (H : Host W) : VmM W Unit := fun m =>
  let r := vmTaskCriticalExit m.vm
  .ok () { m with vm := r.2, world := if r.1 then H.criticalExit m.world else m.world }

/-- `TASK_SPAWN`: each operand is narrowed to the width of its field. -/
def taskSpawnOp (H : Host W) : VmM W Unit := do
  let rsSize ← dsPop H
  let dsSize ← dsPop H
  let priority ← dsPop H
  let wordIdx ← dsPop H
  let taskId ← vmTaskSpawn H (wordIdx.setWidth 16) (priority.setWidth 8) (dsSize.setWidth 16)
    (rsSize.setWidth 16)
  dsPush H (BitVec.ofInt 32 taskId)

/-- `TASK_SEND`. -/
def taskSendOp (H : Host W) : VmM W Unit := do
  let data ← dsPop H
  let msgType ← dsPop H
  let targetTask ← dsPop H
  let result ← liftVm (v4BackendTaskSend (targetTask.setWidth 8) (msgType.setWidth 8) data)
  dsPush H (BitVec.ofInt 32 result)

/-- The three pushes after a receive; without a message the two output
    variables still hold whatever was in their stack slots. -/
def pushReceived (H : Host W) (r : Option (Cell × BitVec 8)) : VmM W Unit := do
  match r with
  | some (data, src) =>
      dsPush H data
      dsPush H (src.setWidth 32)
      dsPush H 1
  | none =>
      let data ← indeterminate H
      let src ← indeterminate H
      dsPush H data
      dsPush H ((src.setWidth 8).setWidth 32)
      dsPush H 0

/-- `TASK_RECEIVE`. -/
def taskReceiveOp (H : Host W) : VmM W Unit := do
  let msgType ← dsPop H
  let r ← liftVm fun vm => some (v4BackendTaskReceive (msgType.setWidth 8) vm)
  pushReceived H r

/-- `TASK_RECEIVE_BLOCKING` up to the polling loop. -/
def taskReceiveBlockingOp (H : Host W) : VmM W Waiting := do
  let timeoutMs ← dsPop H
  let msgType ← dsPop H
  let start ← getTick H
  return ⟨msgType.setWidth 8, timeoutMs, start⟩

/-- `TASK_SELF`. -/
def taskSelfOp (H : Host W) : VmM W Unit := do
  let vm ← getVm
  dsPush H ((v4BackendTaskCurrent vm).setWidth 32)

/-- `TASK_COUNT`. -/
def taskCountOp (H : Host W) : VmM W Unit := do
  let vm ← getVm
  dsPush H (vm.scheduler.taskCount.setWidth 32)

/-! ## The switch -/

/-- `break` at `ip` once the body is done. -/
def thenNext (ip : Nat) (body : VmM W Unit) : VmM W Flow := do
  body
  return .next ip

/-- The body of `case op:` with `ip` just past the opcode byte. -/
def execOp (H : Host W) (a : Activation) (ip : Nat) : Op → VmM W Flow
  | .LIT => do
      let k ← imm32 H a ip
      thenNext (ip + 4) (dsPush H k)
  | .DUP => thenNext ip do
      let v ← dsPeek H 0
      dsPush H v
  | .DROP => thenNext ip do
      let _ ← dsPop H
  | .SWAP => thenNext ip (swapBody H)
  | .OVER => thenNext ip do
      let v ← dsPeek H 1
      dsPush H v
  | .ADD => thenNext ip (binaryBlock H .ADD)
  | .SUB => thenNext ip (binaryBlock H .SUB)
  | .MUL => thenNext ip (binaryBlock H .MUL)
  | .DIV => thenNext ip (binaryBlock H .DIV)
  | .MOD => thenNext ip (binaryBlock H .MOD)
  | .DIVU => thenNext ip (binaryBlock H .DIVU)
  | .MODU => thenNext ip (binaryBlock H .MODU)
  | .EQ => thenNext ip (binaryBlock H .EQ)
  | .NE => thenNext ip (binaryBlock H .NE)
  | .LT => thenNext ip (binaryBlock H .LT)
  | .LE => thenNext ip (binaryBlock H .LE)
  | .GT => thenNext ip (binaryBlock H .GT)
  | .GE => thenNext ip (binaryBlock H .GE)
  | .LTU => thenNext ip (binaryBlock H .LTU)
  | .LEU => thenNext ip (binaryBlock H .LEU)
  | .INC => thenNext ip (popPush H (· + 1))
  | .DEC => thenNext ip (popPush H (· - 1))
  | .AND => thenNext ip (popPopPush H (· &&& ·))
  | .OR => thenNext ip (popPopPush H (· ||| ·))
  | .XOR => thenNext ip (popPopPush H (· ^^^ ·))
  | .INVERT => thenNext ip (popPush H (~~~ ·))
  | .SHL => thenNext ip (popPopPush H fun v s => v <<< shiftCount s)
  | .SHR => thenNext ip (popPopPush H fun v s => v >>> shiftCount s)
  | .SAR => thenNext ip (popPopPush H fun v s => v.sshiftRight (shiftCount s))
  | .JMP => do
      let off ← imm16 H .truncatedJump a ip
      jumpTo H a (ip + 2) off
  | .JZ => do
      let off ← imm16 H .truncatedJump a ip
      let cond ← dsPop H
      if cond = 0 then jumpTo H a (ip + 2) off else return .next (ip + 2)
  | .JNZ => do
      let off ← imm16 H .truncatedJump a ip
      let cond ← dsPop H
      if cond ≠ 0 then jumpTo H a (ip + 2) off else return .next (ip + 2)
  | .SELECT => thenNext ip do
      let v ← dsPop H
      let w ← dsPop H
      let flag ← dsPop H
      dsPush H (if flag ≠ 0 then v else w)
  | .LOAD => thenNext ip (loadOp H (v4MemRead32Core H) id)
  | .STORE => thenNext ip (storeOp H (v4MemWrite32Core H))
  | .LOAD8U => thenNext ip (loadOp H v4MemRead8Core id)
  | .LOAD16U => thenNext ip (loadOp H v4MemRead16Core id)
  | .STORE8 => thenNext ip (storeOp H v4MemWrite8Core)
  | .STORE16 => thenNext ip (storeOp H v4MemWrite16Core)
  | .LOAD8S =>
      thenNext ip (loadOp H v4MemRead8Core fun v => ((v &&& 0xFF).setWidth 8).signExtend 32)
  | .LOAD16S =>
      thenNext ip (loadOp H v4MemRead16Core fun v => ((v &&& 0xFFFF).setWidth 16).signExtend 32)
  | .TOR => thenNext ip do
      let v ← dsPop H
      rsPush H v
  | .FROMR => thenNext ip do
      let v ← rsPop H
      dsPush H v
  | .RFETCH => thenNext ip do
      let v ← rsPeek H 0
      dsPush H v
  | .LIT0 => thenNext ip (dsPush H 0)
  | .LIT1 => thenNext ip (dsPush H 1)
  | .LITN1 => thenNext ip (dsPush H (-1))
  | .LIT_U8 => do
      let b ← imm8 H a ip
      thenNext (ip + 1) (dsPush H (b.setWidth 32))
  | .LIT_I8 => do
      let b ← imm8 H a ip
      thenNext (ip + 1) (dsPush H (b.signExtend 32))
  | .LIT_I16 => do
      let v ← imm16 H .truncatedLiteral a ip
      thenNext (ip + 2) (dsPush H (v.signExtend 32))
  | .LGET => do
      let idx ← imm8 H a ip
      thenNext (ip + 1) (localGet H idx.toNat)
  | .LSET => do
      let idx ← imm8 H a ip
      thenNext (ip + 1) (localSet H idx.toNat)
  | .LTEE => do
      let idx ← imm8 H a ip
      thenNext (ip + 1) (localTee H idx.toNat)
  | .LGET0 => thenNext ip (localGet H 0)
  | .LGET1 => thenNext ip (localGet H 1)
  | .LSET0 => thenNext ip (localSet H 0)
  | .LSET1 => thenNext ip (localSet H 1)
  | .LINC => do
      let idx ← imm8 H a ip
      thenNext (ip + 1) (localAdd H idx.toNat 1)
  | .LDEC => do
      let idx ← imm8 H a ip
      thenNext (ip + 1) (localAdd H idx.toNat (-1))
  | .CALL => do
      let idx ← imm16 H .truncatedJump a ip
      let c ← callee H idx
      return .call c (ip + 2)
  | .SYS => thenNext ip (sysOp H)
  | .RET => return .ret
  | .TASK_SPAWN => thenNext ip (taskSpawnOp H)
  -- `return V4_ERR(OK);` ends this activation only
  | .TASK_EXIT => do
      vmTaskExit H
      return .ret
  | .TASK_SLEEP => thenNext ip do
      let msDelay ← dsPop H
      vmTaskSleep H msDelay
  | .TASK_YIELD => thenNext ip (vmTaskYield H)
  | .CRITICAL_ENTER => thenNext ip (criticalEnter H)
  | .CRITICAL_EXIT => thenNext ip (criticalExit H)
  | .TASK_SEND => thenNext ip (taskSendOp H)
  | .TASK_RECEIVE => thenNext ip (taskReceiveOp H)
  | .TASK_RECEIVE_BLOCKING => do
      let w ← taskReceiveBlockingOp H
      return .wait w ip
  | .TASK_SELF => thenNext ip (taskSelfOp H)
  | .TASK_COUNT => thenNext ip (taskCountOp H)

/-- Fetch the byte at `ip` and run its `case`; the `default` label panics. -/
def execInstr (H : Host W) (a : Activation) : VmM W Flow := do
  let b ← codeByte a a.ip
  match Op.ofByte b with
  | none => vmPanic H Err.unknownOp.code
  | some op => execOp H a (a.ip + 1) op

end V4Engine
