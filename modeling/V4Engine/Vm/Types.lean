/-
  V4Engine.Vm.Types

  Machine integers, error codes and the opcode table.

  A VM cell (`v4_i32` / `v4_u32`) is a `BitVec 32`, a byte of code or RAM a
  `BitVec 8`; the signed readings are `toInt`.  `Err` and `Op` enumerate
  `errors.def` and `opcodes.def`; `Op.row` is the opcode table itself, one row
  per `OP(name, value, kind)` line, from which `kPrimitiveTable` is generated.
-/
import Mathlib.Data.List.Basic
import Mathlib.Algebra.Order.BigOperators.Group.Finset

namespace V4Engine

/-- A data- or return-stack element. -/
abbrev Cell := BitVec 32

/-- A byte of bytecode or RAM. -/
abbrev Byte := BitVec 8

/-- `v4_err`: `0` is success. -/
abbrev V4Err := Int

/-- A host function pointer, compared and stored but never inspected. -/
abbrev FnPtr := Nat

/-- A `void*` handed back to host callbacks. -/
abbrev HostPtr := Nat

/-- `V4_TRUE` / `V4_FALSE`. -/
def v4Bool (b : Bool) : Cell := if b then -1 else 0

/-! ## Error codes (`errors.def`) -/

inductive Err where
  | ok | truncatedLiteral | truncatedJump | jumpOutOfRange | fellOffEnd | divByZero
  | unaligned | oobMemory | stackOverflow | stackUnderflow | invalidArg | dictionaryFull
  | invalidWordIdx | taskLimit | msgQueueFull | noMessage | noMemory | unknownOp
  deriving DecidableEq, Repr

/-- The numeric value `V4_ERR(name)`. -/
def Err.code : Err → V4Err
  | .ok => 0
  | .truncatedLiteral => -1
  | .truncatedJump => -2
  | .jumpOutOfRange => -3
  | .fellOffEnd => -10
  | .divByZero => -11
  | .unaligned => -12
  | .oobMemory => -13
  | .stackOverflow => -14
  | .stackUnderflow => -15
  | .invalidArg => -16
  | .dictionaryFull => -17
  | .invalidWordIdx => -18
  | .taskLimit => -20
  | .msgQueueFull => -21
  | .noMessage => -22
  | .noMemory => -23
  | .unknownOp => -99

theorem Err.code_injective : Function.Injective Err.code := by
  intro a b h
  cases a <;> cases b <;> first | rfl | exact absurd h (by decide)

theorem Err.code_ne_zero {e : Err} (h : e ≠ .ok) : e.code ≠ 0 := by
  cases e <;> first | exact absurd rfl h | decide

/-! ## Opcodes (`opcodes.def`) -/

inductive Op where
  | LIT | DUP | DROP | SWAP | OVER
  | ADD | SUB | MUL | DIV | MOD | DIVU | MODU | INC | DEC
  | EQ | NE | LT | LE | GT | GE | LTU | LEU
  | AND | OR | XOR | INVERT | SHL | SHR | SAR
  | LOAD | STORE | LOAD8U | LOAD16U | STORE8 | STORE16 | LOAD8S | LOAD16S
  | JMP | JZ | JNZ | SELECT
  | CALL | RET
  | SYS
  | TOR | FROMR | RFETCH
  | LIT0 | LIT1 | LITN1 | LIT_U8 | LIT_I8 | LIT_I16
  | LGET | LSET | LTEE | LGET0 | LGET1 | LSET0 | LSET1 | LINC | LDEC
  | TASK_SPAWN | TASK_EXIT | TASK_SLEEP | TASK_YIELD | CRITICAL_ENTER | CRITICAL_EXIT
  | TASK_SEND | TASK_RECEIVE | TASK_RECEIVE_BLOCKING | TASK_SELF | TASK_COUNT
  deriving DecidableEq, Repr

/-- Kind of immediate an instruction carries. -/
inductive PrimKind where
  | NoImm | Imm8 | Imm16 | Imm32 | Rel16 | Idx16
  deriving DecidableEq, Repr

/-- Number of immediate bytes of each kind. -/
def PrimKind.size : PrimKind → Nat
  | .NoImm => 0
  | .Imm8 => 1
  | .Imm16 => 2
  | .Imm32 => 4
  | .Rel16 => 2
  | .Idx16 => 2

/-- The `OP(name, value, kind)` rows. -/
def Op.row : Op → Nat × PrimKind
  | .LIT => (0x00, .Imm32)
  | .DUP => (0x01, .NoImm)
  | .DROP => (0x02, .NoImm)
  | .SWAP => (0x03, .NoImm)
  | .OVER => (0x04, .NoImm)
  | .ADD => (0x10, .NoImm)
  | .SUB => (0x11, .NoImm)
  | .MUL => (0x12, .NoImm)
  | .DIV => (0x13, .NoImm)
  | .MOD => (0x14, .NoImm)
  | .DIVU => (0x15, .NoImm)
  | .MODU => (0x16, .NoImm)
  | .INC => (0x17, .NoImm)
  | .DEC => (0x18, .NoImm)
  | .EQ => (0x20, .NoImm)
  | .NE => (0x21, .NoImm)
  | .LT => (0x22, .NoImm)
  | .LE => (0x23, .NoImm)
  | .GT => (0x24, .NoImm)
  | .GE => (0x25, .NoImm)
  | .LTU => (0x26, .NoImm)
  | .LEU => (0x27, .NoImm)
  | .AND => (0x28, .NoImm)
  | .OR => (0x29, .NoImm)
  | .XOR => (0x2A, .NoImm)
  | .INVERT => (0x2B, .NoImm)
  | .SHL => (0x2C, .NoImm)
  | .SHR => (0x2D, .NoImm)
  | .SAR => (0x2E, .NoImm)
  | .LOAD => (0x30, .NoImm)
  | .STORE => (0x31, .NoImm)
  | .LOAD8U => (0x32, .NoImm)
  | .LOAD16U => (0x33, .NoImm)
  | .STORE8 => (0x34, .NoImm)
  | .STORE16 => (0x35, .NoImm)
  | .LOAD8S => (0x36, .NoImm)
  | .LOAD16S => (0x37, .NoImm)
  | .JMP => (0x40, .Rel16)
  | .JZ => (0x41, .Rel16)
  | .JNZ => (0x42, .Rel16)
  | .SELECT => (0x43, .NoImm)
  | .CALL => (0x50, .Idx16)
  | .RET => (0x51, .NoImm)
  | .SYS => (0x60, .NoImm)
  | .TOR => (0x70, .NoImm)
  | .FROMR => (0x71, .NoImm)
  | .RFETCH => (0x72, .NoImm)
  | .LIT0 => (0x73, .NoImm)
  | .LIT1 => (0x74, .NoImm)
  | .LITN1 => (0x75, .NoImm)
  | .LIT_U8 => (0x76, .Imm8)
  | .LIT_I8 => (0x77, .Imm8)
  | .LIT_I16 => (0x78, .Imm16)
  | .LGET => (0x79, .Imm8)
  | .LSET => (0x7A, .Imm8)
  | .LTEE => (0x7B, .Imm8)
  | .LGET0 => (0x7C, .NoImm)
  | .LGET1 => (0x7D, .NoImm)
  | .LSET0 => (0x7E, .NoImm)
  | .LSET1 => (0x7F, .NoImm)
  | .LINC => (0x80, .Imm8)
  | .LDEC => (0x81, .Imm8)
  | .TASK_SPAWN => (0x90, .NoImm)
  | .TASK_EXIT => (0x91, .NoImm)
  | .TASK_SLEEP => (0x92, .NoImm)
  | .TASK_YIELD => (0x93, .NoImm)
  | .CRITICAL_ENTER => (0x94, .NoImm)
  | .CRITICAL_EXIT => (0x95, .NoImm)
  | .TASK_SEND => (0x96, .NoImm)
  | .TASK_RECEIVE => (0x97, .NoImm)
  | .TASK_RECEIVE_BLOCKING => (0x98, .NoImm)
  | .TASK_SELF => (0x99, .NoImm)
  | .TASK_COUNT => (0x9A, .NoImm)

/-- The byte value of the opcode. -/
def Op.opcode (op : Op) : Nat := op.row.1

/-- The immediate kind the table declares. -/
def Op.kind (op : Op) : PrimKind := op.row.2

/-- All opcodes, in the order of `opcodes.def`. -/
def Op.all : List Op :=
  [.LIT, .DUP, .DROP, .SWAP, .OVER,
   .ADD, .SUB, .MUL, .DIV, .MOD, .DIVU, .MODU, .INC, .DEC,
   .EQ, .NE, .LT, .LE, .GT, .GE, .LTU, .LEU,
   .AND, .OR, .XOR, .INVERT, .SHL, .SHR, .SAR,
   .LOAD, .STORE, .LOAD8U, .LOAD16U, .STORE8, .STORE16, .LOAD8S, .LOAD16S,
   .JMP, .JZ, .JNZ, .SELECT, .CALL, .RET, .SYS, .TOR, .FROMR, .RFETCH,
   .LIT0, .LIT1, .LITN1, .LIT_U8, .LIT_I8, .LIT_I16,
   .LGET, .LSET, .LTEE, .LGET0, .LGET1, .LSET0, .LSET1, .LINC, .LDEC,
   .TASK_SPAWN, .TASK_EXIT, .TASK_SLEEP, .TASK_YIELD, .CRITICAL_ENTER, .CRITICAL_EXIT,
   .TASK_SEND, .TASK_RECEIVE, .TASK_RECEIVE_BLOCKING, .TASK_SELF, .TASK_COUNT]

/-- `kPrimitiveTable`: opcode byte and immediate kind of every instruction. -/
def kPrimitiveTable : List (Nat × PrimKind) := Op.all.map Op.row

/-- `static_cast<Op>(byte)`, `none` when no enumerator has that value. -/
def Op.ofByte (b : Byte) : Option Op := Op.all.find? fun op => op.opcode == b.toNat

/-- The opcodes between `0x90` and `0x9A`, the ones a build without tasks rejects. -/
def Op.isTask (op : Op) : Bool := 0x90 ≤ op.opcode

end V4Engine
