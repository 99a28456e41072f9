/-
  V4Engine.Vm.ListMachine

  What the interpreter computes, without arrays and pointers.

  A program sees two stacks, a frame of local variables and a RAM.  Here the
  stacks are lists with the top first, an instruction is decoded once, whichever
  of its encodings is used, and says what it does to the lists.  A failure is its
  error code and nothing else.  `SYS` and the task opcodes act on the world
  outside; the machine stops in front of them, and in front of an arithmetic
  instruction whose expression has no value in C++.

  The definitions are a statement of purpose, not a translation;
  `V4Engine.Vm.ListRefinement` connects them to `vm_exec_raw`.
-/
import V4Engine.Vm.HostArith
import V4Engine.Lib.Bytes

namespace V4Engine

open Lib

/-! ## The state a program sees -/

structure ListVm where
  ds : List Cell
  rs : List Cell
  /-- The depth of the return stack at which the frame of locals starts. -/
  fp : Option Nat
  ram : Nat → Byte

/-- What does not change while a program runs: the words, and the size of RAM. -/
structure ListEnv where
  callee : BitVec 16 → Except Err Activation
  ramSize : Nat

/-- Computations on the lists that may fail. -/
abbrev ListM (α : Type) := StateT ListVm (Except Err) α

namespace ListVm

/-- A push on a data stack of at most 256 cells. -/
def pushOn (v : Cell) (ds : List Cell) : Except Err (List Cell) :=
  if ds.length ≥ 256 then .error .stackOverflow else .ok (v :: ds)

/-- What the opcodes that work on the data stack alone do to it. -/
def dataEffect : Op → List Cell → Except Err (List Cell)
  | .DUP, v :: ds => pushOn v (v :: ds)
  | .DROP, _ :: ds => .ok ds
  | .SWAP, v :: w :: ds => .ok (w :: v :: ds)
  | .OVER, v :: w :: ds => pushOn w (v :: w :: ds)
  | .SELECT, v :: w :: flag :: ds => .ok ((if flag ≠ 0 then v else w) :: ds)
  | .INC, v :: ds => .ok ((v + 1) :: ds)
  | .DEC, v :: ds => .ok ((v - 1) :: ds)
  | .INVERT, v :: ds => .ok (~~~ v :: ds)
  | .AND, w :: v :: ds => .ok ((v &&& w) :: ds)
  | .OR, w :: v :: ds => .ok ((v ||| w) :: ds)
  | .XOR, w :: v :: ds => .ok ((v ^^^ w) :: ds)
  | .SHL, w :: v :: ds => .ok (v <<< shiftCount w :: ds)
  | .SHR, w :: v :: ds => .ok (v >>> shiftCount w :: ds)
  | .SAR, w :: v :: ds => .ok (v.sshiftRight (shiftCount w) :: ds)
  | .DUP, [] | .DROP, [] | .INC, [] | .DEC, [] | .INVERT, [] | .SELECT, _ =>
      .error .stackUnderflow
  | op, w :: v :: ds => (binaryResult op v w).elim (.error .divByZero) fun r => .ok (r :: ds)
  | _, _ => .error .stackUnderflow

/-- `m` cells of the frame: the slot of a local variable, counted from the bottom. -/
def localIndex (s : ListVm) (i : Nat) : Except Err Nat :=
  match s.fp with
  | none => .error .invalidArg
  | some fp => if fp + i < s.rs.length then .ok (fp + i) else .error .stackUnderflow

/-- The cell `k` above the bottom of a stack. -/
def fromBottom (xs : List Cell) (k : Nat) : Cell := xs.reverse.getD k 0

def setFromBottom (xs : List Cell) (k : Nat) (v : Cell) : List Cell := (xs.reverse.set k v).reverse

end ListVm

/-! ## Instructions -/

/-- An instruction with its operand, whichever way it was encoded. -/
inductive ListInstr where
  | push (k : Cell)
  | data (op : Op)
  | toR
  | fromR
  | rFetch
  | localGet (i : Nat)
  | localSet (i : Nat)
  | localTee (i : Nat)
  | localAdd (i : Nat) (d : Cell)
  | load (n : Nat) (ext : Cell → Cell)
  | store (n : Nat)
  | jump (off : BitVec 16)
  | branch (ifZero : Bool) (off : BitVec 16)
  | call (idx : BitVec 16)
  | ret
  /-- An instruction that acts on the world outside. -/
  | outside

/-- The bytes of an activation, zero where there are none. -/
def Activation.byteAt (a : Activation) (i : Nat) : Byte := a.bc.getD i 0

/-- The `n` immediate bytes at `p`, low byte first. -/
def immediate (e : Err) (a : Activation) (p n : Nat) : Except Err (BitVec (8 * n)) :=
  if p + n > a.len then .error e else .ok (BitVec.ofNat (8 * n) (leNat a.byteAt p n))

/-- The instruction `op` with its operand at `p`, and where the code goes on. -/
def decodeOp (a : Activation) (p : Nat) (op : Op) : Except Err (ListInstr × Nat) :=
  match op with
  | .LIT => do
      let k ← immediate .truncatedLiteral a p 4
      return (.push k, p + 4)
  | .LIT0 => .ok (.push 0, p)
  | .LIT1 => .ok (.push 1, p)
  | .LITN1 => .ok (.push (-1), p)
  | .LIT_U8 => do
      let k ← immediate .truncatedLiteral a p 1
      return (.push (k.setWidth 32), p + 1)
  | .LIT_I8 => do
      let k ← immediate .truncatedLiteral a p 1
      return (.push (k.signExtend 32), p + 1)
  | .LIT_I16 => do
      let k ← immediate .truncatedLiteral a p 2
      return (.push (k.signExtend 32), p + 2)
  | .TOR => .ok (.toR, p)
  | .FROMR => .ok (.fromR, p)
  | .RFETCH => .ok (.rFetch, p)
  | .LGET => do
      let i ← immediate .truncatedLiteral a p 1
      return (.localGet i.toNat, p + 1)
  | .LSET => do
      let i ← immediate .truncatedLiteral a p 1
      return (.localSet i.toNat, p + 1)
  | .LTEE => do
      let i ← immediate .truncatedLiteral a p 1
      return (.localTee i.toNat, p + 1)
  | .LINC => do
      let i ← immediate .truncatedLiteral a p 1
      return (.localAdd i.toNat 1, p + 1)
  | .LDEC => do
      let i ← immediate .truncatedLiteral a p 1
      return (.localAdd i.toNat (-1), p + 1)
  | .LGET0 => .ok (.localGet 0, p)
  | .LGET1 => .ok (.localGet 1, p)
  | .LSET0 => .ok (.localSet 0, p)
  | .LSET1 => .ok (.localSet 1, p)
  | .LOAD => .ok (.load 4 id, p)
  | .LOAD8U => .ok (.load 1 id, p)
  | .LOAD16U => .ok (.load 2 id, p)
  | .LOAD8S => .ok (.load 1 fun v => (v.setWidth 8).signExtend 32, p)
  | .LOAD16S => .ok (.load 2 fun v => (v.setWidth 16).signExtend 32, p)
  | .STORE => .ok (.store 4, p)
  | .STORE8 => .ok (.store 1, p)
  | .STORE16 => .ok (.store 2, p)
  | .JMP => do
      let off ← immediate .truncatedJump a p 2
      return (.jump off, p + 2)
  | .JZ => do
      let off ← immediate .truncatedJump a p 2
      return (.branch true off, p + 2)
  | .JNZ => do
      let off ← immediate .truncatedJump a p 2
      return (.branch false off, p + 2)
  | .CALL => do
      let idx ← immediate .truncatedJump a p 2
      return (.call idx, p + 2)
  | .RET => .ok (.ret, p)
  | .SYS | .TASK_SPAWN | .TASK_EXIT | .TASK_SLEEP | .TASK_YIELD | .CRITICAL_ENTER
  | .CRITICAL_EXIT | .TASK_SEND | .TASK_RECEIVE | .TASK_RECEIVE_BLOCKING | .TASK_SELF
  | .TASK_COUNT => .ok (.outside, p)
  | op => .ok (.data op, p)

/-- The instruction at the instruction pointer. -/
def decodeAt (a : Activation) : Except Err (ListInstr × Nat) :=
  if a.ip < a.len then
    match Op.ofByte (a.byteAt a.ip) with
    | none => .error .unknownOp
    | some op => decodeOp a (a.ip + 1) op
  else .error .fellOffEnd

/-- Where an instruction leads. -/
inductive Go where
  | next (ip : Nat)
  | ret
  | call (callee : Activation) (ip : Nat)

/-- The same as a flow of the interpreter. -/
def Go.flow : Go → Flow
  | .next ip => .next ip
  | .ret => .ret
  | .call c ip => .call c ip

open ListVm in
/-- What an instruction does to the lists. -/
def ListInstr.effect (env : ListEnv) (s : ListVm) : ListInstr → Except Err ListVm
  | .push k => do
      let ds ← pushOn k s.ds
      return { s with ds := ds }
  | .data op => do
      let ds ← dataEffect op s.ds
      return { s with ds := ds }
  | .toR =>
      match s.ds with
      | [] => .error .stackUnderflow
      | v :: ds =>
          if s.rs.length ≥ 64 then .error .stackOverflow
          else .ok { s with ds := ds, rs := v :: s.rs }
  | .fromR =>
      match s.rs with
      | [] => .error .stackUnderflow
      | v :: rs => do
          let ds ← pushOn v s.ds
          return { s with ds := ds, rs := rs }
  | .rFetch =>
      match s.rs with
      | [] => .error .stackUnderflow
      | v :: _ => do
          let ds ← pushOn v s.ds
          return { s with ds := ds }
  | .localGet i => do
      let k ← s.localIndex i
      let ds ← pushOn (fromBottom s.rs k) s.ds
      return { s with ds := ds }
  | .localSet i => do
      let k ← s.localIndex i
      match s.ds with
      | [] => .error .stackUnderflow
      | v :: ds => return { s with ds := ds, rs := setFromBottom s.rs k v }
  | .localTee i => do
      let k ← s.localIndex i
      match s.ds with
      | [] => .error .stackUnderflow
      | v :: _ => return { s with rs := setFromBottom s.rs k v }
  | .localAdd i d => do
      let k ← s.localIndex i
      return { s with rs := setFromBottom s.rs k (fromBottom s.rs k + d) }
  | .load n ext =>
      match s.ds with
      | [] => .error .stackUnderflow
      | addr :: ds =>
          if addr.toNat + n > env.ramSize then .error .oobMemory
          else if n = 4 ∧ ¬ 4 ∣ addr.toNat then .error .unaligned
          else .ok { s with ds := ext (BitVec.ofNat 32 (leNat s.ram addr.toNat n)) :: ds }
  | .store n =>
      match s.ds with
      | addr :: v :: ds =>
          if addr.toNat + n > env.ramSize then .error .oobMemory
          else if n = 4 ∧ ¬ 4 ∣ addr.toNat then .error .unaligned
          else .ok { s with ds := ds, ram := putBytes s.ram addr.toNat n v.toNat }
      | _ => .error .stackUnderflow
  | _ => .ok s

open ListVm in
/-- The instruction gets to an expression on cells that has no value. -/
def ListInstr.undefined (s : ListVm) : ListInstr → Bool
  | .data op =>
      match op, s.ds with
      | .INC, v :: _ | .DEC, v :: _ => (hostValue op v 0).isNone
      | .DIV, w :: v :: _ | .MOD, w :: v :: _ => w ≠ 0 && (hostValue op v w).isNone
      | _, w :: v :: _ => (hostValue op v w).isNone
      | _, _ => false
  | .localAdd i d =>
      match s.localIndex i with
      | .ok k => (signedAdd (fromBottom s.rs k) d).isNone
      | .error _ => false
  | _ => false

/-- A jump stays within the code, its end included. -/
def target (a : Activation) (p : Nat) (off : BitVec 16) : Except Err Go :=
  if (p : Int) + off.toInt < 0 ∨ (p : Int) + off.toInt > a.len then .error .jumpOutOfRange
  else .ok (.next ((p : Int) + off.toInt).toNat)

/-- One instruction: where it leads, and what it does to the lists. -/
def ListInstr.exec (env : ListEnv) (a : Activation) (p : Nat) (i : ListInstr) (s : ListVm) :
    Except Err (Go × ListVm) :=
  match i with
  | .jump off => do
      let go ← target a p off
      return (go, s)
  | .branch ifZero off =>
      match s.ds with
      | [] => .error .stackUnderflow
      | v :: ds => do
          let go ← (if (v == 0) = ifZero then target a p off else .ok (.next p))
          return (go, { s with ds := ds })
  | .call idx => do
      let c ← env.callee idx
      return (.call c p, s)
  | .ret => .ok (.ret, s)
  | i => do
      let s ← i.effect env s
      return (.next p, s)

/-! ## Runs -/

inductive ListConfig where
  | run (s : ListVm) (cur : Activation) (callers : List Caller)
  | done (s : ListVm)
  | failed (e : Err)

/-- A return goes on in the caller, its frame in place again. -/
def ListConfig.back (s : ListVm) : List Caller → ListConfig
  | [] => .done s
  | x :: callers => .run { s with fp := x.oldFp } x.act callers

def ListConfig.after (cur : Activation) (callers : List Caller) :
    Except Err (Go × ListVm) → ListConfig
  | .error e => .failed e
  | .ok (.next ip, s) => .run s { cur with ip := ip } callers
  | .ok (.ret, s) => .back s callers
  | .ok (.call c ip, s) =>
      .run { s with fp := some s.rs.length } c (⟨{ cur with ip := ip }, s.fp⟩ :: callers)

/-- One instruction; no step at an end, none out of the machine and none without a value. -/
def listStep (env : ListEnv) : ListConfig → Option ListConfig
  | .run s cur callers =>
      match decodeAt cur with
      | .error e => some (.failed e)
      | .ok (.outside, _) => none
      | .ok (i, p) =>
          if i.undefined s then none else some (.after cur callers (i.exec env cur p s))
  | _ => none

end V4Engine
