/-
  V4Engine.Vm.Superinstr

  Superinstructions and the sequences they stand for.

  Both are straight-line code: `turns` runs a number of instructions, and
  `turns_code` turns their bytes into the sequence of their bodies.  The compact
  literals and the fixed-index local opcodes have the same body as the general
  one (`Compact`); the fused opcodes leave the same live machine whenever their
  expansion ends without an error (`Fused`).
-/
import V4Engine.Vm.CodeBytes
import V4Engine.Vm.StackRuns

namespace V4Engine

open Lib FaultM VmM

variable {W : Type}

/-! ## Straight-line code -/

/-- The instructions that occur in a superinstruction or its expansion, with their operands. -/
inductive Instr where
  | LIT (k : Cell) | LIT0 | LIT1 | LITN1 | LIT_U8 (b : Byte) | LIT_I8 (b : Byte)
  | LIT_I16 (w : BitVec 16)
  | LGET (n : Byte) | LSET (n : Byte) | LTEE (n : Byte) | LINC (n : Byte) | LDEC (n : Byte)
  | LGET0 | LGET1 | LSET0 | LSET1
  | INC | DEC | ADD | SUB | DUP | TOR | FROMR | RFETCH
  deriving DecidableEq, Repr

def Instr.op : Instr → Op
  | .LIT _ => .LIT
  | .LIT0 => .LIT0
  | .LIT1 => .LIT1
  | .LITN1 => .LITN1
  | .LIT_U8 _ => .LIT_U8
  | .LIT_I8 _ => .LIT_I8
  | .LIT_I16 _ => .LIT_I16
  | .LGET _ => .LGET
  | .LSET _ => .LSET
  | .LTEE _ => .LTEE
  | .LINC _ => .LINC
  | .LDEC _ => .LDEC
  | .LGET0 => .LGET0
  | .LGET1 => .LGET1
  | .LSET0 => .LSET0
  | .LSET1 => .LSET1
  | .INC => .INC
  | .DEC => .DEC
  | .ADD => .ADD
  | .SUB => .SUB
  | .DUP => .DUP
  | .TOR => .TOR
  | .FROMR => .FROMR
  | .RFETCH => .RFETCH

/-- The operand bytes. -/
def Instr.operand : Instr → List Byte
  | .LIT k => imm32Bytes k
  | .LIT_I16 w => imm16Bytes w
  | .LIT_U8 b | .LIT_I8 b => [b]
  | .LGET n | .LSET n | .LTEE n | .LINC n | .LDEC n => [n]
  | _ => []

/-- An instruction in the code. -/
def Instr.bytes (i : Instr) : List Byte := BitVec.ofNat 8 i.op.opcode :: i.operand

/-- The code of a sequence of instructions. -/
def assemble (is : List Instr) : List Byte := is.flatMap Instr.bytes

/-- What an instruction does, apart from moving on. -/
def Instr.body (H : Host W) : Instr → VmM W Unit
  | .LIT k => dsPush H k
  | .LIT0 => dsPush H 0
  | .LIT1 => dsPush H 1
  | .LITN1 => dsPush H (-1)
  | .LIT_U8 b => dsPush H (b.setWidth 32)
  | .LIT_I8 b => dsPush H (b.signExtend 32)
  | .LIT_I16 w => dsPush H (w.signExtend 32)
  | .LGET n => localGet H n.toNat
  | .LSET n => localSet H n.toNat
  | .LTEE n => localTee H n.toNat
  | .LINC n => localAdd H n.toNat 1
  | .LDEC n => localAdd H n.toNat (-1)
  | .LGET0 => localGet H 0
  | .LGET1 => localGet H 1
  | .LSET0 => localSet H 0
  | .LSET1 => localSet H 1
  | .INC => popPush H (· + 1)
  | .DEC => popPush H (· - 1)
  | .ADD => binaryBlock H .ADD
  | .SUB => binaryBlock H .SUB
  | .DUP => do
      let v ← dsPeek H 0
      dsPush H v
  | .TOR => do
      let v ← dsPop H
      rsPush H v
  | .FROMR => do
      let v ← rsPop H
      dsPush H v
  | .RFETCH => do
      let v ← rsPeek H 0
      dsPush H v

/-- The bodies one after the other. -/
def bodies (H : Host W) : List Instr → VmM W Unit
  | [] => return ()
  | i :: is => do
      i.body H
      bodies H is

/-- `n` turns of the loop, as long as each goes on to a next instruction. -/
def turns (H : Host W) : Nat → Activation → VmM W Flow
  | 0, a => return .next a.ip
  | n + 1, a => do
      match ← fetch H a with
      | .next ip => turns H n { a with ip := ip }
      | f => return f

section

variable {H : Host W} {a : Activation} {m m' : Machine W} {v : Cell} {i : Nat}

/-- One turn of the loop at an instruction runs its body and moves past its bytes. -/
theorem Instr.fetch_run (i : Instr) (h : a.At i.bytes) (m : Machine W) :
    fetch H a m = thenNext (a.ip + i.bytes.length) (i.body H) m := by
  rw [V4Engine.fetch_run (h.nextOp (ofByte_opcode i.op))]
  cases i with
  | LIT k => exact bind_ok h.imm32_run
  | LIT_I16 w => exact bind_ok (h.imm16_run _)
  | LIT_U8 b | LIT_I8 b => exact bind_ok h.imm8_run
  | LGET n | LSET n | LTEE n | LINC n | LDEC n => exact bind_ok h.imm8_run
  | _ => rfl

/-- **Straight-line code.**  As many turns as there are instructions run their bodies. -/
theorem turns_code (is : List Instr) {a : Activation} (h : a.At (assemble is)) (m : Machine W) :
    turns H is.length a m = thenNext (a.ip + (assemble is).length) (bodies H is) m := by
  induction is generalizing a m with
  | nil => rfl
  | cons i is ih =>
      have hbytes : assemble (i :: is) = i.bytes ++ assemble is := rfl
      rw [hbytes] at h
      rw [List.length_cons, turns, thenNext, bodies, bind_assoc]
      cases hbody : i.body H m with
      | ok u m' =>
          have hfetch : fetch H a m = .ok (.next (a.ip + i.bytes.length)) m' := by
            rw [i.fetch_run h.take, thenNext, bind_ok hbody]
            rfl
          rw [bind_ok hfetch, bind_ok hbody]
          -- the rest of the code starts where this instruction ended
          refine (ih h.drop m').trans ?_
          rw [hbytes, List.length_append, ← Nat.add_assoc]
          rfl
      | err e m' =>
          have hfetch : fetch H a m = .err e m' := by
            rw [i.fetch_run h.take, thenNext, bind_err hbody]
          rw [bind_err hfetch, bind_err hbody]
      | fault =>
          have hfetch : fetch H a m = .fault := by
            rw [i.fetch_run h.take, thenNext, bind_fault hbody]
          rw [bind_fault hfetch, bind_fault hbody]

end

/-! ## Compact opcodes -/

/-- The opcodes that stand for one general instruction. -/
inductive Compact where
  | LIT0 | LIT1 | LITN1 | LIT_U8 (b : Byte) | LIT_I8 (b : Byte) | LIT_I16 (w : BitVec 16)
  | LGET0 | LGET1 | LSET0 | LSET1
  deriving DecidableEq, Repr

def Compact.instr : Compact → Instr
  | .LIT0 => .LIT0
  | .LIT1 => .LIT1
  | .LITN1 => .LITN1
  | .LIT_U8 b => .LIT_U8 b
  | .LIT_I8 b => .LIT_I8 b
  | .LIT_I16 w => .LIT_I16 w
  | .LGET0 => .LGET0
  | .LGET1 => .LGET1
  | .LSET0 => .LSET0
  | .LSET1 => .LSET1

/-- The general instruction. -/
def Compact.expansion : Compact → Instr
  | .LIT0 => .LIT 0
  | .LIT1 => .LIT 1
  | .LITN1 => .LIT (-1)
  | .LIT_U8 b => .LIT (b.setWidth 32)
  | .LIT_I8 b => .LIT (b.signExtend 32)
  | .LIT_I16 w => .LIT (w.signExtend 32)
  | .LGET0 => .LGET 0
  | .LGET1 => .LGET 1
  | .LSET0 => .LSET 0
  | .LSET1 => .LSET 1

theorem Compact.body_eq (s : Compact) (H : Host W) : s.instr.body H = s.expansion.body H := by
  cases s <;> rfl

/-! ## Fused opcodes -/

/-- The opcodes that stand for a sequence. -/
inductive Fused where
  | INC | DEC | LTEE (n : Byte) | LINC (n : Byte) | LDEC (n : Byte) | RFETCH
  deriving DecidableEq, Repr

def Fused.instr : Fused → Instr
  | .INC => .INC
  | .DEC => .DEC
  | .LTEE n => .LTEE n
  | .LINC n => .LINC n
  | .LDEC n => .LDEC n
  | .RFETCH => .RFETCH

def Fused.expansion : Fused → List Instr
  | .INC => [.LIT1, .ADD]
  | .DEC => [.LIT1, .SUB]
  | .LTEE n => [.DUP, .LSET n]
  | .LINC n => [.LGET n, .INC, .LSET n]
  | .LDEC n => [.LGET n, .DEC, .LSET n]
  | .RFETCH => [.FROMR, .DUP, .TOR]

/-- The machine with other stacks. -/
def Machine.withStacks (m : Machine W) (DS RS : Nat → Cell) (sp rp : Nat) : Machine W :=
  { m with vm := { m.vm with DS := DS, RS := RS, sp := sp, rp := rp } }

/-- Everything agrees but the dead cells of the two stacks. -/
structure SameLive (m m' : Machine W) : Prop where
  ds : m'.vm.ds = m.vm.ds
  rs : m'.vm.rs = m.vm.rs
  rest : ∃ DS RS sp rp, m' = m.withStacks DS RS sp rp

section

variable {H : Host W} {m m' : Machine W} {v w : Cell} {i : Nat}

theorem SameLive.of_cells (hsp : m'.vm.sp = m.vm.sp) (hrp : m'.vm.rp = m.vm.rp)
    (hds : ∀ i, i < m.vm.sp → m'.vm.DS i = m.vm.DS i)
    (hrs : ∀ i, i < m.vm.rp → m'.vm.RS i = m.vm.RS i)
    (hrest : ∃ DS RS sp rp, m' = m.withStacks DS RS sp rp) : SameLive m m' where
  ds := by rw [Vm.ds, hsp]; exact live_congr hds
  rs := by rw [Vm.rs, hrp]; exact live_congr hrs
  rest := hrest

theorem SameLive.refl (m : Machine W) : SameLive m m := ⟨rfl, rfl, _, _, _, _, rfl⟩

theorem SameLive.trans {m1 m2 m3 : Machine W} (h : SameLive m1 m2) (h' : SameLive m2 m3) :
    SameLive m1 m3 where
  ds := h'.ds.trans h.ds
  rs := h'.rs.trans h.rs
  rest := by
    obtain ⟨_, _, _, _, rfl⟩ := h.rest
    obtain ⟨DS, RS, sp, rp, rfl⟩ := h'.rest
    exact ⟨DS, RS, sp, rp, rfl⟩

theorem SameLive.sp (h : SameLive m m') : m'.vm.sp = m.vm.sp := by
  have hlen := congrArg List.length h.ds
  rwa [Vm.ds, Vm.ds, live_length, live_length] at hlen

theorem SameLive.rp (h : SameLive m m') : m'.vm.rp = m.vm.rp := by
  have hlen := congrArg List.length h.rs
  rwa [Vm.rs, Vm.rs, live_length, live_length] at hlen

theorem SameLive.dsCell (h : SameLive m m') (hi : i < m.vm.sp) : m'.vm.DS i = m.vm.DS i :=
  (live_eq_iff.mp h.ds).2 i (h.sp.symm ▸ hi)

theorem SameLive.rsCell (h : SameLive m m') (hi : i < m.vm.rp) : m'.vm.RS i = m.vm.RS i :=
  (live_eq_iff.mp h.rs).2 i (h.rp.symm ▸ hi)

theorem SameLive.popped (h : SameLive m m') (n : Nat) : SameLive (m.popped n) (m'.popped n) := by
  have hsp := h.sp
  refine .of_cells (by simp only [popped_sp, hsp]) h.rp (fun i hi => h.dsCell ?_)
    (fun i => h.rsCell) ?_
  · rw [popped_sp] at hi
    omega
  · obtain ⟨DS, RS, sp, rp, rfl⟩ := h.rest
    exact ⟨DS, RS, sp - n, rp, rfl⟩

theorem SameLive.pushed (h : SameLive m m') (v : Cell) : SameLive (m.pushed v) (m'.pushed v) := by
  have hsp := h.sp
  refine .of_cells (by simp only [pushed_sp, hsp]) h.rp (fun i hi => ?_) (fun i => h.rsCell) ?_
  · show Function.update m'.vm.DS m'.vm.sp v i = Function.update m.vm.DS m.vm.sp v i
    rw [pushed_sp] at hi
    rw [hsp]
    by_cases heq : i = m.vm.sp
    · rw [heq, Function.update_self, Function.update_self]
    · rw [Function.update_of_ne heq, Function.update_of_ne heq]
      exact h.dsCell (by omega)
  · obtain ⟨DS, RS, sp, rp, rfl⟩ := h.rest
    exact ⟨Function.update DS sp v, RS, sp + 1, rp, rfl⟩

theorem SameLive.withRs (h : SameLive m m') (k : Nat) (v : Cell) :
    SameLive (m.withRs k v) (m'.withRs k v) := by
  refine .of_cells h.sp h.rp (fun i => h.dsCell) (fun i hi => ?_) ?_
  · show Function.update m'.vm.RS k v i = Function.update m.vm.RS k v i
    by_cases heq : i = k
    · rw [heq, Function.update_self, Function.update_self]
    · rw [Function.update_of_ne heq, Function.update_of_ne heq]
      exact h.rsCell hi
  · obtain ⟨DS, RS, sp, rp, rfl⟩ := h.rest
    exact ⟨DS, Function.update RS k v, sp, rp, rfl⟩

/-- A push taken back leaves a dead cell. -/
theorem sameLive_pushed_popped (m : Machine W) (v : Cell) : SameLive m ((m.pushed v).popped 1) :=
  .of_cells rfl rfl (fun _ hi => Function.update_of_ne (Nat.ne_of_lt hi) _ _) (fun _ _ => rfl)
    ⟨_, _, _, _, rfl⟩

/-! ## Each expansion -/

/-- The bodies of a sequence, one by one. -/
theorem bodies_cons_eq_ok {i : Instr} {is : List Instr} :
    bodies H (i :: is) m = .ok () m' ↔
      ∃ m1, i.body H m = .ok () m1 ∧ bodies H is m1 = .ok () m' := by
  rw [bodies, bind_eq_ok]
  exact ⟨fun ⟨_, m1, h⟩ => ⟨m1, h⟩, fun ⟨m1, h⟩ => ⟨(), m1, h⟩⟩

theorem bodies_nil_ok (h : bodies H [] m = .ok () m') : m' = m := by
  cases h
  rfl

theorem popPush_eq_ok {f : Cell → Cell} :
    popPush H f m = .ok () m' ↔
      (0 < m.vm.sp ∧ m.vm.sp ≤ 256) ∧ m' = (m.popped 1).pushed (f (m.operand 0)) := by
  rw [popPush, bind_eq_ok]
  constructor
  · rintro ⟨v, m1, hpop, hpush⟩
    obtain ⟨hfit, rfl, rfl⟩ := dsPop_eq_ok.mp hpop
    exact ⟨hfit, (dsPush_eq_ok.mp hpush).2⟩
  · rintro ⟨hfit, rfl⟩
    refine ⟨_, _, dsPop_eq_ok.mpr ⟨hfit, rfl, rfl⟩, dsPush_eq_ok.mpr ⟨?_, rfl⟩⟩
    rw [popped_sp]
    omega

theorem localGet_eq_ok {idx : Nat} :
    localGet H idx m = .ok () m' ↔
      ∃ fp, m.vm.fp = some fp ∧ fp + idx < m.vm.rp ∧ fp + idx < 64 ∧ m.vm.sp < 256 ∧
        m' = m.pushed (m.vm.RS (fp + idx)) := by
  rw [localGet, bind_eq_ok]
  constructor
  · rintro ⟨i, m1, hslot, h⟩
    obtain ⟨fp, hfp, hlt, rfl, rfl⟩ := localSlot_eq_ok.mp hslot
    obtain ⟨v, m2, hget, hpush⟩ := bind_eq_ok.mp h
    obtain ⟨h64, rfl, rfl⟩ := getRs_eq_ok.mp hget
    obtain ⟨hroom, rfl⟩ := dsPush_eq_ok.mp hpush
    exact ⟨fp, hfp, hlt, h64, hroom, rfl⟩
  · rintro ⟨fp, hfp, hlt, h64, hroom, rfl⟩
    refine ⟨_, m, localSlot_eq_ok.mpr ⟨fp, hfp, hlt, rfl, rfl⟩, ?_⟩
    rw [bind_ok (getRs_eq_ok.mpr ⟨h64, rfl, rfl⟩)]
    exact dsPush_eq_ok.mpr ⟨hroom, rfl⟩

theorem localSet_eq_ok {idx : Nat} :
    localSet H idx m = .ok () m' ↔
      ∃ fp, m.vm.fp = some fp ∧ fp + idx < m.vm.rp ∧ fp + idx < 64 ∧
        (0 < m.vm.sp ∧ m.vm.sp ≤ 256) ∧ m' = (m.popped 1).withRs (fp + idx) (m.operand 0) := by
  rw [localSet, bind_eq_ok]
  constructor
  · rintro ⟨i, m1, hslot, h⟩
    obtain ⟨fp, hfp, hlt, rfl, rfl⟩ := localSlot_eq_ok.mp hslot
    obtain ⟨v, m2, hpop, hset⟩ := bind_eq_ok.mp h
    obtain ⟨hfit, rfl, rfl⟩ := dsPop_eq_ok.mp hpop
    obtain ⟨h64, rfl⟩ := setRs_eq_ok.mp hset
    exact ⟨fp, hfp, hlt, h64, hfit, rfl⟩
  · rintro ⟨fp, hfp, hlt, h64, hfit, rfl⟩
    refine ⟨_, m, localSlot_eq_ok.mpr ⟨fp, hfp, hlt, rfl, rfl⟩, ?_⟩
    rw [bind_ok (dsPop_eq_ok.mpr ⟨hfit, rfl, rfl⟩)]
    exact setRs_eq_ok.mpr ⟨h64, rfl⟩

/-- `LIT1`, then `ADD` or `SUB`. -/
theorem fused_arith (op : Op) {f : Cell → Cell} (hop : ∀ a, binaryResult op a 1 = some (f a))
    {m1 : Machine W} (hlit : dsPush H 1 m = .ok () m1) (h : binaryBlock H op m1 = .ok () m') :
    ∃ m2, popPush H f m = .ok () m2 ∧ SameLive m2 m' := by
  obtain ⟨hroom, rfl⟩ := dsPush_eq_ok.mp hlit
  obtain ⟨b, m2, hpop, h⟩ := bind_eq_ok.mp h
  obtain ⟨-, rfl, rfl⟩ := dsPop_eq_ok.mp hpop
  obtain ⟨a, m3, hpop, h⟩ := bind_eq_ok.mp h
  obtain ⟨⟨hpos, -⟩, rfl, rfl⟩ := dsPop_eq_ok.mp hpop
  have hpos : 0 < m.vm.sp := by simpa using hpos
  rw [pushed_operand, hop] at h
  obtain ⟨-, rfl⟩ := dsPush_eq_ok.mp h
  have hoperand : ((m.pushed 1).popped 1).operand 0 = m.operand 0 := by
    rw [popped_operand]
    exact pushed_operand_succ m 1 hpos
  refine ⟨_, popPush_eq_ok.mpr ⟨⟨hpos, by omega⟩, rfl⟩, ?_⟩
  rw [hoperand]
  exact ((sameLive_pushed_popped m 1).popped 1).pushed _

/-- `LGET`, then `INC` or `DEC`, then `LSET`. -/
theorem fused_local {idx : Nat} {f : Cell → Cell} {d : Cell} (hf : ∀ a, f a = a + d)
    {m1 m2 : Machine W} (hget : localGet H idx m = .ok () m1) (hadd : popPush H f m1 = .ok () m2)
    (hset : localSet H idx m2 = .ok () m') :
    ∃ m3, localAdd H idx d m = .ok () m3 ∧ SameLive m3 m' := by
  obtain ⟨fp, hfp, hlt, h64, hroom, rfl⟩ := localGet_eq_ok.mp hget
  obtain ⟨-, rfl⟩ := popPush_eq_ok.mp hadd
  obtain ⟨fp', hfp', -, -, -, rfl⟩ := localSet_eq_ok.mp hset
  obtain rfl : fp = fp' := Option.some.inj (hfp.symm.trans hfp')
  rw [pushed_operand, pushed_operand, hf]
  refine ⟨m.withRs (fp + idx) (m.vm.RS (fp + idx) + d), ?_, ?_⟩
  · rw [localAdd, bind_ok (localSlot_eq_ok.mpr ⟨fp, hfp, hlt, rfl, rfl⟩),
      bind_ok (getRs_eq_ok.mpr ⟨h64, rfl, rfl⟩)]
    exact setRs_eq_ok.mpr ⟨h64, rfl⟩
  · exact ((sameLive_pushed_popped m _).trans (sameLive_pushed_popped _ _)).withRs _ _

/-- `DUP`, then `LSET`. -/
theorem fused_tee {n : Byte} {m1 : Machine W} (hdup : Instr.DUP.body H m = .ok () m1)
    (hset : localSet H n.toNat m1 = .ok () m') :
    ∃ m2, localTee H n.toNat m = .ok () m2 ∧ SameLive m2 m' := by
  obtain ⟨v, m2, hpeek, hpush⟩ := bind_eq_ok.mp hdup
  obtain ⟨-, rfl, rfl⟩ := dsPeek_eq_ok.mp hpeek
  obtain ⟨-, rfl⟩ := dsPush_eq_ok.mp hpush
  obtain ⟨fp, hfp, hlt, h64, -, rfl⟩ := localSet_eq_ok.mp hset
  have hslot : localSlot H n.toNat m2 = .ok (fp + n.toNat) m2 :=
    localSlot_eq_ok.mpr ⟨fp, hfp, hlt, rfl, rfl⟩
  rw [pushed_operand]
  refine ⟨m2.withRs (fp + n.toNat) (m2.operand 0), ?_, ?_⟩
  · rw [localTee, bind_ok hslot, bind_ok hpeek]
    exact setRs_eq_ok.mpr ⟨h64, rfl⟩
  · exact (sameLive_pushed_popped m2 _).withRs _ _

/-- `FROMR`, `DUP`, `TOR`. -/
theorem fused_fetch {m1 m2 : Machine W} (hfrom : Instr.FROMR.body H m = .ok () m1)
    (hdup : Instr.DUP.body H m1 = .ok () m2) (hto : Instr.TOR.body H m2 = .ok () m') :
    ∃ m3, Instr.RFETCH.body H m = .ok () m3 ∧ SameLive m3 m' := by
  obtain ⟨v, m3, hpop, hpush⟩ := bind_eq_ok.mp hfrom
  obtain ⟨⟨hpos, hfit⟩, rfl, rfl⟩ := rsPop_eq_ok.mp hpop
  obtain ⟨hroom, rfl⟩ := dsPush_eq_ok.mp hpush
  obtain ⟨v, m3, hpeek, hpush⟩ := bind_eq_ok.mp hdup
  obtain ⟨-, rfl, rfl⟩ := dsPeek_eq_ok.mp hpeek
  obtain ⟨-, rfl⟩ := dsPush_eq_ok.mp hpush
  obtain ⟨v, m4, hpop, hpush⟩ := bind_eq_ok.mp hto
  obtain ⟨-, rfl, rfl⟩ := dsPop_eq_ok.mp hpop
  obtain ⟨-, rfl⟩ := rsPush_eq_ok.mp hpush
  rw [pushed_operand, pushed_operand]
  -- The expansion puts back the cell it took, so `rp` and the live cells are as before.
  refine ⟨m.pushed (m.vm.RS (m.vm.rp - 1)), ?_, .of_cells rfl ?_ (fun i hi => ?_) (fun i _ => ?_)
    ⟨_, _, _, _, rfl⟩⟩
  · have hpeek : rsPeek H 0 m = .ok (m.vm.RS (m.vm.rp - 1)) m :=
      rsPeek_eq_ok.mpr ⟨by omega, rfl, rfl⟩
    exact (bind_ok hpeek).trans (dsPush_eq_ok.mpr ⟨hroom, rfl⟩)
  · exact Nat.sub_add_cancel hpos
  · rw [pushed_sp] at hi
    exact Function.update_of_ne (Nat.ne_of_lt hi) _ _
  · exact congrFun (Function.update_eq_self (m.vm.rp - 1) m.vm.RS) i

/-- **Each fused opcode** ends like its expansion, when that ends without an error. -/
theorem Fused.body_ok (s : Fused) (h : bodies H s.expansion m = .ok () m') :
    ∃ m1, s.instr.body H m = .ok () m1 ∧ SameLive m1 m' := by
  -- Every expansion has two or three instructions.
  have two : ∀ {i j : Instr}, bodies H [i, j] m = .ok () m' →
      ∃ m1, i.body H m = .ok () m1 ∧ j.body H m1 = .ok () m' := by
    intro i j h
    obtain ⟨m1, hi, h⟩ := bodies_cons_eq_ok.mp h
    obtain ⟨m2, hj, h⟩ := bodies_cons_eq_ok.mp h
    obtain rfl := bodies_nil_ok h
    exact ⟨m1, hi, hj⟩
  have three : ∀ {i j k : Instr}, bodies H [i, j, k] m = .ok () m' →
      ∃ m1 m2, i.body H m = .ok () m1 ∧ j.body H m1 = .ok () m2 ∧ k.body H m2 = .ok () m' := by
    intro i j k h
    obtain ⟨m1, hi, h⟩ := bodies_cons_eq_ok.mp h
    obtain ⟨m2, hj, h⟩ := bodies_cons_eq_ok.mp h
    obtain ⟨m3, hk, h⟩ := bodies_cons_eq_ok.mp h
    obtain rfl := bodies_nil_ok h
    exact ⟨m1, m2, hi, hj, hk⟩
  cases s with
  | INC =>
      obtain ⟨m1, hlit, hadd⟩ := two h
      exact fused_arith .ADD (fun _ => rfl) hlit hadd
  | DEC =>
      obtain ⟨m1, hlit, hsub⟩ := two h
      exact fused_arith .SUB (fun _ => rfl) hlit hsub
  | LTEE n =>
      obtain ⟨m1, hdup, hset⟩ := two h
      exact fused_tee hdup hset
  | LINC n =>
      obtain ⟨m1, m2, hget, hadd, hset⟩ := three h
      exact fused_local (fun _ => rfl) hget hadd hset
  | LDEC n =>
      obtain ⟨m1, m2, hget, hadd, hset⟩ := three h
      exact fused_local (fun a => BitVec.sub_eq_add_neg a 1) hget hadd hset
  | RFETCH =>
      obtain ⟨m1, m2, hfrom, hdup, hto⟩ := three h
      exact fused_fetch hfrom hdup hto

end

/-! ## The result -/

/-- A body's end, as the end of straight-line code that goes on at `ip`. -/
def goOn (ip : Nat) : Outcome V4Err (Machine W) Unit → Outcome V4Err (Machine W) Flow
  | .ok _ m => .ok (.next ip) m
  | .err e m => .err e m
  | .fault => .fault

theorem thenNext_goOn (ip : Nat) (x : VmM W Unit) (m : Machine W) :
    thenNext ip x m = goOn ip (x m) := by
  rw [thenNext, bind_run]
  cases x m <;> rfl

/-- **Superinstructions.**  A compact opcode ends exactly as the general instruction does, on
    every error as well; a fused one as its expansion, whenever that does not fail. -/
theorem superinstructions_equal_expansions (H : Host W) (m : Machine W) (a b : Activation) :
    (∀ s : Compact, a.At s.instr.bytes → b.At s.expansion.bytes →
      ∃ o, turns H 1 a m = goOn (a.ip + s.instr.bytes.length) o ∧
        turns H 1 b m = goOn (b.ip + s.expansion.bytes.length) o) ∧
    ∀ s : Fused, a.At s.instr.bytes → b.At (assemble s.expansion) →
      ∀ f m', turns H s.expansion.length b m = .ok f m' →
        f = .next (b.ip + (assemble s.expansion).length) ∧
        ∃ m1, turns H 1 a m = .ok (.next (a.ip + s.instr.bytes.length)) m1 ∧ SameLive m1 m' := by
  -- One instruction is straight-line code.
  have one : ∀ {a : Activation} (i : Instr), a.At i.bytes →
      turns H 1 a m = goOn (a.ip + i.bytes.length) (i.body H m) := by
    intro a i h
    rw [← thenNext_goOn, ← i.fetch_run h, turns, bind_run, i.fetch_run h, thenNext_goOn]
    cases i.body H m <;> rfl
  refine ⟨fun s ha hb => ⟨s.instr.body H m, one _ ha, ?_⟩, fun s ha hb f m' h => ?_⟩
  · rw [s.body_eq]
    exact one _ hb
  · rw [turns_code _ hb, thenNext_goOn] at h
    cases hbody : bodies H s.expansion m with
    | ok u m2 =>
        rw [hbody] at h
        cases h
        obtain ⟨m1, hinstr, hsame⟩ := s.body_ok hbody
        exact ⟨rfl, m1, by rw [one _ ha, hinstr]; rfl, hsame⟩
    | err e m2 =>
        rw [hbody] at h
        cases h
    | fault =>
        rw [hbody] at h
        cases h

/-- One cell on the data stack. -/
def oneCellVm : Vm := { Vm.blank with sp := 1 }

theorem inc_equals_lit1_add :
    ∃ m1, turns Host.silent 1 ⟨[0x17], 1, 0⟩ (.boot oneCellVm) = .ok (.next 1) m1 ∧
      SameLive m1 ((((Machine.boot oneCellVm).pushed 1).popped 2).pushed 1) :=
  ((superinstructions_equal_expansions Host.silent (.boot oneCellVm) ⟨[0x17], 1, 0⟩
    ⟨[0x74, 0x10], 2, 0⟩).2 .INC (at_whole [0x17]) (at_whole [0x74, 0x10]) (.next 2) _ rfl).2

end V4Engine
