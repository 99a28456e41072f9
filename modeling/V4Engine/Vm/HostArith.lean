/-
  V4Engine.Vm.HostArith

  Which operands make the interpreter evaluate an undefined expression.

  The arithmetic opcodes compute on `int32_t` operands without a check other
  than the one for a zero divisor.  `hostValue` is their expression as C++17
  defines it, `hostOperands` the operands with which a turn of the loop gets
  there.  Where the expression has a value, the instruction computes it.
  `definedStep` is the interpreter that stops in front of an undefined one.
-/
import V4Engine.Lib.SignedArith
import V4Engine.Lib.Iterate
import V4Engine.Vm.RunRules

namespace V4Engine

open Lib FaultM VmM

variable {W : Type} {H : Host W}

/-- The expression on cells in the body of `op`: `a` is its left operand, `b` its
    right one or its shift. -/
def hostValue : Op → (a b : Cell) → Option Cell
  | .ADD, a, b => signedAdd a b
  | .SUB, a, b => signedSub a b
  | .MUL, a, b => signedMul a b
  | .DIV, a, b => signedDiv a b
  | .MOD, a, b => signedRem a b
  | .INC, a, _ | .LINC, a, _ => signedAdd a 1
  | .DEC, a, _ | .LDEC, a, _ => signedSub a 1
  | .SHL, a, b => signedShl a (shiftCount b)
  | .SAR, a, b => signedShr a (shiftCount b)
  | _, _, _ => some 0

/-- The index behind the opcode. -/
def Activation.localIdx (a : Activation) : Option Byte :=
  if a.ip + 1 < a.len then a.bc[a.ip + 1]? else none

/-- `vm->fp[idx]`, when the checks let it through. -/
def localOperand (m : Machine W) (cur : Activation) : Option Cell := do
  let idx ← cur.localIdx
  let fp ← m.vm.fp
  if fp + idx.toNat < m.vm.rp then some (m.vm.RS (fp + idx.toNat)) else none

/-- The operands with which `op` evaluates its expression, if it gets that far. -/
def hostOperands (m : Machine W) (cur : Activation) : Op → Option (Cell × Cell)
  | .ADD | .SUB | .MUL | .SHL | .SAR =>
      if 1 < m.vm.sp then some (m.operand 1, m.operand 0) else none
  | .DIV | .MOD =>
      if 1 < m.vm.sp ∧ m.operand 0 ≠ 0 then some (m.operand 1, m.operand 0) else none
  | .INC | .DEC => if 0 < m.vm.sp then some (m.operand 0, 0) else none
  | .LINC | .LDEC => (localOperand m cur).map fun v => (v, 0)
  | _ => none

/-- The instruction about to be executed evaluates an undefined expression. -/
def Config.Undefined (c : Config W) : Prop :=
  ∃ m cur cs op a b, c = .run m cur cs ∧ cur.nextOp = some op ∧
    hostOperands m cur op = some (a, b) ∧ hostValue op a b = none

/-! ## The operands -/

/-- The operands on which the expression of `op` is defined. -/
def Op.Fitting : Op → (a b : Cell) → Prop
  | .ADD, a, b => a.msb = b.msb → (a + b).msb = a.msb
  | .SUB, a, b => a.msb ≠ b.msb → (a - b).msb = a.msb
  | .MUL, a, b => a.toInt.natAbs * b.toInt.natAbs < 2 ^ 31 ∨
      a.toInt.natAbs * b.toInt.natAbs = 2 ^ 31 ∧ a.toInt * b.toInt < 0
  | .DIV, a, b | .MOD, a, b => ¬ (a = BitVec.intMin 32 ∧ b = -1)
  | .INC, a, _ | .LINC, a, _ => a ≠ BitVec.intMax 32
  | .DEC, a, _ | .LDEC, a, _ => a ≠ BitVec.intMin 32
  | .SHL, a, b => a.msb = false ∧ a.toNat * 2 ^ shiftCount b < 2 ^ 32
  | _, _, _ => True

/-- The instruction about to be executed has operands its expression is defined on. -/
def Config.Fitting (c : Config W) : Prop :=
  ∀ m cur cs op a b, c = .run m cur cs → cur.nextOp = some op →
    hostOperands m cur op = some (a, b) → op.Fitting a b

/-- Five bits say less than the width of a cell. -/
theorem shiftCount_lt (s : Cell) : shiftCount s < 32 := by
  unfold shiftCount
  rw [BitVec.toNat_and]
  exact Nat.lt_of_le_of_lt Nat.and_le_right (by decide)

/-- A zero divisor is caught before the division. -/
theorem hostOperands_divisor {m : Machine W} {cur : Activation} {op : Op} {a b : Cell}
    (h : hostOperands m cur op = some (a, b)) (hop : op = .DIV ∨ op = .MOD) : b ≠ 0 := by
  rcases hop with rfl | rfl
  all_goals
    simp only [hostOperands, Option.ite_none_right_eq_some, Option.some.injEq, Prod.mk.injEq] at h
    obtain ⟨⟨-, hb⟩, -, rfl⟩ := h
    exact hb

/-- **One expression.** -/
theorem hostValue_isSome_iff {m : Machine W} {cur : Activation} {op : Op} {a b : Cell}
    (h : hostOperands m cur op = some (a, b)) : (hostValue op a b).isSome ↔ op.Fitting a b := by
  have hdiv : op = .DIV ∨ op = .MOD → b ≠ 0 := hostOperands_divisor h
  cases op with
  | ADD => exact signedAdd_isSome_iff
  | SUB => exact signedSub_isSome_iff
  | MUL => exact signedMul_isSome_iff
  | DIV => exact (signedDiv_isSome_iff (by decide)).trans (and_iff_right (hdiv (.inl rfl)))
  | MOD => exact (signedRem_isSome_iff (by decide)).trans (and_iff_right (hdiv (.inr rfl)))
  | INC | LINC => exact signedAdd_one_isSome_iff (by decide)
  | DEC | LDEC => exact signedSub_one_isSome_iff (by decide)
  | SHL => exact signedShl_isSome_iff.trans (and_iff_right (shiftCount_lt b))
  | SAR => exact signedShr_isSome_iff.trans (iff_true_intro (shiftCount_lt b))
  | _ => cases h

/-! ## The instructions -/

/-- The cell in which `op` leaves the value of its expression. -/
def hostResult (m : Machine W) (cur : Activation) : Op → Option Cell
  | .LINC | .LDEC => localOperand m cur
  | _ => if 0 < m.vm.sp then some (m.operand 0) else none

theorem hostResult_of_push {m m' : Machine W} {cur : Activation} {v w : Cell} {op : Op}
    (hop : op ≠ .LINC ∧ op ≠ .LDEC) (h : dsPush H w m = .ok () m') (hv : w = v) :
    hostResult m' cur op = some v := by
  obtain ⟨hsp, htop⟩ := dsPush_ok h
  have hpos : 0 < m'.vm.sp := hsp ▸ Nat.succ_pos _
  have hres : hostResult m' cur op = if 0 < m'.vm.sp then some (m'.operand 0) else none := by
    cases op with
    | LINC => exact absurd rfl hop.1
    | LDEC => exact absurd rfl hop.2
    | _ => rfl
  rw [hres, if_pos hpos, htop, hv]

theorem localOperand_eq_some {m : Machine W} {cur : Activation} {v : Cell} :
    localOperand m cur = some v ↔ ∃ idx, cur.localIdx = some idx ∧ ∃ fp, m.vm.fp = some fp ∧
      fp + idx.toNat < m.vm.rp ∧ m.vm.RS (fp + idx.toNat) = v := by
  simp only [localOperand, Option.bind_eq_bind, Option.bind_eq_some_iff,
    Option.ite_none_right_eq_some, Option.some.injEq]

/-- `LINC` and `LDEC`. -/
theorem localAdd_value {m m' : Machine W} {cur : Activation} {f : Flow} {v d : Cell}
    (hv : localOperand m cur = some v)
    (h : (do let idx ← imm8 H cur (cur.ip + 1); thenNext (cur.ip + 1 + 1) (localAdd H idx.toNat d) :
      VmM W Flow) m = .ok f m') : localOperand m' cur = some (v + d) := by
  obtain ⟨idx, hidx, fp, hfp, hrp, rfl⟩ := localOperand_eq_some.mp hv
  have hbyte := hidx
  simp only [Activation.localIdx, Option.ite_none_right_eq_some] at hbyte
  have himm : imm8 H cur (cur.ip + 1) m = .ok idx m := by
    rw [imm8, if_neg (Nat.not_le.mpr hbyte.1)]
    unfold codeByte
    rw [hbyte.2]
    rfl
  rw [bind_ok himm] at h
  obtain ⟨-, hbody⟩ := thenNext_ok h
  have hslot : localSlot H idx.toNat m = .ok (fp + idx.toNat) m := by
    rw [localSlot_some hfp, if_neg (Nat.not_le.mpr hrp)]
    rfl
  unfold localAdd at hbody
  rw [bind_ok hslot] at hbody
  -- `localSlot` checks the slot against `rp`, not against the 64 cells of the array
  by_cases h64 : fp + idx.toNat < 64
  · have hget : getRs (fp + idx.toNat) m = .ok (m.vm.RS (fp + idx.toNat)) m := if_pos h64
    rw [bind_ok hget] at hbody
    have hset := (if_pos h64).symm.trans hbody
    cases hset
    exact localOperand_eq_some.mpr ⟨idx, hidx, fp, hfp, hrp, Function.update_self ..⟩
  · have hget : (getRs (fp + idx.toNat) m : Outcome V4Err (Machine W) Cell) = .fault := if_neg h64
    rw [bind_fault hget] at hbody
    cases hbody

/-- The shared block of the arithmetic opcodes. -/
theorem binaryBlock_ok {op : Op} {m m' : Machine W} (h : binaryBlock H op m = .ok () m') :
    ∃ n r, binaryResult op (m.operand 1) (m.operand 0) = some r ∧ dsPush H r n = .ok () m' := by
  obtain ⟨b, m1, hb, h⟩ := bind_eq_ok.mp h
  obtain ⟨a, m2, ha, h⟩ := bind_eq_ok.mp h
  obtain ⟨rfl, rfl⟩ := dsPop_value hb
  obtain ⟨rfl, rfl⟩ := dsPop_value ha
  have hsecond : (m.popped 1).operand 0 = m.operand 1 := rfl
  cases hr : binaryResult op (m.operand 1) (m.operand 0) with
  | none =>
      simp only [hsecond, hr, vmPanic_run] at h
      split at h <;> cases h
  | some r =>
      simp only [hsecond, hr] at h
      exact ⟨_, r, rfl, h⟩

theorem popPush_ok {g : Cell → Cell} {m m' : Machine W} (h : popPush H g m = .ok () m') :
    ∃ n, dsPush H (g (m.operand 0)) n = .ok () m' := by
  obtain ⟨a, m1, ha, h⟩ := bind_eq_ok.mp h
  obtain ⟨rfl, rfl⟩ := dsPop_value ha
  exact ⟨_, h⟩

theorem popPopPush_ok {g : Cell → Cell → Cell} {m m' : Machine W}
    (h : popPopPush H g m = .ok () m') :
    ∃ n, dsPush H (g (m.operand 1) (m.operand 0)) n = .ok () m' := by
  obtain ⟨b, m1, hb, h⟩ := bind_eq_ok.mp h
  obtain ⟨a, m2, ha, h⟩ := bind_eq_ok.mp h
  obtain ⟨rfl, rfl⟩ := dsPop_value hb
  obtain ⟨rfl, rfl⟩ := dsPop_value ha
  exact ⟨_, h⟩

/-- **The instructions compute the expressions.** -/
theorem hostResult_eq {m m' : Machine W} {cur : Activation} {op : Op} {a b v : Cell} {f : Flow}
    (hop : cur.nextOp = some op) (hargs : hostOperands m cur op = some (a, b))
    (hv : hostValue op a b = some v) (h : fetch H cur m = .ok f m') :
    hostResult m' cur op = some v := by
  rw [fetch_run hop] at h
  have hdiv : op = .DIV ∨ op = .MOD → b ≠ 0 := hostOperands_divisor hargs
  have hargs' : ∀ {p : Prop} [Decidable p], (if p then some (m.operand 1, m.operand 0) else none)
      = some (a, b) → a = m.operand 1 ∧ b = m.operand 0 := by
    intro p _ heq
    split at heq <;> cases heq
    exact ⟨rfl, rfl⟩
  have unary : (if 0 < m.vm.sp then some (m.operand 0, 0) else none) = some (a, b) →
      a = m.operand 0 := by
    intro heq
    split at heq <;> cases heq
    rfl
  have localArg : (localOperand m cur).map (fun v => (v, 0)) = some (a, b) →
      localOperand m cur = some a := by
    intro heq
    obtain ⟨x, hx, heq⟩ := Option.map_eq_some_iff.mp heq
    cases heq
    exact hx
  -- The fifteen opcodes of the shared block push the result of its inner switch.
  have binary : ∀ r, op ≠ .LINC ∧ op ≠ .LDEC → a = m.operand 1 ∧ b = m.operand 0 →
      thenNext (cur.ip + 1) (binaryBlock H op) m = .ok f m' → binaryResult op a b = some r →
      r = v → hostResult m' cur op = some v := by
    rintro r hne ⟨rfl, rfl⟩ hbody hr rfl
    obtain ⟨n, r', hr', hpush⟩ := binaryBlock_ok (thenNext_ok hbody).2
    obtain rfl : r = r' := Option.some.inj (hr.symm.trans hr')
    exact hostResult_of_push hne hpush rfl
  cases op with
  | ADD => exact binary (a + b) (by decide) (hargs' hargs) h rfl (signedAdd_eq_some hv).symm
  | SUB => exact binary (a - b) (by decide) (hargs' hargs) h rfl (signedSub_eq_some hv).symm
  | MUL => exact binary (a * b) (by decide) (hargs' hargs) h rfl (signedMul_eq_some hv).symm
  | DIV =>
      exact binary (a.sdiv b) (by decide) (hargs' hargs) h (if_neg (hdiv (.inl rfl)))
        (signedDiv_eq_some hv).symm
  | MOD =>
      exact binary (a.srem b) (by decide) (hargs' hargs) h (if_neg (hdiv (.inr rfl)))
        (signedRem_eq_some hv).symm
  | INC =>
      obtain rfl := unary hargs
      obtain ⟨n, hpush⟩ := popPush_ok (thenNext_ok h).2
      exact hostResult_of_push (by decide) hpush (signedAdd_eq_some hv).symm
  | DEC =>
      obtain rfl := unary hargs
      obtain ⟨n, hpush⟩ := popPush_ok (thenNext_ok h).2
      exact hostResult_of_push (by decide) hpush (signedSub_eq_some hv).symm
  | SHL =>
      obtain ⟨rfl, rfl⟩ := hargs' hargs
      obtain ⟨n, hpush⟩ := popPopPush_ok (thenNext_ok h).2
      exact hostResult_of_push (by decide) hpush (signedShl_eq_some hv).symm
  | SAR =>
      obtain ⟨rfl, rfl⟩ := hargs' hargs
      obtain ⟨n, hpush⟩ := popPopPush_ok (thenNext_ok h).2
      exact hostResult_of_push (by decide) hpush (signedShr_eq_some hv).symm
  | LINC =>
      rw [signedAdd_eq_some hv]
      exact localAdd_value (localArg hargs) h
  | LDEC =>
      rw [signedSub_eq_some hv, BitVec.sub_eq_add_neg]
      exact localAdd_value (localArg hargs) h
  | _ => cases hargs

/-! ## Every run -/

theorem Config.undefined_iff {c : Config W} : ¬ c.Undefined ↔ c.Fitting := by
  constructor
  · intro h m cur cs op a b hc hop hargs
    rw [← hostValue_isSome_iff hargs, Option.isSome_iff_ne_none]
    exact fun hnone => h ⟨m, cur, cs, op, a, b, hc, hop, hargs, hnone⟩
  · rintro h ⟨m, cur, cs, op, a, b, hc, hop, hargs, hnone⟩
    have hsome := (hostValue_isSome_iff hargs).mpr (h m cur cs op a b hc hop hargs)
    rw [hnone] at hsome
    cases hsome

/-- **Defined arithmetic.**  A run evaluates no undefined expression exactly when
    every arithmetic instruction it gets to has fitting operands. -/
theorem arithmetic_defined_iff (H : Host W) (m : Machine W) (bc : List Byte) (len : Nat) :
    (∀ c, Reaches H (.start m bc len) c → ¬ c.Undefined) ↔
      ∀ c, Reaches H (.start m bc len) c → c.Fitting :=
  forall₂_congr fun _ _ => Config.undefined_iff

/-- The blank VM with the smallest cell and `-1` on its data stack. -/
def divisionVm : Vm :=
  { Vm.blank with
    DS := Function.update (fun _ => -1) 0 (BitVec.intMin 32)
    sp := 2 }

/-- `DIV` then computes `INT32_MIN / -1`. -/
theorem division_undefined : ¬ ∀ c,
    Reaches Host.silent (.start (Machine.boot divisionVm) [0x13, 0x51] 2) c → ¬ c.Undefined := by
  intro h
  refine h _ .refl ⟨_, _, _, .DIV, BitVec.intMin 32, -1, rfl, rfl, rfl, ?_⟩
  decide

/-! ## Runs that evaluate no undefined expression -/

instance Op.decidableFitting (op : Op) (a b : Cell) : Decidable (op.Fitting a b) := by
  unfold Op.Fitting
  split <;> infer_instance

/-- The expression about to be evaluated, by its opcode and its operands. -/
def Config.expression : Config W → Option (Op × Cell × Cell)
  | .run m cur _ => cur.nextOp.bind fun op => (hostOperands m cur op).map (op, ·)
  | _ => none

theorem Config.fitting_iff {c : Config W} :
    c.Fitting ↔ ∀ x, c.expression = some x → x.1.Fitting x.2.1 x.2.2 := by
  constructor
  · rintro h ⟨op, a, b⟩ hx
    cases c with
    | run m cur cs =>
        obtain ⟨op', hop, hargs⟩ := Option.bind_eq_some_iff.mp hx
        obtain ⟨ab, hargs, heq⟩ := Option.map_eq_some_iff.mp hargs
        cases heq
        exact h m cur cs op a b rfl hop hargs
    | _ => cases hx
  · rintro h m cur cs op a b rfl hop hargs
    refine h (op, a, b) ?_
    simp only [Config.expression, hop, hargs, Option.bind_some, Option.map_some]

instance Config.decidableFitting : DecidablePred (Config.Fitting (W := W)) := fun c =>
  match hx : c.expression with
  | none => isTrue (Config.fitting_iff.mpr fun x h => by rw [hx] at h; cases h)
  | some x =>
      decidable_of_iff (x.1.Fitting x.2.1 x.2.2)
        ⟨fun h => Config.fitting_iff.mpr fun y hy => Option.some.inj (hx.symm.trans hy) ▸ h,
          fun h => Config.fitting_iff.mp h x hx⟩

/-- One step, unless it evaluates an undefined expression. -/
def definedStep (H : Host W) : Config W → Option (Config W) := guarded Config.Fitting (step H)

/-- Any number of steps, none of which evaluates an undefined expression. -/
abbrev DefinedReaches (H : Host W) : Config W → Config W → Prop :=
  Relation.ReflTransGen fun c d => definedStep H c = some d

/-- Nothing is evaluated on the way back to a caller. -/
theorem definedStep_ret (e : V4Err) (m : Machine W) (cs : List Caller) :
    definedStep H (.ret e m cs) = step H (.ret e m cs) :=
  guarded_of fun _ _ _ _ _ _ hc => by cases hc

theorem definedStep_of_undefined {c : Config W} (h : c.Undefined) : definedStep H c = none :=
  if_neg fun hfit => Config.undefined_iff.mpr hfit h

/-- A failure is handed out through all callers. -/
theorem ret_unwinds_defined {e : V4Err} (he : e ≠ 0) (cs : List Caller) (m : Machine W) :
    ∃ m', DefinedReaches H (.ret e m cs) (.ret e m' []) := by
  induction cs generalizing m with
  | nil => exact ⟨m, .refl⟩
  | cons x cs ih =>
      obtain ⟨m', hreach⟩ := ih (m.setFp x.oldFp)
      exact ⟨m', .head ((definedStep_ret e m (x :: cs)).trans (if_neg he)) hreach⟩

end V4Engine
