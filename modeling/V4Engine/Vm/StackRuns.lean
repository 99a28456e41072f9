/-
  V4Engine.Vm.StackRuns

  Exactly when a stack helper returns normally, and with what.

  Each helper has one equivalence: from `bind_eq_ok` and these, the normal
  returns of an instruction body are read off its source line by line, in either
  direction.
-/
import V4Engine.Vm.HelperRules

namespace V4Engine

open Lib FaultM VmM

variable {W : Type} {H : Host W} {m m' : Machine W} {v : Cell} {i : Nat}

/-! ## The machines they leave -/

/-- The machine after a push. -/
def Machine.pushed (m : Machine W) (v : Cell) : Machine W :=
  { m with vm := { m.vm with DS := Function.update m.vm.DS m.vm.sp v, sp := m.vm.sp + 1 } }

/-- The machine after a push on the return stack. -/
def Machine.rsPushed (m : Machine W) (v : Cell) : Machine W :=
  { m with vm := { m.vm with RS := Function.update m.vm.RS m.vm.rp v, rp := m.vm.rp + 1 } }

/-- The machine after a pop of the return stack. -/
def Machine.rsPopped (m : Machine W) : Machine W :=
  { m with vm := { m.vm with rp := m.vm.rp - 1 } }

/-- The machine after a store to slot `i` of the return stack. -/
def Machine.withRs (m : Machine W) (i : Nat) (v : Cell) : Machine W :=
  { m with vm := { m.vm with RS := Function.update m.vm.RS i v } }

@[simp] theorem popped_sp (m : Machine W) (n : Nat) : (m.popped n).vm.sp = m.vm.sp - n := rfl

@[simp] theorem pushed_sp (m : Machine W) (v : Cell) : (m.pushed v).vm.sp = m.vm.sp + 1 := rfl

@[simp] theorem popped_popped (m : Machine W) (n k : Nat) :
    (m.popped n).popped k = m.popped (n + k) := by
  simp only [Machine.popped, Nat.sub_sub]

@[simp] theorem popped_operand (m : Machine W) (n i : Nat) :
    (m.popped n).operand i = m.operand (n + i) := by
  show m.vm.DS (m.vm.sp - n - 1 - i) = m.vm.DS (m.vm.sp - 1 - (n + i))
  congr 1
  omega

@[simp] theorem pushed_operand (m : Machine W) (v : Cell) : (m.pushed v).operand 0 = v :=
  Function.update_self ..

/-- A push, and the stack below it. -/
theorem pushed_operand_succ (m : Machine W) (v : Cell) (hi : i < m.vm.sp) :
    (m.pushed v).operand (i + 1) = m.operand i := by
  show Function.update m.vm.DS m.vm.sp v (m.vm.sp + 1 - 1 - (i + 1)) = m.vm.DS (m.vm.sp - 1 - i)
  rw [Function.update_of_ne (by omega)]
  congr 1
  omega

/-! ## Checks and slots -/

/-- A panic is never a normal return. -/
theorem vmPanic_ne_ok {α : Type} {e : V4Err} {a : α} : (vmPanic H e : VmM W α) m ≠ .ok a m' := by
  intro h
  rw [vmPanic_run] at h
  split at h <;> cases h

/-- Code behind a check that panics. -/
theorem checked_eq_ok {α : Type} {e : V4Err} {c : Prop} [Decidable c] {x : VmM W α} {a : α} :
    (if c then vmPanic H e else x : VmM W α) m = .ok a m' ↔ ¬ c ∧ x m = .ok a m' := by
  by_cases hc : c
  · rw [if_pos hc]
    exact iff_of_false vmPanic_ne_ok (fun h => h.1 hc)
  · rw [if_neg hc]
    exact (and_iff_right hc).symm

theorem slot_eq_ok {α : Type} {cap : Nat} {f : Nat → α} {a : α} :
    (slot cap f i : VmM W α) m = .ok a m' ↔ i < cap ∧ a = f i ∧ m' = m := by
  unfold slot
  by_cases hi : i < cap
  · rw [if_pos hi]
    constructor
    · intro h
      cases h
      exact ⟨hi, rfl, rfl⟩
    · rintro ⟨-, rfl, rfl⟩
      rfl
  · rw [if_neg hi]
    exact iff_of_false (fun h => by cases h) (fun h => hi h.1)

theorem modifyVm_eq_ok {f : Vm → Vm} {u : Unit} :
    (modifyVm f : VmM W Unit) m = .ok u m' ↔ m' = { m with vm := f m.vm } := by
  constructor
  · intro h
    cases h
    rfl
  · rintro rfl
    rfl

/-! ## Data stack -/

theorem dsPush_eq_ok {u : Unit} :
    dsPush H v m = .ok u m' ↔ m.vm.sp < 256 ∧ m' = m.pushed v := by
  show (if m.vm.sp ≥ 256 then _ else _ : VmM W Unit) m = _ ↔ _
  rw [checked_eq_ok, modifyVm_eq_ok, Nat.not_le]
  rfl

theorem dsPop_eq_ok :
    dsPop H m = .ok v m' ↔
      (0 < m.vm.sp ∧ m.vm.sp ≤ 256) ∧ v = m.operand 0 ∧ m' = m.popped 1 := by
  constructor
  · intro h
    have hlt := dsPop_lt h
    obtain ⟨hpos, rfl⟩ := dsPop_ok h
    obtain ⟨rfl, -⟩ := dsPop_value h
    change m.vm.sp - 1 < 256 at hlt
    exact ⟨⟨hpos, by omega⟩, rfl, rfl⟩
  · rintro ⟨⟨hpos, hfit⟩, rfl, rfl⟩
    show (if m.vm.sp ≤ 0 then _ else _ : VmM W Cell) m = _
    rw [if_neg (by omega), slot, if_pos (by omega)]
    rfl

/-- The first of several pops. -/
theorem dsPop_run_first (h : 0 < m.vm.sp) (hfit : m.vm.sp ≤ 256) :
    dsPop H m = .ok (m.operand 0) (m.popped 1) := dsPop_eq_ok.mpr ⟨⟨h, hfit⟩, rfl, rfl⟩

/-- The pop after `k` others. -/
theorem dsPop_run_next {k : Nat} (h : k < m.vm.sp) (hfit : m.vm.sp ≤ 256) :
    dsPop H (m.popped k) = .ok (m.operand k) (m.popped (k + 1)) := by
  refine dsPop_eq_ok.mpr ⟨?_, by simp, by simp⟩
  simp only [popped_sp]
  omega

theorem dsPeek_eq_ok :
    dsPeek H i m = .ok v m' ↔
      (i < m.vm.sp ∧ m.vm.sp - 1 - i < 256) ∧ v = m.operand i ∧ m' = m := by
  show (if m.vm.sp < 1 + i then _ else _ : VmM W Cell) m = _ ↔ _
  rw [checked_eq_ok, slot_eq_ok, Machine.operand, and_assoc]
  refine and_congr_left fun _ => ?_
  omega

/-! ## Return stack -/

theorem rsPush_eq_ok {u : Unit} :
    rsPush H v m = .ok u m' ↔ m.vm.rp < 64 ∧ m' = m.rsPushed v := by
  show (if m.vm.rp ≥ 64 then _ else _ : VmM W Unit) m = _ ↔ _
  rw [checked_eq_ok, modifyVm_eq_ok, Nat.not_le]
  rfl

theorem rsPop_eq_ok :
    rsPop H m = .ok v m' ↔
      (0 < m.vm.rp ∧ m.vm.rp ≤ 64) ∧ v = m.vm.RS (m.vm.rp - 1) ∧ m' = m.rsPopped := by
  show (if m.vm.rp ≤ 0 then _ else _ : VmM W Cell) m = _ ↔ _
  rw [checked_eq_ok, bind_eq_ok]
  constructor
  · rintro ⟨hpos, a, s, hslot, hrest⟩
    obtain ⟨hlt, rfl, rfl⟩ := slot_eq_ok.mp hslot
    cases hrest
    exact ⟨by omega, rfl, rfl⟩
  · rintro ⟨hfit, rfl, rfl⟩
    exact ⟨by omega, _, m, slot_eq_ok.mpr ⟨by omega, rfl, rfl⟩, rfl⟩

theorem rsPeek_eq_ok :
    rsPeek H i m = .ok v m' ↔
      (i < m.vm.rp ∧ m.vm.rp - 1 - i < 64) ∧ v = m.vm.RS (m.vm.rp - 1 - i) ∧ m' = m := by
  show (if m.vm.rp < 1 + i then _ else _ : VmM W Cell) m = _ ↔ _
  rw [checked_eq_ok, slot_eq_ok, and_assoc]
  refine and_congr_left fun _ => ?_
  omega

/-! ## Local variables -/

theorem getRs_eq_ok : getRs i m = .ok v m' ↔ i < 64 ∧ v = m.vm.RS i ∧ m' = m := by
  show (if i < 64 then _ else _ : Outcome V4Err (Machine W) Cell) = _ ↔ _
  by_cases hi : i < 64
  · rw [if_pos hi]
    constructor
    · intro h
      cases h
      exact ⟨hi, rfl, rfl⟩
    · rintro ⟨-, rfl, rfl⟩
      rfl
  · rw [if_neg hi]
    exact iff_of_false (fun h => by cases h) (fun h => hi h.1)

theorem setRs_eq_ok {u : Unit} : setRs i v m = .ok u m' ↔ i < 64 ∧ m' = m.withRs i v := by
  show (if i < 64 then _ else _ : Outcome V4Err (Machine W) Unit) = _ ↔ _
  by_cases hi : i < 64
  · rw [if_pos hi]
    constructor
    · intro h
      cases h
      exact ⟨hi, rfl⟩
    · rintro ⟨-, rfl⟩
      rfl
  · rw [if_neg hi]
    exact iff_of_false (fun h => by cases h) (fun h => hi h.1)

theorem localSlot_eq_ok {idx : Nat} :
    localSlot H idx m = .ok i m' ↔
      ∃ fp, m.vm.fp = some fp ∧ fp + idx < m.vm.rp ∧ i = fp + idx ∧ m' = m := by
  cases hfp : m.vm.fp with
  | none =>
      rw [localSlot_none hfp]
      exact iff_of_false vmPanic_ne_ok (by simp)
  | some fp =>
      rw [localSlot_some hfp, checked_eq_ok, Nat.not_le]
      constructor
      · rintro ⟨hlt, h⟩
        cases h
        exact ⟨fp, rfl, hlt, rfl, rfl⟩
      · rintro ⟨_, heq, hlt, rfl, rfl⟩
        cases heq
        exact ⟨hlt, rfl⟩

end V4Engine
