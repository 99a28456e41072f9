/-
  V4Engine.Vm.Snapshot

  What the panic handler is shown.

  `vm_panic` computes the depth of the data stack as an `int` and stores it in
  an 8-bit field before it copies the top of the stack.  The snapshot is the
  VM's state at every depth but one: a full data stack has depth 256, which the
  field holds as 0, so the report of a full stack shows an empty one
  (`panic_faithful_iff`).  That is the state of every overflow of a push.
-/
import V4Engine.Vm.HelperRules
import Mathlib.Tactic.FinCases

namespace V4Engine

open Lib FaultM VmM

variable {W : Type}

/-! ## What a report shows -/

/-- The report shows the depths and the top of the stacks of `vm`. -/
structure Shows (vm : Vm) (e : V4Err) (info : V4PanicInfo) : Prop where
  errorCode : info.errorCode = e
  dsDepth : info.dsDepth.toNat = vm.sp
  rsDepth : info.rsDepth.toNat = vm.rp
  hasStackData : info.hasStackData = true ↔ 0 < vm.sp
  stack : ∀ i : Fin 4, info.stack i = if i.val < vm.sp then vm.DS (vm.sp - 1 - i.val) else 0
  tos : info.tos = info.stack 0
  nos : info.nos = info.stack 1

/-- `vm_panic(e)` returns `e`, changes nothing by itself, and hands a registered handler
    a report that shows the VM as it is. -/
def PanicFaithful (H : Host W) (e : V4Err) (m : Machine W) : Prop :=
  match m.vm.panicHandler with
  | none => (vmPanic H e : VmM W Unit) m = .err e m
  | some handler => ∃ info, panicInfo m.vm e = some info ∧ Shows m.vm e info ∧
      (vmPanic H e : VmM W Unit) m = .err e
        (H.panic handler m.vm.panicUserData info { m with panicLog := info :: m.panicLog })

/-! ## The snapshot -/

/-- The `i`-th value from the top as the copying loop sees it: the loop stops at the
    8-bit depth. -/
def shownCell (vm : Vm) (i : Nat) : Cell :=
  if i < vm.sp % 256 then vm.DS (vm.sp - 1 - i) else 0

theorem panicStack_eq {vm : Vm} (h : vm.sp ≤ 256) (i : Fin 4) :
    panicStack vm (BitVec.ofNat 8 vm.sp) i = some (shownCell vm i.val) := by
  have hdepth : (BitVec.ofNat 8 vm.sp).toNat = vm.sp % 256 := BitVec.toNat_ofNat vm.sp 8
  rw [panicStack, shownCell, hdepth]
  by_cases hi : i.val < vm.sp % 256
  · have hlt : i.val < vm.sp := Nat.lt_of_lt_of_le hi (Nat.mod_le _ _)
    rw [if_pos hi, if_pos hi, vmDsPeekPublic, if_neg (by omega), if_pos (by omega)]
  · rw [if_neg hi, if_neg hi]

/-- The whole report, for a depth the stack can have. -/
theorem panicInfo_eq {vm : Vm} (h : vm.sp ≤ 256) (e : V4Err) :
    panicInfo vm e = some
      { errorCode := e, tos := shownCell vm 0, nos := shownCell vm 1
        dsDepth := BitVec.ofNat 8 vm.sp, rsDepth := BitVec.ofNat 8 vm.rp
        hasStackData := BitVec.ofNat 8 vm.sp > 0
        stack := ![shownCell vm 0, shownCell vm 1, shownCell vm 2, shownCell vm 3] } := by
  have hstack := panicStack_eq h
  simp only [panicInfo, hstack]
  rfl

/-- Below depth 256 the field holds the depth. -/
theorem shows_of_lt {vm : Vm} {e : V4Err} {info : V4PanicInfo} (hsp : vm.sp < 256)
    (hrp : vm.rp ≤ 64) (hinfo : panicInfo vm e = some info) : Shows vm e info := by
  rw [panicInfo_eq (by omega)] at hinfo
  obtain rfl := Option.some.inj hinfo
  have hmod : vm.sp % 256 = vm.sp := Nat.mod_eq_of_lt hsp
  refine ⟨rfl, ?_, ?_, ?_, fun i => ?_, rfl, rfl⟩
  · simpa using hmod
  · rw [BitVec.toNat_ofNat]
    omega
  · have hzero : (0 : BitVec 8).toNat = 0 := rfl
    simp only [decide_eq_true_eq, gt_iff_lt, BitVec.lt_def, BitVec.toNat_ofNat, hzero]
    omega
  · have hcell : ∀ i, shownCell vm i = if i < vm.sp then vm.DS (vm.sp - 1 - i) else 0 := by
      intro i
      rw [shownCell, hmod]
    fin_cases i <;> exact hcell _

/-- At depth 256 the report shows an empty stack. -/
theorem panicInfo_full {vm : Vm} {e : V4Err} {info : V4PanicInfo} (hsp : vm.sp = 256)
    (hinfo : panicInfo vm e = some info) :
    info.dsDepth = 0 ∧ info.hasStackData = false ∧ ∀ i, info.stack i = 0 := by
  rw [panicInfo_eq (by omega)] at hinfo
  obtain rfl := Option.some.inj hinfo
  have hcell : ∀ i, shownCell vm i = 0 := by
    intro i
    rw [shownCell, hsp]
    exact if_neg (by omega)
  refine ⟨by simp [hsp], by simp [hsp], fun i => ?_⟩
  fin_cases i <;> exact hcell _

/-! ## Panics -/

/-- A handler that is told of a full stack is told of depth 0, the low byte of 256. -/
theorem full_unfaithful {H : Host W} {e : V4Err} {m : Machine W} {handler : FnPtr}
    (hsp : m.vm.sp = 256) (hhandler : m.vm.panicHandler = some handler) :
    ¬ PanicFaithful H e m := by
  rw [PanicFaithful, hhandler]
  rintro ⟨info, hinfo, hshows, -⟩
  have hdepth := (panicInfo_full hsp hinfo).1
  have hshown := hshows.dsDepth
  rw [hdepth] at hshown
  change 0 = m.vm.sp at hshown
  omega

/-- **`vm_panic`.**  Its report is faithful exactly when nobody is told or the data
    stack is not full. -/
theorem panic_faithful_iff (H : Host W) (e : V4Err) (m : Machine W) (hsp : m.vm.sp ≤ 256)
    (hrp : m.vm.rp ≤ 64) :
    PanicFaithful H e m ↔ m.vm.panicHandler = none ∨ m.vm.sp < 256 := by
  obtain ⟨info, hinfo⟩ := Option.isSome_iff_exists.mp (panicInfo_isSome hsp e)
  have hrun : (vmPanic H e : VmM W Unit) m = .err e (m.notified H info) := by
    rw [vmPanic_run, hinfo]
  cases hhandler : m.vm.panicHandler with
  | none =>
      simp only [true_or, iff_true]
      rw [PanicFaithful, hhandler, hrun, Machine.notified, hhandler]
  | some handler =>
      simp only [reduceCtorEq, false_or]
      constructor
      · intro hfaithful
        by_contra hfull
        exact full_unfaithful (by omega) hhandler hfaithful
      · intro hlt
        rw [PanicFaithful, hhandler, hrun, Machine.notified, hhandler]
        exact ⟨info, hinfo, shows_of_lt hlt hrp hinfo, rfl⟩

/-- A failing push has a full stack, so its report is never the faithful one. -/
theorem dsPush_overflow_unfaithful (H : Host W) {m m' : Machine W} {v : Cell} {e : V4Err}
    {handler : FnPtr} (hsp : m.vm.sp ≤ 256)
    (hhandler : m.vm.panicHandler = some handler) (h : dsPush H v m = .err e m') :
    e = Err.stackOverflow.code ∧ ¬ PanicFaithful H e m := by
  change (if m.vm.sp ≥ 256 then _ else _ : VmM W Unit) m = _ at h
  by_cases hfull : m.vm.sp ≥ 256
  · rw [if_pos hfull, vmPanic_run] at h
    split at h
    · cases h
    · cases h
      exact ⟨rfl, full_unfaithful (by omega) hhandler⟩
  · rw [if_neg hfull] at h
    cases h

/-- A data stack of `n` sevens, a return stack of depth one, and a panic handler. -/
def sevens (n : Nat) : Machine Unit :=
  .boot { Vm.blank with DS := fun _ => 7, sp := n, rp := 1, panicHandler := some 0 }

/-- Three values are reported as three values. -/
theorem panic_faithful_at_three : PanicFaithful Host.silent Err.divByZero.code (sevens 3) :=
  (panic_faithful_iff Host.silent Err.divByZero.code (sevens 3) (by decide) (by decide)).mpr
    (.inr (by decide))

/-- The overflow of a full stack is reported with an empty one. -/
theorem panic_unfaithful_when_full :
    dsPush Host.silent 0 (sevens 256) = (vmPanic Host.silent Err.stackOverflow.code) (sevens 256) ∧
      (panicInfo (sevens 256).vm Err.stackOverflow.code).map
          (fun info => (info.dsDepth, info.hasStackData, info.tos)) = some (0, false, 0) ∧
      ¬ PanicFaithful Host.silent Err.stackOverflow.code (sevens 256) :=
  ⟨rfl, rfl, full_unfaithful rfl rfl⟩

end V4Engine
