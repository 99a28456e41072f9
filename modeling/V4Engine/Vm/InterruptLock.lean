/-
  V4Engine.Vm.InterruptLock

  The platform's interrupt lock and the nesting counter.

  `vm_task_critical_enter` takes the lock every time, `vm_task_critical_exit` gives it
  back only when the counter returns to zero.  So one level of sections is balanced
  and two are not: `interrupt_lock_balanced_iff`.
-/
import V4Engine.Vm.Interp
import V4Engine.Lib.Brackets

namespace V4Engine

open Lib

variable {W : Type} {H : Host W}

/-- The platform implements a nesting lock; interrupts are enabled at depth zero. -/
structure NestingLock (H : Host W) (depth : W → Nat) : Prop where
  enter : ∀ w, depth (H.criticalEnter w) = depth w + 1
  exit : ∀ w, 0 < depth w → depth (H.criticalExit w) = depth w - 1

/-- The call an enter or an exit stands for. -/
def lockCall (H : Host W) : Bracket → VmM W Unit
  | .enter => criticalEnter H
  | .exit => criticalExit H

def lockCalls (H : Host W) : List Bracket → VmM W Unit
  | [] => pure ()
  | b :: ops => do
      lockCall H b
      lockCalls H ops

/-- What is expected of the lock after a sequence of calls: interrupts are enabled
    exactly outside every section, in particular after a matched sequence. -/
def LockBalanced (depth : W → Nat) (ops : List Bracket) (m : Machine W) : Prop :=
  (depth m.world = 0 ↔ m.vm.scheduler.criticalNesting = 0) ∧ (Matched ops → depth m.world = 0)

/-- Nesting counter and lock depth. -/
def lockState (depth : W → Nat) (m : Machine W) : Nat × Nat :=
  (m.vm.scheduler.criticalNesting.toNat, depth m.world)

theorem lockStep_le {N : Nat} {s : Nat × Nat} (h : s.1 ≤ s.2) (b : Bracket) :
    (lockStep N s b).1 ≤ (lockStep N s b).2 := by
  cases b with
  | enter =>
      have := Nat.mod_le (s.1 + 1) N
      simp only [lockStep]
      omega
  | exit =>
      rw [lockStep]
      split
      · simp only
        split <;> omega
      · exact h

variable {depth : W → Nat}

/-- **One call.** -/
theorem lockCall_run (L : NestingLock H depth) {m : Machine W}
    (h : (lockState depth m).1 ≤ (lockState depth m).2) (b : Bracket) :
    ∃ m', lockCall H b m = .ok () m' ∧
      lockState depth m' = lockStep 256 (lockState depth m) b := by
  cases b with
  | enter =>
      refine ⟨_, rfl, Prod.ext ?_ (L.enter m.world)⟩
      exact BitVec.toNat_add ..
  | exit =>
      refine ⟨_, rfl, ?_⟩
      simp only [lockState] at h ⊢
      rw [lockStep, vmTaskCriticalExit]
      by_cases hin : m.vm.scheduler.criticalNesting > 0
      · have hpos : m.vm.scheduler.criticalNesting.toNat > 0 := by bv_omega
        have hsub : (m.vm.scheduler.criticalNesting - 1).toNat
            = m.vm.scheduler.criticalNesting.toNat - 1 := by bv_omega
        rw [if_pos hin, if_pos hpos]
        refine Prod.ext hsub ?_
        by_cases hlast : m.vm.scheduler.criticalNesting - 1 = 0
        · -- the outermost exit gives the lock back
          have hzero : m.vm.scheduler.criticalNesting.toNat - 1 = 0 := by
            rw [← hsub, hlast]
            rfl
          simp only [hlast, hzero, decide_true, if_true]
          exact L.exit m.world (by omega)
        · have hne : m.vm.scheduler.criticalNesting.toNat - 1 ≠ 0 := by
            rw [← hsub]
            exact fun h => hlast (BitVec.eq_of_toNat_eq h)
          simp only [hlast, hne, decide_false, if_false, Bool.false_eq_true]
      · have hpos : ¬ m.vm.scheduler.criticalNesting.toNat > 0 := by bv_omega
        rw [if_neg hin, if_neg hpos]
        rfl

/-- **A sequence of calls** drives the two counts. -/
theorem lockCalls_run (L : NestingLock H depth) (ops : List Bracket) {m : Machine W}
    (h : (lockState depth m).1 ≤ (lockState depth m).2) :
    ∃ m', lockCalls H ops m = .ok () m' ∧
      lockState depth m' = ops.foldl (lockStep 256) (lockState depth m) := by
  induction ops generalizing m with
  | nil => exact ⟨m, rfl, rfl⟩
  | cons b ops ih =>
      obtain ⟨mid, hcall, hmid⟩ := lockCall_run L h b
      obtain ⟨m', hrest, hm'⟩ := ih (m := mid) (by rw [hmid]; exact lockStep_le h b)
      refine ⟨m', ?_, ?_⟩
      · rw [lockCalls, FaultM.bind_run, hcall]
        exact hrest
      · rw [hm', hmid]
        rfl

/-- **The interrupt lock.**  From depth zero it is balanced after exactly the sequences
    that end inside a section or never enter a section directly inside another. -/
theorem interrupt_lock_balanced_iff (L : NestingLock H depth) {m : Machine W}
    (hdepth : depth m.world = 0) (hnesting : m.vm.scheduler.criticalNesting = 0)
    (ops : List Bracket) : ∃ m', lockCalls H ops m = .ok () m' ∧
      (LockBalanced depth ops m' ↔ ¬ Forgotten 256 ops ∨ ¬ NestedEnter ops) := by
  have hstart : lockState depth m = (0, 0) := by
    rw [lockState, hdepth, hnesting]
    rfl
  obtain ⟨m', hrun, hstate⟩ := lockCalls_run L ops (m := m) (by rw [hstart])
  refine ⟨m', hrun, ?_⟩
  rw [hstart] at hstate
  have hcount : m'.vm.scheduler.criticalNesting.toNat = (lock 256 ops).1 :=
    congrArg Prod.fst hstate
  have hlock : depth m'.world = (lock 256 ops).2 := congrArg Prod.snd hstate
  have hzero : m'.vm.scheduler.criticalNesting = 0 ↔ (lock 256 ops).1 = 0 := by
    rw [← hcount]
    exact ⟨fun h => by rw [h]; rfl, fun h => BitVec.eq_of_toNat_eq h⟩
  rw [← lock_free_iff (by decide), LockBalanced, hzero, hlock]
  refine and_iff_left_of_imp fun hfree hmatched => hfree.mpr ?_
  rw [lock_fst]
  exact hmatched.counter_eq 256

/-- A platform whose world is the depth of its lock. -/
def Host.locking : Host Nat where
  sys _ _ _ _ _ m := (0, m)
  panic _ _ _ m := m
  read32 _ _ _ out m := (0, out, m)
  write32 _ _ _ _ m := (0, m)
  criticalEnter depth := depth + 1
  criticalExit depth := depth - 1
  tick _ := 0
  malloc _ := true
  indet _ := 0

/-- A machine on that platform, interrupts enabled. -/
def Machine.unlocked : Machine Nat :=
  { vm := .blank, world := 0, gSysHandler := none, tickNo := 0, mallocNo := 0, indetNo := 0,
    panicLog := [] }

theorem Host.locking_nests : NestingLock Host.locking id := ⟨fun _ => rfl, fun _ _ => rfl⟩

/-- Two sections one after the other. -/
theorem interrupt_lock_two_sections : ∃ m',
    lockCalls Host.locking [.enter, .exit, .enter, .exit] Machine.unlocked = .ok () m' ∧
      LockBalanced id [.enter, .exit, .enter, .exit] m' := by
  obtain ⟨m', hrun, hiff⟩ := interrupt_lock_balanced_iff Host.locking_nests
    (m := Machine.unlocked) rfl rfl [.enter, .exit, .enter, .exit]
  exact ⟨m', hrun, hiff.mpr (.inr (by decide))⟩

/-- After two nested sections the counter is zero and interrupts stay disabled. -/
theorem interrupt_lock_two_nested : ∃ m',
    lockCalls Host.locking [.enter, .enter, .exit, .exit] Machine.unlocked = .ok () m' ∧
      m'.vm.scheduler.criticalNesting = 0 ∧ m'.world = 1 ∧
      Matched [.enter, .enter, .exit, .exit] ∧
      ¬ LockBalanced id [.enter, .enter, .exit, .exit] m' := by
  have hprefixes : ∀ l ∈ [Bracket.enter, .enter, .exit, .exit].inits, 0 ≤ net l := by decide
  refine ⟨_, rfl, rfl, rfl, ⟨fun l hl => hprefixes l ((List.mem_inits l _).mpr hl), rfl⟩, ?_⟩
  rintro ⟨hfree, -⟩
  exact absurd (hfree.mpr rfl) (by decide)

end V4Engine
