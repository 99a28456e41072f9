/-
  V4Engine.Vm.TaskExit

  What runs after `TASK_EXIT`.

  The opcode leaves one activation of `vm_exec_raw` with the code of a normal
  return.  At the outermost activation that ends the run.  A caller takes it for
  the return of its `CALL` and goes on with the next instruction, although the
  task it runs for is gone.
-/
import V4Engine.Vm.RunRules

namespace V4Engine

open Lib FaultM VmM

variable {W : Type} {H : Host W}

/-- The activations of the words on the call chain, innermost first. -/
def Config.chain (c : Config W) : List Activation := c.current.toList ++ c.callers.map Caller.act

/-- Two activations run the code of one word. -/
def Activation.SameWord (a b : Activation) : Prop := a.bc = b.bc ∧ a.len = b.len

/-- The step from `c` to `d` executes a `TASK_EXIT`. -/
def ExitStep (H : Host W) (c d : Config W) : Prop :=
  (∃ a, c.instr = some a ∧ a.nextOp = some .TASK_EXIT) ∧ Step H c d ∧ d ≠ .fault

/-- From `d` on no instruction of the words on the call chain of `c` is executed. -/
def ChainEnds (H : Host W) (c d : Config W) : Prop :=
  ∀ e a, Reaches H d e → e.instr = some a → ∀ b ∈ c.chain, ¬ a.SameWord b

/-- No caller is suspended before an instruction: there is none, or the innermost
    one has come to the end of its code or to a byte that is no opcode. -/
def Config.NothingToResume (c : Config W) : Prop :=
  ∀ x, c.callers.head? = some x → x.act.nextOp = none

/-- `TASK_EXIT` leaves the switch by its return, or an array. -/
theorem fetch_exit {a : Activation} (hop : a.nextOp = some .TASK_EXIT) (m : Machine W) :
    fetch H a m = .fault ∨ ∃ m', fetch H a m = .ok .ret m' := by
  have hF := Effect.infallible_composable (ε := V4Err) (σ := Machine W)
  have hmeets : Meets (.infallible V4Err (Machine W)) (execOp H a (a.ip + 1) .TASK_EXIT)
      (· = .ret) :=
    .bind hF (infallible_task.taskMeets hF).exit fun _ _ => .pure hF rfl
  have hm := hmeets m trivial
  rw [fetch_run hop]
  cases hx : execOp H a (a.ip + 1) .TASK_EXIT m with
  | ok f m' =>
      rw [hx] at hm
      obtain rfl : f = .ret := hm.2
      exact .inr ⟨m', rfl⟩
  | err e m' =>
      rw [hx] at hm
      exact hm.elim
  | fault => exact .inl rfl

/-- What a `TASK_EXIT` leaves of the run: the return of its activation. -/
theorem ExitStep.cases {c d : Config W} (h : ExitStep H c d) :
    ∃ m cur cs m', c = .run m cur cs ∧ d = .ret 0 m' cs := by
  obtain ⟨⟨a, ha, hop⟩, hs, hne⟩ := h
  obtain ⟨m, cs, -, rfl, -⟩ := Config.instr_eq_some ha
  obtain rfl : settle a cs (fetch H a m) = d := Option.some.inj hs
  obtain hx | ⟨m', hx⟩ := fetch_exit (H := H) hop m
  · rw [hx] at hne
    exact absurd rfl hne
  · exact ⟨m, a, cs, m', rfl, by rw [hx]; rfl⟩

/-- A normal return is the end of the run when there is no caller to resume. -/
theorem instr_none_of_nothingToResume {m : Machine W} {cs : List Caller} {d : Config W}
    (h : (Config.ret 0 m cs).NothingToResume) (hd : Reaches H (.ret 0 m cs) d) :
    d.instr = none := by
  cases cs with
  | nil =>
      rw [hd.of_final rfl]
      rfl
  | cons x cs =>
      have hs : Step H (.ret 0 m (x :: cs)) (.run (m.setFp x.oldFp) x.act cs) := rfl
      rcases hd.cases_step hs with rfl | hd
      · rfl
      · exact instr_none_of_no_instr (h x rfl) hd

/-- **One exit.**  Nothing of the call chain runs on exactly when there is no caller
    to resume. -/
theorem ExitStep.chainEnds_iff {c d : Config W} (h : ExitStep H c d) :
    ChainEnds H c d ↔ c.NothingToResume := by
  obtain ⟨m, cur, cs, m', rfl, rfl⟩ := h.cases
  constructor
  · intro hend x hx
    obtain ⟨cs, rfl⟩ : ∃ tl, cs = x :: tl := ⟨_, List.eq_cons_of_mem_head? hx⟩
    have hs : Step H (.ret 0 m' (x :: cs)) (.run (m'.setFp x.oldFp) x.act cs) := rfl
    by_contra hsome
    obtain ⟨op, hop⟩ := Option.ne_none_iff_exists'.mp hsome
    have hmem : x.act ∈ Config.chain (.run m cur (x :: cs)) := by
      simp [Config.chain, Config.callers]
    exact hend _ x.act (.single hs) (Config.instr_run hop) x.act hmem ⟨rfl, rfl⟩
  · intro hnone e a he ha
    rw [instr_none_of_nothingToResume hnone he] at ha
    cases ha

/-- **Exits of a run.**  In every run `TASK_EXIT` ends its call chain exactly when
    each one is executed with no caller to resume. -/
theorem task_exit_ends_iff (H : Host W) (m : Machine W) (bc : List Byte) (len : Nat) :
    (∀ c d, Reaches H (.start m bc len) c → ExitStep H c d → ChainEnds H c d) ↔
      ∀ c d, Reaches H (.start m bc len) c → ExitStep H c d → c.NothingToResume := by
  constructor
  · intro h c d hc hexit
    exact hexit.chainEnds_iff.mp (h c d hc hexit)
  · intro h c d hc hexit
    exact hexit.chainEnds_iff.mpr (h c d hc hexit)

/-- A VM with two tasks whose only word is `TASK_EXIT`; the first one is running. -/
def exitVm : Vm :=
  { vmAfter [.spawn 0 1 0 0 true true, .spawn 0 1 0 0 true true, .schedule 0] with
    words := fun _ => ⟨some [0x91], 1⟩ }

/-- `CALL 0`, `LIT1`, `RET`: after the exit inside word 0 its caller goes on. -/
theorem caller_survives_exit : ¬ ∀ c d,
    Reaches Host.silent (.start (Machine.boot exitVm) [0x50, 0, 0, 0x74, 0x51] 5) c →
      ExitStep Host.silent c d → ChainEnds Host.silent c d := by
  intro h
  have hcall : Step Host.silent (.start (Machine.boot exitVm) [0x50, 0, 0, 0x74, 0x51] 5)
      (.run ((Machine.boot exitVm).setFp (some 0)) ⟨[0x91], 1, 0⟩
        [⟨⟨[0x50, 0, 0, 0x74, 0x51], 5, 3⟩, none⟩]) := rfl
  have hexit : ExitStep Host.silent (.run ((Machine.boot exitVm).setFp (some 0)) ⟨[0x91], 1, 0⟩
      [⟨⟨[0x50, 0, 0, 0x74, 0x51], 5, 3⟩, none⟩]) (settle ⟨[0x91], 1, 0⟩
        [⟨⟨[0x50, 0, 0, 0x74, 0x51], 5, 3⟩, none⟩]
        (fetch Host.silent ⟨[0x91], 1, 0⟩ ((Machine.boot exitVm).setFp (some 0)))) :=
    ⟨⟨_, rfl, rfl⟩, rfl, nofun⟩
  have hresume := hexit.chainEnds_iff.mp (h _ _ (.single hcall) hexit)
  cases hresume _ rfl

end V4Engine
