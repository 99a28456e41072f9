/-
  V4Engine.Vm.Machine

  Runs of `vm_exec_raw`, one instruction at a time.

  The C++ recursion of `CALL` becomes an explicit list of suspended callers,
  innermost first, each with the frame pointer to put back.  A configuration
  is about to run an instruction, polling inside a blocking receive, leaving
  an activation with a result code, or faulted (an access outside an array).

  `step` is deterministic and partial: it is undefined on a fault and on a
  result handed to the outside, the two ways a run ends.
-/
import V4Engine.Lib.Iterate
import V4Engine.Vm.Interp
import Mathlib.Logic.Relation
import Mathlib.Data.List.Chain

namespace V4Engine

open Lib FaultM VmM

variable {W : Type}

/-- A suspended activation: `act.ip` is past the `CALL`, `oldFp` the local
    variable `old_fp` of its `case`. -/
structure Caller where
  act : Activation
  oldFp : Option Nat
  deriving DecidableEq, Repr

inductive Config (W : Type) where
  | run (m : Machine W) (cur : Activation) (callers : List Caller)
  | poll (w : Waiting) (m : Machine W) (cur : Activation) (callers : List Caller)
  | ret (e : V4Err) (m : Machine W) (callers : List Caller)
  | fault

/-- `vm->fp = fp`. -/
def Machine.setFp (m : Machine W) (fp : Option Nat) : Machine W :=
  { m with vm := { m.vm with fp := fp } }

/-! ## One step -/

/-- One turn of `while (ip < ip_end)`: an instruction, or the panic after the loop. -/
def fetch (H : Host W) (cur : Activation) : VmM W Flow :=
  if cur.ip < cur.len then execInstr H cur else vmPanic H Err.fellOffEnd.code

/-- One poll of a blocking receive; `m.tickNo` readings precede it. -/
def pollQueue (H : Host W) (w : Waiting) : VmM W Poll := fun m =>
  match receiveBlockingPoll (fun i => H.tick (m.tickNo + i)) w.msgType w.timeoutMs w.start 0
      m.vm with
  | some (p, n, vm) => .ok p { m with vm := vm, tickNo := m.tickNo + n }
  | none => .fault

/-- What the instruction does with the answer of one poll. -/
def pollOnce (H : Host W) (w : Waiting) (ip : Nat) : VmM W Flow := do
  match ← pollQueue H w with
  | .received data src => thenNext ip (pushReceived H (some (data, src)))
  | .timeout => thenNext ip (pushReceived H none)
  | .again => return .wait w ip

/-- The configuration after an instruction of activation `cur`. -/
def settle (cur : Activation) (callers : List Caller) :
    Outcome V4Err (Machine W) Flow → Config W
  | .ok (.next ip) m => .run m { cur with ip := ip } callers
  | .ok .ret m => .ret 0 m callers
  | .ok (.call c ip) m =>
      .run (m.setFp (some m.vm.rp)) c (⟨{ cur with ip := ip }, m.vm.fp⟩ :: callers)
  | .ok (.wait w ip) m => .poll w m { cur with ip := ip } callers
  | .err e m => .ret e m callers
  | .fault => .fault

def step (H : Host W) : Config W → Option (Config W)
  | .run m cur callers => some (settle cur callers (fetch H cur m))
  | .poll w m cur callers => some (settle cur callers (pollOnce H w cur.ip m))
  | .ret e m (c :: callers) =>
      -- The caller restores its frame pointer before it looks at the result.
      if e = 0 then some (.run (m.setFp c.oldFp) c.act callers)
      else some (.ret e (m.setFp c.oldFp) callers)
  | .ret _ _ [] => none
  | .fault => none

/-! ## Runs -/

/-- One step as a relation. -/
def Step (H : Host W) (c c' : Config W) : Prop := step H c = some c'

/-- Any number of steps. -/
abbrev Reaches (H : Host W) : Config W → Config W → Prop := Relation.ReflTransGen (Step H)

/-- The configuration in which `vm_exec_raw(vm, bc, len)` starts. -/
def Config.start (m : Machine W) (bc : List Byte) (len : Nat) : Config W := .run m ⟨bc, len, 0⟩ []

/-- `vm_exec_raw` returns `e`, leaving machine `m'`. -/
def Returns (H : Host W) (m : Machine W) (bc : List Byte) (len : Nat) (e : V4Err)
    (m' : Machine W) : Prop := Reaches H (.start m bc len) (.ret e m' [])

/-- The machine a configuration holds. -/
def Config.machine : Config W → Option (Machine W)
  | .run m _ _ => some m
  | .poll _ m _ _ => some m
  | .ret _ m _ => some m
  | .fault => none

/-- The suspended callers, innermost first. -/
def Config.callers : Config W → List Caller
  | .run _ _ cs => cs
  | .poll _ _ _ cs => cs
  | .ret _ _ cs => cs
  | .fault => []

/-- The activation an instruction of which runs next. -/
def Config.current : Config W → Option Activation
  | .run _ cur _ => some cur
  | .poll _ _ cur _ => some cur
  | _ => none

theorem Step.functional {H : Host W} {c d d' : Config W} (h : Step H c d) (h' : Step H c d') :
    d = d' := Option.some.inj (h.symm.trans h')

/-- **Inversion.**  The four kinds of step. -/
theorem Step.cases {H : Host W} {c c' : Config W} (h : Step H c c') :
    (∃ m cur cs, c = .run m cur cs ∧ c' = settle cur cs (fetch H cur m)) ∨
    (∃ w m cur cs, c = .poll w m cur cs ∧ c' = settle cur cs (pollOnce H w cur.ip m)) ∨
    (∃ m x cs, c = .ret 0 m (x :: cs) ∧ c' = .run (m.setFp x.oldFp) x.act cs) ∨
    (∃ e m x cs, e ≠ 0 ∧ c = .ret e m (x :: cs) ∧ c' = .ret e (m.setFp x.oldFp) cs) := by
  match c, h with
  | .run m cur cs, h => exact .inl ⟨m, cur, cs, rfl, (Option.some.inj h).symm⟩
  | .poll w m cur cs, h => exact .inr (.inl ⟨w, m, cur, cs, rfl, (Option.some.inj h).symm⟩)
  | .ret e m (x :: cs), h =>
      by_cases he : e = 0
      · subst he
        exact .inr (.inr (.inl ⟨m, x, cs, rfl, (Option.some.inj h).symm⟩))
      · refine .inr (.inr (.inr ⟨e, m, x, cs, he, rfl, ?_⟩))
        rw [Step, step, if_neg he] at h
        exact (Option.some.inj h).symm

/-- The two ways a run ends. -/
theorem step_eq_none {H : Host W} {c : Config W} (h : step H c = none) :
    c = .fault ∨ ∃ e m, c = .ret e m [] := by
  cases c with
  | fault => exact .inl rfl
  | ret e m cs =>
      cases cs with
      | nil => exact .inr ⟨e, m, rfl⟩
      | cons x cs =>
          by_cases he : e = 0
          · rw [step, if_pos he] at h
            cases h
          · rw [step, if_neg he] at h
            cases h
  | _ => cases h

/-- A run is its first step and the run from there. -/
theorem Reaches.cases_step {H : Host W} {c c1 d : Config W} (hs : Step H c c1)
    (h : Reaches H c d) : d = c ∨ Reaches H c1 d := by
  rcases Relation.ReflTransGen.cases_head h with heq | ⟨c1', hs', hrest⟩
  · exact .inl heq.symm
  · exact .inr (hs.functional hs' ▸ hrest)

/-- A configuration without a next step is the end of the run. -/
theorem Reaches.of_final {H : Host W} {c d : Config W} (hc : step H c = none)
    (h : Reaches H c d) : d = c := by
  rcases Relation.ReflTransGen.cases_head h with heq | ⟨c1, hs, -⟩
  · exact heq.symm
  · rw [Step, hc] at hs
    cases hs

/-- A run has at most one end. -/
theorem Reaches.unique_end {H : Host W} {c d d' : Config W} (h : Reaches H c d)
    (hd : step H d = none) (h' : Reaches H c d') (hd' : step H d' = none) : d' = d :=
  final_unique h hd h' hd'

/-- **Run rule.**  What every step preserves holds of every reachable configuration. -/
theorem Reaches.invariant {H : Host W} {I : Config W → Prop}
    (hstep : ∀ c c', I c → Step H c c' → I c') {c c' : Config W} (hc : I c)
    (h : Reaches H c c') : I c' := by
  induction h with
  | refl => exact hc
  | tail _ hs ih => exact hstep _ _ ih hs

/-- **Trace rule.**  What every step between configurations satisfying `Q` preserves
    holds all along a trace of such configurations. -/
theorem trace_invariant {H : Host W} {I Q : Config W → Prop}
    (hstep : ∀ c d, I c → Q c → Q d → Step H c d → I d) {l : List (Config W)} {c : Config W}
    (hl : (c :: l).IsChain (Step H)) (hQ : ∀ x ∈ c :: l, Q x) (hc : I c) : ∀ x ∈ c :: l, I x := by
  induction l generalizing c with
  | nil =>
      intro x hx
      rw [List.mem_singleton.mp hx]
      exact hc
  | cons d l ih =>
      obtain ⟨hcd, hl⟩ := List.isChain_cons_cons.mp hl
      have hd : I d := hstep c d hc (hQ c List.mem_cons_self)
        (hQ d (List.mem_cons_of_mem c List.mem_cons_self)) hcd
      intro x hx
      rcases List.mem_cons.mp hx with rfl | hx
      · exact hc
      · exact ih hl (fun y hy => hQ y (List.mem_cons_of_mem c hy)) hd x hx

end V4Engine
