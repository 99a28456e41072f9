/-
  V4Engine.Vm.ResumePoint

  Whose code runs after a task switch.

  `vm_schedule` exchanges the stacks under the interpreter.  The instruction
  pointer and the code pointer are locals of the running `vm_exec_raw`, which no
  switch touches.  `sessionStep` lets the host run any number of entry words, and
  notes for each task where it is to go on: at the start of its word after the
  spawn, behind the instruction it was descheduled at later on.  The first
  switch of a session that is followed by an instruction at all goes on elsewhere.
-/
import V4Engine.Vm.TaskExit
import V4Engine.Task.Frame
import V4Engine.Lib.Runs

namespace V4Engine

open Lib FaultM VmM

variable {W : Type} {H : Host W}

/-! ## The law -/

/-- Where each task is to go on. -/
abbrev ResumePoints := Fin 8 → Option Activation

/-- The start of the word a task was spawned for. -/
def Vm.entry (vm : Vm) (i : Fin 8) : Option Activation :=
  let word := vm.words (vm.task i).wordIdx.toNat
  word.code.map fun code => ⟨code, word.codeLen.toNat, 0⟩

/-- The notes on tasks that have been spawned and never run. -/
def Vm.spawned (vm : Vm) : ResumePoints := fun i =>
  if (vm.task i).state = .dead then none else vm.entry i

/-- The notes after a step from `vm` to `vm'` that leaves the interpreter before
    `next`: a task just spawned is to start its word, the task just descheduled is
    to go on where the interpreter stands. -/
def noted (vm vm' : Vm) (next : Option Activation) (ρ : ResumePoints) : ResumePoints := fun i =>
  if (vm.task i).state = .dead ∧ (vm'.task i).state = .ready then vm'.entry i
  else if vm.IsCurrent i ∧ ¬ vm'.IsCurrent i then next
  else ρ i

/-- What happens after the tasks have been spawned: calls of `vm_exec_raw`, one after
    the other, the steps of the interpreter, and more spawns between the calls. -/
inductive SessionAct where
  | exec (bc : List Byte) (len : Nat)
  | step
  | spawn (w : BitVec 16) (p : BitVec 8) (ds rs : BitVec 16) (dsOk rsOk : Bool)

/-- The interpreter, and where each task is to go on. -/
structure SessionState (W : Type) where
  config : Config W
  resume : ResumePoints

/-- The tasks of `m` have been spawned, and the interpreter is idle. -/
def SessionState.begin (m : Machine W) : SessionState W := ⟨.ret 0 m [], m.vm.spawned⟩

/-- Only an idle interpreter is called, and only a call has steps. -/
def sessionStep (H : Host W) (act : SessionAct) (s : SessionState W) : Option (SessionState W) :=
  match act with
  | .exec bc len =>
      match s.config with
      | .ret _ n [] => some ⟨.start n bc len, s.resume⟩
      | _ => none
  | .step => do
      let n ← s.config.machine
      let d ← step H s.config
      let n' ← d.machine
      some ⟨d, noted n.vm n'.vm d.current s.resume⟩
  | .spawn w p ds rs dsOk rsOk =>
      match s.config with
      | .ret e n [] =>
          let vm := (v4BackendTaskSpawn w p ds rs dsOk rsOk n.vm).2
          some ⟨.ret e { n with vm := vm } [], noted n.vm vm none s.resume⟩
      | _ => none

/-- The opcodes that give up the processor. -/
def Op.switches (op : Op) : Bool := op ∈ [Op.TASK_YIELD, .TASK_SLEEP, .TASK_EXIT]

/-- One of these opcodes succeeds and makes the live task `t` current, which was not. -/
structure SwitchStep (H : Host W) (c d : Config W) (t : Fin 8) : Prop where
  opcode : ∃ a op, c.instr = some a ∧ a.nextOp = some op ∧ op.switches = true
  step : Step H c d
  success : ∀ e n cs, d = .ret e n cs → e = 0
  changes : ∃ n n', c.machine = some n ∧ d.machine = some n' ∧ ¬ n.vm.IsCurrent t ∧
    n'.vm.IsCurrent t ∧ (n'.vm.task t).state ≠ .dead

/-- The first instruction executed from `d` on is the one at `a`. -/
def NextInstr (H : Host W) (d : Config W) (a : Activation) : Prop :=
  ∃ e, Relation.ReflTransGen (fun x y => x.instr = none ∧ Step H x y) d e ∧ e.instr = some a

/-- From `d` on the interpreter goes on where task `t` is to go on. -/
def FollowsTask (H : Host W) (ρ : ResumePoints) (d : Config W) (t : Fin 8) : Prop :=
  ∀ a, NextInstr H d a → ρ t = some a

/-- The activation behind an opcode without immediate. -/
def Activation.skip (a : Activation) : Activation := { a with ip := a.ip + 1 }

/-- What is expected of one step of a session: when it switches to a live task, the
    interpreter goes on where that task is to go on. -/
def CodeFollows (H : Host W) (s : SessionState W) (_ : SessionAct) (s' : SessionState W) : Prop :=
  ∀ t, SwitchStep H s.config s'.config t → FollowsTask H s.resume s'.config t

/-- The instruction `c` is about to execute is the last one of its run: an exit with
    no caller to resume, another opcode with no instruction behind it. -/
def Config.IsLast (c : Config W) : Prop :=
  ∀ a op, c.instr = some a → a.nextOp = some op →
    if op = .TASK_EXIT then c.NothingToResume else a.skip.nextOp = none

/-- An instruction that switches to a live task is the last one of its run. -/
def SwitchIsLast (H : Host W) (s : SessionState W) (act : SessionAct) : Prop :=
  act = .step → ∀ d t, SwitchStep H s.config d t → s.config.IsLast

/-! ## One switch -/

/-- The current task stays, or a RUNNING one takes its place. -/
def Vm.Moves (vm vm' : Vm) : Prop :=
  vm'.scheduler.currentTask = vm.scheduler.currentTask ∨
    ∃ t, vm'.IsCurrent t ∧ (vm'.task t).state = .running

theorem vmSchedule_moves {tick : BitVec 32} {vm vm' : Vm} (h : vmSchedule tick vm = some vm') :
    vm.Moves vm' := by
  simp only [vmSchedule, Option.bind_eq_bind, Option.bind_eq_some_iff] at h
  obtain ⟨cur, -, v, hpark, hrest⟩ := h
  have hcur := (parkCurrent_keeps hpark).1
  split at hrest
  · cases hrest
    exact .inl hcur
  · obtain ⟨next, -, hswitch⟩ := Option.bind_eq_some_iff.mp hrest
    obtain ⟨u, -, rfl⟩ := Option.map_eq_some_iff.mp hswitch
    refine .inr ⟨next, rfl, ?_⟩
    simp [Vm.task, Vm.setTask]

theorem vmTaskYield_moves {m m' : Machine W} (h : vmTaskYield H m = .ok () m') :
    m.vm.Moves m'.vm := by
  obtain ⟨tick, n, ht, h⟩ := bind_eq_ok.mp h
  cases ht
  have hyield := liftVm_map_ok h
  exact vmSchedule_moves hyield

theorem vmTaskSleep_moves {ms : BitVec 32} {m m' : Machine W} (h : vmTaskSleep H ms m = .ok () m') :
    m.vm.Moves m'.vm := by
  obtain ⟨tick, n, ht, h⟩ := bind_eq_ok.mp h
  cases ht
  obtain ⟨tick', n', ht', h⟩ := bind_eq_ok.mp h
  cases ht'
  obtain ⟨cur, -, hs⟩ := Option.bind_eq_some_iff.mp (liftVm_map_ok h)
  have hmoves := vmSchedule_moves hs
  exact hmoves

theorem vmTaskExit_moves {m m' : Machine W} (h : vmTaskExit H m = .ok () m') :
    m.vm.Moves m'.vm := by
  obtain ⟨tick, n, ht, h⟩ := bind_eq_ok.mp h
  cases ht
  obtain ⟨cur, -, hs⟩ := Option.bind_eq_some_iff.mp (liftVm_map_ok h)
  have hmoves := vmSchedule_moves hs
  exact hmoves

/-- How the three opcodes leave the switch. -/
theorem fetch_switches {a : Activation} {op : Op} (hop : a.nextOp = some op)
    (hsw : op.switches = true) {m m' : Machine W} {f : Flow} (h : fetch H a m = .ok f m') :
    m.vm.Moves m'.vm ∧ f = if op = .TASK_EXIT then .ret else .next (a.ip + 1) := by
  rw [fetch_run hop] at h
  simp only [Op.switches, List.mem_cons, List.not_mem_nil, or_false, decide_eq_true_eq] at hsw
  obtain rfl | rfl | rfl := hsw
  · obtain ⟨rfl, hbody⟩ := thenNext_ok h
    exact ⟨vmTaskYield_moves hbody, rfl⟩
  · obtain ⟨rfl, hbody⟩ := thenNext_ok h
    obtain ⟨ms, n, hpop, hsleep⟩ := bind_eq_ok.mp hbody
    obtain ⟨-, rfl⟩ := dsPop_ok hpop
    have hmoves := vmTaskSleep_moves hsleep
    exact ⟨hmoves, rfl⟩
  · change (vmTaskExit H >>= fun _ => pure Flow.ret) m = _ at h
    obtain ⟨u, n, hexit, hret⟩ := bind_eq_ok.mp h
    cases hret
    exact ⟨vmTaskExit_moves hexit, rfl⟩

/-- Before and after a switch. -/
theorem SwitchStep.cases {c d : Config W} {t : Fin 8} (h : SwitchStep H c d t) :
    ∃ m m' a cs op, c = .run m a cs ∧ a.nextOp = some op ∧ op.switches = true ∧
      d = if op = .TASK_EXIT then .ret 0 m' cs else .run m' a.skip cs := by
  obtain ⟨a, op, ha, hop, hsw⟩ := h.opcode
  obtain ⟨m, cs, -, rfl, -⟩ := Config.instr_eq_some ha
  have hd : settle a cs (fetch H a m) = d := Option.some.inj h.step
  obtain ⟨-, n', -, hn', -⟩ := h.changes
  cases hx : fetch H a m with
  | ok f m' =>
      rw [hx] at hd
      obtain ⟨-, hf⟩ := fetch_switches hop hsw hx
      refine ⟨m, m', a, cs, op, rfl, hop, hsw, ?_⟩
      rw [← hd, hf]
      split <;> rfl
  | err e m' =>
      rw [hx] at hd
      -- A failed opcode is no switch.
      have hne := fetch_leaves (H := H) a m trivial
      rw [hx] at hne
      exact absurd (h.success e m' cs hd.symm) hne
  | fault =>
      rw [hx] at hd
      rw [← hd] at hn'
      cases hn'

/-! ## The instruction executed next -/

theorem nextInstr_of_instr {d : Config W} {a : Activation} (ha : d.instr = some a) :
    NextInstr H d a := ⟨d, .refl, ha⟩

theorem nextInstr_of_step {c d : Config W} {a : Activation} (hc : c.instr = none) (hs : Step H c d)
    (h : NextInstr H d a) : NextInstr H c a := by
  obtain ⟨e, hde, he⟩ := h
  exact ⟨e, .head ⟨hc, hs⟩ hde, he⟩

/-- An instruction executed later is executed in the run. -/
theorem NextInstr.reaches {d : Config W} {a : Activation} (h : NextInstr H d a) :
    ∃ e, Reaches H d e ∧ e.instr = some a := by
  obtain ⟨e, hde, he⟩ := h
  exact ⟨e, Relation.ReflTransGen.mono (fun _ _ hs => hs.2) d e hde, he⟩

/-- Nothing is executed behind the last instruction. -/
theorem not_nextInstr_of_isLast {c d : Config W} {t : Fin 8} (h : SwitchStep H c d t)
    (hlast : c.IsLast) (a : Activation) : ¬ NextInstr H d a := by
  intro hnext
  obtain ⟨e, hde, he⟩ := hnext.reaches
  obtain ⟨m, m', b, cs, op, rfl, hop, -, rfl⟩ := h.cases
  have hnone := hlast b op (Config.instr_run hop) hop
  by_cases hexit : op = .TASK_EXIT
  · rw [if_pos hexit] at hde hnone
    rw [instr_none_of_nothingToResume hnone hde] at he
    cases he
  · rw [if_neg hexit] at hde hnone
    rw [instr_none_of_no_instr hnone hde] at he
    cases he

/-- An instruction behind the switch is the one executed next. -/
theorem SwitchStep.goes_on {c d : Config W} {t : Fin 8} (h : SwitchStep H c d t)
    (hlast : ¬ c.IsLast) : ∃ p, NextInstr H d p ∧ p.nextOp ≠ none ∧
      ((∃ a op, c.instr = some a ∧ a.nextOp = some op ∧ op.switches = true ∧ p = a.skip) ∨
        ∃ x ∈ c.callers, p = x.act) := by
  obtain ⟨m, m', b, cs, op, rfl, hop, hsw, rfl⟩ := h.cases
  have hinstr : (Config.run m b cs).instr = some b := Config.instr_run hop
  simp only [Config.IsLast, not_forall] at hlast
  obtain ⟨a, op', ha, hop', hne⟩ := hlast
  obtain rfl : b = a := Option.some.inj (hinstr.symm.trans ha)
  obtain rfl : op = op' := Option.some.inj (hop.symm.trans hop')
  by_cases hexit : op = .TASK_EXIT
  · -- the activation ends, and its caller goes on
    rw [if_pos hexit] at hne ⊢
    simp only [Config.NothingToResume, not_forall] at hne
    obtain ⟨x, hx, hsome⟩ := hne
    obtain ⟨tl, rfl⟩ : ∃ tl, cs = x :: tl := ⟨_, List.eq_cons_of_mem_head? hx⟩
    have hs : Step H (.ret 0 m' (x :: tl)) (.run (m'.setFp x.oldFp) x.act tl) := rfl
    obtain ⟨op'', hop''⟩ := Option.ne_none_iff_exists'.mp hsome
    exact ⟨x.act, nextInstr_of_step rfl hs (nextInstr_of_instr (Config.instr_run hop'')), hsome,
      .inr ⟨x, List.mem_cons_self, rfl⟩⟩
  · rw [if_neg hexit] at hne ⊢
    obtain ⟨op'', hop''⟩ := Option.ne_none_iff_exists'.mp hne
    exact ⟨b.skip, nextInstr_of_instr (Config.instr_run hop''), hne,
      .inl ⟨b, op, hinstr, hop, hsw, rfl⟩⟩

/-! ## Where tasks are descheduled -/

/-- The opcode in the byte before the instruction pointer. -/
def Activation.before (a : Activation) : Option Op := a.bc[a.ip - 1]?.bind Op.ofByte

/-- A place to go on that is not behind one of the three opcodes or a `CALL`: there
    is no instruction, the code starts there, or it is behind another opcode without
    immediate. -/
def Activation.Plain (a : Activation) : Prop :=
  a.nextOp = none ∨ a.ip = 0 ∨ ∃ op, a.before = some op ∧ op.kind = .NoImm ∧ op.switches = false

/-- A suspended caller stands behind the `CALL` of one of the 256 words, the last byte
    of which is zero. -/
def Caller.Linked (x : Caller) : Prop := 0 < x.act.ip ∧ x.act.before = some .LIT

/-- Callers stand behind their calls, and a polling receive behind its opcode. -/
structure Config.Linked (c : Config W) : Prop where
  callers : ∀ x ∈ c.callers, x.Linked
  poll : ∀ w m a cs, c = .poll w m a cs → 0 < a.ip ∧ a.before = some .TASK_RECEIVE_BLOCKING

theorem Activation.nextOp_byte {a : Activation} {op : Op} (h : a.nextOp = some op) :
    a.bc[a.ip]?.bind Op.ofByte = some op := by
  unfold nextOp at h
  split at h
  · exact h
  · cases h

theorem Activation.skip_before {a : Activation} {op : Op} (h : a.nextOp = some op) :
    a.skip.before = some op := nextOp_byte h

/-- The high byte of an index below 256. -/
theorem i16At_high {bc : List Byte} {p : Nat} {idx : BitVec 16} (h : i16At bc p = some idx)
    (hlt : idx.toNat < 256) : bc[p + 1]? = some 0 := by
  simp only [i16At, Option.bind_eq_bind, Option.bind_eq_some_iff, Option.pure_def,
    Option.some.injEq] at h
  obtain ⟨b0, -, b1, hb1, rfl⟩ := h
  have hle : (b1.setWidth 16 <<< 8).toNat ≤ (b0.setWidth 16 ||| b1.setWidth 16 <<< 8).toNat := by
    rw [BitVec.toNat_or]
    exact Nat.right_le_or
  rw [BitVec.toNat_shiftLeft, BitVec.toNat_setWidth, Nat.shiftLeft_eq] at hle
  have hzero : b1 = 0 := by
    have := b1.isLt
    apply BitVec.eq_of_toNat_eq
    show b1.toNat = 0
    omega
  rw [hb1, hzero]

/-- The instructions with an immediate leave the current task alone. -/
theorem fetch_keepsCurrent {a : Activation} {op : Op} (hop : a.nextOp = some op)
    (hk : op.kind ≠ .NoImm) {m m' : Machine W} {f : Flow} (h : fetch H a m = .ok f m') :
    m'.vm.scheduler.currentTask = m.vm.scheduler.currentTask := by
  let F : Effect V4Err (Machine W) := .within
    (fun m m' => m'.vm.scheduler.currentTask = m.vm.scheduler.currentTask) fun _ => True
  have hF : F.Composable := Effect.within_composable (fun _ => rfl) fun h h' => h'.trans h
  have panics : ∀ e : Err, e ≠ .ok → PanicAllows H F e.code := fun _ _ =>
    ⟨fun _ _ _ _ => trivial, fun _ _ _ => trivial⟩
  have out : CodeOut F a := fun _ _ _ => trivial
  have hS : StackAllows H F :=
    ⟨fun _ _ _ _ _ => rfl, fun _ _ _ => trivial, fun _ _ _ => trivial,
      panics .stackOverflow (by decide), panics .stackUnderflow (by decide),
      panics .divByZero (by decide)⟩
  have hL : LocalAllows H F :=
    ⟨fun _ _ _ _ _ _ _ _ => rfl, panics .invalidArg (by decide)⟩
  have hC : CodeMeets H F a (a.ip + 1) op anyValue := by
    refine codeMeets_of_panics hF out panics (fun _ _ _ => trivial) ?_ (fun _ _ => trivial)
      (fun _ _ _ _ _ _ _ _ _ => trivial) trivial fun _ => trivial
    unfold Activation.nextOp at hop
    split at hop
    · assumption
    · cases hop
  -- None of them accesses memory, calls the host or the task backend.
  have hplain : op.isMemory = false ∧ op ≠ .SYS ∧ op.isTask = false := by
    revert hk
    cases op <;> decide
  have hmeets : Meets F (execOp H a (a.ip + 1) op) anyValue :=
    execOp_meets hF hS.stackMeets hC (hS.rsMeets hF (fun _ _ _ _ _ => rfl) op)
      (fun _ => hL.localMeets hF hS) (fun hm => absurd hm (by rw [hplain.1]; decide))
      (fun hs => absurd hs hplain.2.1) fun ht => absurd ht (by rw [hplain.2.2]; decide)
  have hm := hmeets m trivial
  rw [fetch_run hop] at h
  rw [h] at hm
  exact hm.1

/-- Behind an instruction without immediate. -/
theorem Activation.skip_plain {a : Activation} {op : Op} (hop : a.nextOp = some op)
    (hk : op.kind = .NoImm) (hsw : op.switches = false) : a.skip.Plain :=
  .inr (.inr ⟨op, a.skip_before hop, hk, hsw⟩)

theorem linked_run {m : Machine W} {cur : Activation} {cs : List Caller}
    (h : ∀ x ∈ cs, x.Linked) : (Config.run m cur cs).Linked := ⟨h, nofun⟩

theorem linked_ret {e : V4Err} {m : Machine W} {cs : List Caller}
    (h : ∀ x ∈ cs, x.Linked) : (Config.ret e m cs).Linked := ⟨h, nofun⟩

theorem linked_fault : (Config.fault : Config W).Linked := ⟨nofun, nofun⟩

theorem linked_poll {w : Waiting} {m : Machine W} {cur : Activation} {cs : List Caller}
    (h : ∀ x ∈ cs, x.Linked) (hpos : 0 < cur.ip) (hb : cur.before = some .TASK_RECEIVE_BLOCKING) :
    (Config.poll w m cur cs).Linked :=
  ⟨h, fun _ _ _ _ heq => by cases heq; exact ⟨hpos, hb⟩⟩

theorem Config.Linked.step {c d : Config W} (hc : c.Linked) (hs : Step H c d) : d.Linked := by
  obtain ⟨m, cur, cs, rfl, rfl⟩ | ⟨w, m, cur, cs, rfl, rfl⟩ | ⟨m, x, cs, rfl, rfl⟩
    | ⟨e, m, x, cs, he, rfl, rfl⟩ := hs.cases
  · have hl := fetch_leaves (H := H) cur m trivial
    have hcs : ∀ x ∈ cs, x.Linked := hc.callers
    cases hx : fetch H cur m with
    | ok f m' =>
        rw [hx] at hl
        cases f with
        | next ip => exact linked_run hcs
        | ret => exact linked_ret hcs
        | call callee ip =>
            -- before the return point lies the high byte of the index: zero, which reads as LIT
            obtain ⟨-, rfl, -, idx, hidx, hlt⟩ := hl.2
            refine linked_run fun x hx => ?_
            rcases List.mem_cons.mp hx with rfl | hx
            · refine ⟨Nat.succ_pos _, ?_⟩
              show cur.bc[cur.ip + 3 - 1]?.bind Op.ofByte = some .LIT
              rw [Nat.add_sub_assoc (by decide), i16At_high hidx hlt]
              rfl
            · exact hcs x hx
        | wait w ip =>
            obtain ⟨hop, rfl⟩ := hl.2
            exact linked_poll hcs (Nat.succ_pos _) (cur.skip_before hop)
    | err e m' => exact linked_ret hcs
    | fault => exact linked_fault
  · have hl := pollOnce_leaves (H := H) w cur.ip m trivial
    have hcs : ∀ x ∈ cs, x.Linked := hc.callers
    obtain ⟨hpos, hbefore⟩ := hc.poll w m cur cs rfl
    cases hx : pollOnce H w cur.ip m with
    | ok f m' =>
        rw [hx] at hl
        obtain rfl | rfl := hl.2
        · exact linked_run hcs
        · exact linked_poll hcs hpos hbefore
    | err e m' => exact linked_ret hcs
    | fault => exact linked_fault
  · exact linked_run fun y hy => hc.callers y (List.mem_cons_of_mem x hy)
  · exact linked_ret fun y hy => hc.callers y (List.mem_cons_of_mem x hy)

/-- An instruction that succeeds leaves its machine, up to the frame pointer. -/
theorem settle_machine (cur : Activation) (cs : List Caller) (f : Flow) (m : Machine W) :
    ∃ fp, (settle cur cs (.ok f m)).machine = some (m.setFp fp) := by
  cases f with
  | call c ip => exact ⟨some m.vm.rp, rfl⟩
  | _ => exact ⟨m.vm.fp, rfl⟩

/-- Where an instruction without immediate that does not switch leaves its task. -/
theorem settle_plain {cur : Activation} {cs : List Caller} {op : Op} {f : Flow} {m : Machine W}
    (hop : cur.nextOp = some op) (hk : op.kind = .NoImm) (hsw : op.switches = false)
    (hl : cur.Leaves f) {a : Activation} (ha : (settle cur cs (.ok f m)).current = some a) :
    a.Plain := by
  cases f with
  | next ip =>
      cases ha
      rw [hl op hop hk]
      exact Activation.skip_plain hop hk hsw
  | ret => cases ha
  | call c ip =>
      cases ha
      exact .inr (.inl hl.2.2.1)
  | wait w ip =>
      cases ha
      rw [hl.2]
      exact Activation.skip_plain hop hk hsw

/-- An instruction takes the processor from a task, leaving it at a plain place, or is one of
    the three opcodes and switches. -/
theorem fetch_deschedules {m n' : Machine W} {cur : Activation} {cs : List Caller} {d : Config W}
    (hs : Step H (.run m cur cs) d) (hn' : d.machine = some n')
    (hne : n'.vm.scheduler.currentTask ≠ m.vm.scheduler.currentTask) {a : Activation}
    (ha : d.current = some a) : a.Plain ∨ ∃ t, SwitchStep H (.run m cur cs) d t := by
  have hd : d = settle cur cs (fetch H cur m) := (Option.some.inj hs).symm
  cases hx : fetch H cur m with
  | ok f m' =>
      have hl := fetch_leaves (H := H) cur m trivial
      rw [hx] at hl hd
      obtain ⟨fp, hfp⟩ := settle_machine cur cs f m'
      obtain rfl : m'.setFp fp = n' := Option.some.inj (hfp.symm.trans (hd ▸ hn'))
      cases hop : cur.nextOp with
      | none =>
          obtain heq | ⟨e, m'', -, heq⟩ := fetch_none (H := H) hop m
          · cases hx.symm.trans heq
          · cases hx.symm.trans heq
      | some op =>
          by_cases hk : op.kind = .NoImm
          · cases hsw : op.switches with
            | true =>
                -- One of the three switching opcodes: this is a switch.
                obtain ⟨hmoves, hf⟩ := fetch_switches hop hsw hx
                obtain ⟨t, ht, hrun⟩ := hmoves.resolve_left hne
                refine .inr ⟨t, ⟨cur, op, Config.instr_run hop, hop, hsw⟩, hs, ?_, m, _, rfl,
                  hn', fun hcur => hne (ht.trans hcur.symm), ht, ?_⟩
                · rintro e m'' cs' heq
                  rw [hd, hf] at heq
                  split at heq <;> cases heq
                  rfl
                · intro hdead
                  exact absurd (hrun.symm.trans hdead) (by decide)
            | false => exact .inl (settle_plain hop hk hsw hl.2 (hd ▸ ha))
          · -- no other instruction changes the current task
            exact absurd (fetch_keepsCurrent hop hk hx) hne
  | err e m' =>
      rw [hd, hx] at ha
      cases ha
  | fault =>
      rw [hd, hx] at ha
      cases ha

/-- A poll leaves its task behind the receive. -/
theorem poll_plain {w : Waiting} {m : Machine W} {cur a : Activation} {cs : List Caller}
    (hplain : cur.Plain) (ha : (settle cur cs (pollOnce H w cur.ip m)).current = some a) :
    a.Plain := by
  have hl := pollOnce_leaves (H := H) w cur.ip m trivial
  cases hx : pollOnce H w cur.ip m with
  | ok f m' =>
      rw [hx] at hl ha
      obtain rfl | rfl := hl.2
      · cases ha
        exact hplain
      · cases ha
        exact hplain
  | err e m' =>
      rw [hx] at ha
      cases ha
  | fault =>
      rw [hx] at ha
      cases ha

/-- Where a task stands when it stops being current, unless one of the three
    opcodes has switched. -/
theorem descheduled_plain {c d : Config W} (hc : c.Linked) (hs : Step H c d) {n n' : Machine W}
    (hn : c.machine = some n) (hn' : d.machine = some n')
    (hne : n'.vm.scheduler.currentTask ≠ n.vm.scheduler.currentTask) {a : Activation}
    (ha : d.current = some a) : a.Plain ∨ ∃ t, SwitchStep H c d t := by
  obtain ⟨m, cur, cs, rfl, -⟩ | ⟨w, m, cur, cs, rfl, rfl⟩ | ⟨m, x, cs, rfl, rfl⟩
    | ⟨e, m, x, cs, he, rfl, rfl⟩ := hs.cases
  · obtain rfl : m = n := Option.some.inj hn
    exact fetch_deschedules hs hn' hne ha
  · obtain ⟨-, hbefore⟩ := hc.poll w m cur cs rfl
    exact .inl (poll_plain (.inr (.inr ⟨_, hbefore, rfl, rfl⟩)) ha)
  -- on the way back to a caller nobody takes the processor
  · cases hn
    cases hn'
    exact absurd rfl hne
  · cases hn
    cases hn'
    exact absurd rfl hne

/-! ## Every session -/

/-- The new notes are plain when the old ones are and the task that stops being
    current stands at a plain place. -/
theorem noted_plain {vm vm' : Vm} {next : Option Activation} {ρ : ResumePoints}
    (hρ : ∀ t a, ρ t = some a → a.Plain)
    (hnext : vm'.scheduler.currentTask ≠ vm.scheduler.currentTask →
      ∀ a, next = some a → a.Plain) :
    ∀ t a, noted vm vm' next ρ t = some a → a.Plain := by
  intro t a ha
  unfold noted at ha
  split at ha
  · obtain ⟨code, -, rfl⟩ := Option.map_eq_some_iff.mp ha
    exact .inr (.inl rfl)
  · split at ha
    · next hcur => exact hnext (fun heq => hcur.2 (heq.trans hcur.1)) a ha
    · exact hρ t a ha

/-- A switch that obeys the law while all notes are plain is the last instruction. -/
theorem SwitchStep.isLast {c d : Config W} {t : Fin 8} {ρ : ResumePoints}
    (h : SwitchStep H c d t) (hc : c.Linked) (hρ : ∀ t a, ρ t = some a → a.Plain)
    (hlaw : FollowsTask H ρ d t) : c.IsLast := by
  by_contra hlast
  obtain ⟨p, hp, hop, hwhere⟩ := h.goes_on hlast
  have hplain : p.Plain := hρ t p (hlaw p hp)
  -- The byte before `p` is one of the three opcodes, or the end of a `CALL`.
  obtain ⟨hpos, op, hbefore, hbad⟩ : p.ip ≠ 0 ∧ ∃ op, p.before = some op ∧
      (op.kind = .NoImm → op.switches = true) := by
    obtain ⟨a, op, -, ha, hsw, rfl⟩ | ⟨x, hx, rfl⟩ := hwhere
    · exact ⟨Nat.succ_ne_zero _, op, a.skip_before ha, fun _ => hsw⟩
    · obtain ⟨hpos, hbefore⟩ := hc.callers x hx
      exact ⟨Nat.ne_of_gt hpos, .LIT, hbefore, fun hk => absurd hk (by decide)⟩
  obtain hnone | hzero | ⟨op', hbefore', hk, hsw⟩ := hplain
  · exact hop hnone
  · exact hpos hzero
  · obtain rfl : op = op' := Option.some.inj (hbefore.symm.trans hbefore')
    rw [hbad hk] at hsw
    cases hsw

/-- Behind a switch that is the last instruction there is no instruction. -/
theorem SwitchStep.nothing_behind {c d : Config W} {t : Fin 8} (h : SwitchStep H c d t)
    (hlast : c.IsLast) {a : Activation} (ha : d.current = some a) : a.Plain := by
  obtain ⟨m, m', b, cs, op, rfl, hop, -, rfl⟩ := h.cases
  have hnone := hlast b op (Config.instr_run hop) hop
  by_cases hexit : op = .TASK_EXIT
  · rw [if_pos hexit] at ha
    cases ha
  · rw [if_neg hexit] at ha hnone
    cases ha
    exact .inl hnone

/-- No caller stands elsewhere than behind its call, and no task is to go on behind a
    switch or a call. -/
structure SessionState.Plain (s : SessionState W) : Prop where
  linked : s.config.Linked
  resume : ∀ t a, s.resume t = some a → a.Plain

theorem SessionState.begin_plain (m : Machine W) : (SessionState.begin m).Plain where
  linked := linked_ret nofun
  resume t a ha := by
    unfold SessionState.begin Vm.spawned at ha
    dsimp only at ha
    split at ha
    · cases ha
    · obtain ⟨code, -, rfl⟩ := Option.map_eq_some_iff.mp ha
      exact .inr (.inl rfl)

/-- A step of the interpreter within a session. -/
theorem sessionStep_step {s s' : SessionState W} (h : sessionStep H .step s = some s') :
    ∃ n n', s.config.machine = some n ∧ s'.config.machine = some n' ∧ Step H s.config s'.config ∧
      s'.resume = noted n.vm n'.vm s'.config.current s.resume := by
  unfold sessionStep at h
  simp only [Option.bind_eq_bind, Option.bind_eq_some_iff] at h
  obtain ⟨n, hn, d, hs, n', hn', heq⟩ := h
  cases heq
  exact ⟨n, n', hn, hn', hs, rfl⟩

/-- A step that switches is a step of the session. -/
theorem sessionStep_of_switch {s : SessionState W} {d : Config W} {t : Fin 8}
    (h : SwitchStep H s.config d t) : ∃ ρ, sessionStep H .step s = some ⟨d, ρ⟩ := by
  obtain ⟨n, n', hn, hn', -⟩ := h.changes
  refine ⟨noted n.vm n'.vm d.current s.resume, ?_⟩
  have hs : step H s.config = some d := h.step
  simp only [sessionStep, hn, hs, hn', Option.bind_eq_bind, Option.bind_some]

/-- Between the runs the interpreter is idle. -/
theorem sessionStep_idle {act : SessionAct} (hact : act ≠ .step) {s s' : SessionState W}
    (h : sessionStep H act s = some s') : s.config.instr = none := by
  cases act with
  | step => exact absurd rfl hact
  | exec bc len =>
      simp only [sessionStep] at h
      split at h
      · next heq => rw [heq]; rfl
      · cases h
  | spawn w p ds rs dsOk rsOk =>
      simp only [sessionStep] at h
      split at h
      · next heq => rw [heq]; rfl
      · cases h

/-- Every step after which nothing is left to execute behind a switch keeps the notes
    plain. -/
theorem SessionState.Plain.step {act : SessionAct} {s s' : SessionState W} (hs : s.Plain)
    (hlast : SwitchIsLast H s act) (h : sessionStep H act s = some s') : s'.Plain := by
  cases act with
  | step =>
      obtain ⟨n, n', hn, hn', hstep, hresume⟩ := sessionStep_step h
      refine ⟨hs.linked.step hstep, ?_⟩
      rw [hresume]
      refine noted_plain hs.resume fun hne a ha => ?_
      obtain hplain | ⟨t, hswitch⟩ := descheduled_plain hs.linked hstep hn hn' hne ha
      · exact hplain
      · -- the task that switched has no instruction left
        exact hswitch.nothing_behind (hlast rfl _ t hswitch) ha
  | exec bc len =>
      simp only [sessionStep] at h
      split at h
      · cases h
        exact ⟨linked_run nofun, hs.resume⟩
      · cases h
  | spawn w p ds rs dsOk rsOk =>
      simp only [sessionStep] at h
      split at h
      · cases h
        exact ⟨linked_ret nofun, noted_plain hs.resume fun _ a ha => nomatch ha⟩
      · cases h

/-- While the notes are plain, the law holds of exactly the steps that leave nothing
    to execute behind a switch. -/
theorem codeFollows_iff {act : SessionAct} {s : SessionState W} (hs : s.Plain) :
    (∀ s', sessionStep H act s = some s' → CodeFollows H s act s') ↔ SwitchIsLast H s act := by
  constructor
  · rintro hlaw rfl d t hswitch
    obtain ⟨ρ, hsession⟩ := sessionStep_of_switch hswitch
    exact hswitch.isLast hs.linked hs.resume (hlaw _ hsession t hswitch)
  · intro hlast s' h t hswitch a ha
    by_cases hact : act = .step
    · exact absurd ha (not_nextInstr_of_isLast hswitch (hlast hact _ t hswitch) a)
    · -- nothing switches while the interpreter is idle
      obtain ⟨b, op, hb, -⟩ := hswitch.opcode
      rw [sessionStep_idle hact h] at hb
      cases hb

/-- From a state with plain notes the law holds of exactly the runs that leave nothing to
    execute behind a switch. -/
theorem eachStep_codeFollows_iff {s : SessionState W} (acts : List SessionAct) (hs : s.Plain) :
    EachStep (sessionStep H) (CodeFollows H) acts s ↔
      Along (sessionStep H) (SwitchIsLast H) acts s :=
  along_iff_along (I := SessionState.Plain) (fun _ _ _ hs hlast h => hs.step hlast h)
    (fun _ _ hs => codeFollows_iff hs) hs

/-- **Code follows the task** in exactly the sessions in which every switch is the last
    instruction its run executes. -/
theorem code_follows_task_iff (H : Host W) (m : Machine W) (acts : List SessionAct) :
    EachStep (sessionStep H) (CodeFollows H) acts (.begin m) ↔
      Along (sessionStep H) (SwitchIsLast H) acts (.begin m) :=
  eachStep_codeFollows_iff acts (SessionState.begin_plain m)

/-- Two words, `TASK_YIELD` `RET` and `LIT1` `RET`, and a task for each. -/
def yieldVm : Vm :=
  let vm := { Vm.blank with
    words := fun i => if i = 0 then ⟨some [0x93, 0x51], 2⟩ else ⟨some [0x74, 0x51], 2⟩
    wordCount := 2 }
  (v4BackendTaskSpawn 1 1 0 0 true true
    (v4BackendTaskSpawn 0 1 0 0 true true (v4BackendTaskInit 10 vm)).2).2

/-- Word 0 is executed: its yield makes task 1 current, and its own `RET` comes next. -/
theorem yield_goes_on_in_old_word : ¬ EachStep (sessionStep Host.silent) (CodeFollows Host.silent)
    [.exec [0x93, 0x51] 2, .step] (.begin (Machine.boot yieldVm)) := by
  intro h
  have hlast := ((eachStep_codeFollows_iff _ (SessionState.begin_plain _)).mp h).2 _ rfl |>.1 rfl
  have hswitch : SwitchStep Host.silent (.start (Machine.boot yieldVm) [0x93, 0x51] 2)
      (settle ⟨[0x93, 0x51], 2, 0⟩ []
        (fetch Host.silent ⟨[0x93, 0x51], 2, 0⟩ (Machine.boot yieldVm))) 1 :=
    { opcode := ⟨_, .TASK_YIELD, rfl, rfl, rfl⟩
      step := rfl
      success := nofun
      changes := ⟨_, _, rfl, rfl, by decide, by decide, by decide⟩ }
  cases hlast _ 1 hswitch ⟨[0x93, 0x51], 2, 0⟩ .TASK_YIELD rfl rfl

/-- Without the `RET` nothing is left behind the yield. -/
example : Along (sessionStep Host.silent) (SwitchIsLast Host.silent) [.exec [0x93] 1, .step]
    (.begin (Machine.boot yieldVm)) := by
  refine ⟨nofun, fun s' h => ?_⟩
  cases h
  refine ⟨fun _ d t _ a op ha hop => ?_, fun _ _ => trivial⟩
  cases ha
  cases hop
  rfl

end V4Engine
