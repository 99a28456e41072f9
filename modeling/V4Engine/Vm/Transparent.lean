/-
  V4Engine.Vm.Transparent

  Programs that are interrupted by `vm_schedule_from_isr`.

  The interrupted run is compared with the uninterrupted one by the relation of
  `Vm.Lockstep` with nothing underneath, taken in both directions: each
  instruction of one is an instruction of the other, and an interrupt that
  leaves the live stacks alone is no step at all.
-/
import V4Engine.Vm.StackFrame
import V4Engine.Task.Alone

namespace V4Engine

open Lib FaultM VmM

variable {W : Type}

/-! ## Interrupted runs -/

/-- A call of `vm_schedule_from_isr` that reads `tick`. -/
def Config.isr (tick : BitVec 32) (c : Config W) : Config W :=
  let call (m : Machine W) (k : Machine W → Config W) : Config W :=
    match vmScheduleFromIsr tick m.vm with
    | some vm => k { m with vm := vm }
    | none => .fault
  match c with
  | .run m cur cs => call m fun m => .run m cur cs
  | .poll w m cur cs => call m fun m => .poll w m cur cs
  | .ret e m cs => call m fun m => .ret e m cs
  | .fault => .fault

/-- One instruction, or an interrupt between two instructions at a tick and in a
    configuration allowed by `ok`. -/
inductive Interrupted (H : Host W) (ok : BitVec 32 → Config W → Prop) :
    Config W → Config W → Prop where
  | instr {c d : Config W} (h : Step H c d) : Interrupted H ok c d
  | isr {c : Config W} (tick : BitVec 32) (h : ok tick c) : Interrupted H ok c (c.isr tick)

/-- The condition `IsrKeeps` on the VM of a configuration. -/
def Config.IsrKeeps (tick : BitVec 32) (c : Config W) : Prop :=
  ∀ n, c.machine = some n → V4Engine.IsrKeeps tick n.vm

/-- Same live stacks, frame pointer and RAM. -/
structure Machine.Agree (m n : Machine W) : Prop where
  ds : m.vm.ds = n.vm.ds
  rs : m.vm.rs = n.vm.rs
  fp : m.vm.fp = n.vm.fp
  mem : m.vm.mem = n.vm.mem

/-- Same place in the program, same result code, and machines that agree. -/
def Config.Agree : Config W → Config W → Prop
  | .run m cur cs, .run n cur' cs' => cur = cur' ∧ cs = cs' ∧ m.Agree n
  | .poll w m cur cs, .poll w' n cur' cs' => w = w' ∧ cur = cur' ∧ cs = cs' ∧ m.Agree n
  | .ret e m cs, .ret e' n cs' => e = e' ∧ cs = cs' ∧ m.Agree n
  | .fault, .fault => True
  | _, _ => False

/-- The callbacks do not look at the scheduler and do not call it, and the panic
    handler leaves the VM alone. -/
structure Host.IgnoresTasks (H : Host W) : Prop where
  respects : H.Respects [] []
  sys : SysRespects H [] []
  sched : H.Within fun m m' => m'.vm.scheduler = m.vm.scheduler

/-! ## Related configurations -/

/-- Same program and RAM, same live stacks and frame pointer. -/
def Vm.Alike (vm vm' : Vm) : Prop := Deeper [] [] vm vm' ∧ Deeper [] [] vm' vm

/-- Same world and same `SYS` handler. -/
def Machine.SameHost (m n : Machine W) : Prop :=
  n.world = m.world ∧ n.gSysHandler = m.gSysHandler

/-- Nothing the program can observe tells the two apart.  As in `deeper`, only the
    VMs are compared after an error. -/
inductive Config.Alike : Config W → Config W → Prop where
  | run {m n : Machine W} {cur : Activation} {cs : List Caller} (hvm : m.vm.Alike n.vm)
      (hhost : m.SameHost n) : Config.Alike (.run m cur cs) (.run n cur cs)
  | poll {w : Waiting} {m n : Machine W} {cur : Activation} {cs : List Caller}
      (hvm : m.vm.Alike n.vm) (hhost : m.SameHost n) :
      Config.Alike (.poll w m cur cs) (.poll w n cur cs)
  | ret {e : V4Err} {m n : Machine W} {cs : List Caller} (hvm : m.vm.Alike n.vm)
      (hhost : e = 0 → m.SameHost n) : Config.Alike (.ret e m cs) (.ret e n cs)
  | fault : Config.Alike .fault .fault

theorem Machine.SameHost.symm {m n : Machine W} (h : m.SameHost n) : n.SameHost m :=
  ⟨h.1.symm, h.2.symm⟩

theorem Caller.shift_zero (cs : List Caller) : cs.map (.shift ([] : List Cell).length) = cs := by
  refine List.map_id'' (fun x => ?_) cs
  show { x with oldFp := x.oldFp.map (0 + ·) } = x
  cases x with
  | mk act oldFp => cases oldFp <;> simp

/-- The relation of the lockstep, both ways. -/
theorem Config.alike_iff {c d : Config W} : c.Alike d ↔ c.Deeper [] [] d ∧ d.Deeper [] [] c := by
  constructor
  · intro h
    cases h with
    | run hvm hhost =>
        exact ⟨⟨_, by rw [Caller.shift_zero], hvm.1, hhost⟩,
          ⟨_, by rw [Caller.shift_zero], hvm.2, hhost.symm⟩⟩
    | poll hvm hhost =>
        exact ⟨⟨_, by rw [Caller.shift_zero], hvm.1, hhost⟩,
          ⟨_, by rw [Caller.shift_zero], hvm.2, hhost.symm⟩⟩
    | ret hvm hhost =>
        exact ⟨⟨_, by rw [Caller.shift_zero], hvm.1, fun h0 => ⟨hvm.1, hhost h0⟩⟩,
          ⟨_, by rw [Caller.shift_zero], hvm.2, fun h0 => ⟨hvm.2, (hhost h0).symm⟩⟩⟩
    | fault => exact ⟨trivial, trivial⟩
  · -- either simulation with nothing underneath fixes the shape of the other side
    rintro ⟨hcd, hdc⟩
    cases c with
    | run m cur cs =>
        obtain ⟨n, rfl, hrel⟩ := hcd
        obtain ⟨m', heq, hrel'⟩ := hdc
        simp only [Caller.shift_zero] at heq ⊢
        cases heq
        exact .run ⟨hrel.1, hrel'.1⟩ hrel.2
    | poll w m cur cs =>
        obtain ⟨n, rfl, hrel⟩ := hcd
        obtain ⟨m', heq, hrel'⟩ := hdc
        simp only [Caller.shift_zero] at heq ⊢
        cases heq
        exact .poll ⟨hrel.1, hrel'.1⟩ hrel.2
    | ret e m cs =>
        obtain ⟨n, rfl, hvm, hrel⟩ := hcd
        obtain ⟨m', heq, hvm', -⟩ := hdc
        simp only [Caller.shift_zero] at heq ⊢
        cases heq
        exact .ret ⟨hvm, hvm'⟩ fun h0 => (hrel h0).2
    | fault =>
        cases d with
        | run m cur cs => obtain ⟨_, heq, -⟩ := hdc; cases heq
        | poll w m cur cs => obtain ⟨_, heq, -⟩ := hdc; cases heq
        | ret e m cs => obtain ⟨_, heq, -⟩ := hdc; cases heq
        | fault => exact .fault

theorem Vm.Alike.agree {m n : Machine W} (h : m.vm.Alike n.vm) : m.Agree n where
  ds := (onTop_iff.mp h.1.ds).symm
  rs := (onTop_iff.mp h.1.rs).symm
  fp := by
    rw [h.1.fp]
    cases m.vm.fp <;> simp
  mem := h.1.mem.symm

theorem Config.Alike.agree {c d : Config W} (h : c.Alike d) : c.Agree d := by
  cases h with
  | run hvm _ => exact ⟨rfl, rfl, hvm.agree⟩
  | poll hvm _ => exact ⟨rfl, rfl, rfl, hvm.agree⟩
  | ret hvm _ => exact ⟨rfl, rfl, hvm.agree⟩
  | fault => trivial

/-- A VM within its stacks is related to itself. -/
theorem Vm.Alike.refl {vm : Vm} (hsp : vm.sp ≤ 256) (hrp : vm.rp ≤ 64) : vm.Alike vm := by
  have h : Deeper [] [] vm vm := by
    refine ⟨onTop_iff.mpr rfl, onTop_iff.mpr rfl, hsp, hrp, ?_, rfl, rfl, rfl, rfl, rfl, rfl, rfl,
      rfl⟩
    cases vm.fp <;> simp
  exact ⟨h, h⟩

/-! ## An instruction on both sides -/

theorem not_framed_nil : ¬ Framed [] [] := fun h => h.elim (fun h => h rfl) fun h => h rfl

/-- With nothing underneath, every step is matched. -/
theorem Config.Deeper.matched {H : Host W} (hH : H.IgnoresTasks) {c d c' : Config W}
    (h : c.Deeper [] [] d) (hc : c.NoTask) (hs : Step H c c') :
    ∃ d', Step H d d' ∧ c'.Deeper [] [] d' := by
  obtain hd | ⟨_, _, _, -, -, hskip⟩ | ⟨_, -, hover⟩ :=
    h.step hH.respects ⟨hc, fun _ _ _ _ _ => hH.sys⟩ hs
  · exact hd
  · exact absurd hskip.1 not_framed_nil
  · exact absurd hover.1 not_framed_nil

/-- Related configurations are about to execute the same instruction. -/
theorem Config.Alike.noTask_iff {c d : Config W} (h : c.Alike d) : c.NoTask ↔ d.NoTask := by
  cases h <;> exact Iff.rfl

theorem Config.Alike.step {H : Host W} (hH : H.IgnoresTasks) {c d c' : Config W} (h : c.Alike d)
    (hd : d.NoTask) (hs : Step H c c') : ∃ d', Step H d d' ∧ c'.Alike d' := by
  obtain ⟨hcd, hdc⟩ := Config.alike_iff.mp h
  obtain ⟨d', hs', hcd'⟩ := hcd.matched hH (h.noTask_iff.mpr hd) hs
  obtain ⟨c'', hs'', hdc'⟩ := hdc.matched hH hd hs'
  obtain rfl := hs.functional hs''
  exact ⟨d', hs', Config.alike_iff.mpr ⟨hcd', hdc'⟩⟩

/-! ## An interrupt on one side -/

/-- A call of the scheduler that leaves the live stacks alone is not observed. -/
theorem Vm.Alike.rescheduled {vm vm' n : Vm} (h : vm.Alike n) (hf : BackendFrame vm vm')
    (hst : SameStacks vm vm') : vm'.Alike n := by
  obtain ⟨hl, hr⟩ := h
  have hsp : vm'.sp = vm.sp := by simpa [Vm.ds] using congrArg List.length hst.1
  have hrp : vm'.rp = vm.rp := by simpa [Vm.rs] using congrArg List.length hst.2
  have hds : OnTop [] vm'.DS vm'.sp n.DS n.sp :=
    onTop_iff.mpr ((onTop_iff.mp hl.ds).trans hst.1.symm)
  have hrs : OnTop [] vm'.RS vm'.rp n.RS n.rp :=
    onTop_iff.mpr ((onTop_iff.mp hl.rs).trans hst.2.symm)
  have hds' : OnTop [] n.DS n.sp vm'.DS vm'.sp :=
    onTop_iff.mpr (hst.1.trans (onTop_iff.mp hr.ds))
  have hrs' : OnTop [] n.RS n.rp vm'.RS vm'.rp :=
    onTop_iff.mpr (hst.2.trans (onTop_iff.mp hr.rs))
  rw [hf.eq_update]
  exact ⟨⟨hds, hrs, hl.dsFits, hl.rsFits, hl.fp, hl.mem, hl.memSize, hl.mmio, hl.mmioCount,
      hl.words, hl.wordCount, hl.panicHandler, hl.panicUserData⟩,
    ⟨hds', hrs', hsp ▸ hr.dsFits, hrp ▸ hr.rsFits, hr.fp, hr.mem, hr.memSize, hr.mmio,
      hr.mmioCount, hr.words, hr.wordCount, hr.panicHandler, hr.panicUserData⟩⟩

theorem Config.Alike.isr {c d : Config W} (h : c.Alike d) {tick : BitVec 32}
    (hkeeps : ∀ n, c.machine = some n → ∃ vm', vmScheduleFromIsr tick n.vm = some vm' ∧
      SameStacks n.vm vm') : (c.isr tick).Alike d := by
  -- An interrupt writes backend fields only; that the stacks are kept is the hypothesis.
  have frame : ∀ {vm vm' : Vm}, vmScheduleFromIsr tick vm = some vm' → BackendFrame vm vm' :=
    fun {vm vm'} hs => (backendStep_frame (o := .scheduleFromIsr tick) hs).1
  cases h with
  | run hvm hhost =>
      obtain ⟨vm', hs, hst⟩ := hkeeps _ rfl
      rw [Config.isr]
      simp only [hs]
      exact .run (hvm.rescheduled (frame hs) hst) hhost
  | poll hvm hhost =>
      obtain ⟨vm', hs, hst⟩ := hkeeps _ rfl
      rw [Config.isr]
      simp only [hs]
      exact .poll (hvm.rescheduled (frame hs) hst) hhost
  | ret hvm hhost =>
      obtain ⟨vm', hs, hst⟩ := hkeeps _ rfl
      rw [Config.isr]
      simp only [hs]
      exact .ret (hvm.rescheduled (frame hs) hst) hhost
  | fault => exact .fault

/-! ## The slots of the other tasks -/

/-- No slot but the current one has changed since `vm0`. -/
structure OthersKept (vm0 vm : Vm) : Prop where
  current : vm.scheduler.currentTask = vm0.scheduler.currentTask
  saved : ∀ i, (vm.task i).rsDepth.toNat ≤ 64
  others : ∀ j, ¬ vm0.IsCurrent j → vm.task j = vm0.task j

namespace OthersKept

variable {vm0 vm vm' : Vm} {tick : BitVec 32}

theorem wf (h : OthersKept vm0 vm) (h0 : SchedWF vm0) (hrp : vm.rp ≤ 64) : SchedWF vm :=
  ⟨h.current ▸ h0.current, hrp, h.saved⟩

theorem alone (h : OthersKept vm0 vm) (ha : Alone tick vm0) : Alone tick vm := by
  intro j hj
  have hj0 : ¬ vm0.IsCurrent j := fun hcur => hj (h.current.trans hcur)
  rw [h.others j hj0]
  exact ha j hj0

theorem congr (h : OthersKept vm0 vm) (heq : vm'.scheduler = vm.scheduler) :
    OthersKept vm0 vm' := by
  have htask : ∀ i, vm'.task i = vm.task i := fun i =>
    congrFun (congrArg V4Scheduler.tasks heq) i
  exact ⟨heq ▸ h.current, fun i => htask i ▸ h.saved i, fun j hj => (htask j).trans (h.others j hj)⟩

theorem after (h : OthersKept vm0 vm) {keeps : Prop} (ha : AloneAfter vm vm' keeps) :
    OthersKept vm0 vm' where
  current := ha.current.trans h.current
  saved := ha.wf.saved
  others j hj := (ha.others j fun hcur => hj (h.current.symm.trans hcur)).trans (h.others j hj)

end OthersKept

/-! ## Instructions leave the scheduler alone -/

/-- The scheduler is `sched`. -/
def scheduler (W : Type) (sched : V4Scheduler) : RunInv W where
  machine m := m.vm.scheduler = sched
  act _ := True
  fp _ := True
  err _ m := m.vm.scheduler = sched
  fault := True

section

variable {H : Host W} {sched : V4Scheduler}

theorem scheduler_flow (cur : Activation) (f : Flow) : (scheduler W sched).flow cur f := by
  cases f with
  | call c ip => exact ⟨trivial, trivial⟩
  | _ => exact trivial

theorem scheduler_closed : (scheduler W sched).Closed :=
  ⟨fun _ hm => ⟨trivial, hm⟩, fun _ _ hm _ => hm, fun _ _ _ herr _ => herr⟩

variable (hH : H.IgnoresTasks)
include hH

theorem scheduler_panic {e : Err} (he : e ≠ .ok) :
    PanicAllows H (scheduler W sched).effect e.code where
  err m info hm _ := by
    refine ⟨Err.code_ne_zero he, ?_⟩
    show (m.notified H info).vm.scheduler = sched
    rw [notified_vm hH.respects]
    exact hm
  out _ _ _ := trivial

theorem scheduler_stack : StackAllows H (scheduler W sched).effect where
  ds _ _ _ hm _ := hm
  dsOut _ _ _ := trivial
  rsOut _ _ _ := trivial
  overflow := scheduler_panic hH (by decide)
  underflow := scheduler_panic hH (by decide)
  divByZero := scheduler_panic hH (by decide)

theorem scheduler_local : LocalAllows H (scheduler W sched).effect where
  set _ _ _ _ hm _ _ _ := hm
  noFrame := scheduler_panic hH (by decide)

theorem scheduler_memory : MemoryAllows H (scheduler W sched).effect fun _ => True where
  ram _ _ _ hm _ := hm
  ramOut _ _ _ _ _ := trivial
  mmioOut _ _ _ := trivial
  read32 f u addr out m hm := ⟨(hH.sched.read32 f u addr out m).trans hm, trivial⟩
  write32 f u addr val m hm := ⟨(hH.sched.write32 f u addr val m).trans hm, trivial⟩
  ok := trivial
  unaligned := trivial
  oobMemory := trivial
  fails _ _ hm _ he := ⟨he, hm⟩

theorem scheduler_fetch {cur : Activation}
    (hop : ∀ op, cur.nextOp = some op → op.isTask = false) :
    Meets (scheduler W sched).effect (fetch H cur) ((scheduler W sched).flow cur) := by
  have hF := (scheduler W sched).composable
  have hS : StackAllows H (scheduler W sched).effect := scheduler_stack hH
  have hflow : ∀ f, (scheduler W sched).flow cur f := scheduler_flow cur
  refine fetch_meets hF (fun _ _ _ => trivial) (.inr (scheduler_panic hH (by decide)))
    (fun _ => .inr (scheduler_panic hH (by decide))) fun op hlt hnext => ?_
  have hC : CodeMeets H (scheduler W sched).effect cur (cur.ip + 1) op
      ((scheduler W sched).flow cur) :=
    codeMeets_of_panics hF (fun _ _ _ => trivial) (fun e he => scheduler_panic hH he)
      (fun _ _ _ => trivial) hlt (fun _ _ => hflow _) (fun _ _ _ _ _ _ _ _ _ => hflow _)
      (hflow _) fun _ => hflow _
  exact execOp_meets hF hS.stackMeets hC (hS.rsMeets hF (fun _ _ _ hm _ => hm) op)
    (fun _ => (scheduler_local hH).localMeets hF hS)
    (fun _ => (scheduler_memory hH).memoryMeets hF hS)
    (fun _ => sys_meets hF fun f i x y z m hm => (hH.sched.sys f i x y z m).trans hm)
    fun h => absurd h (by rw [hop op hnext]; decide)

omit hH in
/-- The invariant speaks about the machine a configuration holds. -/
theorem scheduler_holds_iff {c : Config W} : (scheduler W sched).Holds [] c ↔
    ∀ n, c.machine = some n → n.vm.scheduler = sched := by
  have hcallers : ∀ cs, (scheduler W sched).callers [] cs := fun cs =>
    ⟨cs, (List.append_nil cs).symm, fun _ _ => ⟨trivial, trivial⟩⟩
  cases c with
  | run m cur cs =>
      exact ⟨fun h n hn => by cases hn; exact h.1, fun h => ⟨h m rfl, trivial, hcallers cs⟩⟩
  | poll w m cur cs =>
      exact ⟨fun h n hn => by cases hn; exact h.1, fun h => ⟨h m rfl, trivial, hcallers cs⟩⟩
  | ret e m cs =>
      refine ⟨fun h n hn => by cases hn; exact h.1.elim And.right And.right,
        fun h => ⟨?_, hcallers cs⟩⟩
      by_cases he : e = 0
      · exact .inl ⟨he, h m rfl⟩
      · exact .inr ⟨he, h m rfl⟩
  | fault => exact ⟨nofun, fun _ => trivial⟩

theorem step_scheduler {c d : Config W} (hc : c.NoTask) (hs : Step H c d) {n n' : Machine W}
    (hn : c.machine = some n) (hn' : d.machine = some n') : n'.vm.scheduler = n.vm.scheduler := by
  have hold : (scheduler W n.vm.scheduler).Holds [] c := scheduler_holds_iff.mpr fun n2 h2 => by
    rw [Option.some.inj (h2.symm.trans hn)]
  refine scheduler_holds_iff.mp (hold.step scheduler_closed hs ?_ ?_ ?_) n' hn'
  · rintro e m rfl
    cases hs
  · rintro m cur cs rfl
    exact scheduler_fetch hH hc m hold.1
  · rintro w m cur cs rfl
    exact hc.elim

end

/-! ## Whole runs -/

theorem Config.Alike.rp_le {c d : Config W} (h : c.Alike d) {n : Machine W}
    (hn : c.machine = some n) : n.vm.rp ≤ 64 := by
  cases h with
  | run hvm _ => cases hn; exact hvm.2.rsFits
  | poll hvm _ => cases hn; exact hvm.2.rsFits
  | ret hvm _ => cases hn; exact hvm.2.rsFits
  | fault => cases hn

/-- The VM after an interrupt is what the scheduler made of the VM before it. -/
theorem isr_machine {c : Config W} {tick : BitVec 32} {n' : Machine W}
    (h : (c.isr tick).machine = some n') :
    ∃ n, c.machine = some n ∧ vmScheduleFromIsr tick n.vm = some n'.vm := by
  cases c with
  | run m cur cs =>
      refine ⟨m, rfl, ?_⟩
      simp only [Config.isr] at h
      split at h
      · cases h; assumption
      · cases h
  | poll w m cur cs =>
      refine ⟨m, rfl, ?_⟩
      simp only [Config.isr] at h
      split at h
      · cases h; assumption
      · cases h
  | ret e m cs =>
      refine ⟨m, rfl, ?_⟩
      simp only [Config.isr] at h
      split at h
      · cases h; assumption
      · cases h
  | fault => cases h

/-- **One step of the interrupted run.**  An instruction is matched by an
    instruction, an interrupt by no step at all. -/
theorem Interrupted.matched {H : Host W} (hH : H.IgnoresTasks) {vm0 : Vm} (h0 : SchedWF vm0)
    {c c' d : Config W} (h : c.Alike d) (hd : d.NoTask)
    (hothers : ∀ n, c.machine = some n → OthersKept vm0 n.vm)
    (hs : Interrupted H (fun tick c => Alone tick vm0 ∧ c.IsrKeeps tick) c c') :
    (∃ d', Reaches H d d' ∧ c'.Alike d') ∧
      ∀ n, c'.machine = some n → OthersKept vm0 n.vm := by
  cases hs with
  | instr hs =>
      obtain ⟨d', hd', halike⟩ := h.step hH hd hs
      refine ⟨⟨d', .single hd', halike⟩, fun n' hn' => ?_⟩
      cases hn : c.machine with
      | none => cases c <;> cases hn; cases hs
      | some n =>
          exact (hothers n hn).congr (step_scheduler hH (h.noTask_iff.mpr hd) hs hn hn')
  | isr tick hok =>
      obtain ⟨halone, hkeeps⟩ := hok
      -- In every VM of the run the scheduler is well formed and the task still alone.
      have hcall : ∀ n, c.machine = some n → ∃ vm', vmScheduleFromIsr tick n.vm = some vm' ∧
          AloneAfter n.vm vm' (V4Engine.IsrKeeps tick n.vm) := fun n hn =>
        vmScheduleFromIsr_alone ((hothers n hn).wf h0 (h.rp_le hn)) ((hothers n hn).alone halone)
      refine ⟨⟨d, .refl, h.isr fun n hn => ?_⟩, fun n' hn' => ?_⟩
      · obtain ⟨vm', heq, hafter⟩ := hcall n hn
        exact ⟨vm', heq, hafter.live.mpr (hkeeps n hn)⟩
      · obtain ⟨n, hn, hsched⟩ := isr_machine hn'
        obtain ⟨vm', heq, hafter⟩ := hcall n hn
        obtain rfl := Option.some.inj (heq.symm.trans hsched)
        exact (hothers n hn).after hafter

/-- Every configuration of the interrupted run is one of the uninterrupted run. -/
theorem interrupted_reaches {H : Host W} (hH : H.IgnoresTasks) {m : Machine W}
    (hw : SchedWF m.vm) (hsp : m.vm.sp ≤ 256) {bc : List Byte} {len : Nat}
    (hnoTask : ∀ d, Reaches H (.start m bc len) d → d.NoTask) {c : Config W}
    (hrun : Relation.ReflTransGen
      (Interrupted H fun tick c => Alone tick m.vm ∧ c.IsrKeeps tick) (.start m bc len) c) :
    (∃ d, Reaches H (.start m bc len) d ∧ c.Alike d) ∧
      ∀ n, c.machine = some n → OthersKept m.vm n.vm := by
  induction hrun with
  | refl =>
      refine ⟨⟨_, .refl, .run (.refl hsp hw.rp) ⟨rfl, rfl⟩⟩, fun n hn => ?_⟩
      cases hn
      exact ⟨rfl, hw.saved, fun _ _ => rfl⟩
  | tail _ hs ih =>
      obtain ⟨⟨d, hd, halike⟩, hothers⟩ := ih
      obtain ⟨⟨d', hd', halike'⟩, hothers'⟩ := hs.matched hH hw halike (hnoTask d hd) hothers
      exact ⟨⟨d', hd.trans hd', halike'⟩, hothers'⟩

/-- **Transparency.**  In a reachable state where nobody else may run, a yield and
    an interrupt leave the live stacks as they are exactly when the current slot may
    run, its saved context is the live one or, for an interrupt, a critical section
    is open; and every run of a program without task opcodes in which all interrupts
    find the VM so passes through configurations of the uninterrupted run only. -/
theorem scheduling_transparent_iff {H : Host W} (hH : H.IgnoresTasks) {m : Machine W}
    (hreach : BackendReachable m.vm) (hsp : m.vm.sp ≤ 256) :
    (∀ tick, Alone tick m.vm →
      (∃ vm', backendStep (.yield tick) m.vm = some vm' ∧
        (SameStacks m.vm vm' ↔ CurrentKeeps tick m.vm)) ∧
      ∃ vm', backendStep (.scheduleFromIsr tick) m.vm = some vm' ∧
        (SameStacks m.vm vm' ↔ IsrKeeps tick m.vm)) ∧
    ∀ bc len, (∀ d, Reaches H (.start m bc len) d → d.NoTask) →
      ∀ c, Relation.ReflTransGen
          (Interrupted H fun tick c => Alone tick m.vm ∧ c.IsrKeeps tick) (.start m bc len) c →
        ∃ d, Reaches H (.start m bc len) d ∧ c.Agree d := by
  have hw := hreach.inv.sched
  refine ⟨fun tick ha => schedule_alone_iff hw ha, fun bc len hnoTask c hrun => ?_⟩
  obtain ⟨⟨d, hd, halike⟩, -⟩ := interrupted_reaches hH hw hsp hnoTask hrun
  exact ⟨d, hd, halike.agree⟩

theorem Host.silent_ignoresTasks : Host.silent.IgnoresTasks where
  respects := Host.silent_detached.respects [] []
  sys _ _ _ _ _ _ _ h := ⟨rfl, h⟩
  sched := Host.silent_within.mono fun _ _ heq => heq ▸ rfl

/-- One task was spawned and is running. -/
def oneTask : Vm := vmAfter [.spawn 0 1 0 0 true true, .schedule 0]

/-- The same task after `LIT1`. -/
def oneTaskLit1 : Vm := { oneTask with DS := Function.update (fun _ => 0) 0 1, sp := 1 }

theorem oneTask_reachable : BackendReachable oneTask := vmAfter_reachable (by decide)

/-- `LIT1`, and an interrupt before the `RET`. -/
theorem scheduling_transparent_lit1 :
    ∃ d, Reaches Host.silent (.start (Machine.boot oneTask) [0x74, 0x51] 2) d ∧
      ((Config.run (Machine.boot oneTaskLit1) ⟨[0x74, 0x51], 2, 1⟩ []).isr 5).Agree d := by
  have h1 : Step Host.silent (.start (Machine.boot oneTask) [0x74, 0x51] 2)
      (.run (Machine.boot oneTaskLit1) ⟨[0x74, 0x51], 2, 1⟩ []) := rfl
  have h2 : Step Host.silent (.run (Machine.boot oneTaskLit1) ⟨[0x74, 0x51], 2, 1⟩ [])
      (.ret 0 (Machine.boot oneTaskLit1) []) := rfl
  refine (scheduling_transparent_iff Host.silent_ignoresTasks (m := Machine.boot oneTask)
    oneTask_reachable (by decide)).2 [0x74, 0x51] 2 (fun d hd => ?_) _
    (.tail (.single (.instr h1)) (.isr 5 ⟨by decide, fun n hn => ?_⟩))
  · rcases hd.cases_step h1 with rfl | hd
    · intro op hop
      obtain rfl : Op.LIT1 = op := Option.some.inj hop
      rfl
    · rcases hd.cases_step h2 with rfl | hd
      · intro op hop
        obtain rfl : Op.RET = op := Option.some.inj hop
        rfl
      · cases hd.of_final rfl
        trivial
  · cases hn
    exact .inr fun i hi => .inl (by revert i; decide)

/-- No task was ever spawned: a yield, and likewise an interrupt, empties the stack. -/
theorem yield_without_tasks_wipes_stack :
    BackendReachable (vmAfter [pushedSeven]) ∧ Alone 0 (vmAfter [pushedSeven]) ∧
      (vmAfter [pushedSeven]).ds = [7] ∧
      (backendStep (.yield 0) (vmAfter [pushedSeven])).map Vm.ds = some [] ∧
      (backendStep (.scheduleFromIsr 0) (vmAfter [pushedSeven])).map Vm.ds = some [] :=
  ⟨vmAfter_reachable (by decide), by decide, by decide, by decide, by decide⟩

end V4Engine
