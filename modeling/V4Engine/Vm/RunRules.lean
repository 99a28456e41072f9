/-
  V4Engine.Vm.RunRules

  From instructions to runs: invariants of configurations.

  A `RunInv` says what holds of the machine between two instructions, of every
  activation on the call stack, of every saved frame pointer, and of the machine
  an activation fails with.  `Holds.step` carries it over a step as soon as the
  instruction of that step keeps it; `base` is the part of the call stack the
  invariant says nothing about.  `Config.instr` is the instruction about to be
  executed; once a run is `Over` there is none.
-/
import V4Engine.Vm.HelperRules

namespace V4Engine

open Lib FaultM VmM

variable {W : Type}

/-- No task opcode is executed in this configuration. -/
def Config.NoTask : Config W → Prop
  | .run _ cur _ => ∀ op, cur.nextOp = some op → op.isTask = false
  | .poll _ _ _ _ => False
  | _ => True

/-- An invariant of runs, part by part. -/
structure RunInv (W : Type) where
  machine : Machine W → Prop
  act : Activation → Prop
  fp : Option Nat → Prop
  err : V4Err → Machine W → Prop
  fault : Prop

namespace RunInv

/-- Where an instruction of activation `cur` may leave the switch. -/
def flow (R : RunInv W) (cur : Activation) : Flow → Prop
  | .next ip => R.act { cur with ip := ip }
  | .ret => True
  | .call c ip => R.act c ∧ R.act { cur with ip := ip }
  | .wait _ ip => R.act { cur with ip := ip }

/-- What one instruction has to keep. -/
def effect (R : RunInv W) : Effect V4Err (Machine W) where
  pre := R.machine
  ret _ m' := R.machine m'
  err e _ m' := e ≠ 0 ∧ R.err e m'
  stuck _ := R.fault

theorem composable (R : RunInv W) : R.effect.Composable where
  refl h := h
  pre _ h := h
  trans _ h := h
  err _ h := h
  stuck _ h := h

/-- A suspended caller. -/
def caller (R : RunInv W) (x : Caller) : Prop := R.act x.act ∧ R.fp x.oldFp

/-- The callers above `base`. -/
def callers (R : RunInv W) (base cs : List Caller) : Prop :=
  ∃ inner, cs = inner ++ base ∧ ∀ x ∈ inner, R.caller x

/-- The invariant of a configuration. -/
def Holds (R : RunInv W) (base : List Caller) : Config W → Prop
  | .run m cur cs => R.machine m ∧ R.act cur ∧ R.callers base cs
  | .poll _ m cur cs => R.machine m ∧ R.act cur ∧ R.callers base cs
  | .ret e m cs => (e = 0 ∧ R.machine m ∨ e ≠ 0 ∧ R.err e m) ∧ R.callers base cs
  | .fault => R.fault

/-- The frame-pointer updates around a call keep the invariant. -/
structure Closed (R : RunInv W) : Prop where
  enter : ∀ m, R.machine m → R.fp m.vm.fp ∧ R.machine (m.setFp (some m.vm.rp))
  leave : ∀ m fp, R.machine m → R.fp fp → R.machine (m.setFp fp)
  fail : ∀ e m fp, R.err e m → R.fp fp → R.err e (m.setFp fp)

variable {R : RunInv W} {H : Host W} {base : List Caller}

theorem callers.push {cs : List Caller} {x : Caller} (h : R.callers base cs) (hx : R.caller x) :
    R.callers base (x :: cs) := by
  obtain ⟨inner, rfl, hall⟩ := h
  refine ⟨x :: inner, rfl, fun y hy => ?_⟩
  rcases List.mem_cons.mp hy with rfl | hy
  · exact hx
  · exact hall y hy

/-- A caller above `base` and the ones below it. -/
theorem callers.pop {cs : List Caller} {x : Caller} (h : R.callers base (x :: cs))
    (hne : x :: cs ≠ base) : R.caller x ∧ R.callers base cs := by
  obtain ⟨inner, heq, hall⟩ := h
  cases inner with
  | nil => exact absurd heq hne
  | cons y inner =>
      cases heq
      exact ⟨hall x List.mem_cons_self, inner, rfl, fun y hy => hall y (List.mem_cons_of_mem x hy)⟩

/-- An instruction that stays within the effect leads to a good configuration. -/
theorem holds_settle (hR : R.Closed) {m : Machine W} {cur : Activation} {cs : List Caller}
    (hcs : R.callers base cs) {o : Outcome V4Err (Machine W) Flow}
    (h : R.effect.Admits (R.flow cur) m o) : R.Holds base (settle cur cs o) := by
  match o, h with
  | .ok (.next ip) m', h => exact ⟨h.1, h.2, hcs⟩
  | .ok .ret m', h => exact ⟨.inl ⟨rfl, h.1⟩, hcs⟩
  | .ok (.call c ip) m', h =>
      obtain ⟨hfp, henter⟩ := hR.enter m' h.1
      exact ⟨henter, h.2.1, hcs.push ⟨h.2.2, hfp⟩⟩
  | .ok (.wait w ip) m', h => exact ⟨h.1, h.2, hcs⟩
  | .err e m', h => exact ⟨.inr h, hcs⟩
  | .fault, h => exact h

/-- **Step rule.**  The invariant goes over a step that does not leave the part
    of the call stack above `base`. -/
theorem Holds.step (hR : R.Closed) {c d : Config W} (hc : R.Holds base c) (hs : Step H c d)
    (hexit : ∀ e m, c ≠ .ret e m base)
    (hrun : ∀ m cur cs, c = .run m cur cs → R.effect.Admits (R.flow cur) m (fetch H cur m))
    (hpoll : ∀ w m cur cs, c = .poll w m cur cs →
      R.effect.Admits (R.flow cur) m (pollOnce H w cur.ip m)) : R.Holds base d := by
  obtain ⟨m, cur, cs, rfl, rfl⟩ | ⟨w, m, cur, cs, rfl, rfl⟩ | ⟨m, x, cs, rfl, rfl⟩
    | ⟨e, m, x, cs, he, rfl, rfl⟩ := hs.cases
  · exact holds_settle hR hc.2.2 (hrun m cur cs rfl)
  · exact holds_settle hR hc.2.2 (hpoll w m cur cs rfl)
  · obtain ⟨hres, hcs⟩ := hc
    obtain ⟨hx, hcs'⟩ := hcs.pop fun heq => hexit 0 m (heq ▸ rfl)
    obtain ⟨-, hm⟩ | ⟨hne, -⟩ := hres
    · exact ⟨hR.leave m x.oldFp hm hx.2, hx.1, hcs'⟩
    · exact absurd rfl hne
  · obtain ⟨hres, hcs⟩ := hc
    obtain ⟨hx, hcs'⟩ := hcs.pop fun heq => hexit e m (heq ▸ rfl)
    obtain ⟨h0, -⟩ | ⟨-, herr⟩ := hres
    · exact absurd h0 he
    · exact ⟨.inr ⟨he, hR.fail e m x.oldFp herr hx.2⟩, hcs'⟩

/-- **Run rule.**  An invariant that every instruction and every poll keeps from
    every machine satisfying it holds of every configuration reached. -/
theorem Holds.reaches (hR : R.Closed)
    (hrun : ∀ cur, R.act cur → Meets R.effect (fetch H cur) (R.flow cur))
    (hpoll : ∀ w cur, R.act cur → Meets R.effect (pollOnce H w cur.ip) (R.flow cur))
    {c d : Config W} (hc : R.Holds [] c) (h : Reaches H c d) : R.Holds [] d := by
  refine h.invariant (fun c d hc hs => hc.step hR hs ?_ ?_ ?_) hc
  · rintro e m rfl
    cases hs
  · rintro m cur cs rfl
    exact hrun cur hc.2.1 m hc.1
  · rintro w m cur cs rfl
    exact hpoll w cur hc.2.1 m hc.1

end RunInv

/-! ## Effects that say little -/

section

variable {H : Host W}

/-- Anything may happen to the machine, and an error is never zero. -/
abbrev anyEffect (W : Type) : Effect V4Err (Machine W) :=
  .within (fun _ _ => True) (· ≠ 0)

theorem anyEffect_composable : (anyEffect W).Composable :=
  Effect.within_composable (fun _ => trivial) fun _ _ => trivial

theorem anyEffect_panic {e : Err} (he : e ≠ .ok) : PanicAllows H (anyEffect W) e.code :=
  ⟨fun _ _ _ _ => Err.code_ne_zero he, fun _ _ _ => trivial⟩

theorem anyEffect_stack : StackAllows H (anyEffect W) where
  ds _ _ _ _ _ := trivial
  dsOut _ _ _ := trivial
  rsOut _ _ _ := trivial
  overflow := anyEffect_panic (by decide)
  underflow := anyEffect_panic (by decide)
  divByZero := anyEffect_panic (by decide)

theorem anyEffect_local : LocalAllows H (anyEffect W) where
  set _ _ _ _ _ _ _ _ := trivial
  noFrame := anyEffect_panic (by decide)

theorem anyEffect_memory : MemoryAllows H (anyEffect W) fun _ => True where
  ram _ _ _ _ _ := trivial
  ramOut _ _ _ _ _ := trivial
  mmioOut _ _ _ := trivial
  read32 _ _ _ _ _ _ := ⟨trivial, trivial⟩
  write32 _ _ _ _ _ _ := ⟨trivial, trivial⟩
  ok := trivial
  unaligned := trivial
  oobMemory := trivial
  fails _ _ _ _ he := he

theorem anyEffect_task : TaskAllows (anyEffect W) where
  backend _ _ _ _ _ := trivial
  backendOut _ _ _ _ := trivial
  world _ _ _ := trivial
  counters _ _ _ _ _ := trivial

/-- Backend calls, readings of the clock and allocations never fail. -/
theorem infallible_task : TaskAllows (.infallible V4Err (Machine W)) where
  backend _ _ _ _ _ := trivial
  backendOut _ _ _ _ := trivial
  world _ _ _ := trivial
  counters _ _ _ _ _ := trivial

end

/-! ## The next instruction -/

/-- The activation about to execute an instruction. -/
def Config.instr : Config W → Option Activation
  | .run _ cur _ => if cur.nextOp.isSome then some cur else none
  | _ => none

/-- The run is over but for handing an error through the callers. -/
def Config.Over (c : Config W) : Prop := c = .fault ∨ ∃ e m cs, e ≠ 0 ∧ c = .ret e m cs

section

variable {H : Host W}

theorem Config.instr_run {m : Machine W} {cur : Activation} {cs : List Caller} {op : Op}
    (h : cur.nextOp = some op) : (Config.run m cur cs).instr = some cur :=
  if_pos (h ▸ rfl)

theorem Config.instr_eq_some {c : Config W} {a : Activation} (h : c.instr = some a) :
    ∃ m cs op, c = .run m a cs ∧ a.nextOp = some op := by
  cases c with
  | run m cur cs =>
      simp only [Config.instr, Option.ite_none_right_eq_some, Option.some.injEq] at h
      obtain ⟨hop, rfl⟩ := h
      obtain ⟨op, hop⟩ := Option.isSome_iff_exists.mp hop
      exact ⟨m, cs, op, rfl, hop⟩
  | _ => cases h

/-- Where there is no instruction the loop ends with an error. -/
theorem fetch_none {a : Activation} (h : a.nextOp = none) (m : Machine W) :
    fetch H a m = .fault ∨ ∃ e m', e ≠ 0 ∧ fetch H a m = .err e m' := by
  have hmeets : Meets (anyEffect W) (fetch H a) fun _ => False :=
    fetch_meets anyEffect_composable (fun _ _ _ => trivial) (.inr (anyEffect_panic (by decide)))
      (fun _ => .inr (anyEffect_panic (by decide))) fun op _ hop => absurd (hop.symm.trans h) nofun
  have hm := hmeets m trivial
  cases hx : fetch H a m with
  | ok f m' =>
      rw [hx] at hm
      exact hm.2.elim
  | err e m' =>
      rw [hx] at hm
      exact .inr ⟨e, m', hm, rfl⟩
  | fault => exact .inl rfl

/-- A failed activation hands its code to all of its callers. -/
theorem Reaches.failed {e : V4Err} (he : e ≠ 0) {m : Machine W} {cs : List Caller} {d : Config W}
    (h : Reaches H (.ret e m cs) d) : ∃ fp cs', d = .ret e (m.setFp fp) cs' := by
  refine h.invariant (I := fun d => ∃ fp cs', d = .ret e (m.setFp fp) cs') ?_ ⟨m.vm.fp, cs, rfl⟩
  rintro _ d ⟨fp, cs, rfl⟩ hs
  obtain ⟨_, _, _, h, -⟩ | ⟨_, _, _, _, h, -⟩ | ⟨_, _, _, h, -⟩ | ⟨e', m', x, cs', -, h, rfl⟩ :=
    hs.cases
  · cases h
  · cases h
  · cases h
    exact absurd rfl he
  · cases h
    exact ⟨x.oldFp, cs', rfl⟩

/-- A failure is handed out through all callers. -/
theorem ret_unwinds {e : V4Err} (he : e ≠ 0) (cs : List Caller) (m : Machine W) :
    ∃ m', Reaches H (.ret e m cs) (.ret e m' []) := by
  induction cs generalizing m with
  | nil => exact ⟨m, .refl⟩
  | cons x cs ih =>
      obtain ⟨m', hreach⟩ := ih (m.setFp x.oldFp)
      exact ⟨m', .head (if_neg he) hreach⟩

theorem Config.Over.reaches {c d : Config W} (hc : c.Over) (h : Reaches H c d) : d.Over := by
  obtain rfl | ⟨e, m, cs, he, rfl⟩ := hc
  · rw [h.of_final rfl]
    exact .inl rfl
  · obtain ⟨fp, cs', rfl⟩ := h.failed he
    exact .inr ⟨e, m.setFp fp, cs', he, rfl⟩

theorem Config.Over.instr {c : Config W} (hc : c.Over) : c.instr = none := by
  obtain rfl | ⟨e, m, cs, he, rfl⟩ := hc <;> rfl

/-- Nothing is executed from an activation without an instruction on. -/
theorem instr_none_of_no_instr {m : Machine W} {cur : Activation} {cs : List Caller} {d : Config W}
    (h : cur.nextOp = none) (hd : Reaches H (.run m cur cs) d) : d.instr = none := by
  have hs : Step H (.run m cur cs) (settle cur cs (fetch H cur m)) := rfl
  rcases hd.cases_step hs with rfl | hd
  · rw [Config.instr, h]
    rfl
  · refine (Config.Over.reaches ?_ hd).instr
    obtain hx | ⟨e, m', he, hx⟩ := fetch_none (H := H) h m
    · rw [hx]
      exact .inl rfl
    · rw [hx]
      exact .inr ⟨e, m', cs, he, rfl⟩

end

/-! ## Code reads, for an effect that allows every panic -/

/-- The immediate of an instruction, and the flows it can end with. -/
theorem codeMeets_of_panics {H : Host W} {F : Effect V4Err (Machine W)} {a : Activation}
    {ip : Nat} {op : Op} {Q : Flow → Prop} (hF : F.Composable) (out : CodeOut F a)
    (panics : ∀ e : Err, e ≠ .ok → PanicAllows H F e.code)
    (hwords : ∀ m, F.pre m → 256 < m.vm.wordCount → F.stuck m) (hip : ip ≤ a.len)
    (hnext : ∀ ip', ip' ≤ a.len → Q (.next ip'))
    (hcall : ∀ m idx code ip', F.pre m → idx < m.vm.wordCount →
      (m.vm.words idx).code = some code → 0 < (m.vm.words idx).codeLen → ip' ≤ a.len →
      Q (.call ⟨code, (m.vm.words idx).codeLen.toNat, 0⟩ ip'))
    (hret : Q .ret) (hwait : ∀ w, Q (.wait w ip)) : CodeMeets H F a ip op Q where
  noImm _ _ := hnext ip hip
  imm8 _ := (imm8_meets hF out (.inr (panics .truncatedLiteral (by decide)))).mono
    fun _ h => hnext _ h
  imm16 _ := (imm16_meets hF out (.inr (panics .truncatedLiteral (by decide)))).mono
    fun _ h => hnext _ h.1
  imm32 _ := (imm32_meets hF out (.inr (panics .truncatedLiteral (by decide)))).mono
    fun _ h => hnext _ h
  rel16 _ := (imm16_meets hF out (.inr (panics .truncatedJump (by decide)))).mono fun off h =>
    ⟨jumpTo_meets hF (.inr (panics .jumpOutOfRange (by decide))) fun _ _ => hnext _ (by omega),
      fun _ => hnext _ h.1⟩
  idx16 _ := (imm16_meets hF out (.inr (panics .truncatedJump (by decide)))).mono fun idx h =>
    callee_meets hF (.inr (panics .invalidWordIdx (by decide))) (panics .invalidArg (by decide))
      hwords fun m code hm hlt _ hcode hlen => hcall m idx.toNat code _ hm hlt hcode hlen h.1
  ret _ := hret
  wait _ := hwait

/-! ## Where an instruction leaves the switch -/

/-- What is known of the way out of the instruction at `a`: its length when it has
    no immediate, the operand of a `CALL`, the opcode of a blocking receive. -/
def Activation.Leaves (a : Activation) : Flow → Prop
  | .next ip => ∀ op, a.nextOp = some op → op.kind = .NoImm → ip = a.ip + 1
  | .ret => True
  | .call c ip => a.nextOp = some .CALL ∧ ip = a.ip + 3 ∧ c.ip = 0 ∧
      ∃ idx, i16At a.bc (a.ip + 1) = some idx ∧ idx.toNat < 256
  | .wait _ ip => a.nextOp = some .TASK_RECEIVE_BLOCKING ∧ ip = a.ip + 1

section

variable {H : Host W}

theorem fetch_leaves (a : Activation) : Meets (anyEffect W) (fetch H a) a.Leaves := by
  have hF := anyEffect_composable (W := W)
  have hS : StackAllows H (anyEffect W) := anyEffect_stack
  have out : CodeOut (anyEffect W) a := fun _ _ _ => trivial
  have panics : ∀ e : Err, e ≠ .ok → PanicAllows H (anyEffect W) e.code := fun _ he =>
    anyEffect_panic he
  refine fetch_meets hF out (.inr (panics .fellOffEnd (by decide)))
    (fun _ => .inr (panics .unknownOp (by decide))) fun op _ hop => ?_
  -- An instruction with an immediate says nothing about where it goes on.
  have himm : op.kind ≠ .NoImm → ∀ ip, a.Leaves (.next ip) := by
    intro hk ip op' hop' hk'
    obtain rfl : op = op' := Option.some.inj (hop.symm.trans hop')
    exact absurd hk' hk
  have hcall : op.kind = .Idx16 → op = .CALL := by
    cases op <;> decide
  have hC : CodeMeets H (anyEffect W) a (a.ip + 1) op a.Leaves := {
    noImm := fun _ _ _ _ _ => rfl
    imm8 := fun hk => (imm8_meets hF out (.inr (panics .truncatedLiteral (by decide)))).mono
      fun _ _ => himm (by rw [hk]; decide) _
    imm16 := fun hk => (imm16_meets hF out (.inr (panics .truncatedLiteral (by decide)))).mono
      fun _ _ => himm (by rw [hk]; decide) _
    imm32 := fun hk => (imm32_meets hF out (.inr (panics .truncatedLiteral (by decide)))).mono
      fun _ _ => himm (by rw [hk]; decide) _
    rel16 := fun hk => (imm16_meets hF out (.inr (panics .truncatedJump (by decide)))).mono
      fun _ _ => ⟨jumpTo_meets hF (.inr (panics .jumpOutOfRange (by decide))) fun _ _ =>
        himm (by rw [hk]; decide) _, fun _ => himm (by rw [hk]; decide) _⟩
    idx16 := fun hk => (imm16_meets hF out (.inr (panics .truncatedJump (by decide)))).mono
      fun idx hidx => callee_meets hF (.inr (panics .invalidWordIdx (by decide)))
        (panics .invalidArg (by decide)) (fun _ _ _ => trivial)
        fun _ _ _ _ h256 _ _ => ⟨hcall hk ▸ hop, rfl, rfl, idx, hidx.2, h256⟩
    ret := fun _ => trivial
    wait := fun heq w => ⟨heq ▸ hop, rfl⟩ }
  exact execOp_meets hF hS.stackMeets hC (hS.rsMeets hF (fun _ _ _ _ _ => trivial) op)
    (fun _ => anyEffect_local.localMeets hF hS)
    (fun _ => anyEffect_memory.memoryMeets hF hS)
    (fun _ => sys_meets hF fun _ _ _ _ _ _ _ => trivial)
    fun _ => anyEffect_task.taskMeets hF

/-- A poll goes on behind the receive, or keeps polling there. -/
theorem pollOnce_leaves (w : Waiting) (ip : Nat) :
    Meets (anyEffect W) (pollOnce H w ip) fun f => f = .next ip ∨ f = .wait w ip :=
  anyEffect_task.pollOnce anyEffect_composable anyEffect_stack w ip (.inl rfl) (.inr rfl)

end

end V4Engine
