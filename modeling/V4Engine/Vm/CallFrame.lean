/-
  V4Engine.Vm.CallFrame

  A call leaves its callers' frames alone.

  Locals, temporaries and nested frames share `RS`.  The interpreter keeps them
  apart by the frame pointer only: a callee starts with `fp = rp`, and the
  local-variable opcodes address slots from `fp` up to `rp`.  So a slot below
  every `rp` of the callee's execution is below every `fp` used in it, and no
  instruction writes it.
-/
import V4Engine.Vm.RunRules

namespace V4Engine

open Lib FaultM VmM

variable {W : Type}

/-! ## The execution of one call -/

/-- The configurations between the `CALL` that activation `cur` executes in machine
    `m` and the return of its callee with result `e`; `x` is the record the `CALL`
    leaves on top of the callers `cs`. -/
structure CallRun (H : Host W) (m : Machine W) (cur : Activation) (x : Caller) (cs : List Caller)
    (body : List (Config W)) (e : V4Err) (m' : Machine W) : Prop where
  call : cur.nextOp = some .CALL
  enter : ∀ c, body.head? = some c → Step H (.run m cur cs) c
  chain : body.IsChain (Step H)
  leave : body.getLast? = some (.ret e m' (x :: cs))
  inside : ∀ c ∈ body, ∃ inner, c.callers = inner ++ x :: cs
  noTask : ∀ c ∈ body, c.NoTask

/-- Index `i` is below `rp` all along the trace. -/
def BelowRp (body : List (Config W)) (i : Nat) : Prop :=
  ∀ c ∈ body, ∀ n, c.machine = some n → i < n.vm.rp

/-- The callbacks leave the return stack and the frame pointer alone. -/
abbrev Host.KeepsStacks (H : Host W) : Prop :=
  H.Within fun m m' => m'.vm.RS = m.vm.RS ∧ m'.vm.rp = m.vm.rp ∧ m'.vm.fp = m.vm.fp

/-! ## One slot -/

/-- Slot `i` holds `v`, it is below the frame pointer, and `rp` satisfies `P`. -/
def slotKept (W : Type) (i : Nat) (v : Cell) (P : Nat → Prop) : RunInv W where
  machine m := m.vm.RS i = v ∧ P m.vm.rp ∧ ∃ f, m.vm.fp = some f ∧ i < f
  act _ := True
  fp o := ∃ f, o = some f ∧ i < f
  err _ m := m.vm.RS i = v
  fault := True

section

variable {H : Host W} (hH : H.KeepsStacks) {i : Nat} {v : Cell} {P : Nat → Prop}

theorem slotKept_flow (cur : Activation) (f : Flow) : (slotKept W i v P).flow cur f := by
  cases f with
  | call c ip => exact ⟨trivial, trivial⟩
  | _ => exact trivial

/-- The part of the invariant a callback keeps. -/
theorem slotKept_callback {m m' : Machine W} (hm : (slotKept W i v P).machine m)
    (h : m'.vm.RS = m.vm.RS ∧ m'.vm.rp = m.vm.rp ∧ m'.vm.fp = m.vm.fp) :
    (slotKept W i v P).machine m' := by
  obtain ⟨hslot, hrp, hfp⟩ := hm
  refine ⟨?_, ?_, ?_⟩
  · rw [h.1]; exact hslot
  · rw [h.2.1]; exact hrp
  · rw [h.2.2]; exact hfp

include hH

theorem slotKept_panic {e : Err} (he : e ≠ .ok) :
    PanicAllows H (slotKept W i v P).effect e.code where
  err m info hm _ := by
    refine ⟨Err.code_ne_zero he, ?_⟩
    show (m.notified H info).vm.RS i = v
    unfold Machine.notified
    cases m.vm.panicHandler with
    | none => exact hm.1
    | some f => exact (congrFun (hH.panic f _ info _).1 i).trans hm.1
  out _ _ _ := trivial

theorem slotKept_stack : StackAllows H (slotKept W i v P).effect where
  ds _ _ _ hm _ := hm
  dsOut _ _ _ := trivial
  rsOut _ _ _ := trivial
  overflow := slotKept_panic hH (by decide)
  underflow := slotKept_panic hH (by decide)
  divByZero := slotKept_panic hH (by decide)

/-- A local variable is at or above the frame pointer. -/
theorem slotKept_local : LocalAllows H (slotKept W i v P).effect where
  set m fp j w hm hfp hle _ := by
    obtain ⟨hslot, hrp, f, hf, hlt⟩ := hm
    rw [hfp] at hf
    cases hf
    refine ⟨?_, hrp, fp, hfp, hlt⟩
    show Function.update m.vm.RS j w i = v
    rw [Function.update_of_ne (by omega)]
    exact hslot
  noFrame := slotKept_panic hH (by decide)

theorem slotKept_memory : MemoryAllows H (slotKept W i v P).effect fun _ => True where
  ram _ _ _ hm _ := hm
  ramOut _ _ _ _ _ := trivial
  mmioOut _ _ _ := trivial
  read32 f u addr out m hm := ⟨slotKept_callback hm (hH.read32 f u addr out m), trivial⟩
  write32 f u addr val m hm := ⟨slotKept_callback hm (hH.write32 f u addr val m), trivial⟩
  ok := trivial
  unaligned := trivial
  oobMemory := trivial
  fails _ _ hm _ he := ⟨he, hm.1⟩

/-- Every instruction outside the task group keeps the slot: `>R` as long as
    `i` is below `rp`, `R>` as long as nothing is asked of `rp`. -/
theorem slotKept_fetch {cur : Activation}
    (hop : ∀ op, cur.nextOp = some op → op.isTask = false ∧
      (op = .TOR → ∀ rp, P rp → i < rp ∧ P (rp + 1)) ∧
      (op = .FROMR → ∀ rp, P rp → P (rp - 1))) :
    Meets (slotKept W i v P).effect (fetch H cur) ((slotKept W i v P).flow cur) := by
  have hF := (slotKept W i v P).composable
  have hS : StackAllows H (slotKept W i v P).effect := slotKept_stack hH
  have hflow := slotKept_flow (W := W) (i := i) (v := v) (P := P) cur
  refine fetch_meets hF (fun _ _ _ => trivial) (.inr (slotKept_panic hH (by decide)))
    (fun _ => .inr (slotKept_panic hH (by decide))) fun op hlt hnext => ?_
  obtain ⟨htask, htor, hfromr⟩ := hop op hnext
  have hC : CodeMeets H (slotKept W i v P).effect cur (cur.ip + 1) op
      ((slotKept W i v P).flow cur) :=
    codeMeets_of_panics hF (fun _ _ _ => trivial) (fun e he => slotKept_panic hH he)
      (fun _ _ _ => trivial) hlt (fun _ _ => hflow _) (fun _ _ _ _ _ _ _ _ _ => hflow _)
      (hflow _) fun _ => hflow _
  have hR : RsMeets H (slotKept W i v P).effect op := by
    constructor
    · -- `>R` writes at `rp`, above the slot
      refine fun h => hS.tor hF fun m w hm _ => ?_
      obtain ⟨hslot, hrp, hfp⟩ := hm
      obtain ⟨hlt, hrp'⟩ := htor h _ hrp
      refine ⟨?_, hrp', hfp⟩
      show Function.update m.vm.RS m.vm.rp w i = v
      rw [Function.update_of_ne (Nat.ne_of_lt hlt)]
      exact hslot
    · exact fun h => hS.fromr hF fun m hm _ => ⟨hm.1, hfromr h _ hm.2.1, hm.2.2⟩
  exact execOp_meets hF hS.stackMeets hC hR (fun _ => (slotKept_local hH).localMeets hF hS)
    (fun _ => (slotKept_memory hH).memoryMeets hF hS)
    (fun _ => sys_meets hF fun f a x y z m hm => slotKept_callback hm (hH.sys f a x y z m))
    fun h => absurd h (by rw [htask]; decide)

end

/-! ## One step inside the callee -/

/-- The machine after an instruction, up to the frame pointer a call sets. -/
theorem settle_rp (cur : Activation) (cs : List Caller) (f : Flow) (m : Machine W) :
    ∃ n, (settle cur cs (.ok f m)).machine = some n ∧ n.vm.rp = m.vm.rp := by
  cases f <;> exact ⟨_, rfl, rfl⟩

theorem slotKept_closed {i : Nat} {v : Cell} : (slotKept W i v (i < ·)).Closed where
  enter _ hm := ⟨hm.2.2, hm.1, hm.2.1, _, rfl, hm.2.1⟩
  leave _ _ hm hfp := ⟨hm.1, hm.2.1, hfp⟩
  fail _ _ _ herr _ := herr

/-- What every configuration of the callee's execution satisfies. -/
structure InCall (base : List Caller) (i : Nat) (c : Config W) : Prop where
  noTask : c.NoTask
  inside : ∃ inner, c.callers = inner ++ base
  rp : ∀ n, c.machine = some n → i < n.vm.rp

/-- **One step.**  Inside the callee a slot below `rp` and below every frame pointer
    in use stays what it is. -/
theorem slotKept_step {H : Host W} (hH : H.KeepsStacks) {x : Caller} {cs : List Caller} {i : Nat}
    {v : Cell} {c d : Config W} (hc : (slotKept W i v (i < ·)).Holds (x :: cs) c)
    (hin : InCall (x :: cs) i c) (hin' : InCall (x :: cs) i d) (hs : Step H c d) :
    (slotKept W i v (i < ·)).Holds (x :: cs) d := by
  refine hc.step slotKept_closed hs ?_ ?_ ?_
  · -- The return of the callee itself leads out of the trace.
    rintro e m rfl
    have hcallers : d.callers = cs := by
      obtain ⟨_, _, _, h, -⟩ | ⟨_, _, _, _, h, -⟩ | ⟨_, _, _, h, rfl⟩ | ⟨_, _, _, _, -, h, rfl⟩ :=
        hs.cases
      · cases h
      · cases h
      · cases h; rfl
      · cases h; rfl
    obtain ⟨inner, heq⟩ := hin'.inside
    have hlen := congrArg List.length (hcallers.symm.trans heq)
    rw [List.length_append, List.length_cons] at hlen
    omega
  · rintro m cur cs' rfl
    by_cases hop : cur.nextOp = some .FROMR
    · -- `R>` lowers `rp`; that it stays above `i` is known of the configuration after it.
      have hmeets : Meets (slotKept W i v fun _ => True).effect (fetch H cur)
          ((slotKept W i v fun _ => True).flow cur) :=
        slotKept_fetch hH fun op hnext => by
          obtain rfl : Op.FROMR = op := Option.some.inj (hop.symm.trans hnext)
          exact ⟨rfl, nofun, fun _ _ _ => trivial⟩
      have hfetch := hmeets m ⟨hc.1.1, trivial, hc.1.2.2⟩
      have hd : settle cur cs' (fetch H cur m) = d := Option.some.inj hs
      cases ho : fetch H cur m with
      | ok f m' =>
          rw [ho] at hfetch hd
          obtain ⟨n, hn, hrp⟩ := settle_rp cur cs' f m'
          have hlt : i < m'.vm.rp := hrp ▸ hin'.rp n (hd ▸ hn)
          exact ⟨⟨hfetch.1.1, hlt, hfetch.1.2.2⟩, slotKept_flow cur f⟩
      | err e m' => rw [ho] at hfetch; exact hfetch
      | fault => trivial
    · refine slotKept_fetch hH (fun op hnext => ⟨hin.noTask op hnext, fun _ rp hlt => ⟨hlt, ?_⟩,
        ?_⟩) m hc.1
      · exact Nat.lt_succ_of_lt hlt
      · rintro rfl
        exact absurd hnext hop
  · rintro w m cur cs' rfl
    exact hin.noTask.elim

/-! ## The `CALL` itself -/

/-- Reading the operand of an instruction leaves the machine alone. -/
def quietEffect (W : Type) : Effect V4Err (Machine W) where
  pre _ := True
  ret m m' := m' = m
  err _ _ _ := True
  stuck _ := True

theorem quietEffect_composable : (quietEffect W).Composable :=
  Effect.within_composable (fun _ => rfl) fun h h' => h'.trans h

/-- A `CALL` that gets past its checks starts the callee in the machine it found,
    with a fresh frame, and remembers the caller's frame pointer. -/
theorem call_enter {H : Host W} {m : Machine W} {cur : Activation} {x : Caller} {cs : List Caller}
    {c : Config W} (hop : cur.nextOp = some .CALL) (hs : Step H (.run m cur cs) c)
    (hin : ∃ inner, c.callers = inner ++ x :: cs) :
    x.oldFp = m.vm.fp ∧ ∃ w, c = .run (m.setFp (some m.vm.rp)) w (x :: cs) := by
  have hF := quietEffect_composable (W := W)
  have hpanic : ∀ e : V4Err, PanicAllows H (quietEffect W) e := fun _ =>
    ⟨fun _ _ _ _ => trivial, fun _ _ _ => trivial⟩
  have out : CodeOut (quietEffect W) cur := fun _ _ _ => trivial
  have hmeets : Meets (quietEffect W) (fetch H cur) fun f => ∃ w ip, f = .call w ip := by
    refine fetch_meets hF out (.inr (hpanic _)) (fun _ => .inr (hpanic _)) fun op _ hnext => ?_
    obtain rfl : Op.CALL = op := Option.some.inj (hop.symm.trans hnext)
    refine .bind hF (imm16_meets hF out (.inr (hpanic _))) fun idx _ => ?_
    have hcallee : Meets (quietEffect W) (callee H idx) anyValue :=
      callee_meets hF (.inr (hpanic _)) (hpanic _) (fun _ _ _ => trivial)
        fun _ _ _ _ _ _ _ => trivial
    exact .bind hF hcallee fun w _ => .pure hF ⟨w, _, rfl⟩
  have hfetch := hmeets m trivial
  have hc : settle cur cs (fetch H cur m) = c := Option.some.inj hs
  -- A configuration with fewer callers cannot be inside the call.
  have hshort : ∀ l : List Caller, l.length ≤ cs.length → c.callers ≠ l := by
    rintro l hl rfl
    obtain ⟨inner, heq⟩ := hin
    have hlen := congrArg List.length heq
    rw [List.length_append, List.length_cons] at hlen
    omega
  cases ho : fetch H cur m with
  | ok f m' =>
      rw [ho] at hfetch hc
      obtain ⟨rfl, w, ip, rfl⟩ := hfetch
      obtain ⟨inner, heq⟩ := hin
      rw [← hc] at heq
      change (⟨{ cur with ip := ip }, m'.vm.fp⟩ : Caller) :: cs = inner ++ x :: cs at heq
      -- Only one caller was added, so it is `x`.
      have hinner : inner = [] := by
        have hlen := congrArg List.length heq
        rw [List.length_append, List.length_cons, List.length_cons] at hlen
        exact List.length_eq_zero_iff.mp (by omega)
      subst hinner
      cases heq
      exact ⟨rfl, w, hc.symm⟩
  | err e m' =>
      rw [ho] at hc
      exact absurd (hc ▸ rfl) (hshort cs (Nat.le_refl _))
  | fault =>
      rw [ho] at hc
      exact absurd (hc ▸ rfl) (hshort [] (Nat.zero_le _))

/-- The callee's return, with success or with an error, puts the frame pointer
    back. -/
theorem call_leave {H : Host W} (e : V4Err) (m : Machine W) (x : Caller) (cs : List Caller) :
    ∃ d, Step H (.ret e m (x :: cs)) d ∧ d.machine = some (m.setFp x.oldFp) := by
  by_cases he : e = 0
  · exact ⟨_, if_pos he, rfl⟩
  · exact ⟨_, if_neg he, rfl⟩

/-! ## The whole call -/

/-- A slot below `rp` throughout the callee's execution keeps its value. -/
theorem CallRun.slot {H : Host W} (hH : H.KeepsStacks) {m m' : Machine W} {cur : Activation}
    {x : Caller} {cs : List Caller} {body : List (Config W)} {e : V4Err}
    (h : CallRun H m cur x cs body e m') {i : Nat} (hi : BelowRp body i) :
    m'.vm.RS i = m.vm.RS i := by
  match body, h, hi with
  | c :: rest, h, hi =>
      have hin : ∀ d ∈ c :: rest, InCall (x :: cs) i d := fun d hd =>
        ⟨h.noTask d hd, h.inside d hd, hi d hd⟩
      obtain ⟨-, w, rfl⟩ := call_enter h.call (h.enter c rfl) (h.inside c List.mem_cons_self)
      have hlt : i < m.vm.rp := hi _ List.mem_cons_self (m.setFp (some m.vm.rp)) rfl
      have hall := trace_invariant (fun c d hc hq hq' hs => slotKept_step hH hc hq hq' hs)
        h.chain hin
        (show (slotKept W i (m.vm.RS i) (i < ·)).Holds (x :: cs) _ from
          ⟨⟨rfl, hlt, _, rfl, hlt⟩, trivial, [], rfl, nofun⟩)
      have hlast := hall _ (List.mem_of_getLast? h.leave)
      exact hlast.1.elim (fun hm => hm.2.1) fun herr => herr.2

/-- **Call frames.**  When a call finishes, with success or with an error, `fp` is
    what it was before, and so is every slot of the return stack below the least
    `rp` of the callee's execution: all slots of the callers if the callee never
    pops below its entry `rp`. -/
theorem call_isolates {H : Host W} (hH : H.KeepsStacks) {m m' : Machine W} {cur : Activation}
    {x : Caller} {cs : List Caller} {body : List (Config W)} {e : V4Err}
    (h : CallRun H m cur x cs body e m') :
    ∃ d n, Step H (.ret e m' (x :: cs)) d ∧ d.machine = some n ∧ n.vm.fp = m.vm.fp ∧
      (∀ i, BelowRp body i → n.vm.RS i = m.vm.RS i) ∧
      ((∀ c ∈ body, ∀ k, c.machine = some k → m.vm.rp ≤ k.vm.rp) →
        ∀ i, i < m.vm.rp → n.vm.RS i = m.vm.RS i) := by
  obtain ⟨d, hs, hd⟩ := call_leave (H := H) e m' x cs
  have hfp : x.oldFp = m.vm.fp := by
    match body, h with
    | c :: rest, h => exact (call_enter h.call (h.enter c rfl) (h.inside c List.mem_cons_self)).1
  refine ⟨d, m'.setFp x.oldFp, hs, hd, hfp, fun i hi => h.slot hH hi, fun hrp i hi => h.slot hH ?_⟩
  exact fun c hc k hk => Nat.lt_of_lt_of_le hi (hrp c hc k hk)

/-- One word, and one value on the return stack. -/
def pushedVm : Vm := { oneWordVm with RS := fun _ => 7, rp := 1 }

/-- `CALL 0` on the word `RET` gives back the frame pointer and the slot. -/
theorem call_isolates_ret :
    ∃ d n, Step Host.silent (.ret 0 ((Machine.boot pushedVm).setFp (some 1))
        [⟨⟨[0x50, 0, 0, 0x51], 4, 3⟩, none⟩]) d ∧
      d.machine = some n ∧ n.vm.fp = none ∧ n.vm.RS 0 = 7 := by
  -- The call is `[0x50, 0, 0]` and the callee the single byte RET.
  have hrun : CallRun Host.silent (Machine.boot pushedVm) ⟨[0x50, 0, 0, 0x51], 4, 0⟩
      ⟨⟨[0x50, 0, 0, 0x51], 4, 3⟩, none⟩ []
      [.run ((Machine.boot pushedVm).setFp (some 1)) ⟨[0x51], 1, 0⟩
          [⟨⟨[0x50, 0, 0, 0x51], 4, 3⟩, none⟩],
        .ret 0 ((Machine.boot pushedVm).setFp (some 1)) [⟨⟨[0x50, 0, 0, 0x51], 4, 3⟩, none⟩]] 0
      ((Machine.boot pushedVm).setFp (some 1)) := by
    refine ⟨rfl, ?_, .cons_cons rfl (.singleton _), rfl, ?_, ?_⟩
    · rintro c hc
      cases hc
      rfl
    · intro c hc
      rcases List.mem_cons.mp hc with rfl | hc
      · exact ⟨[], rfl⟩
      · rw [List.mem_singleton.mp hc]
        exact ⟨[], rfl⟩
    · intro c hc
      rcases List.mem_cons.mp hc with rfl | hc
      · intro op hop
        obtain rfl : Op.RET = op := Option.some.inj hop
        rfl
      · rw [List.mem_singleton.mp hc]
        trivial
  have hkeeps : Host.silent.KeepsStacks :=
    Host.silent_within.mono fun _ _ heq => heq ▸ ⟨rfl, rfl, rfl⟩
  obtain ⟨d, n, hs, hd, hfp, -, hslots⟩ := call_isolates hkeeps hrun
  refine ⟨d, n, hs, hd, hfp, hslots (fun c hc k hk => ?_) 0 Nat.zero_lt_one⟩
  rcases List.mem_cons.mp hc with rfl | hc
  · cases hk
    exact Nat.le_refl _
  · rw [List.mem_singleton.mp hc] at hk
    cases hk
    exact Nat.le_refl _

end V4Engine
