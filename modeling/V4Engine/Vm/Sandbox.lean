/-
  V4Engine.Vm.Sandbox

  The interpreter never leaves its arrays.

  `Vm.Sandboxed` collects the bounds: stack depths, frame pointer, table sizes,
  the scheduler and queue indices, and the agreement of recorded with real
  lengths of code and RAM.  Every access outside an array is a fault of the
  model, so that safety is the absence of `Config.fault` in every run from such
  a state, at every call depth and on every error return.
-/
import V4Engine.Vm.RunRules
import V4Engine.Task.Frame

namespace V4Engine

open Lib FaultM VmM

variable {W : Type}

/-- The bounds on a VM state. -/
structure Vm.Sandboxed (vm : Vm) : Prop where
  sp : vm.sp ≤ 256
  fp : ∀ i, vm.fp = some i → i ≤ 64
  backend : BackendInv vm
  wordCount : vm.wordCount ≤ 256
  mmioCount : vm.mmioCount ≤ 16
  words : ∀ i code, i < vm.wordCount → (vm.words i).code = some code →
    (vm.words i).codeLen = code.length
  ram : ∀ ram, vm.mem = some ram → ram.cap = vm.memSize.toNat

/-- The instruction pointer is within the code, and the length is the true one. -/
def Activation.InCode (a : Activation) : Prop := a.ip ≤ a.len ∧ a.len = a.bc.length

/-- No access has left an array, the VM is within its bounds, and so is every activation. -/
structure Config.Safe (c : Config W) : Prop where
  noFault : c ≠ .fault
  bounds : ∀ m, c.machine = some m → m.vm.Sandboxed
  current : ∀ a, c.current = some a → a.InCode
  callers : ∀ x ∈ c.callers, x.act.InCode

/-- The bounds as an invariant of runs. -/
def sandbox (W : Type) : RunInv W where
  machine m := m.vm.Sandboxed
  act := Activation.InCode
  fp o := ∀ i, o = some i → i ≤ 64
  err _ m := m.vm.Sandboxed
  fault := False

namespace Vm.Sandboxed

variable {vm : Vm} (h : vm.Sandboxed)
include h

theorem withFp {fp : Option Nat} (hfp : ∀ i, fp = some i → i ≤ 64) :
    Vm.Sandboxed { vm with fp := fp } where
  sp := h.sp
  fp := hfp
  backend := ⟨h.backend.sched.congr rfl rfl fun _ => Nat.le_refl _, h.backend.queue⟩
  wordCount := h.wordCount
  mmioCount := h.mmioCount
  words := h.words
  ram := h.ram

theorem withDs {DS : Nat → Cell} {sp : Nat} (hsp : sp ≤ 256) :
    Vm.Sandboxed { vm with DS := DS, sp := sp } where
  sp := hsp
  fp := h.fp
  backend := ⟨h.backend.sched.congr rfl rfl fun _ => Nat.le_refl _, h.backend.queue⟩
  wordCount := h.wordCount
  mmioCount := h.mmioCount
  words := h.words
  ram := h.ram

theorem withRs {RS : Nat → Cell} {rp : Nat} (hrp : rp ≤ 64) :
    Vm.Sandboxed { vm with RS := RS, rp := rp } where
  sp := h.sp
  fp := h.fp
  backend := ⟨⟨h.backend.sched.current, hrp, h.backend.sched.saved⟩, h.backend.queue⟩
  wordCount := h.wordCount
  mmioCount := h.mmioCount
  words := h.words
  ram := h.ram

theorem withBytes {ram : Ram} (hram : vm.mem = some ram) (byte : Nat → Byte) :
    Vm.Sandboxed { vm with mem := some { ram with byte := byte } } where
  sp := h.sp
  fp := h.fp
  backend := ⟨h.backend.sched.congr rfl rfl fun _ => Nat.le_refl _, h.backend.queue⟩
  wordCount := h.wordCount
  mmioCount := h.mmioCount
  words := h.words
  ram := by
    intro ram' heq
    cases heq
    exact h.ram ram hram

/-- A backend call is defined and keeps the bounds. -/
theorem backendStep {o : BackendOp} {vm' : Vm} (hs : backendStep o vm = some vm') :
    vm'.Sandboxed := by
  obtain ⟨hf, hsp⟩ := backendStep_frame hs
  refine ⟨hsp h.sp, ?_, h.backend.step hs, ?_, ?_, ?_, ?_⟩
  · rw [hf.fp]; exact h.fp
  · rw [hf.wordCount]; exact h.wordCount
  · rw [hf.mmioCount]; exact h.mmioCount
  · rw [hf.wordCount, hf.words]; exact h.words
  · rw [hf.mem, hf.memSize]; exact h.ram

end Vm.Sandboxed

/-! ## Every helper -/

/-- The callbacks keep the bounds. -/
abbrev Host.KeepsSandbox (H : Host W) : Prop :=
  H.Within fun m m' => m.vm.Sandboxed → m'.vm.Sandboxed

section

variable {H : Host W} (hH : H.KeepsSandbox)
include hH

theorem sandbox_panic {e : Err} (he : e ≠ .ok) : PanicAllows H (sandbox W).effect e.code where
  err m info hm _ := by
    refine ⟨Err.code_ne_zero he, ?_⟩
    show (m.notified H info).vm.Sandboxed
    unfold Machine.notified
    cases m.vm.panicHandler with
    | none => exact hm
    | some f => exact hH.panic f _ info { m with panicLog := info :: m.panicLog } hm
  out m hm h := absurd hm.sp (Nat.not_le.mpr h)

theorem sandbox_stack : StackAllows H (sandbox W).effect where
  ds m DS sp hm hsp := hm.withDs (by have := hm.sp; omega)
  dsOut m hm h := absurd hm.sp (Nat.not_le.mpr h)
  rsOut m hm h := absurd hm.backend.sched.rp (Nat.not_le.mpr h)
  overflow := sandbox_panic hH (by decide)
  underflow := sandbox_panic hH (by decide)
  divByZero := sandbox_panic hH (by decide)

theorem sandbox_rs (op : Op) : RsMeets H (sandbox W).effect op :=
  (sandbox_stack hH).rsMeets (sandbox W).composable (fun m RS rp hm hrp =>
    hm.withRs (by have := hm.backend.sched.rp; omega)) op

theorem sandbox_local : LocalAllows H (sandbox W).effect where
  set m fp i v hm _ _ _ := hm.withRs hm.backend.sched.rp
  noFrame := sandbox_panic hH (by decide)

theorem sandbox_memory : MemoryAllows H (sandbox W).effect fun _ => True where
  ram _ _ byte hm hram := hm.withBytes hram byte
  ramOut _ ram hm hram h := absurd h (Nat.not_lt.mpr (Nat.le_of_eq (hm.ram ram hram).symm))
  mmioOut _ hm h := absurd hm.mmioCount (Nat.not_le.mpr h)
  read32 f u addr out m hm := ⟨hH.read32 f u addr out m hm, trivial⟩
  write32 f u addr val m hm := ⟨hH.write32 f u addr val m hm, trivial⟩
  ok := trivial
  unaligned := trivial
  oobMemory := trivial
  fails _ _ hm _ he := ⟨he, hm⟩

omit hH in
theorem sandbox_task : TaskAllows (sandbox W).effect where
  backend m o vm hm hs := hm.backendStep hs
  backendOut m o hm hs := by
    have hdef := hm.backend.defined o
    rw [hs] at hdef
    cases hdef
  world m w hm := hm
  counters m t a i hm := hm

omit hH in
theorem sandbox_out {a : Activation} (ha : a.InCode) : CodeOut (sandbox W).effect a :=
  fun _ _ h => absurd ha.2 (Nat.ne_of_gt h)

omit hH in
theorem sandbox_closed : (sandbox W).Closed where
  enter m hm := by
    refine ⟨hm.fp, hm.withFp fun i hi => ?_⟩
    cases hi
    exact hm.backend.sched.rp
  leave m fp hm hfp := hm.withFp hfp
  fail e m fp hm hfp := hm.withFp hfp

/-- Every instruction of a word keeps the bounds. -/
theorem sandbox_fetch {a : Activation} (ha : a.InCode) :
    Meets (sandbox W).effect (fetch H a) ((sandbox W).flow a) := by
  have hF := (sandbox W).composable
  have hS := sandbox_stack hH
  have hwords : ∀ m, (sandbox W).effect.pre m → 256 < m.vm.wordCount →
      (sandbox W).effect.stuck m := fun m hm h => absurd hm.wordCount (Nat.not_le.mpr h)
  refine fetch_meets hF (sandbox_out ha) (.inr (sandbox_panic hH (by decide)))
    (fun _ => .inr (sandbox_panic hH (by decide))) fun op hlt _ => ?_
  have hC : CodeMeets H (sandbox W).effect a (a.ip + 1) op ((sandbox W).flow a) := by
    refine codeMeets_of_panics hF (sandbox_out ha) (fun e he => sandbox_panic hH he) hwords hlt
      (fun ip' hip => ⟨hip, ha.2⟩) ?_ trivial fun _ => ⟨hlt, ha.2⟩
    intro m idx code ip' hm hidx hcode hlen hip
    refine ⟨⟨Nat.zero_le _, ?_⟩, hip, ha.2⟩
    show (m.vm.words idx).codeLen.toNat = code.length
    rw [hm.words idx code hidx hcode, Int.toNat_natCast]
  exact execOp_meets hF hS.stackMeets hC (sandbox_rs hH op)
    (fun _ => (sandbox_local hH).localMeets hF hS)
    (fun _ => (sandbox_memory hH).memoryMeets hF hS)
    (fun _ => sys_meets hF fun f i x y z m hm => hH.sys f i x y z m hm)
    fun _ => sandbox_task.taskMeets hF

end

/-! ## Every run -/

/-- A configuration that satisfies the invariant of runs is safe. -/
theorem safe_of_holds {c : Config W} (h : (sandbox W).Holds [] c) : c.Safe := by
  have hcallers : ∀ {cs}, (sandbox W).callers [] cs → ∀ x ∈ cs, x.act.InCode := by
    rintro _ ⟨inner, rfl, hall⟩ x hx
    rw [List.append_nil] at hx
    exact (hall x hx).1
  cases c with
  | run m cur cs =>
      refine ⟨nofun, fun m' hm => ?_, fun a ha => ?_, hcallers h.2.2⟩
      · cases hm; exact h.1
      · cases ha; exact h.2.1
  | poll w m cur cs =>
      refine ⟨nofun, fun m' hm => ?_, fun a ha => ?_, hcallers h.2.2⟩
      · cases hm; exact h.1
      · cases ha; exact h.2.1
  | ret e m cs =>
      refine ⟨nofun, fun m' hm => ?_, nofun, hcallers h.2⟩
      cases hm
      exact h.1.elim And.right And.right
  | fault => exact h.elim

/-- **Sandbox.**  From a state within the bounds, every configuration of every run
    is within them: no access leaves an array, at any call depth and on any
    error return. -/
theorem vmExecRaw_safe (H : Host W) (hH : H.KeepsSandbox) (m : Machine W) (hm : m.vm.Sandboxed)
    (bc : List Byte) {c : Config W} (h : Reaches H (.start m bc bc.length) c) : c.Safe := by
  have hstart : (sandbox W).Holds [] (.start m bc bc.length) :=
    ⟨hm, ⟨Nat.zero_le _, rfl⟩, [], rfl, nofun⟩
  refine safe_of_holds (RunInv.Holds.reaches sandbox_closed (fun cur ha => sandbox_fetch hH ha)
    (fun w cur ha => ?_) hstart h)
  exact sandbox_task.pollOnce (sandbox W).composable (sandbox_stack hH) w cur.ip ha ha

theorem blank_sandboxed : Vm.blank.Sandboxed where
  sp := Nat.zero_le _
  fp := nofun
  backend := ⟨⟨by decide, Nat.zero_le _, fun _ => Nat.zero_le _⟩, .zero⟩
  wordCount := Nat.zero_le _
  mmioCount := Nat.zero_le _
  words := nofun
  ram := nofun

/-- Sixteen bytes of RAM, a window over four of them, and the word `LIT 8; LOAD; RET`. -/
def windowVm : Vm :=
  { Vm.blank with
    mem := some ⟨16, fun _ => 0⟩
    memSize := 16
    mmio := fun _ => ⟨8, 4, some 0, none, 0⟩
    mmioCount := 1
    words := fun _ => ⟨some [0x00, 8, 0, 0, 0, 0x30, 0x51], 7⟩
    wordCount := 1 }

/-- `CALL 0; RET`: the word has read through the window, and its caller waits. -/
theorem vmExecRaw_safe_load : ∃ m a x,
    Reaches Host.silent (.start (.boot windowVm) [0x50, 0, 0, 0x51] 4) (.run m a [x]) ∧
      a.ip = 6 ∧ m.vm.sp = 1 ∧ (Config.run m a [x]).Safe := by
  have hvm : windowVm.Sandboxed :=
    { sp := Nat.zero_le _
      fp := nofun
      backend := ⟨blank_sandboxed.backend.sched.congr rfl rfl fun _ => Nat.le_refl _,
        blank_sandboxed.backend.queue⟩
      wordCount := by decide
      mmioCount := by decide
      words := fun i code _ hcode => by cases hcode; rfl
      ram := fun ram hram => by cases hram; rfl }
  have hreach : Reaches Host.silent (.start (.boot windowVm) [0x50, 0, 0, 0x51] 4) _ :=
    .head rfl (.head rfl (.single rfl))
  exact ⟨_, _, _, hreach, rfl, rfl, vmExecRaw_safe Host.silent
    (Host.silent_within.mono fun _ _ heq hm => heq ▸ hm) (.boot windowVm) hvm _ hreach⟩

end V4Engine
