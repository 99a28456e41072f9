/-
  V4Engine.Vm.FrameRules

  What instructions leave alone, as a relation between the VM before and after.

  A `FrameRelation` ignores the stacks, the frame pointer and the bytes of RAM,
  which is all the instructions outside the task group write.  `framedBy_fetch` is
  the frame rule for one instruction and `framedBy_reaches` the one for a run; a
  relation that backend calls keep as well covers the task instructions too.
-/
import V4Engine.Vm.RunRules

namespace V4Engine

open Lib FaultM VmM

variable {W : Type}

/-- A preorder that does not look at stacks, frame pointer and RAM bytes. -/
structure Vm.FrameRelation (R : Vm → Vm → Prop) : Prop where
  refl : ∀ vm, R vm vm
  trans : ∀ {a b c}, R a b → R b c → R a c
  stackUpdate : ∀ (vm : Vm) DS RS sp rp fp,
    R vm { vm with DS := DS, RS := RS, sp := sp, rp := rp, fp := fp }
  byteUpdate : ∀ (vm : Vm) ram byte, vm.mem = some ram →
    R vm { vm with mem := some { ram with byte := byte } }

/-- Backend calls keep the relation. -/
def Vm.KeptByBackend (R : Vm → Vm → Prop) : Prop :=
  ∀ o vm vm', backendStep o vm = some vm' → R vm vm'

/-- The VM is related to `vm0`. -/
def framedBy (W : Type) (R : Vm → Vm → Prop) (vm0 : Vm) : RunInv W where
  machine m := R vm0 m.vm
  act _ := True
  fp _ := True
  err _ m := R vm0 m.vm
  fault := True

section

variable {H : Host W} {R : Vm → Vm → Prop} {vm0 : Vm} (hR : Vm.FrameRelation R)
include hR

namespace Vm.FrameRelation

theorem withDs {vm : Vm} (h : R vm0 vm) (DS : Nat → Cell) (sp : Nat) :
    R vm0 { vm with DS := DS, sp := sp } :=
  hR.trans h (hR.stackUpdate vm DS vm.RS sp vm.rp vm.fp)

theorem withRs {vm : Vm} (h : R vm0 vm) (RS : Nat → Cell) (rp : Nat) :
    R vm0 { vm with RS := RS, rp := rp } :=
  hR.trans h (hR.stackUpdate vm vm.DS RS vm.sp rp vm.fp)

theorem withFp {vm : Vm} (h : R vm0 vm) (fp : Option Nat) : R vm0 { vm with fp := fp } :=
  hR.trans h (hR.stackUpdate vm vm.DS vm.RS vm.sp vm.rp fp)

end Vm.FrameRelation

theorem framedBy_closed : (framedBy W R vm0).Closed :=
  ⟨fun _ hm => ⟨trivial, hR.withFp hm _⟩, fun _ fp hm _ => hR.withFp hm fp,
    fun _ _ fp herr _ => hR.withFp herr fp⟩

omit hR in
theorem framedBy_flow (cur : Activation) (f : Flow) : (framedBy W R vm0).flow cur f := by
  cases f with
  | call c ip => exact ⟨trivial, trivial⟩
  | _ => exact trivial

variable (hH : H.Within fun m m' => R m.vm m'.vm)
include hH

theorem framedBy_panic {e : Err} (he : e ≠ .ok) :
    PanicAllows H (framedBy W R vm0).effect e.code where
  err m info hm _ := by
    refine ⟨Err.code_ne_zero he, ?_⟩
    show R vm0 (m.notified H info).vm
    unfold Machine.notified
    cases m.vm.panicHandler with
    | none => exact hm
    | some f =>
        have hcall : R m.vm (H.panic f m.vm.panicUserData info
            { m with panicLog := info :: m.panicLog }).vm :=
          hH.panic f _ info { m with panicLog := info :: m.panicLog }
        exact hR.trans hm hcall
  out _ _ _ := trivial

theorem framedBy_stack : StackAllows H (framedBy W R vm0).effect where
  ds _ DS sp hm _ := hR.withDs hm DS sp
  dsOut _ _ _ := trivial
  rsOut _ _ _ := trivial
  overflow := framedBy_panic hR hH (by decide)
  underflow := framedBy_panic hR hH (by decide)
  divByZero := framedBy_panic hR hH (by decide)

theorem framedBy_local : LocalAllows H (framedBy W R vm0).effect where
  set m _ _ _ hm _ _ _ := hR.withRs hm _ m.vm.rp
  noFrame := framedBy_panic hR hH (by decide)

theorem framedBy_memory : MemoryAllows H (framedBy W R vm0).effect fun _ => True where
  ram m ram byte hm hram := hR.trans hm (hR.byteUpdate m.vm ram byte hram)
  ramOut _ _ _ _ _ := trivial
  mmioOut _ _ _ := trivial
  read32 f u addr out m hm := ⟨hR.trans hm (hH.read32 f u addr out m), trivial⟩
  write32 f u addr val m hm := ⟨hR.trans hm (hH.write32 f u addr val m), trivial⟩
  ok := trivial
  unaligned := trivial
  oobMemory := trivial
  fails _ _ hm _ he := ⟨he, hm⟩

omit hH in
theorem framedBy_task (htask : Vm.KeptByBackend R) : TaskAllows (framedBy W R vm0).effect where
  backend m o vm hm hs := hR.trans hm (htask o m.vm vm hs)
  backendOut _ _ _ _ := trivial
  world _ _ hm := hm
  counters _ _ _ _ hm := hm

/-- **One instruction** keeps the relation; a task instruction does if backend calls do. -/
theorem framedBy_fetch {cur : Activation}
    (htask : ∀ op, cur.nextOp = some op → op.isTask = true → Vm.KeptByBackend R) :
    Meets (framedBy W R vm0).effect (fetch H cur) ((framedBy W R vm0).flow cur) := by
  have hF := (framedBy W R vm0).composable
  have hS : StackAllows H (framedBy W R vm0).effect := framedBy_stack hR hH
  have hflow : ∀ f, (framedBy W R vm0).flow cur f := framedBy_flow cur
  refine fetch_meets hF (fun _ _ _ => trivial) (.inr (framedBy_panic hR hH (by decide)))
    (fun _ => .inr (framedBy_panic hR hH (by decide))) fun op hlt hnext => ?_
  have hC : CodeMeets H (framedBy W R vm0).effect cur (cur.ip + 1) op
      ((framedBy W R vm0).flow cur) :=
    codeMeets_of_panics hF (fun _ _ _ => trivial) (fun e he => framedBy_panic hR hH he)
      (fun _ _ _ => trivial) hlt (fun _ _ => hflow _) (fun _ _ _ _ _ _ _ _ _ => hflow _)
      (hflow _) fun _ => hflow _
  exact execOp_meets hF hS.stackMeets hC
    (hS.rsMeets hF (fun _ RS rp hm _ => hR.withRs hm RS rp) op)
    (fun _ => (framedBy_local hR hH).localMeets hF hS)
    (fun _ => (framedBy_memory hR hH).memoryMeets hF hS)
    (fun _ => sys_meets hF fun f i x y z m hm => hR.trans hm (hH.sys f i x y z m))
    fun htrue => (framedBy_task hR (htask op hnext htrue)).taskMeets hF

/-- **Every run** keeps a relation that backend calls keep as well. -/
theorem framedBy_reaches (htask : Vm.KeptByBackend R) {m m' : Machine W} {bc : List Byte}
    {len : Nat} {c : Config W} (h : Reaches H (.start m bc len) c) (hc : c.machine = some m') :
    R m.vm m'.vm := by
  have hstart : (framedBy W R m.vm).Holds [] (.start m bc len) :=
    ⟨hR.refl m.vm, trivial, [], rfl, fun _ hx => by cases hx⟩
  have hend : (framedBy W R m.vm).Holds [] c := by
    refine RunInv.Holds.reaches (framedBy_closed hR) (fun cur _ => ?_) (fun w cur _ => ?_) hstart h
    · exact framedBy_fetch hR hH fun _ _ _ => htask
    · exact (framedBy_task hR htask).pollOnce (framedBy W R m.vm).composable
        (framedBy_stack hR hH) w cur.ip (framedBy_flow cur _) (framedBy_flow cur _)
  cases c with
  | run n cur cs => cases hc; exact hend.1
  | poll w n cur cs => cases hc; exact hend.1
  | ret e n cs => cases hc; exact hend.1.elim And.right And.right
  | fault => cases hc

end

end V4Engine
