/-
  V4Engine.Task.RoundTrip

  Saving a context and restoring it.

  The depths go through 8-bit fields, so the round trip gives back what was there
  at every depth but one: a full data stack of 256 cells is saved with depth 0.
-/
import V4Engine.Task.Context

namespace V4Engine

open Lib

/-- A buffer with room for `n` cells; an empty stack needs none. -/
def Heap.Fits (h : Heap) (base : Option Nat) (n : Nat) : Prop :=
  n = 0 ∨ ∃ id, base = some id ∧ h.holds id n = true

/-- The buffers of a task have room for the live stacks and do not overlap. -/
structure Buffered (vm : Vm) (i : Fin 8) : Prop where
  ds : vm.heap.Fits (vm.task i).dsBase vm.sp
  rs : vm.heap.Fits (vm.task i).rsBase vm.rp
  separate : ∀ id, (vm.task i).dsBase = some id → (vm.task i).rsBase ≠ some id

/-- The stacks and their depths overwritten. -/
def Vm.overwrite (vm : Vm) (DS RS : Nat → Cell) (sp rp : Nat) : Vm :=
  { vm with DS := DS, RS := RS, sp := sp, rp := rp }

/-- Saved to slot `i`, overwritten in any way and restored from slot `i`, the stacks
    are what they were. -/
def RoundTrips (vm : Vm) (i : Fin 8) : Prop :=
  ∃ saved, v4TaskSaveContext vm i = some saved ∧
    ∀ DS RS sp rp, ∃ vm', v4TaskRestoreContext (saved.overwrite DS RS sp rp) i = some vm' ∧
      vm'.sp = vm.sp ∧ vm'.rp = vm.rp ∧ vm'.ds = vm.ds ∧ vm'.rs = vm.rs

/-! ## One stack -/

theorem Heap.Fits.backed {h : Heap} {base : Option Nat} {n : Nat} (hfit : h.Fits base n) :
    n = 0 ∨ ∃ id, base = some id ∧ (h.blocks id).isSome := by
  refine hfit.imp id fun ⟨id, hid, hroom⟩ => ⟨id, hid, ?_⟩
  cases hb : h.blocks id with
  | none => simp [Heap.holds, hb] at hroom
  | some b => rfl

/-- A stack read back from the buffer it was saved to. -/
theorem live_restore_save {h h' : Heap} {base : Option Nat} {n : Nat}
    (hback : n = 0 ∨ ∃ id, base = some id ∧ (h.blocks id).isSome) (stack stack' : Nat → Cell)
    (hkept : ∀ id, base = some id → h'.blocks id = (saveStack base n stack h).blocks id) :
    live (restoreStack base n h' stack') n = live stack n := by
  obtain rfl | ⟨id, rfl, hlive⟩ := hback
  · rfl
  · rw [live_restoreStack, Heap.cells_congr (hkept id rfl), live_saveStack hlive]

/-! ## Both stacks -/

/-- The VM after a save. -/
def savedContext (vm : Vm) (i : Fin 8) : Vm :=
  { vm.setTask i (savedTask vm (vm.task i)) with
    heap := saveStack (vm.task i).rsBase (BitVec.ofNat 8 vm.rp).toNat vm.RS
      (saveStack (vm.task i).dsBase (BitVec.ofNat 8 vm.sp).toNat vm.DS vm.heap) }

theorem v4TaskSaveContext_eq {vm : Vm} (hrp : vm.rp ≤ 64) (i : Fin 8) :
    v4TaskSaveContext vm i = some (savedContext vm i) := by
  rw [v4TaskSaveContext, if_pos (savedTask_rsCopyOk hrp (vm.task i))]
  rfl

theorem savedContext_task (vm : Vm) (i : Fin 8) :
    (savedContext vm i).task i = savedTask vm (vm.task i) := Vm.task_setTask_self vm i _

/-- What a restore from the slot just saved yields. -/
theorem v4TaskRestoreContext_saved {vm : Vm} (hrp : vm.rp ≤ 64) (i : Fin 8)
    (DS RS : Nat → Cell) (sp rp : Nat) :
    ∃ vm', v4TaskRestoreContext ((savedContext vm i).overwrite DS RS sp rp) i = some vm' ∧
      vm'.sp = (BitVec.ofNat 8 vm.sp).toNat ∧ vm'.rp = (BitVec.ofNat 8 vm.rp).toNat ∧
      vm'.DS = restoreStack (vm.task i).dsBase (BitVec.ofNat 8 vm.sp).toNat
        (savedContext vm i).heap DS ∧
      vm'.RS = restoreStack (vm.task i).rsBase (BitVec.ofNat 8 vm.rp).toNat
        (savedContext vm i).heap RS := by
  have htask : ((savedContext vm i).overwrite DS RS sp rp).task i = savedTask vm (vm.task i) :=
    savedContext_task vm i
  simp only [v4TaskRestoreContext, htask, if_pos (savedTask_rsCopyOk hrp (vm.task i))]
  exact ⟨_, rfl, rfl, rfl, rfl, rfl⟩

/-- **The round trip.**  It gives back the stacks at every depth below 256 and at no
    other. -/
theorem context_round_trip_iff {vm : Vm} {i : Fin 8} (hsp : vm.sp ≤ 256) (hrp : vm.rp ≤ 64)
    (hb : Buffered vm i) : RoundTrips vm i ↔ vm.sp < 256 := by
  have hrs : (BitVec.ofNat 8 vm.rp).toNat = vm.rp := by rw [BitVec.toNat_ofNat]; omega
  constructor
  · rintro ⟨saved, hsave, hall⟩
    obtain rfl := Option.some.inj ((v4TaskSaveContext_eq hrp i).symm.trans hsave)
    obtain ⟨vm', hrestore, hdepth, -⟩ := hall vm.DS vm.RS vm.sp vm.rp
    obtain ⟨vm'', heq, hsp', -⟩ := v4TaskRestoreContext_saved hrp i vm.DS vm.RS vm.sp vm.rp
    obtain rfl := Option.some.inj (heq.symm.trans hrestore)
    rw [← hdepth, hsp']
    exact (BitVec.ofNat 8 vm.sp).isLt
  · intro hlt
    have hds : (BitVec.ofNat 8 vm.sp).toNat = vm.sp := by rw [BitVec.toNat_ofNat]; omega
    refine ⟨_, v4TaskSaveContext_eq hrp i, fun DS RS sp rp => ?_⟩
    obtain ⟨vm', heq, hsp', hrp', hDS, hRS⟩ := v4TaskRestoreContext_saved hrp i DS RS sp rp
    refine ⟨vm', heq, hsp'.trans hds, hrp'.trans hrs, ?_, ?_⟩
    · rw [Vm.ds, Vm.ds, hsp', hDS, hds]
      refine live_restore_save hb.ds.backed vm.DS DS fun id hid => ?_
      -- the return stack goes to another block
      show (saveStack _ _ vm.RS (saveStack _ (BitVec.ofNat 8 vm.sp).toNat vm.DS vm.heap)).blocks id
        = _
      rw [saveStack_blocks_of_ne _ _ _ (hb.separate id hid), hds]
    · rw [Vm.rs, Vm.rs, hrp', hRS, hrs]
      -- the buffer survives the save of the data stack
      have hback : vm.rp = 0 ∨ ∃ id, (vm.task i).rsBase = some id ∧
          ((saveStack (vm.task i).dsBase vm.sp vm.DS vm.heap).blocks id).isSome := by
        simpa only [saveStack_isSome] using hb.rs.backed
      refine live_restore_save hback vm.RS RS fun id hid => ?_
      show (saveStack _ (BitVec.ofNat 8 vm.rp).toNat _ (saveStack _ _ vm.DS vm.heap)).blocks id = _
      rw [hrs, hds]

/-- One task with a data stack of `n` cells. -/
def stackedVm (n : Nat) (h : n ≤ 256) : Vm :=
  vmAfter [.spawn 0 1 0 0 true true, .schedule 0, .program (.filled 7 n h)]

theorem context_round_trip_two_cells : RoundTrips (stackedVm 2 (by decide)) 0 := by
  refine (context_round_trip_iff (by decide) (by decide) ⟨?_, ?_, by decide⟩).mpr (by decide)
  · exact .inr ⟨0, rfl, by decide⟩
  · exact .inl rfl

/-- A full data stack in a buffer of 256 cells comes back empty. -/
theorem context_round_trip_full :
    BackendReachable (stackedVm 256 (by decide)) ∧ Buffered (stackedVm 256 (by decide)) 0 ∧
      ¬ RoundTrips (stackedVm 256 (by decide)) 0 := by
  have hrp : (stackedVm 256 (by decide)).rp ≤ 64 := by decide
  refine ⟨vmAfter_reachable rfl, ⟨.inr ⟨0, rfl, rfl⟩, .inl rfl, by decide⟩, ?_⟩
  rintro ⟨saved, hsave, hall⟩
  obtain rfl := Option.some.inj ((v4TaskSaveContext_eq hrp 0).symm.trans hsave)
  obtain ⟨vm', hrestore, hdepth, -⟩ := hall (fun _ => 0) (fun _ => 0) 0 0
  obtain ⟨vm'', heq, hempty, -⟩ := v4TaskRestoreContext_saved hrp 0 (fun _ => 0) (fun _ => 0) 0 0
  obtain rfl := Option.some.inj (heq.symm.trans hrestore)
  exact absurd (hempty.symm.trans hdepth) (by decide)

end V4Engine
