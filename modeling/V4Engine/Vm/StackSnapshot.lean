/-
  V4Engine.Vm.StackSnapshot

  Snapshots of the data stack, and the calls that look at it.

  A snapshot owns a copy of the live cells, bottom first; nothing the VM does reaches
  it.  `StackReads vm l` says that the depth, the peeks from the top and the copies
  from the bottom all describe the list `l`.
-/
import V4Engine.Vm.HelperRules

namespace V4Engine

open Lib FaultM VmM

variable {W : Type}

/-! ## Looking at the stack -/

def vmDsDepthPublic (vm : Vm) : Int := vm.sp

/-- `vm_ds_peek_public` for an index of either sign. -/
def vmDsPeekAt (vm : Vm) (indexFromTop : Int) : Option Cell :=
  if indexFromTop < 0 then some 0 else vmDsPeekPublic vm indexFromTop.toNat

/-- Returns the number of cells copied and the new content of the array, `none` for a read
    past the end of `DS`. -/
def vmDsCopyToArray (outArray : Option (Nat → Cell)) (maxCount : Int) (vm : Vm) :
    Option (Int × Option (Nat → Cell)) :=
  match outArray with
  | none => some (0, none)
  | some out =>
      if maxCount ≤ 0 then some (0, some out)
      else
        let copyCount := if (vm.sp : Int) < maxCount then vm.sp else maxCount.toNat
        if copyCount ≤ 256 then some (copyCount, some (copyInto out vm.DS copyCount)) else none

/-- The three calls describe the list `l`, whose last element is the top. -/
structure StackReads (vm : Vm) (l : List Cell) : Prop where
  depth : vmDsDepthPublic vm = l.length
  peek : ∀ i : Int, vmDsPeekAt vm i = some (if i < 0 then 0 else l.reverse.getD i.toNat 0)
  copy : ∀ out max, vmDsCopyToArray (some out) max vm
    = some (((l.take max.toNat).length : Int), some fun k => (l.take max.toNat).getD k (out k))

/-! ## Snapshots -/

/-- `VmStackSnapshot`; `data` is the block that was allocated. -/
structure VmStackSnapshot where
  data : Option (List Cell)
  depth : Int

/-- `vm_ds_snapshot`; `snapOk` and `dataOk` are the answers of `malloc`.  The inner `none` is
    the null pointer. -/
def vmDsSnapshot (snapOk dataOk : Bool) (vm : Vm) : Option (Option VmStackSnapshot) :=
  if vm.sp = 0 then some (if snapOk then some ⟨none, 0⟩ else none)
  else if !snapOk then some none
  else if !dataOk then some none
  else if vm.sp ≤ 256 then some (some ⟨some vm.ds, vm.sp⟩)
  else none

/-- The stack cleared and refilled; `none` is a read past the end of the block. -/
def reloadStack (snap : VmStackSnapshot) (vm : Vm) : Option Vm :=
  let vm := { vm with sp := 0 }
  match snap.data with
  | none => some vm
  | some data =>
      if 0 < snap.depth then
        let depth := snap.depth.toNat
        if depth ≤ data.length then
          some { vm with DS := copyInto vm.DS (fun i => data.getD i 0) depth, sp := depth }
        else none
      else some vm

def vmDsRestore (H : Host W) (snapshot : Option VmStackSnapshot) : VmM W V4Err :=
  match snapshot with
  | none => return Err.invalidArg.code
  | some snap =>
      if snap.depth > 256 then vmPanic H Err.stackOverflow.code
      else do
        liftVm fun vm => (reloadStack snap vm).map fun vm => ((), vm)
        return 0

/-! ## One list -/

/-- Depth, peeks and copies of a stack within its array describe its live cells. -/
theorem stackReads_ds {vm : Vm} (hdepth : vm.sp ≤ 256) : StackReads vm vm.ds where
  depth := by simp [vmDsDepthPublic, Vm.ds]
  peek i := by
    rw [vmDsPeekAt, Vm.ds]
    by_cases hneg : i < 0
    · rw [if_pos hneg, if_pos hneg]
    · rw [if_neg hneg, if_neg hneg, live_reverse_getD, vmDsPeekPublic]
      by_cases hin : i.toNat < vm.sp
      · rw [if_neg (by omega), if_pos (by omega), if_pos hin]
      · rw [if_pos (by omega), if_neg hin]
  copy out max := by
    -- the count of the copy is the length of the list cut at `max`, also for a negative one
    simp only [vmDsCopyToArray, Vm.ds, live_take, live_length]
    by_cases hmax : max ≤ 0
    · have hnone : min max.toNat vm.sp = 0 := by omega
      rw [if_pos hmax, hnone]
      rfl
    · have hcount : (if (vm.sp : Int) < max then vm.sp else max.toNat) = min max.toNat vm.sp := by
        split <;> omega
      rw [if_neg hmax, hcount, if_pos (by omega)]
      congr 3
      funext k
      rw [live_getD, copyInto]

/-! ## Taking and restoring -/

/-- The VM with another data stack. -/
def Vm.withDs (vm : Vm) (DS : Nat → Cell) (sp : Nat) : Vm := { vm with DS := DS, sp := sp }

/-- A snapshot holds the live cells. -/
theorem vmDsSnapshot_eq {snapOk dataOk : Bool} {vm : Vm} {snap : VmStackSnapshot}
    (h : vmDsSnapshot snapOk dataOk vm = some (some snap)) :
    vm.sp ≤ 256 ∧ snap.depth = vm.sp ∧
      (vm.sp = 0 ∧ snap.data = none ∨ 0 < vm.sp ∧ snap.data = some vm.ds) := by
  unfold vmDsSnapshot at h
  by_cases hempty : vm.sp = 0
  · rw [if_pos hempty] at h
    cases snapOk with
    | false => cases h
    | true =>
        cases h
        exact ⟨by omega, by rw [hempty]; rfl, .inl ⟨hempty, rfl⟩⟩
  · rw [if_neg hempty] at h
    cases snapOk with
    | false => cases h
    | true =>
        cases dataOk with
        | false => cases h
        | true =>
            by_cases hfit : vm.sp ≤ 256
            · simp only [Bool.not_true, if_neg Bool.false_ne_true, if_pos hfit] at h
              cases h
              exact ⟨hfit, rfl, .inr ⟨by omega, rfl⟩⟩
            · simp only [Bool.not_true, if_neg Bool.false_ne_true, if_neg hfit] at h
              cases h

/-- What a snapshot of `vm` puts into another VM: its depth and its live cells. -/
theorem reloadStack_eq {snapOk dataOk : Bool} {vm : Vm} {snap : VmStackSnapshot}
    (h : vmDsSnapshot snapOk dataOk vm = some (some snap)) (vm' : Vm) :
    ∃ DS, live DS vm.sp = vm.ds ∧ reloadStack snap vm' = some (vm'.withDs DS vm.sp) := by
  obtain ⟨-, hdepth, ⟨hsp, hdata⟩ | ⟨hpos, hdata⟩⟩ := vmDsSnapshot_eq h
  · -- an empty snapshot has no block, and the restore stops at the cleared stack
    refine ⟨vm'.DS, by rw [Vm.ds, hsp]; rfl, ?_⟩
    simp only [reloadStack, hdata, hsp, Vm.withDs]
  · have hcells : ∀ i, i < vm.sp → vm.ds.getD i 0 = vm.DS i := by
      intro i hi
      rw [Vm.ds, live_getD, if_pos hi]
    have hpos' : 0 < snap.depth := by omega
    have hdepth' : snap.depth.toNat = vm.sp := by omega
    have hlen : vm.sp ≤ vm.ds.length := by simp [Vm.ds]
    refine ⟨copyInto vm'.DS (fun i => vm.ds.getD i 0) vm.sp, ?_, ?_⟩
    · rw [live_copyInto, Vm.ds]
      exact live_congr hcells
    · simp only [reloadStack, hdata, if_pos hpos', hdepth', if_pos hlen, Vm.withDs]

section

variable {H : Host W} {snap : VmStackSnapshot} {m : Machine W}

theorem vmDsRestore_overflow (hbig : snap.depth > 256) :
    vmDsRestore H (some snap) m = vmPanic H Err.stackOverflow.code m := by
  unfold vmDsRestore
  exact congrFun (if_pos hbig) m

theorem vmDsRestore_reload (hfit : snap.depth ≤ 256) {vm : Vm}
    (hload : reloadStack snap m.vm = some vm) :
    vmDsRestore H (some snap) m = .ok 0 { m with vm := vm } := by
  unfold vmDsRestore
  simp only [if_neg (Int.not_lt.mpr hfit), bind_run, liftVm, hload, Option.map_some]
  rfl

theorem vmDsRestore_fault (hfit : snap.depth ≤ 256) (hload : reloadStack snap m.vm = none) :
    vmDsRestore H (some snap) m = .fault := by
  unfold vmDsRestore
  simp only [if_neg (Int.not_lt.mpr hfit), bind_run, liftVm, hload, Option.map_none]

end

/-- The call returns an error. -/
def RestoreFails (H : Host W) (snapshot : Option VmStackSnapshot) (m m' : Machine W) : Prop :=
  ∃ e, e ≠ 0 ∧ (vmDsRestore H snapshot m = .ok e m' ∨ vmDsRestore H snapshot m = .err e m')

/-- A restore that fails leaves the machine as it was, up to what the panic handler does
    when it is told. -/
theorem restoreFails_machine {H : Host W} {snapshot : Option VmStackSnapshot} {m m' : Machine W}
    (h : RestoreFails H snapshot m m') : m' = m ∨ ∃ info, m' = m.notified H info := by
  obtain ⟨e, he, hend⟩ := h
  cases snapshot with
  | none =>
      rcases hend with h | h
      · cases h
        exact .inl rfl
      · cases h
  | some snap =>
      by_cases hbig : snap.depth > 256
      · rw [vmDsRestore_overflow hbig, vmPanic_run] at hend
        cases hinfo : panicInfo m.vm Err.stackOverflow.code with
        | none =>
            rw [hinfo] at hend
            rcases hend with h | h <;> cases h
        | some info =>
            rw [hinfo] at hend
            rcases hend with h | h
            · cases h
            · cases h
              exact .inr ⟨info, rfl⟩
      · -- a reload returns OK or leaves its block
        have hfit : snap.depth ≤ 256 := Int.not_lt.mp hbig
        cases hload : reloadStack snap m.vm with
        | none =>
            rw [vmDsRestore_fault hfit hload] at hend
            rcases hend with h | h <;> cases h
        | some vm =>
            rw [vmDsRestore_reload hfit hload] at hend
            rcases hend with h | h
            · cases h
              exact absurd rfl he
            · cases h

/-- With memory for it, a snapshot of a stack within its array is taken. -/
theorem vmDsSnapshot_isSome {vm : Vm} (hdepth : vm.sp ≤ 256) :
    ∃ snap, vmDsSnapshot true true vm = some (some snap) := by
  unfold vmDsSnapshot
  by_cases hempty : vm.sp = 0
  · exact ⟨_, if_pos hempty⟩
  · rw [if_neg hempty]
    exact ⟨_, if_pos hdepth⟩

/-- **Snapshots restore exactly.**  Whatever has become of the VM in between, restoring a
    snapshot returns OK, makes the calls that look at the stack answer as when it was taken,
    and changes nothing else.  A restore that returns an error changes nothing; only the
    panic handler may. -/
theorem snapshot_restores_stack (H : Host W) (vm : Vm) (hdepth : vm.sp ≤ 256) :
    StackReads vm vm.ds ∧
      ∃ snap, vmDsSnapshot true true vm = some (some snap) ∧ ∀ m : Machine W,
        (∃ DS, vmDsRestore H (some snap) m
            = .ok 0 { m with vm := m.vm.withDs DS vm.sp } ∧
          StackReads (m.vm.withDs DS vm.sp) vm.ds) ∧
        ∀ snapshot m', RestoreFails H snapshot m m' → m' = m ∨ ∃ info, m' = m.notified H info := by
  obtain ⟨snap, hsnap⟩ := vmDsSnapshot_isSome hdepth
  refine ⟨stackReads_ds hdepth, snap, hsnap, fun m => ⟨?_, fun _ _ => restoreFails_machine⟩⟩
  obtain ⟨DS, hlive, hload⟩ := reloadStack_eq hsnap m.vm
  have hfit : snap.depth ≤ 256 := by
    have := (vmDsSnapshot_eq hsnap).2.1
    omega
  refine ⟨DS, vmDsRestore_reload hfit hload, ?_⟩
  have hreads : StackReads (m.vm.withDs DS vm.sp) (live DS vm.sp) := stackReads_ds hdepth
  rwa [hlive] at hreads

/-- The stack 10, 20, 30. -/
def threeCells : Vm := { Vm.blank with DS := fun i => BitVec.ofNat 32 (10 * (i + 1)), sp := 3 }

/-- Restored into an empty VM, the cells are back. -/
theorem three_cells_restored :
    ∃ snap DS, vmDsSnapshot true true threeCells = some (some snap) ∧
      vmDsRestore Host.silent (some snap) (.boot Vm.blank)
        = .ok 0 (.boot (Vm.blank.withDs DS 3)) ∧
      vmDsPeekAt (Vm.blank.withDs DS 3) 0 = some 30 := by
  obtain ⟨-, snap, hsnap, hall⟩ := snapshot_restores_stack Host.silent threeCells (by decide)
  obtain ⟨⟨DS, hrestore, hreads⟩, -⟩ := hall (.boot Vm.blank)
  refine ⟨snap, DS, hsnap, hrestore, ?_⟩
  exact (hreads.peek 0).trans (by decide)

end V4Engine
