/-
  V4Engine.Vm.FpBlind

  Two runs of the same code whose machines differ in the frame pointer only.

  `butFp W P` relates two machines that are equal but for `vm->fp`, the first
  of them with a frame pointer satisfying `P`.  Every instruction except the
  local-variable opcodes keeps the relation and takes both machines out of the
  switch the same way (`fetch_tracks_butFp`, `pollOnce_tracks_butFp`).
-/
import V4Engine.Vm.RunRules
import V4Engine.Vm.TrackRules
import V4Engine.Task.FpBlind

namespace V4Engine

open Lib FaultM VmM

variable {W : Type}

/-! ## The relation -/

/-- Equal but for the frame pointer. -/
def SameButFp (s t : Machine W) : Prop := ∃ fp, t = s.setFp fp

/-- The callbacks cannot tell machines apart that differ in the frame pointer only. -/
structure Host.IgnoresFp (H : Host W) : Prop where
  sys : ∀ f i x y z s t, SameButFp s t → (H.sys f i x y z t).1 = (H.sys f i x y z s).1 ∧
    SameButFp (H.sys f i x y z s).2 (H.sys f i x y z t).2
  panic : ∀ f u info s t, SameButFp s t → SameButFp (H.panic f u info s) (H.panic f u info t)
  read32 : ∀ f u addr out s t, SameButFp s t →
    (H.read32 f u addr out t).1 = (H.read32 f u addr out s).1 ∧
    (H.read32 f u addr out t).2.1 = (H.read32 f u addr out s).2.1 ∧
    SameButFp (H.read32 f u addr out s).2.2 (H.read32 f u addr out t).2.2
  write32 : ∀ f u addr val s t, SameButFp s t →
    (H.write32 f u addr val t).1 = (H.write32 f u addr val s).1 ∧
    SameButFp (H.write32 f u addr val s).2 (H.write32 f u addr val t).2

/-- The callbacks do not write the frame pointer. -/
abbrev Host.KeepsFp (H : Host W) : Prop := H.Within fun m m' => m'.vm.fp = m.vm.fp

/-- The callbacks keep `P` of the frame pointer. -/
abbrev Host.KeepsFpIn (H : Host W) (P : Option Nat → Prop) : Prop :=
  H.Within fun m m' => P m.vm.fp → P m'.vm.fp

/-- The simulation. -/
def butFp (W : Type) (P : Option Nat → Prop) : Sim V4Err (Machine W) (Machine W) where
  rel s t := SameButFp s t ∧ P s.vm.fp
  err _ s t := SameButFp s t ∧ P s.vm.fp
  skip _ := False

/-! ## Every helper -/

section

variable {α : Type} {H : Host W} {P : Option Nat → Prop} {x : VmM W α}

/-- A computation that does not touch the frame pointer. -/
theorem tracks_of_commutes (h : ∀ m fp, x (m.setFp fp) = (x m).mapState (·.setFp fp)) :
    Exact (butFp W P) x x := by
  rintro s _ ⟨⟨fp, rfl⟩, hP⟩
  -- On the machine as it is, this says that the frame pointer is left alone.
  have hself : x s = (x s).mapState (·.setFp s.vm.fp) := h s s.vm.fp
  rw [h s fp]
  cases hx : x s with
  | ok a s' =>
      rw [hx] at hself
      obtain ⟨-, hs'⟩ := Outcome.ok.inj hself
      exact .inr ⟨_, rfl, ⟨fp, rfl⟩, by rw [hs']; exact hP⟩
  | err e s' =>
      rw [hx] at hself
      obtain ⟨-, hs'⟩ := Outcome.err.inj hself
      exact .inr ⟨_, rfl, ⟨fp, rfl⟩, by rw [hs']; exact hP⟩
  | fault => trivial

/-- What is computed from the VM without its frame pointer. -/
theorem getVm_tracks {k : Vm → VmM W α} (hk : ∀ vm fp, k (vm.setFp fp) = k vm)
    (h : ∀ vm, Exact (butFp W P) (k vm) (k vm)) :
    Exact (butFp W P) (getVm >>= k) (getVm >>= k) := by
  rintro s _ ⟨⟨fp, rfl⟩, hP⟩
  have hrun := h s.vm s (s.setFp fp) ⟨⟨fp, rfl⟩, hP⟩
  rw [bind_ok (show getVm s = .ok s.vm s from rfl),
    bind_ok (show getVm (s.setFp fp) = .ok (s.vm.setFp fp) (s.setFp fp) from rfl), hk]
  exact hrun

theorem modifyVm_tracks {u : Vm → Vm} (hu : ∀ vm fp, u (vm.setFp fp) = (u vm).setFp fp) :
    Exact (butFp W P) (modifyVm u) (modifyVm u) := by
  apply tracks_of_commutes
  intro m fp
  exact congrArg (fun vm => Outcome.ok () { m with vm := vm }) (hu m.vm fp)

theorem liftVm_tracks {f : Vm → Option (α × Vm)}
    (hf : ∀ vm fp, f (vm.setFp fp) = (f vm).map (Prod.map id (·.setFp fp))) :
    Exact (butFp W P) (liftVm f) (liftVm f) := by
  apply tracks_of_commutes
  intro m fp
  have hvm : f (m.setFp fp).vm = (f m.vm).map (Prod.map id (·.setFp fp)) := hf m.vm fp
  unfold liftVm
  rw [hvm]
  cases f m.vm <;> rfl

theorem slot_tracks (cap : Nat) (f : Nat → α) (i : Nat) :
    Exact (butFp W P) (slot cap f i : VmM W α) (slot cap f i) := by
  refine .ite (fun _ => .pure _) fun _ => ?_
  exact fun _ _ _ => trivial

variable (hH : H.IgnoresFp) (hP : H.KeepsFpIn P)
include hH hP

/-- Both take the same snapshot and hand it to a handler that sees the same. -/
theorem panic_tracks_butFp (e : V4Err) :
    Exact (butFp W P) (vmPanic H e : VmM W α) (vmPanic H e) := by
  rintro s _ ⟨⟨fp, rfl⟩, hfp⟩
  rw [vmPanic_run, vmPanic_run]
  have hsnap : panicInfo (s.setFp fp).vm e = panicInfo s.vm e := rfl
  rw [hsnap]
  cases panicInfo s.vm e with
  | none => exact trivial
  | some info =>
      refine .inr ⟨_, rfl, ?_⟩
      have hhandler : (s.setFp fp).vm.panicHandler = s.vm.panicHandler := rfl
      unfold Machine.notified
      rw [hhandler]
      cases s.vm.panicHandler with
      | none => exact ⟨⟨fp, rfl⟩, hfp⟩
      | some f => exact ⟨hH.panic f _ info _ _ ⟨fp, rfl⟩, hP.panic f _ info _ hfp⟩

theorem dsPush_tracks_butFp (v : Cell) : Exact (butFp W P) (dsPush H v) (dsPush H v) :=
  getVm_tracks (fun _ _ => rfl) fun _ => .ite (fun _ => panic_tracks_butFp hH hP _) fun _ =>
    modifyVm_tracks fun _ _ => rfl

theorem dsPop_tracks_butFp : Exact (butFp W P) (dsPop H) (dsPop H) :=
  getVm_tracks (fun _ _ => rfl) fun _ => .ite (fun _ => panic_tracks_butFp hH hP _) fun _ =>
    .bind (slot_tracks _ _ _) fun _ => .bind (modifyVm_tracks fun _ _ => rfl) fun _ => .pure _

theorem butFp_stack : StackTracks H (butFp W P) fun _ => False where
  push := dsPush_tracks_butFp hH hP
  pop := dsPop_tracks_butFp hH hP
  peek _ := getVm_tracks (fun _ _ => rfl) fun _ =>
    .ite (fun _ => panic_tracks_butFp hH hP _) fun _ => slot_tracks _ _ _
  swap := .bind (dsPop_tracks_butFp hH hP) fun v => .bind (dsPop_tracks_butFp hH hP) fun w =>
    .bind (dsPush_tracks_butFp hH hP v) fun _ => dsPush_tracks_butFp hH hP w
  rsPush _ := getVm_tracks (fun _ _ => rfl) fun _ =>
    .ite (fun _ => panic_tracks_butFp hH hP _) fun _ => modifyVm_tracks fun _ _ => rfl
  rsPop := getVm_tracks (fun _ _ => rfl) fun _ =>
    .ite (fun _ => panic_tracks_butFp hH hP _) fun _ => .bind (slot_tracks _ _ _) fun _ =>
      .bind (modifyVm_tracks fun _ _ => rfl) fun _ => .pure _
  rsPeek _ := getVm_tracks (fun _ _ => rfl) fun _ =>
    .ite (fun _ => panic_tracks_butFp hH hP _) fun _ => slot_tracks _ _ _
  divByZero := panic_tracks_butFp hH hP _

/-! ### Memory and code -/

theorem butFp_memory : MemoryShared H (butFp W P) where
  mem := by rintro s _ ⟨⟨fp, rfl⟩, -⟩; rfl
  memSize := by rintro s _ ⟨⟨fp, rfl⟩, -⟩; rfl
  mmio := by rintro s _ ⟨⟨fp, rfl⟩, -⟩; rfl
  mmioCount := by rintro s _ ⟨⟨fp, rfl⟩, -⟩; rfl
  store := by
    rintro s _ mem ⟨⟨fp, rfl⟩, hfp⟩
    exact ⟨⟨fp, rfl⟩, hfp⟩
  read32 f u addr out s t hst := by
    obtain ⟨he, hv, hsame⟩ := hH.read32 f u addr out s t hst.1
    exact ⟨he, hv, hsame, hP.read32 f u addr out s hst.2⟩
  write32 f u addr val s t hst := by
    obtain ⟨he, hsame⟩ := hH.write32 f u addr val s t hst.1
    exact ⟨he, hsame, hP.write32 f u addr val s hst.2⟩
  fails _ _ _ _ hst := hst

theorem butFp_code (a : Activation) : CodeTracks H (butFp W P) a := by
  refine codeTracks_of_panics (fun _ e _ => panic_tracks_butFp hH hP e) ?_ a
  rintro s _ ⟨⟨fp, rfl⟩, -⟩
  exact ⟨rfl, rfl⟩

/-! ### Callbacks and tasks -/

theorem sys_tracks_butFp (i x y z : Cell) :
    Exact (butFp W P) (v4InvokeSysHandler H i x y z) (v4InvokeSysHandler H i x y z) := by
  rintro s _ ⟨⟨fp, rfl⟩, hfp⟩
  have hhandler : (s.setFp fp).gSysHandler = s.gSysHandler := rfl
  unfold v4InvokeSysHandler
  rw [hhandler]
  cases s.gSysHandler with
  | none => exact .inr ⟨_, rfl, ⟨fp, rfl⟩, hfp⟩
  | some f =>
      obtain ⟨hr, hsame⟩ := hH.sys f i x y z s _ ⟨fp, rfl⟩
      refine .inr ⟨_, ?_, hsame, hP.sys f i x y z s hfp⟩
      show Outcome.ok (H.sys f i x y z (s.setFp fp)).1 _ = _
      rw [hr]

omit hH hP in
theorem getTick_tracks_butFp : Exact (butFp W P) (getTick H) (getTick H) :=
  tracks_of_commutes fun _ _ => rfl

omit hH hP in
/-- A call of the backend that returns nothing. -/
theorem backend_tracks {f : Vm → Option Vm} (hf : V4Engine.IgnoresFp f) :
    Exact (butFp W P) (liftVm fun vm => (f vm).map ((), ·) : VmM W Unit)
      (liftVm fun vm => (f vm).map ((), ·)) := by
  apply liftVm_tracks
  intro vm fp
  rw [hf, Option.map_map, Option.map_map]
  rfl

theorem butFp_task : TaskTracks H (butFp W P) fun _ => False where
  spawn w p d r := .bind (tracks_of_commutes fun _ _ => rfl) fun dsOk =>
    .bind (tracks_of_commutes fun _ _ => rfl) fun rsOk => liftVm_tracks fun vm fp =>
      congrArg some (v4BackendTaskSpawn_setFp w p d r dsOk rsOk vm fp)
  exit := .bind getTick_tracks_butFp fun tick => backend_tracks (v4BackendTaskExit_ignoresFp tick)
  sleep ms := .bind getTick_tracks_butFp fun tick => .bind getTick_tracks_butFp fun tick' =>
    backend_tracks (v4BackendTaskSleep_ignoresFp ms tick tick')
  yield := .bind getTick_tracks_butFp fun tick => backend_tracks (vmSchedule_ignoresFp tick)
  enter := tracks_of_commutes fun _ _ => rfl
  leave := tracks_of_commutes fun m fp => by
    have hexit : vmTaskCriticalExit (m.setFp fp).vm = _ := vmTaskCriticalExit_setFp m.vm fp
    simp only [criticalExit, hexit]
    rfl
  send dst ty data := liftVm_tracks (v4BackendTaskSend_setFp dst ty data)
  receive ty := liftVm_tracks fun vm fp => congrArg some (v4BackendTaskReceive_setFp ty vm fp)
  received r := by
    have hpush := dsPush_tracks_butFp hH hP
    cases r with
    | some r => exact .bind (hpush _) fun _ => .bind (hpush _) fun _ => hpush _
    | none =>
        exact .bind (tracks_of_commutes fun _ _ => rfl) fun _ =>
          .bind (tracks_of_commutes fun _ _ => rfl) fun _ => .bind (hpush _) fun _ =>
            .bind (hpush _) fun _ => hpush _
  tick := getTick_tracks_butFp
  self := getVm_tracks (fun _ _ => rfl) fun _ => dsPush_tracks_butFp hH hP _
  count := getVm_tracks (fun _ _ => rfl) fun _ => dsPush_tracks_butFp hH hP _

/-! ## Instructions -/

omit hH hP in
/-- What is not asked to hold is kept. -/
theorem keepsFpIn_true : H.KeepsFpIn fun _ => True :=
  ⟨fun _ _ _ _ _ _ _ => trivial, fun _ _ _ _ _ => trivial, fun _ _ _ _ _ _ => trivial,
    fun _ _ _ _ _ _ => trivial⟩

omit hH hP in
/-- A fault does not depend on the frame pointer. -/
theorem butFp_faults (h : Exact (butFp W fun _ => True) x x) {m : Machine W} (hm : x m = .fault)
    (fp : Option Nat) : x (m.setFp fp) = .fault := by
  -- The relation has no direction, so the run on `m` has to match the other one too.
  have hback := h (m.setFp fp) m ⟨⟨m.vm.fp, rfl⟩, trivial⟩
  rw [hm] at hback
  cases hx : x (m.setFp fp) with
  | ok a s =>
      rw [hx] at hback
      obtain hno | ⟨_, h, -⟩ := hback
      · exact hno.elim
      · cases h
  | err e s =>
      rw [hx] at hback
      obtain hno | ⟨_, h, -⟩ := hback
      · exact hno.elim
      · cases h
  | fault => rfl

/-- **One instruction.**  Any but a local-variable opcode does the same on both machines. -/
theorem fetch_tracks_butFp {a : Activation} (hop : ∀ op, a.nextOp = some op → op.isLocal = false) :
    Exact (butFp W P) (fetch H a) (fetch H a) := by
  refine fetch_tracks_of (fun _ e _ => panic_tracks_butFp hH hP e) fun op hnext => ?_
  exact execOp_tracks (butFp_stack hH hP) (butFp_code hH hP a)
    (fun h => Bool.noConfusion ((hop op hnext).symm.trans h)) (butFp_memory hH hP).memoryTracks
    (fun _ => sys_tracks_butFp hH hP) (fun _ => butFp_task hH hP)

/-- **One poll.** -/
theorem pollOnce_tracks_butFp (w : Waiting) (ip : Nat) :
    Exact (butFp W P) (pollOnce H w ip) (pollOnce H w ip) := by
  have hqueue : Exact (butFp W P) (pollQueue H w) (pollQueue H w) := by
    apply tracks_of_commutes
    intro m fp
    have hpoll : receiveBlockingPoll (fun i => H.tick ((m.setFp fp).tickNo + i)) w.msgType
        w.timeoutMs w.start 0 (m.setFp fp).vm = _ :=
      receiveBlockingPoll_setFp (fun i => H.tick (m.tickNo + i)) w.msgType w.timeoutMs w.start 0
        m.vm fp
    unfold pollQueue
    rw [hpoll]
    cases receiveBlockingPoll (fun i => H.tick (m.tickNo + i)) w.msgType w.timeoutMs w.start 0
      m.vm <;> rfl
  refine .bind hqueue fun p => ?_
  cases p with
  | received data src => exact thenNext_tracks ((butFp_task hH hP).received _)
  | timeout => exact thenNext_tracks ((butFp_task hH hP).received _)
  | again => exact .pure _

end

end V4Engine
