/-
  V4Engine.Vm.PanicOnce

  Which failures reach the panic handler.

  Every failing check of the interpreter goes through `vm_panic`, once, and ends
  the run.  The memory accessors do not: they return their code, and `LOAD*` and
  `STORE*` hand it on without reporting it.  So a run is reported exactly when it
  executes no memory instruction whose access fails.
-/
import V4Engine.Vm.RunRules
import V4Engine.Task.Frame
import Mathlib.Logic.Relation

namespace V4Engine

open Lib FaultM VmM

variable {W : Type}

/-- What the caller of `vm_exec_raw` expects of the panic handler: one call with
    the code of the failure, none after a success. -/
def Reported (m : Machine W) (e : V4Err) (m' : Machine W) : Prop :=
  (e = 0 → m'.panicLog = m.panicLog) ∧
    (e ≠ 0 → ∃ info, info.errorCode = e ∧ m'.panicLog = info :: m.panicLog)

/-- No callback calls the panic handler or takes it away. -/
abbrev Host.KeepsLog (H : Host W) : Prop :=
  H.Within fun m m' => m'.panicLog = m.panicLog ∧
    (m.vm.panicHandler.isSome → m'.vm.panicHandler.isSome)

/-! ## Failing accesses -/

/-- A 32-bit read of `addr` fails: the window refuses it, or RAM does. -/
def Read32Fails (H : Host W) (m : Machine W) (addr : Cell) : Prop :=
  match m.vm.window addr with
  | some w => v4IsAligned4 addr ≠ 0 ∨
      ∀ f, w.read32 = some f → (H.read32 f w.user addr 0 m).1 ≠ 0
  | none => v4IsInRam m.vm addr 4 ≠ 0 ∨ v4IsAligned4 addr ≠ 0

/-- A 32-bit write of `val` to `addr` fails. -/
def Write32Fails (H : Host W) (m : Machine W) (addr val : Cell) : Prop :=
  match m.vm.window addr with
  | some w => v4IsAligned4 addr ≠ 0 ∨
      ∀ f, w.write32 = some f → (H.write32 f w.user addr val m).1 ≠ 0
  | none => v4IsInRam m.vm addr 4 ≠ 0 ∨ v4IsAligned4 addr ≠ 0

/-- The memory instruction `op` finds its operands, and its access fails. -/
def AccessFails (H : Host W) (m : Machine W) : Op → Prop
  | .LOAD => 0 < m.vm.sp ∧ Read32Fails H (m.popped 1) (m.operand 0)
  | .LOAD8U | .LOAD8S => 0 < m.vm.sp ∧ v4IsInRam m.vm (m.operand 0) 1 ≠ 0
  | .LOAD16U | .LOAD16S => 0 < m.vm.sp ∧ v4IsInRam m.vm (m.operand 0) 2 ≠ 0
  | .STORE => 1 < m.vm.sp ∧ Write32Fails H (m.popped 2) (m.operand 0) (m.operand 1)
  | .STORE8 => 1 < m.vm.sp ∧ v4IsInRam m.vm (m.operand 0) 1 ≠ 0
  | .STORE16 => 1 < m.vm.sp ∧ v4IsInRam m.vm (m.operand 0) 2 ≠ 0
  | _ => False

/-- The instruction about to be executed is a memory instruction whose access
    fails. -/
def Config.SilentFailure (H : Host W) (c : Config W) : Prop :=
  ∃ m cur cs op, c = .run m cur cs ∧ cur.nextOp = some op ∧ AccessFails H m op

/-! ## The log along a run -/

/-- Until something fails the log is `L`.  A failure has been reported, or, if
    `silent` allows it, has not. -/
def logged (W : Type) (L : List V4PanicInfo) (silent : Prop) : RunInv W where
  machine m := m.panicLog = L ∧ m.vm.panicHandler.isSome
  act _ := True
  fp _ := True
  err e m := (∃ info, info.errorCode = e ∧ m.panicLog = info :: L) ∨ silent ∧ m.panicLog = L
  fault := True

section

variable {H : Host W} {L : List V4PanicInfo} {silent : Prop}

theorem logged_flow (cur : Activation) (f : Flow) : (logged W L silent).flow cur f := by
  cases f with
  | call c ip => exact ⟨trivial, trivial⟩
  | _ => exact trivial

theorem logged_closed : (logged W L silent).Closed :=
  ⟨fun _ hm => ⟨trivial, hm⟩, fun _ _ hm _ => hm, fun _ _ _ he _ => he⟩

theorem logged_task : TaskAllows (logged W L silent).effect where
  backend m o vm hm hs := by
    refine ⟨hm.1, ?_⟩
    show vm.panicHandler.isSome
    rw [(backendStep_frame hs).1.panicHandler]
    exact hm.2
  backendOut _ _ _ _ := trivial
  world _ _ hm := hm
  counters _ _ _ _ hm := hm

theorem logged_callback {m m' : Machine W} (hm : m.panicLog = L ∧ m.vm.panicHandler.isSome)
    (h : m'.panicLog = m.panicLog ∧ (m.vm.panicHandler.isSome → m'.vm.panicHandler.isSome)) :
    m'.panicLog = L ∧ m'.vm.panicHandler.isSome := ⟨h.1.trans hm.1, h.2 hm.2⟩

variable (hH : H.KeepsLog)
include hH

/-- `vm_panic` reports its code once. -/
theorem logged_panic {e : Err} (he : e ≠ .ok) :
    PanicAllows H (logged W L silent).effect e.code where
  err m info hm hinfo := by
    refine ⟨Err.code_ne_zero he, .inl ⟨info, panicInfo_errorCode hinfo, ?_⟩⟩
    obtain ⟨f, hf⟩ := Option.isSome_iff_exists.mp hm.2
    rw [Machine.notified, hf, ← hm.1]
    exact (hH.panic f m.vm.panicUserData info { m with panicLog := info :: m.panicLog }).1
  out _ _ _ := trivial

theorem logged_stack : StackAllows H (logged W L silent).effect where
  ds _ _ _ hm _ := hm
  dsOut _ _ _ := trivial
  rsOut _ _ _ := trivial
  overflow := logged_panic hH (by decide)
  underflow := logged_panic hH (by decide)
  divByZero := logged_panic hH (by decide)

theorem logged_local : LocalAllows H (logged W L silent).effect where
  set _ _ _ _ hm _ _ _ := hm
  noFrame := logged_panic hH (by decide)

/-- Accessors return their codes unreported. -/
theorem logged_memory : MemoryAllows H (logged W L True).effect fun _ => True where
  ram _ _ _ hm _ := hm
  ramOut _ _ _ _ _ := trivial
  mmioOut _ _ _ := trivial
  read32 f u addr out m hm := ⟨logged_callback hm (hH.read32 f u addr out m), trivial⟩
  write32 f u addr val m hm := ⟨logged_callback hm (hH.write32 f u addr val m), trivial⟩
  ok := trivial
  unaligned := trivial
  oobMemory := trivial
  fails _ _ hm _ he := ⟨he, .inr ⟨trivial, hm.1⟩⟩

/-- Every instruction, up to what is known of the memory instructions. -/
theorem logged_fetch {cur : Activation}
    (hmem : ∀ op, cur.nextOp = some op → op.isMemory = true →
      MemoryMeets H (logged W L silent).effect) :
    Meets (logged W L silent).effect (fetch H cur) ((logged W L silent).flow cur) := by
  have hF := (logged W L silent).composable
  have hS : StackAllows H (logged W L silent).effect := logged_stack hH
  have hflow : ∀ f, (logged W L silent).flow cur f := logged_flow cur
  refine fetch_meets hF (fun _ _ _ => trivial) (.inr (logged_panic hH (by decide)))
    (fun _ => .inr (logged_panic hH (by decide))) fun op hlt hnext => ?_
  have hC : CodeMeets H (logged W L silent).effect cur (cur.ip + 1) op
      ((logged W L silent).flow cur) :=
    codeMeets_of_panics hF (fun _ _ _ => trivial) (fun e he => logged_panic hH he)
      (fun _ _ _ => trivial) hlt (fun _ _ => hflow _) (fun _ _ _ _ _ _ _ _ _ => hflow _)
      (hflow _) fun _ => hflow _
  exact execOp_meets hF hS.stackMeets hC (hS.rsMeets hF (fun _ _ _ hm _ => hm) op)
    (fun _ => (logged_local hH).localMeets hF hS) (hmem op hnext)
    (fun _ => sys_meets hF fun f i x y z m hm => logged_callback hm (hH.sys f i x y z m))
    fun _ => logged_task.taskMeets hF

/-! ## One memory instruction -/

/-- How an accessor ends: it faults, or it returns with the log as it was and with
    a code that is non-zero exactly when `fails`. -/
def Ends {α : Type} (L : List V4PanicInfo) (code : α → V4Err) (fails : Prop)
    (o : Outcome V4Err (Machine W) α) : Prop :=
  o = .fault ∨ ∃ a m, o = .ok a m ∧ (logged W L True).machine m ∧ (code a ≠ 0 ↔ fails)

section

variable {α β : Type} {addr : Cell} {m : Machine W} {code : β → V4Err} {b : V4Err → β}
  {r : α → β} {x : VmM W α}

omit hH in
/-- A refused access. -/
theorem ends_bad (hm : (logged W L True).machine m) (hbad : ∀ e, code (b e) = e) {e : V4Err}
    {fails : Prop} (he : e ≠ 0) (hf : fails) :
    Ends L code fails ((pure (b e) : VmM W β) m) :=
  .inr ⟨b e, m, rfl, hm, iff_of_true (by rw [hbad]; exact he) hf⟩

/-- Bytes of RAM below `mem_size`, and the code `0`. -/
theorem ends_bytes {n : Nat} (hm : (logged W L True).machine m) (hr : ∀ a, code (r a) = 0)
    (hx : Meets (ramEffect (addr.toNat + n)) x anyValue) (hin : v4IsInRam m.vm addr n = 0)
    {fails : Prop} (hf : ¬ fails) :
    Ends L code fails ((do let a ← x; return r a : VmM W β) m) := by
  have hadm := (logged_memory hH).ramAdmits hx hm (v4IsInRam_eq_zero hin)
  have hram := hx m (v4IsInRam_eq_zero hin).1
  cases hxm : x m with
  | ok a m' =>
      rw [hxm] at hadm
      rw [bind_ok hxm]
      exact .inr ⟨r a, m', rfl, hadm.1, iff_of_false (not_not.mpr (hr a)) hf⟩
  | err e m' => rw [hxm] at hram; exact hram.elim
  | fault => exact .inl (bind_fault hxm)

/-- The 8- and 16-bit accessors. -/
theorem access_ends {n : Nat} (hm : (logged W L True).machine m)
    (hbad : ∀ e, code (b e) = e) (hr : ∀ a, code (r a) = 0)
    (hx : Meets (ramEffect (addr.toNat + n)) x anyValue) :
    Ends L code (v4IsInRam m.vm addr n ≠ 0) ((do
      let vm ← getVm
      if v4IsInRam vm addr n ≠ 0 then return b (v4IsInRam vm addr n)
      else
        let a ← x
        return r a : VmM W β) m) := by
  show Ends L code _ ((if v4IsInRam m.vm addr n ≠ 0 then _ else _ : VmM W β) m)
  by_cases h : v4IsInRam m.vm addr n = 0
  · rw [if_neg (not_not.mpr h)]
    exact ends_bytes hH hm hr hx h (not_not.mpr h)
  · rw [if_pos h]
    exact ends_bad hm hbad h h

/-- The 32-bit accessors; `y` calls the window's callback. -/
theorem access32_ends (hm : (logged W L True).machine m) (hbad : ∀ e, code (b e) = e)
    (hr : ∀ a, code (r a) = 0) (hx : Meets (ramEffect (addr.toNat + 4)) x anyValue)
    {y : V4Mmio → VmM W β} {fw : V4Mmio → Prop} (hy : ∀ w, Ends L code (fw w) (y w m)) :
    Ends L code
      (match m.vm.window addr with
        | some w => v4IsAligned4 addr ≠ 0 ∨ fw w
        | none => v4IsInRam m.vm addr 4 ≠ 0 ∨ v4IsAligned4 addr ≠ 0)
      ((do
        match ← findMmio addr with
        | some w => if v4IsAligned4 addr ≠ 0 then return b (v4IsAligned4 addr) else y w
        | none =>
            let vm ← getVm
            if v4IsInRam vm addr 4 ≠ 0 then return b (v4IsInRam vm addr 4)
            else if v4IsAligned4 addr ≠ 0 then return b (v4IsAligned4 addr)
            else
              let a ← x
              return r a : VmM W β) m) := by
  obtain hw | ⟨hw, -⟩ := findMmio_cases addr m
  · rw [bind_ok hw]
    cases m.vm.window addr with
    | some w =>
        simp only
        by_cases ha : v4IsAligned4 addr = 0
        · rw [if_neg (not_not.mpr ha)]
          obtain hfault | ⟨a, m', hok, hm', hiff⟩ := hy w
          · exact .inl hfault
          · exact .inr ⟨a, m', hok, hm', hiff.trans (or_iff_right (not_not.mpr ha)).symm⟩
        · rw [if_pos ha]
          exact ends_bad hm hbad ha (.inl ha)
    | none =>
        show Ends L code _ ((if v4IsInRam m.vm addr 4 ≠ 0 then _ else _ : VmM W β) m)
        by_cases hin : v4IsInRam m.vm addr 4 = 0
        · rw [if_neg (not_not.mpr hin)]
          by_cases ha : v4IsAligned4 addr = 0
          · rw [if_neg (not_not.mpr ha)]
            exact ends_bytes hH hm hr hx hin (by simp [hin, ha])
          · rw [if_pos ha]
            exact ends_bad hm hbad ha (.inr ha)
        · rw [if_pos hin]
          exact ends_bad hm hbad hin (.inl hin)
  · exact .inl (bind_fault hw)

end

theorem read32_ends {m : Machine W} (hm : (logged W L True).machine m) (addr : Cell) :
    Ends L Prod.fst (Read32Fails H m addr) (v4MemRead32Core H addr 0 m) := by
  refine access32_ends hH hm (b := fun e => (e, 0)) (r := fun v => (0, v)) (fun _ => rfl)
    (fun _ => rfl) (ldLe32_ram (Nat.le_refl _)) fun w => ?_
  cases w.read32 with
  | none => exact ends_bad hm (b := fun e => (e, 0)) (fun _ => rfl) (by decide) nofun
  | some f =>
      refine .inr ⟨_, _, rfl, logged_callback hm (hH.read32 f w.user addr 0 m), ?_⟩
      exact ⟨fun h g hg => Option.some.inj hg ▸ h, fun h => h f rfl⟩

theorem write32_ends {m : Machine W} (hm : (logged W L True).machine m) (addr val : Cell) :
    Ends L id (Write32Fails H m addr val) (v4MemWrite32Core H addr val m) := by
  refine access32_ends hH hm (b := id) (r := fun _ => 0) (fun _ => rfl) (fun _ => rfl)
    (stLe32_ram (Nat.le_refl _) val) fun w => ?_
  cases w.write32 with
  | none => exact ends_bad hm (b := id) (fun _ => rfl) (by decide) nofun
  | some f =>
      refine .inr ⟨_, _, rfl, logged_callback hm (hH.write32 f w.user addr val m), ?_⟩
      exact ⟨fun h g hg => Option.some.inj hg ▸ h, fun h => h f rfl⟩

/-- A computation that fails without a report exactly when `fails`. -/
def Silenced {α : Type} (L : List V4PanicInfo) (fails : Prop) (m : Machine W)
    (o : Outcome V4Err (Machine W) α) : Prop :=
  (fails → o = .fault ∨ ∃ e m', o = .err e m' ∧ e ≠ 0 ∧ m'.panicLog = L) ∧
    (¬ fails → (logged W L False).effect.Admits anyValue m o)

omit hH in
theorem silenced_fault {α : Type} {fails : Prop} {m : Machine W} :
    Silenced L fails m (.fault : Outcome V4Err (Machine W) α) :=
  ⟨fun _ => .inl rfl, fun _ => trivial⟩

omit hH in
theorem check_cases (e : V4Err) (m : Machine W) :
    e = 0 ∧ (check e : VmM W Unit) m = .ok () m ∨ e ≠ 0 ∧ (check e : VmM W Unit) m = .err e m := by
  unfold check
  by_cases he : e = 0
  · rw [if_neg (not_not.mpr he)]
    exact .inl ⟨he, rfl⟩
  · rw [if_pos he]
    exact .inr ⟨he, rfl⟩

theorem loadOp_silenced {m : Machine W} (hm : (logged W L False).machine m)
    {core : Cell → Cell → VmM W (V4Err × Cell)} (ext : Cell → Cell) {fails : Prop}
    (hcore : Ends L Prod.fst fails (core (m.operand 0) 0 (m.popped 1))) :
    Silenced L (0 < m.vm.sp ∧ fails) m (loadOp H core ext m) := by
  have hF := (logged W L False).composable
  have hS : StackAllows H (logged W L False).effect := logged_stack hH
  unfold loadOp
  by_cases hsp : 0 < m.vm.sp
  · obtain hpop | hpop := dsPop_run (H := H) hsp
    · rw [bind_fault hpop]
      exact silenced_fault
    · rw [bind_ok hpop]
      obtain hfault | ⟨⟨e, v⟩, m', hok, hm', hiff⟩ := hcore
      · rw [bind_fault hfault]
        exact silenced_fault
      · rw [bind_ok hok]
        show Silenced L _ m ((check e >>= fun _ => dsPush H (ext v)) m')
        -- The error code is returned without a panic; after a success only the push can fail.
        obtain ⟨he, hcheck⟩ | ⟨he, hcheck⟩ := check_cases e m'
        · rw [bind_ok hcheck]
          exact ⟨fun hf => absurd he (hiff.mpr hf.2), fun _ => hS.push _ m' hm'⟩
        · rw [bind_err hcheck]
          exact ⟨fun _ => .inr ⟨e, m', rfl, he, hm'.1⟩,
            fun hf => absurd ⟨hsp, hiff.mp he⟩ hf⟩
  · refine ⟨fun h => absurd h.1 hsp, fun _ => ?_⟩
    exact .bind hF (hS.pop m hm) hm fun v m' hok _ _ => absurd (dsPop_ok hok).1 hsp

theorem storeOp_silenced {m : Machine W} (hm : (logged W L False).machine m)
    {core : Cell → Cell → VmM W V4Err} {fails : Prop}
    (hcore : Ends L id fails (core (m.operand 0) (m.operand 1) (m.popped 2))) :
    Silenced L (1 < m.vm.sp ∧ fails) m (storeOp H core m) := by
  have hF := (logged W L False).composable
  have hS : StackAllows H (logged W L False).effect := logged_stack hH
  unfold storeOp
  by_cases hsp : 1 < m.vm.sp
  · obtain hpop | hpop := dsPop_run (H := H) (Nat.zero_lt_of_lt hsp)
    · rw [bind_fault hpop]
      exact silenced_fault
    · rw [bind_ok hpop]
      have hsp1 : 0 < (m.popped 1).vm.sp := Nat.sub_pos_of_lt hsp
      obtain hpop1 | hpop1 := dsPop_run (H := H) hsp1
      · rw [bind_fault hpop1]
        exact silenced_fault
      · rw [bind_ok hpop1]
        change Ends L id fails (core (m.operand 0) ((m.popped 1).operand 0)
          ((m.popped 1).popped 1)) at hcore
        obtain hfault | ⟨e, m', hok, hm', hiff⟩ := hcore
        · rw [bind_fault hfault]
          exact silenced_fault
        · rw [bind_ok hok]
          obtain ⟨he, hcheck⟩ | ⟨he, hcheck⟩ := check_cases e m'
          · rw [hcheck]
            exact ⟨fun hf => absurd he (hiff.mpr hf.2), fun _ => ⟨hm', trivial⟩⟩
          · rw [hcheck]
            exact ⟨fun _ => .inr ⟨e, m', rfl, he, hm'.1⟩,
              fun hf => absurd ⟨hsp, hiff.mp he⟩ hf⟩
  · refine ⟨fun h => absurd h.1 hsp, fun _ => ?_⟩
    refine .bind hF (hS.pop m hm) hm fun v m' hok _ hm' => ?_
    refine .bind hF (hS.pop m' hm') hm' fun w m'' hok' _ _ => ?_
    -- With one operand the second pop panics.
    obtain ⟨hpos, rfl⟩ := dsPop_ok hok
    have hpos' : 0 < m.vm.sp - 1 := (dsPop_ok hok').1
    omega

omit hH in
theorem thenNext_silenced {m : Machine W} {fails : Prop} {body : VmM W Unit} (ip : Nat)
    (h : Silenced L fails m (body m)) : Silenced L fails m (thenNext ip body m) := by
  unfold thenNext
  cases hb : body m with
  | ok u m' =>
      rw [hb] at h
      rw [bind_ok hb]
      refine ⟨fun hf => ?_, h.2⟩
      obtain heq | ⟨e, n, heq, -⟩ := h.1 hf
      · cases heq
      · cases heq
  | err e m' =>
      rw [hb] at h
      rw [bind_err hb]
      refine ⟨fun hf => ?_, h.2⟩
      obtain heq | ⟨e', n, heq, hrest⟩ := h.1 hf
      · cases heq
      · cases heq
        exact .inr ⟨e, m', rfl, hrest⟩
  | fault =>
      rw [bind_fault hb]
      exact silenced_fault

/-- **The memory instructions.**  They fail without a report exactly when their
    access fails. -/
theorem memory_silenced {m : Machine W} (hm : (logged W L False).machine m) (a : Activation)
    (ip : Nat) {op : Op} (hop : op.isMemory = true) :
    Silenced L (AccessFails H m op) m (execOp H a ip op m) := by
  have hpop : ∀ n, (logged W L True).machine (m.popped n) := fun _ => hm
  match op with
  | .LOAD => exact thenNext_silenced ip (loadOp_silenced hH hm _ (read32_ends hH (hpop 1) _))
  | .LOAD8U | .LOAD8S =>
      exact thenNext_silenced ip (loadOp_silenced hH hm _
        (access_ends hH (hpop 1) (b := fun e => (e, 0)) (r := fun v : Byte => (0, v.setWidth 32))
          (fun _ => rfl) (fun _ => rfl) (ramByte_ram (Nat.lt_succ_self _))))
  | .LOAD16U | .LOAD16S =>
      exact thenNext_silenced ip (loadOp_silenced hH hm _
        (access_ends hH (hpop 1) (b := fun e => (e, 0))
          (r := fun v : BitVec 16 => (0, v.setWidth 32)) (fun _ => rfl) (fun _ => rfl)
          (ldLe16_ram (Nat.le_refl _))))
  | .STORE => exact thenNext_silenced ip (storeOp_silenced hH hm (write32_ends hH (hpop 2) _ _))
  | .STORE8 =>
      exact thenNext_silenced ip (storeOp_silenced hH hm
        (access_ends hH (hpop 2) (b := id) (r := fun _ => 0) (fun _ => rfl) (fun _ => rfl)
          (setRamByte_ram (Nat.lt_succ_self _) _)))
  | .STORE16 =>
      exact thenNext_silenced ip (storeOp_silenced hH hm
        (access_ends hH (hpop 2) (b := id) (r := fun _ => 0) (fun _ => rfl) (fun _ => rfl)
          (stLe16_ram (Nat.le_refl _) _)))

/-! ## Every run -/

/-- An instruction whose access does not fail keeps the log, or reports its failure. -/
theorem logged_instr {m : Machine W} {cur : Activation} (hm : (logged W L False).machine m)
    (hok : ∀ op, cur.nextOp = some op → ¬ AccessFails H m op) :
    (logged W L False).effect.Admits ((logged W L False).flow cur) m (fetch H cur m) := by
  by_cases hmem : ∃ op, cur.nextOp = some op ∧ op.isMemory = true
  · obtain ⟨op, hnext, hop⟩ := hmem
    have hadm := (memory_silenced hH hm cur (cur.ip + 1) hop).2 (hok op hnext)
    rw [fetch_run hnext]
    cases hx : execOp H cur (cur.ip + 1) op m with
    | ok f m' => rw [hx] at hadm; exact ⟨hadm.1, logged_flow cur f⟩
    | err e m' => rw [hx] at hadm; exact hadm
    | fault => exact trivial
  · exact logged_fetch hH (fun op hnext hop => absurd ⟨op, hnext, hop⟩ hmem) m hm

/-- A run without a silent failure has reported what it failed with. -/
theorem logged_reaches {c d : Config W} (hc : (logged W L False).Holds [] c) (h : Reaches H c d)
    (hsilent : ∀ x, Reaches H c x → ¬ x.SilentFailure H) : (logged W L False).Holds [] d := by
  induction h with
  | refl => exact hc
  | @tail x y hx hs ih =>
      refine ih.step logged_closed hs ?_ ?_ ?_
      · rintro e m rfl
        cases hs
      · rintro m cur cs rfl
        exact logged_instr hH ih.1 fun op hnext hbad =>
          hsilent _ hx ⟨m, cur, cs, op, rfl, hnext, hbad⟩
      · rintro w m cur cs rfl
        exact logged_task.pollOnce (logged W L False).composable (logged_stack hH) w cur.ip
          trivial trivial m ih.1

/-- A run that goes through a silent failure ends with a code nobody has reported. -/
theorem silentFailure_unreported {m m' : Machine W} {bc : List Byte} {len : Nat} {e : V4Err}
    (hpanic : m.vm.panicHandler.isSome) (hrun : Returns H m bc len e m') {c : Config W}
    (hc : Reaches H (.start m bc len) c) (hbad : c.SilentFailure H) :
    e ≠ 0 ∧ m'.panicLog = m.panicLog := by
  have hF := (logged W m.panicLog True).composable
  have hS : StackAllows H (logged W m.panicLog True).effect := logged_stack hH
  have hstart : (logged W m.panicLog True).Holds [] (.start m bc len) :=
    ⟨⟨rfl, hpanic⟩, trivial, [], rfl, nofun⟩
  have hlog := RunInv.Holds.reaches logged_closed
    (fun cur _ => logged_fetch hH fun _ _ _ => (logged_memory hH).memoryMeets hF hS)
    (fun w cur _ => logged_task.pollOnce hF hS w cur.ip trivial trivial) hstart hc
  obtain ⟨n, cur, cs, op, rfl, hnext, hfails⟩ := hbad
  have hop : op.isMemory = true := by
    cases op with
    | LOAD | LOAD8U | LOAD8S | LOAD16U | LOAD16S | STORE | STORE8 | STORE16 => rfl
    | _ => exact hfails.elim
  have hrest : Reaches H (.run n cur cs) (.ret e m' []) := by
    -- The interpreter is deterministic, so the return lies behind the silent failure.
    have hunique : Relator.RightUnique (Step H) := fun _ _ _ hs hs' => hs.functional hs'
    refine (Relation.ReflTransGen.total_of_right_unique hunique hc hrun).resolve_right fun h => ?_
    cases Reaches.of_final rfl h
  have hstep : Step H (.run n cur cs) (settle cur cs (fetch H cur n)) := rfl
  obtain hend | hrest := Reaches.cases_step hstep hrest
  · cases hend
  · have hsil := (memory_silenced hH hlog.1 cur (cur.ip + 1) hop).1 hfails
    rw [fetch_run hnext] at hrest
    obtain hx | ⟨e1, n', hx, he1, hlog'⟩ := hsil
    · rw [hx] at hrest
      cases hrest.of_final rfl
    · rw [hx] at hrest
      -- From here on the error is only handed up.
      obtain ⟨fp, cs', heq⟩ := hrest.failed he1
      cases heq
      exact ⟨he1, hlog'⟩

/-- **Reported once.**  A run reports its failure exactly when it executes no
    memory instruction whose access fails. -/
theorem vmExecRaw_reported_iff {m m' : Machine W} {bc : List Byte} {len : Nat} {e : V4Err}
    (hpanic : m.vm.panicHandler.isSome) (hrun : Returns H m bc len e m') :
    Reported m e m' ↔ ∀ c, Reaches H (.start m bc len) c → ¬ c.SilentFailure H := by
  constructor
  · intro hrep c hc hbad
    obtain ⟨he, hlog⟩ := silentFailure_unreported hH hpanic hrun hc hbad
    obtain ⟨info, -, hcons⟩ := hrep.2 he
    exact List.cons_ne_self info m.panicLog (hcons.symm.trans hlog)
  · intro hsilent
    have hstart : (logged W m.panicLog False).Holds [] (.start m bc len) :=
      ⟨⟨rfl, hpanic⟩, trivial, [], rfl, nofun⟩
    obtain ⟨⟨he, hm⟩ | ⟨he, hlog⟩, -⟩ := logged_reaches hH hstart hrun hsilent
    · exact ⟨fun _ => hm.1, fun hne => absurd he hne⟩
    · exact ⟨fun h0 => absurd h0 he, fun _ => hlog.resolve_right fun h => h.1⟩

end

/-- The blank VM with a panic handler. -/
def guardedVm : Vm := { Vm.blank with panicHandler := some 0 }

/-- The snapshot of a failure on the empty stacks. -/
def emptySnapshot (e : V4Err) : V4PanicInfo := ⟨e, 0, 0, 0, 0, false, ![0, 0, 0, 0]⟩

theorem Host.silent_keepsLog : Host.silent.KeepsLog :=
  Host.silent_within.mono fun _ _ heq => heq ▸ ⟨rfl, id⟩

/-- `DUP` on the empty stack is reported. -/
theorem vmExecRaw_reported_dup : Reported (Machine.boot guardedVm) (-15)
    { Machine.boot guardedVm with panicLog := [emptySnapshot (-15)] } := by
  have h1 : Step Host.silent (.start (Machine.boot guardedVm) [0x01] 1)
      (.ret (-15) { Machine.boot guardedVm with panicLog := [emptySnapshot (-15)] } []) := rfl
  refine (vmExecRaw_reported_iff Host.silent_keepsLog rfl (.single h1)).mpr fun c hc => ?_
  rintro ⟨m, cur, cs, op, rfl, hnext, hfails⟩
  rcases hc.cases_step h1 with heq | hc
  · cases heq
    obtain rfl : Op.DUP = op := Option.some.inj hnext
    exact hfails
  · cases hc.of_final rfl

/-- `0 @` without any RAM returns `-13`, and the handler is never called. -/
theorem load_unreported : ∃ m', Returns Host.silent (Machine.boot guardedVm) [0x73, 0x30, 0x51] 3
    (-13) m' ∧ m'.panicLog = (Machine.boot guardedVm).panicLog ∧
    ¬ Reported (Machine.boot guardedVm) (-13) m' := by
  refine ⟨_, .head rfl (.head rfl .refl), rfl, fun h => ?_⟩
  obtain ⟨info, -, hcons⟩ := h.2 (by decide)
  cases hcons

end V4Engine
