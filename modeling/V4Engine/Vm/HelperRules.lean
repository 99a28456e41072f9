/-
  V4Engine.Vm.HelperRules

  One rule for each helper of the interpreter: what an effect has to allow so
  that the helper stays within it.

  The `…Allows` structures name the primitive updates a group of helpers makes
  (a new data stack, a new byte of RAM, a callback), each with the facts the
  source has checked by then.  Together with `execOp_meets` they reduce a
  property of every instruction to these updates.
-/
import V4Engine.Vm.OpRules
import V4Engine.Task.Ops

namespace V4Engine

open Lib FaultM VmM

variable {W : Type} {H : Host W} {F : Effect V4Err (Machine W)}

/-! ## Panics -/

/-- The machine once the panic handler, if there is one, has returned. -/
def Machine.notified (H : Host W) (m : Machine W) (info : V4PanicInfo) : Machine W :=
  match m.vm.panicHandler with
  | none => m
  | some handler =>
      H.panic handler m.vm.panicUserData info { m with panicLog := info :: m.panicLog }

theorem vmPanic_run {α : Type} (H : Host W) (e : V4Err) (m : Machine W) :
    (vmPanic H e : VmM W α) m = match panicInfo m.vm e with
      | none => .fault
      | some info => .err e (m.notified H info) := by
  unfold vmPanic Machine.notified
  cases panicInfo m.vm e with
  | none => rfl
  | some info => cases m.vm.panicHandler <;> rfl

/-- The snapshot is taken whenever the depth is a legal one. -/
theorem panicInfo_isSome {vm : Vm} (h : vm.sp ≤ 256) (e : V4Err) : (panicInfo vm e).isSome := by
  have hpeek : ∀ i, ∃ v, panicStack vm (BitVec.ofNat 8 vm.sp) i = some v := by
    intro i
    unfold panicStack vmDsPeekPublic
    split
    · split
      · exact ⟨0, rfl⟩
      · rw [if_pos (by omega)]
        exact ⟨_, rfl⟩
    · exact ⟨0, rfl⟩
  obtain ⟨s0, h0⟩ := hpeek 0
  obtain ⟨s1, h1⟩ := hpeek 1
  obtain ⟨s2, h2⟩ := hpeek 2
  obtain ⟨s3, h3⟩ := hpeek 3
  simp [panicInfo, h0, h1, h2, h3]

/-- The snapshot carries the code of the failure. -/
theorem panicInfo_errorCode {vm : Vm} {e : V4Err} {info : V4PanicInfo}
    (h : panicInfo vm e = some info) : info.errorCode = e := by
  simp only [panicInfo, Option.bind_eq_bind, Option.bind_eq_some_iff, Option.pure_def,
    Option.some.injEq] at h
  obtain ⟨s0, -, s1, -, s2, -, s3, -, h⟩ := h
  rw [← h]

/-- The effect allows a panic with code `e`. -/
structure PanicAllows (H : Host W) (F : Effect V4Err (Machine W)) (e : V4Err) : Prop where
  err : ∀ m info, F.pre m → panicInfo m.vm e = some info → F.err e m (m.notified H info)
  out : ∀ m, F.pre m → 256 < m.vm.sp → F.stuck m

theorem PanicAllows.meets {α : Type} {e : V4Err} {Q : α → Prop} (A : PanicAllows H F e) :
    Meets F (vmPanic H e : VmM W α) Q := by
  intro m hm
  rw [vmPanic_run]
  cases hinfo : panicInfo m.vm e with
  | none =>
      refine A.out m hm (Nat.lt_of_not_le fun hle => ?_)
      have := panicInfo_isSome hle e
      rw [hinfo] at this
      cases this
  | some info => exact A.err m info hm hinfo

/-! ## Stacks -/

/-- The updates of the stack helpers. -/
structure StackAllows (H : Host W) (F : Effect V4Err (Machine W)) : Prop where
  ds : ∀ m DS sp, F.pre m → sp ≤ m.vm.sp ∨ m.vm.sp < 256 ∧ sp = m.vm.sp + 1 →
    F.ret m { m with vm := { m.vm with DS := DS, sp := sp } }
  dsOut : ∀ m, F.pre m → 256 < m.vm.sp → F.stuck m
  rsOut : ∀ m, F.pre m → 64 < m.vm.rp → F.stuck m
  overflow : PanicAllows H F Err.stackOverflow.code
  underflow : PanicAllows H F Err.stackUnderflow.code
  divByZero : PanicAllows H F Err.divByZero.code

namespace StackAllows

variable (A : StackAllows H F)
include A

theorem push (v : Cell) : Meets F (dsPush H v) anyValue := by
  intro m hm
  show F.Admits anyValue m ((if m.vm.sp ≥ 256 then _ else _ : VmM W Unit) m)
  by_cases h : m.vm.sp ≥ 256
  · rw [if_pos h]
    exact A.overflow.meets m hm
  · rw [if_neg h]
    exact ⟨A.ds m _ _ hm (.inr ⟨by omega, rfl⟩), trivial⟩

theorem pop : Meets F (dsPop H) anyValue := by
  intro m hm
  show F.Admits anyValue m ((if m.vm.sp ≤ 0 then _ else _ : VmM W Cell) m)
  by_cases h : m.vm.sp ≤ 0
  · rw [if_pos h]
    exact A.underflow.meets m hm
  · rw [if_neg h]
    by_cases hb : m.vm.sp - 1 < 256
    · rw [slot, if_pos hb]
      exact ⟨A.ds m _ _ hm (.inl (Nat.sub_le _ _)), trivial⟩
    · rw [slot, if_neg hb]
      exact A.dsOut m hm (by omega)

theorem peek (i : Nat) : Meets F (dsPeek H i) anyValue := by
  intro m hm
  show F.Admits anyValue m ((if m.vm.sp < 1 + i then _ else _ : VmM W Cell) m)
  by_cases h : m.vm.sp < 1 + i
  · rw [if_pos h]
    exact A.underflow.meets m hm
  · rw [if_neg h]
    by_cases hb : m.vm.sp - 1 - i < 256
    · rw [slot, if_pos hb]
      exact ⟨A.ds m _ _ hm (.inl (Nat.le_refl _)), trivial⟩
    · rw [slot, if_neg hb]
      exact A.dsOut m hm (by omega)

theorem rsPeek (i : Nat) : Meets F (rsPeek H i) anyValue := by
  intro m hm
  show F.Admits anyValue m ((if m.vm.rp < 1 + i then _ else _ : VmM W Cell) m)
  by_cases h : m.vm.rp < 1 + i
  · rw [if_pos h]
    exact A.underflow.meets m hm
  · rw [if_neg h]
    by_cases hb : m.vm.rp - 1 - i < 64
    · rw [slot, if_pos hb]
      exact ⟨A.ds m _ _ hm (.inl (Nat.le_refl _)), trivial⟩
    · rw [slot, if_neg hb]
      exact A.rsOut m hm (by omega)

theorem stackMeets : StackMeets H F :=
  ⟨A.push, A.pop, A.peek, A.rsPeek, A.divByZero.meets⟩

/-- `>R`, for an effect that allows its push. -/
theorem tor (hF : F.Composable)
    (rs : ∀ m v, F.pre m → m.vm.rp < 64 →
      F.ret m { m with vm := { m.vm with RS := Function.update m.vm.RS m.vm.rp v,
                                         rp := m.vm.rp + 1 } }) :
    Meets F (do let v ← dsPop H; rsPush H v) anyValue := by
  refine .bind hF A.pop fun v _ m hm => ?_
  show F.Admits anyValue m ((if m.vm.rp ≥ 64 then _ else _ : VmM W Unit) m)
  by_cases h : m.vm.rp ≥ 64
  · rw [if_pos h]
    exact A.overflow.meets m hm
  · rw [if_neg h]
    exact ⟨rs m v hm (Nat.lt_of_not_le h), trivial⟩

/-- `R>`, for an effect that allows its pop. -/
theorem fromr (hF : F.Composable)
    (rs : ∀ m, F.pre m → 0 < m.vm.rp → F.ret m { m with vm := { m.vm with rp := m.vm.rp - 1 } }) :
    Meets F (do let v ← rsPop H; dsPush H v) anyValue := by
  refine .bind hF (P := anyValue) (fun m hm => ?_) fun v _ => A.push v
  show F.Admits anyValue m ((if m.vm.rp ≤ 0 then _ else _ : VmM W Cell) m)
  by_cases h : m.vm.rp ≤ 0
  · rw [if_pos h]
    exact A.underflow.meets m hm
  · rw [if_neg h]
    by_cases hb : m.vm.rp - 1 < 64
    · rw [slot, if_pos hb]
      exact ⟨rs m hm (by omega), trivial⟩
    · rw [slot, if_neg hb]
      exact A.rsOut m hm (by omega)

/-- Both, for an effect that lets the return stack change within `RS`. -/
theorem rsMeets (hF : F.Composable) (rs : ∀ m RS rp, F.pre m →
      rp ≤ m.vm.rp ∨ m.vm.rp < 64 ∧ rp = m.vm.rp + 1 →
      F.ret m { m with vm := { m.vm with RS := RS, rp := rp } }) (op : Op) : RsMeets H F op where
  tor _ := A.tor hF fun m _ hm hlt => rs m _ _ hm (.inr ⟨hlt, rfl⟩)
  fromr _ := A.fromr hF fun m hm _ => rs m _ _ hm (.inl (Nat.sub_le _ _))

end StackAllows

/-- The operand `i` below the top of the data stack. -/
def Machine.operand (m : Machine W) (i : Nat) : Cell := m.vm.DS (m.vm.sp - 1 - i)

/-- The machine after `n` pops. -/
def Machine.popped (m : Machine W) (n : Nat) : Machine W :=
  { m with vm := { m.vm with sp := m.vm.sp - n } }

theorem dsPop_run {m : Machine W} (hsp : 0 < m.vm.sp) :
    dsPop H m = .fault ∨ dsPop H m = .ok (m.operand 0) (m.popped 1) := by
  show (if m.vm.sp ≤ 0 then _ else _ : VmM W Cell) m = _ ∨
    (if m.vm.sp ≤ 0 then _ else _ : VmM W Cell) m = _
  rw [if_neg (by omega), slot]
  by_cases h : m.vm.sp - 1 < 256
  · rw [if_pos h]
    exact .inr rfl
  · rw [if_neg h]
    exact .inl rfl

theorem dsPop_ok {m m' : Machine W} {v : Cell} (h : dsPop H m = .ok v m') :
    0 < m.vm.sp ∧ m' = { m with vm := { m.vm with sp := m.vm.sp - 1 } } := by
  change (if m.vm.sp ≤ 0 then _ else _ : VmM W Cell) m = _ at h
  by_cases hsp : m.vm.sp ≤ 0
  · rw [if_pos hsp, vmPanic_run] at h
    split at h <;> cases h
  · rw [if_neg hsp, slot] at h
    split at h <;> cases h
    exact ⟨Nat.lt_of_not_le hsp, rfl⟩

theorem dsPeek_ok {i : Nat} {m m' : Machine W} {v : Cell} (h : dsPeek H i m = .ok v m') :
    m' = m := by
  change (if m.vm.sp < 1 + i then _ else _ : VmM W Cell) m = _ at h
  by_cases hsp : m.vm.sp < 1 + i
  · rw [if_pos hsp, vmPanic_run] at h
    split at h <;> cases h
  · rw [if_neg hsp, slot] at h
    split at h <;> cases h
    rfl

/-- What a pop returns. -/
theorem dsPop_value {m m' : Machine W} {v : Cell} (h : dsPop H m = .ok v m') :
    v = m.operand 0 ∧ m' = m.popped 1 := by
  obtain hrun | hrun := dsPop_run (H := H) (dsPop_ok h).1
  · cases h.symm.trans hrun
  · cases h.symm.trans hrun
    exact ⟨rfl, rfl⟩

/-- A pop leaves room for a push. -/
theorem dsPop_lt {m m' : Machine W} {v : Cell} (h : dsPop H m = .ok v m') : m'.vm.sp < 256 := by
  change (if m.vm.sp ≤ 0 then _ else _ : VmM W Cell) m = _ at h
  by_cases hsp : m.vm.sp ≤ 0
  · rw [if_pos hsp, vmPanic_run] at h
    split at h <;> cases h
  · rw [if_neg hsp, slot] at h
    by_cases hlt : m.vm.sp - 1 < 256
    · rw [if_pos hlt] at h
      cases h
      exact hlt
    · rw [if_neg hlt] at h
      cases h

/-- A push into a stack with room never fails. -/
theorem dsPush_ne_err {m m' : Machine W} {v : Cell} {e : V4Err} (hsp : m.vm.sp < 256) :
    dsPush H v m ≠ .err e m' := by
  show (if m.vm.sp ≥ 256 then _ else _ : VmM W Unit) m ≠ _
  rw [if_neg (Nat.not_le.mpr hsp)]
  exact nofun

/-- What a push leaves. -/
theorem dsPush_ok {m m' : Machine W} {v : Cell} (h : dsPush H v m = .ok () m') :
    m'.vm.sp = m.vm.sp + 1 ∧ m'.operand 0 = v := by
  change (if m.vm.sp ≥ 256 then _ else _ : VmM W Unit) m = _ at h
  by_cases hsp : m.vm.sp ≥ 256
  · rw [if_pos hsp, vmPanic_run] at h
    split at h <;> cases h
  · rw [if_neg hsp] at h
    cases h
    exact ⟨rfl, Function.update_self ..⟩

theorem thenNext_failsWithin {ip : Nat} {body : VmM W Unit} {m : Machine W}
    (h : FailsWithin F body m) : FailsWithin F (thenNext ip body) m :=
  h.then_infallible fun _ _ _ _ _ => nofun

theorem thenNext_ok {ip : Nat} {body : VmM W Unit} {m m' : Machine W} {f : Flow}
    (h : thenNext ip body m = .ok f m') : f = .next ip ∧ body m = .ok () m' := by
  obtain ⟨u, n, hbody, hret⟩ := bind_eq_ok.mp h
  cases hret
  exact ⟨rfl, hbody⟩

theorem liftVm_ok {α : Type} {f : Vm → Option (α × Vm)} {m m' : Machine W} {v : α}
    (h : (liftVm f : VmM W α) m = .ok v m') : f m.vm = some (v, m'.vm) := by
  unfold liftVm at h
  split at h
  · next heq =>
      cases h
      exact heq
  · cases h

/-- A task call that returns nothing. -/
theorem liftVm_map_ok {f : Vm → Option Vm} {m m' : Machine W}
    (h : (liftVm fun vm => (f vm).map ((), ·) : VmM W Unit) m = .ok () m') :
    f m.vm = some m'.vm := by
  obtain ⟨vm, hvm, heq⟩ := Option.map_eq_some_iff.mp (liftVm_ok h)
  cases heq
  exact hvm

/-! ## Local variables -/

/-- The updates of the local-variable opcodes: a slot of the frame, which
    starts at `fp` and ends below `rp`. -/
structure LocalAllows (H : Host W) (F : Effect V4Err (Machine W)) : Prop where
  set : ∀ m fp i v, F.pre m → m.vm.fp = some fp → fp ≤ i → i < m.vm.rp →
    F.ret m { m with vm := { m.vm with RS := Function.update m.vm.RS i v } }
  noFrame : PanicAllows H F Err.invalidArg.code

theorem localSlot_none {m : Machine W} (h : m.vm.fp = none) (idx : Nat) :
    localSlot H idx m = vmPanic H Err.invalidArg.code m := by
  unfold localSlot
  rw [bind_ok (show getVm m = .ok m.vm m from rfl), h]

theorem localSlot_some {m : Machine W} {fp : Nat} (h : m.vm.fp = some fp) (idx : Nat) :
    localSlot H idx m = (if fp + idx ≥ m.vm.rp then vmPanic H Err.stackUnderflow.code
      else pure (fp + idx) : VmM W Nat) m := by
  unfold localSlot
  rw [bind_ok (show getVm m = .ok m.vm m from rfl), h]

/-- The slot `fp[idx]` when `m` has one. -/
theorem localSlot_admits (hF : F.Composable) (A : StackAllows H F) (L : LocalAllows H F)
    (idx : Nat) {m : Machine W} (hm : F.pre m) {f : Nat → VmM W Unit}
    (hf : ∀ fp i, m.vm.fp = some fp → fp ≤ i → i < m.vm.rp → F.Admits anyValue m (f i m)) :
    F.Admits anyValue m ((localSlot H idx >>= f) m) := by
  cases hfp : m.vm.fp with
  | none =>
      have hrun := localSlot_none (H := H) hfp idx
      refine .bind hF (P := anyValue) (hrun ▸ L.noFrame.meets m hm) hm fun i m' hok => ?_
      rw [hrun, vmPanic_run] at hok
      split at hok <;> cases hok
  | some fp =>
      have hrun := localSlot_some (H := H) hfp idx
      by_cases hlt : fp + idx ≥ m.vm.rp
      · rw [if_pos hlt] at hrun
        refine .bind hF (P := anyValue) (hrun ▸ A.underflow.meets m hm) hm fun i m' hok => ?_
        rw [hrun, vmPanic_run] at hok
        split at hok <;> cases hok
      · rw [if_neg hlt] at hrun
        rw [bind_ok hrun]
        exact hf fp (fp + idx) hfp (Nat.le_add_right _ _) (Nat.lt_of_not_le hlt)

theorem getRs_admits (A : StackAllows H F) (hF : F.Composable) {m : Machine W} (hm : F.pre m)
    {i : Nat} (hi : i < m.vm.rp) : F.Admits anyValue m (getRs i m) := by
  unfold getRs
  by_cases h : i < 64
  · rw [if_pos h]
    exact ⟨hF.refl hm, trivial⟩
  · rw [if_neg h]
    exact A.rsOut m hm (by omega)

theorem getRs_ok {i : Nat} {m m' : Machine W} {v : Cell} (h : getRs i m = .ok v m') : m' = m := by
  unfold getRs at h
  split at h <;> cases h
  rfl

theorem setRs_admits (A : StackAllows H F) (L : LocalAllows H F) {m : Machine W} (hm : F.pre m)
    {fp i : Nat} (hfp : m.vm.fp = some fp) (hle : fp ≤ i) (hi : i < m.vm.rp) (v : Cell) :
    F.Admits anyValue m (setRs i v m) := by
  unfold setRs
  by_cases h : i < 64
  · rw [if_pos h]
    exact ⟨L.set m fp i v hm hfp hle hi, trivial⟩
  · rw [if_neg h]
    exact A.rsOut m hm (by omega)

theorem LocalAllows.localMeets (hF : F.Composable) (A : StackAllows H F) (L : LocalAllows H F) :
    LocalMeets H F where
  get idx m hm := localSlot_admits hF A L idx hm fun fp i hfp hle hi =>
    .bind hF (getRs_admits A hF hm hi) hm fun v m' _ _ hm' => A.push v m' hm'
  set idx m hm := localSlot_admits hF A L idx hm fun fp i hfp hle hi =>
    .bind hF (A.pop m hm) hm fun v m' hok _ hm' => by
      have heq := (dsPop_ok hok).2
      exact setRs_admits A L hm' (heq ▸ hfp) hle (heq ▸ hi) v
  tee idx m hm := localSlot_admits hF A L idx hm fun fp i hfp hle hi =>
    .bind hF (A.peek 0 m hm) hm fun v m' hok _ hm' => by
      have heq := dsPeek_ok hok
      exact setRs_admits A L hm' (heq ▸ hfp) hle (heq ▸ hi) v
  add idx d m hm := localSlot_admits hF A L idx hm fun fp i hfp hle hi =>
    .bind hF (getRs_admits A hF hm hi) hm fun v m' hok _ hm' => by
      have heq := getRs_ok hok
      exact setRs_admits A L hm' (heq ▸ hfp) hle (heq ▸ hi) (v + d)

/-! ## RAM -/

/-- The machine with other bytes in its RAM buffer. -/
def Machine.setRam (m : Machine W) (ram : Ram) (byte : Nat → Byte) : Machine W :=
  { m with vm := { m.vm with mem := some { ram with byte := byte } } }

/-- What the byte accessors do below offset `n`: nothing but RAM bytes change,
    and a fault means a buffer shorter than `n`. -/
def ramEffect (n : Nat) : Effect V4Err (Machine W) where
  pre m := m.vm.mem.isSome
  ret m m' := ∃ ram byte, m.vm.mem = some ram ∧ m' = m.setRam ram byte
  err _ _ _ := False
  stuck m := ∀ ram, m.vm.mem = some ram → ram.cap < n

theorem setRam_self {m : Machine W} {ram : Ram} (h : m.vm.mem = some ram) :
    m.setRam ram ram.byte = m := by
  show { m with vm := { m.vm with mem := some ram } } = m
  rw [← h]

theorem ramEffect_composable (n : Nat) : (ramEffect n : Effect V4Err (Machine W)).Composable where
  refl := fun hm => by
    obtain ⟨ram, hram⟩ := Option.isSome_iff_exists.mp hm
    exact ⟨ram, ram.byte, hram, (setRam_self hram).symm⟩
  pre := fun _ ⟨_, _, _, heq⟩ => heq ▸ rfl
  trans := fun ⟨ram, _, hram, heq⟩ ⟨ram', byte', hram', heq'⟩ => by
    subst heq
    cases hram'
    exact ⟨ram, byte', hram, heq'⟩
  err := fun _ h => h
  stuck := fun ⟨ram, byte, hram, heq⟩ h => by
    subst heq
    intro ram' hram'
    rw [hram] at hram'
    cases hram'
    exact h { ram with byte := byte } rfl

theorem ramByte_ram {i n : Nat} (h : i < n) :
    Meets (ramEffect n) (ramByte i : VmM W Byte) anyValue := by
  intro m hm
  obtain ⟨ram, hram⟩ := Option.isSome_iff_exists.mp hm
  unfold ramByte
  rw [hram]
  by_cases hi : i < ram.cap
  · simp only [if_pos hi]
    exact ⟨(ramEffect_composable n).refl hm, trivial⟩
  · simp only [if_neg hi]
    intro ram' hram'
    rw [hram] at hram'
    cases hram'
    omega

theorem setRamByte_ram {i n : Nat} (h : i < n) (b : Byte) :
    Meets (ramEffect n) (setRamByte i b : VmM W Unit) anyValue := by
  intro m hm
  obtain ⟨ram, hram⟩ := Option.isSome_iff_exists.mp hm
  unfold setRamByte
  rw [hram]
  by_cases hi : i < ram.cap
  · simp only [if_pos hi]
    exact ⟨⟨ram, _, hram, rfl⟩, trivial⟩
  · simp only [if_neg hi]
    intro ram' hram'
    rw [hram] at hram'
    cases hram'
    omega

theorem ldLe32_ram {addr n : Nat} (h : addr + 4 ≤ n) :
    Meets (ramEffect n) (ldLe32 addr : VmM W Cell) anyValue :=
  have hF := ramEffect_composable n
  .bind hF (ramByte_ram (by omega)) fun _ _ => .bind hF (ramByte_ram (by omega)) fun _ _ =>
    .bind hF (ramByte_ram (by omega)) fun _ _ => .bind hF (ramByte_ram (by omega)) fun _ _ =>
      .pure hF trivial

theorem stLe32_ram {addr n : Nat} (h : addr + 4 ≤ n) (v : Cell) :
    Meets (ramEffect n) (stLe32 addr v : VmM W Unit) anyValue :=
  have hF := ramEffect_composable n
  .bind hF (setRamByte_ram (by omega) _) fun _ _ =>
    .bind hF (setRamByte_ram (by omega) _) fun _ _ =>
      .bind hF (setRamByte_ram (by omega) _) fun _ _ => setRamByte_ram (by omega) _

theorem ldLe16_ram {addr n : Nat} (h : addr + 2 ≤ n) :
    Meets (ramEffect n) (ldLe16 addr : VmM W (BitVec 16)) anyValue :=
  have hF := ramEffect_composable n
  .bind hF (ramByte_ram (by omega)) fun _ _ => .bind hF (ramByte_ram (by omega)) fun _ _ =>
    .pure hF trivial

theorem stLe16_ram {addr n : Nat} (h : addr + 2 ≤ n) (v : BitVec 16) :
    Meets (ramEffect n) (stLe16 addr v : VmM W Unit) anyValue :=
  have hF := ramEffect_composable n
  .bind hF (setRamByte_ram (by omega) _) fun _ _ => setRamByte_ram (by omega) _

/-- The RAM check accepts only what lies below `mem_size`. -/
theorem v4IsInRam_eq_zero {vm : Vm} {addr : Cell} {bytes : Nat}
    (h : v4IsInRam vm addr bytes = 0) :
    vm.mem.isSome ∧ addr.toNat + bytes ≤ vm.memSize.toNat := by
  unfold v4IsInRam at h
  split at h
  · assumption
  · exact absurd h (by decide)

theorem v4IsInRam_ne_zero {vm : Vm} {addr : Cell} {bytes : Nat}
    (h : v4IsInRam vm addr bytes ≠ 0) : v4IsInRam vm addr bytes = Err.oobMemory.code := by
  unfold v4IsInRam at h ⊢
  split at h
  · exact absurd rfl h
  · next hc => rw [if_neg hc]

theorem v4IsAligned4_ne_zero {addr : Cell} (h : v4IsAligned4 addr ≠ 0) :
    v4IsAligned4 addr = Err.unaligned.code := by
  unfold v4IsAligned4 at h ⊢
  split at h
  · exact absurd rfl h
  · next hc => rw [if_neg hc]

/-! ## Memory accessors -/

/-- The first window of the MMIO table that covers `addr`. -/
def Vm.window (vm : Vm) (addr : Cell) : Option V4Mmio :=
  ((List.range' 0 vm.mmioCount).map vm.mmio).find? fun w => w.covers addr

/-- The lookup loop leaves the machine alone and stays in the table while
    `i + k` does. -/
theorem findMmioFrom_cases (addr : Cell) (k : Nat) : ∀ (i : Nat) (m : Machine W),
    findMmioFrom addr i k m
        = .ok (((List.range' i k).map m.vm.mmio).find? fun w => w.covers addr) m ∨
      findMmioFrom addr i k m = .fault ∧ 16 < i + k := by
  induction k with
  | zero => exact fun i m => .inl rfl
  | succ k ih =>
      intro i m
      by_cases hi : i < 16
      · have hat : mmioAt i m = .ok (m.vm.mmio i) m := if_pos hi
        rw [findMmioFrom, bind_ok hat, List.range'_succ, List.map_cons, List.find?_cons]
        cases hc : (m.vm.mmio i).covers addr with
        | true => exact .inl rfl
        | false =>
            have := ih (i + 1) m
            rwa [Nat.add_right_comm, Nat.add_assoc] at this
      · have hat : (mmioAt i m : Outcome V4Err (Machine W) V4Mmio) = .fault := if_neg hi
        rw [findMmioFrom, bind_fault hat]
        exact .inr ⟨rfl, by omega⟩

theorem findMmio_cases (addr : Cell) (m : Machine W) :
    findMmio addr m = .ok (m.vm.window addr) m ∨
      findMmio addr m = .fault ∧ 16 < m.vm.mmioCount := by
  have h := findMmioFrom_cases addr m.vm.mmioCount 0 m
  rwa [Nat.zero_add] at h

/-- What the memory opcodes do: RAM bytes, the MMIO table, its callbacks, and a
    silent return of an accessor's code; `E` holds of every such code. -/
structure MemoryAllows (H : Host W) (F : Effect V4Err (Machine W)) (E : V4Err → Prop) : Prop where
  ram : ∀ m ram byte, F.pre m → m.vm.mem = some ram → F.ret m (m.setRam ram byte)
  ramOut : ∀ m ram, F.pre m → m.vm.mem = some ram → ram.cap < m.vm.memSize.toNat → F.stuck m
  mmioOut : ∀ m, F.pre m → 16 < m.vm.mmioCount → F.stuck m
  read32 : ∀ f u addr out m, F.pre m →
    F.ret m (H.read32 f u addr out m).2.2 ∧ E (H.read32 f u addr out m).1
  write32 : ∀ f u addr val m, F.pre m →
    F.ret m (H.write32 f u addr val m).2 ∧ E (H.write32 f u addr val m).1
  ok : E 0
  unaligned : E Err.unaligned.code
  oobMemory : E Err.oobMemory.code
  fails : ∀ e m, F.pre m → E e → e ≠ 0 → F.err e m m

namespace MemoryAllows

variable {E : V4Err → Prop} (A : MemoryAllows H F E) (hF : F.Composable)
include A

/-- From `ramEffect` to the effect at hand, below `mem_size`. -/
theorem ramAdmits {α : Type} {n : Nat} {x : VmM W α} (hx : Meets (ramEffect n) x anyValue)
    {m : Machine W} (hm : F.pre m) (hram : m.vm.mem.isSome ∧ n ≤ m.vm.memSize.toNat) :
    F.Admits anyValue m (x m) := by
  have h := hx m hram.1
  cases hxm : x m with
  | ok a m' =>
      rw [hxm] at h
      obtain ⟨ram, byte, hmem, heq⟩ := h.1
      exact ⟨heq ▸ A.ram m ram byte hm hmem, trivial⟩
  | err e m' => rw [hxm] at h; exact h.elim
  | fault =>
      rw [hxm] at h
      obtain ⟨ram, hmem⟩ := Option.isSome_iff_exists.mp hram.1
      exact A.ramOut m ram hm hmem (Nat.lt_of_lt_of_le (h ram hmem) hram.2)

include hF

theorem findMmio (addr : Cell) : Meets F (findMmio addr : VmM W _) anyValue := by
  intro m hm
  obtain hr | ⟨hr, hout⟩ := findMmio_cases addr m
  · rw [hr]
    exact ⟨hF.refl hm, trivial⟩
  · rw [hr]
    exact A.mmioOut m hm hout

/-- A reader of RAM: the check, then the bytes. -/
theorem ramRead {addr out : Cell} {n : Nat} {x : VmM W (V4Err × Cell)}
    (hx : ∀ m, F.pre m → m.vm.mem.isSome ∧ addr.toNat + n ≤ m.vm.memSize.toNat →
      F.Admits (fun r => E r.1) m (x m)) :
    Meets F (do
      let vm ← getVm
      if v4IsInRam vm addr n ≠ 0 then return (v4IsInRam vm addr n, out) else x)
      fun r => E r.1 := by
  intro m hm
  show F.Admits _ m ((if v4IsInRam m.vm addr n ≠ 0 then _ else _ : VmM W (V4Err × Cell)) m)
  by_cases h : v4IsInRam m.vm addr n = 0
  · rw [if_neg (not_not.mpr h)]
    exact hx m hm (v4IsInRam_eq_zero h)
  · rw [if_pos h, v4IsInRam_ne_zero h]
    exact ⟨hF.refl hm, A.oobMemory⟩

/-- A writer of RAM: the check, then the bytes. -/
theorem ramWrite {addr : Cell} {n : Nat} {x : VmM W V4Err}
    (hx : ∀ m, F.pre m → m.vm.mem.isSome ∧ addr.toNat + n ≤ m.vm.memSize.toNat →
      F.Admits E m (x m)) :
    Meets F (do
      let vm ← getVm
      if v4IsInRam vm addr n ≠ 0 then return v4IsInRam vm addr n else x) E := by
  intro m hm
  show F.Admits _ m ((if v4IsInRam m.vm addr n ≠ 0 then _ else _ : VmM W V4Err) m)
  by_cases h : v4IsInRam m.vm addr n = 0
  · rw [if_neg (not_not.mpr h)]
    exact hx m hm (v4IsInRam_eq_zero h)
  · rw [if_pos h, v4IsInRam_ne_zero h]
    exact ⟨hF.refl hm, A.oobMemory⟩

theorem read32Core (addr out : Cell) :
    Meets F (v4MemRead32Core H addr out) fun r => E r.1 := by
  refine .bind hF (A.findMmio hF addr) fun r _ => ?_
  cases r with
  | some w =>
      refine .ite (fun h => ?_) fun _ => ?_
      · rw [v4IsAligned4_ne_zero h]
        exact .pure hF A.unaligned
      · cases w.read32 with
        | none => exact .pure hF A.oobMemory
        | some f => exact fun m hm => A.read32 f w.user addr out m hm
  | none =>
      refine A.ramRead hF fun m hm hram => ?_
      by_cases h : v4IsAligned4 addr = 0
      · rw [if_neg (not_not.mpr h)]
        exact .bind hF (A.ramAdmits (ldLe32_ram (Nat.le_refl _)) hm hram) hm
          fun v m' _ _ hm' => ⟨hF.refl hm', A.ok⟩
      · rw [if_pos h, v4IsAligned4_ne_zero h]
        exact ⟨hF.refl hm, A.unaligned⟩

theorem write32Core (addr val : Cell) : Meets F (v4MemWrite32Core H addr val) E := by
  refine .bind hF (A.findMmio hF addr) fun r _ => ?_
  cases r with
  | some w =>
      refine .ite (fun h => ?_) fun _ => ?_
      · rw [v4IsAligned4_ne_zero h]
        exact .pure hF A.unaligned
      · cases w.write32 with
        | none => exact .pure hF A.oobMemory
        | some f => exact fun m hm => A.write32 f w.user addr val m hm
  | none =>
      refine A.ramWrite hF fun m hm hram => ?_
      by_cases h : v4IsAligned4 addr = 0
      · rw [if_neg (not_not.mpr h)]
        exact .bind hF (A.ramAdmits (stLe32_ram (Nat.le_refl _) val) hm hram) hm
          fun _ m' _ _ hm' => ⟨hF.refl hm', A.ok⟩
      · rw [if_pos h, v4IsAligned4_ne_zero h]
        exact ⟨hF.refl hm, A.unaligned⟩

theorem read8Core (addr out : Cell) : Meets F (v4MemRead8Core addr out) fun r => E r.1 :=
  A.ramRead hF fun _ hm hram =>
    .bind hF (A.ramAdmits (ramByte_ram (Nat.lt_succ_self _)) hm hram) hm
      fun _ _ _ _ hm' => ⟨hF.refl hm', A.ok⟩

theorem read16Core (addr out : Cell) : Meets F (v4MemRead16Core addr out) fun r => E r.1 :=
  A.ramRead hF fun _ hm hram =>
    .bind hF (A.ramAdmits (ldLe16_ram (Nat.le_refl _)) hm hram) hm
      fun _ _ _ _ hm' => ⟨hF.refl hm', A.ok⟩

theorem write8Core (addr val : Cell) : Meets F (v4MemWrite8Core addr val) E :=
  A.ramWrite hF fun _ hm hram =>
    .bind hF (A.ramAdmits (setRamByte_ram (Nat.lt_succ_self _) _) hm hram) hm
      fun _ _ _ _ hm' => ⟨hF.refl hm', A.ok⟩

theorem write16Core (addr val : Cell) : Meets F (v4MemWrite16Core addr val) E :=
  A.ramWrite hF fun _ hm hram =>
    .bind hF (A.ramAdmits (stLe16_ram (Nat.le_refl _) _) hm hram) hm
      fun _ _ _ _ hm' => ⟨hF.refl hm', A.ok⟩

theorem check {e : V4Err} (he : E e) : Meets F (check e : VmM W Unit) anyValue := by
  intro m hm
  unfold V4Engine.check
  by_cases h : e = 0
  · rw [if_neg (not_not.mpr h)]
    exact ⟨hF.refl hm, trivial⟩
  · rw [if_pos h]
    exact A.fails e m hm he h

theorem memoryMeets (S : StackAllows H F) : MemoryMeets H F := by
  have load : ∀ {core : Cell → Cell → VmM W (V4Err × Cell)} (ext : Cell → Cell),
      (∀ addr out, Meets F (core addr out) fun r => E r.1) →
      Meets F (loadOp H core ext) anyValue := fun ext hcore =>
    .bind hF S.pop fun addr _ => .bind hF (hcore addr 0) fun r hr =>
      .bind hF (A.check hF hr) fun _ _ => S.push _
  have store : ∀ {core : Cell → Cell → VmM W V4Err},
      (∀ addr val, Meets F (core addr val) E) → Meets F (storeOp H core) anyValue := fun hcore =>
    .bind hF S.pop fun addr _ => .bind hF S.pop fun val _ =>
      .bind hF (hcore addr val) fun e he => A.check hF he
  exact ⟨fun ext => load ext (A.read32Core hF), fun ext => load ext (A.read16Core hF),
    fun ext => load ext (A.read8Core hF), store (A.write32Core hF), store (A.write16Core hF),
    store (A.write8Core hF)⟩

end MemoryAllows

/-! ## Host calls and tasks -/

theorem sys_meets (hF : F.Composable)
    (h : ∀ f i x y z m, F.pre m → F.ret m (H.sys f i x y z m).2) (i x y z : Cell) :
    Meets F (v4InvokeSysHandler H i x y z) anyValue := by
  intro m hm
  unfold v4InvokeSysHandler
  cases m.gSysHandler with
  | none => exact ⟨hF.refl hm, trivial⟩
  | some f => exact ⟨h f i x y z m hm, trivial⟩

/-- The updates of the task opcodes: calls of the backend, the platform lock, and
    the answers taken from the host. -/
structure TaskAllows (F : Effect V4Err (Machine W)) : Prop where
  backend : ∀ m o vm, F.pre m → backendStep o m.vm = some vm → F.ret m { m with vm := vm }
  backendOut : ∀ m o, F.pre m → backendStep o m.vm = none → F.stuck m
  world : ∀ m w, F.pre m → F.ret m { m with world := w }
  counters : ∀ m t a i, F.pre m → F.ret m { m with tickNo := t, mallocNo := a, indetNo := i }

/-- A poll is a receive, followed by a sleep when it found nothing in time. -/
theorem receiveBlockingPoll_calls (tick : Nat → BitVec 32) (msgType : BitVec 8)
    (timeoutMs start : BitVec 32) (n : Nat) (vm : Vm) :
    (∃ p k, receiveBlockingPoll tick msgType timeoutMs start n vm
      = some (p, k, (v4BackendTaskReceive msgType vm).2)) ∨
    ∃ k t t', receiveBlockingPoll tick msgType timeoutMs start n vm
      = (v4BackendTaskSleep 10 t t' (v4BackendTaskReceive msgType vm).2).map
          fun vm => (.again, k, vm) := by
  unfold receiveBlockingPoll
  rcases v4BackendTaskReceive msgType vm with ⟨_ | ⟨data, src⟩, vm⟩
  · by_cases h : timeoutMs > 0 ∧ tick n - start ≥ timeoutMs
    · exact .inl ⟨.timeout, n + 1, if_pos h⟩
    · exact .inr ⟨_, _, _, if_neg h⟩
  · exact .inl ⟨_, _, rfl⟩

namespace TaskAllows

variable (A : TaskAllows F) (hF : F.Composable)
include A

/-- A backend call that cannot fault. -/
theorem total {α : Type} {f : Vm → α × Vm} (o : BackendOp)
    (ho : ∀ vm, backendStep o vm = some (f vm).2) :
    Meets F (liftVm fun vm => some (f vm) : VmM W α) anyValue :=
  fun m hm => ⟨A.backend m o _ hm (ho m.vm), trivial⟩

/-- A backend call that may fault. -/
theorem faulting {α : Type} {f : Vm → Option (α × Vm)} (o : BackendOp)
    (ho : ∀ vm, backendStep o vm = (f vm).map Prod.snd) :
    Meets F (liftVm f : VmM W α) anyValue := by
  intro m hm
  unfold liftVm
  have h := ho m.vm
  cases hf : f m.vm with
  | none => rw [hf] at h; exact A.backendOut m o hm h
  | some r => rw [hf] at h; exact ⟨A.backend m o _ hm h, trivial⟩

theorem tick : Meets F (getTick H) anyValue :=
  fun m hm => ⟨A.counters m _ _ _ hm, trivial⟩

include hF

theorem taskMeets : TaskMeets H F where
  spawn w p d r :=
    have answer : Meets F (mallocAnswer H) anyValue := fun m hm => ⟨A.counters m _ _ _ hm, trivial⟩
    .bind hF answer fun dsOk _ => .bind hF answer fun rsOk _ =>
      A.total (.spawn w p d r dsOk rsOk) fun _ => rfl
  exit := .bind hF A.tick fun tick _ => A.faulting (.exit tick) fun vm => by
    rw [Option.map_map]; exact Option.map_id'.symm
  sleep ms := .bind hF A.tick fun tick _ => .bind hF A.tick fun tick' _ =>
    A.faulting (.sleep ms tick tick') fun vm => by
      rw [Option.map_map]; exact Option.map_id'.symm
  yield := .bind hF A.tick fun tick _ => A.faulting (.yield tick) fun vm => by
    rw [Option.map_map]; exact Option.map_id'.symm
  enter m hm :=
    have h := A.backend m .criticalEnter _ hm rfl
    ⟨hF.trans h (A.world _ _ (hF.pre hm h)), trivial⟩
  leave m hm :=
    have h := A.backend m .criticalExit _ hm rfl
    ⟨hF.trans h (A.world _ _ (hF.pre hm h)), trivial⟩
  send dst ty data := A.faulting (.send dst ty data) fun _ => rfl
  receive ty := A.total (.receive ty) fun _ => rfl
  tick := A.tick
  indet m hm := ⟨A.counters m _ _ _ hm, trivial⟩

/-- One poll of a blocking receive. -/
theorem pollQueue (w : Waiting) : Meets F (pollQueue H w) anyValue := by
  intro m hm
  have hrecv := A.backend m (.receive w.msgType) _ hm rfl
  have hrest := hF.pre hm hrecv
  unfold V4Engine.pollQueue
  obtain ⟨p, n, heq⟩ | ⟨n, t, t', heq⟩ := receiveBlockingPoll_calls
    (fun i => H.tick (m.tickNo + i)) w.msgType w.timeoutMs w.start 0 m.vm
  · rw [heq]
    exact ⟨hF.trans hrecv (A.counters _ _ m.mallocNo m.indetNo hrest), trivial⟩
  · rw [heq]
    cases hs : v4BackendTaskSleep 10 t t' (v4BackendTaskReceive w.msgType m.vm).2 with
    | none => exact hF.stuck hrecv (A.backendOut _ (.sleep 10 t t') hrest hs)
    | some vm =>
        have hsleep := A.backend _ (.sleep 10 t t') vm hrest hs
        have hend := A.counters _ (m.tickNo + n) m.mallocNo m.indetNo (hF.pre hrest hsleep)
        exact ⟨hF.trans hrecv (hF.trans hsleep hend), trivial⟩

theorem pollOnce (S : StackAllows H F) (w : Waiting) (ip : Nat) {Q : Flow → Prop}
    (hnext : Q (.next ip)) (hwait : Q (.wait w ip)) : Meets F (pollOnce H w ip) Q := by
  refine .bind hF (A.pollQueue hF w) fun p _ => ?_
  have push := fun r => pushReceived_meets S.stackMeets (A.taskMeets hF (H := H)).indet hF r
  cases p with
  | received data src => exact thenNext_meets hF (push _) hnext
  | timeout => exact thenNext_meets hF (push _) hnext
  | again => exact .pure hF hwait

end TaskAllows

/-! ## Code bytes -/

/-- The 16-bit little-endian immediate at offset `p`. -/
def i16At (bc : List Byte) (p : Nat) : Option (BitVec 16) := do
  let b0 ← bc[p]?
  let b1 ← bc[p + 1]?
  return b0.setWidth 16 ||| (b1.setWidth 16 <<< 8)

/-- The instruction an activation executes next: `none` at the end of the code
    and at a byte that is no opcode. -/
def Activation.nextOp (a : Activation) : Option Op :=
  if a.ip < a.len then a.bc[a.ip]?.bind Op.ofByte else none

theorem Activation.nextOp_eq {a : Activation} {b : Byte} {op : Op} (hlt : a.ip < a.len)
    (hb : a.bc[a.ip]? = some b) (hop : Op.ofByte b = some op) : a.nextOp = some op := by
  rw [nextOp, if_pos hlt, hb]
  exact hop

/-- One turn of the loop is the instruction there is. -/
theorem fetch_run {a : Activation} {op : Op} (h : a.nextOp = some op) (m : Machine W) :
    fetch H a m = execOp H a (a.ip + 1) op m := by
  unfold Activation.nextOp at h
  by_cases hlt : a.ip < a.len
  · rw [if_pos hlt] at h
    obtain ⟨b, hb, hop⟩ := Option.bind_eq_some_iff.mp h
    have hbyte : codeByte a a.ip m = .ok b m := by
      unfold codeByte
      rw [hb]
      rfl
    rw [fetch, if_pos hlt, execInstr, bind_ok hbyte, hop]
  · rw [if_neg hlt] at h
    cases h

/-- Where there is no instruction the loop panics, or reads past the buffer. -/
theorem fetch_no_op {a : Activation} (h : a.nextOp = none) :
    (∃ e : Err, ∀ (H : Host W) m, fetch H a m = vmPanic H e.code m) ∨
      ∀ (H : Host W) m, fetch H a m = .fault := by
  unfold Activation.nextOp at h
  by_cases hlt : a.ip < a.len
  · rw [if_pos hlt] at h
    cases hb : a.bc[a.ip]? with
    | none =>
        refine .inr fun H m => ?_
        have hbyte : codeByte a a.ip m = (.fault : Outcome V4Err (Machine W) Byte) := by
          rw [codeByte, hb]
          rfl
        rw [fetch, if_pos hlt, execInstr, bind_fault hbyte]
    | some b =>
        refine .inl ⟨.unknownOp, fun H m => ?_⟩
        have hbyte : codeByte a a.ip m = .ok b m := by
          rw [codeByte, hb]
          rfl
        have hop : Op.ofByte b = none := by
          rw [hb] at h
          exact h
        rw [fetch, if_pos hlt, execInstr, bind_ok hbyte, hop]
  · exact .inl ⟨.fellOffEnd, fun H m => by rw [fetch, if_neg hlt]⟩

/-- Faults on reading the code are tolerated unless the buffer holds `len` bytes. -/
def CodeOut (F : Effect V4Err (Machine W)) (a : Activation) : Prop :=
  ∀ m, F.pre m → a.bc.length < a.len → F.stuck m

section Code

variable {a : Activation} {ip : Nat} (hF : F.Composable) (out : CodeOut F a)
include hF out

theorem codeByte_meets {i : Nat} (hi : i < a.len) :
    Meets F (codeByte a i : VmM W Byte) fun b => a.bc[i]? = some b := by
  intro m hm
  unfold codeByte
  cases hb : a.bc[i]? with
  | none => exact out m hm (Nat.lt_of_le_of_lt (List.getElem?_eq_none_iff.mp hb) hi)
  | some b => exact ⟨hF.refl hm, rfl⟩

theorem imm8_meets (h : ip < a.len ∨ PanicAllows H F Err.truncatedLiteral.code) :
    Meets F (imm8 H a ip) fun _ => ip + 1 ≤ a.len := by
  refine .ite (fun hge => ?_) fun hlt => ?_
  · exact (h.resolve_left (Nat.not_lt.mpr hge)).meets
  · have hip := Nat.lt_of_not_le hlt
    exact (codeByte_meets hF out hip).mono fun _ _ => hip

theorem imm16_meets {e : Err} (h : ip + 2 ≤ a.len ∨ PanicAllows H F e.code) :
    Meets F (imm16 H e a ip) fun v => ip + 2 ≤ a.len ∧ i16At a.bc ip = some v := by
  refine .ite (fun hgt => ?_) fun hle => ?_
  · exact (h.resolve_left (Nat.not_le.mpr hgt)).meets
  · have hip := Nat.le_of_not_lt hle
    refine .bind hF (codeByte_meets hF out (by omega)) fun b0 h0 => ?_
    refine .bind hF (codeByte_meets hF out (by omega)) fun b1 h1 => .pure hF ⟨hip, ?_⟩
    rw [i16At, h0, h1]
    rfl

theorem imm32_meets (h : ip + 4 ≤ a.len ∨ PanicAllows H F Err.truncatedLiteral.code) :
    Meets F (imm32 H a ip) fun _ => ip + 4 ≤ a.len := by
  refine .ite (fun hgt => ?_) fun hle => ?_
  · exact (h.resolve_left (Nat.not_le.mpr hgt)).meets
  · have hip := Nat.le_of_not_lt hle
    exact .bind hF (codeByte_meets hF out (by omega)) fun _ _ =>
      .bind hF (codeByte_meets hF out (by omega)) fun _ _ =>
        .bind hF (codeByte_meets hF out (by omega)) fun _ _ =>
          .bind hF (codeByte_meets hF out (by omega)) fun _ _ => .pure hF hip

omit out in
/-- A jump reaches its target when that lies within the code. -/
theorem jumpTo_meets {off : BitVec 16} {Q : Flow → Prop}
    (h : (0 ≤ (ip : Int) + off.toInt ∧ (ip : Int) + off.toInt ≤ a.len) ∨
      PanicAllows H F Err.jumpOutOfRange.code)
    (hQ : 0 ≤ (ip : Int) + off.toInt → (ip : Int) + off.toInt ≤ a.len →
      Q (.next ((ip : Int) + off.toInt).toNat)) : Meets F (jumpTo H a ip off) Q := by
  refine .ite (fun hbad => ?_) fun hok => .pure hF (hQ (by omega) (by omega))
  exact (h.resolve_left (by omega)).meets

omit out in
/-- A callee is a registered word. -/
theorem callee_meets {idx : BitVec 16} {Q : Activation → Prop}
    (hidx : (∀ m, F.pre m → idx.toNat < m.vm.wordCount % 65536) ∨
      PanicAllows H F Err.invalidWordIdx.code)
    (harg : PanicAllows H F Err.invalidArg.code)
    (hout : ∀ m, F.pre m → 256 < m.vm.wordCount → F.stuck m)
    (hQ : ∀ m code, F.pre m → idx.toNat < m.vm.wordCount → idx.toNat < 256 →
      (m.vm.words idx.toNat).code = some code → 0 < (m.vm.words idx.toNat).codeLen →
      Q ⟨code, (m.vm.words idx.toNat).codeLen.toNat, 0⟩) :
    Meets F (callee H idx) Q := by
  intro m hm
  show F.Admits Q m ((if idx.toNat ≥ m.vm.wordCount % 65536 then _ else _ : VmM W Activation) m)
  by_cases hge : idx.toNat ≥ m.vm.wordCount % 65536
  · rw [if_pos hge]
    refine (hidx.resolve_left fun h => ?_).meets m hm
    exact absurd (h m hm) (Nat.not_lt.mpr hge)
  · rw [if_neg hge]
    -- The count is compared in 16 bits, which can only make the test stricter.
    have hlt : idx.toNat < m.vm.wordCount :=
      Nat.lt_of_lt_of_le (Nat.lt_of_not_le hge) (Nat.mod_le _ _)
    by_cases h256 : idx.toNat < 256
    · have hat : wordAt idx.toNat m = .ok (m.vm.words idx.toNat) m := if_pos h256
      rw [bind_ok hat]
      cases hcode : (m.vm.words idx.toNat).code with
      | none => exact harg.meets m hm
      | some code =>
          simp only
          by_cases hlen : (m.vm.words idx.toNat).codeLen ≤ 0
          · rw [if_pos hlen]
            exact harg.meets m hm
          · rw [if_neg hlen]
            exact ⟨hF.refl hm, hQ m code hm hlt h256 hcode (by omega)⟩
    · have hat : (wordAt idx.toNat m : Outcome V4Err (Machine W) Word) = .fault := if_neg h256
      rw [bind_fault hat]
      exact hout m hm (by omega)

/-- One turn of the loop: an instruction of `cur`, or the end of the code. -/
theorem fetch_meets {Q : Flow → Prop}
    (hend : a.ip < a.len ∨ PanicAllows H F Err.fellOffEnd.code)
    (hop : a.ip < a.len → a.nextOp.isSome ∨ PanicAllows H F Err.unknownOp.code)
    (hexec : ∀ op, a.ip < a.len → a.nextOp = some op → Meets F (execOp H a (a.ip + 1) op) Q) :
    Meets F (fetch H a) Q := by
  refine .ite (fun hlt => ?_) fun hge => (hend.resolve_left hge).meets
  refine .bind hF (codeByte_meets hF out hlt) fun b hb => ?_
  cases hdec : Op.ofByte b with
  | none =>
      have hnone : a.nextOp = none := by
        rw [Activation.nextOp, if_pos hlt, hb]
        exact hdec
      have := hop hlt
      rw [hnone] at this
      exact (this.resolve_left (by decide)).meets
  | some op => exact hexec op hlt (Activation.nextOp_eq hlt hb hdec)

end Code

end V4Engine
