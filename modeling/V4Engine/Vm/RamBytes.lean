/-
  V4Engine.Vm.RamBytes

  RAM is one little-endian array of bytes for accesses of all widths.

  A `History` lists the stores between two machines, newest first; between two of
  them anything may happen that leaves RAM and the window table alone.  Along a
  history every byte of RAM is the one written last (`History.bytes`), so a load
  pushes the number those bytes stand for.  `storesOf` lists what a run of the
  interpreter has stored; without windows it is a history (`iterate_history`).
-/
import V4Engine.Lib.Iterate
import V4Engine.Vm.Accessors
import V4Engine.Vm.RunRules
import V4Engine.Task.Frame

namespace V4Engine

open Lib FaultM VmM

variable {W : Type}

/-! ## Loads and stores -/

/-- The three stores. -/
inductive StoreOp where
  | STORE8 | STORE16 | STORE
  deriving DecidableEq, Repr

def StoreOp.op : StoreOp → Op
  | .STORE8 => .STORE8
  | .STORE16 => .STORE16
  | .STORE => .STORE

def StoreOp.ofOp : Op → Option StoreOp
  | .STORE8 => some .STORE8
  | .STORE16 => some .STORE16
  | .STORE => some .STORE
  | _ => none

theorem StoreOp.ofOp_eq_some {op : Op} {s : StoreOp} : StoreOp.ofOp op = some s ↔ op = s.op := by
  cases s <;> cases op <;> simp [StoreOp.ofOp, StoreOp.op]

def StoreOp.width : StoreOp → Nat
  | .STORE8 => 1
  | .STORE16 => 2
  | .STORE => 4

/-- The five loads. -/
inductive LoadOp where
  | LOAD8U | LOAD16U | LOAD | LOAD8S | LOAD16S
  deriving DecidableEq, Repr

def LoadOp.op : LoadOp → Op
  | .LOAD8U => .LOAD8U
  | .LOAD16U => .LOAD16U
  | .LOAD => .LOAD
  | .LOAD8S => .LOAD8S
  | .LOAD16S => .LOAD16S

def LoadOp.width : LoadOp → Nat
  | .LOAD8U | .LOAD8S => 1
  | .LOAD16U | .LOAD16S => 2
  | .LOAD => 4

/-- `v` is what the load pushes for the number `n`. -/
def LoadOp.Pushes (n : Nat) (v : Cell) : LoadOp → Prop
  | .LOAD8U | .LOAD16U | .LOAD => v.toNat = n
  | .LOAD8S => v = (BitVec.ofNat 8 n).signExtend 32
  | .LOAD16S => v = (BitVec.ofNat 16 n).signExtend 32

/-! ## The byte written last -/

/-- One store: the `width` low bytes of `val` at `addr`. -/
structure Written where
  width : Nat
  addr : Cell
  val : Cell
  deriving DecidableEq, Repr

/-- The store wrote the byte at `x`. -/
def Written.Covers (w : Written) (x : Nat) : Prop :=
  w.addr.toNat ≤ x ∧ x < w.addr.toNat + w.width

instance (w : Written) (x : Nat) : Decidable (w.Covers x) := inferInstanceAs (Decidable (_ ∧ _))

/-- The byte at `x` after the stores, newest first. -/
def lastWritten (initial : Nat → Byte) : List Written → Nat → Byte
  | [], x => initial x
  | w :: older, x =>
      if w.Covers x then leByte w.val.toNat (x - w.addr.toNat) else lastWritten initial older x

/-- The stores of a piece of execution, with anything in between that leaves RAM and the
    number of windows alone. -/
inductive History (H : Host W) (m : Machine W) : List Written → Machine W → Prop where
  | start : History H m [] m
  | store {older : List Written} {m1 m2 : Machine W} {a : Activation} {ip : Nat} {f : Flow}
      (s : StoreOp) (h : History H m older m1) (hrun : execOp H a ip s.op m1 = .ok f m2) :
      History H m (⟨s.width, m1.operand 0, m1.operand 1⟩ :: older) m2
  | idle {older : List Written} {m1 m2 : Machine W} (h : History H m older m1)
      (mem : m2.vm.mem = m1.vm.mem) (memSize : m2.vm.memSize = m1.vm.memSize)
      (mmioCount : m2.vm.mmioCount = m1.vm.mmioCount) : History H m older m2

section

variable {H : Host W} {m m' : Machine W} {n : Nat} {addr val out v : Cell} {a : Activation}
  {ip : Nat} {f : Flow}

/-! ## Successful accesses without windows -/

theorem window_none {vm : Vm} (hw : vm.mmioCount = 0) (addr : Cell) : vm.window addr = none := by
  rw [Vm.window, hw]
  rfl

theorem refusal_code_ne_zero (vm : Vm) (addr : Cell) (n : Nat) : (vm.refusal addr n).code ≠ 0 := by
  unfold Vm.refusal
  split <;> decide

/-- An accessor without windows is answered by RAM or refused. -/
theorem ExactAccess.answer {β : Type} {callback : V4Mmio → Option FnPtr}
    {call : V4Mmio → FnPtr → VmM W β} {refuse : V4Err → β} {done : β → Machine W → Prop}
    {y : VmM W β} (h : ExactAccess n callback call refuse done addr m y)
    (hw : m.vm.mmioCount = 0) :
    (∃ r m', y m = .ok r m' ∧ done r m') ∨ ∃ e, e ≠ 0 ∧ y m = .ok (refuse e) m := by
  by_cases hyes : m.vm.Allowed addr n
  · exact .inl (h.succeeds hyes)
  · refine .inr ⟨_, refusal_code_ne_zero m.vm addr n, h.refuses hyes fun w f hask => ?_⟩
    cases (window_none hw addr).symm.trans hask.2.2.1

theorem check_eq_ok {e : V4Err} {u : Unit} :
    (check e : VmM W Unit) m = .ok u m' ↔ e = 0 ∧ m' = m := by
  unfold check
  by_cases he : e = 0
  · rw [if_neg (not_not.mpr he)]
    constructor
    · intro h
      cases h
      exact ⟨he, rfl⟩
    · rintro ⟨-, rfl⟩
      rfl
  · rw [if_pos he]
    exact iff_of_false (fun h => by cases h) fun h => he h.1

/-- A successful load reads RAM and changes nothing but the data stack. -/
theorem loadOp_ok {core : Cell → Cell → VmM W (V4Err × Cell)} {ext : Cell → Cell}
    (hcore : ∀ addr out, ExactRead H n addr out (m.popped 1) (core addr out))
    (hw : m.vm.mmioCount = 0) (h : thenNext ip (loadOp H core ext) m = .ok f m') :
    ∃ ram, m.vm.mem = some ram ∧
      m' = (m.popped 1).pushed (ext (BitVec.ofNat 32 (leNat ram.byte (m.operand 0).toNat n))) := by
  obtain ⟨addr, m1, hpop, h⟩ := bind_eq_ok.mp (thenNext_ok h).2
  obtain ⟨-, rfl, rfl⟩ := dsPop_eq_ok.mp hpop
  obtain ⟨⟨e, v⟩, m2, hread, h⟩ := bind_eq_ok.mp h
  obtain ⟨u, m3, hcheck, hpush⟩ := bind_eq_ok.mp h
  obtain ⟨rfl, rfl⟩ := check_eq_ok.mp hcheck
  obtain ⟨-, rfl⟩ := dsPush_eq_ok.mp hpush
  obtain ⟨r, m3, hrun, rfl, ram, hram, rfl⟩ | ⟨e, he, hrun⟩ := (hcore (m.operand 0) 0).answer hw
  · cases hread.symm.trans hrun
    exact ⟨ram, hram, rfl⟩
  · cases hread.symm.trans hrun
    exact absurd rfl he

/-- A successful store writes RAM and changes nothing else but the data stack. -/
theorem storeOp_ok {core : Cell → Cell → VmM W V4Err}
    (hcore : ∀ addr val, ExactWrite H n addr val (m.popped 2) (core addr val))
    (hw : m.vm.mmioCount = 0) (h : thenNext ip (storeOp H core) m = .ok f m') :
    WriteDone (m.popped 2) n (m.operand 0) (m.operand 1) 0 m' := by
  obtain ⟨addr, m1, hpop, h⟩ := bind_eq_ok.mp (thenNext_ok h).2
  obtain ⟨-, rfl, rfl⟩ := dsPop_eq_ok.mp hpop
  obtain ⟨val, m1, hpop, h⟩ := bind_eq_ok.mp h
  obtain ⟨-, rfl, rfl⟩ := dsPop_eq_ok.mp hpop
  obtain ⟨e, m2, hwrite, hcheck⟩ := bind_eq_ok.mp h
  obtain ⟨rfl, rfl⟩ := check_eq_ok.mp hcheck
  rw [popped_popped, popped_operand] at hwrite
  obtain ⟨r, m3, hrun, hdone⟩ | ⟨e, he, hrun⟩ := (hcore (m.operand 0) (m.operand 1)).answer hw
  · cases hwrite.symm.trans hrun
    exact hdone
  · cases hwrite.symm.trans hrun
    exact absurd rfl he

/-! ## The eight opcodes -/

theorem toNat_ofNat_leNat (byte : Nat → Byte) (a : Nat) (hn : n ≤ 4) :
    (BitVec.ofNat 32 (leNat byte a n)).toNat = leNat byte a n := by
  have hpow : 256 ^ n ≤ 256 ^ 4 := Nat.pow_le_pow_right (by omega) hn
  rw [BitVec.toNat_ofNat]
  exact Nat.mod_eq_of_lt (Nat.lt_of_lt_of_le (leNat_lt byte a n) hpow)

theorem LoadOp.exec (l : LoadOp) (hm : m.vm.MemoryWF) (hw : m.vm.mmioCount = 0)
    (h : execOp H a ip l.op m = .ok f m') :
    ∃ ram v, m.vm.mem = some ram ∧ m' = (m.popped 1).pushed v ∧
      l.Pushes (leNat ram.byte (m.operand 0).toNat l.width) v := by
  have hm1 : (m.popped 1).vm.MemoryWF := ⟨hm.mmioCount, hm.ram⟩
  cases l with
  | LOAD8U =>
      obtain ⟨ram, hram, rfl⟩ := loadOp_ok (fun _ _ => read8_exact hm1) hw h
      exact ⟨ram, _, hram, rfl, toNat_ofNat_leNat _ _ (by decide)⟩
  | LOAD16U =>
      obtain ⟨ram, hram, rfl⟩ := loadOp_ok (fun _ _ => read16_exact hm1) hw h
      exact ⟨ram, _, hram, rfl, toNat_ofNat_leNat _ _ (by decide)⟩
  | LOAD =>
      obtain ⟨ram, hram, rfl⟩ := loadOp_ok (fun _ _ => read32_exact hm1) hw h
      exact ⟨ram, _, hram, rfl, toNat_ofNat_leNat _ _ (by decide)⟩
  -- The signed loads narrow the cell to the width read before they extend its sign.
  | LOAD8S =>
      obtain ⟨ram, hram, rfl⟩ := loadOp_ok (fun _ _ => read8_exact hm1) hw h
      refine ⟨ram, _, hram, rfl, ?_⟩
      rw [low_byte, toNat_ofNat_leNat _ _ (by decide)]
      simp [LoadOp.Pushes, LoadOp.width, leByte]
  | LOAD16S =>
      obtain ⟨ram, hram, rfl⟩ := loadOp_ok (fun _ _ => read16_exact hm1) hw h
      refine ⟨ram, _, hram, rfl, ?_⟩
      rw [low_half, toNat_ofNat_leNat _ _ (by decide)]
      rfl

theorem StoreOp.exec (s : StoreOp) (hm : m.vm.MemoryWF) (hw : m.vm.mmioCount = 0)
    (h : execOp H a ip s.op m = .ok f m') :
    WriteDone (m.popped 2) s.width (m.operand 0) (m.operand 1) 0 m' := by
  have hm2 : (m.popped 2).vm.MemoryWF := ⟨hm.mmioCount, hm.ram⟩
  cases s with
  | STORE8 => exact storeOp_ok (fun _ _ => write8_exact hm2) hw h
  | STORE16 => exact storeOp_ok (fun _ _ => write16_exact hm2) hw h
  | STORE => exact storeOp_ok (fun _ _ => write32_exact hm2) hw h

/-! ## Histories -/

/-- What holds along a history from a machine with RAM `initial`. -/
structure TracksBytes (initial : Ram) (stores : List Written) (m : Machine W) : Prop where
  wf : m.vm.MemoryWF
  noWindows : m.vm.mmioCount = 0
  bytes : ∃ ram, m.vm.mem = some ram ∧ ram.byte = lastWritten initial.byte stores

/-- **Step.**  A store adds its bytes. -/
theorem TracksBytes.store {initial : Ram} {stores : List Written} (h : TracksBytes initial stores m)
    (s : StoreOp) (hrun : execOp H a ip s.op m = .ok f m') :
    TracksBytes initial (⟨s.width, m.operand 0, m.operand 1⟩ :: stores) m' := by
  obtain ⟨-, ram, byte, hram, rfl, hin, hout⟩ := s.exec h.wf h.noWindows hrun
  obtain ⟨ram', hram', hbytes⟩ := h.bytes
  obtain rfl : ram = ram' := Option.some.inj (hram.symm.trans hram')
  refine ⟨⟨h.wf.mmioCount, ?_⟩, h.noWindows, { ram with byte := byte }, rfl, funext fun x => ?_⟩
  · intro r hr
    cases hr
    exact h.wf.ram ram hram
  · rw [lastWritten]
    by_cases hx : (m.operand 0).toNat ≤ x ∧ x < (m.operand 0).toNat + s.width
    · have hbyte := hin (x - (m.operand 0).toNat) (by omega)
      rw [Nat.add_sub_cancel' hx.1] at hbyte
      exact hbyte.trans (if_pos hx).symm
    · have hbyte := hout x (by omega)
      exact (hbyte.trans (congrFun hbytes x)).trans (if_neg hx).symm

/-- A load pushes the number the bytes written last stand for. -/
theorem TracksBytes.load {initial : Ram} {stores : List Written} (h : TracksBytes initial stores m)
    (l : LoadOp) (hload : execOp H a ip l.op m = .ok f m') :
    ∃ v, m' = (m.popped 1).pushed v ∧ l.Pushes (∑ k ∈ Finset.range l.width,
      (lastWritten initial.byte stores ((m.operand 0).toNat + k)).toNat * 256 ^ k) v := by
  obtain ⟨ram, v, hsome, hm', hpushes⟩ := l.exec h.wf h.noWindows hload
  obtain ⟨ram', hsome', hbytes⟩ := h.bytes
  obtain rfl : ram = ram' := Option.some.inj (hsome.symm.trans hsome')
  rw [hbytes, leNat_eq_sum] at hpushes
  exact ⟨v, hm', hpushes⟩

theorem TracksBytes.idle {initial : Ram} {stores : List Written} (h : TracksBytes initial stores m)
    (mem : m'.vm.mem = m.vm.mem) (memSize : m'.vm.memSize = m.vm.memSize)
    (mmioCount : m'.vm.mmioCount = m.vm.mmioCount) : TracksBytes initial stores m' where
  wf :=
    { mmioCount := mmioCount ▸ h.wf.mmioCount
      ram := fun ram hram => by
        rw [memSize]
        exact h.wf.ram ram (mem ▸ hram) }
  noWindows := mmioCount.trans h.noWindows
  bytes := mem.symm ▸ h.bytes

/-- **Run.**  Along a history every byte is the one written last. -/
theorem History.bytes {stores : List Written} {initial : Ram} (hist : History H m stores m')
    (hm : m.vm.MemoryWF) (hw : m.vm.mmioCount = 0) (hram : m.vm.mem = some initial) :
    TracksBytes initial stores m' := by
  induction hist with
  | start => exact ⟨hm, hw, initial, hram, rfl⟩
  | store s _ hrun ih => exact ih.store s hrun
  | idle _ mem memSize mmioCount ih => exact ih.idle mem memSize mmioCount

/-- Without RAM there is no successful store. -/
theorem History.noRam {stores : List Written} (hist : History H m stores m')
    (hm : m.vm.MemoryWF) (hw : m.vm.mmioCount = 0) (hram : m.vm.mem = none) :
    m'.vm.mem = none ∧ m'.vm.MemoryWF ∧ m'.vm.mmioCount = 0 := by
  induction hist with
  | start => exact ⟨hram, hm, hw⟩
  | store s _ hrun ih =>
      obtain ⟨-, ram, byte, hsome, -⟩ := s.exec ih.2.1 ih.2.2 hrun
      cases ih.1.symm.trans hsome
  | idle _ mem memSize mmioCount ih =>
      obtain ⟨hnone, hwf, hw'⟩ := ih
      refine ⟨mem.trans hnone, ⟨mmioCount ▸ hwf.mmioCount, fun ram hsome => ?_⟩,
        mmioCount.trans hw'⟩
      cases (mem.trans hnone).symm.trans hsome

/-- The checks of the loads and stores hold all along. -/
theorem History.wf {stores : List Written} (hist : History H m stores m') (hm : m.vm.MemoryWF)
    (hw : m.vm.mmioCount = 0) : m'.vm.MemoryWF ∧ m'.vm.mmioCount = 0 := by
  cases hram : m.vm.mem with
  | none => exact (hist.noRam hm hw hram).2
  | some initial =>
      have htracks := hist.bytes hm hw hram
      exact ⟨htracks.wf, htracks.noWindows⟩

/-- Where a load succeeds there was RAM from the start. -/
theorem History.tracks {stores : List Written} {m'' : Machine W} (hist : History H m stores m')
    (hm : m.vm.MemoryWF) (hw : m.vm.mmioCount = 0) (l : LoadOp)
    (hload : execOp H a ip l.op m' = .ok f m'') :
    ∃ initial, m.vm.mem = some initial ∧ TracksBytes initial stores m' := by
  cases hram : m.vm.mem with
  | none =>
      obtain ⟨hnone, hm', hw'⟩ := hist.noRam hm hw hram
      obtain ⟨ram, v, hsome, -⟩ := l.exec hm' hw' hload
      cases hnone.symm.trans hsome
  | some initial => exact ⟨initial, rfl, hist.bytes hm hw hram⟩

/-- **Loads.**  After any stores, of any widths and at any addresses, a successful load pushes
    the little-endian number of the bytes written last, sign-extended for the signed loads. -/
theorem loads_read_last_bytes_written {stores : List Written} {m'' : Machine W}
    (hm : m.vm.MemoryWF) (hw : m.vm.mmioCount = 0) (hist : History H m stores m') (l : LoadOp)
    (hload : execOp H a ip l.op m' = .ok f m'') :
    ∃ initial v, m.vm.mem = some initial ∧ m'' = (m'.popped 1).pushed v ∧
      l.Pushes (∑ k ∈ Finset.range l.width,
        (lastWritten initial.byte stores ((m'.operand 0).toNat + k)).toNat * 256 ^ k) v := by
  obtain ⟨initial, hram, htracks⟩ := hist.tracks hm hw l hload
  obtain ⟨v, hm'', hpushes⟩ := htracks.load l hload
  exact ⟨initial, v, hram, hm'', hpushes⟩

end

/-! ## Runs -/

/-- What the next step stores. -/
def Config.stored (H : Host W) : Config W → Option Written
  | .run m cur _ => (cur.nextOp.bind StoreOp.ofOp).bind fun s =>
      match execOp H cur (cur.ip + 1) s.op m with
      | .ok _ _ => some ⟨s.width, m.operand 0, m.operand 1⟩
      | _ => none
  | _ => none

/-- What a run has stored in its first steps, newest first. -/
def storesOf (H : Host W) (start : Config W) : Nat → List Written
  | 0 => []
  | n + 1 => ((iterate (step H) n start).bind (Config.stored H)).toList ++ storesOf H start n

/-- RAM and the number of windows are as they were. -/
structure SameMemory (m m' : Machine W) : Prop where
  mem : m'.vm.mem = m.vm.mem
  memSize : m'.vm.memSize = m.vm.memSize
  mmioCount : m'.vm.mmioCount = m.vm.mmioCount

/-- SYS and panic handlers leave RAM and the number of windows alone. -/
structure Host.KeepsRam (H : Host W) : Prop where
  sys : ∀ f i x y z m, SameMemory m (H.sys f i x y z m).2
  panic : ∀ f user info m, SameMemory m (H.panic f user info m)

theorem SameMemory.refl (m : Machine W) : SameMemory m m := ⟨rfl, rfl, rfl⟩

theorem SameMemory.trans {m1 m2 m3 : Machine W} (h : SameMemory m1 m2) (h' : SameMemory m2 m3) :
    SameMemory m1 m3 :=
  ⟨h'.mem.trans h.mem, h'.memSize.trans h.memSize, h'.mmioCount.trans h.mmioCount⟩

/-- What everything but a store does to a VM without windows. -/
def idleEffect (W : Type) : Effect V4Err (Machine W) where
  pre m := m.vm.MemoryWF ∧ m.vm.mmioCount = 0
  ret := SameMemory
  err _ := SameMemory
  stuck _ := True

theorem idleEffect_composable : (idleEffect W).Composable where
  refl _ := .refl _
  pre hs h := ⟨⟨h.mmioCount ▸ hs.1.mmioCount, by rw [h.mem, h.memSize]; exact hs.1.ram⟩,
    h.mmioCount.trans hs.2⟩
  trans := SameMemory.trans
  err := SameMemory.trans
  stuck _ _ := trivial

section Runs

variable {H : Host W} (hH : H.KeepsRam)
include hH

theorem idle_panic (e : V4Err) : PanicAllows H (idleEffect W) e where
  err m info _ _ := by
    unfold Machine.notified
    split
    · exact .refl m
    · exact ⟨(hH.panic ..).mem, (hH.panic ..).memSize, (hH.panic ..).mmioCount⟩
  out _ _ _ := trivial

theorem idle_stack : StackAllows H (idleEffect W) where
  ds _ _ _ _ _ := ⟨rfl, rfl, rfl⟩
  dsOut _ _ _ := trivial
  rsOut _ _ _ := trivial
  overflow := idle_panic hH _
  underflow := idle_panic hH _
  divByZero := idle_panic hH _

theorem idle_local : LocalAllows H (idleEffect W) where
  set _ _ _ _ _ _ _ _ := ⟨rfl, rfl, rfl⟩
  noFrame := idle_panic hH _

omit hH in
theorem idle_task : TaskAllows (idleEffect W) where
  backend _ _ _ _ h :=
    have hframe := (backendStep_frame h).1
    ⟨hframe.mem, hframe.memSize, hframe.mmioCount⟩
  backendOut _ _ _ _ := trivial
  world _ _ _ := ⟨rfl, rfl, rfl⟩
  counters _ _ _ _ _ := ⟨rfl, rfl, rfl⟩

theorem idle_load {core : Cell → Cell → VmM W (V4Err × Cell)} {n : Nat} {ext : Cell → Cell}
    (hcore : ∀ addr m, m.vm.MemoryWF → ExactRead H n addr 0 m (core addr 0)) :
    Meets (idleEffect W) (loadOp H core ext) anyValue := by
  have hF := idleEffect_composable (W := W)
  have hS := idle_stack hH
  have hread : ∀ addr, Meets (idleEffect W) (core addr 0) anyValue := by
    intro addr m hm
    obtain ⟨r, m', hrun, rfl, -⟩ | ⟨e, -, hrun⟩ := (hcore addr m hm.1).answer hm.2
    · rw [hrun]
      exact ⟨.refl _, trivial⟩
    · rw [hrun]
      exact ⟨.refl _, trivial⟩
  have hcheck : ∀ e, Meets (idleEffect W) (check e : VmM W Unit) anyValue := fun e =>
    .ite (fun _ m _ => .refl m) fun _ => .pure hF trivial
  exact .bind hF hS.pop fun addr _ => .bind hF (hread addr) fun r _ =>
    .bind hF (hcheck r.1) fun _ _ => hS.push _

/-- A failed store leaves RAM alone as well. -/
theorem idle_storeOp {core : Cell → Cell → VmM W V4Err} {n : Nat} {m m' : Machine W} {e : V4Err}
    {ip : Nat} (hm : m.vm.MemoryWF) (hw : m.vm.mmioCount = 0)
    (hcore : ∀ addr val m, m.vm.MemoryWF → ExactWrite H n addr val m (core addr val))
    (h : thenNext ip (storeOp H core) m = .err e m') : SameMemory m m' := by
  have hF := idleEffect_composable (W := W)
  have hbody : storeOp H core m = .err e m' := by
    obtain hbody | ⟨_, _, _, hnext⟩ := bind_eq_err.mp h
    · exact hbody
    · cases hnext
  have hpops : Meets (idleEffect W) (do let a ← dsPop H; let v ← dsPop H; return (a, v)) anyValue :=
    .bind hF (idle_stack hH).pop fun _ _ => .bind hF (idle_stack hH).pop fun _ _ => .pure hF trivial
  have hsplit : storeOp H core = (do let a ← dsPop H; let v ← dsPop H; return (a, v)) >>= fun p =>
      core p.1 p.2 >>= check := by
    rw [bind_assoc]
    refine congrArg (dsPop H >>= ·) (funext fun a => ?_)
    rw [bind_assoc]
    rfl
  rw [hsplit] at hbody
  have hpop := hpops m ⟨hm, hw⟩
  obtain hfail | ⟨p, m1, hok, hbody⟩ := bind_eq_err.mp hbody
  · rw [hfail] at hpop
    exact hpop
  · rw [hok] at hpop
    have hm1 := hF.pre ⟨hm, hw⟩ hpop.1
    -- Only the code of a refused access is left to fail with, and that one changed nothing.
    obtain ⟨r, m2, hrun, rfl, -⟩ | ⟨e', -, hrun⟩ := (hcore p.1 p.2 m1 hm1.1).answer hm1.2
    · rw [bind_ok hrun] at hbody
      cases hbody
    · rw [bind_ok hrun, check] at hbody
      split at hbody
      · cases hbody
        exact hpop.1
      · cases hbody

theorem idle_store {m m' : Machine W} {e : V4Err} {a : Activation} {ip : Nat} (s : StoreOp)
    (hm : m.vm.MemoryWF) (hw : m.vm.mmioCount = 0) (h : execOp H a ip s.op m = .err e m') :
    SameMemory m m' := by
  cases s with
  | STORE8 => exact idle_storeOp hH hm hw (fun _ _ _ => write8_exact) h
  | STORE16 => exact idle_storeOp hH hm hw (fun _ _ _ => write16_exact) h
  | STORE => exact idle_storeOp hH hm hw (fun _ _ _ => write32_exact) h

/-- Every instruction but a store leaves RAM alone. -/
theorem idle_exec {a : Activation} {ip : Nat} (hip : ip ≤ a.len) (op : Op)
    (hop : ∀ s : StoreOp, op ≠ s.op) : Meets (idleEffect W) (execOp H a ip op) anyValue := by
  have hF := idleEffect_composable (W := W)
  have hS := idle_stack hH
  by_cases hload : ∃ l : LoadOp, op = l.op
  · obtain ⟨l, rfl⟩ := hload
    cases l with
    | LOAD8U | LOAD8S => exact thenNext_meets hF (idle_load hH fun _ _ => read8_exact) trivial
    | LOAD16U | LOAD16S => exact thenNext_meets hF (idle_load hH fun _ _ => read16_exact) trivial
    | LOAD => exact thenNext_meets hF (idle_load hH fun _ _ => read32_exact) trivial
  · -- The memory opcodes are the loads and the stores.
    have hmem : op.isMemory ≠ true := by
      intro h
      cases op <;> first
        | exact hload ⟨.LOAD, rfl⟩ | exact hload ⟨.LOAD8U, rfl⟩ | exact hload ⟨.LOAD16U, rfl⟩
        | exact hload ⟨.LOAD8S, rfl⟩ | exact hload ⟨.LOAD16S, rfl⟩ | exact hop .STORE rfl
        | exact hop .STORE8 rfl | exact hop .STORE16 rfl | exact absurd h (by decide)
    exact execOp_meets hF hS.stackMeets
      (codeMeets_of_panics hF (fun _ _ _ => trivial) (fun e _ => idle_panic hH e.code)
        (fun _ _ _ => trivial) hip (fun _ _ => trivial) (fun _ _ _ _ _ _ _ _ _ => trivial) trivial
        fun _ => trivial)
      (hS.rsMeets hF (fun _ _ _ _ _ => ⟨rfl, rfl, rfl⟩) op)
      (fun _ => (idle_local hH).localMeets hF hS) (fun h => absurd h hmem)
      (fun _ => sys_meets hF fun f i x y z m _ => hH.sys f i x y z m)
      fun _ => idle_task.taskMeets hF

omit hH in
/-- However an idle computation ends, RAM is as it was. -/
theorem idle_ends {α : Type} {x : VmM W α} {m m' : Machine W}
    (hx : Meets (idleEffect W) x anyValue) (hm : (idleEffect W).pre m)
    (hend : (∃ v, x m = .ok v m') ∨ ∃ e, x m = .err e m') : SameMemory m m' := by
  have h := hx m hm
  obtain ⟨v, hok⟩ | ⟨e, herr⟩ := hend
  · rw [hok] at h
    exact h.1
  · rw [herr] at h
    exact h

omit hH in
theorem History.same {m m1 m2 : Machine W} {stores : List Written} (hist : History H m stores m1)
    (h : SameMemory m1 m2) : History H m stores m2 :=
  hist.idle h.mem h.memSize h.mmioCount

/-- One turn of the loop: a store, or nothing that touches RAM. -/
theorem History.fetch {m m1 m2 : Machine W} {stores : List Written} {cur : Activation}
    {cs : List Caller} (hist : History H m stores m1) (hm : m.vm.MemoryWF)
    (hw : m.vm.mmioCount = 0)
    (hend : (∃ f, fetch H cur m1 = .ok f m2) ∨ ∃ e, fetch H cur m1 = .err e m2) :
    History H m (((Config.run m1 cur cs).stored H).toList ++ stores) m2 := by
  have hF := idleEffect_composable (W := W)
  have hwf := hist.wf hm hw
  by_cases hstore : ∃ s : StoreOp, cur.nextOp = some s.op
  · -- a store that fails is not listed, and has written nothing
    obtain ⟨s, hop⟩ := hstore
    rw [Config.stored, hop, Option.bind_some, StoreOp.ofOp_eq_some.mpr rfl, Option.bind_some]
    rw [fetch_run hop] at hend
    obtain ⟨f, hok⟩ | ⟨e, herr⟩ := hend
    · rw [hok]
      exact hist.store s hok
    · rw [herr]
      exact hist.same (idle_store hH s hwf.1 hwf.2 herr)
  · have hnone : (Config.run m1 cur cs).stored H = none := by
      rw [Config.stored, Option.bind_eq_none_iff]
      intro s hs
      obtain ⟨op, hop, hofOp⟩ := Option.bind_eq_some_iff.mp hs
      exact absurd ⟨s, StoreOp.ofOp_eq_some.mp hofOp ▸ hop⟩ hstore
    rw [hnone]
    refine hist.same (idle_ends ?_ hwf hend)
    refine fetch_meets hF (fun _ _ _ => trivial) (.inr (idle_panic hH _))
      (fun _ => .inr (idle_panic hH _)) fun op hlt hop => ?_
    exact idle_exec hH hlt op fun s hs => hstore ⟨s, hs ▸ hop⟩

omit hH in
/-- What follows an instruction stores nothing. -/
theorem History.settle {m m2 : Machine W} {stores : List Written} {cur : Activation}
    {cs : List Caller} {o : Outcome V4Err (Machine W) Flow}
    (hd : (settle cur cs o).machine = some m2)
    (ho : ∀ m1, ((∃ f, o = .ok f m1) ∨ ∃ e, o = .err e m1) → History H m stores m1) :
    History H m stores m2 := by
  cases o with
  | ok f m1 =>
      have hist := ho m1 (.inl ⟨f, rfl⟩)
      cases f <;> cases hd <;> exact hist.idle rfl rfl rfl
  | err e m1 =>
      cases hd
      exact ho _ (.inr ⟨e, rfl⟩)
  | fault => cases hd

/-- **Step.**  A step of the interpreter adds the store it makes. -/
theorem History.step {m m1 m2 : Machine W} {stores : List Written} {c d : Config W}
    (hist : History H m stores m1) (hm : m.vm.MemoryWF) (hw : m.vm.mmioCount = 0)
    (hc : c.machine = some m1) (hs : Step H c d) (hd : d.machine = some m2) :
    History H m ((c.stored H).toList ++ stores) m2 := by
  obtain ⟨m1, cur, cs, rfl, rfl⟩ | ⟨w, m1, cur, cs, rfl, rfl⟩ | ⟨m1, x, cs, rfl, rfl⟩
    | ⟨e, m1, x, cs, -, rfl, rfl⟩ := hs.cases
  · cases hc
    exact History.settle hd fun m3 hend => hist.fetch hH hm hw hend
  · cases hc
    have hpoll : Meets (idleEffect W) (pollOnce H w cur.ip) anyValue :=
      idle_task.pollOnce (idleEffect_composable (W := W)) (idle_stack hH) w cur.ip trivial trivial
    exact History.settle hd fun m3 hend => hist.same (idle_ends hpoll (hist.wf hm hw) hend)
  · cases hc
    cases hd
    exact hist.idle rfl rfl rfl
  · cases hc
    cases hd
    exact hist.idle rfl rfl rfl

omit hH in
theorem Step.machine {c d : Config W} (h : Step H c d) : ∃ m, c.machine = some m := by
  cases c with
  | fault => cases h
  | run m _ _ | poll _ m _ _ | ret _ m _ => exact ⟨m, rfl⟩

/-- **Run.**  Without windows a run of the interpreter is a history of what it has stored. -/
theorem iterate_history {m m' : Machine W} {start c : Config W} {n : Nat} (hm : m.vm.MemoryWF)
    (hw : m.vm.mmioCount = 0) (hstart : start.machine = some m)
    (h : iterate (V4Engine.step H) n start = some c) (hc : c.machine = some m') :
    History H m (storesOf H start n) m' := by
  induction n generalizing c m' with
  | zero =>
      cases h
      cases hstart.symm.trans hc
      exact .start
  | succ n ih =>
      obtain ⟨b, hb, hlast⟩ := iterate_add_eq_some.mp h
      obtain ⟨c', hs, hc'⟩ := iterate_succ_eq_some.mp hlast
      cases hc'
      obtain ⟨m1, hm1⟩ := Step.machine hs
      rw [storesOf, hb, Option.bind_some]
      exact (ih hb hm1).step hH hm hw hm1 hs hc

/-- **Loads of a run.**  Whatever a run has executed, a load of it that succeeds pushes the
    little-endian number of the bytes the run has stored last, and of the bytes there were at
    its start where it has stored none. -/
theorem run_loads_read_last_stores {m m' m'' : Machine W} {start : Config W} {cur : Activation}
    {cs : List Caller} {n : Nat} {f : Flow} (hm : m.vm.MemoryWF) (hw : m.vm.mmioCount = 0)
    (hstart : start.machine = some m)
    (hrun : iterate (V4Engine.step H) n start = some (.run m' cur cs)) (l : LoadOp)
    (hop : cur.nextOp = some l.op) (hload : V4Engine.fetch H cur m' = .ok f m'') :
    ∃ initial v, m.vm.mem = some initial ∧ m'' = (m'.popped 1).pushed v ∧
      l.Pushes (∑ k ∈ Finset.range l.width,
        (lastWritten initial.byte (storesOf H start n)
          ((m'.operand 0).toNat + k)).toNat * 256 ^ k) v := by
  rw [fetch_run hop] at hload
  obtain ⟨initial, hram, htracks⟩ :=
    (iterate_history hH hm hw hstart hrun rfl).tracks hm hw l hload
  obtain ⟨v, hm'', hpushes⟩ := htracks.load l hload
  exact ⟨initial, v, hram, hm'', hpushes⟩

end Runs

/-- Four bytes of RAM; the stack holds a load address, a value and a store address. -/
def storedVm : Vm :=
  { Vm.blank with
    DS := ![2, 0x1234, 1] ∘ Fin.ofNat 3
    sp := 3
    mem := some ⟨4, fun _ => 0⟩
    memSize := 4 }

/-- The machine after a `STORE16`. -/
def storedMachine : Machine Unit :=
  ((Machine.boot storedVm).popped 2).setRam ⟨4, fun _ => 0⟩
    (Function.update (Function.update (fun _ => 0) 1 0x34) 2 0x12)

/-- The high byte of an unaligned 16-bit store, read alone. -/
theorem load_second_byte_of_half :
    execOp Host.silent ⟨[0x35, 0x32], 2, 1⟩ 2 .LOAD8U storedMachine
        = .ok (.next 2) ((storedMachine.popped 1).pushed 0x12) ∧
      (0x12 : Cell).toNat = ∑ k ∈ Finset.range 1,
        (lastWritten (fun _ => 0) [⟨2, 1, 0x1234⟩] (2 + k)).toNat * 256 ^ k := by
  have hwf : storedVm.MemoryWF := by
    refine ⟨by decide, fun ram hram => ?_⟩
    cases hram
    rfl
  have hstore : execOp Host.silent ⟨[0x35, 0x32], 2, 0⟩ 1 .STORE16 (.boot storedVm)
      = .ok (.next 1) storedMachine := rfl
  have hload : execOp Host.silent ⟨[0x35, 0x32], 2, 1⟩ 2 .LOAD8U storedMachine
      = .ok (.next 2) ((storedMachine.popped 1).pushed 0x12) := rfl
  obtain ⟨initial, v, hram, heq, hpush⟩ := loads_read_last_bytes_written hwf rfl
    (.store .STORE16 .start hstore) .LOAD8U hload
  cases hram
  have hv : (0x12 : Cell) = v := by
    have h := congrArg (Machine.operand · 0) heq
    simpa only [pushed_operand] using h
  exact ⟨hload, hv ▸ hpush⟩

/-- Four bytes of RAM; the stack holds what `STORE; STORE8; LOAD` take. -/
def overlappingVm : Vm :=
  { Vm.blank with
    DS := ![0, 0xAA, 1, 0x11223344, 0] ∘ Fin.ofNat 5
    sp := 5
    mem := some ⟨4, fun _ => 0⟩
    memSize := 4 }

/-- The machine after a `STORE`, -/
def cellStored : Machine Unit :=
  ((Machine.boot overlappingVm).popped 2).setRam ⟨4, fun _ => 0⟩
    (Function.update (Function.update (Function.update (Function.update (fun _ => 0)
      0 0x44) 1 0x33) 2 0x22) 3 0x11)

/-- and after a `STORE8` into the middle of the cell. -/
def byteStored : Machine Unit :=
  (cellStored.popped 2).setRam ⟨4, fun _ => 0⟩
    (Function.update (Function.update (Function.update (Function.update (Function.update
      (fun _ => 0) 0 0x44) 1 0x33) 2 0x22) 3 0x11) 1 0xAA)

/-- The cell read back has the new byte. -/
theorem run_loads_byte_inside_cell :
    iterate (step Host.silent) 2 (.run (.boot overlappingVm) ⟨[0x31, 0x34, 0x30], 3, 0⟩ [])
        = some (.run byteStored ⟨[0x31, 0x34, 0x30], 3, 2⟩ []) ∧
      fetch Host.silent ⟨[0x31, 0x34, 0x30], 3, 2⟩ byteStored
        = .ok (.next 3) ((byteStored.popped 1).pushed 0x1122AA44) ∧
      (0x1122AA44 : Cell).toNat = ∑ k ∈ Finset.range 4,
        (lastWritten (fun _ => 0) [⟨1, 1, 0xAA⟩, ⟨4, 0, 0x11223344⟩] (0 + k)).toNat * 256 ^ k := by
  have hwf : overlappingVm.MemoryWF := by
    refine ⟨by decide, fun ram hram => ?_⟩
    cases hram
    rfl
  have hkeeps : Host.silent.KeepsRam := ⟨fun _ _ _ _ _ _ => .refl _, fun _ _ _ _ => .refl _⟩
  have hcell : fetch Host.silent ⟨[0x31, 0x34, 0x30], 3, 0⟩ (.boot overlappingVm)
      = .ok (.next 1) cellStored := rfl
  have hbyte : fetch Host.silent ⟨[0x31, 0x34, 0x30], 3, 1⟩ cellStored
      = .ok (.next 2) byteStored := rfl
  have hrun : iterate (step Host.silent) 2
      (.run (.boot overlappingVm) ⟨[0x31, 0x34, 0x30], 3, 0⟩ [])
      = some (.run byteStored ⟨[0x31, 0x34, 0x30], 3, 2⟩ []) := by
    refine iterate_succ_eq_some.mpr ⟨.run cellStored ⟨[0x31, 0x34, 0x30], 3, 1⟩ [], ?_,
      iterate_succ_eq_some.mpr ⟨_, ?_, rfl⟩⟩
    · exact congrArg (fun o => some (settle ⟨[0x31, 0x34, 0x30], 3, 0⟩ [] o)) hcell
    · exact congrArg (fun o => some (settle ⟨[0x31, 0x34, 0x30], 3, 1⟩ [] o)) hbyte
  have hload : fetch Host.silent ⟨[0x31, 0x34, 0x30], 3, 2⟩ byteStored
      = .ok (.next 3) ((byteStored.popped 1).pushed 0x1122AA44) := rfl
  obtain ⟨initial, v, hram, heq, hpush⟩ :=
    run_loads_read_last_stores hkeeps hwf rfl rfl hrun .LOAD rfl hload
  cases hram
  have hv : (0x1122AA44 : Cell) = v := by
    have h := congrArg (Machine.operand · 0) heq
    simpa only [pushed_operand] using h
  exact ⟨hrun, hload, hv ▸ hpush⟩

end V4Engine
