/-
  V4Engine.Vm.Accessors

  The six core accessors are exact and atomic, and their callers agree.

  `Vm.Allowed` says when RAM may answer an access and `Vm.Asked` when a callback
  does; every other access is refused with one code (`Vm.refusal`) and leaves the
  machine and the output variable alone.  `Resolves` is that three-way split for
  one accessor, and `ExactAccess` what follows from it.  An access to RAM shows
  as a fault on the machine whose buffer has no byte.
-/
import V4Engine.Vm.RamRuns

namespace V4Engine

open Lib FaultM VmM

variable {W : Type}

/-! ## The public calls -/

/-- The VM as the embedder sees it, with `vm->last_err`. -/
structure Api (W : Type) where
  machine : Machine W
  lastErr : V4Err

/-- An accessor called from outside. -/
def onMachine {α : Type} (x : VmM W α) : FaultM V4Err (Api W) α := fun s =>
  match x s.machine with
  | .ok a m => .ok a { s with machine := m }
  | .err e m => .err e { s with machine := m }
  | .fault => .fault

/-- `vm->last_err = e`. -/
def setLastErr (e : V4Err) : FaultM V4Err (Api W) Unit := update fun s => { s with lastErr := e }

def vmMemRead32 (H : Host W) (addr out : Cell) : FaultM V4Err (Api W) (V4Err × Cell) := do
  let r ← onMachine (v4MemRead32Core H addr out)
  setLastErr r.1
  return r

def vmMemWrite32 (H : Host W) (addr val : Cell) : FaultM V4Err (Api W) V4Err := do
  let e ← onMachine (v4MemWrite32Core H addr val)
  setLastErr e
  return e

/-! ## Who answers an access -/

/-- The buffer has `mem_size` bytes and the table at most its 16 entries. -/
structure Vm.MemoryWF (vm : Vm) : Prop where
  mmioCount : vm.mmioCount ≤ 16
  ram : ∀ ram, vm.mem = some ram → ram.cap = vm.memSize.toNat

/-- RAM answers: the range fits, and a 32-bit access meets no window and is aligned. -/
def Vm.Allowed (vm : Vm) (addr : Cell) (n : Nat) : Prop :=
  vm.InRam addr n ∧ (n = 4 → vm.window addr = none ∧ 4 ∣ addr.toNat)

/-- The callback `f` of window `w` answers: only for an aligned 32-bit access. -/
def Vm.Asked (vm : Vm) (addr : Cell) (n : Nat) (callback : V4Mmio → Option FnPtr) (w : V4Mmio)
    (f : FnPtr) : Prop :=
  n = 4 ∧ 4 ∣ addr.toNat ∧ vm.window addr = some w ∧ callback w = some f

/-- The error of an access nobody answers. -/
def Vm.refusal (vm : Vm) (addr : Cell) (n : Nat) : Err :=
  if n = 4 ∧ ¬ 4 ∣ addr.toNat ∧ ((vm.window addr).isSome ∨ vm.InRam addr 4) then .unaligned
  else .oobMemory

/-- The machine with an empty RAM buffer. -/
def Machine.withoutBytes (m : Machine W) : Machine W :=
  { m with vm := { m.vm with mem := m.vm.mem.map fun ram => { ram with cap := 0 } } }

/-- `x` reads or writes a byte of RAM. -/
def Accesses {β : Type} (x : VmM W β) (m : Machine W) : Prop := x m.withoutBytes = .fault

section Answers

variable {β : Type} {n : Nat} {callback : V4Mmio → Option FnPtr} {call : V4Mmio → FnPtr → VmM W β}
  {refuse : V4Err → β} {done : β → Machine W → Prop} {addr : Cell} {m : Machine W} {x y : VmM W β}

/-- The accessor `y` resolves an access into one of three ends, `x` being its RAM part. -/
structure Resolves (n : Nat) (callback : V4Mmio → Option FnPtr) (call : V4Mmio → FnPtr → VmM W β)
    (refuse : V4Err → β) (addr : Cell) (x y : VmM W β) : Prop where
  ram : ∀ m, m.vm.mmioCount ≤ 16 → m.vm.Allowed addr n → y m = x m
  asks : ∀ m w f, m.vm.mmioCount ≤ 16 → m.vm.Asked addr n callback w f → y m = call w f m
  refuses : ∀ m, m.vm.mmioCount ≤ 16 → ¬ m.vm.Allowed addr n →
    (∀ w f, ¬ m.vm.Asked addr n callback w f) →
    y m = .ok (refuse (m.vm.refusal addr n).code) m

/-- An exact and atomic access of width `n`: `done` relates the answer and the machine left
    by a successful one, `refuse e` is the answer of a failed one. -/
structure ExactAccess (n : Nat) (callback : V4Mmio → Option FnPtr)
    (call : V4Mmio → FnPtr → VmM W β) (refuse : V4Err → β) (done : β → Machine W → Prop)
    (addr : Cell) (m : Machine W) (y : VmM W β) : Prop where
  accesses : Accesses y m ↔ m.vm.Allowed addr n
  succeeds : m.vm.Allowed addr n → ∃ r m', y m = .ok r m' ∧ done r m'
  asks : ∀ w f, m.vm.Asked addr n callback w f → y m = call w f m
  refuses : ¬ m.vm.Allowed addr n → (∀ w f, ¬ m.vm.Asked addr n callback w f) →
    y m = .ok (refuse (m.vm.refusal addr n).code) m
  rangeFirst : m.vm.window addr = none → ¬ m.vm.InRam addr n →
    y m = .ok (refuse Err.oobMemory.code) m

theorem withoutBytes_inRam : m.withoutBytes.vm.InRam addr n ↔ m.vm.InRam addr n := by
  show (m.vm.mem.map _).isSome ∧ _ ↔ _
  rw [Option.isSome_map]
  rfl

theorem withoutBytes_allowed : m.withoutBytes.vm.Allowed addr n ↔ m.vm.Allowed addr n :=
  and_congr_left fun _ => withoutBytes_inRam

theorem refusal_of_outside (hw : m.vm.window addr = none) (hout : ¬ m.vm.InRam addr n) :
    m.vm.refusal addr n = .oobMemory := by
  refine if_neg ?_
  rintro ⟨rfl, -, hsome | hin⟩
  · rw [hw] at hsome
    exact Bool.noConfusion hsome
  · exact hout hin

/-- An accessor that resolves its accesses is exact once its RAM part is. -/
theorem Resolves.exact (h : Resolves n callback call refuse addr x y) (htable : m.vm.mmioCount ≤ 16)
    (hcall : ∀ w f m, call w f m ≠ .fault) (hempty : x m.withoutBytes = .fault)
    (hdone : m.vm.InRam addr n → ∃ r m', x m = .ok r m' ∧ done r m') :
    ExactAccess n callback call refuse done addr m y where
  accesses := by
    rw [Accesses, ← withoutBytes_allowed]
    constructor
    · intro hfault
      by_contra hno
      by_cases hask : ∃ w f, m.withoutBytes.vm.Asked addr n callback w f
      · obtain ⟨w, f, hask⟩ := hask
        exact hcall w f _ ((h.asks m.withoutBytes w f htable hask).symm.trans hfault)
      · have hr := h.refuses m.withoutBytes htable hno fun w f hf => hask ⟨w, f, hf⟩
        cases hr.symm.trans hfault
    · intro hyes
      rw [h.ram m.withoutBytes htable hyes, hempty]
  succeeds hyes := by
    rw [h.ram _ htable hyes]
    exact hdone hyes.1
  asks w f := h.asks m w f htable
  refuses := h.refuses m htable
  rangeFirst hw hout := by
    have hr := h.refuses m htable (fun hyes => hout hyes.1) fun w f hask => by
      cases hw.symm.trans hask.2.2.1
    rwa [refusal_of_outside hw hout] at hr

/-- What a window does with an aligned access; without the callback it is out of range. -/
def windowAnswer (callback : V4Mmio → Option FnPtr) (call : V4Mmio → FnPtr → VmM W β)
    (refuse : V4Err → β) (w : V4Mmio) : VmM W β :=
  (callback w).elim (pure (refuse Err.oobMemory.code)) (call w)

/-- A 32-bit access. -/
theorem wideAccess_resolves :
    Resolves 4 callback call refuse addr x
      (wideAccess addr refuse (windowAnswer callback call refuse) x) where
  ram m htable hyes := wideAccess_ram htable (hyes.2 rfl).1 hyes.1 (hyes.2 rfl).2
  asks m w f htable hask := by
    rw [wideAccess_device htable hask.2.2.1 hask.2.1, windowAnswer, hask.2.2.2, Option.elim_some]
  refuses m htable hno hask := by
    by_cases ha : 4 ∣ addr.toNat
    · have hcode : m.vm.refusal addr 4 = .oobMemory := if_neg fun h => h.2.1 ha
      rw [hcode]
      cases hw : m.vm.window addr with
      | none => exact wideAccess_out_of_range htable hw fun hin => hno ⟨hin, fun _ => ⟨hw, ha⟩⟩
      | some w =>
          rw [wideAccess_device htable hw ha, windowAnswer]
          cases hf : callback w with
          | none => rfl
          | some f => exact absurd ⟨rfl, ha, hw, hf⟩ (hask w f)
    · by_cases hreach : m.vm.window addr = none ∧ ¬ m.vm.InRam addr 4
      · rw [refusal_of_outside hreach.1 hreach.2]
        exact wideAccess_out_of_range htable hreach.1 hreach.2
      · have hor : m.vm.window addr ≠ none ∨ m.vm.InRam addr 4 := by
          by_contra hcon
          exact hreach ⟨not_not.mp fun h => hcon (.inl h), fun h => hcon (.inr h)⟩
        have hcode : m.vm.refusal addr 4 = .unaligned :=
          if_pos ⟨rfl, ha, hor.imp Option.isSome_iff_ne_none.mpr id⟩
        rw [hcode]
        exact wideAccess_unaligned htable hor ha

/-- An 8- or 16-bit access looks at no window and at no alignment. -/
theorem narrowAccess_resolves (hn : n ≠ 4) :
    Resolves n callback call refuse addr x (narrowAccess addr n refuse x) where
  ram m _ hyes := narrowAccess_ram hyes.1
  asks _ _ _ _ hask := absurd hask.1 hn
  refuses m _ hno _ := by
    have hcode : m.vm.refusal addr n = .oobMemory := if_neg fun h => hn h.1
    rw [hcode]
    exact narrowAccess_refused fun hin => hno ⟨hin, fun h => absurd h hn⟩

end Answers

/-! ## The six core accessors -/

section Cores

variable {H : Host W} {m : Machine W} {n : Nat} {addr val out : Cell}

/-- A successful read: the bytes as a number, the machine as it was. -/
def ReadDone (m : Machine W) (n : Nat) (addr : Cell) (r : V4Err × Cell) (m' : Machine W) : Prop :=
  m' = m ∧ ∃ ram, m.vm.mem = some ram ∧ r = (0, BitVec.ofNat 32 (leNat ram.byte addr.toNat n))

/-- A successful write: the low bytes of the value, every other byte as it was. -/
def WriteDone (m : Machine W) (n : Nat) (addr val : Cell) (e : V4Err) (m' : Machine W) : Prop :=
  e = 0 ∧ ∃ ram byte, m.vm.mem = some ram ∧ m' = m.setRam ram byte ∧
    (∀ k, k < n → byte (addr.toNat + k) = leByte val.toNat k) ∧
    ∀ i, i < addr.toNat ∨ addr.toNat + n ≤ i → byte i = ram.byte i

/-- The read callback of a window. -/
def askRead (H : Host W) (addr out : Cell) (w : V4Mmio) (f : FnPtr) : VmM W (V4Err × Cell) :=
  callRead32 H f w.user addr out

/-- The write callback of a window. -/
def askWrite (H : Host W) (addr val : Cell) (w : V4Mmio) (f : FnPtr) : VmM W V4Err :=
  callWrite32 H f w.user addr val

/-- A read of width `n`: a failed one leaves `*out` as it was. -/
abbrev ExactRead (H : Host W) (n : Nat) (addr out : Cell) (m : Machine W)
    (y : VmM W (V4Err × Cell)) : Prop :=
  ExactAccess n V4Mmio.read32 (askRead H addr out) (fun e => (e, out)) (ReadDone m n addr) addr m y

/-- A write of width `n`. -/
abbrev ExactWrite (H : Host W) (n : Nat) (addr val : Cell) (m : Machine W)
    (y : VmM W V4Err) : Prop :=
  ExactAccess n V4Mmio.write32 (askWrite H addr val) id (WriteDone m n addr val) addr m y

theorem askRead_ne_fault (w : V4Mmio) (f : FnPtr) (m : Machine W) :
    askRead H addr out w f m ≠ .fault := by
  intro h
  cases h

theorem askWrite_ne_fault (w : V4Mmio) (f : FnPtr) (m : Machine W) :
    askWrite H addr val w f m ≠ .fault := by
  intro h
  cases h

theorem ramByte_withoutBytes (i : Nat) : ramByte i m.withoutBytes = .fault := by
  unfold ramByte
  cases hmem : m.vm.mem with
  | none => simp [Machine.withoutBytes, hmem]
  | some ram => simp [Machine.withoutBytes, hmem]

theorem setRamByte_withoutBytes (i : Nat) (b : Byte) :
    setRamByte i b m.withoutBytes = .fault := by
  unfold setRamByte
  cases hmem : m.vm.mem with
  | none => simp [Machine.withoutBytes, hmem]
  | some ram => simp [Machine.withoutBytes, hmem]

theorem writeDone_putBytes {ram : Ram} (hram : m.vm.mem = some ram) :
    WriteDone m n addr val 0 (m.setRam ram (putBytes ram.byte addr.toNat n val.toNat)) := by
  refine ⟨rfl, ram, _, hram, rfl, ?_, fun i hi => putBytes_outside hi⟩
  intro k hk
  rw [putBytes, if_pos (by omega), Nat.add_sub_cancel_left]

/-- `v4_mem_read32_core` in the shape of a 32-bit access. -/
theorem v4MemRead32Core_eq :
    v4MemRead32Core H addr out = wideAccess addr (fun e => (e, out))
      (windowAnswer V4Mmio.read32 (askRead H addr out) fun e => (e, out))
      (do let v ← ldLe32 addr.toNat; return (0, v)) := by
  refine congrArg (findMmio addr >>= ·) (funext fun o => ?_)
  cases o with
  | none => rfl
  | some w =>
      simp only [windowAnswer]
      cases w.read32 <;> rfl

/-- `v4_mem_write32_core` in the shape of a 32-bit access. -/
theorem v4MemWrite32Core_eq :
    v4MemWrite32Core H addr val = wideAccess addr id
      (windowAnswer V4Mmio.write32 (askWrite H addr val) id)
      (do stLe32 addr.toNat val; return 0) := by
  refine congrArg (findMmio addr >>= ·) (funext fun o => ?_)
  cases o with
  | none => rfl
  | some w =>
      simp only [windowAnswer]
      cases w.write32 <;> rfl

variable (hm : m.vm.MemoryWF)
include hm

/-- The buffer behind a range that fits. -/
theorem Vm.MemoryWF.buffer (hin : m.vm.InRam addr n) :
    ∃ ram, m.vm.mem = some ram ∧ addr.toNat + n ≤ ram.cap := by
  obtain ⟨ram, hram⟩ := Option.isSome_iff_exists.mp hin.1
  exact ⟨ram, hram, hm.ram ram hram ▸ hin.2⟩

theorem read32_exact : ExactRead H 4 addr out m (v4MemRead32Core H addr out) := by
  rw [ExactRead, v4MemRead32Core_eq]
  refine wideAccess_resolves.exact hm.mmioCount askRead_ne_fault ?_ fun hin => ?_
  · exact bind_fault (bind_fault (ramByte_withoutBytes _))
  · obtain ⟨ram, hram, hfit⟩ := hm.buffer hin
    exact ⟨_, m, bind_ok (ldLe32_run hram hfit), rfl, ram, hram, rfl⟩

theorem write32_exact : ExactWrite H 4 addr val m (v4MemWrite32Core H addr val) := by
  rw [ExactWrite, v4MemWrite32Core_eq]
  refine wideAccess_resolves.exact hm.mmioCount askWrite_ne_fault ?_ fun hin => ?_
  · exact bind_fault (bind_fault (setRamByte_withoutBytes _ _))
  · obtain ⟨ram, hram, hfit⟩ := hm.buffer hin
    exact ⟨0, _, bind_ok (stLe32_run hram hfit val), writeDone_putBytes hram⟩

theorem read8_exact : ExactRead H 1 addr out m (v4MemRead8Core addr out) := by
  refine (narrowAccess_resolves (by decide)).exact
    (x := do let b ← ramByte addr.toNat; return (0, b.setWidth 32))
    hm.mmioCount askRead_ne_fault ?_ fun hin => ?_
  · exact bind_fault (ramByte_withoutBytes _)
  · obtain ⟨ram, hram, hfit⟩ := hm.buffer hin
    exact ⟨_, m, bind_ok (ramByte_run hram hfit), rfl, ram, hram, by rw [setWidth_byte]⟩

theorem read16_exact : ExactRead H 2 addr out m (v4MemRead16Core addr out) := by
  refine (narrowAccess_resolves (by decide)).exact
    (x := do let v ← ldLe16 addr.toNat; return (0, v.setWidth 32))
    hm.mmioCount askRead_ne_fault ?_ fun hin => ?_
  · exact bind_fault (bind_fault (ramByte_withoutBytes _))
  · obtain ⟨ram, hram, hfit⟩ := hm.buffer hin
    exact ⟨_, m, bind_ok (ldLe16_run hram hfit), rfl, ram, hram, by rw [setWidth_half]⟩

theorem write8_exact : ExactWrite H 1 addr val m (v4MemWrite8Core addr val) := by
  refine (narrowAccess_resolves (by decide)).exact
    (x := do setRamByte addr.toNat ((val &&& 0xFF).setWidth 8); return 0)
    hm.mmioCount askWrite_ne_fault ?_ fun hin => ?_
  · exact bind_fault (setRamByte_withoutBytes _ _)
  · obtain ⟨ram, hram, hfit⟩ := hm.buffer hin
    rw [low_byte]
    exact ⟨0, _, bind_ok (setRamByte_run_first hram hfit val.toNat), writeDone_putBytes hram⟩

theorem write16_exact : ExactWrite H 2 addr val m (v4MemWrite16Core addr val) := by
  refine (narrowAccess_resolves (by decide)).exact
    (x := do stLe16 addr.toNat ((val &&& 0xFFFF).setWidth 16); return 0)
    hm.mmioCount askWrite_ne_fault ?_ fun hin => ?_
  · exact bind_fault (bind_fault (setRamByte_withoutBytes _ _))
  · obtain ⟨ram, hram, hfit⟩ := hm.buffer hin
    have hrun := stLe16_run hram hfit ((val &&& 0xFFFF).setWidth 16)
    rw [putBytes_low_half] at hrun
    exact ⟨0, _, bind_ok hrun, writeDone_putBytes hram⟩

end Cores

/-! ## Opcodes and public calls -/

section Callers

variable {H : Host W} {m : Machine W} {n : Nat} {addr val out : Cell} {α : Type}

/-- The code something ends with and the RAM it leaves; `none` is a fault. -/
def codeAndRam {σ : Type} (code : α → V4Err) (mem : σ → Option Ram) :
    Outcome V4Err σ α → Option (V4Err × Option Ram)
  | .ok a s => some (code a, mem s)
  | .err e s => some (e, mem s)
  | .fault => none

/-- The end of an instruction. -/
def instrEnd (o : Outcome V4Err (Machine W) Flow) : Option (V4Err × Option Ram) :=
  codeAndRam (fun _ => 0) (fun m => m.vm.mem) o

/-- The end of an accessor. -/
def accessEnd (code : α → V4Err) (o : Outcome V4Err (Machine W) α) : Option (V4Err × Option Ram) :=
  codeAndRam code (fun m => m.vm.mem) o

/-- The end of a public call. -/
def callEnd (code : α → V4Err) (o : Outcome V4Err (Api W) α) : Option (V4Err × Option Ram) :=
  codeAndRam code (fun s => s.machine.vm.mem) o

/-- Both end, with the same code and the same RAM. -/
def Agree (x y : Option (V4Err × Option Ram)) : Prop := ∃ r, x = some r ∧ y = some r

/-- Read callbacks only write through `out` and push nothing on the data stack. -/
structure Host.PlainReads (H : Host W) : Prop where
  out : ∀ f user addr out m, (H.read32 f user addr out m).1 = (H.read32 f user addr 0 m).1 ∧
    (H.read32 f user addr out m).2.2.vm.mem = (H.read32 f user addr 0 m).2.2.vm.mem
  sp : ∀ f user addr out m, (H.read32 f user addr out m).2.2.vm.sp ≤ m.vm.sp

/-- The memory opcodes end as the accessors do on the operands they popped, and `LOAD` and
    `STORE` as the public calls. -/
structure OpcodesAgree (H : Host W) (m : Machine W) (a : Activation) (ip : Nat) (out : Cell)
    (lastErr : V4Err) : Prop where
  load : 1 ≤ m.vm.sp → Agree (instrEnd (execOp H a ip .LOAD m))
    (callEnd Prod.fst (vmMemRead32 H (m.operand 0) out ⟨m.popped 1, lastErr⟩))
  store : 2 ≤ m.vm.sp → Agree (instrEnd (execOp H a ip .STORE m))
    (callEnd id (vmMemWrite32 H (m.operand 0) (m.operand 1) ⟨m.popped 2, lastErr⟩))
  load8u : 1 ≤ m.vm.sp → Agree (instrEnd (execOp H a ip .LOAD8U m))
    (accessEnd Prod.fst (v4MemRead8Core (m.operand 0) out (m.popped 1)))
  load8s : 1 ≤ m.vm.sp → Agree (instrEnd (execOp H a ip .LOAD8S m))
    (accessEnd Prod.fst (v4MemRead8Core (m.operand 0) out (m.popped 1)))
  load16u : 1 ≤ m.vm.sp → Agree (instrEnd (execOp H a ip .LOAD16U m))
    (accessEnd Prod.fst (v4MemRead16Core (m.operand 0) out (m.popped 1)))
  load16s : 1 ≤ m.vm.sp → Agree (instrEnd (execOp H a ip .LOAD16S m))
    (accessEnd Prod.fst (v4MemRead16Core (m.operand 0) out (m.popped 1)))
  store8 : 2 ≤ m.vm.sp → Agree (instrEnd (execOp H a ip .STORE8 m))
    (accessEnd id (v4MemWrite8Core (m.operand 0) (m.operand 1) (m.popped 2)))
  store16 : 2 ≤ m.vm.sp → Agree (instrEnd (execOp H a ip .STORE16 m))
    (accessEnd id (v4MemWrite16Core (m.operand 0) (m.operand 1) (m.popped 2)))

theorem callEnd_read (s : Api W) :
    callEnd Prod.fst (vmMemRead32 H addr out s)
      = accessEnd Prod.fst (v4MemRead32Core H addr out s.machine) := by
  rw [vmMemRead32, bind_run, onMachine]
  cases v4MemRead32Core H addr out s.machine <;> rfl

theorem callEnd_write (s : Api W) :
    callEnd id (vmMemWrite32 H addr val s)
      = accessEnd id (v4MemWrite32Core H addr val s.machine) := by
  rw [vmMemWrite32, bind_run, onMachine]
  cases v4MemWrite32Core H addr val s.machine <;> rfl

/-- A read ends normally, with room left where there was some. -/
theorem ExactAccess.read_ends {y : VmM W (V4Err × Cell)} (h : ExactRead H n addr out m y)
    (hH : H.PlainReads) : ∃ e v m', y m = .ok (e, v) m' ∧ m'.vm.sp ≤ m.vm.sp := by
  by_cases hyes : m.vm.Allowed addr n
  · obtain ⟨⟨e, v⟩, m', hrun, rfl, -⟩ := h.succeeds hyes
    exact ⟨e, v, m', hrun, Nat.le_refl _⟩
  · by_cases hask : ∃ w f, m.vm.Asked addr n V4Mmio.read32 w f
    · obtain ⟨w, f, hask⟩ := hask
      exact ⟨_, _, _, h.asks w f hask, hH.sp ..⟩
    · exact ⟨_, _, m, h.refuses hyes fun w f hf => hask ⟨w, f, hf⟩, Nat.le_refl _⟩

/-- What `*out` held before does not matter. -/
theorem accessEnd_out {core : Cell → VmM W (V4Err × Cell)}
    (h : ∀ out, ExactRead H n addr out m (core out)) (hH : H.PlainReads) :
    accessEnd Prod.fst (core out m) = accessEnd Prod.fst (core 0 m) := by
  by_cases hyes : m.vm.Allowed addr n
  · obtain ⟨r, m', hrun, rfl, ram, hram, rfl⟩ := (h out).succeeds hyes
    obtain ⟨r', m'', hrun', rfl, ram', hram', rfl⟩ := (h 0).succeeds hyes
    rw [hrun, hrun']
    rfl
  · by_cases hask : ∃ w f, m.vm.Asked addr n V4Mmio.read32 w f
    · obtain ⟨w, f, hask⟩ := hask
      obtain ⟨hcode, hmem⟩ := hH.out f w.user addr out m
      rw [(h out).asks w f hask, (h 0).asks w f hask]
      exact congrArg some (Prod.ext hcode hmem)
    · rw [(h out).refuses hyes fun w f hf => hask ⟨w, f, hf⟩,
        (h 0).refuses hyes fun w f hf => hask ⟨w, f, hf⟩]
      rfl

theorem ExactAccess.write_ends {y : VmM W V4Err} (h : ExactWrite H n addr val m y) :
    ∃ e m', y m = .ok e m' := by
  by_cases hyes : m.vm.Allowed addr n
  · obtain ⟨e, m', hrun, -⟩ := h.succeeds hyes
    exact ⟨e, m', hrun⟩
  · by_cases hask : ∃ w f, m.vm.Asked addr n V4Mmio.write32 w f
    · obtain ⟨w, f, hask⟩ := hask
      exact ⟨_, _, h.asks w f hask⟩
    · exact ⟨_, m, h.refuses hyes fun w f hf => hask ⟨w, f, hf⟩⟩

/-- A `LOAD*` opcode ends as its accessor does. -/
theorem loadOp_agrees {core : Cell → Cell → VmM W (V4Err × Cell)} {ext : Cell → Cell} {ip : Nat}
    (h : ∀ out, ExactRead H n (m.operand 0) out (m.popped 1) (core (m.operand 0) out))
    (hH : H.PlainReads) (hsp : 1 ≤ m.vm.sp) (hfit : m.vm.sp ≤ 256) :
    Agree (instrEnd (thenNext ip (loadOp H core ext) m))
      (accessEnd Prod.fst (core (m.operand 0) out (m.popped 1))) := by
  obtain ⟨e, v, m', hrun, hle⟩ := (h 0).read_ends hH
  refine ⟨(e, m'.vm.mem), ?_, by rw [accessEnd_out h hH, hrun]; rfl⟩
  have hload : loadOp H core ext m = (do check e; dsPush H (ext v) : VmM W Unit) m' := by
    rw [loadOp, bind_ok (dsPop_run_first hsp hfit), bind_ok hrun]
  by_cases he : e = 0
  · have hroom : m'.vm.sp < 256 := by
      rw [popped_sp] at hle
      omega
    have hpush : dsPush H (ext v) m' = .ok () (m'.pushed (ext v)) := dsPush_eq_ok.mpr ⟨hroom, rfl⟩
    subst he
    rw [thenNext, bind_ok (hload.trans hpush)]
    rfl
  · have hfail : check e m' = .err e m' := by rw [check, if_pos he]; rfl
    rw [thenNext, bind_err (hload.trans (bind_err hfail))]
    rfl

/-- A `STORE*` opcode ends as its accessor does. -/
theorem storeOp_agrees {core : Cell → Cell → VmM W V4Err} {ip : Nat}
    (h : ExactWrite H n (m.operand 0) (m.operand 1) (m.popped 2) (core (m.operand 0) (m.operand 1)))
    (hsp : 2 ≤ m.vm.sp) (hfit : m.vm.sp ≤ 256) :
    Agree (instrEnd (thenNext ip (storeOp H core) m))
      (accessEnd id (core (m.operand 0) (m.operand 1) (m.popped 2))) := by
  obtain ⟨e, m', hrun⟩ := h.write_ends
  refine ⟨(e, m'.vm.mem), ?_, by rw [hrun]; rfl⟩
  have hstore : storeOp H core m = check e m' := by
    rw [storeOp, bind_ok (dsPop_run_first (by omega) hfit), bind_ok (dsPop_run_next hsp hfit),
      bind_ok hrun]
  by_cases he : e = 0
  · subst he
    rw [thenNext, bind_ok hstore]
    rfl
  · have hfail : check e m' = .err e m' := by rw [check, if_pos he]; rfl
    rw [thenNext, bind_err (hstore.trans hfail)]
    rfl

end Callers

/-! ## The result -/

/-- The six core accessors on one machine. -/
structure AccessorsExact (H : Host W) (m : Machine W) (addr val out : Cell) : Prop where
  read32 : ExactRead H 4 addr out m (v4MemRead32Core H addr out)
  write32 : ExactWrite H 4 addr val m (v4MemWrite32Core H addr val)
  read8 : ExactRead H 1 addr out m (v4MemRead8Core addr out)
  read16 : ExactRead H 2 addr out m (v4MemRead16Core addr out)
  write8 : ExactWrite H 1 addr val m (v4MemWrite8Core addr val)
  write16 : ExactWrite H 2 addr val m (v4MemWrite16Core addr val)

/-- **Memory accesses.**  Every core accessor is exact and atomic at every address, and the
    memory opcodes and the public calls end as the accessors do. -/
theorem memory_accessors_exact (H : Host W) (m : Machine W) (hm : m.vm.MemoryWF) :
    (∀ addr val out, AccessorsExact H m addr val out) ∧
      (H.PlainReads → m.vm.sp ≤ 256 → ∀ a ip out lastErr, OpcodesAgree H m a ip out lastErr) := by
  refine ⟨fun addr val out => ⟨read32_exact hm, write32_exact hm, read8_exact hm, read16_exact hm,
    write8_exact hm, write16_exact hm⟩, fun hH hfit a ip out lastErr => ?_⟩
  have hm1 : (m.popped 1).vm.MemoryWF := ⟨hm.mmioCount, hm.ram⟩
  have hm2 : (m.popped 2).vm.MemoryWF := ⟨hm.mmioCount, hm.ram⟩
  exact
    { load := fun hsp => by
        rw [callEnd_read]
        exact loadOp_agrees (fun _ => read32_exact hm1) hH hsp hfit
      store := fun hsp => by
        rw [callEnd_write]
        exact storeOp_agrees (write32_exact hm2) hsp hfit
      load8u := fun hsp => loadOp_agrees (fun _ => read8_exact hm1) hH hsp hfit
      load8s := fun hsp => loadOp_agrees (fun _ => read8_exact hm1) hH hsp hfit
      load16u := fun hsp => loadOp_agrees (fun _ => read16_exact hm1) hH hsp hfit
      load16s := fun hsp => loadOp_agrees (fun _ => read16_exact hm1) hH hsp hfit
      store8 := fun hsp => storeOp_agrees (write8_exact hm2) hsp hfit
      store16 := fun hsp => storeOp_agrees (write16_exact hm2) hsp hfit }

theorem silent_plainReads : Host.silent.PlainReads :=
  ⟨fun _ _ _ _ _ => ⟨rfl, rfl⟩, fun _ _ _ _ _ => Nat.le_refl _⟩

/-- Eight bytes of RAM, the upper four behind a read-only window; one cell on the stack. -/
def windowedVm : Vm :=
  { Vm.blank with
    sp := 1
    mem := some ⟨8, fun i => BitVec.ofNat 8 i⟩
    memSize := 8
    mmio := fun _ => ⟨4, 4, some 1, none, 0⟩
    mmioCount := 1 }

theorem windowedVm_memoryWF : windowedVm.MemoryWF := by
  refine ⟨by decide, fun ram hram => ?_⟩
  cases hram
  rfl

theorem windowed_accessors_exact :
    AccessorsExact Host.silent (.boot windowedVm) 6 7 9 ∧
      OpcodesAgree Host.silent (.boot windowedVm) ⟨[0x30], 1, 0⟩ 1 9 0 := by
  have h := memory_accessors_exact Host.silent (.boot windowedVm) windowedVm_memoryWF
  exact ⟨h.1 6 7 9, h.2 silent_plainReads (by decide) _ 1 9 0⟩

end V4Engine
