/-
  V4Engine.Vm.MmioDispatch

  Which window serves an address, over the life of a VM.

  The table is the first sixteen of all the windows ever offered, in the order of
  the offers: first those of the configuration, then those of every call of
  `vm_register_mmio`, whether it was taken whole or not (`mmioRun_table`).  The
  lookup returns the earliest of them that spans the address, so a table that only
  grows at its end never changes an answer it has given once.

  Callbacks are host code.  They may register windows of some kind `R` themselves, but
  touch the table in no other way (`Host.OnlyRegisters`).
-/
import V4Engine.Vm.Create
import V4Engine.Vm.MmioTable
import V4Engine.Vm.Accessors
import V4Engine.Lib.Runs

namespace V4Engine

open Lib FaultM VmM

variable {W : Type} {H : Host W} {R : V4Mmio → Prop}

/-! ## The earliest window -/

/-- `base <= addr` and `addr < base + size`, in unbounded integers. -/
def V4Mmio.Spans (w : V4Mmio) (addr : Cell) : Prop :=
  w.base.toNat ≤ addr.toNat ∧ addr.toNat < w.base.toNat + w.size.toNat

instance (w : V4Mmio) (addr : Cell) : Decidable (w.Spans addr) :=
  inferInstanceAs (Decidable (_ ∧ _))

/-- The first window of a list that spans an address. -/
def earliest (ws : List V4Mmio) (addr : Cell) : Option V4Mmio :=
  ws.find? fun w => decide (w.Spans addr)

/-- The wrapping subtraction of `find_mmio` is only reached where it does not wrap. -/
theorem V4Mmio.covers_eq (w : V4Mmio) (addr : Cell) : w.covers addr = decide (w.Spans addr) := by
  apply decide_eq_decide.mpr
  apply and_congr_right
  intro hbase
  have hle : w.base.toNat ≤ addr.toNat := BitVec.le_def.mp hbase
  rw [BitVec.lt_def, BitVec.toNat_sub_of_le hbase]
  omega

theorem Vm.window_eq (vm : Vm) (addr : Cell) : vm.window addr = earliest vm.mmioTable addr := by
  rw [earliest, ← funext fun w => V4Mmio.covers_eq w addr]
  rfl

theorem earliest_append {ws : List V4Mmio} {addr : Cell} {w : V4Mmio} (more : List V4Mmio)
    (h : earliest ws addr = some w) : earliest (ws ++ more) addr = some w := by
  unfold earliest at h ⊢
  rw [List.find?_append, h, Option.some_or]

/-! ## The table grows at its end -/

/-- The windows a call offers: `count` elements of the array, none without one. -/
def offered (list : Option (List V4Mmio)) (count : Int) : List V4Mmio :=
  (list.getD []).take count.toNat

@[simp] theorem Vm.mmioTable_length (vm : Vm) : vm.mmioTable.length = vm.mmioCount := by
  simp [Vm.mmioTable]

/-- A table within its bounds, after nothing is added. -/
theorem Vm.mmioTable_take {vm : Vm} (hcount : vm.mmioCount ≤ 16) :
    (vm.mmioTable ++ []).take 16 = vm.mmioTable := by
  rw [List.append_nil, List.take_of_length_le (by simpa using hcount)]

theorem take_take_append {α : Type} (n : Nat) (xs ys : List α) :
    (xs.take n ++ ys).take n = (xs ++ ys).take n := by
  rw [List.take_append, List.take_append, List.take_take, Nat.min_self, List.length_take]
  congr 2
  omega

theorem take_append_of_le {α : Type} {n : Nat} {xs : List α} (ys : List α) (h : xs.length ≤ n) :
    (xs ++ ys).take n = xs ++ ys.take (n - xs.length) := by
  rw [List.take_append, List.take_of_length_le h]

/-- The appending loop keeps the first sixteen windows. -/
theorem appendLoop_table {list : List V4Mmio} {i k appended a : Nat} {vm vm' : Vm}
    (hcount : vm.mmioCount ≤ 16) (h : appendLoop list i k appended vm = some (a, vm')) :
    vm'.mmioTable = (vm.mmioTable ++ (list.drop i).take k).take 16 := by
  induction k generalizing i appended vm with
  | zero =>
      cases h
      rw [List.take_zero, Vm.mmioTable_take hcount]
  | succ k ih =>
      rw [appendLoop] at h
      by_cases hfull : vm.mmioCount ≥ 16
      · -- the loop ends early, and the table is its own first sixteen
        rw [if_pos hfull] at h
        cases h
        exact (List.take_left' (by simpa using Nat.le_antisymm hcount hfull)).symm
      · rw [if_neg hfull] at h
        obtain ⟨w, hw, hrest⟩ := Option.bind_eq_some_iff.mp h
        obtain ⟨hi, rfl⟩ := List.getElem?_eq_some_iff.mp hw
        have hroom : (vm.pushMmio list[i]).mmioCount ≤ 16 := by
          show vm.mmioCount + 1 ≤ 16
          omega
        rw [ih hroom hrest, Vm.pushMmio_table, List.drop_eq_getElem_cons hi, List.take_succ_cons,
          List.append_assoc]
        rfl

theorem vmRegisterMmio_table {list : Option (List V4Mmio)} {count : Int} {vm vm' : Vm} {e : V4Err}
    (hcount : vm.mmioCount ≤ 16) (h : vmRegisterMmio list count vm = some (e, vm')) :
    vm'.mmioTable = (vm.mmioTable ++ offered list count).take 16 := by
  have hkeep := Vm.mmioTable_take hcount
  cases list with
  | none =>
      cases h
      simpa [offered] using hkeep.symm
  | some l =>
      rw [vmRegisterMmio] at h
      by_cases hpos : count ≤ 0
      · rw [if_pos hpos] at h
        cases h
        simpa [offered, Int.toNat_of_nonpos hpos] using hkeep.symm
      · rw [if_neg hpos] at h
        obtain ⟨r, hloop, hr⟩ := Option.map_eq_some_iff.mp h
        cases hr
        exact appendLoop_table hcount hloop

/-! ## The table of a new VM -/

theorem copyMmio_run {list : List V4Mmio} {i k : Nat} {vm vm' : Vm}
    (h : copyMmio list i k vm = some vm') :
    (∀ j, j < i → vm'.mmio j = vm.mmio j) ∧
      (List.range' i k).map vm'.mmio = (list.drop i).take k := by
  induction k generalizing i vm with
  | zero =>
      cases h
      exact ⟨fun _ _ => rfl, rfl⟩
  | succ k ih =>
      obtain ⟨w, hw, hrest⟩ := Option.bind_eq_some_iff.mp h
      obtain ⟨hi, rfl⟩ := List.getElem?_eq_some_iff.mp hw
      -- the loop goes upwards, so what it has copied stays
      obtain ⟨hbelow, hcopied⟩ := ih hrest
      constructor
      · intro j hj
        rw [hbelow j (by omega)]
        exact Function.update_of_ne (Nat.ne_of_lt hj) _ _
      · have hnow : vm'.mmio i = list[i] := by
          rw [hbelow i (Nat.lt_succ_self i)]
          exact Function.update_self i _ _
        rw [List.range'_succ, List.map_cons, hcopied, hnow, List.drop_eq_getElem_cons hi,
          List.take_succ_cons]

theorem loadMmio_table {cfg : VmConfig} {vm vm' : Vm} (hempty : vm.mmioCount = 0)
    (h : loadMmio cfg vm = some vm') :
    vm'.mmioTable = (offered cfg.mmio cfg.mmioCount).take 16 := by
  have hnone : vm.mmioTable = [] := by
    rw [← List.length_eq_zero_iff, Vm.mmioTable_length, hempty]
  unfold loadMmio at h
  unfold offered
  cases hlist : cfg.mmio with
  | none =>
      rw [hlist] at h
      cases h
      simpa using hnone
  | some list =>
      rw [hlist] at h
      by_cases hpos : 0 < cfg.mmioCount
      · simp only [if_pos hpos] at h
        obtain ⟨copied, hcopy, rfl⟩ := Option.map_eq_some_iff.mp h
        -- the cut to the capacity is made on the count, before the loop
        have hn : (if cfg.mmioCount ≤ 16 then cfg.mmioCount.toNat else 16)
            = min 16 cfg.mmioCount.toNat := by
          split <;> omega
        rw [hn] at hcopy ⊢
        rw [Option.getD_some, List.take_take]
        exact (copyMmio_run hcopy).2
      · simp only [if_neg hpos] at h
        cases h
        simpa [Int.toNat_of_nonpos (Int.not_lt.mp hpos)] using hnone

theorem vmCreate_table {ok : Bool} {cfg : VmConfig} {vm : Vm}
    (h : vmCreate ok (some cfg) = some (some vm)) :
    vm.mmioTable = (offered cfg.mmio cfg.mmioCount).take 16 := by
  cases ok with
  | false => cases h
  | true =>
      obtain ⟨loaded, hload, hvm⟩ := Option.map_eq_some_iff.mp h
      cases hvm
      exact loadMmio_table rfl hload

/-! ## Registrations and accesses -/

/-- What the embedder does with the VM. -/
inductive MmioOp where
  | register (list : Option (List V4Mmio)) (count : Int)
  | read32 (addr out : Cell)
  | write32 (addr val : Cell)

/-- The state a call leaves behind; none after a fault. -/
def leaves {α : Type} : Outcome V4Err (Api W) α → Option (Api W)
  | .ok _ s => some s
  | .err _ s => some s
  | .fault => none

def mmioStep (H : Host W) : MmioOp → Api W → Option (Api W)
  | .register list count, s =>
      (vmRegisterMmio list count s.machine.vm).map fun r =>
        { s with machine := { s.machine with vm := r.2 } }
  | .read32 addr out, s => leaves (vmMemRead32 H addr out s)
  | .write32 addr val, s => leaves (vmMemWrite32 H addr val s)

/-- `ws` are the windows offered by an operation: the arguments of a registration, and
    for an access what its callback registers, windows of the kind `R`. -/
def Offers (R : V4Mmio → Prop) : MmioOp → List V4Mmio → Prop
  | .register list count, ws => ws = offered list count
  | _, ws => ∀ w ∈ ws, R w

/-- The table of `vm'` is that of `vm` after offering some windows of the kind `R`. -/
def Vm.TableGrows (R : V4Mmio → Prop) (vm vm' : Vm) : Prop :=
  vm.mmioCount ≤ 16 →
    ∃ ws, (∀ w ∈ ws, R w) ∧ vm'.mmioTable = (vm.mmioTable ++ ws).take 16

/-- Callbacks touch the table only through `vm_register_mmio`, with windows of the kind `R`;
    with none at all where `R` is empty. -/
structure Host.OnlyRegisters (H : Host W) (R : V4Mmio → Prop) : Prop where
  read32 : ∀ f u addr out (m : Machine W), m.vm.TableGrows R (H.read32 f u addr out m).2.2.vm
  write32 : ∀ f u addr val (m : Machine W), m.vm.TableGrows R (H.write32 f u addr val m).2.vm

theorem Vm.mmioCount_le {vm : Vm} {ws : List V4Mmio} (h : vm.mmioTable = ws.take 16) :
    vm.mmioCount ≤ 16 := by
  rw [← Vm.mmioTable_length, h, List.length_take]
  exact Nat.min_le_left _ _

theorem Vm.TableGrows.of_eq {vm vm' : Vm} (h : vm'.mmioTable = vm.mmioTable) :
    vm.TableGrows R vm' := by
  intro hcount
  exact ⟨[], List.forall_mem_nil _, by rw [h, Vm.mmioTable_take hcount]⟩

theorem Vm.TableGrows.trans {vm vm' vm'' : Vm} (h : vm.TableGrows R vm')
    (h' : vm'.TableGrows R vm'') : vm.TableGrows R vm'' := by
  intro hcount
  obtain ⟨ws, hR, hws⟩ := h hcount
  obtain ⟨ws', hR', hws'⟩ := h' (Vm.mmioCount_le hws)
  refine ⟨ws ++ ws', List.forall_mem_append.mpr ⟨hR, hR'⟩, ?_⟩
  rw [hws', hws, take_take_append, List.append_assoc]

/-- The effect of the memory accessors on the table. -/
def tableEffect (W : Type) (R : V4Mmio → Prop) : Effect V4Err (Machine W) where
  pre _ := True
  ret m m' := m.vm.TableGrows R m'.vm
  err _ m m' := m.vm.TableGrows R m'.vm
  stuck _ := True

theorem tableEffect_composable : (tableEffect W R).Composable where
  refl _ := .of_eq rfl
  pre _ _ := trivial
  trans := .trans
  err := .trans
  stuck _ _ := trivial

theorem tableEffect_memory (hH : H.OnlyRegisters R) :
    MemoryAllows H (tableEffect W R) fun _ => True where
  ram _ _ _ _ _ := .of_eq rfl
  ramOut _ _ _ _ _ := trivial
  mmioOut _ _ _ := trivial
  read32 f u addr out m _ := ⟨hH.read32 f u addr out m, trivial⟩
  write32 f u addr val m _ := ⟨hH.write32 f u addr val m, trivial⟩
  ok := trivial
  unaligned := trivial
  oobMemory := trivial
  fails _ _ _ _ _ := .of_eq rfl

/-- A public access leaves the table its accessor leaves. -/
theorem access_tableGrows {α : Type} {x : VmM W α} {Q : α → Prop}
    (hx : Meets (tableEffect W R) x Q) (code : α → V4Err) {s s' : Api W}
    (h : leaves ((do let r ← onMachine x; setLastErr (code r); return r) s) = some s') :
    s.machine.vm.TableGrows R s'.machine.vm := by
  have hends := hx s.machine trivial
  cases hrun : x s.machine with
  | ok a m =>
      have hon : onMachine x s = .ok a { s with machine := m } := by simp only [onMachine, hrun]
      rw [bind_ok hon] at h
      rw [hrun] at hends
      cases h
      exact hends.1
  | err e m =>
      -- a panic on the way keeps what the callback has registered
      have hon : onMachine x s = .err e { s with machine := m } := by simp only [onMachine, hrun]
      rw [bind_err hon] at h
      rw [hrun] at hends
      cases h
      exact hends
  | fault =>
      have hon : onMachine x s = .fault := by simp only [onMachine, hrun]
      rw [bind_fault hon] at h
      cases h

/-- **One operation** appends what it offers, as far as there is room. -/
theorem mmioStep_table (hH : H.OnlyRegisters R) {op : MmioOp} {s s' : Api W}
    (hcount : s.machine.vm.mmioCount ≤ 16) (h : mmioStep H op s = some s') :
    ∃ ws, Offers R op ws ∧ s'.machine.vm.mmioTable = (s.machine.vm.mmioTable ++ ws).take 16 := by
  have A := tableEffect_memory hH
  have hF := tableEffect_composable (W := W) (R := R)
  cases op with
  | register list count =>
      obtain ⟨⟨e, vm'⟩, hreg, rfl⟩ := Option.map_eq_some_iff.mp h
      exact ⟨offered list count, rfl, vmRegisterMmio_table hcount hreg⟩
  | read32 addr out =>
      -- what a callback registers is offered by the access that called it
      exact access_tableGrows (A.read32Core hF addr out) (fun r => r.1) h hcount
  | write32 addr val =>
      exact access_tableGrows (A.write32Core hF addr val) id h hcount

/-- **Every run.**  The table is the first sixteen of the windows offered so far. -/
theorem mmioRun_table (hH : H.OnlyRegisters R) {ops : List MmioOp} {s s' : Api W}
    {before : List V4Mmio} (hs : s.machine.vm.mmioTable = before.take 16)
    (h : exec (mmioStep H) ops s = some s') :
    ∃ log, List.Forall₂ (Offers R) ops log ∧
      s'.machine.vm.mmioTable = (before ++ log.flatten).take 16 := by
  induction ops generalizing s before with
  | nil =>
      cases h
      exact ⟨[], .nil, by simpa using hs⟩
  | cons op ops ih =>
      obtain ⟨t, hstep, hrest⟩ := exec_cons_eq_some.mp h
      obtain ⟨ws, hoffers, htable⟩ := mmioStep_table hH (Vm.mmioCount_le hs) hstep
      rw [hs, take_take_append] at htable
      obtain ⟨log, hlog, hend⟩ := ih htable hrest
      refine ⟨ws :: log, .cons hoffers hlog, ?_⟩
      rw [hend, List.flatten_cons, List.append_assoc]

/-! ## Dispatch -/

/-- The 32-bit accesses at `addr` go to window `w`: its alignment check, then its callback
    with its own user pointer. -/
structure ServedBy (H : Host W) (m : Machine W) (addr : Cell) (w : V4Mmio) : Prop where
  found : findMmio addr m = .ok (some w) m
  aligned : 4 ∣ addr.toNat →
    (∀ out, v4MemRead32Core H addr out m
      = windowAnswer V4Mmio.read32 (askRead H addr out) (fun e => (e, out)) w m) ∧
    ∀ val, v4MemWrite32Core H addr val m
      = windowAnswer V4Mmio.write32 (askWrite H addr val) id w m
  unaligned : ¬ 4 ∣ addr.toNat →
    (∀ out, v4MemRead32Core H addr out m = .ok (Err.unaligned.code, out) m) ∧
    ∀ val, v4MemWrite32Core H addr val m = .ok Err.unaligned.code m

theorem servedBy_of_window {m : Machine W} {addr : Cell} {w : V4Mmio}
    (hcount : m.vm.mmioCount ≤ 16) (hw : m.vm.window addr = some w) : ServedBy H m addr w where
  found := by rw [findMmio_run hcount, hw]
  aligned ha := by
    constructor
    · intro out
      rw [v4MemRead32Core_eq, wideAccess_device hcount hw ha]
    · intro val
      rw [v4MemWrite32Core_eq, wideAccess_device hcount hw ha]
  unaligned ha := by
    have hreach : m.vm.window addr ≠ none ∨ m.vm.InRam addr 4 := .inl (by simp [hw])
    constructor
    · intro out
      rw [v4MemRead32Core_eq, wideAccess_unaligned hcount hreach ha]
    · intro val
      rw [v4MemWrite32Core_eq, wideAccess_unaligned hcount hreach ha]
      rfl

/-- The windows in force after the configuration and the offers of `log`. -/
def VmConfig.registered (cfg : VmConfig) (log : List (List V4Mmio)) : List V4Mmio :=
  (offered cfg.mmio cfg.mmioCount ++ log.flatten).take 16

/-- **Dispatch is stable.**  After creation and any registrations and accesses the lookup
    answers with the earliest registered window that spans the address, and that window
    serves the address from then on. -/
theorem mmio_dispatch_stable (hH : H.OnlyRegisters R) {ok : Bool} {cfg : VmConfig} {m : Machine W}
    (hcreate : vmCreate ok (some cfg) = some (some m.vm)) {e : V4Err} {ops : List MmioOp}
    {s : Api W} (hrun : exec (mmioStep H) ops ⟨m, e⟩ = some s) :
    ∃ log, List.Forall₂ (Offers R) ops log ∧
      ∀ addr, findMmio addr s.machine = .ok (earliest (cfg.registered log) addr) s.machine ∧
        ∀ w, earliest (cfg.registered log) addr = some w →
          ∀ later s', exec (mmioStep H) later s = some s' → ServedBy H s'.machine addr w := by
  obtain ⟨log, hlog, htable⟩ := mmioRun_table hH (s := ⟨m, e⟩) (vmCreate_table hcreate) hrun
  have hcount := Vm.mmioCount_le htable
  refine ⟨log, hlog, fun addr => ⟨?_, ?_⟩⟩
  · rw [findMmio_run hcount, Vm.window_eq, htable, VmConfig.registered]
  · intro w hw later s' hlater
    obtain ⟨log', -, htable'⟩ := mmioRun_table hH htable hlater
    apply servedBy_of_window (Vm.mmioCount_le htable')
    -- what came later stands behind what was there
    rw [Vm.window_eq, htable', ← take_take_append, take_append_of_le _ (List.length_take_le _ _)]
    exact earliest_append _ hw

/-- A window of eight bytes that reaches past the end of the address space. -/
def topWindow : V4Mmio := ⟨0xFFFFFFFC, 8, none, none, 0⟩

/-- A configuration with one window at address zero. -/
def oneWindowConfig : VmConfig := ⟨none, 0, some [fourBytes 0], 1⟩

/-- The VM created from it. -/
def oneWindowVm : Vm :=
  { Vm.blank with mmio := Function.update Vm.blank.mmio 0 (fourBytes 0), mmioCount := 1 }

/-- A registration, and what comes later: a second window over address zero and an access. -/
def firstOps : List MmioOp := [.register (some [topWindow]) 1]
def laterOps : List MmioOp := [.register (some [fourBytes 4, fourBytes 0]) 2, .read32 0 0]

/-- Nothing changes at address zero, and the window past the end of the address space serves
    its first four bytes only. -/
theorem one_window_dispatch :
    ∃ s s', exec (mmioStep Host.silent) firstOps ⟨.boot oneWindowVm, 0⟩ = some s ∧
      exec (mmioStep Host.silent) laterOps s = some s' ∧
      ServedBy Host.silent s'.machine 0xFFFFFFFC topWindow ∧
      ServedBy Host.silent s'.machine 0 (fourBytes 0) ∧
      findMmio 4 s.machine = .ok none s.machine := by
  have hsilent : Host.silent.OnlyRegisters fun _ => False :=
    ⟨fun _ _ _ _ _ => .of_eq rfl, fun _ _ _ _ _ => .of_eq rfl⟩
  have hcreate : vmCreate true (some oneWindowConfig) = some (some oneWindowVm) := rfl
  have hdef : ((exec (mmioStep Host.silent) firstOps ⟨.boot oneWindowVm, 0⟩).bind
      (exec (mmioStep Host.silent) laterOps)).isSome := by decide
  obtain ⟨s', hboth⟩ := Option.isSome_iff_exists.mp hdef
  obtain ⟨s, hfirst, hlater⟩ := Option.bind_eq_some_iff.mp hboth
  obtain ⟨log, hlog, hdispatch⟩ := mmio_dispatch_stable hsilent (m := .boot oneWindowVm)
    hcreate hfirst
  obtain ⟨ws, rest, hws, hrest, rfl⟩ := List.forall₂_cons_left_iff.mp hlog
  cases hrest
  cases hws
  exact ⟨s, s', hfirst, hlater, (hdispatch 0xFFFFFFFC).2 _ (by decide) _ _ hlater,
    (hdispatch 0).2 _ (by decide) _ _ hlater, (hdispatch 4).1⟩

end V4Engine
