/-
  V4Engine.Vm.RamRuns

  What the byte helpers of `memory.cpp` compute.

  Within the buffer a load of `n` bytes is `leNat`, a store is `putBytes`.  The
  two shapes of the accessors follow: `wideAccess` looks for a window, checks
  the range and then the alignment; `narrowAccess` only checks the range.  Each
  shape has one lemma for each of its ends.
-/
import V4Engine.Vm.StackRuns
import V4Engine.Lib.Bytes

namespace V4Engine

open Lib FaultM VmM

variable {W : Type} {m : Machine W} {ram : Ram} {a n : Nat}

/-! ## Bytes -/

@[simp] theorem setRam_mem (m : Machine W) (ram : Ram) (byte : Nat → Byte) :
    (m.setRam ram byte).vm.mem = some { ram with byte := byte } := rfl

@[simp] theorem setRam_setRam (m : Machine W) (ram : Ram) (f g : Nat → Byte) :
    (m.setRam ram f).setRam { ram with byte := f } g = m.setRam ram g := rfl

theorem ramByte_run (hram : m.vm.mem = some ram) (ha : a < ram.cap) :
    ramByte a m = .ok (ram.byte a) m := by
  unfold ramByte
  rw [hram]
  exact if_pos ha

theorem setRamByte_run (hram : m.vm.mem = some ram) (ha : a < ram.cap) (b : Byte) :
    setRamByte a b m = .ok () (m.setRam ram (Function.update ram.byte a b)) := by
  unfold setRamByte
  rw [hram]
  exact if_pos ha

/-- The first byte of a store. -/
theorem setRamByte_run_first (hram : m.vm.mem = some ram) (ha : a < ram.cap) (v : Nat) :
    setRamByte a (leByte v 0) m = .ok () (m.setRam ram (putBytes ram.byte a 1 v)) := by
  rw [setRamByte_run hram ha, putBytes_one]

/-- The byte after the first `k`. -/
theorem setRamByte_run_next {k : Nat} (ha : a + k < ram.cap) (v : Nat) :
    setRamByte (a + k) (leByte v k) (m.setRam ram (putBytes ram.byte a k v))
      = .ok () (m.setRam ram (putBytes ram.byte a (k + 1) v)) := by
  have hrun := setRamByte_run (setRam_mem m ram (putBytes ram.byte a k v)) ha (leByte v k)
  rw [hrun, putBytes_succ]
  rfl

theorem ldLe32_run (hram : m.vm.mem = some ram) (ha : a + 4 ≤ ram.cap) :
    ldLe32 a m = .ok (BitVec.ofNat 32 (leNat ram.byte a 4)) m := by
  have hlt := leNat_lt ram.byte a 4
  have hvalue := toNat_join_four (w := 32) (by omega) ram.byte a
  rw [ldLe32, bind_ok (ramByte_run hram (by omega)), bind_ok (ramByte_run hram (by omega)),
    bind_ok (ramByte_run hram (by omega)), bind_ok (ramByte_run hram (by omega)), ← hvalue,
    BitVec.ofNat_toNat, BitVec.setWidth_eq]
  rfl

theorem ldLe16_run (hram : m.vm.mem = some ram) (ha : a + 2 ≤ ram.cap) :
    ldLe16 a m = .ok (BitVec.ofNat 16 (leNat ram.byte a 2)) m := by
  have hvalue := toNat_join_two (w := 16) (by omega) ram.byte a
  rw [ldLe16, bind_ok (ramByte_run hram (by omega)), bind_ok (ramByte_run hram (by omega)),
    ← hvalue, BitVec.ofNat_toNat, BitVec.setWidth_eq]
  rfl

theorem stLe32_run (hram : m.vm.mem = some ram) (ha : a + 4 ≤ ram.cap) (v : Cell) :
    stLe32 a v m = .ok () (m.setRam ram (putBytes ram.byte a 4 v.toNat)) := by
  have h0 : (v &&& 0xFF).setWidth 8 = leByte v.toNat 0 := by
    simpa using setWidth_shift_mask (by omega) v 0
  have h1 : ((v >>> 8) &&& 0xFF).setWidth 8 = leByte v.toNat 1 :=
    setWidth_shift_mask (by omega) v 1
  have h2 : ((v >>> 16) &&& 0xFF).setWidth 8 = leByte v.toNat 2 :=
    setWidth_shift_mask (by omega) v 2
  have h3 : ((v >>> 24) &&& 0xFF).setWidth 8 = leByte v.toNat 3 :=
    setWidth_shift_mask (by omega) v 3
  rw [stLe32, h0, h1, h2, h3, bind_ok (setRamByte_run_first hram (by omega) _),
    bind_ok (setRamByte_run_next (by omega) _), bind_ok (setRamByte_run_next (by omega) _)]
  exact setRamByte_run_next (by omega) _

theorem stLe16_run (hram : m.vm.mem = some ram) (ha : a + 2 ≤ ram.cap) (v : BitVec 16) :
    stLe16 a v m = .ok () (m.setRam ram (putBytes ram.byte a 2 v.toNat)) := by
  have h0 : (v &&& 0xFF).setWidth 8 = leByte v.toNat 0 := by
    simpa using setWidth_shift_mask (by omega) v 0
  have h1 : ((v >>> 8) &&& 0xFF).setWidth 8 = leByte v.toNat 1 :=
    setWidth_shift_mask (by omega) v 1
  rw [stLe16, h0, h1, bind_ok (setRamByte_run_first hram (by omega) _)]
  exact setRamByte_run_next (by omega) _

/-! ## Cells and bytes -/

theorem setWidth_byte (byte : Nat → Byte) (a : Nat) :
    (byte a).setWidth 32 = BitVec.ofNat 32 (leNat byte a 1) := by
  apply BitVec.eq_of_toNat_eq
  simp [leNat]

theorem setWidth_half (byte : Nat → Byte) (a : Nat) :
    (BitVec.ofNat 16 (leNat byte a 2)).setWidth 32 = BitVec.ofNat 32 (leNat byte a 2) := by
  have hlt : leNat byte a 2 < 65536 := leNat_lt byte a 2
  apply BitVec.eq_of_toNat_eq
  rw [BitVec.toNat_setWidth, BitVec.toNat_ofNat, BitVec.toNat_ofNat, Nat.mod_eq_of_lt hlt]

theorem low_byte (val : Cell) : (val &&& 0xFF).setWidth 8 = leByte val.toNat 0 := by
  simpa using setWidth_shift_mask (by omega) val 0

theorem toNat_mask_half (val : Cell) : (val &&& 0xFFFF).toNat = val.toNat % 2 ^ 16 := by
  rw [BitVec.toNat_and]
  exact Nat.and_two_pow_sub_one_eq_mod val.toNat 16

theorem low_half (val : Cell) : (val &&& 0xFFFF).setWidth 16 = BitVec.ofNat 16 val.toNat := by
  apply BitVec.eq_of_toNat_eq
  rw [BitVec.toNat_setWidth, toNat_mask_half, Nat.mod_mod, BitVec.toNat_ofNat]

theorem putBytes_low_half (byte : Nat → Byte) (a : Nat) (val : Cell) :
    putBytes byte a 2 ((val &&& 0xFFFF).setWidth 16).toNat = putBytes byte a 2 val.toNat := by
  rw [low_half, BitVec.toNat_ofNat]
  exact putBytes_mod byte a 2 val.toNat

/-! ## Checks -/

/-- RAM has the `n` bytes from `addr` on. -/
def Vm.InRam (vm : Vm) (addr : Cell) (n : Nat) : Prop :=
  vm.mem.isSome ∧ addr.toNat + n ≤ vm.memSize.toNat

instance (vm : Vm) (addr : Cell) (n : Nat) : Decidable (vm.InRam addr n) :=
  inferInstanceAs (Decidable (_ ∧ _))

theorem v4IsInRam_eq (vm : Vm) (addr : Cell) (n : Nat) :
    v4IsInRam vm addr n = if vm.InRam addr n then 0 else Err.oobMemory.code := rfl

theorem and_three_eq_zero_iff (addr : Cell) : addr &&& 3 = 0 ↔ 4 ∣ addr.toNat := by
  have hmod : addr.toNat &&& 3 = addr.toNat % 4 := Nat.and_two_pow_sub_one_eq_mod addr.toNat 2
  have hand : (addr &&& 3).toNat = addr.toNat &&& 3 := BitVec.toNat_and ..
  rw [← BitVec.toNat_inj, hand, hmod]
  exact Nat.dvd_iff_mod_eq_zero.symm

theorem v4IsAligned4_eq (addr : Cell) :
    v4IsAligned4 addr = if 4 ∣ addr.toNat then 0 else Err.unaligned.code := by
  rw [v4IsAligned4]
  by_cases h : 4 ∣ addr.toNat
  · rw [if_pos h, if_pos ((and_three_eq_zero_iff addr).mpr h)]
  · rw [if_neg h, if_neg fun ha => h ((and_three_eq_zero_iff addr).mp ha)]

theorem findMmio_run (htable : m.vm.mmioCount ≤ 16) (addr : Cell) :
    findMmio addr m = .ok (m.vm.window addr) m := by
  obtain h | ⟨-, hbig⟩ := findMmio_cases addr m
  · exact h
  · exact absurd hbig (Nat.not_lt.mpr htable)

/-! ## The two shapes -/

section Shapes

variable {β : Type} {refuse : V4Err → β} {device : V4Mmio → VmM W β} {x : VmM W β} {addr : Cell}

/-- A 32-bit access: `device` handles an aligned access to a window, `x` goes to RAM. -/
def wideAccess (addr : Cell) (refuse : V4Err → β) (device : V4Mmio → VmM W β) (x : VmM W β) :
    VmM W β := do
  match ← findMmio addr with
  | some w => if v4IsAligned4 addr ≠ 0 then return refuse (v4IsAligned4 addr) else device w
  | none =>
      let vm ← getVm
      if v4IsInRam vm addr 4 ≠ 0 then return refuse (v4IsInRam vm addr 4)
      else if v4IsAligned4 addr ≠ 0 then return refuse (v4IsAligned4 addr)
      else x

/-- An 8- or 16-bit access: `x` goes to RAM. -/
def narrowAccess (addr : Cell) (n : Nat) (refuse : V4Err → β) (x : VmM W β) : VmM W β := do
  let vm ← getVm
  if v4IsInRam vm addr n ≠ 0 then return refuse (v4IsInRam vm addr n) else x

theorem narrowAccess_ram (hin : m.vm.InRam addr n) : narrowAccess addr n refuse x m = x m := by
  show (if v4IsInRam m.vm addr n ≠ 0 then _ else _ : VmM W β) m = _
  rw [v4IsInRam_eq, if_pos hin, if_neg (not_not.mpr rfl)]

theorem narrowAccess_refused (hout : ¬ m.vm.InRam addr n) :
    narrowAccess addr n refuse x m = .ok (refuse Err.oobMemory.code) m := by
  show (if v4IsInRam m.vm addr n ≠ 0 then _ else _ : VmM W β) m = _
  rw [v4IsInRam_eq, if_neg hout, if_pos (by decide)]
  rfl

variable (htable : m.vm.mmioCount ≤ 16)
include htable

/-- Outside the windows: the range first, then the alignment. -/
theorem wideAccess_no_window (hw : m.vm.window addr = none) :
    wideAccess addr refuse device x m = narrowAccess addr 4 refuse
      (if v4IsAligned4 addr ≠ 0 then pure (refuse (v4IsAligned4 addr)) else x) m := by
  rw [wideAccess, bind_ok (findMmio_run htable addr), hw]
  rfl

theorem wideAccess_ram (hw : m.vm.window addr = none) (hin : m.vm.InRam addr 4)
    (ha : 4 ∣ addr.toNat) : wideAccess addr refuse device x m = x m := by
  rw [wideAccess_no_window htable hw, narrowAccess_ram hin, v4IsAligned4_eq, if_pos ha,
    if_neg (not_not.mpr rfl)]

theorem wideAccess_out_of_range (hw : m.vm.window addr = none) (hout : ¬ m.vm.InRam addr 4) :
    wideAccess addr refuse device x m = .ok (refuse Err.oobMemory.code) m := by
  rw [wideAccess_no_window htable hw, narrowAccess_refused hout]

theorem wideAccess_unaligned (hreach : m.vm.window addr ≠ none ∨ m.vm.InRam addr 4)
    (ha : ¬ 4 ∣ addr.toNat) :
    wideAccess addr refuse device x m = .ok (refuse Err.unaligned.code) m := by
  have hcode : v4IsAligned4 addr = Err.unaligned.code := by rw [v4IsAligned4_eq, if_neg ha]
  cases hw : m.vm.window addr with
  | none =>
      rw [wideAccess_no_window htable hw, narrowAccess_ram (hreach.resolve_left (absurd hw)), hcode,
        if_pos (by decide)]
      rfl
  | some w =>
      rw [wideAccess, bind_ok (findMmio_run htable addr), hw, hcode]
      exact congrFun (if_pos (by decide)) m

theorem wideAccess_device {w : V4Mmio} (hw : m.vm.window addr = some w) (ha : 4 ∣ addr.toNat) :
    wideAccess addr refuse device x m = device w m := by
  rw [wideAccess, bind_ok (findMmio_run htable addr), hw, v4IsAligned4_eq, if_pos ha]
  exact congrFun (if_neg (not_not.mpr rfl)) m

end Shapes

end V4Engine
