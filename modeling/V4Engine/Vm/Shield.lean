/-
  V4Engine.Vm.Shield

  MMIO windows and the RAM below them.

  Only the 32-bit accessors look at the windows, and they look at the first byte of
  the access.  An access that touches a window whose base is a multiple of four, that
  begins in a window, or that is not aligned, never reaches RAM (`Shielded`).  The 8- and 16-bit
  accessors have no MMIO support: they do the same whatever the table says
  (`BlindToWindows`).
-/
import V4Engine.Vm.HelperRules

namespace V4Engine

open Lib FaultM VmM

variable {W : Type} {H : Host W} {α : Type}

/-- Byte `addr + k` of an access of `n` bytes lies in the window. -/
def V4Mmio.Touches (w : V4Mmio) (addr : Cell) (n : Nat) : Prop :=
  ∃ k, k < n ∧ w.base.toNat ≤ addr.toNat + k ∧ addr.toNat + k < w.base.toNat + w.size.toNat

/-- An entry of the MMIO table. -/
def Vm.Registered (vm : Vm) (w : V4Mmio) : Prop := ∃ i, i < vm.mmioCount ∧ vm.mmio i = w

/-- Other bytes in the RAM. -/
def Machine.withBytes (m : Machine W) (byte : Nat → Byte) : Machine W :=
  { m with vm := { m.vm with mem := m.vm.mem.map fun ram => { ram with byte := byte } } }

/-- Another MMIO table. -/
def Machine.withTable (m : Machine W) (mmio : Nat → V4Mmio) (mmioCount : Nat) : Machine W :=
  { m with vm := { m.vm with mmio := mmio, mmioCount := mmioCount } }

/-- Whatever the RAM holds, the access `x` leaves it alone: it returns an error (`b e`
    stands for the code `e`), or it is what the callback of the first window that
    contains its first byte does. -/
inductive Shielded (m : Machine W) (addr : Cell) (b : V4Err → α)
    (callback : V4Mmio → Option (VmM W α)) (x : VmM W α) : Prop where
  | misaligned (hne : addr &&& 3 ≠ 0) (e : V4Err)
      (he : e = Err.unaligned.code ∨ e = Err.oobMemory.code)
      (hrun : ∀ byte, x (m.withBytes byte) = .ok (b e) (m.withBytes byte))
  | forbidden (w : V4Mmio) (hw : m.vm.window addr = some w) (hnull : callback w = none)
      (hrun : ∀ byte, x (m.withBytes byte) = .ok (b Err.oobMemory.code) (m.withBytes byte))
  | handled (w : V4Mmio) (y : VmM W α) (hw : m.vm.window addr = some w)
      (hcall : callback w = some y)
      (hrun : ∀ byte, x (m.withBytes byte) = y (m.withBytes byte))

/-- The access does the same under every MMIO table. -/
def BlindToWindows (x : VmM W α) : Prop :=
  ∀ m mmio mmioCount, x (m.withTable mmio mmioCount)
    = match x m with
      | .ok a m' => .ok a (m'.withTable mmio mmioCount)
      | .err e m' => .err e (m'.withTable mmio mmioCount)
      | .fault => .fault

/-! ## The lookup -/

theorem covers_iff {w : V4Mmio} {addr : Cell} : w.covers addr = true ↔
    w.base.toNat ≤ addr.toNat ∧ addr.toNat < w.base.toNat + w.size.toNat := by
  rw [V4Mmio.covers, decide_eq_true_iff]
  bv_omega

/-- The lookup finds a window exactly when a registered one contains the address. -/
theorem window_isSome {vm : Vm} {addr : Cell} {w : V4Mmio} (hreg : vm.Registered w)
    (hw : w.covers addr = true) : (vm.window addr).isSome := by
  obtain ⟨i, hi, rfl⟩ := hreg
  rw [Vm.window, List.find?_isSome]
  refine ⟨vm.mmio i, List.mem_map.mpr ⟨i, ?_, rfl⟩, hw⟩
  rw [List.mem_range'_1]
  omega

/-- An aligned access that touches a window with an aligned base begins in it. -/
theorem covers_of_touches {w : V4Mmio} {addr : Cell} (htouch : w.Touches addr 4)
    (hbase : 4 ∣ w.base.toNat) (ha : addr &&& 3 = 0) : w.covers addr = true := by
  obtain ⟨k, hk, hlo, hhi⟩ := htouch
  have haddr : addr.toNat % 4 = 0 := by
    have h := congrArg BitVec.toNat ha
    rw [BitVec.toNat_and] at h
    have hmod : addr.toNat &&& 3 = addr.toNat % 4 := Nat.and_two_pow_sub_one_eq_mod addr.toNat 2
    rw [← hmod]
    exact h
  rw [covers_iff]
  omega

/-! ## The 32-bit accessors -/

/-- Both accessors: `y` handles an aligned access to a window, `x` goes to RAM. -/
theorem access32_shielded {β : Type} {m : Machine W} (htable : m.vm.mmioCount ≤ 16) {addr : Cell}
    (hfirst : addr &&& 3 = 0 → (m.vm.window addr).isSome) {b : V4Err → β}
    {callback : V4Mmio → Option (VmM W β)} {x : VmM W β} {y : V4Mmio → VmM W β}
    (hy : ∀ w, y w = match callback w with
      | none => pure (b Err.oobMemory.code)
      | some z => z) :
    Shielded m addr b callback (do
      match ← findMmio addr with
      | some w => if v4IsAligned4 addr ≠ 0 then return b (v4IsAligned4 addr) else y w
      | none =>
          let vm ← getVm
          if v4IsInRam vm addr 4 ≠ 0 then return b (v4IsInRam vm addr 4)
          else if v4IsAligned4 addr ≠ 0 then return b (v4IsAligned4 addr)
          else x) := by
  have hlookup : ∀ byte, findMmio addr (m.withBytes byte)
      = .ok (m.vm.window addr) (m.withBytes byte) := by
    intro byte
    obtain hw | ⟨-, hbig⟩ := findMmio_cases addr (m.withBytes byte)
    · exact hw
    · exact absurd hbig (Nat.not_lt.mpr htable)
  by_cases ha : addr &&& 3 = 0
  · have haligned : v4IsAligned4 addr = 0 := if_pos ha
    obtain ⟨w, hw⟩ := Option.isSome_iff_exists.mp (hfirst ha)
    rw [hw] at hlookup
    cases hc : callback w with
    | none =>
        refine .forbidden w hw hc fun byte => ?_
        rw [bind_ok (hlookup byte)]
        simp only [haligned, hy, hc]
        rfl
    | some z =>
        refine .handled w z hw hc fun byte => ?_
        rw [bind_ok (hlookup byte)]
        simp only [haligned, hy, hc]
        rfl
  · have haligned : v4IsAligned4 addr = Err.unaligned.code := if_neg ha
    have hbad : v4IsAligned4 addr ≠ 0 := by rw [haligned]; decide
    cases hw : m.vm.window addr with
    | some w =>
        rw [hw] at hlookup
        refine .misaligned ha Err.unaligned.code (.inl rfl) fun byte => ?_
        rw [bind_ok (hlookup byte)]
        simp only [haligned]
        rfl
    | none =>
        -- outside the windows RAM refuses it, before any byte is read
        rw [hw] at hlookup
        have hram : ∀ byte, v4IsInRam (m.withBytes byte).vm addr 4 = v4IsInRam m.vm addr 4 := by
          intro byte
          simp only [v4IsInRam, Machine.withBytes, Option.isSome_map]
        by_cases hin : v4IsInRam m.vm addr 4 = 0
        · refine .misaligned ha Err.unaligned.code (.inl rfl) fun byte => ?_
          rw [bind_ok (hlookup byte)]
          show (if v4IsInRam (m.withBytes byte).vm addr 4 ≠ 0 then _ else _ : VmM W β) _ = _
          rw [hram, if_neg (not_not.mpr hin), if_pos hbad, haligned]
          rfl
        · refine .misaligned ha Err.oobMemory.code (.inr rfl) fun byte => ?_
          rw [bind_ok (hlookup byte)]
          show (if v4IsInRam (m.withBytes byte).vm addr 4 ≠ 0 then _ else _ : VmM W β) _ = _
          rw [hram, if_pos hin, v4IsInRam_ne_zero hin]
          rfl

/-! ## The narrow accessors -/

namespace BlindToWindows

variable {β : Type}

theorem pure (a : α) : BlindToWindows (pure a : VmM W α) := fun _ _ _ => rfl

theorem bind {x : VmM W α} {f : α → VmM W β} (hx : BlindToWindows x)
    (hf : ∀ a, BlindToWindows (f a)) : BlindToWindows (x >>= f) := by
  intro m mmio mmioCount
  rw [bind_run, bind_run, hx]
  cases x m with
  | ok a m' => exact hf a m' mmio mmioCount
  | err e m' => rfl
  | fault => rfl

theorem ramByte (i : Nat) : BlindToWindows (ramByte i : VmM W Byte) := by
  intro m mmio mmioCount
  unfold V4Engine.ramByte
  have hmem : (m.withTable mmio mmioCount).vm.mem = m.vm.mem := rfl
  rw [hmem]
  cases m.vm.mem with
  | none => rfl
  | some ram =>
      simp only
      split <;> rfl

theorem setRamByte (i : Nat) (b : Byte) : BlindToWindows (setRamByte i b : VmM W Unit) := by
  intro m mmio mmioCount
  unfold V4Engine.setRamByte
  have hmem : (m.withTable mmio mmioCount).vm.mem = m.vm.mem := rfl
  rw [hmem]
  cases m.vm.mem with
  | none => rfl
  | some ram =>
      simp only
      split <;> rfl

/-- A range check followed by bytes of the RAM. -/
theorem narrow {addr : Cell} {n : Nat} {b : V4Err → α} {x : VmM W α} (hx : BlindToWindows x) :
    BlindToWindows (do
      let vm ← getVm
      if v4IsInRam vm addr n ≠ 0 then return b (v4IsInRam vm addr n) else x) := by
  intro m mmio mmioCount
  show (if v4IsInRam m.vm addr n ≠ 0 then _ else _ : VmM W α) (m.withTable mmio mmioCount)
    = match (if v4IsInRam m.vm addr n ≠ 0 then _ else _ : VmM W α) m with
      | .ok a m' => _ | .err e m' => _ | .fault => _
  split
  · rfl
  · exact hx m mmio mmioCount

end BlindToWindows

/-! ## The shield -/

/-- **MMIO windows.**  A 32-bit access that touches a registered window never reaches
    RAM, provided that the base of the window is a multiple of four, the address is not,
    or the access begins in a window; the narrower accesses do not look at the windows. -/
theorem mmio_windows_shield_ram (H : Host W) {m : Machine W} (htable : m.vm.mmioCount ≤ 16)
    (addr out val : Cell) :
    (∀ w, m.vm.Registered w → w.Touches addr 4 →
      (4 ∣ w.base.toNat ∨ addr &&& 3 ≠ 0 ∨ (m.vm.window addr).isSome) →
      Shielded m addr (fun e => (e, out))
          (fun w => w.read32.map fun f => callRead32 H f w.user addr out)
          (v4MemRead32Core H addr out) ∧
        Shielded m addr id (fun w => w.write32.map fun f => callWrite32 H f w.user addr val)
          (v4MemWrite32Core H addr val)) ∧
    BlindToWindows (v4MemRead8Core addr out : VmM W _) ∧
    BlindToWindows (v4MemRead16Core addr out : VmM W _) ∧
    BlindToWindows (v4MemWrite8Core addr val : VmM W _) ∧
    BlindToWindows (v4MemWrite16Core addr val : VmM W _) := by
  refine ⟨fun w hreg htouch hbase => ?_, ?_, ?_, ?_, ?_⟩
  · have hfirst : addr &&& 3 = 0 → (m.vm.window addr).isSome := by
      intro ha
      obtain hbase | hmisaligned | hwindow := hbase
      · exact window_isSome hreg (covers_of_touches htouch hbase ha)
      · exact absurd ha hmisaligned
      · exact hwindow
    constructor
    · exact access32_shielded htable hfirst fun w => by cases w.read32 <;> rfl
    · exact access32_shielded htable hfirst fun w => by cases w.write32 <;> rfl
  · exact .narrow (b := fun e => (e, out)) (.bind (.ramByte addr.toNat) fun v => .pure _)
  · refine .narrow (b := fun e => (e, out)) (.bind ?_ fun v => .pure _)
    exact .bind (.ramByte addr.toNat) fun _ => .bind (.ramByte (addr.toNat + 1)) fun _ => .pure _
  · exact .narrow (b := id) (.bind (.setRamByte addr.toNat _) fun _ => .pure _)
  · refine .narrow (b := id) (.bind ?_ fun _ => .pure _)
    exact .bind (.setRamByte addr.toNat _) fun _ => .setRamByte (addr.toNat + 1) _

/-- Four bytes of RAM under a window without callbacks. -/
def shieldedMachine : Machine Unit :=
  .boot { Vm.blank with
    mem := some ⟨4, fun _ => 7⟩
    memSize := 4
    mmio := fun _ => ⟨0, 4, none, none, 0⟩
    mmioCount := 1 }

/-- A 32-bit read of it is refused. -/
theorem shieldedMachine_read32 :
    Shielded shieldedMachine 0 (fun e => (e, 0))
      (fun w => w.read32.map fun f => callRead32 Host.silent f w.user 0 0)
      (v4MemRead32Core Host.silent 0 0) :=
  ((mmio_windows_shield_ram Host.silent (by decide) 0 0 0).1 _ ⟨0, by decide, rfl⟩
    ⟨0, by decide, by decide⟩ (.inl (by decide))).1

/-- An 8-bit read of it reads the RAM. -/
theorem shieldedMachine_read8 :
    shieldedMachine.vm.Registered ⟨0, 4, none, none, 0⟩ ∧
      V4Mmio.Touches ⟨0, 4, none, none, 0⟩ 0 1 ∧
      v4MemRead8Core 0 0 shieldedMachine = .ok (0, 7) shieldedMachine ∧
      v4MemRead8Core 0 0 (shieldedMachine.withBytes fun _ => 8)
        = .ok (0, 8) (shieldedMachine.withBytes fun _ => 8) :=
  ⟨⟨0, by decide, rfl⟩, ⟨0, by decide, by decide⟩, rfl, rfl⟩

end V4Engine
