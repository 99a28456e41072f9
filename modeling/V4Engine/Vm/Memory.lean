/-
  V4Engine.Vm.Memory

  `memory.cpp`: the six core accessors behind `LOAD*` / `STORE*` and
  `vm_mem_read32` / `vm_mem_write32`.

  Accessors return their `v4_err` as a value, as in the source: none of them
  reports through `vm_panic`.  Readers also return the new content of `*out`.
-/
import V4Engine.Vm.Host

namespace V4Engine

open Lib FaultM VmM

variable {W : Type}

/-! ## RAM bytes -/

/-- `vm->mem[i]`, a fault outside the buffer. -/
def ramByte (i : Nat) : VmM W Byte := fun m =>
  match m.vm.mem with
  | some ram => if i < ram.cap then .ok (ram.byte i) m else .fault
  | none => .fault

/-- `vm->mem[i] = b`, a fault outside the buffer. -/
def setRamByte (i : Nat) (b : Byte) : VmM W Unit := fun m =>
  match m.vm.mem with
  | some ram =>
      if i < ram.cap then
        .ok () { m with vm := { m.vm with
          mem := some { ram with byte := Function.update ram.byte i b } } }
      else .fault
  | none => .fault

def ldLe32 (addr : Nat) : VmM W Cell := do
  let b0 ← ramByte addr
  let b1 ← ramByte (addr + 1)
  let b2 ← ramByte (addr + 2)
  let b3 ← ramByte (addr + 3)
  return b0.setWidth 32 ||| (b1.setWidth 32 <<< 8) ||| (b2.setWidth 32 <<< 16)
    ||| (b3.setWidth 32 <<< 24)

def stLe32 (addr : Nat) (v : Cell) : VmM W Unit := do
  setRamByte addr ((v &&& 0xFF).setWidth 8)
  setRamByte (addr + 1) (((v >>> 8) &&& 0xFF).setWidth 8)
  setRamByte (addr + 2) (((v >>> 16) &&& 0xFF).setWidth 8)
  setRamByte (addr + 3) (((v >>> 24) &&& 0xFF).setWidth 8)

def ldLe16 (addr : Nat) : VmM W (BitVec 16) := do
  let b0 ← ramByte addr
  let b1 ← ramByte (addr + 1)
  return b0.setWidth 16 ||| (b1.setWidth 16 <<< 8)

def stLe16 (addr : Nat) (v : BitVec 16) : VmM W Unit := do
  setRamByte addr ((v &&& 0xFF).setWidth 8)
  setRamByte (addr + 1) (((v >>> 8) &&& 0xFF).setWidth 8)

/-! ## Checks -/

/-- `0`, or `Unaligned`. -/
def v4IsAligned4 (addr : Cell) : V4Err :=
  if addr &&& 3 = 0 then 0 else Err.unaligned.code

/-- `0`, or `OobMemory`; the sum is taken in 64 bits and cannot wrap. -/
def v4IsInRam (vm : Vm) (addr : Cell) (bytes : Nat) : V4Err :=
  if vm.mem.isSome ∧ addr.toNat + bytes ≤ vm.memSize.toNat then 0 else Err.oobMemory.code

/-- `vm->mmio[i]`, a fault outside the 16 entries. -/
def mmioAt (i : Nat) : VmM W V4Mmio := fun m =>
  if i < 16 then .ok (m.vm.mmio i) m else .fault

/-- `addr >= base && (addr - base) < size`. -/
def V4Mmio.covers (w : V4Mmio) (addr : Cell) : Bool := w.base ≤ addr ∧ addr - w.base < w.size

/-- The lookup loop from entry `i` on, with `k` entries left. -/
def findMmioFrom (addr : Cell) (i : Nat) : Nat → VmM W (Option V4Mmio)
  | 0 => return none
  | k + 1 => do
      let w ← mmioAt i
      if w.covers addr then return some w else findMmioFrom addr (i + 1) k

/-- The first window that contains `addr`. -/
def findMmio (addr : Cell) : VmM W (Option V4Mmio) := do
  let vm ← getVm
  findMmioFrom addr 0 vm.mmioCount

/-! ## Core accessors -/

/-- Call a window's read callback. -/
def callRead32 (H : Host W) (f : FnPtr) (user : HostPtr) (addr out : Cell) :
    VmM W (V4Err × Cell) := fun m =>
  let r := H.read32 f user addr out m
  .ok (r.1, r.2.1) r.2.2

/-- Call a window's write callback. -/
def callWrite32 (H : Host W) (f : FnPtr) (user : HostPtr) (addr val : Cell) :
    VmM W V4Err := fun m =>
  let r := H.write32 f user addr val m
  .ok r.1 r.2

def v4MemRead32Core (H : Host W) (addr out : Cell) : VmM W (V4Err × Cell) := do
  match ← findMmio addr with
  | some w =>
      -- In a window the alignment comes first, then the callback.
      if v4IsAligned4 addr ≠ 0 then return (v4IsAligned4 addr, out)
      else
        match w.read32 with
        | none => return (Err.oobMemory.code, out)
        | some f => callRead32 H f w.user addr out
  | none =>
      -- In RAM the bounds come first, then the alignment.
      let vm ← getVm
      if v4IsInRam vm addr 4 ≠ 0 then return (v4IsInRam vm addr 4, out)
      else if v4IsAligned4 addr ≠ 0 then return (v4IsAligned4 addr, out)
      else
        let v ← ldLe32 addr.toNat
        return (0, v)

def v4MemWrite32Core (H : Host W) (addr val : Cell) : VmM W V4Err := do
  match ← findMmio addr with
  | some w =>
      if v4IsAligned4 addr ≠ 0 then return v4IsAligned4 addr
      else
        match w.write32 with
        | none => return Err.oobMemory.code
        | some f => callWrite32 H f w.user addr val
  | none =>
      let vm ← getVm
      if v4IsInRam vm addr 4 ≠ 0 then return v4IsInRam vm addr 4
      else if v4IsAligned4 addr ≠ 0 then return v4IsAligned4 addr
      else
        stLe32 addr.toNat val
        return 0

def v4MemRead8Core (addr out : Cell) : VmM W (V4Err × Cell) := do
  let vm ← getVm
  if v4IsInRam vm addr 1 ≠ 0 then return (v4IsInRam vm addr 1, out)
  else
    let b ← ramByte addr.toNat
    return (0, b.setWidth 32)

def v4MemRead16Core (addr out : Cell) : VmM W (V4Err × Cell) := do
  let vm ← getVm
  if v4IsInRam vm addr 2 ≠ 0 then return (v4IsInRam vm addr 2, out)
  else
    let v ← ldLe16 addr.toNat
    return (0, v.setWidth 32)

def v4MemWrite8Core (addr val : Cell) : VmM W V4Err := do
  let vm ← getVm
  if v4IsInRam vm addr 1 ≠ 0 then return v4IsInRam vm addr 1
  else
    setRamByte addr.toNat ((val &&& 0xFF).setWidth 8)
    return 0

def v4MemWrite16Core (addr val : Cell) : VmM W V4Err := do
  let vm ← getVm
  if v4IsInRam vm addr 2 ≠ 0 then return v4IsInRam vm addr 2
  else
    stLe16 addr.toNat ((val &&& 0xFFFF).setWidth 16)
    return 0

end V4Engine
