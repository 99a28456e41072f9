/-
  V4Engine.Vm.CodeBytes

  Code that is known byte by byte.

  `Activation.At` says that the instruction pointer stands before the given
  bytes; immediates written low byte first are then read back as their values.
-/
import V4Engine.Vm.HelperRules
import V4Engine.Lib.Bytes

namespace V4Engine

open Lib FaultM VmM

variable {W : Type} {H : Host W} {a : Activation} {m : Machine W}

/-- The 16-bit immediate `w` in the code. -/
def imm16Bytes (w : BitVec 16) : List Byte := [leByte w.toNat 0, leByte w.toNat 1]

/-- The 32-bit immediate `k` in the code. -/
def imm32Bytes (k : Cell) : List Byte :=
  [leByte k.toNat 0, leByte k.toNat 1, leByte k.toNat 2, leByte k.toNat 3]

/-- The bytes `bs` come next, all of them within the code. -/
structure Activation.At (a : Activation) (bs : List Byte) : Prop where
  fits : a.ip + bs.length ≤ a.len
  bytes : ∀ i b, bs[i]? = some b → a.bc[a.ip + i]? = some b

namespace Activation.At

/-- The rest of the code, past its first bytes. -/
theorem drop {bs cs : List Byte} (h : a.At (bs ++ cs)) :
    Activation.At { a with ip := a.ip + bs.length } cs where
  fits := by
    have hfits := h.fits
    rw [List.length_append] at hfits
    show a.ip + bs.length + cs.length ≤ a.len
    omega
  bytes i b hb := by
    have hcat : (bs ++ cs)[bs.length + i]? = some b := by
      rw [List.getElem?_append_right (Nat.le_add_right ..), Nat.add_sub_cancel_left]
      exact hb
    have hbyte := h.bytes _ b hcat
    rwa [← Nat.add_assoc] at hbyte

theorem take {bs cs : List Byte} (h : a.At (bs ++ cs)) : a.At bs where
  fits := by
    have hfits := h.fits
    rw [List.length_append] at hfits
    omega
  bytes i b hb := by
    obtain ⟨hi, -⟩ := List.getElem?_eq_some_iff.mp hb
    exact h.bytes i b (by rwa [List.getElem?_append_left hi])

theorem codeByte_run {bs : List Byte} {i : Nat} {b : Byte} (h : a.At bs) (hb : bs[i]? = some b) :
    codeByte a (a.ip + i) m = .ok b m := by
  unfold codeByte
  rw [h.bytes i b hb]
  rfl

/-- The opcode byte. -/
theorem nextOp {b : Byte} {bs : List Byte} {op : Op} (h : a.At (b :: bs))
    (hop : Op.ofByte b = some op) : a.nextOp = some op := by
  have hfits := h.fits
  rw [List.length_cons] at hfits
  exact Activation.nextOp_eq (by omega) (h.bytes 0 b rfl) hop

theorem imm8_run {b v : Byte} (h : a.At [b, v]) : imm8 H a (a.ip + 1) m = .ok v m := by
  have hfits := h.fits
  rw [List.length_cons, List.length_singleton] at hfits
  rw [imm8, if_neg (by omega)]
  exact h.codeByte_run rfl

theorem imm16_run {b : Byte} {w : BitVec 16} (e : Err) (h : a.At (b :: imm16Bytes w)) :
    imm16 H e a (a.ip + 1) m = .ok w m := by
  have hfits : a.ip + 3 ≤ a.len := h.fits
  have hvalue := toNat_join_two (w := 16) (by omega) (leByte w.toNat) 0
  have hlt : w.toNat < 256 ^ 2 := w.isLt
  rw [leNat_leByte, Nat.mod_eq_of_lt hlt] at hvalue
  rw [imm16, if_neg (by omega), readI16Le, bind_ok (h.codeByte_run rfl)]
  show (codeByte a (a.ip + 2) >>= _) m = _
  rw [bind_ok (h.codeByte_run rfl)]
  exact congrArg (Outcome.ok · m) (BitVec.eq_of_toNat_eq hvalue)

theorem imm32_run {b : Byte} {k : Cell} (h : a.At (b :: imm32Bytes k)) :
    imm32 H a (a.ip + 1) m = .ok k m := by
  have hfits : a.ip + 5 ≤ a.len := h.fits
  have hvalue := toNat_join_four (w := 32) (by omega) (leByte k.toNat) 0
  have hlt : k.toNat < 256 ^ 4 := k.isLt
  rw [leNat_leByte, Nat.mod_eq_of_lt hlt] at hvalue
  rw [imm32, if_neg (by omega), readI32Le, bind_ok (h.codeByte_run rfl)]
  show (codeByte a (a.ip + 2) >>= _) m = _
  rw [bind_ok (h.codeByte_run rfl)]
  show (codeByte a (a.ip + 3) >>= _) m = _
  rw [bind_ok (h.codeByte_run rfl)]
  show (codeByte a (a.ip + 4) >>= _) m = _
  rw [bind_ok (h.codeByte_run rfl)]
  exact congrArg (Outcome.ok · m) (BitVec.eq_of_toNat_eq hvalue)

end Activation.At

/-- A whole code buffer. -/
theorem at_whole (bs : List Byte) : Activation.At ⟨bs, bs.length, 0⟩ bs where
  fits := Nat.le_of_eq (Nat.zero_add _)
  bytes i b hb := by rwa [Nat.zero_add]

theorem ofByte_opcode (op : Op) : Op.ofByte (BitVec.ofNat 8 op.opcode) = some op := by
  cases op <;> decide

end V4Engine
