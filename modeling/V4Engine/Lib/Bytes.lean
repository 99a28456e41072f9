/-
  V4Engine.Lib.Bytes

  Little-endian numbers in an array of bytes.

  `leNat byte a n` is the number the `n` bytes from `a` stand for, least
  significant first; `putBytes byte a n v` is the array after the `n` low bytes
  of `v` were written there.  Bytes joined by shifts and `or`, and bytes taken out
  by shifts and masks, are the two of them for two and four bytes.
-/
import Mathlib.Logic.Function.Basic
import Mathlib.Algebra.Ring.Nat
import Mathlib.Algebra.Divisibility.Basic
import Mathlib.Algebra.BigOperators.Group.Finset.Basic

namespace V4Engine.Lib

/-- The `n` bytes from `a` on as a number. -/
def leNat (byte : Nat → BitVec 8) (a : Nat) : Nat → Nat
  | 0 => 0
  | n + 1 => leNat byte a n + (byte (a + n)).toNat * 256 ^ n

/-- Byte `k` of a number. -/
def leByte (v k : Nat) : BitVec 8 := BitVec.ofNat 8 (v / 256 ^ k)

/-- The array after the `n` low bytes of `v` were written from `a` on. -/
def putBytes (byte : Nat → BitVec 8) (a n v : Nat) : Nat → BitVec 8 :=
  fun i => if a ≤ i ∧ i < a + n then leByte v (i - a) else byte i

theorem putBytes_outside {byte : Nat → BitVec 8} {a n v i : Nat} (h : i < a ∨ a + n ≤ i) :
    putBytes byte a n v i = byte i := if_neg (by omega)

/-- An array is told by its bytes inside and outside of what was written. -/
theorem eq_putBytes {byte byte' : Nat → BitVec 8} {a n v : Nat}
    (hin : ∀ k, k < n → byte' (a + k) = leByte v k)
    (hout : ∀ i, i < a ∨ a + n ≤ i → byte' i = byte i) : byte' = putBytes byte a n v := by
  funext i
  by_cases hi : a ≤ i ∧ i < a + n
  · obtain ⟨k, rfl⟩ := Nat.exists_eq_add_of_le hi.1
    rw [hin k (by omega), putBytes, if_pos hi, Nat.add_sub_cancel_left]
  · rw [hout i (by omega), putBytes_outside (by omega)]

theorem leNat_lt (byte : Nat → BitVec 8) (a n : Nat) : leNat byte a n < 256 ^ n := by
  induction n with
  | zero => simp [leNat]
  | succ n ih =>
      have hbyte := (byte (a + n)).isLt
      have hmul : (byte (a + n)).toNat * 256 ^ n ≤ 255 * 256 ^ n :=
        Nat.mul_le_mul_right _ (by omega)
      rw [leNat, Nat.pow_succ]
      omega

theorem leNat_eq_sum (byte : Nat → BitVec 8) (a n : Nat) :
    leNat byte a n = ∑ k ∈ Finset.range n, (byte (a + k)).toNat * 256 ^ k := by
  induction n with
  | zero => rfl
  | succ n ih => rw [leNat, ih, Finset.sum_range_succ]

/-- The bytes of a number make up the number. -/
theorem leNat_leByte (v n : Nat) : leNat (leByte v) 0 n = v % 256 ^ n := by
  induction n with
  | zero => rw [leNat, Nat.pow_zero, Nat.mod_one]
  | succ n ih =>
      rw [leNat, ih, Nat.mod_pow_succ, Nat.zero_add, leByte, BitVec.toNat_ofNat, Nat.mul_comm]

/-- Only the low bytes count. -/
theorem leByte_mod {v k n : Nat} (hk : k < n) : leByte (v % 256 ^ n) k = leByte v k := by
  apply BitVec.eq_of_toNat_eq
  have hpow : 256 ^ n = 256 ^ k * 256 ^ (n - k) := by
    rw [← Nat.pow_add]
    congr 1
    omega
  have hdvd : 256 ∣ 256 ^ (n - k) := dvd_pow_self 256 (by omega)
  rw [leByte, leByte, BitVec.toNat_ofNat, BitVec.toNat_ofNat, hpow, Nat.mod_mul_right_div_self]
  exact Nat.mod_mod_of_dvd _ hdvd

theorem putBytes_mod (byte : Nat → BitVec 8) (a n v : Nat) :
    putBytes byte a n (v % 256 ^ n) = putBytes byte a n v := by
  funext i
  by_cases h : a ≤ i ∧ i < a + n
  · rw [putBytes, putBytes, if_pos h, if_pos h, leByte_mod (by omega)]
  · rw [putBytes, putBytes, if_neg h, if_neg h]

/-! ## Byte by byte -/

theorem putBytes_one (byte : Nat → BitVec 8) (a v : Nat) :
    Function.update byte a (leByte v 0) = putBytes byte a 1 v := by
  funext i
  by_cases hi : i = a
  · subst hi
    rw [Function.update_self, putBytes, if_pos (by omega), Nat.sub_self]
  · rw [Function.update_of_ne hi, putBytes_outside (by omega)]

/-- One more byte. -/
theorem putBytes_succ (byte : Nat → BitVec 8) (a n v : Nat) :
    Function.update (putBytes byte a n v) (a + n) (leByte v n) = putBytes byte a (n + 1) v := by
  funext i
  by_cases hi : i = a + n
  · subst hi
    rw [Function.update_self, putBytes, if_pos (by omega), Nat.add_sub_cancel_left]
  · rw [Function.update_of_ne hi]
    by_cases hin : a ≤ i ∧ i < a + n
    · rw [putBytes, putBytes, if_pos hin, if_pos (by omega)]
    · rw [putBytes_outside (by omega), putBytes_outside (by omega)]

/-- A mask behind a shift takes out one byte. -/
theorem setWidth_shift_mask {w : Nat} (hw : 8 ≤ w) (v : BitVec w) (k : Nat) :
    ((v >>> (8 * k)) &&& 0xFF).setWidth 8 = leByte v.toNat k := by
  have hpow : (2 : Nat) ^ 8 ≤ 2 ^ w := Nat.pow_le_pow_right (by omega) hw
  have hmask : ((0xFF : BitVec w)).toNat = 2 ^ 8 - 1 := by
    show (BitVec.ofNat w 255).toNat = _
    rw [BitVec.toNat_ofNat, Nat.mod_eq_of_lt (by omega)]
    rfl
  apply BitVec.eq_of_toNat_eq
  rw [BitVec.toNat_setWidth, BitVec.toNat_and, BitVec.toNat_ushiftRight, hmask,
    Nat.and_two_pow_sub_one_eq_mod, Nat.mod_mod, leByte, BitVec.toNat_ofNat,
    Nat.shiftRight_eq_div_pow, Nat.pow_mul]

/-- An `or` with a value shifted past the other one is a sum. -/
theorem toNat_or_shiftLeft {w k : Nat} (x : BitVec w) (b : BitVec 8) (hx : x.toNat < 2 ^ k)
    (hk : k + 8 ≤ w) :
    (x ||| (b.setWidth w <<< k)).toNat = x.toNat + b.toNat * 2 ^ k := by
  have hb := b.isLt
  have hpow : (2 : Nat) ^ (k + 8) ≤ 2 ^ w := Nat.pow_le_pow_right (by omega) hk
  have hmul : b.toNat * 2 ^ k < 2 ^ (k + 8) := by
    rw [Nat.pow_add, Nat.mul_comm]
    exact Nat.mul_lt_mul_of_pos_left hb (Nat.two_pow_pos k)
  have hb8 : (2 : Nat) ^ 8 ≤ 2 ^ w := Nat.pow_le_pow_right (by omega) (by omega)
  rw [BitVec.toNat_or, BitVec.toNat_shiftLeft, BitVec.toNat_setWidth,
    Nat.mod_eq_of_lt (Nat.lt_of_lt_of_le hb hb8), Nat.shiftLeft_eq,
    Nat.mod_eq_of_lt (Nat.lt_of_lt_of_le hmul hpow), ← Nat.shiftLeft_eq, Nat.or_comm,
    ← Nat.shiftLeft_add_eq_or_of_lt hx, Nat.shiftLeft_eq, Nat.add_comm]

/-- Two bytes joined. -/
theorem toNat_join_two {w : Nat} (hw : 16 ≤ w) (byte : Nat → BitVec 8) (a : Nat) :
    ((byte a).setWidth w ||| ((byte (a + 1)).setWidth w <<< 8)).toNat = leNat byte a 2 := by
  have h0 := (byte a).isLt
  have hpow : (2 : Nat) ^ 8 ≤ 2 ^ w := Nat.pow_le_pow_right (by omega) (by omega)
  have hfirst : ((byte a).setWidth w).toNat = (byte a).toNat := by
    rw [BitVec.toNat_setWidth, Nat.mod_eq_of_lt (by omega)]
  rw [toNat_or_shiftLeft _ _ (by omega) (by omega), hfirst]
  simp [leNat]

/-- Four bytes joined. -/
theorem toNat_join_four {w : Nat} (hw : 32 ≤ w) (byte : Nat → BitVec 8) (a : Nat) :
    ((byte a).setWidth w ||| ((byte (a + 1)).setWidth w <<< 8)
      ||| ((byte (a + 2)).setWidth w <<< 16) ||| ((byte (a + 3)).setWidth w <<< 24)).toNat
      = leNat byte a 4 := by
  have h2 := toNat_join_two (w := w) (by omega) byte a
  have hlt2 := leNat_lt byte a 2
  have h3 := toNat_or_shiftLeft ((byte a).setWidth w ||| ((byte (a + 1)).setWidth w <<< 8))
    (byte (a + 2)) (k := 16) (by rw [h2]; exact hlt2) (by omega)
  have hlt3 := leNat_lt byte a 3
  have hsum3 : leNat byte a 3 = leNat byte a 2 + (byte (a + 2)).toNat * 2 ^ 16 := rfl
  rw [toNat_or_shiftLeft _ _ (by rw [h3, h2, ← hsum3]; exact hlt3) (by omega), h3, h2, ← hsum3]
  rfl

end V4Engine.Lib
