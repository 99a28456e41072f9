/-
  V4Engine.Lib.Align

  Rounding up to a power of two, as it is done with masks on machine words.

  `(x + a - 1) & ~(a - 1)` is the least multiple of `a` at or above `x`, modulo
  the word size.
-/
import Mathlib.Algebra.Ring.Nat

namespace V4Engine.Lib

/-- The least multiple of `k` at or above `n`. -/
def roundUp (n k : Nat) : Nat := (n + k - 1) / k * k

@[simp] theorem roundUp_one (n : Nat) : roundUp n 1 = n := by simp [roundUp]

@[simp] theorem roundUp_zero (k : Nat) : roundUp 0 k = 0 := by
  cases k with
  | zero => rfl
  | succ k => simp [roundUp, Nat.div_eq_of_lt]

theorem le_roundUp {n k : Nat} (hk : 0 < k) : n ≤ roundUp n k := by
  have hdiv := Nat.div_add_mod (n + k - 1) k
  have hmod := Nat.mod_lt (n + k - 1) hk
  rw [Nat.mul_comm] at hdiv
  unfold roundUp
  omega

theorem dvd_roundUp (n k : Nat) : k ∣ roundUp n k := Nat.dvd_mul_left k _

/-- Rounding up stays at or below every multiple above. -/
theorem roundUp_le {n k m : Nat} (hk : 0 < k) (hdvd : k ∣ m) (hle : n ≤ m) : roundUp n k ≤ m := by
  obtain ⟨c, rfl⟩ := hdvd
  have hdiv : (n + k - 1) / k ≤ c := by
    rw [Nat.div_le_iff_le_mul hk, Nat.mul_comm]
    omega
  calc roundUp n k ≤ c * k := Nat.mul_le_mul_right k hdiv
    _ = k * c := Nat.mul_comm c k

variable {w : Nat}

theorem toNat_sub_one {a : BitVec w} (ha : a ≠ 0) : (a - 1).toNat = a.toNat - 1 := by
  have hpos : a.toNat ≠ 0 := fun h0 => ha (BitVec.eq_of_toNat_eq h0)
  have hlt := a.isLt
  cases w with
  | zero => omega
  | succ w =>
      have hone : (1 : BitVec (w + 1)) ≤ a := by
        rw [BitVec.le_def]
        show 1 % 2 ^ (w + 1) ≤ a.toNat
        exact Nat.le_trans (Nat.mod_le 1 _) (by omega)
      rw [BitVec.toNat_sub_of_le hone]
      show a.toNat - 1 % 2 ^ (w + 1) = a.toNat - 1
      rw [Nat.mod_eq_of_lt (Nat.one_lt_two_pow (Nat.succ_ne_zero w))]

/-- The test `a != 0 && (a & (a - 1)) == 0`. -/
theorem isPowerOfTwo_of_and_sub_one {a : BitVec w} (ha : a ≠ 0) (h : a &&& (a - 1) = 0) :
    a.toNat.isPowerOfTwo := by
  have hpos : a.toNat ≠ 0 := fun h0 => ha (BitVec.eq_of_toNat_eq h0)
  rw [← Nat.and_sub_one_eq_zero_iff_isPowerOfTwo hpos, ← toNat_sub_one ha, ← BitVec.toNat_and, h]
  rfl

/-- Clearing the low bits rounds down. -/
theorem toNat_and_not_sub_one {a : BitVec w} (ha : a ≠ 0) (h : a &&& (a - 1) = 0)
    (x : BitVec w) : (x &&& ~~~(a - 1)).toNat = x.toNat / a.toNat * a.toNat := by
  obtain ⟨k, hk⟩ := isPowerOfTwo_of_and_sub_one ha h
  -- The two halves of `x` have no bit in common and add up to it.
  have hdisjoint : (x &&& ~~~(a - 1)) &&& (x &&& (a - 1)) = 0 := by
    ext i hi
    simp only [BitVec.getElem_and, BitVec.getElem_not]
    cases (a - 1)[i] <;> simp
  have hunion : (x &&& ~~~(a - 1)) ||| (x &&& (a - 1)) = x := by
    ext i hi
    simp only [BitVec.getElem_or, BitVec.getElem_and, BitVec.getElem_not]
    cases (a - 1)[i] <;> simp
  have hsum := BitVec.toNat_add_of_and_eq_zero hdisjoint
  rw [BitVec.add_eq_or_of_and_eq_zero _ _ hdisjoint, hunion] at hsum
  have hlow : (x &&& (a - 1)).toNat = x.toNat % a.toNat := by
    rw [BitVec.toNat_and, toNat_sub_one ha, hk, Nat.and_two_pow_sub_one_eq_mod]
  have hdiv := Nat.div_add_mod x.toNat a.toNat
  rw [Nat.mul_comm] at hdiv
  omega

/-- A power of two that fits a word divides the word size. -/
theorem dvd_two_pow_of_and_sub_one {a : BitVec w} (ha : a ≠ 0) (h : a &&& (a - 1) = 0) :
    a.toNat ∣ 2 ^ w := by
  obtain ⟨k, hk⟩ := isPowerOfTwo_of_and_sub_one ha h
  have hlt := a.isLt
  rw [hk] at hlt ⊢
  exact Nat.pow_dvd_pow 2 (Nat.le_of_lt ((Nat.pow_lt_pow_iff_right (by decide)).mp hlt))

/-- **Aligning.**  The masked sum is the rounded-up value, modulo the word size. -/
theorem toNat_alignUp {a : BitVec w} (ha : a ≠ 0) (h : a &&& (a - 1) = 0) (x : BitVec w) :
    ((x + a - 1) &&& ~~~(a - 1)).toNat = roundUp x.toNat a.toNat % 2 ^ w := by
  have hpos : a.toNat ≠ 0 := fun h0 => ha (BitVec.eq_of_toNat_eq h0)
  obtain ⟨c, hc⟩ := dvd_two_pow_of_and_sub_one ha h
  have hadd : (x + a - 1).toNat = (x.toNat + a.toNat - 1) % 2 ^ w := by
    have hassoc : x + a - 1 = x + (a - 1) := by
      rw [BitVec.sub_eq_add_neg, BitVec.sub_eq_add_neg, BitVec.add_assoc]
    rw [hassoc, BitVec.toNat_add, toNat_sub_one ha, Nat.add_sub_assoc (by omega)]
  rw [toNat_and_not_sub_one ha h, hadd, hc, Nat.mod_mul_right_div_self, roundUp,
    Nat.mul_comm a.toNat c, Nat.mul_mod_mul_right]

end V4Engine.Lib
