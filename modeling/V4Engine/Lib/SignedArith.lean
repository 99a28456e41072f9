/-
  V4Engine.Lib.SignedArith

  Arithmetic on signed `w`-bit integers as C++17 defines it.

  An expression has a value when the type can represent the exact result, and is
  undefined (`none`) otherwise.  Where there is a value it is the two's complement
  one of `BitVec` (`…_eq_some`); `…_isSome_iff` says on which operands there is.
-/
import Mathlib.Algebra.Ring.Int.Defs
import Mathlib.Algebra.Ring.Nat

namespace V4Engine.Lib

variable {w : Nat}

/-- `x` is a value of the signed `w`-bit type. -/
def Fits (w : Nat) (x : Int) : Prop := -2 ^ (w - 1) ≤ x ∧ x < 2 ^ (w - 1)

instance (x : Int) : Decidable (Fits w x) := inferInstanceAs (Decidable (_ ∧ _))

/-- The value of an expression with exact result `x`. -/
def checked (w : Nat) (x : Int) : Option (BitVec w) :=
  if Fits w x then some (BitVec.ofInt w x) else none

/-- `a + b` -/
def signedAdd (a b : BitVec w) : Option (BitVec w) := checked w (a.toInt + b.toInt)

/-- `a - b` -/
def signedSub (a b : BitVec w) : Option (BitVec w) := checked w (a.toInt - b.toInt)

/-- `a * b` -/
def signedMul (a b : BitVec w) : Option (BitVec w) := checked w (a.toInt * b.toInt)

/-- `a / b` -/
def signedDiv (a b : BitVec w) : Option (BitVec w) :=
  if b = 0 then none else checked w (a.toInt.tdiv b.toInt)

/-- `a % b`, defined where `a / b` is. -/
def signedRem (a b : BitVec w) : Option (BitVec w) :=
  if b = 0 ∨ ¬ Fits w (a.toInt.tdiv b.toInt) then none
  else some (BitVec.ofInt w (a.toInt.tmod b.toInt))

/-- `a << s`: `a` is not negative and the unsigned type represents the product. -/
def signedShl (a : BitVec w) (s : Nat) : Option (BitVec w) :=
  if s < w ∧ 0 ≤ a.toInt ∧ a.toInt * 2 ^ s < 2 ^ w then some (BitVec.ofInt w (a.toInt * 2 ^ s))
  else none

/-- `a >> s`, which rounds down. -/
def signedShr (a : BitVec w) (s : Nat) : Option (BitVec w) :=
  if s < w then some (BitVec.ofInt w (a.toInt / 2 ^ s)) else none

/-! ## The values -/

theorem checked_eq_some {x : Int} {v : BitVec w} (h : checked w x = some v) :
    v = BitVec.ofInt w x := by
  unfold checked at h
  split at h <;> cases h
  rfl

theorem signedAdd_eq_some {a b v : BitVec w} (h : signedAdd a b = some v) : v = a + b := by
  rw [checked_eq_some h, BitVec.ofInt_add, BitVec.ofInt_toInt, BitVec.ofInt_toInt]

theorem signedSub_eq_some {a b v : BitVec w} (h : signedSub a b = some v) : v = a - b := by
  rw [checked_eq_some h]
  apply BitVec.eq_of_toInt_eq
  rw [BitVec.toInt_ofInt, BitVec.toInt_sub]

theorem signedMul_eq_some {a b v : BitVec w} (h : signedMul a b = some v) : v = a * b := by
  rw [checked_eq_some h, BitVec.ofInt_mul, BitVec.ofInt_toInt, BitVec.ofInt_toInt]

theorem signedDiv_eq_some {a b v : BitVec w} (h : signedDiv a b = some v) : v = a.sdiv b := by
  unfold signedDiv at h
  split at h
  · cases h
  · rw [checked_eq_some h]
    apply BitVec.eq_of_toInt_eq
    rw [BitVec.toInt_ofInt, BitVec.toInt_sdiv]

theorem signedRem_eq_some {a b v : BitVec w} (h : signedRem a b = some v) : v = a.srem b := by
  unfold signedRem at h
  split at h <;> cases h
  rw [← BitVec.toInt_srem, BitVec.ofInt_toInt]

theorem signedShl_eq_some {a v : BitVec w} {s : Nat} (h : signedShl a s = some v) :
    v = a <<< s := by
  unfold signedShl at h
  split at h
  · next hc =>
      cases h
      have hnat : a.toInt = a.toNat := by
        have := hc.2.1
        rw [BitVec.toInt_eq_toNat_cond] at this ⊢
        split at this <;> omega
      apply BitVec.eq_of_toInt_eq
      rw [BitVec.toInt_ofInt, BitVec.toInt_shiftLeft, hnat, Nat.shiftLeft_eq]
      push_cast
      rfl
  · cases h

theorem signedShr_eq_some {a v : BitVec w} {s : Nat} (h : signedShr a s = some v) :
    v = a.sshiftRight s := by
  unfold signedShr at h
  split at h <;> cases h
  have hshift : a.toInt / 2 ^ s = (a.sshiftRight s).toInt := by
    rw [BitVec.toInt_sshiftRight, Int.shiftRight_eq_div_pow]
    rfl
  rw [hshift, BitVec.ofInt_toInt]

/-! ## The operands -/

theorem checked_isSome_iff {x : Int} : (checked w x).isSome ↔ Fits w x := by
  unfold checked
  split <;> simp_all

theorem fits_toInt (a : BitVec w) : Fits w a.toInt := ⟨a.le_toInt, a.toInt_lt⟩

/-- Two operands of the same sign have a sum of that sign. -/
theorem signedAdd_isSome_iff {a b : BitVec w} :
    (signedAdd a b).isSome ↔ (a.msb = b.msb → (a + b).msb = a.msb) := by
  have hover : Fits w (a.toInt + b.toInt) ↔ a.saddOverflow b = false := by
    simp only [Fits, BitVec.saddOverflow, Bool.or_eq_false_iff, decide_eq_false_iff_not]
    omega
  rw [signedAdd, checked_isSome_iff, hover, BitVec.saddOverflow_eq]
  simp

/-- `a + 1` -/
theorem signedAdd_one_isSome_iff (hw : 1 < w) {a : BitVec w} :
    (signedAdd a 1).isSome ↔ a ≠ BitVec.intMax w := by
  have hone : (1 : BitVec w).toInt = 1 := BitVec.toInt_one hw
  have hlo := a.le_toInt
  have hhi := a.toInt_lt
  rw [signedAdd, checked_isSome_iff, hone, Fits, ne_eq, ← BitVec.toInt_inj, BitVec.toInt_intMax]
  omega

/-- Two operands of different signs have a difference with the sign of the first. -/
theorem signedSub_isSome_iff {a b : BitVec w} :
    (signedSub a b).isSome ↔ (a.msb ≠ b.msb → (a - b).msb = a.msb) := by
  have hover : Fits w (a.toInt - b.toInt) ↔ a.ssubOverflow b = false := by
    simp only [Fits, BitVec.ssubOverflow, Bool.or_eq_false_iff, decide_eq_false_iff_not]
    omega
  rw [signedSub, checked_isSome_iff, hover, BitVec.ssubOverflow_eq]
  cases a.msb <;> cases b.msb <;> cases (a - b).msb <;> decide

/-- `a - 1` -/
theorem signedSub_one_isSome_iff (hw : 1 < w) {a : BitVec w} :
    (signedSub a 1).isSome ↔ a ≠ BitVec.intMin w := by
  have hone : (1 : BitVec w).toInt = 1 := BitVec.toInt_one hw
  have hlo := a.le_toInt
  have hhi := a.toInt_lt
  rw [signedSub, checked_isSome_iff, hone, Fits, ne_eq, ← BitVec.toInt_inj,
    BitVec.toInt_intMin_of_pos (Nat.zero_lt_of_lt hw)]
  omega

/-- The magnitudes multiply to less than `2 ^ (w - 1)`, or to just that with
    different signs. -/
theorem signedMul_isSome_iff {a b : BitVec w} :
    (signedMul a b).isSome ↔ a.toInt.natAbs * b.toInt.natAbs < 2 ^ (w - 1) ∨
      a.toInt.natAbs * b.toInt.natAbs = 2 ^ (w - 1) ∧ a.toInt * b.toInt < 0 := by
  rw [signedMul, checked_isSome_iff, ← Int.natAbs_mul, Fits]
  have hpow : ((2 ^ (w - 1) : Nat) : Int) = 2 ^ (w - 1) := by push_cast; rfl
  rw [← hpow]
  omega

/-- The quotient of two values overflows for one pair of operands only. -/
theorem fits_tdiv_iff (hw : 0 < w) {a b : BitVec w} :
    Fits w (a.toInt.tdiv b.toInt) ↔ ¬ (a = BitVec.intMin w ∧ b = -1) := by
  constructor
  · rintro ⟨-, hlt⟩ ⟨rfl, rfl⟩
    have hone : (-1 : BitVec w).toInt = -1 := by
      show (-1#w).toInt = -1
      rw [BitVec.neg_one_eq_allOnes, BitVec.toInt_allOnes, if_pos hw]
    rw [hone, Int.tdiv_neg, Int.tdiv_one, BitVec.toInt_intMin_of_pos hw] at hlt
    omega
  · intro h
    rw [← BitVec.toInt_sdiv_of_ne_or_ne a b (not_and_or.mp h)]
    exact fits_toInt _

theorem signedDiv_isSome_iff (hw : 0 < w) {a b : BitVec w} :
    (signedDiv a b).isSome ↔ b ≠ 0 ∧ ¬ (a = BitVec.intMin w ∧ b = -1) := by
  unfold signedDiv
  by_cases hb : b = 0
  · simp [hb]
  · rw [if_neg hb, checked_isSome_iff, fits_tdiv_iff hw]
    exact (and_iff_right hb).symm

theorem signedRem_isSome_iff (hw : 0 < w) {a b : BitVec w} :
    (signedRem a b).isSome ↔ b ≠ 0 ∧ ¬ (a = BitVec.intMin w ∧ b = -1) := by
  rw [← fits_tdiv_iff hw, signedRem]
  by_cases hb : b = 0
  · simp [hb]
  · by_cases hfits : Fits w (a.toInt.tdiv b.toInt)
    · rw [if_neg (not_or.mpr ⟨hb, not_not.mpr hfits⟩)]
      exact ⟨fun _ => ⟨hb, hfits⟩, fun _ => rfl⟩
    · rw [if_pos (.inr hfits)]
      exact ⟨nofun, fun h => absurd h.2 hfits⟩

/-- A value that is not negative, and the product fits the unsigned type. -/
theorem signedShl_isSome_iff {a : BitVec w} {s : Nat} :
    (signedShl a s).isSome ↔ s < w ∧ a.msb = false ∧ a.toNat * 2 ^ s < 2 ^ w := by
  have hsome : (signedShl a s).isSome ↔
      s < w ∧ 0 ≤ a.toInt ∧ a.toInt * 2 ^ s < 2 ^ w := by
    unfold signedShl
    split <;> simp_all
  rw [hsome]
  -- The sign decides: a negative value has no left shift.
  cases hmsb : a.msb with
  | true =>
      have hneg : a.toInt < 0 := by
        have := BitVec.msb_eq_toInt (x := a)
        simp_all
      constructor
      · rintro ⟨-, hnonneg, -⟩
        omega
      · rintro ⟨-, hfalse, -⟩
        cases hfalse
  | false =>
      rw [BitVec.toInt_eq_toNat_of_msb hmsb]
      have hcast : ((a.toNat : Int) * 2 ^ s < 2 ^ w) ↔ a.toNat * 2 ^ s < 2 ^ w := by
        exact_mod_cast Iff.rfl
      rw [hcast]
      simp

theorem signedShr_isSome_iff {a : BitVec w} {s : Nat} : (signedShr a s).isSome ↔ s < w := by
  unfold signedShr
  split <;> simp_all

end V4Engine.Lib
