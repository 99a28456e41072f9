/-
  V4Engine.Lib.Elapsed

  A clock read modulo `2^w`.

  `elapsed k` is the true time at the `k`-th reading, counted from a start.  A
  test against a limit `T` sees the difference of two wrapped readings.  When no
  reading is more than `2^w - T` after the one before it, that difference cannot
  jump over the values from `T` on: the wrapped test first succeeds at the first
  reading whose true time is at least `T`.
-/
import Mathlib.Algebra.Ring.Nat
import Mathlib.Data.Nat.Find

namespace V4Engine.Lib

/-- No reading is more than `gap` later than the one before it, the first one later than
    the start. -/
structure Steady (gap : Nat) (elapsed : Nat → Nat) : Prop where
  first : elapsed 0 ≤ gap
  step : ∀ k, elapsed (k + 1) ≤ elapsed k + gap

/-- Reading `K` is the first one at or past `limit`. -/
def FirstAt (elapsed : Nat → Nat) (limit K : Nat) : Prop :=
  limit ≤ elapsed K ∧ ∀ j, j < K → elapsed j < limit

theorem FirstAt.exists_of_reached {elapsed : Nat → Nat} {limit : Nat}
    (h : ∃ k, limit ≤ elapsed k) : ∃ K, FirstAt elapsed limit K := by
  refine ⟨Nat.find h, Nat.find_spec h, fun j hj => ?_⟩
  have := Nat.find_min h hj
  omega

/-- The first reading past the limit is less than one revolution away. -/
theorem FirstAt.lt {elapsed : Nat → Nat} {limit gap K : Nat} (hK : FirstAt elapsed limit K)
    (h : Steady gap elapsed) (hpos : 0 < limit) : elapsed K < limit + gap := by
  cases K with
  | zero =>
      have := h.first
      omega
  | succ k =>
      have hbefore := hK.2 k (by omega)
      have := h.step k
      omega

/-- The difference of two wrapped readings is the true time modulo `2^w`. -/
theorem toNat_sub_reading {w : Nat} (start : BitVec w) (n : Nat) :
    (start + BitVec.ofNat w n - start).toNat = n % 2 ^ w := by
  rw [BitVec.add_comm, BitVec.add_sub_cancel, BitVec.toNat_ofNat]

/-- **The wrapped test.**  Up to and including the first reading past the limit it
    answers like the true one. -/
theorem FirstAt.wrapped_iff {w : Nat} {limit start : BitVec w} {elapsed : Nat → Nat} {K : Nat}
    (hK : FirstAt elapsed limit.toNat K) (h : Steady (2 ^ w - limit.toNat) elapsed)
    (hpos : 0 < limit.toNat) {j : Nat} (hj : j ≤ K) :
    limit ≤ start + BitVec.ofNat w (elapsed j) - start ↔ j = K := by
  have hlimit := limit.isLt
  rw [BitVec.le_def, toNat_sub_reading]
  by_cases hjK : j = K
  · subst hjK
    have hlt := hK.lt h hpos
    have hge := hK.1
    rw [Nat.mod_eq_of_lt (by omega)]
    omega
  · have hlt := hK.2 j (by omega)
    rw [Nat.mod_eq_of_lt (by omega)]
    omega

end V4Engine.Lib
