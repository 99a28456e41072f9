/-
  V4Engine.Lib.Ring

  Pure content of a ring buffer with `N` slots: `ringSeq N slots r n` lists the
  `n` slots from index `r` on, wrapping at `N`.

  Two writers act on it.  `Function.update` at the slot just past the window
  appends (`ringSeq_append`); anywhere else outside the window it is invisible
  (`ringSeq_update_outside`).  `shiftDown`, the in-place loop that closes a gap
  by moving every later slot one place towards the front, erases one element
  and keeps the order of the others (`ringSeq_shiftDown`).
-/
import Mathlib.Logic.Function.Basic
import Mathlib.Data.List.Basic

namespace V4Engine.Lib

variable {α : Type}

/-- The `n` slots of the ring from `r` on. -/
def ringSeq (N : Nat) (slots : Nat → α) (r n : Nat) : List α :=
  (List.range n).map fun i => slots ((r + i) % N)

/-- The copy loop `for (j = i; j < n - 1; j++) slots[(r+j)%N] = slots[(r+j+1)%N]`,
    with `k` iterations left. -/
def shiftDown (N r : Nat) : Nat → Nat → (Nat → α) → (Nat → α)
  | _, 0, slots => slots
  | j, k + 1, slots =>
      shiftDown N r (j + 1) k
        (Function.update slots ((r + j) % N) (slots ((r + j + 1) % N)))

@[simp] theorem ringSeq_length (N : Nat) (slots : Nat → α) (r n : Nat) :
    (ringSeq N slots r n).length = n := by
  simp [ringSeq]

@[simp] theorem ringSeq_zero (N : Nat) (slots : Nat → α) (r : Nat) :
    ringSeq N slots r 0 = [] := rfl

theorem ringSeq_getElem (N : Nat) (slots : Nat → α) (r n i : Nat)
    (h : i < (ringSeq N slots r n).length) :
    (ringSeq N slots r n)[i] = slots ((r + i) % N) := by
  simp [ringSeq]

theorem ringSeq_succ (N : Nat) (slots : Nat → α) (r n : Nat) :
    ringSeq N slots r (n + 1) = ringSeq N slots r n ++ [slots ((r + n) % N)] := by
  simp [ringSeq, List.range_succ]

/-- Two offsets less than one revolution apart fall on different slots. -/
theorem ring_slot_ne {N r i j : Nat} (hij : i < j) (hj : j < i + N) :
    (r + i) % N ≠ (r + j) % N := by
  intro h
  have hN : 0 < N := by omega
  have hd : (r + j) - (r + i) = j - i := by omega
  have h0 : ((r + j) - (r + i)) % N = 0 := Nat.sub_mod_eq_zero_of_mod_eq h.symm
  rw [hd, Nat.mod_eq_of_lt (by omega)] at h0
  omega

/-- A window is unchanged when the slots it covers are. -/
theorem ringSeq_congr {N : Nat} {slots slots' : Nat → α} {r n : Nat}
    (h : ∀ i, i < n → slots ((r + i) % N) = slots' ((r + i) % N)) :
    ringSeq N slots r n = ringSeq N slots' r n := by
  apply List.map_congr_left
  intro i hi
  exact h i (List.mem_range.mp hi)

/-- A write to a slot outside the window leaves the window alone. -/
theorem ringSeq_update_outside {N : Nat} (slots : Nat → α) (r n k : Nat) (v : α)
    (h : ∀ i, i < n → (r + i) % N ≠ k) :
    ringSeq N (Function.update slots k v) r n = ringSeq N slots r n :=
  ringSeq_congr fun i hi => Function.update_of_ne (h i hi) v slots

/-- Writing the slot just past a window that does not fill the ring appends. -/
theorem ringSeq_append {N : Nat} (slots : Nat → α) (r n : Nat) (v : α) (h : n < N) :
    ringSeq N (Function.update slots ((r + n) % N) v) r (n + 1)
      = ringSeq N slots r n ++ [v] := by
  rw [ringSeq_succ, Function.update_self,
    ringSeq_update_outside slots r n _ v fun i hi => ring_slot_ne hi (by omega)]

/-- Writing any slot `k` appends exactly when it is the one past the window, or
    that one already holds the value and so does slot `k` if it is in use. -/
theorem ringSeq_update_eq_append_iff {N : Nat} (slots : Nat → α) (r n k : Nat) (v : α)
    (h : n < N) :
    ringSeq N (Function.update slots k v) r (n + 1) = ringSeq N slots r n ++ [v] ↔
      k = (r + n) % N ∨
        (slots ((r + n) % N) = v ∧ ∀ i, i < n → (r + i) % N = k → slots k = v) := by
  constructor
  · intro heq
    rw [ringSeq_succ] at heq
    -- Either the new value went to the slot behind the window, or that slot held `v` already
    -- and the write left the window as it was.
    obtain ⟨hold, hlast⟩ := List.append_inj' heq rfl
    by_cases hk : k = (r + n) % N
    · exact .inl hk
    · refine .inr ⟨?_, fun i hi hik => ?_⟩
      · rw [Function.update_of_ne (Ne.symm hk)] at hlast
        exact (List.cons.inj hlast).1
      · have hslot := List.map_inj_left.mp hold i (List.mem_range.mpr hi)
        rw [hik, Function.update_self] at hslot
        exact hslot.symm
  · rintro (rfl | ⟨hlast, hold⟩)
    · exact ringSeq_append slots r n v h
    · have hwin : ∀ i, i < n →
          Function.update slots k v ((r + i) % N) = slots ((r + i) % N) := by
        intro i hi
        by_cases hk : (r + i) % N = k
        · rw [hk, Function.update_self, hold i hi hk]
        · exact Function.update_of_ne hk v slots
      have hnew : Function.update slots k v ((r + n) % N) = v := by
        by_cases hk : (r + n) % N = k
        · rw [hk, Function.update_self]
        · rw [Function.update_of_ne hk, hlast]
      rw [ringSeq_succ, hnew, ringSeq_congr hwin]

/-- The loop never touches the window before its first index. -/
theorem shiftDown_before {N r : Nat} {j k i : Nat} (slots : Nat → α)
    (hi : i < j) (hk : j + k ≤ i + N) :
    shiftDown N r j k slots ((r + i) % N) = slots ((r + i) % N) := by
  induction k generalizing j slots with
  | zero => rfl
  | succ k ih =>
      rw [shiftDown, ih _ (by omega) (by omega)]
      exact Function.update_of_ne (ring_slot_ne hi (by omega)) _ _

/-- Slot `i` of the loop's range ends up with the old content of slot `i + 1`. -/
theorem shiftDown_within {N r : Nat} {j k i : Nat} (slots : Nat → α)
    (hj : j ≤ i) (hi : i < j + k) (hk : k < N) :
    shiftDown N r j k slots ((r + i) % N) = slots ((r + i + 1) % N) := by
  induction k generalizing j slots with
  | zero => omega
  | succ k ih =>
      rw [shiftDown]
      by_cases h : i = j
      · subst h
        rw [shiftDown_before _ (by omega) (by omega), Function.update_self]
      · rw [ih _ (by omega) (by omega) (by omega)]
        apply Function.update_of_ne
        rw [Nat.add_assoc r i 1]
        exact (ring_slot_ne (by omega) (by omega)).symm

/-- **Removal.**  Closing the gap at position `i` of a window of `n` slots
    leaves exactly the other elements, in order. -/
theorem ringSeq_shiftDown {N : Nat} (slots : Nat → α) (r n i : Nat)
    (hi : i < n) (hn : n ≤ N) :
    ringSeq N (shiftDown N r i (n - 1 - i) slots) r (n - 1)
      = (ringSeq N slots r n).eraseIdx i := by
  apply List.ext_getElem
  · rw [List.length_eraseIdx_of_lt (by simpa using hi)]
    simp
  · intro m hm hm'
    have hm1 : m < n - 1 := by simpa using hm
    rw [ringSeq_getElem, List.getElem_eraseIdx]
    by_cases h : m < i
    · rw [dif_pos h, ringSeq_getElem, shiftDown_before slots h (by omega)]
    · rw [dif_neg h, ringSeq_getElem, shiftDown_within slots (by omega) (by omega) (by omega),
        Nat.add_assoc]

end V4Engine.Lib
