/-
  V4Engine.Lib.Live

  A stack kept in an array with a top index: `live f n` lists the first `n`
  slots, bottom first.  Slots at and past the top are dead storage.

  The lemmas say how pushes, pops, reads, in-place writes and block copies of
  the array act on the list.
-/
import Mathlib.Logic.Function.Basic
import Mathlib.Data.List.Basic
import Mathlib.Data.List.GetD

namespace V4Engine.Lib

variable {α : Type}

/-- The live part of an array used as a stack of depth `n`. -/
def live (f : Nat → α) (n : Nat) : List α := (List.range n).map f

/-- The array after `memcpy(dst, src, n)`. -/
def copyInto (dst src : Nat → α) (n : Nat) : Nat → α :=
  fun i => if i < n then src i else dst i

@[simp] theorem live_length (f : Nat → α) (n : Nat) : (live f n).length = n := by
  simp [live]

@[simp] theorem live_getElem (f : Nat → α) (n i : Nat) (h : i < (live f n).length) :
    (live f n)[i] = f i := by
  simp [live]

@[simp] theorem live_zero (f : Nat → α) : live f 0 = [] := rfl

/-- Two stacks are equal exactly when their depths and live slots agree. -/
theorem live_eq_iff {f g : Nat → α} {n m : Nat} :
    live f n = live g m ↔ n = m ∧ ∀ i, i < n → f i = g i := by
  constructor
  · intro h
    have hlen : n = m := by simpa using congrArg List.length h
    subst hlen
    refine ⟨rfl, fun i hi => ?_⟩
    have hget : (live f n)[i]? = (live g n)[i]? := by rw [h]
    simpa [live, hi] using hget
  · rintro ⟨rfl, h⟩
    exact List.map_congr_left fun i hi => h i (List.mem_range.mp hi)

theorem live_congr {f g : Nat → α} {n : Nat} (h : ∀ i, i < n → f i = g i) :
    live f n = live g n := live_eq_iff.mpr ⟨rfl, h⟩

theorem live_take (f : Nat → α) (n k : Nat) :
    (live f n).take k = live f (min k n) := by
  rw [live, ← List.map_take, List.take_range, live]

theorem live_getD (f : Nat → α) (n k : Nat) (d : α) :
    (live f n).getD k d = if k < n then f k else d := by
  by_cases hk : k < n
  · simp [live, hk]
  · simp [live, hk]

/-- The element `k` below the top. -/
theorem live_reverse_getD (f : Nat → α) (n k : Nat) (d : α) :
    (live f n).reverse.getD k d = if k < n then f (n - 1 - k) else d := by
  by_cases hk : k < n
  · rw [if_pos hk, List.getD_eq_getElem?_getD, List.getElem?_reverse (by simpa using hk)]
    simp [live, show n - 1 - k < n by omega]
  · rw [if_neg hk, List.getD_eq_default]
    simpa using hk

/-! ## Top first -/

theorem live_succ (f : Nat → α) (n : Nat) : live f (n + 1) = live f n ++ [f n] := by
  rw [live, List.range_succ, List.map_append]
  rfl

theorem live_reverse_succ (f : Nat → α) (n : Nat) :
    (live f (n + 1)).reverse = f n :: (live f n).reverse := by
  rw [live_succ, List.reverse_append]
  rfl

/-- A push, seen from the top. -/
theorem live_reverse_push (f : Nat → α) (n : Nat) (v : α) :
    (live (Function.update f n v) (n + 1)).reverse = v :: (live f n).reverse := by
  rw [live_reverse_succ, Function.update_self]
  congr 2
  exact live_congr fun i hi => Function.update_of_ne (by omega) _ _

/-- A write to slot `k`. -/
theorem live_update (f : Nat → α) (n k : Nat) (v : α) :
    live (Function.update f k v) n = (live f n).set k v := by
  apply List.ext_getElem
  · simp
  · intro i _ hi
    rw [live_getElem, List.getElem_set]
    by_cases h : k = i
    · rw [if_pos h, h, Function.update_self]
    · rw [if_neg h, Function.update_of_ne (Ne.symm h), live_getElem]

/-! ## On top of another stack -/

/-- The stack of array `g` and depth `k` is the stack of `f` and `n` on top of `b`. -/
structure OnTop (b : List α) (f : Nat → α) (n : Nat) (g : Nat → α) (k : Nat) : Prop where
  depth : k = b.length + n
  base : ∀ i (h : i < b.length), g i = b[i]
  top : ∀ i, i < n → g (b.length + i) = f i

theorem onTop_iff {b : List α} {f g : Nat → α} {n k : Nat} :
    OnTop b f n g k ↔ live g k = b ++ live f n := by
  constructor
  · rintro ⟨rfl, hb, hf⟩
    apply List.ext_getElem
    · simp
    · intro i hi _
      rw [live_getElem]
      by_cases h : i < b.length
      · -- inside the added part
        rw [List.getElem_append_left h]
        exact hb i h
      · rw [List.getElem_append_right (by omega), live_getElem]
        have hlt : i < b.length + n := by simpa using hi
        have := hf (i - b.length) (by omega)
        rwa [show b.length + (i - b.length) = i from by omega] at this
  · intro h
    -- The two halves are read off the concatenation position by position.
    have hk : k = b.length + n := by simpa using congrArg List.length h
    refine ⟨hk, fun i hi => ?_, fun i hi => ?_⟩
    · have hget : (live g k)[i]? = (b ++ live f n)[i]? := by rw [h]
      rw [List.getElem?_append_left hi, List.getElem?_eq_getElem hi,
        List.getElem?_eq_getElem (by simp; omega), live_getElem] at hget
      exact Option.some.inj hget
    · have hget : (live g k)[b.length + i]? = (b ++ live f n)[b.length + i]? := by rw [h]
      rw [List.getElem?_append_right (by omega), Nat.add_sub_cancel_left,
        List.getElem?_eq_getElem (by simp; omega), List.getElem?_eq_getElem (by simpa using hi),
        live_getElem, live_getElem] at hget
      exact Option.some.inj hget

namespace OnTop

variable {b : List α} {f g : Nat → α} {n k : Nat} (h : OnTop b f n g k)
include h

/-- The same push on both. -/
theorem push (v : α) : OnTop b (Function.update f n v) (n + 1) (Function.update g k v) (k + 1) where
  depth := by rw [h.depth, Nat.add_assoc]
  base i hi := by
    rw [Function.update_of_ne (by have := h.depth; omega)]
    exact h.base i hi
  top i hi := by
    by_cases hn : i = n
    · rw [hn, Function.update_self, ← h.depth, Function.update_self]
    · rw [Function.update_of_ne hn, Function.update_of_ne (by have := h.depth; omega)]
      exact h.top i (by omega)

/-- The same pop on both. -/
theorem pop (hn : 0 < n) : OnTop b f (n - 1) g (k - 1) where
  depth := by have := h.depth; omega
  base := h.base
  top i hi := h.top i (by omega)

/-- The same write to corresponding slots. -/
theorem set (i : Nat) (v : α) :
    OnTop b (Function.update f i v) n (Function.update g (b.length + i) v) k where
  depth := h.depth
  base j hj := by
    rw [Function.update_of_ne (by omega)]
    exact h.base j hj
  top j hj := by
    by_cases hij : j = i
    · rw [hij, Function.update_self, Function.update_self]
    · rw [Function.update_of_ne hij, Function.update_of_ne (by omega)]
      exact h.top j hj

/-- The slot `i` below the top. -/
theorem below {i : Nat} (hi : i < n) : g (k - 1 - i) = f (n - 1 - i) := by
  have := h.top (n - 1 - i) (by omega)
  rwa [show b.length + (n - 1 - i) = k - 1 - i by have := h.depth; omega] at this

end OnTop

/-- Copying at least `n` slots makes the first `n` those of the source. -/
theorem live_copyInto (dst src : Nat → α) (n : Nat) :
    live (copyInto dst src n) n = live src n :=
  live_congr fun i hi => by simp [copyInto, hi]

end V4Engine.Lib
