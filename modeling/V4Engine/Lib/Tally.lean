/-
  V4Engine.Lib.Tally

  Counting along a run.

  `tally step gain os s` adds up what the steps of a run contribute.  A counter of
  bounded width only follows such a sum modulo its range, and some steps take from it
  what it had: `exec_balance` is the rule for a counter with a credit and a debit side.
-/
import Mathlib.Algebra.BigOperators.Group.Finset.Basic
import Mathlib.Data.Nat.ModEq
import V4Engine.Lib.Runs

namespace V4Engine.Lib

variable {σ ι : Type} {step : ι → σ → Option σ}

/-- The sum of the contributions of a run's steps, up to the first undefined one. -/
def tally (step : ι → σ → Option σ) (gain : σ → ι → Nat) : List ι → σ → Nat
  | [], _ => 0
  | o :: os, s => gain s o + (step o s).elim 0 (tally step gain os)

@[simp] theorem tally_nil (gain : σ → ι → Nat) (s : σ) : tally step gain [] s = 0 := rfl

theorem tally_cons_of_eq {gain : σ → ι → Nat} {o : ι} {s s' : σ} (h : step o s = some s')
    (os : List ι) : tally step gain (o :: os) s = gain s o + tally step gain os s' := by
  rw [tally, h]
  rfl

theorem tally_zero (os : List ι) (s : σ) : tally step (fun _ _ => 0) os s = 0 := by
  induction os generalizing s with
  | nil => rfl
  | cons o os ih =>
      rw [tally, Nat.zero_add]
      cases step o s with
      | none => rfl
      | some t => exact ih t

/-- Contributions of several kinds may be counted apart. -/
theorem tally_sum {κ : Type} (ks : Finset κ) (gain : κ → σ → ι → Nat) (os : List ι) (s : σ) :
    tally step (fun s o => ∑ k ∈ ks, gain k s o) os s = ∑ k ∈ ks, tally step (gain k) os s := by
  induction os generalizing s with
  | nil => simp
  | cons o os ih =>
      simp only [tally, Finset.sum_add_distrib]
      congr 1
      cases step o s with
      | none => simp
      | some t => simpa using ih t

/-- **Balance rule.**  When every step, in a state satisfying the invariant, moves a
    counter by its credit less its debit, the counter and the tallies of both sides
    balance after every run. -/
theorem exec_balance {I : σ → Prop} {count : σ → Nat} (credit debit : σ → ι → Nat) {n : Nat}
    (hinv : ∀ o s s', I s → step o s = some s' → I s')
    (hstep : ∀ o s s', I s → step o s = some s' →
      count s' + debit s o ≡ count s + credit s o [MOD n])
    {os : List ι} {s s' : σ} (hs : I s) (h : exec step os s = some s') :
    count s' + tally step debit os s ≡ count s + tally step credit os s [MOD n] := by
  induction os generalizing s with
  | nil =>
      cases h
      exact Nat.ModEq.refl _
  | cons o os ih =>
      obtain ⟨t, ht, hrest⟩ := exec_cons_eq_some.mp h
      have hone := hstep o s t hs ht
      have hmore := ih (hinv o s t hs ht) hrest
      rw [tally_cons_of_eq ht, tally_cons_of_eq ht]
      -- the balance of the first step, then that of the rest from where it led
      calc count s' + (debit s o + tally step debit os t)
          = count s' + tally step debit os t + debit s o := by omega
        _ ≡ count t + tally step credit os t + debit s o [MOD n] := hmore.add_right _
        _ = count t + debit s o + tally step credit os t := by omega
        _ ≡ count s + credit s o + tally step credit os t [MOD n] := hone.add_right _
        _ = count s + (credit s o + tally step credit os t) := by omega

/-- The rule for a counter from which nothing is taken. -/
theorem exec_count {I : σ → Prop} {count : σ → Nat} (credit : σ → ι → Nat) {n : Nat}
    (hinv : ∀ o s s', I s → step o s = some s' → I s')
    (hstep : ∀ o s s', I s → step o s = some s' → count s' ≡ count s + credit s o [MOD n])
    {os : List ι} {s s' : σ} (hs : I s) (h : exec step os s = some s') :
    count s' ≡ count s + tally step credit os s [MOD n] := by
  have hbal := exec_balance credit (fun _ _ => 0) hinv hstep hs h
  rwa [tally_zero, Nat.add_zero] at hbal

end V4Engine.Lib
