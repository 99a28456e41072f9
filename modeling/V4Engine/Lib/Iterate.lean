/-
  V4Engine.Lib.Iterate

  A machine with a partial step function, run for a given number of steps.

  `iterate f n` is defined as long as the machine goes on.  A machine has one
  run only, so a state that is reached at all is reached after a number of steps,
  and nothing is reached past a final state.  A measure that every step lowers
  bounds the length of the run (`haltsWithin_of_decreases`).  `guarded P f` is the
  machine that stops where `P` does not hold.
-/
import Mathlib.Logic.Relation

namespace V4Engine.Lib

variable {σ : Type} {f : σ → Option σ}

/-- The state after `n` steps. -/
def iterate (f : σ → Option σ) : Nat → σ → Option σ
  | 0, s => some s
  | n + 1, s => (f s).bind (iterate f n)

theorem iterate_succ_eq_some {n : Nat} {s u : σ} :
    iterate f (n + 1) s = some u ↔ ∃ t, f s = some t ∧ iterate f n t = some u :=
  Option.bind_eq_some_iff

theorem iterate_add_eq_some {n k : Nat} {s u : σ} :
    iterate f (n + k) s = some u ↔ ∃ t, iterate f n s = some t ∧ iterate f k t = some u := by
  induction n generalizing s with
  | zero =>
      rw [Nat.zero_add]
      exact ⟨fun h => ⟨s, rfl, h⟩, fun ⟨t, ht, h⟩ => Option.some.inj ht ▸ h⟩
  | succ n ih =>
      rw [Nat.succ_add_eq_add_succ, Nat.add_succ, iterate_succ_eq_some]
      constructor
      · rintro ⟨r, hr, h⟩
        obtain ⟨t, ht, hu⟩ := ih.mp h
        exact ⟨t, iterate_succ_eq_some.mpr ⟨r, hr, ht⟩, hu⟩
      · rintro ⟨t, ht, hu⟩
        obtain ⟨r, hr, h⟩ := iterate_succ_eq_some.mp ht
        exact ⟨r, hr, ih.mpr ⟨t, h, hu⟩⟩

/-- Being reached and being reached after some number of steps are the same. -/
theorem reaches_iff_iterate {s u : σ} :
    Relation.ReflTransGen (fun s t => f s = some t) s u ↔ ∃ n, iterate f n s = some u := by
  constructor
  · intro h
    induction h using Relation.ReflTransGen.head_induction_on with
    | refl => exact ⟨0, rfl⟩
    | head hs _ ih =>
        obtain ⟨n, hn⟩ := ih
        exact ⟨n + 1, iterate_succ_eq_some.mpr ⟨_, hs, hn⟩⟩
  · rintro ⟨n, hn⟩
    induction n generalizing s with
    | zero =>
        cases hn
        exact .refl
    | succ n ih =>
        obtain ⟨t, ht, hu⟩ := iterate_succ_eq_some.mp hn
        exact .head ht (ih hu)

/-- No run goes past a final state. -/
theorem iterate_le_of_final {n k : Nat} {s t u : σ} (hn : iterate f n s = some t) (ht : f t = none)
    (hk : iterate f k s = some u) : k ≤ n := by
  refine Nat.le_of_not_lt fun hlt => ?_
  obtain ⟨j, rfl⟩ := Nat.exists_eq_add_of_lt hlt
  rw [Nat.add_assoc] at hk
  obtain ⟨t', ht', hrest⟩ := iterate_add_eq_some.mp hk
  obtain rfl : t = t' := Option.some.inj (hn.symm.trans ht')
  obtain ⟨r, hr, -⟩ := iterate_succ_eq_some.mp hrest
  rw [ht] at hr
  cases hr

/-- A run has at most one end. -/
theorem final_unique {s t u : σ} (ht : Relation.ReflTransGen (fun s t => f s = some t) s t)
    (hft : f t = none) (hu : Relation.ReflTransGen (fun s t => f s = some t) s u)
    (hfu : f u = none) : u = t := by
  obtain ⟨n, hn⟩ := reaches_iff_iterate.mp ht
  obtain ⟨k, hk⟩ := reaches_iff_iterate.mp hu
  obtain rfl : k = n :=
    Nat.le_antisymm (iterate_le_of_final hn hft hk) (iterate_le_of_final hk hfu hn)
  exact Option.some.inj (hk.symm.trans hn)

/-- A run that meets no final state has a state after every number of steps. -/
theorem reaches_forever_iff {s : σ} :
    (∀ t, Relation.ReflTransGen (fun s t => f s = some t) s t → ∃ u, f t = some u) ↔
      ∀ n, ∃ t, iterate f n s = some t := by
  constructor
  · intro h n
    induction n with
    | zero => exact ⟨s, rfl⟩
    | succ n ih =>
        obtain ⟨t, ht⟩ := ih
        obtain ⟨u, hu⟩ := h t (reaches_iff_iterate.mpr ⟨n, ht⟩)
        exact ⟨u, iterate_add_eq_some.mpr ⟨t, ht, iterate_succ_eq_some.mpr ⟨u, hu, rfl⟩⟩⟩
  · intro h t ht
    obtain ⟨n, hn⟩ := reaches_iff_iterate.mp ht
    obtain ⟨u, hu⟩ := h (n + 1)
    obtain ⟨t', ht', hnext⟩ := iterate_add_eq_some.mp hu
    obtain rfl : t = t' := Option.some.inj (hn.symm.trans ht')
    obtain ⟨r, hr, -⟩ := iterate_succ_eq_some.mp hnext
    exact ⟨r, hr⟩

/-- **Agreement rule.**  Where two machines agree on the states `A`, a run of the second is a
    run of the first inside `A`, or goes on from the first state outside. -/
theorem reaches_agreeing {g : σ → Option σ} {A : σ → Prop} (hfg : ∀ s, A s → g s = f s) {s t : σ} :
    Relation.ReflTransGen (fun s t => g s = some t) s t ↔
      Relation.ReflTransGen (fun s t => A s ∧ f s = some t) s t ∨
        ∃ u, Relation.ReflTransGen (fun s t => A s ∧ f s = some t) s u ∧ ¬ A u ∧
          Relation.ReflTransGen (fun s t => g s = some t) u t := by
  have hinside : ∀ {s t}, Relation.ReflTransGen (fun s t => A s ∧ f s = some t) s t →
      Relation.ReflTransGen (fun s t => g s = some t) s t :=
    fun {s t} h => Relation.ReflTransGen.mono (fun s _ hst => (hfg s hst.1).trans hst.2) s t h
  constructor
  · intro h
    induction h using Relation.ReflTransGen.head_induction_on with
    | refl => exact .inl .refl
    | @head s r hs hrest ih =>
        -- inside `A` the two take the same step; the first state outside is `u`
        by_cases hA : A s
        · have hstep : A s ∧ f s = some r := ⟨hA, (hfg s hA).symm.trans hs⟩
          obtain ht | ⟨u, hu, hout, hrest⟩ := ih
          · exact .inl (.head hstep ht)
          · exact .inr ⟨u, .head hstep hu, hout, hrest⟩
        · exact .inr ⟨s, .refl, hA, .head hs hrest⟩
  · rintro (h | ⟨u, hu, -, hrest⟩)
    · exact hinside h
    · exact (hinside hu).trans hrest

/-- **Simulation rule.**  Where every step of the first machine is matched by one or more of
    the second, a run of the first is matched by one of the second that is no shorter. -/
theorem iterate_simulates {τ : Type} {g : τ → Option τ} {R : σ → τ → Prop}
    (hstep : ∀ s u s', R s u → f s = some s' →
      ∃ u', Relation.TransGen (fun s t => g s = some t) u u' ∧ R s' u')
    {n : Nat} {s s' : σ} {u : τ} (hR : R s u) (hn : iterate f n s = some s') :
    ∃ k u', n ≤ k ∧ iterate g k u = some u' ∧ R s' u' := by
  induction n generalizing s u with
  | zero =>
      cases hn
      exact ⟨0, u, Nat.le_refl 0, rfl, hR⟩
  | succ n ih =>
      obtain ⟨s1, hs1, hrest⟩ := iterate_succ_eq_some.mp hn
      obtain ⟨u1, hu1, hR1⟩ := hstep s u s1 hR hs1
      obtain ⟨k, u', hk, hu', hR'⟩ := ih hR1 hrest
      obtain ⟨v, hv, hreach⟩ := Relation.TransGen.head'_iff.mp hu1
      obtain ⟨j, hj⟩ := reaches_iff_iterate.mp hreach
      refine ⟨1 + j + k, u', by omega, ?_, hR'⟩
      rw [Nat.add_assoc, Nat.add_comm]
      exact iterate_succ_eq_some.mpr ⟨v, hv, iterate_add_eq_some.mpr ⟨u1, hj, hu'⟩⟩

/-- **Lockstep rule.**  Where every step of the first machine is matched by one step of the
    second, or leads to an excuse that later steps keep, so is a run. -/
theorem iterate_lockstep {τ : Type} {g : τ → Option τ} {R : σ → τ → Prop} {E : σ → Prop}
    (hstep : ∀ s u s', R s u → f s = some s' → (∃ u', g u = some u' ∧ R s' u') ∨ E s')
    (hexcuse : ∀ s s', E s → f s = some s' → E s') {n : Nat} {s s' : σ} {u : τ} (hR : R s u)
    (hn : iterate f n s = some s') : (∃ u', iterate g n u = some u' ∧ R s' u') ∨ E s' := by
  induction n generalizing s u with
  | zero =>
      cases hn
      exact .inl ⟨u, rfl, hR⟩
  | succ n ih =>
      obtain ⟨t, ht, hrest⟩ := iterate_succ_eq_some.mp hn
      obtain ⟨v, hv, hRv⟩ | hE := hstep s u t hR ht
      · obtain ⟨u', hu', hR'⟩ | hE := ih hRv hrest
        · exact .inl ⟨u', iterate_succ_eq_some.mpr ⟨v, hv, hu'⟩, hR'⟩
        · exact .inr hE
      · -- from the excuse on, every state of the run is one
        have hkeep : ∀ k t, E t → iterate f k t = some s' → E s' := by
          intro k
          induction k with
          | zero =>
              intro t ht hk
              cases hk
              exact ht
          | succ k ih =>
              intro t ht hk
              obtain ⟨r, hr, hk'⟩ := iterate_succ_eq_some.mp hk
              exact ih r (hexcuse t r ht hr) hk'
        exact .inr (hkeep n t hE hrest)

/-! ## Guards -/

section

variable {P : σ → Prop} [DecidablePred P]

/-- The machine that goes on in the states of `P` only. -/
def guarded (P : σ → Prop) [DecidablePred P] (f : σ → Option σ) (s : σ) : Option σ :=
  if P s then f s else none

theorem guarded_of {s : σ} (h : P s) : guarded P f s = f s := if_pos h

theorem guarded_eq_some {s t : σ} : guarded P f s = some t ↔ P s ∧ f s = some t :=
  Option.ite_none_right_eq_some

/-- **Guard rule.**  A run is a guarded one, or the guarded run stops on its way. -/
theorem iterate_guarded {n : Nat} {s t : σ} (h : iterate f n s = some t) :
    ∃ k u, k ≤ n ∧ iterate (guarded P f) k s = some u ∧ (u = t ∨ ¬ P u) := by
  induction n generalizing s with
  | zero =>
      cases h
      exact ⟨0, t, Nat.le_refl 0, rfl, .inl rfl⟩
  | succ n ih =>
      by_cases hP : P s
      · obtain ⟨r, hr, hrest⟩ := iterate_succ_eq_some.mp h
        obtain ⟨k, u, hk, hu, hend⟩ := ih hrest
        exact ⟨k + 1, u, Nat.succ_le_succ hk,
          iterate_succ_eq_some.mpr ⟨r, guarded_eq_some.mpr ⟨hP, hr⟩, hu⟩, hend⟩
      · exact ⟨0, s, Nat.zero_le _, rfl, .inr hP⟩

end

/-- The run from `s` comes to its end within `n` steps. -/
def HaltsWithin (f : σ → Option σ) (n : Nat) (s : σ) : Prop :=
  ∃ k t, k ≤ n ∧ iterate f k s = some t ∧ f t = none

theorem HaltsWithin.step {n : Nat} {s t : σ} (hs : f s = some t) (h : HaltsWithin f n t) :
    HaltsWithin f (n + 1) s := by
  obtain ⟨k, u, hk, hu, hend⟩ := h
  exact ⟨k + 1, u, Nat.succ_le_succ hk, iterate_succ_eq_some.mpr ⟨t, hs, hu⟩, hend⟩

theorem HaltsWithin.mono {n k : Nat} {s : σ} (h : HaltsWithin f n s) (hle : n ≤ k) :
    HaltsWithin f k s := by
  obtain ⟨j, t, hj, ht⟩ := h
  exact ⟨j, t, Nat.le_trans hj hle, ht⟩

/-- **Ranking rule.**  A measure that every step between states of the invariant lowers
    bounds the length of the run. -/
theorem haltsWithin_of_decreases {I : σ → Prop} (μ : σ → Nat)
    (hstep : ∀ s t, I s → f s = some t → I t ∧ μ t < μ s) {s : σ} (hs : I s) :
    HaltsWithin f (μ s) s := by
  induction hn : μ s using Nat.strongRecOn generalizing s with
  | ind n ih =>
      cases hfs : f s with
      | none => exact ⟨0, s, Nat.zero_le n, rfl, hfs⟩
      | some t =>
          obtain ⟨ht, hlt⟩ := hstep s t hs hfs
          exact ((ih (μ t) (hn ▸ hlt) ht rfl).step hfs).mono (by omega)

end V4Engine.Lib
