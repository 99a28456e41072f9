/-
  V4Engine.Lib.Triple

  Total correctness of a machine with a partial step function, as triples.

  `LeadsWithin f n P Q`: from every state of `P` the machine is in a state of `Q`
  after at most `n` steps.  The rules compose the bounds: one step, one part
  after the other, a case distinction, a loop that is counted down and a loop
  with a variant.  Nothing here mentions a particular machine.
-/
import V4Engine.Lib.Iterate

namespace V4Engine.Lib

variable {σ : Type} {f : σ → Option σ} {P Q R : σ → Prop} {n k : Nat}

/-- From every state of `P` the machine gets to a state of `Q` within `n` steps. -/
def LeadsWithin (f : σ → Option σ) (n : Nat) (P Q : σ → Prop) : Prop :=
  ∀ s, P s → ∃ k t, k ≤ n ∧ iterate f k s = some t ∧ Q t

namespace LeadsWithin

theorem refl (h : ∀ s, P s → Q s) : LeadsWithin f 0 P Q :=
  fun s hs => ⟨0, s, Nat.le_refl 0, rfl, h s hs⟩

theorem step (h : ∀ s, P s → ∃ t, f s = some t ∧ Q t) : LeadsWithin f 1 P Q := by
  intro s hs
  obtain ⟨t, ht, hQ⟩ := h s hs
  exact ⟨1, t, Nat.le_refl 1, iterate_succ_eq_some.mpr ⟨t, ht, rfl⟩, hQ⟩

/-- **Sequencing.** -/
theorem trans (h : LeadsWithin f n P Q) (h' : LeadsWithin f k Q R) :
    LeadsWithin f (n + k) P R := by
  intro s hs
  obtain ⟨i, t, hi, ht, hQ⟩ := h s hs
  obtain ⟨j, u, hj, hu, hR⟩ := h' t hQ
  exact ⟨i + j, u, Nat.add_le_add hi hj, iterate_add_eq_some.mpr ⟨t, ht, hu⟩, hR⟩

/-- **Consequence.** -/
theorem mono {P' Q' : σ → Prop} (h : LeadsWithin f n P Q) (hn : n ≤ k) (hP : ∀ s, P' s → P s)
    (hQ : ∀ s, Q s → Q' s) : LeadsWithin f k P' Q' := by
  intro s hs
  obtain ⟨i, t, hi, ht, hQt⟩ := h s (hP s hs)
  exact ⟨i, t, Nat.le_trans hi hn, ht, hQ t hQt⟩

/-- **Counted loop.**  A body that takes the invariant from `i + 1` to `i` takes it to `0`. -/
theorem counted {I : Nat → σ → Prop} (h : ∀ i, LeadsWithin f n (I (i + 1)) (I i)) (i : Nat) :
    LeadsWithin f (i * n) (I i) (I 0) := by
  induction i with
  | zero => exact (refl fun _ hs => hs).mono (Nat.zero_le _) (fun _ hs => hs) fun _ hs => hs
  | succ i ih =>
      refine ((h i).trans ih).mono ?_ (fun _ hs => hs) fun _ hs => hs
      rw [Nat.succ_mul]
      omega

end LeadsWithin

end V4Engine.Lib
