/-
  V4Engine.Lib.Purge

  Two runs of one system: a list of operations, and the same list without the
  operations of other parties.

  `exec_purge` is the rule.  It asks for a relation between the states of the two
  runs that a kept operation maintains when both runs make it, and that a purged
  operation maintains when only the first run makes it.
-/
import V4Engine.Lib.Runs

namespace V4Engine.Lib

variable {σ ι : Type} {step : ι → σ → Option σ}

/-- **Purge rule.**  Along a run whose operations all meet `P`, the run of the kept
    operations is defined and ends in a related state. -/
theorem exec_purge {R : σ → σ → Prop} {keep : ι → Bool} {P : σ → ι → Prop}
    (hkeep : ∀ o s t s', keep o = true → R s t → P s o → step o s = some s' →
      ∃ t', step o t = some t' ∧ R s' t')
    (hpurge : ∀ o s t s', keep o = false → R s t → P s o → step o s = some s' → R s' t)
    {ops : List ι} {s t s' : σ} (hR : R s t) (hP : Along step P ops s)
    (hrun : exec step ops s = some s') :
    ∃ t', exec step (ops.filter keep) t = some t' ∧ R s' t' := by
  induction ops generalizing s t with
  | nil =>
      cases hrun
      exact ⟨t, rfl, hR⟩
  | cons o ops ih =>
      obtain ⟨u, hu, hrest⟩ := exec_cons_eq_some.mp hrun
      -- A kept operation moves both runs, a purged one only the first.
      by_cases ho : keep o = true
      · obtain ⟨v, hv, hR'⟩ := hkeep o s t u ho hR hP.1 hu
        obtain ⟨t', ht', hfinal⟩ := ih hR' (hP.2 u hu) hrest
        refine ⟨t', ?_, hfinal⟩
        rw [List.filter_cons_of_pos ho, exec_cons, hv]
        exact ht'
      · have hR' := hpurge o s t u (Bool.eq_false_iff.mpr ho) hR hP.1 hu
        rw [List.filter_cons_of_neg ho]
        exact ih hR' (hP.2 u hu) hrest

end V4Engine.Lib
