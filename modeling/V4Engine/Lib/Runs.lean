/-
  V4Engine.Lib.Runs

  Runs of a system whose operations may be undefined in some states:
  `exec step ops s` applies a list of operations in order.

  `exec_invariant` turns a step lemma into a run lemma.  `Along P` says that
  every operation of a run is applied in a state that satisfies `P`, and
  `EachStep L` that every step of a run satisfies the law `L`; a law that holds
  of exactly the steps meeting a condition holds along exactly the runs whose
  steps all meet it (`eachStep_iff_along`).
-/
import Mathlib.Data.List.Basic

namespace V4Engine.Lib

variable {σ ι : Type}

/-- Apply the operations in order; undefined as soon as one of them is. -/
def exec (step : ι → σ → Option σ) : List ι → σ → Option σ
  | [], s => some s
  | o :: os, s => (step o s).bind (exec step os)

/-- Every operation of the run is applied in a state satisfying `P`. -/
def Along (step : ι → σ → Option σ) (P : σ → ι → Prop) : List ι → σ → Prop
  | [], _ => True
  | o :: os, s => P s o ∧ ∀ s', step o s = some s' → Along step P os s'

/-- Every step of the run satisfies the law `L`. -/
def EachStep (step : ι → σ → Option σ) (L : σ → ι → σ → Prop) (ops : List ι) (s : σ) : Prop :=
  Along step (fun s o => ∀ s', step o s = some s' → L s o s') ops s

variable {step : ι → σ → Option σ}

/-- Whether a property holds of the result, if there is one. -/
instance decidableOnSome {α : Type} (x : Option α) (p : α → Prop) [∀ a, Decidable (p a)] :
    Decidable (∀ a, x = some a → p a) :=
  match x with
  | none => isTrue fun _ h => nomatch h
  | some a => decidable_of_iff (p a) ⟨fun h _ ha => Option.some.inj ha ▸ h, fun h => h a rfl⟩

/-- Conditions along a run of a computable system can be evaluated. -/
instance Along.decide (P : σ → ι → Prop) [∀ s o, Decidable (P s o)] :
    ∀ (os : List ι) (s : σ), Decidable (Along step P os s)
  | [], _ => isTrue trivial
  | o :: os, s =>
      have : ∀ s', Decidable (Along step P os s') := Along.decide P os
      inferInstanceAs (Decidable (P s o ∧ ∀ s', step o s = some s' → Along step P os s'))

instance EachStep.decide (L : σ → ι → σ → Prop) [∀ s o s', Decidable (L s o s')]
    (os : List ι) (s : σ) : Decidable (EachStep step L os s) :=
  Along.decide (fun s o => ∀ s', step o s = some s' → L s o s') os s

@[simp] theorem exec_nil (s : σ) : exec step [] s = some s := rfl

theorem exec_cons (o : ι) (os : List ι) (s : σ) :
    exec step (o :: os) s = (step o s).bind (exec step os) := rfl

theorem exec_cons_eq_some {o : ι} {os : List ι} {s s'' : σ} :
    exec step (o :: os) s = some s'' ↔ ∃ s', step o s = some s' ∧ exec step os s' = some s'' :=
  Option.bind_eq_some_iff

/-- **Invariant rule.**  What every operation preserves, every run preserves. -/
theorem exec_invariant {I : σ → Prop} (hstep : ∀ o s s', I s → step o s = some s' → I s')
    {os : List ι} {s s' : σ} (hs : I s) (h : exec step os s = some s') : I s' := by
  induction os generalizing s with
  | nil => cases h; exact hs
  | cons o os ih =>
      obtain ⟨t, ht, hrest⟩ := exec_cons_eq_some.mp h
      exact ih (hstep o s t hs ht) hrest

/-- **Invariant rule for conditional runs.**  What every operation preserves where it
    meets the condition, every run that meets it throughout preserves. -/
theorem Along.invariant {I : σ → Prop} {P : σ → ι → Prop}
    (hstep : ∀ o s s', I s → P s o → step o s = some s' → I s') {os : List ι} {s s' : σ}
    (hP : Along step P os s) (hs : I s) (h : exec step os s = some s') : I s' := by
  induction os generalizing s with
  | nil => cases h; exact hs
  | cons o os ih =>
      obtain ⟨t, ht, hrest⟩ := exec_cons_eq_some.mp h
      exact ih (hP.2 t ht) (hstep o s t hs hP.1 ht) hrest

/-- **Run rule for defined systems.**  When every operation meeting `F` is defined,
    satisfies the law and keeps the invariant, every run of such operations is
    defined and satisfies the law at each step. -/
theorem exec_eachStep {I : σ → Prop} {F : ι → Prop} {L : σ → ι → σ → Prop}
    (hstep : ∀ o s, I s → F o → ∃ s', step o s = some s' ∧ I s' ∧ L s o s')
    {os : List ι} {s : σ} (hs : I s) (hF : ∀ o ∈ os, F o) :
    (exec step os s).isSome ∧ EachStep step L os s := by
  induction os generalizing s with
  | nil => exact ⟨rfl, trivial⟩
  | cons o os ih =>
      obtain ⟨t, ht, hinv, hlaw⟩ := hstep o s hs (hF o List.mem_cons_self)
      obtain ⟨hsome, heach⟩ := ih hinv fun o' ho' => hF o' (List.mem_cons_of_mem o ho')
      constructor
      · rw [exec_cons, ht, Option.bind_some]
        exact hsome
      · refine ⟨fun s' hs' => ?_, fun s' hs' => ?_⟩
        · obtain rfl := Option.some.inj (ht.symm.trans hs')
          exact hlaw
        · obtain rfl := Option.some.inj (ht.symm.trans hs')
          exact heach

/-- Conditions that agree in states satisfying an invariant hold along the same runs.
    Only the steps meeting `Q` have to keep the invariant. -/
theorem along_iff_along {I : σ → Prop} {P Q : σ → ι → Prop}
    (hstep : ∀ o s s', I s → Q s o → step o s = some s' → I s')
    (hiff : ∀ o s, I s → (P s o ↔ Q s o)) {os : List ι} {s : σ} (hs : I s) :
    Along step P os s ↔ Along step Q os s := by
  induction os generalizing s with
  | nil => exact Iff.rfl
  | cons o os ih =>
      constructor
      · rintro ⟨hP, hrest⟩
        have hQ : Q s o := (hiff o s hs).mp hP
        exact ⟨hQ, fun s' hs' => (ih (hstep o s s' hs hQ hs')).mp (hrest s' hs')⟩
      · rintro ⟨hQ, hrest⟩
        exact ⟨(hiff o s hs).mpr hQ, fun s' hs' => (ih (hstep o s s' hs hQ hs')).mpr (hrest s' hs')⟩

/-- A law that, in states satisfying an invariant, holds of exactly the steps
    meeting `P` holds along exactly the runs whose steps all meet `P`. -/
theorem eachStep_iff_along_of {I : σ → Prop} {L : σ → ι → σ → Prop} {P : σ → ι → Prop}
    (hstep : ∀ o s s', I s → P s o → step o s = some s' → I s')
    (hdef : ∀ o s, I s → (step o s).isSome)
    (hlaw : ∀ o s s', I s → step o s = some s' → (L s o s' ↔ P s o))
    {os : List ι} {s : σ} (hs : I s) :
    EachStep step L os s ↔ Along step P os s := by
  refine along_iff_along hstep (fun o s hs => ?_) hs
  obtain ⟨t, ht⟩ := Option.isSome_iff_exists.mp (hdef o s hs)
  constructor
  · intro hL
    exact (hlaw o s t hs ht).mp (hL t ht)
  · intro hP s' hs'
    exact (hlaw o s s' hs hs').mpr hP

/-- The same when every step keeps the invariant. -/
theorem eachStep_iff_along {I : σ → Prop} {L : σ → ι → σ → Prop} {P : σ → ι → Prop}
    (hstep : ∀ o s s', I s → step o s = some s' → I s')
    (hdef : ∀ o s, I s → (step o s).isSome)
    (hlaw : ∀ o s s', I s → step o s = some s' → (L s o s' ↔ P s o))
    {os : List ι} {s : σ} (hs : I s) :
    EachStep step L os s ↔ Along step P os s :=
  eachStep_iff_along_of (fun o s s' hs _ h => hstep o s s' hs h) hdef hlaw hs

end V4Engine.Lib
