/-
  V4Engine.Lib.Outcome

  A state monad for code that can stop in two ways: with an error code handed
  to the caller, or with a fault (an access outside an array, after which
  nothing is known about the run).

  Three program logics over it, compositional in `bind`:

    * `Meets F x Q` — one run.  An `Effect` says from which states anything is
      claimed, how the final state of a normal return and of an error return
      relates to the initial one, and from which states a fault is tolerated.
    * `FailsWithin F x s` — the failures of one run.  Only what comes before the
      last failure has to stay within the effect.
    * `Tracks S O x y` — two runs in lockstep.  A `Sim` relates the states of
      both; `O` lists left final states about which nothing is claimed, and
      `S.skip` the left error codes about which nothing is claimed.

  Nothing here mentions a particular program.
-/

namespace V4Engine.Lib

variable {ε σ τ α β : Type}

/-- How a computation ends. -/
inductive Outcome (ε σ α : Type) where
  | ok (a : α) (s : σ)
  | err (e : ε) (s : σ)
  | fault

/-- The same outcome, its final state seen through `f`. -/
def Outcome.mapState (f : σ → τ) : Outcome ε σ α → Outcome ε τ α
  | .ok a s => .ok a (f s)
  | .err e s => .err e (f s)
  | .fault => .fault

/-- State-passing computations that may raise an error or fault. -/
def FaultM (ε σ α : Type) := σ → Outcome ε σ α

namespace FaultM

/-- Return a value, leaving the state alone. -/
def ret (a : α) : FaultM ε σ α := fun s => .ok a s

/-- Sequencing: errors and faults of the first computation end the whole. -/
def andThen (x : FaultM ε σ α) (f : α → FaultM ε σ β) : FaultM ε σ β := fun s =>
  match x s with
  | .ok a s' => f a s'
  | .err e s' => .err e s'
  | .fault => .fault

instance : Monad (FaultM ε σ) where
  pure := ret
  bind := andThen

/-- Stop with an error code. -/
def raise (e : ε) : FaultM ε σ α := fun s => .err e s

/-- Stop because the code left its own arrays. -/
def stuck : FaultM ε σ α := fun _ => .fault

/-- Read the state. -/
def read : FaultM ε σ σ := fun s => .ok s s

/-- Update the state. -/
def update (f : σ → σ) : FaultM ε σ Unit := fun s => .ok () (f s)

/-- A value that is missing exactly when an index was out of range. -/
def ofOption : Option α → FaultM ε σ α
  | some a => ret a
  | none => stuck

/-- Read slot `i` of an array of `cap` elements. -/
def slot (cap : Nat) (f : Nat → α) (i : Nat) : FaultM ε σ α :=
  if i < cap then ret (f i) else stuck

@[simp] theorem pure_run (a : α) (s : σ) : (pure a : FaultM ε σ α) s = .ok a s := rfl

theorem bind_run (x : FaultM ε σ α) (f : α → FaultM ε σ β) (s : σ) :
    (x >>= f) s = match x s with
      | .ok a s' => f a s'
      | .err e s' => .err e s'
      | .fault => .fault := rfl

theorem bind_ok {x : FaultM ε σ α} {f : α → FaultM ε σ β} {s s' : σ} {a : α}
    (h : x s = .ok a s') : (x >>= f) s = f a s' := by rw [bind_run, h]

theorem bind_err {x : FaultM ε σ α} {f : α → FaultM ε σ β} {s s' : σ} {e : ε}
    (h : x s = .err e s') : (x >>= f) s = .err e s' := by rw [bind_run, h]

theorem bind_fault {x : FaultM ε σ α} {f : α → FaultM ε σ β} {s : σ}
    (h : x s = .fault) : (x >>= f) s = .fault := by rw [bind_run, h]

/-- A normal return of a sequence passes through a normal return of its head. -/
theorem bind_eq_ok {x : FaultM ε σ α} {f : α → FaultM ε σ β} {s s'' : σ} {b : β} :
    (x >>= f) s = .ok b s'' ↔ ∃ a s', x s = .ok a s' ∧ f a s' = .ok b s'' := by
  constructor
  · intro h
    cases hx : x s with
    | ok a s' => rw [bind_ok hx] at h; exact ⟨a, s', rfl, h⟩
    | err e s' => rw [bind_err hx] at h; cases h
    | fault => rw [bind_fault hx] at h; cases h
  · rintro ⟨a, s', hx, hf⟩
    rw [bind_ok hx]; exact hf

/-- An error return of a sequence is raised by its head or by its tail. -/
theorem bind_eq_err {x : FaultM ε σ α} {f : α → FaultM ε σ β} {s s'' : σ} {e : ε} :
    (x >>= f) s = .err e s'' ↔
      x s = .err e s'' ∨ ∃ a s', x s = .ok a s' ∧ f a s' = .err e s'' := by
  constructor
  · intro h
    cases hx : x s with
    | ok a s' => rw [bind_ok hx] at h; exact .inr ⟨a, s', rfl, h⟩
    | err e' s' => rw [bind_err hx] at h; cases h; exact .inl rfl
    | fault => rw [bind_fault hx] at h; cases h
  · rintro (hx | ⟨a, s', hx, hf⟩)
    · exact bind_err hx
    · rw [bind_ok hx]; exact hf

theorem bind_assoc {γ : Type} (x : FaultM ε σ α) (f : α → FaultM ε σ β) (g : β → FaultM ε σ γ) :
    (x >>= f) >>= g = x >>= fun a => f a >>= g := by
  funext s
  cases hx : x s with
  | ok a s' => rw [bind_ok hx, bind_run, bind_ok hx, bind_run]
  | err e s' => rw [bind_err hx, bind_err (bind_err hx)]
  | fault => rw [bind_fault hx, bind_fault (bind_fault hx)]

end FaultM

open FaultM

/-! ## One run -/

/-- What a computation may do from the states in `pre`: the relation from
    initial to final state of a normal return, the same for an error return,
    and the states from which a fault is tolerated. -/
structure Effect (ε σ : Type) where
  pre : σ → Prop
  ret : σ → σ → Prop
  err : ε → σ → σ → Prop
  stuck : σ → Prop

/-- The closure conditions under which an effect may be sequenced. -/
structure Effect.Composable (F : Effect ε σ) : Prop where
  refl : ∀ {s}, F.pre s → F.ret s s
  pre : ∀ {s t}, F.pre s → F.ret s t → F.pre t
  trans : ∀ {s t u}, F.ret s t → F.ret t u → F.ret s u
  err : ∀ {e s t u}, F.ret s t → F.err e t u → F.err e s u
  stuck : ∀ {s t}, F.ret s t → F.stuck t → F.stuck s

/-- An outcome from state `s` stays within the effect, a normal return with a
    value satisfying `Q`. -/
def Effect.Admits (F : Effect ε σ) (Q : α → Prop) (s : σ) : Outcome ε σ α → Prop
  | .ok a s' => F.ret s s' ∧ Q a
  | .err e s' => F.err e s s'
  | .fault => F.stuck s

/-- Sequencing from one state: the tail may use how the head ended. -/
theorem Effect.Admits.bind {F : Effect ε σ} (hF : F.Composable) {P : α → Prop} {Q : β → Prop}
    {x : FaultM ε σ α} {f : α → FaultM ε σ β} {s : σ} (hx : F.Admits P s (x s)) (hs : F.pre s)
    (hf : ∀ a s', x s = .ok a s' → P a → F.pre s' → F.Admits Q s' (f a s')) :
    F.Admits Q s ((x >>= f) s) := by
  cases hxs : x s with
  | ok a s' =>
      rw [hxs] at hx
      have h := hf a s' hxs hx.2 (hF.pre hs hx.1)
      rw [bind_ok hxs]
      cases hfs : f a s' with
      | ok b s'' => rw [hfs] at h; exact ⟨hF.trans hx.1 h.1, h.2⟩
      | err e s'' => rw [hfs] at h; exact hF.err hx.1 h
      | fault => rw [hfs] at h; exact hF.stuck hx.1 h
  | err e s' => rw [hxs] at hx; rw [bind_err hxs]; exact hx
  | fault => rw [hxs] at hx; rw [bind_fault hxs]; exact hx

/-- The effect that keeps normal returns within `R`, fails only with errors in `E`
    and says nothing of faults. -/
def Effect.within (R : σ → σ → Prop) (E : ε → Prop) : Effect ε σ where
  pre _ := True
  ret := R
  err e _ _ := E e
  stuck _ := True

theorem Effect.within_composable {R : σ → σ → Prop} {E : ε → Prop} (hrefl : ∀ s, R s s)
    (htrans : ∀ {s t u}, R s t → R t u → R s u) : (Effect.within R E).Composable where
  refl _ := hrefl _
  pre _ _ := trivial
  trans := htrans
  err _ h := h
  stuck _ _ := trivial

/-- Every run of `x` from `F.pre` stays within the effect and returns a value
    satisfying `Q`. -/
def Meets (F : Effect ε σ) (x : FaultM ε σ α) (Q : α → Prop) : Prop :=
  ∀ s, F.pre s → F.Admits Q s (x s)

namespace Meets

variable {F : Effect ε σ} {P : α → Prop} {Q : β → Prop}

theorem pure (hF : F.Composable) {a : α} (h : P a) : Meets F (Pure.pure a) P :=
  fun _ hs => ⟨hF.refl hs, h⟩

/-- What the head returns may be used about the tail. -/
theorem bind (hF : F.Composable) {x : FaultM ε σ α} {f : α → FaultM ε σ β}
    (hx : Meets F x P) (hf : ∀ a, P a → Meets F (f a) Q) : Meets F (x >>= f) Q :=
  fun s hs => (hx s hs).bind hF hs fun a s' _ ha hs' => hf a ha s' hs'

theorem mono {P' : α → Prop} {x : FaultM ε σ α} (hx : Meets F x P) (h : ∀ a, P a → P' a) :
    Meets F x P' := by
  intro s hs
  have ha := hx s hs
  cases hxs : x s with
  | ok a s' => rw [hxs] at ha; exact ⟨ha.1, h a ha.2⟩
  | err e s' => rw [hxs] at ha; exact ha
  | fault => rw [hxs] at ha; exact ha

theorem ite {c : Prop} [Decidable c] {x y : FaultM ε σ α}
    (hx : c → Meets F x P) (hy : ¬ c → Meets F y P) : Meets F (if c then x else y) P := by
  by_cases h : c
  · rw [if_pos h]; exact hx h
  · rw [if_neg h]; exact hy h

end Meets

/-! ## Failures -/

/-- The effect of a computation that never fails. -/
abbrev Effect.infallible (ε σ : Type) : Effect ε σ := .within (fun _ _ => True) fun _ => False

theorem Effect.infallible_composable : (Effect.infallible ε σ).Composable :=
  Effect.within_composable (fun _ => trivial) fun _ _ => trivial

theorem Meets.ne_err {P : α → Prop} {x : FaultM ε σ α} (h : Meets (.infallible ε σ) x P)
    (e : ε) (s s' : σ) : x s ≠ .err e s' := by
  intro hx
  have ha := h s trivial
  rw [hx] at ha
  exact ha

/-- When `x` fails from `s`, it does so within the effect.  Nothing is said of its
    normal returns. -/
def FailsWithin (F : Effect ε σ) (x : FaultM ε σ α) (s : σ) : Prop :=
  ∀ e s', x s = .err e s' → F.err e s s'

namespace FailsWithin

variable {F : Effect ε σ} {x : FaultM ε σ α} {f : α → FaultM ε σ β} {s : σ}

theorem of_meets {P : α → Prop} (h : Meets F x P) (hs : F.pre s) : FailsWithin F x s := by
  intro e s' hx
  have ha := h s hs
  rw [hx] at ha
  exact ha

/-- The head of a sequence has to stay within the effect, the tail may do what it
    likes after its last failure. -/
theorem bind (hF : F.Composable) {P : α → Prop} (hx : Meets F x P) (hs : F.pre s)
    (hf : ∀ a s', x s = .ok a s' → F.pre s' → FailsWithin F (f a) s') :
    FailsWithin F (x >>= f) s := by
  intro e u h
  have ha := hx s hs
  rcases bind_eq_err.mp h with hx | ⟨a, s', hx, hfail⟩
  · rw [hx] at ha
    exact ha
  · rw [hx] at ha
    exact hF.err ha.1 (hf a s' hx (hF.pre hs ha.1) e u hfail)

/-- A tail that never fails adds no failure. -/
theorem then_infallible (hx : FailsWithin F x s)
    (hf : ∀ a s', x s = .ok a s' → ∀ e u, f a s' ≠ .err e u) : FailsWithin F (x >>= f) s := by
  intro e u h
  rcases bind_eq_err.mp h with hfail | ⟨a, s', hok, hfail⟩
  · exact hx e u hfail
  · exact absurd hfail (hf a s' hok e u)

theorem of_infallible {P : α → Prop} (h : Meets (.infallible ε σ) x P) : FailsWithin F x s :=
  fun e s' hx => absurd hx (h.ne_err e s s')

end FailsWithin

/-! ## Two runs in lockstep -/

/-- A simulation between two machines: the relation kept by normal returns,
    the one kept by error returns, and the left error codes left out. -/
structure Sim (ε σ τ : Type) where
  rel : σ → τ → Prop
  err : ε → σ → τ → Prop
  skip : ε → Prop

/-- The left outcome is matched by the right one: equal value or error code,
    related states.  `O` marks left final states left out. -/
def Sim.Matches (S : Sim ε σ τ) (O : σ → Prop) : Outcome ε σ α → Outcome ε τ α → Prop
  | .ok a s', y => O s' ∨ ∃ t', y = .ok a t' ∧ S.rel s' t'
  | .err e s', y => S.skip e ∨ ∃ t', y = .err e t' ∧ S.err e s' t'
  | .fault, _ => True

/-- Sequencing from one pair of states: the tails may use how the heads ended. -/
theorem Sim.Matches.bind {S : Sim ε σ τ} {O : σ → Prop} {x : FaultM ε σ α} {y : FaultM ε τ α}
    {f : α → FaultM ε σ β} {g : α → FaultM ε τ β} {s : σ} {t : τ}
    (hx : S.Matches (fun _ => False) (x s) (y t))
    (hf : ∀ a s' t', x s = .ok a s' → y t = .ok a t' → S.rel s' t' →
      S.Matches O (f a s') (g a t')) : S.Matches O ((x >>= f) s) ((y >>= g) t) := by
  cases hxs : x s with
  | ok a s' =>
      rw [hxs] at hx
      obtain hno | ⟨t', hy, hst⟩ := hx
      · exact hno.elim
      · rw [bind_ok hxs, bind_ok hy]
        exact hf a s' t' hxs hy hst
  | err e s' =>
      rw [hxs] at hx
      rw [bind_err hxs]
      exact hx.imp_right fun ⟨t', hy, he⟩ => ⟨t', bind_err hy, he⟩
  | fault => rw [bind_fault hxs]; trivial

/-- From related states, every run of `x` is matched by the run of `y`. -/
def Tracks (S : Sim ε σ τ) (O : σ → Prop) (x : FaultM ε σ α) (y : FaultM ε τ α) : Prop :=
  ∀ s t, S.rel s t → S.Matches O (x s) (y t)

/-- No left final state is left out. -/
abbrev Exact (S : Sim ε σ τ) (x : FaultM ε σ α) (y : FaultM ε τ α) : Prop :=
  Tracks S (fun _ => False) x y

namespace Tracks

variable {S : Sim ε σ τ} {O : σ → Prop}

theorem pure (a : α) : Tracks S O (Pure.pure a) (Pure.pure a) :=
  fun _ t h => .inr ⟨t, rfl, h⟩

/-- The head of a sequence must be matched exactly: only then does the tail
    start from related states. -/
theorem bind {x : FaultM ε σ α} {y : FaultM ε τ α} {f : α → FaultM ε σ β}
    {g : α → FaultM ε τ β} (hx : Exact S x y) (hf : ∀ a, Tracks S O (f a) (g a)) :
    Tracks S O (x >>= f) (y >>= g) :=
  fun s t hst => (hx s t hst).bind fun a s' t' _ _ hst' => hf a s' t' hst'

/-- A last step that only returns a value keeps every excuse of the head. -/
theorem bind_pure {x : FaultM ε σ α} {y : FaultM ε τ α} (b : β) (hx : Tracks S O x y) :
    Tracks S O (x >>= fun _ => Pure.pure b) (y >>= fun _ => Pure.pure b) := by
  intro s t hst
  have h := hx s t hst
  cases hxs : x s with
  | ok a s' =>
      rw [hxs] at h
      rw [bind_ok hxs]
      exact h.imp_right fun ⟨t', hy, hst'⟩ => ⟨t', bind_ok hy, hst'⟩
  | err e s' =>
      rw [hxs] at h
      rw [bind_err hxs]
      exact h.imp_right fun ⟨t', hy, he⟩ => ⟨t', bind_err hy, he⟩
  | fault => rw [bind_fault hxs]; trivial

theorem ite {c : Prop} [Decidable c] {x x' : FaultM ε σ α} {y y' : FaultM ε τ α}
    (hx : c → Tracks S O x y) (hx' : ¬ c → Tracks S O x' y') :
    Tracks S O (if c then x else x') (if c then y else y') := by
  by_cases h : c
  · rw [if_pos h, if_pos h]; exact hx h
  · rw [if_neg h, if_neg h]; exact hx' h

theorem weaken {O' : σ → Prop} {x : FaultM ε σ α} {y : FaultM ε τ α}
    (h : Tracks S O x y) (hO : ∀ s, O s → O' s) : Tracks S O' x y := by
  intro s t hst
  have h := h s t hst
  cases hxs : x s with
  | ok a s' => rw [hxs] at h; exact h.imp_left (hO s')
  | err e s' => rw [hxs] at h; exact h
  | fault => trivial

end Tracks

end V4Engine.Lib
