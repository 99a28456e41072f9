/-
  V4Engine.Lib.Brackets

  Nested sections: a sequence of enters and exits, and the two counters kept of it.

  `counter N` counts modulo `N` and ignores an exit at zero.  It says zero exactly
  when the sequence is `Forgotten`: made of stray exits, of matched stretches less
  than `N` deep and of climbs to depth `N` (`counter_eq_zero_iff`).  `lock N` keeps a
  second count, of a lock that every enter takes and that is given back only when
  the first counter returns to zero; it is free together with the counter exactly
  when no enter directly follows another (`lock_free_iff`).
-/
import Mathlib.Data.List.Infix
import Mathlib.Data.List.Induction
import Mathlib.Tactic.Common

namespace V4Engine.Lib

inductive Bracket where
  | enter
  | exit
  deriving DecidableEq

/-- Enters minus exits. -/
def net (ops : List Bracket) : Int := (ops.count .enter : Int) - ops.count .exit

/-- Every exit has an enter before it, and every enter an exit after it. -/
structure Matched (ops : List Bracket) : Prop where
  nonneg : ∀ l, l <+: ops → 0 ≤ net l
  closed : net ops = 0

/-- All along the sequence more enters than exits, but less than `N` more. -/
def Inside (N : Nat) (ops : List Bracket) : Prop :=
  ∀ l, l ≠ [] → l <+: ops → 0 < net l ∧ net l < N

/-- Nothing is open for a counter modulo `N`. -/
inductive Forgotten (N : Nat) : List Bracket → Prop where
  | nil : Forgotten N []
  /-- A stray exit. -/
  | stray {l : List Bracket} (h : Forgotten N l) : Forgotten N (l ++ [.exit])
  /-- A matched stretch, less than `N` deep. -/
  | stretch {l piece : List Bracket} (h : Forgotten N l) (hin : Inside N piece)
      (hnet : net piece = 1) : Forgotten N (l ++ (piece ++ [.exit]))
  /-- A climb to depth `N`. -/
  | climb {l piece : List Bracket} (h : Forgotten N l) (hin : Inside N piece)
      (hnet : net piece = N - 1) : Forgotten N (l ++ (piece ++ [.enter]))

/-- A counter modulo `N`; an exit at zero is ignored. -/
def countStep (N : Nat) (c : Nat) : Bracket → Nat
  | .enter => (c + 1) % N
  | .exit => c - 1

def counter (N : Nat) (ops : List Bracket) : Nat := ops.foldl (countStep N) 0

/-! ## Nets -/

@[simp] theorem net_nil : net [] = 0 := rfl

@[simp] theorem net_append (l l' : List Bracket) : net (l ++ l') = net l + net l' := by
  simp only [net, List.count_append]
  omega

@[simp] theorem net_enter : net [.enter] = 1 := rfl

@[simp] theorem net_exit : net [.exit] = -1 := rfl

theorem net_replicate_enter (n : Nat) : net (List.replicate n .enter) = n := by
  simp [net, List.count_replicate]

theorem inside_nil (N : Nat) : Inside N [] := fun _ hne hl => absurd (List.prefix_nil.mp hl) hne

theorem Inside.concat {N : Nat} {ops : List Bracket} {b : Bracket} (h : Inside N ops)
    (hnet : 0 < net (ops ++ [b]) ∧ net (ops ++ [b]) < N) : Inside N (ops ++ [b]) := by
  intro l hne hl
  obtain rfl | hl := List.prefix_concat_iff.mp hl
  · exact hnet
  · exact h l hne hl

theorem Inside.of_concat {N : Nat} {ops : List Bracket} {b : Bracket}
    (h : Inside N (ops ++ [b])) : Inside N ops :=
  fun l hne hl => h l hne (hl.trans (List.prefix_append ops [b]))

theorem Inside.net_of_ne_nil {N : Nat} {ops : List Bracket} (h : Inside N ops) (hne : ops ≠ []) :
    0 < net ops ∧ net ops < N := h ops hne (List.prefix_refl ops)

/-! ## What the counter knows -/

@[simp] theorem counter_nil (N : Nat) : counter N [] = 0 := rfl

theorem counter_append (N : Nat) (l l' : List Bracket) :
    counter N (l ++ l') = l'.foldl (countStep N) (counter N l) := List.foldl_append ..

theorem counter_concat (N : Nat) (l : List Bracket) (b : Bracket) :
    counter N (l ++ [b]) = countStep N (counter N l) b := counter_append N l [b]

/-- From zero on, the counter follows the net as long as it stays inside. -/
theorem foldl_inside {N : Nat} {piece : List Bracket} (h : Inside N piece) :
    ((piece.foldl (countStep N) 0 : Nat) : Int) = net piece := by
  induction piece using List.reverseRecOn with
  | nil => rfl
  | append_singleton l b ih =>
      have hl := ih h.of_concat
      have hnet := h.net_of_ne_nil (List.append_ne_nil_of_right_ne_nil l (List.cons_ne_nil b []))
      rw [List.foldl_append, List.foldl_cons, List.foldl_nil]
      cases b with
      | enter =>
          rw [net_append, net_enter] at hnet ⊢
          rw [countStep, Nat.mod_eq_of_lt (by omega)]
          push_cast
          omega
      | exit =>
          rw [net_append, net_exit] at hnet ⊢
          rw [countStep]
          omega

/-- Every sequence is a forgotten one followed by a stretch the counter still knows. -/
theorem counter_split {N : Nat} (hN : 2 ≤ N) (ops : List Bracket) :
    ∃ l piece, ops = l ++ piece ∧ Forgotten N l ∧ Inside N piece ∧
      (counter N ops : Int) = net piece := by
  induction ops using List.reverseRecOn with
  | nil => exact ⟨[], [], rfl, .nil, inside_nil N, rfl⟩
  | append_singleton ops b ih =>
      obtain ⟨l, piece, rfl, hl, hin, hcount⟩ := ih
      rw [counter_concat]
      generalize counter N (l ++ piece) = c at hcount
      -- the open stretch, if any, is positive and below the modulus
      have hrange : piece = [] ∨ (0 < net piece ∧ net piece < N) := by
        by_cases hne : piece = []
        · exact .inl hne
        · exact .inr (hin.net_of_ne_nil hne)
      cases b with
      | enter =>
          have hlow : 0 ≤ net piece ∧ net piece < N := by
            obtain rfl | hr := hrange
            · rw [net_nil]
              omega
            · omega
          by_cases htop : net piece = N - 1
          · refine ⟨l ++ (piece ++ [.enter]), [], ?_, .climb hl hin htop, inside_nil N, ?_⟩
            · rw [List.append_nil, List.append_assoc]
            · have hc : c + 1 = N := by omega
              rw [countStep, hc, Nat.mod_self]
              rfl
          · refine ⟨l, piece ++ [.enter], List.append_assoc .., hl, hin.concat ?_, ?_⟩
            · rw [net_append, net_enter]
              omega
            · rw [countStep, Nat.mod_eq_of_lt (by omega), net_append, net_enter]
              push_cast
              omega
      | exit =>
          obtain rfl | hr := hrange
          · refine ⟨l ++ [.exit], [], ?_, .stray hl, inside_nil N, ?_⟩
            · rw [List.append_nil, List.append_nil]
            · rw [net_nil] at hcount ⊢
              rw [countStep]
              omega
          · by_cases hlast : net piece = 1
            · refine ⟨l ++ (piece ++ [.exit]), [], ?_, .stretch hl hin hlast, inside_nil N, ?_⟩
              · rw [List.append_nil, List.append_assoc]
              · rw [net_nil, countStep]
                omega
            · refine ⟨l, piece ++ [.exit], List.append_assoc .., hl, hin.concat ?_, ?_⟩
              · rw [net_append, net_exit]
                omega
              · rw [countStep, net_append, net_exit]
                omega

theorem Forgotten.counter_eq {N : Nat} {ops : List Bracket} (h : Forgotten N ops) :
    counter N ops = 0 := by
  induction h with
  | nil => rfl
  | stray _ ih => rw [counter_concat, ih, countStep]
  | @stretch l piece _ hin hnet ih =>
      have hpiece := foldl_inside hin
      rw [counter_append, ih, List.foldl_append, List.foldl_cons, List.foldl_nil, countStep]
      omega
  | @climb l piece _ hin hnet ih =>
      have hpiece := foldl_inside hin
      have htop : piece.foldl (countStep N) 0 + 1 = N := by omega
      rw [counter_append, ih, List.foldl_append, List.foldl_cons, List.foldl_nil, countStep, htop,
        Nat.mod_self]

/-- **The counter.**  It is zero exactly after a forgotten sequence. -/
theorem counter_eq_zero_iff {N : Nat} (hN : 2 ≤ N) (ops : List Bracket) :
    counter N ops = 0 ↔ Forgotten N ops := by
  refine ⟨fun h => ?_, Forgotten.counter_eq⟩
  obtain ⟨l, piece, rfl, hl, hin, hcount⟩ := counter_split hN ops
  by_cases hne : piece = []
  · rw [hne, List.append_nil]
    exact hl
  · have := hin.net_of_ne_nil hne
    omega

/-- A section that stays less than `N` deep is not forgotten. -/
theorem Inside.not_forgotten {N : Nat} {ops : List Bracket} (h : Inside N ops) (hne : ops ≠ []) :
    ¬ Forgotten N ops := by
  intro hf
  have hnet := h.net_of_ne_nil hne
  have hcount := foldl_inside h
  have hzero := hf.counter_eq
  rw [counter] at hzero
  omega

/-- As long as every exit has an enter before it, the counter is at most the net. -/
theorem counter_le_net (N : Nat) {ops : List Bracket} (h : ∀ l, l <+: ops → 0 ≤ net l) :
    (counter N ops : Int) ≤ net ops := by
  induction ops using List.reverseRecOn with
  | nil => exact Int.le_refl 0
  | append_singleton l b ih =>
      have hl := ih fun p hp => h p (hp.trans (List.prefix_append l [b]))
      have hnet := h _ (List.prefix_refl (l ++ [b]))
      rw [counter_concat]
      cases b with
      | enter =>
          have := Nat.mod_le (counter N l + 1) N
          rw [net_append, net_enter, countStep]
          omega
      | exit =>
          rw [net_append, net_exit] at hnet ⊢
          rw [countStep]
          omega

/-- After a matched sequence the counter is zero. -/
theorem Matched.counter_eq (N : Nat) {ops : List Bracket} (h : Matched ops) :
    counter N ops = 0 := by
  have := counter_le_net N h.nonneg
  rw [h.closed] at this
  omega

/-! ## The lock -/

/-- The counter together with a lock: taken by every enter, given back by the exit that
    brings the counter to zero. -/
def lockStep (N : Nat) (s : Nat × Nat) : Bracket → Nat × Nat
  | .enter => ((s.1 + 1) % N, s.2 + 1)
  | .exit => if s.1 > 0 then (s.1 - 1, if s.1 - 1 = 0 then s.2 - 1 else s.2) else s

def lock (N : Nat) (ops : List Bracket) : Nat × Nat := ops.foldl (lockStep N) (0, 0)

/-- A section entered directly inside another. -/
def NestedEnter (ops : List Bracket) : Prop := [.enter, .enter] <:+: ops

instance (ops : List Bracket) : Decidable (NestedEnter ops) :=
  inferInstanceAs (Decidable (_ <:+: _))

theorem lock_concat (N : Nat) (l : List Bracket) (b : Bracket) :
    lock N (l ++ [b]) = lockStep N (lock N l) b := by
  rw [lock, List.foldl_append]
  rfl

theorem lock_fst (N : Nat) (ops : List Bracket) : (lock N ops).1 = counter N ops := by
  induction ops using List.reverseRecOn with
  | nil => rfl
  | append_singleton l b ih =>
      rw [lock_concat, counter_concat, ← ih]
      cases b with
      | enter => rfl
      | exit =>
          rw [lockStep, countStep]
          split
          · rfl
          · omega

theorem nestedEnter_concat {ops : List Bracket} {b : Bracket} :
    NestedEnter (ops ++ [b]) ↔ NestedEnter ops ∨ (b = .enter ∧ [.enter] <:+ ops) := by
  rw [NestedEnter, List.infix_concat_iff, or_comm]
  refine or_congr Iff.rfl ?_
  rw [List.suffix_concat_iff]
  constructor
  · rintro (h | ⟨t, ht, hs⟩)
    · cases h
    · have ht : [.enter] ++ [.enter] = t ++ [b] := ht
      obtain ⟨rfl, hb⟩ := List.append_inj' ht rfl
      exact ⟨(List.singleton_inj.mp hb).symm, hs⟩
  · rintro ⟨rfl, hs⟩
    exact .inr ⟨[.enter], rfl, hs⟩

theorem enter_suffix_concat {ops : List Bracket} {b : Bracket} :
    [Bracket.enter] <:+ ops ++ [b] ↔ b = .enter := by
  rw [List.suffix_concat_iff]
  constructor
  · rintro (h | ⟨t, ht, -⟩)
    · cases h
    · have ht : [] ++ [.enter] = t ++ [b] := ht
      exact (List.singleton_inj.mp (List.append_inj' ht rfl).2).symm
  · rintro rfl
    exact .inr ⟨[], rfl, List.nil_suffix⟩

/-- What the two counts say about each other. -/
structure LockInv (ops : List Bracket) (s : Nat × Nat) : Prop where
  le : s.1 ≤ s.2
  last : [.enter] <:+ ops → 1 ≤ s.1 ∨ s.1 < s.2
  nested : NestedEnter ops → 2 ≤ s.1 ∨ s.1 < s.2
  flat : ¬ NestedEnter ops → s.2 = s.1 ∧ s.1 ≤ 1 ∧ (s.1 = 1 → [.enter] <:+ ops)

theorem lock_inv {N : Nat} (hN : 2 ≤ N) (ops : List Bracket) : LockInv ops (lock N ops) := by
  induction ops using List.reverseRecOn with
  | nil =>
      refine ⟨Nat.le_refl 0, fun h => ?_, fun h => ?_, fun _ => ⟨rfl, Nat.zero_le 1, fun h => ?_⟩⟩
      · cases List.suffix_nil.mp h
      · cases List.infix_nil.mp h
      · cases h
  | append_singleton l b ih =>
      obtain ⟨hle, hlast, hnested, hflat⟩ := ih
      rw [lock_concat]
      generalize lock N l = s at hle hlast hnested hflat
      obtain ⟨c, d⟩ := s
      simp only at hle hlast hnested hflat
      cases b with
      | enter =>
          -- the enter either wraps the counter, which leaves the lock ahead, or adds one
          have hstep : (c + 1) % N ≤ c + 1 ∧ ((c + 1) % N = c + 1 ∨ (c + 1) % N < c + 1) := by
            have := Nat.mod_le (c + 1) N
            omega
          rw [lockStep]
          constructor
          · simp only
            omega
          · simp only
            omega
          · intro h
            simp only
            rw [nestedEnter_concat] at h
            obtain h | ⟨-, h⟩ := h
            · have := hnested h
              omega
            · have := hlast h
              omega
          · intro h
            rw [nestedEnter_concat, not_or, not_and] at h
            obtain ⟨hcd, hc, hopen⟩ := hflat h.1
            have hzero : c = 0 := by
              by_contra hne
              exact h.2 rfl (hopen (by omega))
            subst hzero
            have hone : (0 + 1) % N = 1 := Nat.mod_eq_of_lt hN
            simp only [hone]
            exact ⟨by omega, Nat.le_refl 1, fun _ => enter_suffix_concat.mpr rfl⟩
      | exit =>
          have hkeep : NestedEnter (l ++ [.exit]) ↔ NestedEnter l := by
            rw [nestedEnter_concat]
            exact or_iff_left fun h => Bracket.noConfusion h.1
          have hnolast : ¬ [Bracket.enter] <:+ l ++ [.exit] := fun h =>
            Bracket.noConfusion (enter_suffix_concat.mp h)
          rw [lockStep]
          by_cases hc : c > 0
          · rw [if_pos hc]
            refine ⟨?_, fun h => absurd h hnolast, fun h => ?_, fun h => ?_⟩
            · simp only
              split <;> omega
            · -- two deep or already ahead: afterwards the lock is ahead
              have := hnested (hkeep.mp h)
              simp only
              split <;> omega
            · obtain ⟨hcd, hle1, -⟩ := hflat (hkeep.not.mp h)
              obtain rfl : c = 1 := by omega
              simp only [Nat.sub_self, if_true]
              exact ⟨by omega, Nat.zero_le 1, fun h => absurd h (by decide)⟩
          · rw [if_neg hc]
            refine ⟨hle, fun h => absurd h hnolast, fun h => hnested (hkeep.mp h), fun h => ?_⟩
            obtain ⟨hcd, hle1, -⟩ := hflat (hkeep.not.mp h)
            exact ⟨hcd, hle1, fun h => absurd h (by simp only; omega)⟩

/-- **The lock.**  It is free exactly when the counter is zero, unless the counter is
    zero after a section was entered directly inside another. -/
theorem lock_free_iff {N : Nat} (hN : 2 ≤ N) (ops : List Bracket) :
    ((lock N ops).2 = 0 ↔ (lock N ops).1 = 0) ↔ ¬ Forgotten N ops ∨ ¬ NestedEnter ops := by
  obtain ⟨hle, -, hnested, hflat⟩ := lock_inv hN ops
  rw [← counter_eq_zero_iff hN, ← lock_fst]
  by_cases hn : NestedEnter ops
  · have := hnested hn
    simp only [hn, not_true_eq_false, or_false]
    omega
  · obtain ⟨heq, -, -⟩ := hflat hn
    exact iff_of_true (by rw [heq]) (.inr hn)

end V4Engine.Lib
