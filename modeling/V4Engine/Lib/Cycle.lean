/-
  V4Engine.Lib.Cycle

  Taking turns: the cyclic ascending order of a part of a linear order.

  `NextIn p a b` says that `b` comes after `a` among the elements satisfying `p`:
  the least one above `a`, or the least one of all when there is none above.  In an
  ascending list that is the next position, cyclically (`nextIn_getElem`), so that
  over whole rounds every element has its turn equally often (`count_turns`).
-/
import Mathlib.Order.Defs.LinearOrder
import Mathlib.Data.Nat.Count
import Mathlib.Data.Finset.Interval

namespace V4Engine.Lib

section NextIn

variable {α : Type} [LinearOrder α]

/-- `b` follows `a` in the cyclic ascending order of the elements satisfying `p`. -/
def NextIn (p : α → Prop) (a b : α) : Prop :=
  p b ∧ ((a < b ∧ ∀ c, p c → a < c → b ≤ c) ∨ ((∀ c, p c → c ≤ a) ∧ ∀ c, p c → b ≤ c))

theorem NextIn.unique {p : α → Prop} {a b c : α} (hb : NextIn p a b) (hc : NextIn p a c) :
    b = c := by
  obtain ⟨hpb, ⟨hab, hminb⟩ | ⟨hallb, hminb⟩⟩ := hb
  · obtain ⟨hpc, ⟨hac, hminc⟩ | ⟨hallc, -⟩⟩ := hc
    · exact le_antisymm (hminb c hpc hac) (hminc b hpb hab)
    · exact absurd hab (not_lt.mpr (hallc b hpb))
  · obtain ⟨hpc, ⟨hac, -⟩ | ⟨-, hminc⟩⟩ := hc
    · exact absurd hac (not_lt.mpr (hallb c hpc))
    · exact le_antisymm (hminb c hpc) (hminc b hpb)

theorem NextIn.congr {p q : α → Prop} {a b : α} (hpq : ∀ c, p c ↔ q c) (h : NextIn p a b) :
    NextIn q a b := by
  obtain rfl : p = q := funext fun c => propext (hpq c)
  exact h

/-- The only element is its own next one. -/
theorem NextIn.only {p : α → Prop} {a b : α} (hb : p b) (honly : ∀ c, p c → c = b) :
    NextIn p a b := by
  refine ⟨hb, ?_⟩
  rcases lt_or_ge a b with hab | hba
  · exact Or.inl ⟨hab, fun c hc _ => (honly c hc).ge⟩
  · exact Or.inr ⟨fun c hc => (honly c hc).trans_le hba, fun c hc => (honly c hc).ge⟩

section Insert

variable {p q : α → Prop} {a b e : α} (hq : ∀ c, q c ↔ p c ∨ c = e)
include hq

/-- A new element above `a` is the next one if the old elements are not. -/
theorem NextIn.overtake (h : NextIn p a b) (hba : b ≤ a) (hae : a < e) : NextIn q a e := by
  obtain ⟨-, ⟨hab, -⟩ | ⟨hall, -⟩⟩ := h
  · exact absurd hab (not_lt.mpr hba)
  · refine ⟨(hq e).mpr (.inr rfl), Or.inl ⟨hae, fun c hc hac => ?_⟩⟩
    rcases (hq c).mp hc with hc | rfl
    · exact absurd hac (not_lt.mpr (hall c hc))
    · exact le_refl c

/-- A new element beyond the next one changes nothing, unless it is the only one
    above `a`. -/
theorem NextIn.stay (h : NextIn p a b) (hbe : b ≤ e) (hae : a < e → a < b) : NextIn q a b := by
  obtain ⟨hb, ⟨hab, hleast⟩ | ⟨hall, hleast⟩⟩ := h
  · refine ⟨(hq b).mpr (.inl hb), Or.inl ⟨hab, fun c hc hac => ?_⟩⟩
    rcases (hq c).mp hc with hc | rfl
    · exact hleast c hc hac
    · exact hbe
  · refine ⟨(hq b).mpr (.inl hb), Or.inr ⟨fun c hc => ?_, fun c hc => ?_⟩⟩
    · rcases (hq c).mp hc with hc | rfl
      · exact hall c hc
      · exact not_lt.mp fun hlt => absurd (hae hlt) (not_lt.mpr (hall b hb))
    · rcases (hq c).mp hc with hc | rfl
      · exact hleast c hc
      · exact hbe

end Insert

/-- The next position of an ascending list, cyclically, holds the next element. -/
theorem nextIn_getElem {l : List α} (hl : l.Pairwise (· < ·)) {j k : Nat} (hj : j < l.length)
    (hk : k < l.length) (hjk : k = (j + 1) % l.length) : NextIn (· ∈ l) l[j] l[k] := by
  have hle : ∀ i i' (hi : i < l.length) (hi' : i' < l.length), i ≤ i' → l[i] ≤ l[i'] := by
    intro i i' hi hi' hii
    rcases Nat.lt_or_eq_of_le hii with hlt | rfl
    · exact le_of_lt (List.pairwise_iff_getElem.mp hl i i' hi hi' hlt)
    · exact le_refl _
  refine ⟨List.getElem_mem hk, ?_⟩
  by_cases hlast : j + 1 < l.length
  · -- there is a later position, and it holds the least element above
    obtain rfl : k = j + 1 := hjk.trans (Nat.mod_eq_of_lt hlast)
    refine Or.inl ⟨List.pairwise_iff_getElem.mp hl j (j + 1) hj hk (Nat.lt_succ_self j), ?_⟩
    intro c hc hlt
    obtain ⟨i, hi, rfl⟩ := List.getElem_of_mem hc
    apply hle (j + 1) i hk hi
    by_contra hij
    exact absurd hlt (not_lt.mpr (hle i j hi hj (by omega)))
  · -- the last position is followed by the first
    have hlen : j + 1 = l.length := by omega
    obtain rfl : k = 0 := by rw [hjk, hlen, Nat.mod_self]
    refine Or.inr ⟨fun c hc => ?_, fun c hc => ?_⟩
    · obtain ⟨i, hi, rfl⟩ := List.getElem_of_mem hc
      exact hle i j hi hj (by omega)
    · obtain ⟨i, hi, rfl⟩ := List.getElem_of_mem hc
      exact hle 0 i hk hi (Nat.zero_le i)

end NextIn

/-! ## Rounds -/

theorem count_mod_eq {k i : Nat} (hi : i < k) : Nat.count (fun m => m % k = i) k = 1 := by
  rw [Nat.count_eq_card_filter_range, Finset.card_eq_one]
  refine ⟨i, Finset.ext fun m => ?_⟩
  rw [Finset.mem_filter, Finset.mem_range, Finset.mem_singleton]
  constructor
  · rintro ⟨hm, heq⟩
    rwa [Nat.mod_eq_of_lt hm] at heq
  · rintro rfl
    exact ⟨hi, Nat.mod_eq_of_lt hi⟩

/-- In one round every position has one turn, wherever the round starts. -/
theorem count_round {k i : Nat} (hi : i < k) (start : Nat) :
    Nat.count (fun m => (start + m) % k = i) k = 1 := by
  -- counting up to `start + k` in the two possible orders
  have hfirst := Nat.count_add (fun m => m % k = i) start k
  have hsecond := Nat.count_add (fun m => m % k = i) k start
  have hperiod : Nat.count (fun m => (k + m) % k = i) start
      = Nat.count (fun m => m % k = i) start := by
    simp only [Nat.add_mod_left]
  rw [hperiod, count_mod_eq hi, Nat.add_comm k start] at hsecond
  omega

/-- Over `n` rounds every position has exactly `n` turns. -/
theorem count_turns {k i : Nat} (hi : i < k) (start n : Nat) :
    Nat.count (fun m => (start + m) % k = i) (n * k) = n := by
  induction n with
  | zero => rw [Nat.zero_mul, Nat.count_zero]
  | succ n ih =>
      rw [Nat.succ_mul, Nat.count_add, ih]
      have hround := count_round hi (start + n * k)
      simp only [Nat.add_assoc] at hround
      rw [hround]

end V4Engine.Lib
