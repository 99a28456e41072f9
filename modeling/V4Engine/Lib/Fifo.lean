/-
  V4Engine.Lib.Fifo

  A bounded queue of another system, known through its calls only.

  `contents` says what a queue value holds; `Bounded` is what its documentation
  promises: a send appends or fails when the queue is full, a receive removes the
  head or reports that there is none.
-/
import Mathlib.Data.List.Basic

namespace V4Engine.Lib

variable {Q M : Type}

/-- The calls: a new queue, a send that reports success, a receive. -/
structure FifoApi (Q M : Type) where
  create : Q
  send : M → Q → Bool × Q
  receive : Q → Option M × Q

namespace FifoApi

/-- A FIFO of `cap` messages. -/
structure Bounded (api : FifoApi Q M) (cap : Nat) (contents : Q → List M) : Prop where
  create : contents api.create = []
  send : ∀ msg q, (contents q).length < cap →
    (api.send msg q).1 = true ∧ contents (api.send msg q).2 = contents q ++ [msg]
  full : ∀ msg q, cap ≤ (contents q).length →
    (api.send msg q).1 = false ∧ contents (api.send msg q).2 = contents q
  empty : ∀ q, contents q = [] → (api.receive q).1 = none ∧ contents (api.receive q).2 = []
  head : ∀ msg rest q, contents q = msg :: rest →
    (api.receive q).1 = some msg ∧ contents (api.receive q).2 = rest

/-- Lists as queues of at most `cap` messages. -/
def ofList (M : Type) (cap : Nat) : FifoApi (List M) M where
  create := []
  send msg q := if q.length < cap then (true, q ++ [msg]) else (false, q)
  receive q := (q.head?, q.tail)

theorem ofList_bounded (cap : Nat) : (ofList M cap).Bounded cap id where
  create := rfl
  send msg q h := by
    rw [ofList]
    simp only [id] at h ⊢
    rw [if_pos h]
    exact ⟨rfl, rfl⟩
  full msg q h := by
    rw [ofList]
    simp only [id] at h ⊢
    rw [if_neg (Nat.not_lt.mpr h)]
    exact ⟨rfl, rfl⟩
  empty q h := by
    obtain rfl : q = [] := h
    exact ⟨rfl, rfl⟩
  head msg rest q h := by
    obtain rfl : q = msg :: rest := h
    exact ⟨rfl, rfl⟩

variable {api : FifoApi Q M} {cap : Nat} {contents : Q → List M}

/-- The two ends of a send. -/
theorem Bounded.send_cases (h : api.Bounded cap contents) (msg : M) (q : Q) :
    ((contents q).length < cap ∧ (api.send msg q).1 = true ∧
      contents (api.send msg q).2 = contents q ++ [msg]) ∨
    (cap ≤ (contents q).length ∧ (api.send msg q).1 = false ∧
      contents (api.send msg q).2 = contents q) := by
  rcases Nat.lt_or_ge (contents q).length cap with hroom | hfull
  · exact .inl ⟨hroom, h.send msg q hroom⟩
  · exact .inr ⟨hfull, h.full msg q hfull⟩

/-- Queues with the same contents answer a send alike. -/
theorem Bounded.send_congr (h : api.Bounded cap contents) (msg : M) {q q' : Q}
    (hq : contents q = contents q') : (api.send msg q).1 = (api.send msg q').1 ∧
      contents (api.send msg q).2 = contents (api.send msg q').2 := by
  obtain ⟨hroom, hok, hc⟩ | ⟨hfull, hok, hc⟩ := h.send_cases msg q
  · obtain ⟨hok', hc'⟩ := h.send msg q' (hq ▸ hroom)
    rw [hok, hok', hc, hc', hq]
    exact ⟨rfl, rfl⟩
  · obtain ⟨hok', hc'⟩ := h.full msg q' (hq ▸ hfull)
    rw [hok, hok', hc, hc', hq]
    exact ⟨rfl, rfl⟩

/-- What a receive answers and leaves. -/
theorem Bounded.receive_eq (h : api.Bounded cap contents) (q : Q) :
    (api.receive q).1 = (contents q).head? ∧ contents (api.receive q).2 = (contents q).tail := by
  cases hc : contents q with
  | nil => exact h.empty q hc
  | cons msg rest => exact h.head msg rest q hc

end FifoApi

end V4Engine.Lib
