/-
  V4Engine.Vm.Nesting

  How deep calls nest.

  `CALL` runs the callee in a nested `vm_exec_raw` on the host stack and pushes
  nothing on the checked return stack, so no resource of the VM runs out.  Only
  256 words can be called; the depth of a run is bounded exactly when the number
  of simultaneously active copies of each word is.
-/
import V4Engine.Vm.RunRules
import Mathlib.Algebra.BigOperators.Group.Finset.Piecewise
import Mathlib.Algebra.Order.BigOperators.Group.Finset

namespace V4Engine

open Lib FaultM VmM

variable {W : Type} {H : Host W}

/-- The number of active `vm_exec_raw` activations. -/
def Config.depth (c : Config W) : Nat := c.current.toList.length + c.callers.length

/-- The word a suspended caller has called: the operand just before its `ip`. -/
def Caller.callee (x : Caller) : Option Nat := (i16At x.act.bc (x.act.ip - 2)).map BitVec.toNat

/-- The number of calls of word `w` that have not returned. -/
def Config.copies (c : Config W) (w : Nat) : Nat := c.callers.countP fun x => x.callee = some w

/-- A `CALL` about to be executed names a word with fewer than `K` active copies. -/
def Config.CallsBelow (K : Nat) (c : Config W) : Prop :=
  ∀ a w, c.instr = some a → a.nextOp = some .CALL → i16At a.bc (a.ip + 1) = some w →
    c.copies w.toNat < K

/-- A list is as long as its entries with each of the values they take. -/
theorem length_eq_sum_countP {α β : Type} [DecidableEq α] {f : β → α} {s : Finset α} {l : List β}
    (h : ∀ x ∈ l, f x ∈ s) : l.length = ∑ a ∈ s, l.countP fun x => f x = a := by
  induction l with
  | nil => simp
  | cons x l ih =>
      have hx : f x ∈ s := h x List.mem_cons_self
      have hl := ih fun y hy => h y (List.mem_cons_of_mem x hy)
      simp only [List.length_cons, List.countP_cons, Finset.sum_add_distrib, decide_eq_true_eq,
        Finset.sum_ite_eq, if_pos hx, hl]

/-- At most `K` copies of each of the 256 words are active. -/
structure Config.Nested (K : Nat) (c : Config W) : Prop where
  callees : ∀ x ∈ c.callers, ∃ w, w < 256 ∧ x.callee = some w
  copies : ∀ w, c.copies w ≤ K

theorem Config.Nested.depth_le {K : Nat} {c : Config W} (h : c.Nested K) :
    c.depth ≤ 256 * K + 1 := by
  -- At most `K` suspended calls of each of the 256 words.
  have hlen : c.callers.length ≤ 256 * K := by
    have hmem : ∀ x ∈ c.callers, x.callee ∈ (Finset.range 256).image some := by
      intro x hx
      obtain ⟨w, hw, heq⟩ := h.callees x hx
      exact heq ▸ Finset.mem_image_of_mem some (Finset.mem_range.mpr hw)
    have hcopies : ∀ o ∈ (Finset.range 256).image some,
        (c.callers.countP fun x => x.callee = o) ≤ K := by
      intro o ho
      obtain ⟨w, -, rfl⟩ := Finset.mem_image.mp ho
      exact h.copies w
    calc c.callers.length
        = ∑ o ∈ (Finset.range 256).image some, c.callers.countP fun x => x.callee = o :=
          length_eq_sum_countP hmem
      _ ≤ ((Finset.range 256).image some).card • K := Finset.sum_le_card_nsmul _ _ _ hcopies
      _ ≤ (Finset.range 256).card * K := Nat.mul_le_mul_right K Finset.card_image_le
      _ = 256 * K := by rw [Finset.card_range]
  have hcur : c.current.toList.length ≤ 1 := by
    cases c.current <;> simp
  unfold Config.depth
  omega

/-- Fewer callers keep the bound. -/
theorem Config.Nested.of_sublist {K : Nat} {c d : Config W} (h : c.Nested K)
    (hd : d.callers.Sublist c.callers) : d.Nested K where
  callees x hx := h.callees x (hd.subset hx)
  copies w := Nat.le_trans hd.countP_le (h.copies w)

/-- One more caller, behind a call of `w`. -/
theorem Config.Nested.push {K : Nat} {c d : Config W} {x : Caller} {w : Nat} (h : c.Nested K)
    (hd : d.callers = x :: c.callers) (hx : x.callee = some w) (hw : w < 256)
    (hlt : c.copies w < K) : d.Nested K where
  callees y hy := by
    rw [hd] at hy
    rcases List.mem_cons.mp hy with rfl | hy
    · exact ⟨w, hw, hx⟩
    · exact h.callees y hy
  copies v := by
    have hv := h.copies v
    unfold Config.copies at hlt hv ⊢
    rw [hd, List.countP_cons, hx]
    by_cases heq : w = v
    · subst heq
      rw [if_pos (decide_eq_true rfl)]
      omega
    · rw [if_neg (by simpa using heq)]
      omega

/-- **Call rule.**  Only a `CALL` makes the call chain longer, by one word below 256. -/
theorem Config.Nested.step {K : Nat} {c d : Config W} (h : c.Nested K) (hs : Step H c d)
    (hcall : c.CallsBelow K) : d.Nested K := by
  obtain ⟨m, cur, cs, rfl, rfl⟩ | ⟨w, m, cur, cs, rfl, rfl⟩ | ⟨m, x, cs, rfl, rfl⟩
    | ⟨e, m, x, cs, he, rfl, rfl⟩ := hs.cases
  · have hl := fetch_leaves (H := H) cur m trivial
    cases hx : fetch H cur m with
    | ok f m' =>
        rw [hx] at hl
        cases f with
        | next ip => exact h.of_sublist (.refl _)
        | ret => exact h.of_sublist (.refl _)
        | wait w ip => exact h.of_sublist (.refl _)
        | call callee ip =>
            -- Only a CALL makes the chain longer, and `CallsBelow` bounds the calls of its word.
            obtain ⟨hop, rfl, -, idx, hidx, hlt⟩ := hl.2
            have hcallee : Caller.callee ⟨{ cur with ip := cur.ip + 3 }, m'.vm.fp⟩
                = some idx.toNat := by
              show (i16At cur.bc (cur.ip + 3 - 2)).map BitVec.toNat = _
              rw [Nat.add_sub_assoc (by decide), hidx]
              rfl
            exact h.push rfl hcallee hlt (hcall cur idx (Config.instr_run hop) hop hidx)
    | err e m' => exact h.of_sublist (.refl _)
    | fault => exact h.of_sublist (List.nil_sublist _)
  · have hl := pollOnce_leaves (H := H) w cur.ip m trivial
    cases hx : pollOnce H w cur.ip m with
    | ok f m' =>
        rw [hx] at hl
        obtain rfl | rfl := hl.2
        · exact h.of_sublist (.refl _)
        · exact h.of_sublist (.refl _)
    | err e m' => exact h.of_sublist (.refl _)
    | fault => exact h.of_sublist (List.nil_sublist _)
  · exact h.of_sublist (List.sublist_cons_self x cs)
  · exact h.of_sublist (List.sublist_cons_self x cs)

/-- **Every run.**  With at most `K` copies of each word the depth stays below
    `256 * K + 1`. -/
theorem nested_reaches {K : Nat} {m : Machine W} {bc : List Byte} {len : Nat} {c : Config W}
    (h : Reaches H (.start m bc len) c)
    (hcalls : ∀ d, Reaches H (.start m bc len) d → d.CallsBelow K) : c.Nested K := by
  induction h with
  | refl => exact ⟨nofun, fun _ => Nat.zero_le K⟩
  | tail hd hs ih => exact ih.step hs (hcalls _ hd)

/-- **Bounded nesting.**  Among any starts, one bound on the number of activations
    serves all their runs exactly when one bound on the copies of a word does. -/
theorem nesting_bounded_iff (H : Host W) (S : Machine W → List Byte → Nat → Prop) :
    (∃ N, ∀ m bc len, S m bc len → ∀ c, Reaches H (.start m bc len) c → c.depth ≤ N) ↔
      ∃ K, ∀ m bc len, S m bc len → ∀ c, Reaches H (.start m bc len) c → c.CallsBelow K := by
  constructor
  · rintro ⟨N, hN⟩
    refine ⟨N, fun m bc len hS c hc a w ha _ _ => ?_⟩
    have hdepth := hN m bc len hS c hc
    obtain ⟨n, cs, op, rfl, -⟩ := Config.instr_eq_some ha
    have hcopies : (Config.run n a cs).copies w.toNat ≤ cs.length := List.countP_le_length
    change 1 + cs.length ≤ N at hdepth
    omega
  · rintro ⟨K, hK⟩
    exact ⟨256 * K + 1, fun m bc len hS c hc => (nested_reaches hc (hK m bc len hS)).depth_le⟩

/-- A VM whose only word calls itself, inside that word. -/
def selfCalling : Machine Unit :=
  { Machine.boot Vm.blank with
    vm := { Vm.blank with words := fun _ => ⟨some [0x50, 0, 0], 3⟩, wordCount := 1, fp := some 0 } }

/-- Each turn of the word that calls itself suspends one more caller. -/
theorem self_call_step (cs : List Caller) :
    Step Host.silent (.run selfCalling ⟨[0x50, 0, 0], 3, 0⟩ cs)
      (.run selfCalling ⟨[0x50, 0, 0], 3, 0⟩ (⟨⟨[0x50, 0, 0], 3, 3⟩, some 0⟩ :: cs)) := rfl

/-- Whatever bound is set, the word that calls itself goes beyond it, and it never
    comes back with an error. -/
theorem self_call_unbounded :
    (¬ ∃ N, ∀ (m : Machine Unit) bc len c, Reaches Host.silent (.start m bc len) c → c.depth ≤ N) ∧
      ∀ e m', ¬ Returns Host.silent selfCalling [0x50, 0, 0] 3 e m' := by
  constructor
  · rintro ⟨N, hN⟩
    have hdeep : ∀ n, ∃ cs, cs.length = n ∧
        Reaches Host.silent (.start selfCalling [0x50, 0, 0] 3)
          (.run selfCalling ⟨[0x50, 0, 0], 3, 0⟩ cs) := by
      intro n
      induction n with
      | zero => exact ⟨[], rfl, .refl⟩
      | succ n ih =>
          obtain ⟨cs, hlen, hreach⟩ := ih
          exact ⟨_ :: cs, congrArg Nat.succ hlen, hreach.tail (self_call_step cs)⟩
    obtain ⟨cs, hlen, hreach⟩ := hdeep N
    have hdepth := hN selfCalling [0x50, 0, 0] 3 _ hreach
    change 1 + cs.length ≤ N at hdepth
    omega
  · -- every configuration of the run calls itself again, so none has returned
    intro e m' hret
    have hrun : ∃ cs, Config.ret e m' [] = .run selfCalling ⟨[0x50, 0, 0], 3, 0⟩ cs := by
      refine hret.invariant (I := fun c => ∃ cs, c = .run selfCalling ⟨[0x50, 0, 0], 3, 0⟩ cs)
        ?_ ⟨[], rfl⟩
      rintro _ c' ⟨cs, rfl⟩ hs
      exact ⟨_, hs.functional (self_call_step cs)⟩
    obtain ⟨cs, heq⟩ := hrun
    cases heq

end V4Engine
