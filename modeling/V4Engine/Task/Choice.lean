/-
  V4Engine.Task.Choice

  Which slot `v4_task_select_next` returns.

  Among the candidates of highest priority the slots take turns: the least one
  above the current slot, or the least one of all (`NextIn`).  The loop keeps that
  of the slots it has seen (`TieBroken`).  Priority 0 is below its first maximum, so
  a task of priority 0 is never chosen; `selection_law_iff` says when that shows.
-/
import V4Engine.Task.Ops
import V4Engine.Lib.Cycle

namespace V4Engine

open Lib

/-- A candidate of highest priority. -/
def Best (tick : BitVec 32) (vm : Vm) (i : Fin 8) : Prop :=
  (vm.task i).Eligible tick ∧
    ∀ j, (vm.task j).Eligible tick → (vm.task j).priority ≤ (vm.task i).priority

/-- What is expected of a selection: due sleepers wake up and nothing else changes;
    the answer is the current slot when nobody is a candidate, and otherwise the next
    one among the candidates of highest priority. -/
def SelectionLaw (tick : BitVec 32) (vm : Vm) (cur : Fin 8) : Prop :=
  (∃ tasks, (v4TaskSelectNext tick vm).2
      = { vm with scheduler := { vm.scheduler with tasks := tasks } } ∧
    ∀ i, tasks i = if (vm.task i).state = .blocked ∧ (vm.task i).sleepUntilTick ≤ tick then
      { vm.task i with state := .ready } else vm.task i) ∧
  ((∀ i, ¬ (vm.task i).Eligible tick) →
    (v4TaskSelectNext tick vm).1 = vm.scheduler.currentTask) ∧
  ((∃ i, (vm.task i).Eligible tick) →
    ∃ i : Fin 8, (v4TaskSelectNext tick vm).1 = BitVec.ofNat 8 i.val ∧
      NextIn (Best tick vm) cur i)

/-! ## The tie -/

/-- The selected slot is the next one among the candidates seen that have the highest
    priority so far. -/
def TieBroken (tick : BitVec 32) (tasks : Fin 8 → V4Task) (cur : Fin 8) (seen : List (Fin 8))
    (sel : Selection) : Prop :=
  ∀ k : Fin 8, sel.selectedTask = BitVec.ofNat 8 k.val →
    NextIn (fun j => j ∈ seen ∧ (tasks j).Eligible tick ∧
      (tasks j).priority = sel.highestPriority) cur k

theorem slotId_lt_iff {i j : Fin 8} :
    BitVec.ofNat 8 i.val < BitVec.ofNat 8 j.val ↔ i < j := by
  rw [BitVec.lt_def, slotId_toNat, slotId_toNat]
  exact Iff.rfl

/-- One more candidate, in ascending order. -/
theorem TieBroken.step {tick : BitVec 32} {tasks : Fin 8 → V4Task} {cur : Fin 8}
    {seen : List (Fin 8)} {sel : Selection} (hsel : Selected tick tasks seen sel)
    (h : TieBroken tick tasks cur seen sel) {i : Fin 8} (hi : ∀ j ∈ seen, j < i) :
    TieBroken tick tasks cur (seen ++ [i])
      (selectStep (BitVec.ofNat 8 cur.val) sel (BitVec.ofNat 8 i.val)
        (wakeTask tick (tasks i))) := by
  have hmem : ∀ j, j ∈ seen ++ [i] ↔ j ∈ seen ∨ j = i := by
    intro j
    rw [List.mem_append, List.mem_singleton]
  -- The new slot is one more of the best so far, or they remain the same.
  have hgrown : (tasks i).Eligible tick → (tasks i).priority = sel.highestPriority → ∀ j,
      (j ∈ seen ++ [i] ∧ (tasks j).Eligible tick ∧ (tasks j).priority = sel.highestPriority) ↔
      (j ∈ seen ∧ (tasks j).Eligible tick ∧ (tasks j).priority = sel.highestPriority) ∨
        j = i := by
    intro he hp j
    rw [hmem, or_and_right]
    refine or_congr_right (and_iff_left_of_imp ?_)
    rintro rfl
    exact ⟨he, hp⟩
  have hsame : ¬ ((tasks i).Eligible tick ∧ (tasks i).priority = sel.highestPriority) → ∀ j,
      (j ∈ seen ∧ (tasks j).Eligible tick ∧ (tasks j).priority = sel.highestPriority) ↔
      (j ∈ seen ++ [i] ∧ (tasks j).Eligible tick ∧ (tasks j).priority = sel.highestPriority) := by
    intro hno j
    rw [hmem, or_and_right]
    refine (or_iff_left ?_).symm
    rintro ⟨rfl, hj⟩
    exact hno hj
  obtain ⟨hne, heq⟩ | ⟨he, hgt, heq⟩ | ⟨he, htie, hany, hlate, hearly, heq⟩
    | ⟨he, hle, hkeep, heq⟩ :=
    selectStep_cases tick (BitVec.ofNat 8 cur.val) (BitVec.ofNat 8 i.val) sel (tasks i)
  · -- not a candidate
    rw [heq]
    exact fun k hk => (h k hk).congr (hsame fun hi => hne hi.1)
  · -- a new maximum, so far the only candidate that has it
    rw [heq]
    intro k hk
    obtain rfl := slotId_injective hk
    refine NextIn.only ⟨(hmem i).mpr (.inr rfl), he, rfl⟩ ?_
    rintro j ⟨hj, hej, hpj⟩
    obtain hj | rfl := (hmem j).mp hj
    · have hlow := hsel.priority_le hj hej
      bv_omega
    · rfl
  · -- a tie, won: every candidate seen is at or before the current slot
    rw [heq]
    intro k hk
    obtain rfl := slotId_injective hk
    cases hsel with
    | none => exact absurd rfl hany
    | some k hek hpk hmax =>
        refine (h k rfl).overtake (hgrown he htie) (not_lt.mp fun hlt => ?_)
          (slotId_lt_iff.mp hlate)
        have hlt' := slotId_lt_iff.mpr hlt
        bv_omega
  · -- a lower priority, or a tie, lost
    rw [heq]
    intro k hk
    have hold := h k hk
    by_cases htie : (tasks i).priority = sel.highestPriority
    · refine hold.stay (hgrown he htie) (le_of_lt (hi k hold.1.1)) fun hlate => ?_
      have hgt := hkeep htie (hk ▸ slotId_ne_sentinel k) (slotId_lt_iff.mpr hlate)
      rw [hk] at hgt
      exact slotId_lt_iff.mp hgt
    · exact hold.congr (hsame fun hi => htie hi.2)

/-- The whole loop. -/
theorem selectLoop_tieBroken (tick : BitVec 32) {vm : Vm} {cur : Fin 8} (hcur : vm.IsCurrent cur) :
    TieBroken tick vm.task cur (List.finRange 8) (selectLoop tick vm) := by
  -- Induction on the slots still to do, which lie above those seen.
  have general : ∀ (todo seen : List (Fin 8)) (sel : Selection), Selected tick vm.task seen sel →
      TieBroken tick vm.task cur seen sel → (seen ++ todo).Pairwise (· < ·) →
      TieBroken tick vm.task cur (seen ++ todo)
        (todo.foldl (fun sel i => selectStep vm.scheduler.currentTask sel (BitVec.ofNat 8 i.val)
          (wakeTask tick (vm.task i))) sel) := by
    intro todo
    induction todo with
    | nil =>
        intro seen sel _ h _
        rwa [List.append_nil]
    | cons i todo ih =>
        intro seen sel hsel h hord
        have hi : ∀ j ∈ seen, j < i := fun j hj =>
          (List.pairwise_append.mp hord).2.2 j hj i List.mem_cons_self
        have hstep := h.step hsel hi
        rw [← hcur] at hstep
        have hrest := ih (seen ++ [i]) _ (hsel.step vm.scheduler.currentTask i) hstep
        rw [List.append_assoc] at hrest
        exact hrest hord
  refine general (List.finRange 8) [] ⟨0, 0xFF⟩ (.none fun j hj => absurd hj List.not_mem_nil)
    (fun k hk => absurd hk.symm (slotId_ne_sentinel k)) ?_
  decide

/-! ## The answer -/

/-- **Selection.**  Without a candidate of positive priority the current slot is
    kept; otherwise the next candidate of highest priority is chosen. -/
theorem v4TaskSelectNext_nextIn (tick : BitVec 32) {vm : Vm} {cur : Fin 8}
    (hcur : vm.IsCurrent cur) :
    ((∀ j, (vm.task j).Eligible tick → (vm.task j).priority = 0) ∧
      v4TaskSelectNext tick vm = (vm.scheduler.currentTask, wakeAll tick vm)) ∨
    ∃ i : Fin 8, (vm.task i).priority ≠ 0 ∧ NextIn (Best tick vm) cur i ∧
      v4TaskSelectNext tick vm = (BitVec.ofNat 8 i.val, wakeAll tick vm) := by
  have hsel := selectLoop_selected tick vm
  have htie := selectLoop_tieBroken tick hcur
  rw [v4TaskSelectNext]
  generalize selectLoop tick vm = sel at hsel htie
  cases hsel with
  | none h => exact .inl ⟨fun j => h j (List.mem_finRange j), rfl⟩
  | some i he hp hmax =>
      refine .inr ⟨i, hp, (htie i rfl).congr fun j => ?_, ?_⟩
      · have hmax : ∀ j, (vm.task j).Eligible tick → (vm.task j).priority ≤ (vm.task i).priority :=
          fun j => hmax j (List.mem_finRange j)
        constructor
        · rintro ⟨-, hej, hpj⟩
          exact ⟨hej, fun c hc => hpj ▸ hmax c hc⟩
        · rintro ⟨hej, hbest⟩
          exact ⟨List.mem_finRange j, hej, BitVec.le_antisymm (hmax j hej) (hbest i he)⟩
      · simp only [if_neg (slotId_ne_sentinel i)]

theorem wakeAll_spec (tick : BitVec 32) (vm : Vm) (i : Fin 8) :
    wakeTask tick (vm.task i)
      = if (vm.task i).state = .blocked ∧ (vm.task i).sleepUntilTick ≤ tick then
          { vm.task i with state := .ready } else vm.task i := by
  simp [wakeTask, wakeDue]

/-- **The choice of the scheduler.**  It is as expected exactly when some candidate has
    a positive priority, or there is no candidate but the current slot. -/
theorem selection_law_iff {tick : BitVec 32} {vm : Vm} {cur : Fin 8} (hcur : vm.IsCurrent cur) :
    SelectionLaw tick vm cur ↔
      (∃ j, (vm.task j).Eligible tick ∧ (vm.task j).priority ≠ 0) ∨
        ∀ j, (vm.task j).Eligible tick → j = cur := by
  have hwake : ∃ tasks, wakeAll tick vm
      = { vm with scheduler := { vm.scheduler with tasks := tasks } } ∧
      ∀ i, tasks i = if (vm.task i).state = .blocked ∧ (vm.task i).sleepUntilTick ≤ tick then
        { vm.task i with state := .ready } else vm.task i :=
    ⟨_, rfl, wakeAll_spec tick vm⟩
  rw [SelectionLaw]
  obtain ⟨hzero, heq⟩ | ⟨i, hp, hnext, heq⟩ := v4TaskSelectNext_nextIn tick hcur
  · -- every candidate has priority 0: the answer is the current slot
    have hbest : ∀ j, Best tick vm j ↔ (vm.task j).Eligible tick := by
      intro j
      refine ⟨And.left, fun hj => ⟨hj, fun c hc => ?_⟩⟩
      rw [hzero c hc]
      exact Nat.zero_le _
    rw [heq, or_iff_right fun ⟨j, hj, hpj⟩ => hpj (hzero j hj)]
    constructor
    · rintro ⟨-, -, hchoice⟩ j hj
      obtain ⟨i, hi, hnext⟩ := hchoice ⟨j, hj⟩
      obtain rfl : cur = i := slotId_injective (hcur.symm.trans hi)
      obtain ⟨-, ⟨hlt, -⟩ | ⟨hall, hmin⟩⟩ := hnext
      · exact absurd hlt (lt_irrefl cur)
      · have hbj := (hbest j).mpr hj
        exact le_antisymm (hall j hbj) (hmin j hbj)
    · intro honly
      refine ⟨hwake, fun _ => rfl, fun ⟨j, hj⟩ => ⟨cur, hcur, ?_⟩⟩
      have hbcur : Best tick vm cur := (hbest cur).mpr (honly j hj ▸ hj)
      refine ⟨hbcur, .inr ⟨fun c hc => ?_, fun c hc => ?_⟩⟩
      · rw [honly c hc.1]
      · rw [honly c hc.1]
  · rw [heq]
    refine iff_of_true ⟨hwake, fun hnone => absurd hnext.1.1 (hnone i), fun _ => ⟨i, rfl, hnext⟩⟩ ?_
    exact .inl ⟨i, hnext.1.1, hp⟩

/-- Two tasks of priority 0, slot 0 being the current one. -/
def idlePair : Vm := vmAfter [.spawn 0 0 0 0 true true, .spawn 0 0 0 0 true true]

/-- The same with priority 1. -/
def busyPair : Vm := vmAfter [.spawn 0 1 0 0 true true, .spawn 0 1 0 0 true true]

/-- Equal tasks of priority 1 take turns. -/
theorem selection_law_busyPair : SelectionLaw 0 busyPair 0 :=
  (selection_law_iff (by decide)).mpr (.inl ⟨1, by decide⟩)

/-- Of two equal tasks of priority 0 the second is passed over. -/
theorem not_selection_law_idlePair :
    BackendReachable idlePair ∧ ¬ SelectionLaw 0 idlePair 0 := by
  refine ⟨vmAfter_reachable (by decide), ?_⟩
  rintro ⟨-, -, hchoice⟩
  obtain ⟨i, hi, hnext⟩ := hchoice ⟨0, by decide⟩
  have hkept : (v4TaskSelectNext 0 idlePair).1 = BitVec.ofNat 8 (0 : Fin 8).val := by decide
  obtain rfl : (0 : Fin 8) = i := slotId_injective (hkept.symm.trans hi)
  have hbest : Best 0 idlePair 1 := ⟨by decide, by decide⟩
  obtain ⟨-, ⟨hlt, -⟩ | ⟨hall, -⟩⟩ := hnext
  · exact absurd hlt (by decide)
  · exact absurd (hall 1 hbest) (by decide)

end V4Engine
