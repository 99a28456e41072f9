/-
  V4Engine.Task.Rotation

  Equal tasks take turns.

  While the tasks of a set `S` share the highest priority among those that can run,
  each `vm_task_yield` makes the next member of `S` the current task, in cyclic
  ascending order.  `Rotating` is the state that a yield keeps; `round_robin` counts
  the turns of a whole run.
-/
import V4Engine.Task.Choice

namespace V4Engine

open Lib

/-- The members of a set of slots, in ascending order. -/
def turnsOf (S : Finset (Fin 8)) : List (Fin 8) := (List.finRange 8).filter (· ∈ S)

/-- The member `m` places after `cur` in the cyclic ascending order of `S`. -/
def memberAfter (S : Finset (Fin 8)) (cur : Fin 8) (m : Nat) : Option (Fin 8) :=
  (turnsOf S)[((turnsOf S).idxOf cur + m) % (turnsOf S).length]?

/-- The current task after one yield for each of the ticks. -/
def currentAfter (ticks : List (BitVec 32)) (vm : Vm) : Option (BitVec 8) :=
  (exec backendStep (ticks.map .yield) vm).map fun vm => vm.scheduler.currentTask

/-- The tasks of `S` can run and share the priority `p`; every other task is DEAD, of
    lower priority, or a sleeper that is not due at any of the ticks. -/
structure Rotating (S : Finset (Fin 8)) (p : BitVec 8) (ticks : List (BitVec 32)) (vm : Vm) :
    Prop where
  wf : SchedWF vm
  positive : p ≠ 0
  member : ∀ i ∈ S, ((vm.task i).state = .ready ∨ (vm.task i).state = .running) ∧
    (vm.task i).priority = p
  other : ∀ i, i ∉ S → (vm.task i).state = .dead ∨ (vm.task i).priority < p ∨
    ((vm.task i).state = .blocked ∧ ∀ tick ∈ ticks, ¬ wakeDue tick (vm.task i))

/-! ## The cyclic order -/

@[simp] theorem mem_turnsOf {S : Finset (Fin 8)} {i : Fin 8} : i ∈ turnsOf S ↔ i ∈ S := by
  simp [turnsOf]

theorem turnsOf_pairwise (S : Finset (Fin 8)) : (turnsOf S).Pairwise (· < ·) := by
  have hall : (List.finRange 8).Pairwise (· < ·) := by decide
  exact hall.filter _

theorem turnsOf_nodup (S : Finset (Fin 8)) : (turnsOf S).Nodup :=
  (turnsOf_pairwise S).imp fun h => ne_of_lt h

theorem turnsOf_pos {S : Finset (Fin 8)} {i : Fin 8} (hi : i ∈ S) : 0 < (turnsOf S).length :=
  List.length_pos_of_mem (mem_turnsOf.mpr hi)

theorem idxOf_lt {S : Finset (Fin 8)} {i : Fin 8} (hi : i ∈ S) :
    (turnsOf S).idxOf i < (turnsOf S).length :=
  List.idxOf_lt_length_of_mem (mem_turnsOf.mpr hi)

/-- A member comes round when the number of steps leads to its position. -/
theorem memberAfter_eq_iff {S : Finset (Fin 8)} {cur i : Fin 8} (hi : i ∈ S) (m : Nat) :
    memberAfter S cur m = some i ↔
      ((turnsOf S).idxOf cur + m) % (turnsOf S).length = (turnsOf S).idxOf i := by
  have hlt := Nat.mod_lt ((turnsOf S).idxOf cur + m) (turnsOf_pos hi)
  rw [memberAfter, List.getElem?_eq_getElem hlt, Option.some_inj]
  constructor
  · rintro rfl
    exact ((turnsOf_nodup S).idxOf_getElem _ hlt).symm
  · intro h
    have hget := List.getElem_idxOf (idxOf_lt hi)
    simp only [h, hget]

theorem memberAfter_zero {S : Finset (Fin 8)} {cur : Fin 8} (hcur : cur ∈ S) :
    memberAfter S cur 0 = some cur :=
  (memberAfter_eq_iff hcur 0).mpr (Nat.mod_eq_of_lt (idxOf_lt hcur))

/-- One step starts the rest of the walk at the next member. -/
theorem memberAfter_next {S : Finset (Fin 8)} {cur next : Fin 8} (hcur : cur ∈ S)
    (h : NextIn (· ∈ S) cur next) (m : Nat) :
    memberAfter S next m = memberAfter S cur (m + 1) := by
  have hk := Nat.mod_lt ((turnsOf S).idxOf cur + 1) (turnsOf_pos hcur)
  have hpos := nextIn_getElem (turnsOf_pairwise S) (idxOf_lt hcur) hk rfl
  rw [List.getElem_idxOf] at hpos
  have hnext : (turnsOf S).idxOf next
      = ((turnsOf S).idxOf cur + 1) % (turnsOf S).length := by
    obtain rfl := h.unique (hpos.congr fun _ => mem_turnsOf)
    exact (turnsOf_nodup S).idxOf_getElem _ hk
  rw [memberAfter, memberAfter, hnext, Nat.mod_add_mod, Nat.add_assoc,
    Nat.add_comm 1 m]

/-! ## One yield -/

/-- `vm_schedule` goes on with the slot that selection returns. -/
theorem vmSchedule_current {tick : BitVec 32} {vm vm' : Vm} (h : SchedWF vm)
    (hs : vmSchedule tick vm = some vm') :
    vm'.scheduler.currentTask = (v4TaskSelectNext tick (parked vm h.cur)).1 := by
  rw [vmSchedule, h.taskPtr] at hs
  simp only [Option.bind_eq_bind, Option.bind_some, parkCurrent_eq h.rp] at hs
  generalize v4TaskSelectNext tick (parked vm h.cur) = answer at hs ⊢
  split at hs
  case isTrue hstay =>
    cases hs
    exact hstay.1.symm
  case isFalse =>
    obtain ⟨next, hptr, hswitch⟩ := Option.bind_eq_some_iff.mp hs
    obtain ⟨mid, -, rfl⟩ := Option.map_eq_some_iff.mp hswitch
    apply BitVec.eq_of_toNat_eq
    rw [Vm.taskPtr_eq_some.mp hptr]
    exact slotId_toNat next

namespace Rotating

variable {S : Finset (Fin 8)} {p : BitVec 8} {tick : BitVec 32} {ticks : List (BitVec 32)}
  {vm : Vm}

theorem mono {ticks' : List (BitVec 32)} (h : Rotating S p ticks vm) (hsub : ticks' ⊆ ticks) :
    Rotating S p ticks' vm where
  wf := h.wf
  positive := h.positive
  member := h.member
  other i hi := (h.other i hi).imp id fun h =>
    h.imp id fun ⟨hb, hdue⟩ => ⟨hb, fun tick ht => hdue tick (hsub ht)⟩

theorem eligible (h : Rotating S p ticks vm) {i : Fin 8} (hi : i ∈ S) (tick : BitVec 32) :
    (vm.task i).Eligible tick := by
  rcases (h.member i hi).1 with hs | hs
  · exact .inl hs
  · exact .inr (.inl hs)

/-- A candidate outside `S` has a lower priority. -/
theorem lower (h : Rotating S p (tick :: ticks) vm) {i : Fin 8} (hi : i ∉ S)
    (he : (vm.task i).Eligible tick) : (vm.task i).priority < p := by
  obtain hdead | hlow | ⟨hb, hdue⟩ := h.other i hi
  · rw [V4Task.Eligible, hdead] at he
    simp at he
  · exact hlow
  · rw [V4Task.Eligible, hb] at he
    have hnot := hdue tick List.mem_cons_self
    simp [hnot] at he

/-- The candidates of highest priority are the members of `S`. -/
theorem best_iff (h : Rotating S p (tick :: ticks) vm) {cur : Fin 8} (hcur : cur ∈ S)
    (i : Fin 8) : Best tick (parked vm cur) i ↔ i ∈ S := by
  simp only [Best, parked_eligible_iff, parked_priority]
  constructor
  · rintro ⟨he, hmax⟩
    by_contra hi
    have hle := hmax cur (h.eligible hcur tick)
    rw [(h.member cur hcur).2] at hle
    exact BitVec.not_lt.mpr hle (h.lower hi he)
  · intro hi
    refine ⟨h.eligible hi tick, fun j hj => ?_⟩
    rw [(h.member i hi).2]
    by_cases hjS : j ∈ S
    · exact BitVec.le_of_eq (h.member j hjS).2
    · exact BitVec.le_of_lt (h.lower hjS hj)

/-- What a slot other than the chosen one looks like after a yield. -/
theorem parked_task (h : Rotating S p ticks vm) {cur : Fin 8} (hcur : cur ∈ S) (i : Fin 8) :
    ((parked vm cur).task i).priority = (vm.task i).priority ∧
      (i ∈ S → ((parked vm cur).task i).state = .ready ∨
        ((parked vm cur).task i).state = .running) ∧
      (i ∉ S → (parked vm cur).task i = vm.task i) := by
  refine ⟨parked_priority vm cur i, fun hi => ?_, fun hi => ?_⟩
  · by_cases hic : i = cur
    · subst hic
      rw [parked_task_self]
      split
      · exact .inl rfl
      · exact (h.member i hi).1
    · rw [parked_task_of_ne hic]
      exact (h.member i hi).1
  · exact parked_task_of_ne fun hic => hi (hic ▸ hcur)

/-- **One yield.**  The next member of `S` becomes the current task, and `S` goes on
    taking turns. -/
theorem yield (h : Rotating S p (tick :: ticks) vm) {cur : Fin 8} (hcur : cur ∈ S)
    (hc : vm.IsCurrent cur) : ∃ vm' next, backendStep (.yield tick) vm = some vm' ∧
      Rotating S p ticks vm' ∧ vm'.IsCurrent next ∧ NextIn (· ∈ S) cur next := by
  obtain ⟨vm', heq, hs⟩ := vmSchedule_scheduled h.wf tick
  have hslot : cur = h.wf.cur := (h.wf.isCurrent_iff cur).mp hc
  -- the chosen slot
  obtain ⟨next, hnext, hcurrent⟩ : ∃ next, NextIn (· ∈ S) cur next ∧ vm'.IsCurrent next := by
    have hpc : (parked vm cur).IsCurrent cur := (parked_currentTask vm cur).trans hc
    obtain ⟨hzero, -⟩ | ⟨next, -, hnext, hsel⟩ := v4TaskSelectNext_nextIn tick hpc
    · refine absurd (hzero cur ((parked_eligible_iff ..).mpr (h.eligible hcur tick))) ?_
      rw [parked_priority, (h.member cur hcur).2]
      exact h.positive
    · refine ⟨next, hnext.congr (h.best_iff hcur), ?_⟩
      rw [Vm.IsCurrent, vmSchedule_current h.wf heq, ← hslot, hsel]
  refine ⟨vm', next, heq, ?_, hcurrent, hnext⟩
  -- the table
  obtain ⟨next', -, hcurrent', ⟨n, hself⟩, hrest⟩ := hs.task_eq
  obtain rfl : next = next' := slotId_injective (hcurrent.symm.trans hcurrent')
  rw [← hslot] at hself hrest
  refine ⟨hs.wf, h.positive, fun i hi => ?_, fun i hi => ?_⟩
  · obtain ⟨hp, hrun, -⟩ := h.parked_task hcur i
    by_cases hin : i = next
    · subst hin
      rw [hself]
      exact ⟨.inr rfl, (wakeTask_priority ..).trans (hp.trans (h.member i hi).2)⟩
    · have hawake : ((parked vm cur).task i).state ≠ .blocked := by
        intro hb
        rcases hrun hi with hr | hr <;> rw [hb] at hr <;> cases hr
      rw [hrest i hin, wakeTask_of_not_blocked hawake]
      exact ⟨hrun hi, hp.trans (h.member i hi).2⟩
  · have hin : i ≠ next := fun heq => hi (heq ▸ hnext.1)
    rw [hrest i hin, (h.parked_task hcur i).2.2 hi]
    obtain hdead | hlow | ⟨hb, hdue⟩ := h.other i hi
    · exact .inl ((wakeTask_dead_iff ..).mpr hdead)
    · exact .inr (.inl ((wakeTask_priority ..).symm ▸ hlow))
    · have hkeep : wakeTask tick (vm.task i) = vm.task i := by
        obtain ⟨-, hd, -⟩ | ⟨-, heq⟩ := wakeTask_cases tick (vm.task i)
        · exact absurd hd (hdue tick List.mem_cons_self)
        · exact heq
      rw [hkeep]
      exact .inr (.inr ⟨hb, fun tick ht => hdue tick (List.mem_cons_of_mem _ ht)⟩)

/-- **A run of yields.** -/
theorem run (h : Rotating S p ticks vm) {cur : Fin 8} (hcur : cur ∈ S) (hc : vm.IsCurrent cur) :
    ∃ next, memberAfter S cur ticks.length = some next ∧
      currentAfter ticks vm = some (BitVec.ofNat 8 next.val) := by
  induction ticks generalizing vm cur with
  | nil => exact ⟨cur, memberAfter_zero hcur, congrArg some hc⟩
  | cons tick ticks ih =>
      obtain ⟨vm', next, heq, hrot, hc', hnext⟩ := h.yield hcur hc
      obtain ⟨last, hlast, hafter⟩ := ih hrot hnext.1 hc'
      refine ⟨last, ?_, ?_⟩
      · rw [List.length_cons, ← memberAfter_next hcur hnext]
        exact hlast
      · rw [currentAfter, List.map_cons, exec_cons, heq]
        exact hafter

end Rotating

/-- **Round robin.**  After `m` yields the current task is the member of `S` that lies
    `m` places after the starting one, and in whole rounds every member of `S` has the
    same number of turns. -/
theorem round_robin {S : Finset (Fin 8)} {p : BitVec 8} {ticks : List (BitVec 32)} {vm : Vm}
    (h : Rotating S p ticks vm) {cur : Fin 8} (hcur : cur ∈ S) (hc : vm.IsCurrent cur) :
    (∀ m, m ≤ ticks.length → ∃ i, memberAfter S cur m = some i ∧
      currentAfter (ticks.take m) vm = some (BitVec.ofNat 8 i.val)) ∧
    ∀ n, ticks.length = n * S.card → ∀ i ∈ S,
      Nat.count (fun m => currentAfter (ticks.take (m + 1)) vm = some (BitVec.ofNat 8 i.val))
        ticks.length = n := by
  have hstep : ∀ m, m ≤ ticks.length → ∃ i, memberAfter S cur m = some i ∧
      currentAfter (ticks.take m) vm = some (BitVec.ofNat 8 i.val) := by
    intro m hm
    obtain ⟨i, hi, hafter⟩ := (h.mono (List.take_subset m ticks)).run hcur hc
    rw [List.length_take, Nat.min_eq_left hm] at hi
    exact ⟨i, hi, hafter⟩
  refine ⟨hstep, fun n hn i hi => ?_⟩
  have hcard : (turnsOf S).length = S.card := by
    rw [← List.toFinset_card_of_nodup (turnsOf_nodup S)]
    congr 1
    ext i
    rw [List.mem_toFinset, mem_turnsOf]
  -- turn `m` is the turn of `i` when the position after `m + 1` steps is its position
  have hturn : ∀ m, m < ticks.length →
      (currentAfter (ticks.take (m + 1)) vm = some (BitVec.ofNat 8 i.val) ↔
        ((turnsOf S).idxOf cur + 1 + m) % (turnsOf S).length = (turnsOf S).idxOf i) := by
    intro m hm
    obtain ⟨k, hk, hafter⟩ := hstep (m + 1) hm
    have hpos : memberAfter S cur (m + 1) = some i ↔ _ := memberAfter_eq_iff hi (m + 1)
    rw [hk, ← Nat.add_assoc, Nat.add_right_comm] at hpos
    rw [hafter, Option.some_inj, ← hpos, Option.some_inj]
    exact ⟨fun heq => slotId_injective heq, fun heq => heq ▸ rfl⟩
  have hcount := count_turns (idxOf_lt hi) ((turnsOf S).idxOf cur + 1) n
  rw [hcard, ← hn] at hcount
  rw [← hcard] at hn
  rw [← hcount, Nat.count_eq_card_filter_range, Nat.count_eq_card_filter_range]
  congr 1
  refine Finset.filter_congr fun m hm => ?_
  rw [hturn m (Finset.mem_range.mp hm), hcard]

/-- Three tasks of priority 1, the second of them running. -/
def threeTasks : Vm :=
  vmAfter [.spawn 0 1 0 0 true true, .spawn 0 1 0 0 true true, .spawn 0 1 0 0 true true,
    .schedule 0]

/-- Six yields of three tasks: each has two turns. -/
theorem round_robin_threeTasks :
    currentAfter [1, 2, 3, 4] threeTasks = some 2 ∧
      Nat.count (fun m => currentAfter ([1, 2, 3, 4, 5, 6].take (m + 1)) threeTasks = some 2) 6
        = 2 := by
  have hreach : BackendReachable threeTasks := vmAfter_reachable (by decide)
  have hrot : Rotating {0, 1, 2} 1 [1, 2, 3, 4, 5, 6] threeTasks :=
    ⟨hreach.inv.sched, by decide, by decide, by decide⟩
  have hcur : threeTasks.IsCurrent 1 := by decide
  obtain ⟨hafter, hturns⟩ := round_robin hrot (by decide) hcur
  obtain ⟨i, hi, hlast⟩ := hafter 4 (by decide)
  have h4 : memberAfter {0, 1, 2} 1 4 = some 2 := by decide
  obtain rfl : 2 = i := Option.some.inj (h4.symm.trans hi)
  exact ⟨hlast, hturns 2 (by decide) 2 (by decide)⟩

end V4Engine
