/-
  V4Engine.Task.Blocking

  The blocking receive.

  Each poll of the loop is an ordinary receive by whatever task is current at
  that moment, and the sleep between two polls may have made another task
  current.  So a call made by task `t` can end with a message for somebody else;
  it does not exactly when every poll meets `PollOwn`.
-/
import V4Engine.Task.Frame
import Mathlib.Data.List.Perm.Basic
import Mathlib.Data.Multiset.ZeroCons

namespace V4Engine

open Lib

/-- What a receive of `msgType` by task `t` may do to the pending messages: end
    without a message and leave them alone, or deliver one addressed to `t` or to
    everybody, of the right type, and remove exactly that one. -/
def Delivery (t msgType : BitVec 8) (q : List V4Message) :
    Option (Cell × BitVec 8) → List V4Message → Prop
  | none, q' => q' = q
  | some (data, src), q' => ∃ (i : Nat) (h : i < q.length),
      data = q[i].data ∧ src = q[i].srcTask ∧ q' = q.eraseIdx i ∧
        (q[i].dstTask = t ∨ q[i].dstTask = 0xFF) ∧ (msgType = 0 ∨ q[i].msgType = msgType)

/-- A poll on behalf of `t` made while `t` is current, or one whose first match,
    if any, is a broadcast. -/
def PollOwn (t msgType : BitVec 8) (vm : Vm) : Prop :=
  vm.scheduler.currentTask = t ∨
    ∀ i, vm.msgQueue.contents.findIdx?
        (V4Message.wanted vm.scheduler.currentTask msgType) = some i →
      (vm.msgQueue.pending i).dstTask = 0xFF

instance (t msgType : BitVec 8) (vm : Vm) : Decidable (PollOwn t msgType vm) :=
  inferInstanceAs (Decidable (_ ∨ _))

/-- Every one of the first `fuel` polls of the loop meets `PollOwn`. -/
def PollsOwn (tick : Nat → BitVec 32) (t msgType : BitVec 8) (timeoutMs start : BitVec 32) :
    Nat → Nat → Vm → Prop
  | 0, _, _ => True
  | fuel + 1, n, vm => PollOwn t msgType vm ∧
      ∀ r, receiveBlockingPoll tick msgType timeoutMs start n vm = some r → r.1 = .again →
        PollsOwn tick t msgType timeoutMs start fuel r.2.1 r.2.2

instance PollsOwn.decide (tick : Nat → BitVec 32) (t msgType : BitVec 8)
    (timeoutMs start : BitVec 32) :
    ∀ (fuel n : Nat) (vm : Vm), Decidable (PollsOwn tick t msgType timeoutMs start fuel n vm)
  | 0, _, _ => isTrue trivial
  | fuel + 1, n, vm =>
      have : ∀ n vm, Decidable (PollsOwn tick t msgType timeoutMs start fuel n vm) :=
        PollsOwn.decide tick t msgType timeoutMs start fuel
      inferInstanceAs (Decidable (PollOwn t msgType vm ∧
        ∀ r, receiveBlockingPoll tick msgType timeoutMs start n vm = some r → r.1 = .again →
          PollsOwn tick t msgType timeoutMs start fuel r.2.1 r.2.2))

/-! ## One message -/

/-- Removing either of two messages leaves the same list only if they are equal. -/
theorem getElem_eq_of_eraseIdx_eq {α : Type} {l : List α} {i j : Nat} (hi : i < l.length)
    (hj : j < l.length) (h : l.eraseIdx i = l.eraseIdx j) : l[i] = l[j] := by
  have hperm : (l[i] :: l.eraseIdx i).Perm (l[j] :: l.eraseIdx i) :=
    (List.getElem_cons_eraseIdx_perm hi).trans (h ▸ (List.getElem_cons_eraseIdx_perm hj).symm)
  exact (Multiset.cons_inj_left (l.eraseIdx i : Multiset α)).mp (Multiset.coe_eq_coe.mpr hperm)

theorem wanted_iff {current msgType : BitVec 8} {msg : V4Message} :
    msg.wanted current msgType = true ↔
      (msg.dstTask = current ∨ msg.dstTask = 0xFF) ∧ (msgType = 0 ∨ msg.msgType = msgType) := by
  simp [V4Message.wanted]

/-- A poll that finds a message delivers legally exactly when it is own. -/
theorem delivery_iff_pollOwn {t msgType : BitVec 8} {vm : Vm} (hq : vm.msgQueue.WF) {i : Nat}
    (hi : i < vm.msgQueue.count.toNat)
    (hfind : vm.msgQueue.contents.findIdx?
      (V4Message.wanted vm.scheduler.currentTask msgType) = some i) :
    Delivery t msgType vm.msgQueue.contents
        (some ((vm.msgQueue.pending i).data, (vm.msgQueue.pending i).srcTask))
        (vm.msgQueue.removeAt i).contents ↔
      PollOwn t msgType vm := by
  have hlen : i < vm.msgQueue.contents.length := by simpa using hi
  have hget : vm.msgQueue.contents[i] = vm.msgQueue.pending i :=
    vm.msgQueue.contents_getElem i hlen
  obtain ⟨_, hw, _⟩ := List.findIdx?_eq_some_iff_getElem.mp hfind
  rw [hget, wanted_iff] at hw
  rw [V4MsgQueue.contents_removeAt hq.count hi, PollOwn, hfind]
  constructor
  · rintro ⟨j, hj, -, -, herase, hdst, -⟩
    -- The erased message is determined by what is left of the queue.
    have heq := getElem_eq_of_eraseIdx_eq hlen hj herase
    rw [← heq, hget] at hdst
    rcases hw.1 with hcur | hall
    · rcases hdst with ht | hall
      · exact .inl (hcur.symm.trans ht)
      · exact .inr fun k hk => Option.some.inj hk ▸ hall
    · exact .inr fun k hk => Option.some.inj hk ▸ hall
  · intro hown
    refine ⟨i, hlen, by rw [hget], by rw [hget], rfl, ?_, by rw [hget]; exact hw.2⟩
    rw [hget]
    rcases hown with hcur | hall
    · exact hcur ▸ hw.1
    · exact .inr (hall i rfl)

/-! ## One poll -/

/-- What one poll does: deliver the first match, or find none and then give up
    or sleep. -/
theorem receiveBlockingPoll_cases {tick : Nat → BitVec 32} {msgType : BitVec 8}
    {timeoutMs start : BitVec 32} {n : Nat} {vm : Vm} {r : Poll × Nat × Vm}
    (hpoll : receiveBlockingPoll tick msgType timeoutMs start n vm = some r) :
    (∃ i, i < vm.msgQueue.count.toNat ∧
      vm.msgQueue.contents.findIdx? (V4Message.wanted vm.scheduler.currentTask msgType) = some i ∧
      r.1 = .received (vm.msgQueue.pending i).data (vm.msgQueue.pending i).srcTask ∧
      r.2.2 = { vm with msgQueue := vm.msgQueue.removeAt i }) ∨
    (vm.msgQueue.contents.findIdx? (V4Message.wanted vm.scheduler.currentTask msgType) = none ∧
      ((r.1 = .timeout ∧ r.2.2 = vm) ∨
        (r.1 = .again ∧ ∃ t t', v4BackendTaskSleep 10 t t' vm = some r.2.2))) := by
  obtain ⟨hnone, hr⟩ | ⟨i, hi, hsome, hr⟩ := v4BackendTaskReceive_cases vm msgType
  · rw [receiveBlockingPoll, hr] at hpoll
    simp only at hpoll
    refine .inr ⟨hnone, ?_⟩
    split at hpoll
    · cases hpoll
      exact .inl ⟨rfl, rfl⟩
    · obtain ⟨vm', hsleep, hpoll⟩ := Option.map_eq_some_iff.mp hpoll
      subst hpoll
      exact .inr ⟨rfl, _, _, hsleep⟩
  · rw [receiveBlockingPoll, hr] at hpoll
    cases hpoll
    exact .inl ⟨i, hi, hsome, rfl, rfl⟩

/-- A poll that finds nothing is own. -/
theorem PollOwn.of_none {t msgType : BitVec 8} {vm : Vm}
    (h : vm.msgQueue.contents.findIdx?
      (V4Message.wanted vm.scheduler.currentTask msgType) = none) : PollOwn t msgType vm :=
  .inr fun i hi => by rw [h] at hi; cases hi

/-! ## The loop -/

/-- **The loop**, by induction on the number of polls: its result is legal exactly
    when all its polls are own. -/
theorem receiveBlockingLoop_delivery_iff {tick : Nat → BitVec 32} {t msgType : BitVec 8}
    {timeoutMs start : BitVec 32} {fuel n : Nat} {vm vm' : Vm} {r : Option (Cell × BitVec 8)}
    (h : BackendInv vm)
    (hrun : receiveBlockingLoop tick msgType timeoutMs start fuel n vm = some (some (r, vm'))) :
    Delivery t msgType vm.msgQueue.contents r vm'.msgQueue.contents ↔
      PollsOwn tick t msgType timeoutMs start fuel n vm := by
  induction fuel generalizing n vm with
  | zero => cases hrun
  | succ fuel ih =>
      rw [receiveBlockingLoop] at hrun
      cases hpoll : receiveBlockingPoll tick msgType timeoutMs start n vm with
      | none => rw [hpoll] at hrun; cases hrun
      | some p =>
          obtain ⟨answer, n', v⟩ := p
          rw [hpoll] at hrun
          rw [PollsOwn, hpoll]
          obtain ⟨i, hi, hsome, hans, hv⟩ | ⟨hnone, hend⟩ := receiveBlockingPoll_cases hpoll
          · -- The poll delivers: the loop ends with its message.
            simp only at hans hv
            subst hans hv
            cases hrun
            rw [delivery_iff_pollOwn h.queue hi hsome]
            refine ⟨fun hown => ⟨hown, fun r hr hagain => ?_⟩, And.left⟩
            cases hr
            cases hagain
          · have hown : PollOwn t msgType vm := .of_none hnone
            obtain ⟨hans, hv⟩ | ⟨hans, t1, t2, hsleep⟩ := hend
            · -- the timeout has passed: the loop ends without a message
              simp only at hans hv
              subst hans hv
              cases hrun
              refine iff_of_true rfl ⟨hown, fun r hr hagain => ?_⟩
              cases hr
              cases hagain
            · -- the task sleeps and the loop goes on, the queue as it was
              simp only at hans hsleep
              subst hans
              have hinv := h.step (o := .sleep 10 t1 t2) hsleep
              have hqueue := sleep_keeps_msgQueue hsleep
              have hrest := ih hinv hrun
              rw [hqueue] at hrest
              rw [hrest]
              refine ⟨fun hp => ⟨hown, fun r hr _ => ?_⟩, fun hp => hp.2 _ rfl rfl⟩
              obtain rfl := Option.some.inj hr
              exact hp

/-- **Blocking receive.**  In a reachable state, a call that returns has delivered
    to its caller exactly when every poll it made is own. -/
theorem receive_blocking_delivers_iff {vm vm' : Vm} (h : BackendReachable vm)
    (tick : Nat → BitVec 32) (msgType : BitVec 8) (timeoutMs : BitVec 32) (fuel : Nat)
    (r : Option (Cell × BitVec 8))
    (hrun : v4BackendTaskReceiveBlocking tick msgType timeoutMs fuel vm = some (some (r, vm'))) :
    Delivery vm.scheduler.currentTask msgType vm.msgQueue.contents r vm'.msgQueue.contents ↔
      PollsOwn tick vm.scheduler.currentTask msgType timeoutMs (tick 0) fuel 1 vm :=
  receiveBlockingLoop_delivery_iff h.inv hrun

/-- Two tasks, the first of higher priority and current. -/
def twoTasks : List BackendOp :=
  [.spawn 0 2 0 0 true true, .spawn 0 1 0 0 true true, .schedule 0]

/-- A waiting task whose message is already there gets it. -/
theorem receive_blocking_own_message :
    ∃ vm', v4BackendTaskReceiveBlocking (fun _ => 0) 7 0 1 (vmAfter (twoTasks ++ [.send 0 7 42]))
        = some (some (some (42, 0), vm')) ∧
      Delivery 0 7 (vmAfter (twoTasks ++ [.send 0 7 42])).msgQueue.contents (some (42, 0))
        vm'.msgQueue.contents := by
  have hreach : BackendReachable (vmAfter (twoTasks ++ [.send 0 7 42])) :=
    vmAfter_reachable (by decide)
  refine ⟨_, rfl, ?_⟩
  refine (receive_blocking_delivers_iff hreach (fun _ => 0) 7 0 1 (some (42, 0)) rfl).mpr ?_
  decide

/-- Task 0 waits with a message for task 1 pending: its first poll finds nothing,
    the sleep makes task 1 current, and the second poll takes the message. -/
theorem receive_blocking_foreign_message :
    (vmAfter (twoTasks ++ [.send 1 7 42])).scheduler.currentTask = 0 ∧
      (vmAfter (twoTasks ++ [.send 1 7 42])).msgQueue.contents = [⟨0, 1, 7, 0, 42⟩] ∧
      (v4BackendTaskReceiveBlocking (fun _ => 0) 7 0 2
          (vmAfter (twoTasks ++ [.send 1 7 42]))).map
            (Option.map fun r => (r.1, r.2.msgQueue.contents))
        = some (some (some (42, 0), [])) ∧
      ¬ Delivery 0 7 [⟨0, 1, 7, 0, 42⟩] (some (42, 0)) [] := by
  refine ⟨by decide, by decide, by decide, ?_⟩
  rintro ⟨i, hi, -, -, -, hdst, -⟩
  have h0 : i = 0 := Nat.lt_one_iff.mp hi
  subst h0
  exact absurd (show (1 : BitVec 8) = 0 ∨ (1 : BitVec 8) = 0xFF from hdst) (by decide)

end V4Engine
