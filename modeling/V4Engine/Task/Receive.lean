/-
  V4Engine.Task.Receive

  One receive, and how long a blocking receive waits.

  A receive takes the oldest message that is meant for the current task and of
  the type asked for, whatever the position of the ring and of its write index
  (`receive_first_match`).  The polling loop of the blocking receive makes one
  reading of the tick counter for each timeout check and two more in the sleep
  that follows; `CheckClock` relates the readings at the checks to true time,
  and the loop gives up at the first check at which the timeout is over
  (`receive_blocking_times_out`).
-/
import V4Engine.Task.Blocking
import V4Engine.Lib.Elapsed

namespace V4Engine

open Lib

/-! ## One receive -/

/-- The result code of `v4_backend_task_receive` and its two output variables, which
    hold `data0` and `src0` before the call. -/
def receiveOutputs (data0 : Cell) (src0 : BitVec 8) :
    Option (Cell × BitVec 8) → Int × Cell × BitVec 8
  | some (data, src) => (1, data, src)
  | none => (0, data0, src0)

/-- Message `msg` may be received by task `current` asking for `msgType`. -/
def V4Message.Meets (msg : V4Message) (current msgType : BitVec 8) : Prop :=
  (msg.dstTask = current ∨ msg.dstTask = 0xFF) ∧ (msgType = 0 ∨ msg.msgType = msgType)

/-- What a receive with outcome `r` did to the queue `q`, a list of pending messages:
    it took the first one that meets the request, or there is none. -/
def TakesFirst (current msgType : BitVec 8) (q : List V4Message) (data0 : Cell) (src0 : BitVec 8)
    (r : Int × Cell × BitVec 8) (q' : List V4Message) : Prop :=
  (∃ (i : Nat) (h : i < q.length), q[i].Meets current msgType ∧
      (∀ (j : Nat) (hj : j < i), ¬ q[j].Meets current msgType) ∧
      r = (1, q[i].data, q[i].srcTask) ∧ q' = q.eraseIdx i) ∨
    ((∀ msg ∈ q, ¬ msg.Meets current msgType) ∧ r = (0, data0, src0) ∧ q' = q)

/-- The VM with current task `current` and a full ring read from slot `readIdx` on, of which
    `msgs` are pending. -/
def Vm.withRing (vm : Vm) (current readIdx : BitVec 8) (msgs : List V4Message) : Vm :=
  { vm.withCurrent current with
    msgQueue :=
      { queue := fun i => msgs.getD ((i + 16 - readIdx.toNat) % 16) .zero
        readIdx := readIdx
        writeIdx := 0
        count := BitVec.ofNat 8 msgs.length } }

/-- **One receive.**  On any ring whose counter is within its size, it succeeds exactly
    when some pending message meets the request, takes the first such message and leaves
    the others in order; otherwise nothing at all changes. -/
theorem receive_first_match (vm : Vm) (msgType : BitVec 8) (data0 : Cell) (src0 : BitVec 8)
    (hcount : vm.msgQueue.count.toNat ≤ 16) :
    ((receiveOutputs data0 src0 (v4BackendTaskReceive msgType vm).1).1 = 1 ↔
      ∃ msg ∈ vm.msgQueue.contents, msg.Meets vm.scheduler.currentTask msgType) ∧
    TakesFirst vm.scheduler.currentTask msgType vm.msgQueue.contents data0 src0
      (receiveOutputs data0 src0 (v4BackendTaskReceive msgType vm).1)
      (v4BackendTaskReceive msgType vm).2.msgQueue.contents ∧
    ((v4BackendTaskReceive msgType vm).1 = none → (v4BackendTaskReceive msgType vm).2 = vm) := by
  obtain ⟨hnone, hr⟩ | ⟨i, hi, hsome, hr⟩ := v4BackendTaskReceive_cases vm msgType
  · -- nothing in the queue meets the call, and the outputs stay as they were given
    have hno : ∀ msg ∈ vm.msgQueue.contents, ¬ msg.Meets vm.scheduler.currentTask msgType := by
      intro msg hmem hmeets
      have := List.findIdx?_eq_none_iff.mp hnone msg hmem
      rw [wanted_iff.mpr hmeets] at this
      cases this
    rw [hr]
    refine ⟨⟨fun h => ?_, fun ⟨msg, hmem, hmeets⟩ => absurd hmeets (hno msg hmem)⟩,
      .inr ⟨hno, rfl, rfl⟩, fun _ => rfl⟩
    exact absurd h (by simp [receiveOutputs])
  · obtain ⟨hlen, hw, hfirst⟩ := List.findIdx?_eq_some_iff_getElem.mp hsome
    have hget : vm.msgQueue.contents[i] = vm.msgQueue.pending i :=
      vm.msgQueue.contents_getElem i hlen
    have hmeets := wanted_iff.mp hw
    rw [hr]
    refine ⟨iff_of_true rfl ⟨_, List.getElem_mem hlen, hmeets⟩,
      .inl ⟨i, hlen, hmeets, fun j hj hm => hfirst j hj (wanted_iff.mpr hm), ?_, ?_⟩, ?_⟩
    · rw [hget]
      rfl
    · exact V4MsgQueue.contents_removeAt hcount hi
    · simp

/-- A ring of three messages across the wrap point, the second one for task 3. -/
theorem receive_second_of_three :
    TakesFirst 3 7 [⟨0, 2, 7, 0, 10⟩, ⟨1, 3, 7, 0, 20⟩, ⟨2, 3, 7, 0, 30⟩] 0 0 (1, 20, 1)
      [⟨0, 2, 7, 0, 10⟩, ⟨2, 3, 7, 0, 30⟩] :=
  (receive_first_match
    (Vm.blank.withRing 3 15 [⟨0, 2, 7, 0, 10⟩, ⟨1, 3, 7, 0, 20⟩, ⟨2, 3, 7, 0, 30⟩])
    7 0 0 (by decide)).2.1

/-! ## Waiting for a message -/

/-- The readings of the tick counter at the timeout checks of a blocking receive:
    `elapsed k` is the true time from the start of the call to its `k`-th check. -/
structure CheckClock (tick : Nat → BitVec 32) (timeoutMs : BitVec 32) (elapsed : Nat → Nat) :
    Prop where
  reading : ∀ k, tick (3 * k + 1) = tick 0 + BitVec.ofNat 32 (elapsed k)
  steady : Steady (2 ^ 32 - timeoutMs.toNat) elapsed
  reached : ∃ k, timeoutMs.toNat ≤ elapsed k

/-- The state after `j` polls that found no message, each followed by its 10 ms sleep. -/
inductive Slept (tick : Nat → BitVec 32) (msgType : BitVec 8) (vm : Vm) : Nat → Vm → Prop where
  | start : Slept tick msgType vm 0 vm
  | again {j : Nat} {w w' : Vm} (h : Slept tick msgType vm j w)
      (hnone : v4BackendTaskReceive msgType w = (none, w))
      (hsleep : v4BackendTaskSleep 10 (tick (3 * j + 2)) (tick (3 * j + 3)) w = some w') :
      Slept tick msgType vm (j + 1) w'

/-- The call ends in the iteration after `j` complete ones, with result `r`: any smaller
    number of iterations leaves it polling. -/
def EndsAfter (tick : Nat → BitVec 32) (msgType : BitVec 8) (timeoutMs : BitVec 32) (vm : Vm)
    (j : Nat) (r : Option (Cell × BitVec 8)) (vm' : Vm) : Prop :=
  ∀ fuel, v4BackendTaskReceiveBlocking tick msgType timeoutMs fuel vm
    = if fuel ≤ j then some none else some (some (r, vm'))

section Loop

variable {tick : Nat → BitVec 32} {msgType : BitVec 8} {timeoutMs : BitVec 32}
  {elapsed : Nat → Nat} {vm w : Vm} {j K : Nat}

/-- A poll that finds no message, at a check before the timeout is over. -/
theorem receiveBlockingPoll_again (start : BitVec 32) (n : Nat)
    (hnone : v4BackendTaskReceive msgType w = (none, w)) (hT : 0 < timeoutMs)
    (hcheck : ¬ timeoutMs ≤ tick n - start) :
    receiveBlockingPoll tick msgType timeoutMs start n w
      = (v4BackendTaskSleep 10 (tick (n + 1)) (tick (n + 2)) w).map fun v =>
          (.again, n + 3, v) := by
  rw [receiveBlockingPoll, hnone]
  simp only [gt_iff_lt, ge_iff_le, hT, true_and, hcheck, if_false, if_true]

/-- A poll that finds no message, at a check after the timeout is over. -/
theorem receiveBlockingPoll_timeout (start : BitVec 32) (n : Nat)
    (hnone : v4BackendTaskReceive msgType w = (none, w)) (hT : 0 < timeoutMs)
    (hcheck : timeoutMs ≤ tick n - start) :
    receiveBlockingPoll tick msgType timeoutMs start n w = some (.timeout, n + 1, w) := by
  rw [receiveBlockingPoll, hnone]
  simp only [gt_iff_lt, ge_iff_le, hT, hcheck, and_self, if_true]

/-- A poll that finds a message. -/
theorem receiveBlockingPoll_received (start : BitVec 32) (n : Nat) {msg : Cell × BitVec 8}
    {w' : Vm} (hsome : v4BackendTaskReceive msgType w = (some msg, w')) :
    receiveBlockingPoll tick msgType timeoutMs start n w
      = some (.received msg.1 msg.2, n, w') := by
  rw [receiveBlockingPoll, hsome]

/-- The sleep between two polls is defined and keeps the scheduler's invariant. -/
theorem sleep_defined (h : SchedWF w) (t t' : BitVec 32) :
    ∃ w', v4BackendTaskSleep 10 t t' w = some w' ∧ SchedWF w' := by
  have hmid : SchedWF (blockCurrent t 10 w h.cur) := blockCurrent_wf h t 10 h.cur
  obtain ⟨w', heq, hs⟩ := vmSchedule_scheduled hmid t'
  refine ⟨w', ?_, hs.wf⟩
  rw [v4BackendTaskSleep, h.taskPtr]
  exact heq

/-- **The loop** has nothing left of its first `j` iterations but the state they led to. -/
theorem Slept.loop (h : Slept tick msgType vm j w) (hT : 0 < timeoutMs)
    (hcheck : ∀ i, i < j → ¬ timeoutMs ≤ tick (3 * i + 1) - tick 0) (fuel : Nat) :
    v4BackendTaskReceiveBlocking tick msgType timeoutMs (j + fuel) vm
      = receiveBlockingLoop tick msgType timeoutMs (tick 0) fuel (3 * j + 1) w := by
  induction h generalizing fuel with
  | start => rw [Nat.zero_add, v4BackendTaskReceiveBlocking]
  | @again j w w' _ hnone hsleep ih =>
      have hpoll := receiveBlockingPoll_again (tick 0) (3 * j + 1) hnone hT (hcheck j (by omega))
      rw [hsleep] at hpoll
      have hloop := ih (fun i hi => hcheck i (by omega)) (fuel + 1)
      rw [Nat.add_right_comm, Nat.add_assoc, hloop, receiveBlockingLoop, hpoll]
      rfl

/-- Fewer iterations than that leave the call polling. -/
theorem Slept.polling (h : Slept tick msgType vm j w) (hT : 0 < timeoutMs)
    (hcheck : ∀ i, i < j → ¬ timeoutMs ≤ tick (3 * i + 1) - tick 0) {fuel : Nat}
    (hfuel : fuel ≤ j) :
    v4BackendTaskReceiveBlocking tick msgType timeoutMs fuel vm = some none := by
  induction h with
  | start =>
      obtain rfl : fuel = 0 := by omega
      rfl
  | @again j w w' h hnone hsleep ih =>
      rcases Nat.lt_or_ge j fuel with hlt | hge
      · obtain rfl : fuel = j + 1 := by omega
        exact (h.again hnone hsleep).loop hT hcheck 0
      · exact ih (fun i hi => hcheck i (by omega)) hge

/-- An iteration whose poll ends the loop ends the call. -/
theorem Slept.endsAfter (h : Slept tick msgType vm j w) (hT : 0 < timeoutMs)
    (hcheck : ∀ i, i < j → ¬ timeoutMs ≤ tick (3 * i + 1) - tick 0)
    {r : Option (Cell × BitVec 8)} {vm' : Vm}
    (hend : ∀ fuel, receiveBlockingLoop tick msgType timeoutMs (tick 0) (fuel + 1) (3 * j + 1) w
      = some (some (r, vm'))) : EndsAfter tick msgType timeoutMs vm j r vm' := by
  intro fuel
  by_cases hle : fuel ≤ j
  · rw [if_pos hle, h.polling hT hcheck hle]
  · rw [if_neg hle]
    obtain ⟨k, rfl⟩ : ∃ k, fuel = j + (k + 1) := ⟨fuel - j - 1, by omega⟩
    rw [h.loop hT hcheck, hend]

/-- The loop reaches its `j`-th check, unless a poll before it found a message. -/
theorem slept_or_received (hw : SchedWF vm) :
    (∃ w, Slept tick msgType vm j w ∧ SchedWF w) ∨
      ∃ i w msg w', i < j ∧ Slept tick msgType vm i w ∧
        v4BackendTaskReceive msgType w = (some msg, w') := by
  induction j with
  | zero => exact .inl ⟨vm, .start, hw⟩
  | succ j ih =>
      rcases ih with ⟨w, hslept, hw⟩ | ⟨i, w, msg, w', hi, hslept, hsome⟩
      · obtain ⟨-, hr⟩ | ⟨i, -, -, hr⟩ := v4BackendTaskReceive_cases w msgType
        · obtain ⟨w', hsleep, hw'⟩ := sleep_defined hw (tick (3 * j + 2)) (tick (3 * j + 3))
          exact .inl ⟨w', hslept.again hr hsleep, hw'⟩
        · exact .inr ⟨j, w, _, _, by omega, hslept, hr⟩
      · exact .inr ⟨i, w, msg, w', by omega, hslept, hsome⟩

/-- **Blocking receive with a timeout.**  The call always returns.  It returns without a
    message in the iteration of the first check at which the true time is at least
    `timeoutMs`, and with one when a poll up to then found it. -/
theorem receive_blocking_times_out (hw : SchedWF vm) (hT : 0 < timeoutMs)
    (hclock : CheckClock tick timeoutMs elapsed) :
    ∃ K, FirstAt elapsed timeoutMs.toNat K ∧
      ((∃ w, Slept tick msgType vm K w ∧ v4BackendTaskReceive msgType w = (none, w) ∧
          EndsAfter tick msgType timeoutMs vm K none w) ∨
        ∃ j w msg w', j ≤ K ∧ Slept tick msgType vm j w ∧
          v4BackendTaskReceive msgType w = (some msg, w') ∧
          EndsAfter tick msgType timeoutMs vm j (some msg) w') := by
  obtain ⟨K, hK⟩ := FirstAt.exists_of_reached hclock.reached
  have hpos : 0 < timeoutMs.toNat := hT
  -- The code's test, at the checks it makes.
  have htest : ∀ i, i ≤ K → (timeoutMs ≤ tick (3 * i + 1) - tick 0 ↔ i = K) := by
    intro i hi
    rw [hclock.reading]
    exact hK.wrapped_iff hclock.steady hpos hi
  have hbefore : ∀ j, j ≤ K → ∀ i, i < j → ¬ timeoutMs ≤ tick (3 * i + 1) - tick 0 := by
    intro j hj i hi
    rw [htest i (by omega)]
    omega
  have received : ∀ {j w msg w'}, j ≤ K → Slept tick msgType vm j w →
      v4BackendTaskReceive msgType w = (some msg, w') →
      EndsAfter tick msgType timeoutMs vm j (some msg) w' := by
    intro j w msg w' hj hslept hsome
    refine hslept.endsAfter hT (hbefore j hj) fun fuel => ?_
    rw [receiveBlockingLoop, receiveBlockingPoll_received _ _ hsome]
  refine ⟨K, hK, ?_⟩
  have hruns : (∃ w, Slept tick msgType vm K w ∧ SchedWF w) ∨
      ∃ i w msg w', i < K ∧ Slept tick msgType vm i w ∧
        v4BackendTaskReceive msgType w = (some msg, w') := slept_or_received hw
  rcases hruns with ⟨w, hslept, -⟩ | ⟨i, w, msg, w', hi, hslept, hsome⟩
  · obtain ⟨-, hr⟩ | ⟨i, -, -, hr⟩ := v4BackendTaskReceive_cases w msgType
    · refine .inl ⟨w, hslept, hr, hslept.endsAfter hT (hbefore K (by omega)) fun fuel => ?_⟩
      rw [receiveBlockingLoop,
        receiveBlockingPoll_timeout _ _ hr hT ((htest K (by omega)).mpr rfl)]
    · exact .inr ⟨K, w, _, _, by omega, hslept, hr, received (by omega) hslept hr⟩
  · exact .inr ⟨i, w, msg, w', by omega, hslept, hsome, received (by omega) hslept hsome⟩

end Loop

/-- A counter about to wrap that advances by 10 ms from one check to the next. -/
def slowTick (n : Nat) : BitVec 32 :=
  BitVec.ofNat 32 (2 ^ 32 - 5) + BitVec.ofNat 32 (10 * ((n + 2) / 3))

theorem slowTick_clock : CheckClock slowTick 25 fun k => 10 * (k + 1) where
  reading k := by
    have hdiv : (3 * k + 1 + 2) / 3 = k + 1 := by omega
    simp only [slowTick, hdiv]
    rfl
  steady := by
    have hlimit : (25 : BitVec 32).toNat = 25 := rfl
    exact ⟨by decide, fun k => by omega⟩
  reached := ⟨2, by decide⟩

/-- A timeout of 25 ms across a wrap of the counter, checked every 10 ms: the third check
    is the last. -/
theorem receive_blocking_gives_up :
    FirstAt (fun k => 10 * (k + 1)) 25 2 ∧
      ∃ K, FirstAt (fun k => 10 * (k + 1)) 25 K ∧
        ((∃ w, Slept slowTick 0 (vmAfter twoTasks) K w ∧ v4BackendTaskReceive 0 w = (none, w) ∧
            EndsAfter slowTick 0 25 (vmAfter twoTasks) K none w) ∨
          ∃ j w msg w', j ≤ K ∧ Slept slowTick 0 (vmAfter twoTasks) j w ∧
            v4BackendTaskReceive 0 w = (some msg, w') ∧
            EndsAfter slowTick 0 25 (vmAfter twoTasks) j (some msg) w') := by
  refine ⟨⟨by decide, by decide⟩, receive_blocking_times_out ?_ (by decide) slowTick_clock⟩
  exact (vmAfter_reachable (by decide)).inv.sched

end V4Engine
