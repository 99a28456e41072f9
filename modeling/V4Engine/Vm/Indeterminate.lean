/-
  V4Engine.Vm.Indeterminate

  Where the content of an unwritten local variable reaches the VM.

  `TASK_RECEIVE` and `TASK_RECEIVE_BLOCKING` push `data` and `src_task` even when
  the receive wrote neither.  No other instruction uses an unwritten variable
  (`execOp_withIndet`), and these two do not when they get a message
  (`Config.Answered`): a run in which every receive is answered is the same
  whatever such variables hold (`indeterminate_values_unread`).
-/
import V4Engine.Vm.StackRuns
import V4Engine.Vm.LastingEffects

namespace V4Engine

open Lib FaultM VmM

variable {W : Type}

/-- The host with other contents of unwritten variables. -/
def Host.withIndet (H : Host W) (g : Nat → Cell) : Host W := { H with indet := g }

/-- The blocking receive `w` gives up at the next poll, unless that finds a message. -/
def Waiting.Expires (H : Host W) (w : Waiting) (m : Machine W) : Prop :=
  w.timeoutMs > 0 ∧ H.tick m.tickNo - w.start ≥ w.timeoutMs

/-- If the next step is a receive, it gets a message, or goes on waiting, or fails on the
    empty stack. -/
def Config.Answered (H : Host W) : Config W → Prop
  | .run m cur _ => cur.nextOp = some .TASK_RECEIVE →
      m.vm.sp = 0 ∨ m.vm.HasMessage ((m.operand 0).setWidth 8)
  | .poll w m _ _ => m.vm.HasMessage w.msgType ∨ ¬ w.Expires H m
  | .ret _ _ _ => True
  | .fault => True

/-- A step from a configuration in which a receive is answered. -/
def AnsweredStep (H : Host W) (c d : Config W) : Prop := c.Answered H ∧ Step H c d

section

variable {H : Host W} {g : Nat → Cell} {m : Machine W} {a : Activation} {ip : Nat}

theorem receive_of_hasMessage {vm : Vm} {msgType : BitVec 8} (h : vm.HasMessage msgType) :
    ∃ r vm', v4BackendTaskReceive msgType vm = (some r, vm') := by
  obtain ⟨hnone, -⟩ | ⟨i, -, -, hr⟩ := v4BackendTaskReceive_cases vm msgType
  · exact absurd hnone (Vm.hasMessage_iff.mp h)
  · exact ⟨_, _, hr⟩

/-- All instructions but one use no unwritten variable. -/
theorem execOp_withIndet (op : Op) (h : op ≠ .TASK_RECEIVE) :
    execOp (H.withIndet g) a ip op = execOp H a ip op := by
  cases op with
  | TASK_RECEIVE => exact absurd rfl h
  | _ => rfl

/-- `TASK_RECEIVE` does not either when there is a message. -/
theorem taskReceive_withIndet
    (h : m.vm.sp = 0 ∨ m.vm.HasMessage ((m.operand 0).setWidth 8)) :
    taskReceiveOp (H.withIndet g) m = taskReceiveOp H m := by
  have hpop : dsPop (H.withIndet g) m = dsPop H m := rfl
  cases hrun : dsPop H m with
  | ok v m' =>
      obtain ⟨⟨hpos, -⟩, rfl, rfl⟩ := dsPop_eq_ok.mp hrun
      have hmsg : (m.popped 1).vm.HasMessage ((m.operand 0).setWidth 8) :=
        h.resolve_left (by omega)
      obtain ⟨r, vm', hr⟩ := receive_of_hasMessage hmsg
      have hlift : (liftVm fun vm => some (v4BackendTaskReceive ((m.operand 0).setWidth 8) vm) :
          VmM W (Option (Cell × BitVec 8))) (m.popped 1)
            = .ok (some r) { m.popped 1 with vm := vm' } := by
        simp only [liftVm, hr]
      rw [taskReceiveOp, taskReceiveOp, bind_ok hrun, bind_ok (hpop.trans hrun), bind_ok hlift,
        bind_ok hlift]
      rfl
  | err e m' => rw [taskReceiveOp, taskReceiveOp, bind_err hrun, bind_err (hpop.trans hrun)]
  | fault => rw [taskReceiveOp, taskReceiveOp, bind_fault hrun, bind_fault (hpop.trans hrun)]

/-- One turn of the loop. -/
theorem fetch_withIndet (h : a.nextOp = some .TASK_RECEIVE →
      m.vm.sp = 0 ∨ m.vm.HasMessage ((m.operand 0).setWidth 8)) :
    fetch (H.withIndet g) a m = fetch H a m := by
  cases hop : a.nextOp with
  | some op =>
      rw [fetch_run hop, fetch_run hop]
      by_cases hrec : op = .TASK_RECEIVE
      · subst hrec
        have hbody := taskReceive_withIndet (H := H) (g := g) (h hop)
        simp only [execOp, thenNext, bind_run, hbody]
      · rw [execOp_withIndet op hrec]
  | none =>
      -- Past the end, and at a byte that is no opcode, both runs panic.
      obtain ⟨e, hpanic⟩ | hfault := fetch_no_op (W := W) hop
      · rw [hpanic, hpanic]
        rfl
      · rw [hfault, hfault]

/-- A poll that gives up found no message, and its time was over. -/
theorem receiveBlockingPoll_gives_up {tick : Nat → BitVec 32} {msgType : BitVec 8}
    {timeoutMs start : BitVec 32} {n k : Nat} {vm vm' : Vm}
    (h : receiveBlockingPoll tick msgType timeoutMs start n vm = some (.timeout, k, vm')) :
    ¬ vm.HasMessage msgType ∧ timeoutMs > 0 ∧ tick n - start ≥ timeoutMs := by
  unfold receiveBlockingPoll at h
  obtain ⟨hnone, hr⟩ | ⟨i, -, -, hr⟩ := v4BackendTaskReceive_cases vm msgType
  · rw [hr] at h
    refine ⟨fun hmsg => Vm.hasMessage_iff.mp hmsg hnone, ?_⟩
    by_contra hgo
    simp only [if_neg hgo, Option.map_eq_some_iff] at h
    obtain ⟨vm1, -, heq⟩ := h
    cases heq
  · rw [hr] at h
    cases h

/-- One poll. -/
theorem pollOnce_withIndet {w : Waiting} (h : m.vm.HasMessage w.msgType ∨ ¬ w.Expires H m) :
    pollOnce (H.withIndet g) w ip m = pollOnce H w ip m := by
  have hqueue : pollQueue (H.withIndet g) w m = pollQueue H w m := rfl
  rw [pollOnce, pollOnce, bind_run, bind_run, hqueue]
  cases hp : pollQueue H w m with
  | ok p m' =>
      cases p with
      | received data src => rfl
      | again => rfl
      | timeout =>
          obtain ⟨k, hpoll⟩ := pollQueue_ok hp
          obtain ⟨hnone, hover⟩ := receiveBlockingPoll_gives_up hpoll
          exact absurd hover (h.resolve_left hnone)
  | err e m' => rfl
  | fault => rfl

/-- **Step.**  Where a receive is answered the two machines do the same. -/
theorem step_withIndet {c : Config W} (h : c.Answered H) :
    step (H.withIndet g) c = step H c := by
  cases c with
  | run m cur cs => exact congrArg (fun o => some (settle cur cs o)) (fetch_withIndet h)
  | poll w m cur cs => exact congrArg (fun o => some (settle cur cs o)) (pollOnce_withIndet h)
  | ret e m cs => cases cs <;> rfl
  | fault => rfl

/-- **Run.**  A run in which every receive is answered is a run with any other contents of
    the unwritten variables, state by state; so two such runs end alike. -/
theorem indeterminate_values_unread {c d : Config W} (g : Nat → Cell)
    (hrun : Relation.ReflTransGen (AnsweredStep H) c d) :
    Reaches (H.withIndet g) c d ∧
      ∀ e m, d = .ret e m [] → ∀ e' m', Reaches (H.withIndet g) c (.ret e' m' []) →
        e' = e ∧ m' = m := by
  have hreach : Reaches (H.withIndet g) c d := by
    induction hrun with
    | refl => exact .refl
    | tail _ hs ih => exact ih.tail ((step_withIndet hs.1).trans hs.2)
  refine ⟨hreach, ?_⟩
  rintro e m rfl e' m' h
  -- Both ends are final, and one run has only one end.
  have hsame := hreach.unique_end rfl h rfl
  cases hsame
  exact ⟨rfl, rfl⟩

end

/-! ## The two receives -/

/-- A receive of anything, and a return. -/
def receiveCode : List Byte := [0x97, 0x51]

/-- The operand `0` of a receive, and `count` pending messages. -/
def receiving (count : BitVec 8) : Machine Unit :=
  .boot { Vm.blank with sp := 1, msgQueue := ⟨fun _ => ⟨1, 0, 7, 0, 42⟩, 0, count, count⟩ }

/-- The machine after a receive that took the message. -/
def received : Machine Unit :=
  ((({ (receiving 1).popped 1 with
      vm := (v4BackendTaskReceive 0 ((receiving 1).popped 1).vm).2 }.pushed 42).pushed 1).pushed 1)

/-- The machine after a receive without a message, when the two variables held `v`. -/
def unanswered (v : Cell) : Machine Unit :=
  ((({ (receiving 0).popped 1 with indetNo := 2 }.pushed v).pushed
    ((v.setWidth 8).setWidth 32)).pushed 0)

/-- With a message pending the receive leaves the same machine when the variables hold 9. -/
theorem receive_answered : Reaches (Host.silent.withIndet fun _ => 9)
    (.start (receiving 1) receiveCode 2) (.ret 0 received []) := by
  have h1 : AnsweredStep Host.silent (.start (receiving 1) receiveCode 2)
      (.run received ⟨receiveCode, 2, 1⟩ []) :=
    ⟨fun _ => .inr ⟨⟨1, 0, 7, 0, 42⟩, by decide, by decide⟩, rfl⟩
  have h2 : AnsweredStep Host.silent (.run received ⟨receiveCode, 2, 1⟩ []) (.ret 0 received []) :=
    ⟨fun h => absurd h (by decide), rfl⟩
  exact (indeterminate_values_unread (fun _ => 9) (.tail (.single h1) h2)).1

/-- Without a message they come out on the stack. -/
theorem receive_pushes_indeterminate :
    Returns Host.silent (receiving 0) receiveCode 2 0 (unanswered 0) ∧
      Returns (Host.silent.withIndet fun _ => 9) (receiving 0) receiveCode 2 0 (unanswered 9) ∧
      (unanswered 0).vm.ds = [0, 0, 0] ∧ (unanswered 9).vm.ds = [9, 9, 0] := by
  have h1 : Step Host.silent (.start (receiving 0) receiveCode 2)
      (.run (unanswered 0) ⟨receiveCode, 2, 1⟩ []) := rfl
  have h2 : Step (Host.silent.withIndet fun _ => 9) (.start (receiving 0) receiveCode 2)
      (.run (unanswered 9) ⟨receiveCode, 2, 1⟩ []) := rfl
  exact ⟨.tail (.single h1) rfl, .tail (.single h2) rfl, by decide, by decide⟩

end V4Engine
