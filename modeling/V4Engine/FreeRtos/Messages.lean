/-
  V4Engine.FreeRtos.Messages

  One queue for all tasks.

  Tasks send and receive in any order, and some of them wait inside a blocking
  receive.  The messages accepted and the messages returned are recorded beside the
  state (`Traffic`); nothing is lost exactly as long as every receive finds the queue
  empty or its head addressed to it (`messages_conserved_iff`).
-/
import V4Engine.FreeRtos.Backend
import V4Engine.Lib.Runs
import Mathlib.Data.List.Perm.Basic

namespace V4Engine.FreeRtos

open Lib

/-- A message returned to task `task` by a receive for type `msgType`. -/
structure Receipt where
  task : BitVec 8
  msgType : BitVec 8
  msg : V4Message
  deriving DecidableEq

/-- The statics, who waits (as which task, for which type), and the history. -/
structure Traffic (Q : Type) where
  os : Rtos Q
  waiting : TaskHandle → Option (BitVec 8 × BitVec 8)
  accepted : List V4Message
  returned : List Receipt

/-- What the task `self` does; `wake` is the end of its wait. -/
inductive MailOp where
  | send (self : TaskHandle) (dstTask msgType : BitVec 8) (data : Cell)
  | receive (self : TaskHandle) (msgType : BitVec 8)
  | receiveBlocking (self : TaskHandle) (msgType : BitVec 8)
  | wake (self : TaskHandle)

variable {Q : Type}

/-- The message `xQueueReceive` would take from the queue. -/
def nextMessage (api : QueueApi Q) (os : Rtos Q) : Option V4Message :=
  os.msgQueue.bind fun q => (api.receive q).1

/-- A receive has come back with the answer and the statics `r`. -/
def Traffic.complete (api : QueueApi Q) (s : Traffic Q) (current msgType : BitVec 8)
    (r : Option (Cell × BitVec 8) × Rtos Q) : Traffic Q :=
  { s with
    os := r.2
    returned :=
      match r.1, nextMessage api s.os with
      | some _, some msg => s.returned ++ [⟨current, msgType, msg⟩]
      | _, _ => s.returned }

/-- One step.  A waiting task makes no calls and only a waiting task wakes up. -/
def Traffic.step (api : QueueApi Q) : MailOp → Traffic Q → Option (Traffic Q)
  | .send self dst ty data, s =>
      if (s.waiting self).isSome then some s
      else
        let r := v4BackendTaskSend api self dst ty data s.os
        some { s with
          os := r.2
          accepted := if r.1 = Err.ok.code then s.accepted ++ [outgoing self dst ty data s.os]
            else s.accepted }
  | .receive self ty, s =>
      if (s.waiting self).isSome then some s
      else
        some (s.complete api (v4BackendTaskCurrent self s.os) ty
          (v4BackendTaskReceive api self ty s.os))
  | .receiveBlocking self ty, s =>
      if (s.waiting self).isSome then some s
      else
        let wait := (receiveBlockingBegin self s.os).map fun current => (current, ty)
        some { s with waiting := Function.update s.waiting self wait }
  | .wake self, s =>
      match s.waiting self with
      | none => some s
      | some (current, ty) =>
          let s := s.complete api current ty (receiveBlockingEnd api current ty s.os)
          some { s with waiting := Function.update s.waiting self none }

/-- The receive that comes back in this step: for which task and which type. -/
def MailOp.receives (o : MailOp) (s : Traffic Q) : Option (BitVec 8 × BitVec 8) :=
  match o with
  | .receive self ty =>
      if (s.waiting self).isSome then none else some (v4BackendTaskCurrent self s.os, ty)
  | .wake self => s.waiting self
  | _ => none

/-- Every accepted message is pending or was returned, once, to a receive it matches. -/
structure NoLoss (contents : Q → List V4Message) (s : Traffic Q) : Prop where
  accepted : s.accepted.Perm (s.returned.map Receipt.msg ++ s.os.contents contents)
  matching : ∀ r ∈ s.returned, r.msg.wanted r.task r.msgType = true

/-- What is expected of a step: no message is lost, and a receive that returns 0 leaves
    the pending messages as they were. -/
def MailLaw (api : QueueApi Q) (contents : Q → List V4Message) (s : Traffic Q) (o : MailOp)
    (s' : Traffic Q) : Prop :=
  NoLoss contents s' ∧ ∀ w, o.receives s = some w →
    (takeMessage api w.1 w.2 s.os).1 = none → s'.os.contents contents = s.os.contents contents

/-- A receive finds the queue empty or a message that matches at its head. -/
def HeadWanted (contents : Q → List V4Message) (s : Traffic Q) (o : MailOp) : Prop :=
  ∀ w, o.receives s = some w →
    ∀ msg, (s.os.contents contents).head? = some msg → msg.wanted w.1 w.2 = true

instance (contents : Q → List V4Message) (s : Traffic Q) (o : MailOp) :
    Decidable (HeadWanted contents s o) :=
  inferInstanceAs (Decidable (∀ w, o.receives s = some w →
    ∀ msg, (s.os.contents contents).head? = some msg → msg.wanted w.1 w.2 = true))

variable {api : QueueApi Q} {contents : Q → List V4Message}

theorem nextMessage_eq (hq : api.Bounded 16 contents) (os : Rtos Q) :
    nextMessage api os = (os.contents contents).head? := by
  rw [nextMessage, Rtos.contents]
  cases os.msgQueue with
  | none => rfl
  | some q => exact (hq.receive_eq q).1

/-- Who waits does not matter. -/
theorem noLoss_waiting {s : Traffic Q} (waiting : TaskHandle → Option (BitVec 8 × BitVec 8)) :
    NoLoss contents { s with waiting := waiting } ↔ NoLoss contents s :=
  ⟨fun h => ⟨h.accepted, h.matching⟩, fun h => ⟨h.accepted, h.matching⟩⟩

/-! ## One step -/

/-- A receive that comes back. -/
theorem Traffic.complete_law (hq : api.Bounded 16 contents) {s : Traffic Q}
    (h : NoLoss contents s) (current msgType : BitVec 8) :
    (NoLoss contents (s.complete api current msgType (takeMessage api current msgType s.os)) ∧
      ((takeMessage api current msgType s.os).1 = none →
        (takeMessage api current msgType s.os).2.contents contents = s.os.contents contents)) ↔
    ∀ msg, (s.os.contents contents).head? = some msg → msg.wanted current msgType = true := by
  obtain ⟨hanswer, hleft⟩ := takeMessage_eq hq current msgType s.os
  have hnext := nextMessage_eq hq s.os
  cases hc : s.os.contents contents with
  | nil =>
      rw [hc] at hanswer hleft hnext
      -- An empty queue: nothing is taken, and there is no head to match.
      refine iff_of_true ⟨⟨?_, ?_⟩, fun _ => hleft⟩ nofun
      · have hperm := h.accepted
        rw [hc] at hperm
        simp only [Traffic.complete, hanswer, hnext, hleft, deliver]
        exact hperm
      · simp only [Traffic.complete, hanswer, hnext, deliver]
        exact h.matching
  | cons msg rest =>
      rw [hc] at hanswer hleft hnext
      have hperm := h.accepted
      rw [hc] at hperm
      by_cases hw : msg.wanted current msgType = true
      · -- returned: it moves from the queue to the receipts
        have hsome : (takeMessage api current msgType s.os).1 = some (msg.data, msg.srcTask) := by
          rw [hanswer]
          exact if_pos hw
        refine iff_of_true ⟨⟨?_, ?_⟩, ?_⟩ ?_
        · simp only [Traffic.complete, hsome, hnext, hleft, List.head?_cons, List.tail_cons]
          rw [List.map_append, List.append_assoc]
          exact hperm
        · simp only [Traffic.complete, hsome, hnext, List.head?_cons]
          intro r hr
          obtain hr | hr := List.mem_append.mp hr
          · exact h.matching r hr
          · rw [List.mem_singleton.mp hr]
            exact hw
        · rw [hsome]
          nofun
        · intro msg' hmsg'
          cases hmsg'
          exact hw
      · -- dropped: the queue got shorter
        have hnone : (takeMessage api current msgType s.os).1 = none := by
          rw [hanswer]
          exact if_neg hw
        refine iff_of_false (fun ⟨_, hkeep⟩ => ?_) fun hall => hw (hall msg rfl)
        have hlen := congrArg List.length (hleft.symm.trans (hkeep hnone))
        simp at hlen

/-- A send keeps every message. -/
theorem NoLoss.send (hq : api.Bounded 16 contents) {s : Traffic Q} (h : NoLoss contents s)
    (self : TaskHandle) (dst ty : BitVec 8) (data : Cell) :
    NoLoss contents { s with
      os := (v4BackendTaskSend api self dst ty data s.os).2
      accepted := if (v4BackendTaskSend api self dst ty data s.os).1 = Err.ok.code then
        s.accepted ++ [outgoing self dst ty data s.os] else s.accepted } := by
  obtain ⟨hne, hkeep⟩ | ⟨hok, hsent⟩ := v4BackendTaskSend_cases hq self dst ty data s.os
  · refine ⟨?_, h.matching⟩
    simp only [if_neg hne, hkeep]
    exact h.accepted
  · refine ⟨?_, h.matching⟩
    simp only [if_pos hok, hsent]
    rw [← List.append_assoc]
    exact h.accepted.append_right _

/-- In a step in which no receive comes back the law is about losses only. -/
theorem mailLaw_of_no_receive {s s' : Traffic Q} {o : MailOp} (hno : o.receives s = none)
    (h : NoLoss contents s') : MailLaw api contents s o s' ↔ HeadWanted contents s o := by
  refine iff_of_true ⟨h, fun w hw => ?_⟩ fun w hw => ?_
  · rw [hno] at hw
    cases hw
  · rw [hno] at hw
    cases hw

/-- **One step.**  It loses nothing exactly when the receive that comes back in it, if
    any, finds a matching head or no message. -/
theorem Traffic.step_law_iff (hq : api.Bounded 16 contents) {s s' : Traffic Q}
    (h : NoLoss contents s) {o : MailOp} (hstep : Traffic.step api o s = some s') :
    MailLaw api contents s o s' ↔ HeadWanted contents s o := by
  cases o with
  | send self dst ty data =>
      refine mailLaw_of_no_receive rfl ?_
      rw [Traffic.step] at hstep
      split at hstep
      · cases hstep
        exact h
      · cases hstep
        exact h.send hq self dst ty data
  | receive self ty =>
      rw [Traffic.step] at hstep
      by_cases hwait : (s.waiting self).isSome
      · -- the caller is still waiting for another receive
        rw [if_pos hwait] at hstep
        cases hstep
        exact mailLaw_of_no_receive (if_pos hwait) h
      · rw [if_neg hwait, v4BackendTaskReceive_eq_take] at hstep
        cases hstep
        simp only [MailLaw, HeadWanted, MailOp.receives, if_neg hwait, Option.some_inj, forall_eq']
        exact Traffic.complete_law hq h _ ty
  | receiveBlocking self ty =>
      refine mailLaw_of_no_receive rfl ?_
      rw [Traffic.step] at hstep
      split at hstep <;> cases hstep
      · exact h
      · exact (noLoss_waiting _).mpr h
  | wake self =>
      rw [Traffic.step] at hstep
      cases hwait : s.waiting self with
      | none =>
          rw [hwait] at hstep
          cases hstep
          exact mailLaw_of_no_receive hwait h
      | some w =>
          rw [hwait] at hstep
          cases hstep
          -- The wait ends: the rest is as in a plain receive.
          simp only [MailLaw, HeadWanted, MailOp.receives, hwait, Option.some_inj, forall_eq',
            noLoss_waiting]
          exact Traffic.complete_law hq h w.1 w.2

theorem Traffic.step_isSome (api : QueueApi Q) (o : MailOp) (s : Traffic Q) :
    (Traffic.step api o s).isSome := by
  cases o with
  | wake self =>
      rw [Traffic.step]
      cases s.waiting self <;> rfl
  | _ =>
      rw [Traffic.step]
      split <;> rfl

/-! ## Runs -/

/-- **Conservation of messages.**  From an empty queue on, every step of a run loses
    nothing exactly when every receive of it finds the queue empty or a message that
    matches at its head. -/
theorem messages_conserved_iff (hq : api.Bounded 16 contents) {s : Traffic Q}
    (haccepted : s.accepted = []) (hreturned : s.returned = [])
    (hempty : s.os.contents contents = []) (ops : List MailOp) :
    EachStep (Traffic.step api) (MailLaw api contents) ops s ↔
      Along (Traffic.step api) (HeadWanted contents) ops s := by
  have hstart : NoLoss contents s := by
    refine ⟨?_, ?_⟩
    · rw [haccepted, hreturned, hempty]
      exact List.Perm.refl []
    · rw [hreturned]
      nofun
  refine eachStep_iff_along_of (I := NoLoss contents) ?_ ?_ ?_ hstart
  · exact fun o s s' hs hP hstep => ((Traffic.step_law_iff hq hs hstep).mpr hP).1
  · exact fun o s _ => Traffic.step_isSome api o s
  · exact fun o s s' hs hstep => Traffic.step_law_iff hq hs hstep

/-- Handles 10 and 11 are the tasks 0 and 1; nothing is pending. -/
def twoMailboxes : Traffic (List V4Message) where
  os :=
    { taskHandles := fun i => if i = 0 then some 10 else if i = 1 then some 11 else none
      msgQueue := some []
      live := fun _ => true }
  waiting _ := none
  accepted := []
  returned := []

/-- Task 0 sends to task 1, which receives. -/
theorem messages_conserved_in_order :
    EachStep (Traffic.step (.ofList V4Message 16)) (MailLaw (.ofList V4Message 16) id)
      [.send 10 1 7 42, .receive 11 7] twoMailboxes :=
  (messages_conserved_iff (FifoApi.ofList_bounded 16) rfl rfl rfl _).mpr (by decide)

/-- A receive by task 0 drops the message for task 1. -/
theorem message_dropped :
    ¬ EachStep (Traffic.step (.ofList V4Message 16)) (MailLaw (.ofList V4Message 16) id)
      [.send 10 1 7 42, .receive 10 7] twoMailboxes := by
  rintro ⟨-, hrest⟩
  obtain ⟨hlaw, -⟩ := hrest _ rfl
  have hkept := (hlaw _ rfl).2 (0, 7) rfl rfl
  exact absurd hkept (by decide)

end V4Engine.FreeRtos
