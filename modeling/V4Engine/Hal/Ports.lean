/-
  V4Engine.Hal.Ports

  What the wrapper of `hal_*` does with the handles it is given, over whole runs.

  `Driver.tracked` numbers every handle the drivers hand out and keeps a book
  beside them: which numbers are live, whether `hal_init` was the last word on the
  whole system, and how many calls were made against `hal.h` (with a handle that
  is not live any more, or before `hal_init` has succeeded).  It changes nothing
  the wrapper can see (`run_erase`).

  On that book four small machines can be read off, one for each port
  (`Board.use`).  The wrapper runs in step with them, and the calls against
  `hal.h` are those they call a violation (`wrapper_refines_ports`): the
  use of a port that was open when the system was reset, and any use at all after
  a reset whose `hal_init` failed.
-/
import V4Engine.Hal.Wrapper
import V4Engine.Lib.Runs

namespace V4Engine
namespace Hal

open Lib

/-! ## Four ports -/

/-- A port, as far as `hal.h` is concerned.  A stale one was open when its driver was shut
    down. -/
inductive PortState where
  | closed | opened | stale
  deriving DecidableEq, Repr

structure Use where
  ports : Fin 4 → PortState
  ready : Bool

/-- What a call needs from the drivers. -/
inductive Access where
  | refused
  | board
  | port (p : Fin 4)
  deriving DecidableEq, Repr

namespace Use

/-- A call on an open port, if its other arguments are in order. -/
def onPort (u : Use) (port : Int) (args : Bool) : Access :=
  match portIndex port with
  | none => .refused
  | some p => if u.ports p = .closed ∨ args = false then .refused else .port p

def access (u : Use) : HalOp → Access
  | .gpioInit _ mode => if (gpioModeOf mode).isSome then .board else .refused
  | .gpioRead _ out => if out then .board else .refused
  | .uartInit port _ =>
      match portIndex port with
      | none => .refused
      | some p => .port p
  | .uartPutc port _ => u.onPort port true
  | .uartGetc port out _ => u.onPort port out
  | .uartWrite port buf len => u.onPort port (buf.isSome && decide (0 ≤ len))
  | .uartRead port buf maxLen out => u.onPort port (buf.isSome && decide (0 ≤ maxLen) && out)
  | .getc out _ => if out then .board else .refused
  | _ => .board

/-- The call goes against `hal.h`. -/
def Violates (u : Use) (o : HalOp) : Prop :=
  match u.access o with
  | .refused => False
  | .board => u.ready = false
  | .port p => u.ready = false ∨ u.ports p = .stale

/-- The ports after a call; `ok` is what `hal_uart_open` or `hal_init` has answered. -/
def after (ok : Bool) (u : Use) : HalOp → Use
  | .uartInit port _ =>
      match portIndex port with
      | none => u
      | some p => { u with ports := Function.update u.ports p (if ok then .opened else .closed) }
  | .systemReset =>
      { ports := fun p => if u.ports p = .closed then .closed else .stale, ready := ok }
  | _ => u

end Use

/-! ## The book -/

/-- The drivers, and what they have handed out. -/
structure Tracked (S : Type) where
  hal : S
  opened : Nat
  live : Nat → Bool
  ready : Bool
  misuses : Nat

variable {S Hd : Type}

namespace Tracked

/-- After a `hal_init` by the program. -/
def start (s : S) : Tracked S := ⟨s, 0, fun _ => false, true, 0⟩

/-- A call has been made; `fine` says whether its handle, if any, was live. -/
def called (t : Tracked S) (fine : Bool) (s : S) : Tracked S :=
  { t with hal := s, misuses := if t.ready && fine then t.misuses else t.misuses + 1 }

end Tracked

/-- The drivers with a book. -/
def Driver.tracked (hal : Driver S Hd) : Driver (Tracked S) (Hd × Nat) where
  gpioMode pin mode t := ((hal.gpioMode pin mode t.hal).1,
    t.called true (hal.gpioMode pin mode t.hal).2)
  gpioWrite pin v t := ((hal.gpioWrite pin v t.hal).1, t.called true (hal.gpioWrite pin v t.hal).2)
  gpioRead pin t := ((hal.gpioRead pin t.hal).1, t.called true (hal.gpioRead pin t.hal).2)
  uartOpen port cfg t :=
    match hal.uartOpen port cfg t.hal with
    | (none, s) => (none, t.called true s)
    | (some h, s) =>
        (some (h, t.opened), { t.called true s with
          opened := t.opened + 1, live := Function.update t.live t.opened true })
  uartClose x t := ((hal.uartClose x.1 t.hal).1,
    { t.called (t.live x.2) (hal.uartClose x.1 t.hal).2 with
      live := Function.update t.live x.2 false })
  uartWrite x bytes t := ((hal.uartWrite x.1 bytes t.hal).1,
    t.called (t.live x.2) (hal.uartWrite x.1 bytes t.hal).2)
  uartRead x buf len t := ((hal.uartRead x.1 buf len t.hal).1,
    t.called (t.live x.2) (hal.uartRead x.1 buf len t.hal).2)
  millis t := ((hal.millis t.hal).1, t.called true (hal.millis t.hal).2)
  micros t := ((hal.micros t.hal).1, t.called true (hal.micros t.hal).2)
  delayMs ms t := t.called true (hal.delayMs ms t.hal)
  delayUs us t := t.called true (hal.delayUs us t.hal)
  consoleWrite bytes t := ((hal.consoleWrite bytes t.hal).1,
    t.called true (hal.consoleWrite bytes t.hal).2)
  consoleRead buf len t := ((hal.consoleRead buf len t.hal).1,
    t.called true (hal.consoleRead buf len t.hal).2)
  -- every handle is gone with the drivers, and `hal_init` alone may follow
  deinit t := { t.called true (hal.deinit t.hal) with live := fun _ => false, ready := false }
  init t := ((hal.init t.hal).1,
    { t with hal := (hal.init t.hal).2, ready := decide ((hal.init t.hal).1 = HalErr.ok.code) })

namespace Board

/-- Forget the book. -/
def erase (b : Board (Tracked S) (Hd × Nat)) : Board S Hd :=
  ⟨b.hal.hal, fun p => (b.uartHandles p).map Prod.fst⟩

/-- The state of a port. -/
def portState (live : Nat → Bool) : Option (Hd × Nat) → PortState
  | none => .closed
  | some x => if live x.2 then .opened else .stale

/-- The ports, read off the book. -/
def use (b : Board (Tracked S) (Hd × Nat)) : Use :=
  ⟨fun p => portState b.hal.live (b.uartHandles p), b.hal.ready⟩

/-- No handle is lost, none is in two places, and none is of the future. -/
structure Sound (b : Board (Tracked S) (Hd × Nat)) : Prop where
  owned : ∀ n, b.hal.live n = true → ∃ p h, b.uartHandles p = some (h, n)
  apart : ∀ p q h h' n, b.uartHandles p = some (h, n) → b.uartHandles q = some (h', n) → p = q
  past : ∀ p h n, b.uartHandles p = some (h, n) → n < b.hal.opened

end Board

/-! ## The book changes nothing -/

/-- `v4_hal_uart_init` once the port is closed. -/
def openPort (hal : Driver S Hd) (port : Int) (p : Fin 4) (baudrate : Int) (b : Board S Hd) :
    V4Err × Board S Hd :=
  let r := hal.uartOpen port ⟨baudrate, 8, 1, 0⟩ b.hal
  (if r.1.isSome then HalErr.ok.code else HalErr.nodev.code,
    { hal := r.2, uartHandles := Function.update b.uartHandles p r.1 })

theorem v4HalUartInit_eq (hal : Driver S Hd) {port : Int} {p : Fin 4} (hp : portIndex port = some p)
    (baudrate : Int) (b : Board S Hd) :
    v4HalUartInit hal port baudrate b = openPort hal port p baudrate (closeExisting hal p b) := by
  rw [v4HalUartInit, hp]
  rfl

section

variable (hal : Driver S Hd) (b : Board (Tracked S) (Hd × Nat))

theorem openHandle_erase (port : Int) :
    openHandle port b.erase = (openHandle port b).map Prod.fst := by
  unfold openHandle
  cases portIndex port <;> rfl

theorem map_update {α β : Type} (f : α → β) (g : Fin 4 → Option α) (p : Fin 4) (x : Option α) :
    (fun q => (Function.update g p x q).map f) =
      Function.update (fun q => (g q).map f) p (x.map f) := by
  funext q
  by_cases h : q = p
  · rw [h, Function.update_self, Function.update_self]
  · rw [Function.update_of_ne h, Function.update_of_ne h]

theorem closeExisting_erase (p : Fin 4) :
    (closeExisting hal.tracked p b).erase = closeExisting hal p b.erase := by
  have hmap : b.erase.uartHandles p = (b.uartHandles p).map Prod.fst := rfl
  unfold closeExisting
  rw [hmap]
  cases b.uartHandles p with
  | none => rfl
  | some x => exact congrArg (Board.mk _) (map_update Prod.fst b.uartHandles p none)

theorem openPort_erase (port : Int) (p : Fin 4) (baudrate : Int) :
    (openPort hal.tracked port p baudrate b).1 = (openPort hal port p baudrate b.erase).1 ∧
      (openPort hal.tracked port p baudrate b).2.erase =
        (openPort hal port p baudrate b.erase).2 := by
  unfold openPort Driver.tracked Board.erase
  dsimp only
  rcases hal.uartOpen port ⟨baudrate, 8, 1, 0⟩ b.hal.hal with ⟨_ | h, s⟩
  · exact ⟨rfl, congrArg (Board.mk s) (map_update Prod.fst b.uartHandles p none)⟩
  · exact ⟨rfl, congrArg (Board.mk s) (map_update Prod.fst b.uartHandles p (some (h, _)))⟩

/-- **The book changes nothing.**  Every call answers as it does without it, and leaves the
    same drivers and the same handles. -/
theorem run_erase (o : HalOp) :
    (o.run hal.tracked b).1 = (o.run hal b.erase).1 ∧
      (o.run hal.tracked b).2.erase = (o.run hal b.erase).2 := by
  cases o with
  | gpioInit pin mode =>
      simp only [HalOp.run, v4HalGpioInit]
      cases gpioModeOf mode <;> exact ⟨rfl, rfl⟩
  | gpioRead pin out => cases out <;> exact ⟨rfl, rfl⟩
  | uartInit port baudrate =>
      cases hp : portIndex port with
      | none =>
          simp only [HalOp.run, v4HalUartInit]
          rw [hp]
          exact ⟨rfl, rfl⟩
      | some p =>
          simp only [HalOp.run]
          simp only [v4HalUartInit_eq _ hp, ← closeExisting_erase]
          obtain ⟨hcode, hboard⟩ :=
            openPort_erase hal (closeExisting hal.tracked p b) port p baudrate
          exact ⟨congrArg Answer.code hcode, hboard⟩
  | uartPutc port c =>
      simp only [HalOp.run, v4HalUartPutc]
      rw [openHandle_erase]
      cases openHandle port b <;> exact ⟨rfl, rfl⟩
  | uartGetc port out byte =>
      simp only [HalOp.run, v4HalUartGetc]
      rw [openHandle_erase]
      cases openHandle port b <;> cases out <;> exact ⟨rfl, rfl⟩
  | uartWrite port buf len =>
      simp only [HalOp.run, v4HalUartWrite]
      rw [openHandle_erase]
      cases openHandle port b with
      | none => exact ⟨rfl, rfl⟩
      | some x =>
          cases buf with
          | none => exact ⟨rfl, rfl⟩
          | some buf =>
              by_cases hlen : len < 0
              · simp only [Option.map_some, if_pos hlen]
                exact ⟨rfl, rfl⟩
              · simp only [Option.map_some, if_neg hlen]
                exact ⟨rfl, rfl⟩
  | uartRead port buf maxLen out =>
      simp only [HalOp.run, v4HalUartRead]
      rw [openHandle_erase]
      cases openHandle port b with
      | none => exact ⟨rfl, rfl⟩
      | some x =>
          cases buf with
          | none => exact ⟨rfl, rfl⟩
          | some buf =>
              by_cases hlen : maxLen < 0 ∨ out = false
              · simp only [Option.map_some, if_pos hlen]
                exact ⟨rfl, rfl⟩
              · simp only [Option.map_some, if_neg hlen]
                exact ⟨rfl, rfl⟩
  | getc out byte => cases out <;> exact ⟨rfl, rfl⟩
  | _ => exact ⟨rfl, rfl⟩

end

/-! ## What a call does -/

/-- The drivers have been called and the table is as before. -/
def Board.called (b : Board (Tracked S) (Hd × Nat)) (fine : Bool) (s : S) :
    Board (Tracked S) (Hd × Nat) :=
  { b with hal := b.hal.called fine s }

section

variable {hal : Driver S Hd} {b : Board (Tracked S) (Hd × Nat)}

theorem portState_closed {live : Nat → Bool} {x : Option (Hd × Nat)} :
    Board.portState live x = .closed ↔ x = none := by
  cases x with
  | none => exact iff_of_true rfl rfl
  | some x =>
      refine iff_of_false (fun h => ?_) fun h => by cases h
      by_cases hl : live x.2 = true
      · rw [Board.portState, if_pos hl] at h
        cases h
      · rw [Board.portState, if_neg hl] at h
        cases h

/-- An operation on an open port, and its handle. -/
theorem onPort_cases (port : Int) (args : Bool) :
    (b.use.onPort port args = .refused ∧ (openHandle port b = none ∨ args = false)) ∨
      ∃ p x, b.use.onPort port args = .port p ∧ b.uartHandles p = some x ∧
        openHandle port b = some x ∧ args = true := by
  unfold Use.onPort openHandle
  cases portIndex port with
  | none => exact .inl ⟨rfl, .inl rfl⟩
  | some p =>
      have hclosed : b.use.ports p = .closed ↔ b.uartHandles p = none := portState_closed
      dsimp only [Option.bind_some]
      cases hx : b.uartHandles p with
      | none => exact .inl ⟨if_pos (.inl (hclosed.mpr hx)), .inl rfl⟩
      | some x =>
          have hopen : b.use.ports p ≠ .closed := fun h => by
            cases hx.symm.trans (hclosed.mp h)
          cases args with
          | false => exact .inl ⟨if_pos (.inr rfl), .inr rfl⟩
          | true => exact .inr ⟨p, x, if_neg (by simp [hopen]), hx, rfl, rfl⟩

/-- A call that leaves the table alone: refused, on the board, or on an open port. -/
def Quiet (hal : Driver S Hd) (b : Board (Tracked S) (Hd × Nat)) (o : HalOp) : Prop :=
  (b.use.access o = .refused ∧ (o.run hal.tracked b).1.err = some HalErr.param.code ∧
      (o.run hal.tracked b).2 = b) ∨
    (b.use.access o = .board ∧ ∃ s, (o.run hal.tracked b).2 = b.called true s) ∨
    ∃ p x s, b.use.access o = .port p ∧ b.uartHandles p = some x ∧
      (o.run hal.tracked b).2 = b.called (b.hal.live x.2) s

/-- **Inversion.**  All but two of the functions leave the table alone. -/
theorem run_quiet (hal : Driver S Hd) (b : Board (Tracked S) (Hd × Nat)) {o : HalOp}
    (hinit : ∀ port baudrate, o ≠ .uartInit port baudrate) (hreset : o ≠ .systemReset) :
    Quiet hal b o := by
  cases o with
  | gpioInit pin mode =>
      unfold Quiet
      simp only [HalOp.run, v4HalGpioInit, Use.access]
      cases gpioModeOf mode with
      | none => exact .inl ⟨rfl, rfl, rfl⟩
      | some m => exact .inr (.inl ⟨rfl, _, rfl⟩)
  | gpioRead pin out =>
      cases out with
      | false => exact .inl ⟨rfl, rfl, rfl⟩
      | true => exact .inr (.inl ⟨rfl, _, rfl⟩)
  | uartInit port baudrate => exact absurd rfl (hinit port baudrate)
  | uartPutc port c =>
      unfold Quiet
      simp only [HalOp.run, v4HalUartPutc, Use.access]
      obtain ⟨hacc, hnone | hargs⟩ | ⟨p, x, hacc, hx, hopen, -⟩ := onPort_cases (b := b) port true
      · rw [hnone]
        exact .inl ⟨hacc, rfl, rfl⟩
      · cases hargs
      · rw [hopen]
        exact .inr (.inr ⟨p, x, _, hacc, hx, rfl⟩)
  | uartGetc port out byte =>
      unfold Quiet
      simp only [HalOp.run, v4HalUartGetc, Use.access]
      obtain ⟨hacc, hnone | rfl⟩ | ⟨p, x, hacc, hx, hopen, rfl⟩ := onPort_cases (b := b) port out
      · rw [hnone]
        exact .inl ⟨hacc, rfl, rfl⟩
      · cases openHandle port b <;> exact .inl ⟨hacc, rfl, rfl⟩
      · rw [hopen]
        exact .inr (.inr ⟨p, x, _, hacc, hx, rfl⟩)
  | uartWrite port buf len =>
      unfold Quiet
      simp only [HalOp.run, v4HalUartWrite, Use.access]
      obtain ⟨hacc, hnone | hargs⟩ | ⟨p, x, hacc, hx, hopen, hargs⟩ :=
        onPort_cases (b := b) port (buf.isSome && decide (0 ≤ len))
      · rw [hnone]
        exact .inl ⟨hacc, rfl, rfl⟩
      · refine .inl ⟨hacc, ?_⟩
        cases openHandle port b with
        | none => exact ⟨rfl, rfl⟩
        | some x =>
            cases buf with
            | none => exact ⟨rfl, rfl⟩
            | some buf =>
                have hlen : len < 0 := by simpa using hargs
                simp only [if_pos hlen]
                exact ⟨rfl, rfl⟩
      · obtain ⟨hbuf, hlen⟩ : buf.isSome = true ∧ 0 ≤ len := by simpa using hargs
        obtain ⟨buf, rfl⟩ := Option.isSome_iff_exists.mp hbuf
        rw [hopen]
        simp only [if_neg (Int.not_lt.mpr hlen)]
        exact .inr (.inr ⟨p, x, _, hacc, hx, rfl⟩)
  | uartRead port buf maxLen out =>
      unfold Quiet
      simp only [HalOp.run, v4HalUartRead, Use.access]
      obtain ⟨hacc, hnone | hargs⟩ | ⟨p, x, hacc, hx, hopen, hargs⟩ :=
        onPort_cases (b := b) port (buf.isSome && decide (0 ≤ maxLen) && out)
      · rw [hnone]
        exact .inl ⟨hacc, rfl, rfl⟩
      · refine .inl ⟨hacc, ?_⟩
        cases openHandle port b with
        | none => exact ⟨rfl, rfl⟩
        | some x =>
            cases buf with
            | none => exact ⟨rfl, rfl⟩
            | some buf =>
                have hbad : maxLen < 0 ∨ out = false := by
                  rw [Option.isSome_some, Bool.true_and, Bool.and_eq_false_iff] at hargs
                  exact hargs.imp (fun h => Int.not_le.mp (of_decide_eq_false h)) id
                simp only [if_pos hbad]
                exact ⟨rfl, rfl⟩
      · rw [Bool.and_eq_true, Bool.and_eq_true, decide_eq_true_eq] at hargs
        obtain ⟨⟨hbuf, hlen⟩, rfl⟩ := hargs
        obtain ⟨buf, rfl⟩ := Option.isSome_iff_exists.mp hbuf
        rw [hopen]
        have hgood : ¬ (maxLen < 0 ∨ true = false) := by simpa using hlen
        simp only [if_neg hgood]
        exact .inr (.inr ⟨p, x, _, hacc, hx, rfl⟩)
  | getc out byte =>
      cases out with
      | false => exact .inl ⟨rfl, rfl, rfl⟩
      | true => exact .inr (.inl ⟨rfl, _, rfl⟩)
  | systemReset => exact absurd rfl hreset
  | _ => exact .inr (.inl ⟨rfl, _, rfl⟩)

theorem called_misuses (t : Tracked S) (fine : Bool) (s : S) :
    ((t.called fine s).misuses = t.misuses ↔ t.ready = true ∧ fine = true) ∧
      t.misuses ≤ (t.called fine s).misuses := by
  unfold Tracked.called
  dsimp only
  cases t.ready <;> cases fine <;> simp

theorem ports_of_some {p : Fin 4} {x : Hd × Nat} (hx : b.uartHandles p = some x) :
    b.use.ports p = if b.hal.live x.2 then .opened else .stale := by
  show Board.portState b.hal.live (b.uartHandles p) = _
  rw [hx]
  rfl

/-- A port with a handle is stale if the handle is not live any more. -/
theorem stale_iff {p : Fin 4} {x : Hd × Nat} (hx : b.uartHandles p = some x) :
    b.use.ports p = .stale ↔ ¬ b.hal.live x.2 = true := by
  rw [ports_of_some hx]
  by_cases hl : b.hal.live x.2 = true
  · rw [if_pos hl]
    exact iff_of_false (fun h => by cases h) fun h => h hl
  · rw [if_neg hl]
    exact iff_of_true rfl hl

/-! ## `v4_hal_uart_init` -/

/-- Closing a port takes its handle off the book. -/
theorem closeExisting_spec (hal : Driver S Hd) (hb : b.Sound) (p : Fin 4) :
    (closeExisting hal.tracked p b).Sound ∧ (closeExisting hal.tracked p b).uartHandles p = none ∧
      (closeExisting hal.tracked p b).use
        = { b.use with ports := Function.update b.use.ports p .closed } ∧
      ((closeExisting hal.tracked p b).hal.misuses = b.hal.misuses ↔
        b.use.ports p = .closed ∨ b.use.ready = true ∧ b.use.ports p ≠ .stale) ∧
      b.hal.misuses ≤ (closeExisting hal.tracked p b).hal.misuses := by
  unfold closeExisting
  cases hx : b.uartHandles p with
  | none =>
      have hclosed : b.use.ports p = .closed := portState_closed.mpr hx
      refine ⟨hb, hx, ?_, iff_of_true rfl (.inl hclosed), Nat.le_refl _⟩
      rw [← hclosed, Function.update_eq_self]
  | some x =>
      -- the handles of the other ports are other handles
      have hother : ∀ q, q ≠ p → ∀ y, b.uartHandles q = some y → y.2 ≠ x.2 := by
        intro q hq y hy heq
        exact hq (hb.apart q p y.1 x.1 y.2 hy (heq ▸ hx))
      have htable : ∀ q y, Function.update b.uartHandles p none q = some y →
          q ≠ p ∧ b.uartHandles q = some y := by
        intro q y hy
        by_cases hq : q = p
        · rw [hq, Function.update_self] at hy
          cases hy
        · rw [Function.update_of_ne hq] at hy
          exact ⟨hq, hy⟩
      refine ⟨⟨fun n hn => ?_, fun q r h h' n hqn hrn => ?_, fun q h n hqn => ?_⟩,
        Function.update_self .., ?_, ?_, ?_⟩
      · have hn' : Function.update b.hal.live x.2 false n = true := hn
        have hne : n ≠ x.2 := fun h => by
          rw [h, Function.update_self] at hn'
          cases hn'
        rw [Function.update_of_ne hne] at hn'
        obtain ⟨q, h, hq⟩ := hb.owned n hn'
        have hqp : q ≠ p := fun heq => by
          rw [heq, hx] at hq
          exact hne (congrArg Prod.snd (Option.some.inj hq)).symm
        exact ⟨q, h, (Function.update_of_ne hqp ..).trans hq⟩
      · exact hb.apart q r h h' n (htable q _ hqn).2 (htable r _ hrn).2
      · exact hb.past q h n (htable q _ hqn).2
      · refine congrArg (fun ports => Use.mk ports b.hal.ready) (funext fun q => ?_)
        show Board.portState (Function.update b.hal.live x.2 false)
          (Function.update b.uartHandles p none q) = _
        by_cases hq : q = p
        · rw [hq, Function.update_self, Function.update_self]
          rfl
        · rw [Function.update_of_ne hq, Function.update_of_ne hq]
          show _ = Board.portState b.hal.live (b.uartHandles q)
          cases hy : b.uartHandles q with
          | none => rfl
          | some y =>
              unfold Board.portState
              simp only [Function.update_of_ne (hother q hq y hy)]
      · have hopen : b.use.ports p ≠ .closed := fun h => by
          cases hx.symm.trans (portState_closed.mp h)
        refine (called_misuses b.hal (b.hal.live x.2) (hal.uartClose x.1 b.hal.hal).2).1.trans ?_
        rw [or_iff_right hopen, Ne, stale_iff hx, not_not]
        exact Iff.rfl
      · exact (called_misuses b.hal (b.hal.live x.2) (hal.uartClose x.1 b.hal.hal).2).2

/-- Opening a closed port puts a new handle on the book, or none. -/
theorem openPort_spec (hal : Driver S Hd) (hb : b.Sound) {p : Fin 4}
    (hp : b.uartHandles p = none) (port baudrate : Int) :
    ∃ ok : Bool, (openPort hal.tracked port p baudrate b).2.Sound ∧
      (openPort hal.tracked port p baudrate b).2.use = { b.use with
        ports := Function.update b.use.ports p (if ok then .opened else .closed) } ∧
      (openPort hal.tracked port p baudrate b).1
        = (if ok then HalErr.ok.code else HalErr.nodev.code) ∧
      ((openPort hal.tracked port p baudrate b).2.hal.misuses = b.hal.misuses ↔
        b.use.ready = true) ∧
      b.hal.misuses ≤ (openPort hal.tracked port p baudrate b).2.hal.misuses := by
  unfold openPort Driver.tracked
  dsimp only
  rcases hal.uartOpen port ⟨baudrate, 8, 1, 0⟩ b.hal.hal with ⟨_ | h, s⟩
  · have hcalled := called_misuses b.hal true s
    refine ⟨false, ?_, ?_, rfl, hcalled.1.trans (and_iff_left rfl), hcalled.2⟩
    · have hsame : Function.update b.uartHandles p none = b.uartHandles := by
        rw [← hp, Function.update_eq_self]
      dsimp only
      rw [hsame]
      exact ⟨hb.owned, hb.apart, hb.past⟩
    · refine congrArg (fun ports => Use.mk ports b.hal.ready) (funext fun q => ?_)
      show Board.portState b.hal.live (Function.update b.uartHandles p none q) = _
      by_cases hq : q = p
      · rw [hq, Function.update_self, Function.update_self]
        rfl
      · rw [Function.update_of_ne hq, Function.update_of_ne hq]
        rfl
  · have hcalled := called_misuses b.hal true s
    have htable : ∀ q y, Function.update b.uartHandles p (some (h, b.hal.opened)) q = some y →
        q = p ∧ y = (h, b.hal.opened) ∨ q ≠ p ∧ b.uartHandles q = some y := by
      intro q y hy
      by_cases hq : q = p
      · rw [hq, Function.update_self] at hy
        exact .inl ⟨hq, (Option.some.inj hy).symm⟩
      · rw [Function.update_of_ne hq] at hy
        exact .inr ⟨hq, hy⟩
    refine ⟨true, ⟨fun n hn => ?_, fun q r h1 h2 n hqn hrn => ?_, fun q h1 n hqn => ?_⟩, ?_, rfl,
      hcalled.1.trans (and_iff_left rfl), hcalled.2⟩
    · have hn' : Function.update b.hal.live b.hal.opened true n = true := hn
      by_cases hnew : n = b.hal.opened
      · exact ⟨p, h, hnew ▸ Function.update_self ..⟩
      · rw [Function.update_of_ne hnew] at hn'
        obtain ⟨q, h1, hq⟩ := hb.owned n hn'
        have hqp : q ≠ p := fun heq => by
          rw [heq, hp] at hq
          cases hq
        exact ⟨q, h1, (Function.update_of_ne hqp ..).trans hq⟩
    · obtain ⟨rfl, hy⟩ | ⟨hq, hy⟩ := htable q _ hqn <;>
        obtain ⟨rfl, hz⟩ | ⟨hr, hz⟩ := htable r _ hrn
      · rfl
      · -- a number in the table is older than the new one
        have hlt := hb.past r h2 n hz
        cases hy
        omega
      · have hlt := hb.past q h1 n hy
        cases hz
        omega
      · exact hb.apart q r h1 h2 n hy hz
    · show n < b.hal.opened + 1
      obtain ⟨-, hy⟩ | ⟨-, hy⟩ := htable q _ hqn
      · cases hy
        omega
      · have hlt := hb.past q h1 n hy
        omega
    · refine congrArg (fun ports => Use.mk ports b.hal.ready) (funext fun q => ?_)
      show Board.portState (Function.update b.hal.live b.hal.opened true)
        (Function.update b.uartHandles p (some (h, b.hal.opened)) q) = _
      by_cases hq : q = p
      · rw [hq, Function.update_self, Function.update_self]
        unfold Board.portState
        simp only [Function.update_self, if_true]
      · rw [Function.update_of_ne hq, Function.update_of_ne hq]
        show _ = Board.portState b.hal.live (b.uartHandles q)
        cases hy : b.uartHandles q with
        | none => rfl
        | some y =>
            have hlt := hb.past q y.1 y.2 hy
            unfold Board.portState
            simp only [Function.update_of_ne (Nat.ne_of_lt hlt)]

/-! ## Runs -/

/-- One call, as a step of the board. -/
def boardStep (hal : Driver S Hd) (o : HalOp) (b : Board S Hd) : Option (Board S Hd) :=
  some (o.run hal b).2

/-- What a call does to the book. -/
structure PortLaw (hal : Driver S Hd) (b : Board (Tracked S) (Hd × Nat)) (o : HalOp)
    (b' : Board (Tracked S) (Hd × Nat)) : Prop where
  /-- The ports go on as the four machines do, and `v4_hal_uart_init` tells which way. -/
  ports : ∃ ok, b'.use = b.use.after ok o ∧ ∀ port baudrate p, o = .uartInit port baudrate →
    portIndex port = some p → (o.run hal.tracked b).1.err
      = some (if ok then HalErr.ok.code else HalErr.nodev.code)
  misuse : b'.hal.misuses = b.hal.misuses ↔ ¬ b.use.Violates o
  grows : b.hal.misuses ≤ b'.hal.misuses
  refused : b.use.access o = .refused →
    (o.run hal.tracked b).1.err = some HalErr.param.code ∧ b' = b

/-- A call that leaves the table alone. -/
theorem Quiet.law {o : HalOp} (h : Quiet hal b o) (hb : b.Sound)
    (hafter : ∀ ok, b.use.after ok o = b.use)
    (hinit : ∀ port baudrate, o ≠ .uartInit port baudrate) :
    (o.run hal.tracked b).2.Sound ∧ PortLaw hal b o (o.run hal.tracked b).2 := by
  have hports : ∀ b' : Board (Tracked S) (Hd × Nat), b'.use = b.use → ∃ ok,
      b'.use = b.use.after ok o ∧ ∀ port baudrate p, o = .uartInit port baudrate →
        portIndex port = some p → (o.run hal.tracked b).1.err
          = some (if ok then HalErr.ok.code else HalErr.nodev.code) := fun b' huse =>
    ⟨true, huse.trans (hafter true).symm,
      fun port baudrate _ heq => absurd heq (hinit port baudrate)⟩
  obtain ⟨hacc, herr, hboard⟩ | ⟨hacc, s, hboard⟩ | ⟨p, x, s, hacc, hx, hboard⟩ := h
  · rw [hboard]
    refine ⟨hb, hports b rfl, iff_of_true rfl ?_, Nat.le_refl _, fun _ => ⟨herr, rfl⟩⟩
    rw [Use.Violates, hacc]
    exact id
  · rw [hboard]
    have hcalled := called_misuses b.hal true s
    refine ⟨⟨hb.owned, hb.apart, hb.past⟩, hports _ rfl, hcalled.1.trans ?_, hcalled.2, ?_⟩
    · rw [Use.Violates, hacc]
      show _ ↔ ¬ b.hal.ready = false
      rw [Bool.not_eq_false, and_iff_left rfl]
    · intro href
      cases hacc.symm.trans href
  · rw [hboard]
    have hcalled := called_misuses b.hal (b.hal.live x.2) s
    refine ⟨⟨hb.owned, hb.apart, hb.past⟩, hports _ rfl, hcalled.1.trans ?_, hcalled.2, ?_⟩
    · rw [Use.Violates, hacc]
      show _ ↔ ¬ (b.hal.ready = false ∨ b.use.ports p = .stale)
      rw [not_or, Bool.not_eq_false, stale_iff hx, not_not]
    · intro href
      cases hacc.symm.trans href

/-- `v4_hal_uart_init`. -/
theorem init_law (hb : b.Sound) (port baudrate : Int) :
    ((HalOp.uartInit port baudrate).run hal.tracked b).2.Sound ∧
      PortLaw hal b (.uartInit port baudrate)
        ((HalOp.uartInit port baudrate).run hal.tracked b).2 := by
  cases hp : portIndex port with
  | none =>
      have hacc : b.use.access (.uartInit port baudrate) = .refused := by
        simp only [Use.access, hp]
      have hrun : (HalOp.uartInit port baudrate).run hal.tracked b
          = (.code HalErr.param.code, b) := by
        simp only [HalOp.run, v4HalUartInit, hp]
        rfl
      rw [hrun]
      refine ⟨hb, ⟨true, by simp only [Use.after, hp], fun port' _ p heq hport => ?_⟩,
        iff_of_true rfl ?_, Nat.le_refl _, fun _ => ⟨congrArg (fun r => r.1.err) hrun, rfl⟩⟩
      · cases heq
        cases hp.symm.trans hport
      · rw [Use.Violates, hacc]
        exact id
  | some p =>
      have hacc : b.use.access (.uartInit port baudrate) = .port p := by
        simp only [Use.access, hp]
      have hrun : (HalOp.uartInit port baudrate).run hal.tracked b = answered .code
          (openPort hal.tracked port p baudrate (closeExisting hal.tracked p b)) := by
        simp only [HalOp.run, v4HalUartInit_eq _ hp]
      obtain ⟨hsound1, hnone, huse1, hmis1, hle1⟩ := closeExisting_spec hal hb p
      obtain ⟨ok, hsound2, huse2, hcode, hmis2, hle2⟩ :=
        openPort_spec hal hsound1 hnone port baudrate
      have hready : (closeExisting hal.tracked p b).use.ready = b.use.ready := by rw [huse1]
      rw [hready] at hmis2
      rw [hrun]
      refine ⟨hsound2, ⟨ok, ?_, fun _ _ _ _ _ => ?_⟩, ?_, Nat.le_trans hle1 hle2, fun href => ?_⟩
      · refine huse2.trans ?_
        rw [huse1]
        simp only [Use.after, hp, Function.update_idem]
      · rw [hrun]
        exact congrArg some hcode
      · -- both calls count, so neither may be a misuse
        have hboth :
            (openPort hal.tracked port p baudrate
              (closeExisting hal.tracked p b)).2.hal.misuses = b.hal.misuses ↔
            (closeExisting hal.tracked p b).hal.misuses = b.hal.misuses ∧ b.use.ready = true := by
          rw [← hmis2]
          omega
        refine hboth.trans ?_
        rw [hmis1, Use.Violates, hacc]
        show _ ↔ ¬ (b.use.ready = false ∨ b.use.ports p = .stale)
        cases b.use.ready <;> cases b.use.ports p <;> simp
      · cases hacc.symm.trans href

/-- `v4_hal_system_reset`. -/
theorem reset_law (hb : b.Sound) :
    (HalOp.systemReset.run hal.tracked b).2.Sound ∧
      PortLaw hal b .systemReset (HalOp.systemReset.run hal.tracked b).2 := by
  have hcalled := called_misuses b.hal true (hal.deinit b.hal.hal)
  refine ⟨⟨fun n hn => ?_, hb.apart, hb.past⟩,
    ⟨decide ((hal.init (hal.deinit b.hal.hal)).1 = HalErr.ok.code), ?_, fun _ _ _ heq => ?_⟩, ?_,
    hcalled.2, ?_⟩
  · have hnone : false = true := hn
    cases hnone
  · refine congrArg (fun ports => Use.mk ports _) (funext fun p => ?_)
    show Board.portState (fun _ => false) (b.uartHandles p)
      = if Board.portState b.hal.live (b.uartHandles p) = .closed then .closed else .stale
    cases hx : b.uartHandles p with
    | none => rfl
    | some x =>
        have hopen : Board.portState b.hal.live (some x) ≠ .closed := fun h => by
          cases portState_closed.mp h
        rw [if_neg hopen]
        rfl
  · cases heq
  · refine hcalled.1.trans ?_
    show _ ↔ ¬ b.hal.ready = false
    rw [Bool.not_eq_false, and_iff_left rfl]
  · intro href
    cases href

/-- **One call.** -/
theorem run_law (hal : Driver S Hd) (hb : b.Sound) (o : HalOp) :
    (o.run hal.tracked b).2.Sound ∧ PortLaw hal b o (o.run hal.tracked b).2 := by
  cases o with
  | uartInit port baudrate => exact init_law hb port baudrate
  | systemReset => exact reset_law hb
  | _ =>
      exact (run_quiet hal b (fun _ _ h => by cases h) fun h => by cases h).law hb (fun _ => rfl)
        fun _ _ h => by cases h

end

theorem boot_sound (s : S) : (Board.boot (.start s) : Board (Tracked S) (Hd × Nat)).Sound where
  owned n hn := by cases hn
  apart p q h h' n hp := by cases hp
  past p h n hp := by cases hp

/-- The book of a whole run is the book of its calls. -/
theorem exec_erase (hal : Driver S Hd) {os : List HalOp} {b b' : Board (Tracked S) (Hd × Nat)}
    (h : exec (boardStep hal.tracked) os b = some b') :
    exec (boardStep hal) os b.erase = some b'.erase := by
  induction os generalizing b with
  | nil =>
      cases h
      rfl
  | cons o os ih =>
      obtain ⟨b1, hstep, hrest⟩ := exec_cons_eq_some.mp h
      obtain rfl := Option.some.inj hstep
      refine exec_cons_eq_some.mpr ⟨_, ?_, ih hrest⟩
      exact congrArg some (run_erase hal b o).2.symm

/-- No misuse so far means that no call has violated the rules. -/
theorem misuses_iff (hal : Driver S Hd) {os : List HalOp} {b b' : Board (Tracked S) (Hd × Nat)}
    (hb : b.Sound) (h : exec (boardStep hal.tracked) os b = some b') :
    b.hal.misuses ≤ b'.hal.misuses ∧ (b'.hal.misuses = b.hal.misuses ↔
      Along (boardStep hal.tracked) (fun b o => ¬ b.use.Violates o) os b) := by
  induction os generalizing b with
  | nil =>
      cases h
      exact ⟨Nat.le_refl _, iff_of_true rfl trivial⟩
  | cons o os ih =>
      obtain ⟨b1, hstep, hrest⟩ := exec_cons_eq_some.mp h
      obtain rfl := Option.some.inj hstep
      obtain ⟨hsound, hlaw⟩ := run_law hal hb o
      obtain ⟨hle, hiff⟩ := ih hsound hrest
      have hgrows := hlaw.grows
      refine ⟨Nat.le_trans hgrows hle, ?_⟩
      have hboth : b'.hal.misuses = b.hal.misuses ↔
          (o.run hal.tracked b).2.hal.misuses = b.hal.misuses ∧
            b'.hal.misuses = (o.run hal.tracked b).2.hal.misuses := by omega
      rw [hboth, hlaw.misuse, hiff]
      refine and_congr_right fun _ => ⟨fun hrun b2 hb2 => ?_, fun hrun => hrun _ rfl⟩
      obtain rfl := Option.some.inj hb2
      exact hrun

/-- **The wrapper and its ports.**  Whatever the drivers do, every run of `v4_hal_*` calls is a
    run of four ports: a call is refused with `HAL_ERR_PARAM`, without a driver being called,
    just where the ports refuse it; no handle is lost and no two ports share one; and
    `hal.h` has been kept to if and only if no call was a violation, that is, used a port that
    was open at a reset or followed a reset whose `hal_init` failed. -/
theorem wrapper_refines_ports (hal : Driver S Hd) (s : S) (os : List HalOp) :
    EachStep (boardStep hal.tracked) (PortLaw hal) os (.boot (.start s)) ∧
      ∃ b, exec (boardStep hal.tracked) os (.boot (.start s)) = some b ∧
        exec (boardStep hal) os (.boot s) = some b.erase ∧ b.Sound ∧
        (b.hal.misuses = 0 ↔ Along (boardStep hal.tracked) (fun b o => ¬ b.use.Violates o) os
          (.boot (.start s))) := by
  have hstep : ∀ o (b : Board (Tracked S) (Hd × Nat)), b.Sound → True →
      ∃ b', boardStep hal.tracked o b = some b' ∧ b'.Sound ∧ PortLaw hal b o b' := by
    intro o b hb _
    obtain ⟨hsound, hlaw⟩ := run_law hal hb o
    exact ⟨_, rfl, hsound, hlaw⟩
  have hrun : (exec (boardStep hal.tracked) os (.boot (.start s))).isSome ∧
      EachStep (boardStep hal.tracked) (PortLaw hal) os (.boot (.start s)) :=
    exec_eachStep hstep (boot_sound s) fun _ _ => trivial
  obtain ⟨hsome, heach⟩ := hrun
  obtain ⟨b, hb⟩ := Option.isSome_iff_exists.mp hsome
  have hsound : b.Sound := exec_invariant (I := Board.Sound)
    (fun o b b' hb hs => by
      obtain rfl := Option.some.inj hs
      exact (run_law hal hb o).1) (boot_sound s) hb
  exact ⟨heach, b, hb, exec_erase hal hb, hsound, (misuses_iff hal (boot_sound s) hb).2⟩

end Hal
end V4Engine
