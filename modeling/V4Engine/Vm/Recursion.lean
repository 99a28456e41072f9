/-
  V4Engine.Vm.Recursion

  `vm_exec_raw` as it is written: `CALL` is a call of the function itself.

  `V4Engine.Vm.Machine` keeps the suspended activations in a list.  Here they are
  activations of the interpreter, and `fuel` bounds the turns of the loop and of
  the polls on every path down.  The two agree: the recursive function returns
  what the machine ends with, and runs out of every fuel exactly where the machine
  goes on for ever (`execRaw_ends_iff`).
-/
import V4Engine.Vm.Machine
import V4Engine.Lib.Iterate

namespace V4Engine

open Lib FaultM VmM

variable {W : Type}

/-! ## The recursive function -/

/-- How a call of `vm_exec_raw` ends. -/
inductive Ending (W : Type) where
  | returned (e : V4Err) (m : Machine W)
  | fault

/-- A turn of the loop, or of the loop inside a blocking receive. -/
def turn (H : Host W) (w : Option Waiting) (cur : Activation) : VmM W Flow :=
  match w with
  | none => fetch H cur
  | some w => pollOnce H w cur.ip

/-- The rest of `case CALL:` once the nested call is over: the frame pointer is put back,
    then an error is handed on. -/
def afterCall (oldFp : Option Nat) (goOn : Machine W → Option (Ending W)) :
    Ending W → Option (Ending W)
  | .returned e m => if e = 0 then goOn (m.setFp oldFp) else some (.returned e (m.setFp oldFp))
  | .fault => some .fault

/-- `vm_exec_raw` from the instruction pointer of `cur` on. -/
def execRaw (H : Host W) : Nat → Option Waiting → Activation → Machine W → Option (Ending W)
  | 0, _, _, _ => none
  | fuel + 1, w, cur, m =>
      match turn H w cur m with
      | .ok (.next ip) m => execRaw H fuel none { cur with ip := ip } m
      | .ok (.wait w ip) m => execRaw H fuel (some w) { cur with ip := ip } m
      | .ok .ret m => some (.returned 0 m)
      | .ok (.call c ip) m =>
          (execRaw H fuel none c (m.setFp (some m.vm.rp))).bind
            (afterCall m.vm.fp (execRaw H fuel none { cur with ip := ip }))
      | .err e m => some (.returned e m)
      | .fault => some .fault

/-- `vm_exec_raw(vm, bc, len)`. -/
def vmExecRaw (H : Host W) (fuel : Nat) (m : Machine W) (bc : List Byte) (len : Nat) :
    Option (Ending W) := execRaw H fuel none ⟨bc, len, 0⟩ m

/-! ## Against the machine -/

/-- The configuration an activation is in. -/
def Config.at (w : Option Waiting) (m : Machine W) (cur : Activation) (cs : List Caller) :
    Config W :=
  match w with
  | none => .run m cur cs
  | some w => .poll w m cur cs

/-- The configuration a call leaves to its callers. -/
def Ending.config (cs : List Caller) : Ending W → Config W
  | .returned e m => .ret e m cs
  | .fault => .fault

variable {H : Host W}

theorem step_at (w : Option Waiting) (m : Machine W) (cur : Activation) (cs : List Caller) :
    step H (.at w m cur cs) = some (settle cur cs (turn H w cur m)) := by
  cases w <;> rfl

/-- What is left to do in a caller. -/
theorem step_return (x : Caller) (cs : List Caller) {r : Ending W} :
    step H (r.config (x :: cs)) = none ∧ r = .fault ∨
      ∃ e m, r = .returned e m ∧ step H (r.config (x :: cs))
        = some (if e = 0 then .run (m.setFp x.oldFp) x.act cs
            else .ret e (m.setFp x.oldFp) cs) := by
  cases r with
  | fault => exact .inl ⟨rfl, rfl⟩
  | returned e m =>
      refine .inr ⟨e, m, rfl, ?_⟩
      show (if e = 0 then _ else _) = _
      by_cases he : e = 0
      · rw [if_pos he, if_pos he]
      · rw [if_neg he, if_neg he]

/-- **Soundness.**  What the function returns is where the machine gets, whoever called. -/
theorem execRaw_reaches {fuel : Nat} {w : Option Waiting} {cur : Activation} {m : Machine W}
    {r : Ending W} (h : execRaw H fuel w cur m = some r) (cs : List Caller) :
    Reaches H (.at w m cur cs) (r.config cs) := by
  induction fuel generalizing w cur m r cs with
  | zero => cases h
  | succ fuel ih =>
      have hstep : Step H (.at w m cur cs) (settle cur cs (turn H w cur m)) := step_at w m cur cs
      refine .head hstep ?_
      rw [execRaw] at h
      match hturn : turn H w cur m, h with
      | .ok (.next ip) m', h => exact ih h cs
      | .ok (.wait w' ip) m', h => exact ih h cs
      | .ok .ret m', h => cases h; exact .refl
      | .err e m', h => cases h; exact .refl
      | .fault, h => cases h; exact .refl
      | .ok (.call c ip) m', h =>
          obtain ⟨r', hcallee, hrest⟩ := Option.bind_eq_some_iff.mp h
          have hreach := ih hcallee (⟨{ cur with ip := ip }, m'.vm.fp⟩ :: cs)
          refine .trans hreach ?_
          obtain ⟨-, rfl⟩ | ⟨e, n, rfl, hreturn⟩ := step_return (H := H) (r := r')
            ⟨{ cur with ip := ip }, m'.vm.fp⟩ cs
          · cases hrest
            exact .refl
          · refine .head hreturn ?_
            simp only [afterCall] at hrest
            by_cases he : e = 0
            · rw [if_pos he] at hrest ⊢
              exact ih hrest cs
            · rw [if_neg he] at hrest ⊢
              cases hrest
              exact .refl

/-- **Starvation.**  A function that runs out of fuel has made the machine take at least
    that many steps. -/
theorem execRaw_starved {fuel : Nat} {w : Option Waiting} {cur : Activation} {m : Machine W}
    (h : execRaw H fuel w cur m = none) (cs : List Caller) :
    ∃ k d, fuel ≤ k ∧ iterate (step H) k (.at w m cur cs) = some d := by
  induction fuel generalizing w cur m cs with
  | zero => exact ⟨0, _, Nat.le_refl 0, rfl⟩
  | succ fuel ih =>
      -- one step here, and then as many as the rest takes
      have goOn : ∀ {k d}, fuel ≤ k →
          iterate (step H) k (settle cur cs (turn H w cur m)) = some d →
          ∃ k d, fuel + 1 ≤ k ∧ iterate (step H) k (.at w m cur cs) = some d :=
        fun hk hd => ⟨_, _, Nat.succ_le_succ hk,
          iterate_succ_eq_some.mpr ⟨_, step_at w m cur cs, hd⟩⟩
      rw [execRaw] at h
      match hturn : turn H w cur m, h with
      | .ok (.next ip) m', h =>
          rw [hturn] at goOn
          obtain ⟨k, d, hk, hd⟩ := ih h cs
          exact goOn hk hd
      | .ok (.wait w' ip) m', h =>
          rw [hturn] at goOn
          obtain ⟨k, d, hk, hd⟩ := ih h cs
          exact goOn hk hd
      | .ok .ret m', h => cases h
      | .err e m', h => cases h
      | .fault, h => cases h
      | .ok (.call c ip) m', h =>
          rw [hturn] at goOn
          cases hcallee : execRaw H fuel none c (m'.setFp (some m'.vm.rp)) with
          | none =>
              obtain ⟨k, d, hk, hd⟩ := ih hcallee (⟨{ cur with ip := ip }, m'.vm.fp⟩ :: cs)
              exact goOn hk hd
          | some r =>
              -- the callee is back, and the caller starves after it
              change (execRaw H fuel none c (m'.setFp (some m'.vm.rp))).bind _ = none at h
              rw [hcallee] at h
              obtain ⟨j, hj⟩ := reaches_iff_iterate.mp
                (execRaw_reaches hcallee (⟨{ cur with ip := ip }, m'.vm.fp⟩ :: cs))
              obtain ⟨-, rfl⟩ | ⟨e, n, rfl, hreturn⟩ := step_return (H := H) (r := r)
                ⟨{ cur with ip := ip }, m'.vm.fp⟩ cs
              · cases h
              · simp only [Option.bind_some, afterCall] at h
                by_cases he : e = 0
                · rw [if_pos he] at h hreturn
                  obtain ⟨k, d, hk, hd⟩ := ih h cs
                  have hrest :
                      iterate (step H) (k + 1) (Ending.config _ (.returned e n)) = some d :=
                    iterate_succ_eq_some.mpr ⟨_, hreturn, hd⟩
                  exact goOn (k := j + (k + 1)) (by omega)
                    (iterate_add_eq_some.mpr ⟨_, hj, hrest⟩)
                · rw [if_neg he] at h
                  cases h

/-- **The recursion and the machine** end alike: for every ending, some fuel lets the
    function end so if and only if the machine ends so; and no fuel is enough if and only if
    the machine never ends. -/
theorem execRaw_ends_iff (H : Host W) (m : Machine W) (bc : List Byte) (len : Nat) :
    (∀ r : Ending W, (∃ fuel, vmExecRaw H fuel m bc len = some r) ↔
        Reaches H (.start m bc len) (r.config [])) ∧
      ((∀ fuel, vmExecRaw H fuel m bc len = none) ↔
        ∀ d, Reaches H (.start m bc len) d → ∃ d', Step H d d') := by
  have hfinal : ∀ r : Ending W, step H (r.config []) = none := by rintro (_ | _) <;> rfl
  -- with more fuel than the machine takes steps, the function ends
  have hfuel : ∀ {n d}, iterate (step H) n (.start m bc len) = some d → step H d = none →
      ∃ r, vmExecRaw H (n + 1) m bc len = some r := by
    intro n d hn hd
    cases hr : vmExecRaw H (n + 1) m bc len with
    | some r => exact ⟨r, rfl⟩
    | none =>
        obtain ⟨k, c, hk, hc⟩ := execRaw_starved hr []
        exact absurd (iterate_le_of_final hn hd hc) (by omega)
  constructor
  · intro r
    constructor
    · rintro ⟨fuel, h⟩
      exact execRaw_reaches h []
    · intro h
      obtain ⟨n, hn⟩ := reaches_iff_iterate.mp h
      obtain ⟨r', hr'⟩ := hfuel hn (hfinal r)
      have heq := h.unique_end (hfinal r) (execRaw_reaches hr' []) (hfinal r')
      obtain rfl : r' = r := by
        cases r <;> cases r' <;> cases heq <;> rfl
      exact ⟨n + 1, hr'⟩
  · constructor
    · intro h d hd
      cases hnext : step H d with
      | some d' => exact ⟨d', hnext⟩
      | none =>
          obtain ⟨n, hn⟩ := reaches_iff_iterate.mp hd
          obtain ⟨r, hr⟩ := hfuel hn hnext
          rw [h] at hr
          cases hr
    · intro h fuel
      cases hr : vmExecRaw H fuel m bc len with
      | none => rfl
      | some r =>
          obtain ⟨d', hd'⟩ := h _ (execRaw_reaches hr [])
          rw [Step, hfinal r] at hd'
          cases hd'

end V4Engine
