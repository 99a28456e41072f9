/-
  V4Engine.Vm.Relocation

  Bytecode is position independent.

  Jumps are relative and immediates are read at the instruction pointer, so that
  a fragment does the same wherever it stands inside longer code, as long as it
  stays within its own bytes.  `Relocated` pairs the configurations of a fragment
  run on its own with those of the code around it: only the outermost activation
  differs.  A fragment that runs off its end, is cut inside an instruction or
  jumps out of itself ends in one of `boundaryErrors`, and only there the two part.
-/
import V4Engine.Vm.WordEntry
import V4Engine.Lib.Iterate

namespace V4Engine

open Lib FaultM VmM

variable {W : Type}

/-! ## Fragments -/

/-- A fragment of `len` bytes at offset `k` of longer code. -/
structure Fragment where
  bc : List Byte
  len : Nat
  whole : List Byte
  wholeLen : Nat
  offset : Nat
  bytes : ∀ i, i < len → whole[offset + i]? = bc[i]?
  fits : offset + len ≤ wholeLen

/-- The fragment on its own, at offset `ip`. -/
def Fragment.alone (F : Fragment) (ip : Nat) : Activation := ⟨F.bc, F.len, ip⟩

/-- The same place in the code around it. -/
def Fragment.placed (F : Fragment) (ip : Nat) : Activation := ⟨F.whole, F.wholeLen, F.offset + ip⟩

/-- What a fragment that leaves its own bytes reports. -/
def boundaryErrors : List V4Err :=
  [Err.truncatedLiteral.code, Err.truncatedJump.code, Err.jumpOutOfRange.code, Err.fellOffEnd.code]

/-- An instruction that faults or reports a boundary error. -/
def Leaves : Outcome V4Err (Machine W) Flow → Prop
  | .ok _ _ => False
  | .err e _ => e ∈ boundaryErrors
  | .fault => True

/-- A flow of the fragment, seen from the code around it. -/
def Flow.relocate (k : Nat) : Flow → Flow
  | .next ip => .next (k + ip)
  | .ret => .ret
  | .call c ip => .call c (k + ip)
  | .wait w ip => .wait w (k + ip)

/-- From every machine, `y` does what `x` does, `k` bytes further on, unless `x` leaves its
    code. -/
def Follows (k : Nat) (x y : VmM W Flow) : Prop :=
  ∀ m, y m = (do let f ← x; return f.relocate k : VmM W Flow) m ∨ Leaves (x m)

variable {H : Host W} {k : Nat}

namespace Follows

theorem pure (f : Flow) : Follows k (Pure.pure f : VmM W Flow) (Pure.pure (f.relocate k)) :=
  fun _ => .inl rfl

theorem panic (e : V4Err) :
    Follows k (vmPanic H e : VmM W Flow) (vmPanic H e) := by
  intro m
  refine .inl ?_
  rw [bind_run, vmPanic_run]
  cases panicInfo m.vm e <;> rfl

/-- The same computation first. -/
theorem bind {α : Type} (x : VmM W α) {f g : α → VmM W Flow} (h : ∀ v, Follows k (f v) (g v)) :
    Follows k (x >>= f) (x >>= g) := by
  intro m
  rw [FaultM.bind_assoc]
  simp only [bind_run]
  cases x m with
  | ok v m' => exact h v m'
  | err e m' => exact .inl rfl
  | fault => exact .inl rfl

/-- A read of the code first. -/
theorem bindRead {α : Type} {x y : VmM W α} (hxy : y = x ∨ ∃ e : Err, e.code ∈ boundaryErrors ∧
    x = vmPanic H e.code) {f g : α → VmM W Flow} (h : ∀ v, Follows k (f v) (g v)) :
    Follows k (x >>= f) (y >>= g) := by
  obtain rfl | ⟨e, he, rfl⟩ := hxy
  · exact .bind y h
  · intro m
    refine .inr ?_
    rw [bind_run, vmPanic_run]
    cases panicInfo m.vm e.code with
    | none => trivial
    | some info => exact he

theorem thenNext (ip : Nat) (body : VmM W Unit) :
    Follows k (thenNext ip body) (thenNext (k + ip) body) := .bind body fun _ => .pure (.next ip)

theorem ite {c : Prop} [Decidable c] {x x' y y' : VmM W Flow} (h : Follows k x y)
    (h' : Follows k x' y') : Follows k (if c then x else x') (if c then y else y') := by
  by_cases hc : c
  · rwa [if_pos hc, if_pos hc]
  · rwa [if_neg hc, if_neg hc]

end Follows

/-! ## One instruction -/

section

variable (F : Fragment)

/-- Inside the fragment the two read the same bytes. -/
theorem Fragment.codeByte {i : Nat} (hi : i < F.len) (ip : Nat) :
    (codeByte (F.placed ip) (F.offset + i) : VmM W Byte) = V4Engine.codeByte (F.alone ip) i :=
  congrArg ofOption (F.bytes i hi)

theorem Fragment.imm8 (H : Host W) (a ip : Nat) :
    imm8 H (F.placed a) (F.offset + ip) = V4Engine.imm8 H (F.alone a) ip ∨
      ∃ e : Err, e.code ∈ boundaryErrors ∧ V4Engine.imm8 H (F.alone a) ip = vmPanic H e.code := by
  have hfits := F.fits
  rcases Nat.lt_or_ge ip F.len with hlt | hge
  · have hlong : ¬ F.offset + ip ≥ F.wholeLen := by omega
    refine .inl ?_
    rw [V4Engine.imm8, V4Engine.imm8, Fragment.alone, Fragment.placed, if_neg hlong,
      if_neg (Nat.not_le.mpr hlt)]
    exact F.codeByte hlt a
  · exact .inr ⟨.truncatedLiteral, by decide, if_pos hge⟩

theorem Fragment.imm16 (H : Host W) {e : Err} (he : e.code ∈ boundaryErrors) (a ip : Nat) :
    imm16 H e (F.placed a) (F.offset + ip) = V4Engine.imm16 H e (F.alone a) ip ∨
      ∃ e' : Err, e'.code ∈ boundaryErrors ∧
        V4Engine.imm16 H e (F.alone a) ip = vmPanic H e'.code := by
  have hfits := F.fits
  rcases Nat.lt_or_ge F.len (ip + 2) with hlt | hge
  · exact .inr ⟨e, he, if_pos hlt⟩
  · have hlong : ¬ F.offset + ip + 2 > F.wholeLen := by omega
    refine .inl ?_
    rw [V4Engine.imm16, V4Engine.imm16, Fragment.alone, Fragment.placed, if_neg hlong,
      if_neg (Nat.not_lt.mpr hge)]
    change (do let b0 ← V4Engine.codeByte (F.placed a) (F.offset + ip)
               let b1 ← V4Engine.codeByte (F.placed a) (F.offset + (ip + 1))
               return b0.setWidth 16 ||| (b1.setWidth 16 <<< 8) : VmM W (BitVec 16)) = _
    rw [F.codeByte (by omega), F.codeByte (by omega)]
    rfl

theorem Fragment.imm32 (H : Host W) (a ip : Nat) :
    imm32 H (F.placed a) (F.offset + ip) = V4Engine.imm32 H (F.alone a) ip ∨
      ∃ e : Err, e.code ∈ boundaryErrors ∧ V4Engine.imm32 H (F.alone a) ip = vmPanic H e.code := by
  have hfits := F.fits
  rcases Nat.lt_or_ge F.len (ip + 4) with hlt | hge
  · exact .inr ⟨.truncatedLiteral, by decide, if_pos hlt⟩
  · have hlong : ¬ F.offset + ip + 4 > F.wholeLen := by omega
    refine .inl ?_
    rw [V4Engine.imm32, V4Engine.imm32, Fragment.alone, Fragment.placed, if_neg hlong,
      if_neg (Nat.not_lt.mpr hge)]
    change (do let b0 ← V4Engine.codeByte (F.placed a) (F.offset + ip)
               let b1 ← V4Engine.codeByte (F.placed a) (F.offset + (ip + 1))
               let b2 ← V4Engine.codeByte (F.placed a) (F.offset + (ip + 2))
               let b3 ← V4Engine.codeByte (F.placed a) (F.offset + (ip + 3))
               return b0.setWidth 32 ||| (b1.setWidth 32 <<< 8) ||| (b2.setWidth 32 <<< 16)
                 ||| (b3.setWidth 32 <<< 24) : VmM W Cell) = _
    rw [F.codeByte (by omega), F.codeByte (by omega), F.codeByte (by omega),
      F.codeByte (by omega)]
    rfl

/-- A target inside the fragment is the same place in the code around it. -/
theorem Fragment.jumpTo (H : Host W) (a ip : Nat) (off : BitVec 16) :
    Follows F.offset (V4Engine.jumpTo H (F.alone a) ip off)
      (V4Engine.jumpTo H (F.placed a) (F.offset + ip) off) := by
  have hfits := F.fits
  intro m
  by_cases hout : (ip : Int) + off.toInt < 0 ∨ (ip : Int) + off.toInt > F.len
  · refine .inr ?_
    rw [V4Engine.jumpTo, Fragment.alone, if_pos hout, vmPanic_run]
    cases panicInfo m.vm Err.jumpOutOfRange.code with
    | none => trivial
    | some info => exact (by decide : Err.jumpOutOfRange.code ∈ boundaryErrors)
  · have hin : ¬ (((F.offset + ip : Nat) : Int) + off.toInt < 0 ∨
        ((F.offset + ip : Nat) : Int) + off.toInt > F.wholeLen) := by omega
    have htarget : (((F.offset + ip : Nat) : Int) + off.toInt).toNat
        = F.offset + ((ip : Int) + off.toInt).toNat := by omega
    refine .inl ?_
    rw [V4Engine.jumpTo, V4Engine.jumpTo, Fragment.alone, Fragment.placed, if_neg hout,
      if_neg hin, htarget]
    rfl

/-- **The switch, relocated.**  No body looks at the code but through its own immediate. -/
theorem execOp_follows (H : Host W) (a ip : Nat) (op : Op) :
    Follows F.offset (execOp H (F.alone a) ip op) (execOp H (F.placed a) (F.offset + ip) op) := by
  have htrunc : Err.truncatedJump.code ∈ boundaryErrors := by decide
  match op with
  | .LIT => exact .bindRead (F.imm32 H a ip) fun _ => .thenNext (ip + 4) _
  | .LIT_U8 | .LIT_I8 | .LGET | .LSET | .LTEE | .LINC | .LDEC =>
      exact .bindRead (F.imm8 H a ip) fun _ => .thenNext (ip + 1) _
  | .LIT_I16 =>
      exact .bindRead (F.imm16 H (by decide) a ip) fun _ => .thenNext (ip + 2) _
  | .JMP => exact .bindRead (F.imm16 H htrunc a ip) fun off => F.jumpTo H a (ip + 2) off
  | .JZ | .JNZ =>
      refine .bindRead (F.imm16 H htrunc a ip) fun off => .bind (dsPop H) fun cond => ?_
      exact .ite (F.jumpTo H a (ip + 2) off) (.pure (.next (ip + 2)))
  | .CALL =>
      refine .bindRead (F.imm16 H htrunc a ip) fun idx => .bind (callee H idx) fun c => ?_
      exact .pure (.call c (ip + 2))
  | .RET => exact .pure .ret
  | .TASK_EXIT => exact .bind (vmTaskExit H) fun _ => .pure .ret
  | .TASK_RECEIVE_BLOCKING => exact .bind (taskReceiveBlockingOp H) fun w => .pure (.wait w ip)
  | .DUP | .DROP | .SWAP | .OVER | .ADD | .SUB | .MUL | .DIV | .MOD | .DIVU | .MODU
  | .EQ | .NE | .LT | .LE | .GT | .GE | .LTU | .LEU | .INC | .DEC | .AND | .OR | .XOR
  | .INVERT | .SHL | .SHR | .SAR | .SELECT | .LOAD | .STORE | .LOAD8U | .LOAD16U | .STORE8
  | .STORE16 | .LOAD8S | .LOAD16S | .TOR | .FROMR | .RFETCH | .LIT0 | .LIT1 | .LITN1
  | .LGET0 | .LGET1 | .LSET0 | .LSET1 | .SYS | .TASK_SPAWN | .TASK_SLEEP | .TASK_YIELD
  | .CRITICAL_ENTER | .CRITICAL_EXIT | .TASK_SEND | .TASK_RECEIVE | .TASK_SELF | .TASK_COUNT =>
      exact .thenNext ip _

/-- A turn of the loop. -/
theorem fetch_follows (H : Host W) (ip : Nat) :
    Follows F.offset (fetch H (F.alone ip)) (fetch H (F.placed ip)) := by
  have hfits := F.fits
  rcases Nat.lt_or_ge ip F.len with hlt | hge
  · have hshort : (F.alone ip).ip < (F.alone ip).len := hlt
    have hlong : (F.placed ip).ip < (F.placed ip).len :=
      Nat.lt_of_lt_of_le (Nat.add_lt_add_left hlt F.offset) hfits
    have hcode : (codeByte (F.placed ip) (F.placed ip).ip : VmM W Byte)
        = codeByte (F.alone ip) (F.alone ip).ip := F.codeByte hlt ip
    rw [fetch, fetch, if_pos hshort, if_pos hlong, execInstr, execInstr, hcode]
    refine .bind _ fun b => ?_
    cases Op.ofByte b with
    | none => exact .panic Err.unknownOp.code
    | some op => exact execOp_follows F H ip (ip + 1) op
  · have hend : ¬ (F.alone ip).ip < (F.alone ip).len := Nat.not_lt.mpr hge
    intro m
    refine .inr ?_
    rw [fetch, if_neg hend, vmPanic_run]
    cases panicInfo m.vm Err.fellOffEnd.code with
    | none => trivial
    | some info => exact (by decide : Err.fellOffEnd.code ∈ boundaryErrors)

theorem pollOnce_follows (H : Host W) (w : Waiting) (ip : Nat) :
    Follows F.offset (pollOnce H w ip) (pollOnce H w (F.offset + ip)) := by
  refine .bind (pollQueue H w) fun p => ?_
  cases p with
  | received data src => exact .thenNext ip _
  | timeout => exact .thenNext ip _
  | again => exact .pure (.wait w ip)

end

/-! ## Runs -/

/-- The run has left the fragment, or ended in a fault. -/
def Config.Left : Config W → Prop
  | .ret e _ [] => e ∈ boundaryErrors
  | .fault => True
  | _ => False

/-- Corresponding configurations of the fragment on its own and of the code around it, the
    latter called by `base`. -/
inductive Relocated (F : Fragment) (base : List Caller) : Config W → Config W → Prop where
  | run (m : Machine W) (ip : Nat) :
      Relocated F base (.run m (F.alone ip) []) (.run m (F.placed ip) base)
  | poll (w : Waiting) (m : Machine W) (ip : Nat) :
      Relocated F base (.poll w m (F.alone ip) []) (.poll w m (F.placed ip) base)
  | returned (e : V4Err) (m : Machine W) : Relocated F base (.ret e m []) (.ret e m base)
  | inside (i : Config W) (ip : Nat) (fp : Option Nat) {c d : Config W}
      (hc : c = i.onto [⟨F.alone ip, fp⟩]) (hd : d = i.onto (⟨F.placed ip, fp⟩ :: base)) :
      Relocated F base c d

variable {F : Fragment} {base : List Caller}

/-- Where an instruction of the fragment leads, the one in the code around it leads as well. -/
theorem Follows.settle {x y : VmM W Flow} (h : Follows F.offset x y) (m : Machine W) (ip : Nat) :
    (settle (F.alone ip) [] (x m)).Left ∨
      Relocated F base (settle (F.alone ip) [] (x m)) (settle (F.placed ip) base (y m)) := by
  rcases h m with heq | hleft
  · rw [heq, bind_run]
    cases x m with
    | ok f m' =>
        refine .inr ?_
        cases f with
        | next ip' => exact .run m' ip'
        | ret => exact .returned 0 m'
        | call c ip' => exact .inside (.run (m'.setFp (some m'.vm.rp)) c []) ip' m'.vm.fp rfl rfl
        | wait w ip' => exact .poll w m' ip'
    | err e m' => exact .inr (.returned e m')
    | fault => exact .inl trivial
  · refine .inl ?_
    cases hx : x m with
    | ok f m' => rw [hx] at hleft; exact hleft.elim
    | err e m' => rw [hx] at hleft; exact hleft
    | fault => trivial

/-- **One step** of the fragment is one step of the code around it. -/
theorem Relocated.step {c d c' : Config W} (h : Relocated F base c d) (hs : Step H c c') :
    c'.Left ∨ ∃ d', Step H d d' ∧ Relocated F base c' d' := by
  cases h with
  | run m ip =>
      cases hs
      exact ((fetch_follows F H ip).settle m ip).imp id fun h => ⟨_, rfl, h⟩
  | poll w m ip =>
      cases hs
      exact ((pollOnce_follows F H w ip).settle m ip).imp id fun h => ⟨_, rfl, h⟩
  | returned e m => cases hs
  | inside i ip fp hc hd =>
      subst hc hd
      cases hi : V4Engine.step H i with
      | some j =>
          have hc : Step H (i.onto [⟨F.alone ip, fp⟩]) (j.onto [⟨F.alone ip, fp⟩]) :=
            Step.onto hi _
          rw [hs.functional hc]
          exact .inr ⟨_, Step.onto hi _, .inside j ip fp rfl rfl⟩
      | none =>
          -- the callee is back: both go on behind the call, or hand its error on
          obtain rfl | ⟨e, m, rfl⟩ := step_eq_none hi
          · cases hs
          · by_cases he : e = 0
            · subst he
              cases hs
              exact .inr ⟨_, rfl, .run (m.setFp fp) ip⟩
            · rw [hs.functional (if_neg he)]
              exact .inr ⟨_, if_neg he, .returned e (m.setFp fp)⟩

/-- Where the fragment is at its own level, the code around it is there too. -/
theorem Relocated.of_run {m : Machine W} {ip : Nat} {c d : Config W} (h : Relocated F base c d)
    (hc : c = .run m (F.alone ip) []) : d = .run m (F.placed ip) base := by
  cases h with
  | run m' ip' =>
      injection hc with hm hact
      injection hact with _ _ hip
      rw [hm, hip]
  | inside i ip' fp hi _ =>
      subst hi
      cases i with
      | run m' cur cs => cases cs <;> cases hc
      | _ => cases hc
  | _ => cases hc

theorem Relocated.of_ret {e : V4Err} {m : Machine W} {d : Config W}
    (h : Relocated F base (.ret e m []) d) : d = .ret e m base := by
  cases h with
  | returned => rfl
  | inside i ip fp hc _ =>
      cases i with
      | ret e' m' cs => cases cs <;> cases hc
      | _ => cases hc

/-- A run that goes on has not left. -/
theorem Step.not_left {c c' : Config W} (h : Step H c c') : ¬ c.Left := by
  intro hleft
  match c, hleft, h with
  | .ret e m [], _, h => cases h
  | .fault, _, h => cases h

/-- **Runs.**  As long as the fragment has not left its bytes, the code around it is at the
    same place. -/
theorem Relocated.iterate {n : Nat} {c d c' : Config W} (h : Relocated F base c d)
    (hn : Lib.iterate (V4Engine.step H) n c = some c') (hc' : ¬ c'.Left) :
    ∃ d', Lib.iterate (V4Engine.step H) n d = some d' ∧ Relocated F base c' d' := by
  induction n generalizing c d with
  | zero =>
      cases hn
      exact ⟨d, rfl, h⟩
  | succ n ih =>
      obtain ⟨c1, hs, hrest⟩ := iterate_succ_eq_some.mp hn
      have hstay : ¬ c1.Left := by
        cases n with
        | zero => cases hrest; exact hc'
        | succ n =>
            obtain ⟨c2, hs2, -⟩ := iterate_succ_eq_some.mp hrest
            exact Step.not_left hs2
      obtain hleft | ⟨d1, hd1, hrel⟩ := h.step (H := H) hs
      · exact absurd hleft hstay
      · obtain ⟨d', hd', hrel'⟩ := ih hrel hrest
        exact ⟨d', iterate_succ_eq_some.mpr ⟨d1, hd1, hd'⟩, hrel'⟩

/-- **Position independence.**  A run of the fragment on its own, up to any configuration
    that has not left it, is a run of the code around it with as many steps, whoever called
    that code. -/
theorem fragment_runs_alike (H : Host W) (F : Fragment) (base : List Caller) {m : Machine W}
    {ip n : Nat} {c : Config W}
    (h : iterate (step H) n (.run m (F.alone ip) []) = some c) (hc : ¬ c.Left) :
    ∃ d, iterate (step H) n (.run m (F.placed ip) base) = some d ∧ Relocated F base c d :=
  (Relocated.run m ip).iterate h hc

/-- The byte `LIT1` behind `LIT0` and before `RET`, up to the end of the fragment. -/
theorem fragment_runs_alike_lit : ∃ F : Fragment, F.bc = [0x74] ∧ F.whole = [0x73, 0x74, 0x51] ∧
    ∃ c d, iterate (step Host.silent) 1 (.run (.boot .blank) (F.alone 0) []) = some c ∧
      iterate (step Host.silent) 1 (.run (.boot .blank) (F.placed 0) []) = some d ∧
      Relocated F [] c d := by
  have hbytes : ∀ i, i < 1 → [0x73, 0x74, 0x51][1 + i]? = ([0x74] : List Byte)[i]? := by
    intro i hi
    obtain rfl : i = 0 := by omega
    rfl
  let F : Fragment := ⟨[0x74], 1, [0x73, 0x74, 0x51], 3, 1, hbytes, by decide⟩
  have hone : iterate (step Host.silent) 1 (.run (.boot .blank) (F.alone 0) []) =
      some (.run _ (F.alone 1) []) := rfl
  obtain ⟨d, hd, hrel⟩ := fragment_runs_alike Host.silent F [] hone (fun h => h)
  exact ⟨F, rfl, rfl, _, d, rfl, hd, hrel⟩

/-! ## Concatenation -/

/-- The first part of `bc1 ++ bc2`. -/
def Fragment.first (bc1 bc2 : List Byte) : Fragment where
  bc := bc1
  len := bc1.length
  whole := bc1 ++ bc2
  wholeLen := (bc1 ++ bc2).length
  offset := 0
  bytes i hi := by rw [Nat.zero_add, List.getElem?_append_left hi]
  fits := by rw [List.length_append]; omega

/-- The second part. -/
def Fragment.second (bc1 bc2 : List Byte) : Fragment where
  bc := bc2
  len := bc2.length
  whole := bc1 ++ bc2
  wholeLen := (bc1 ++ bc2).length
  offset := bc1.length
  bytes i _ := by
    rw [List.getElem?_append_right (Nat.le_add_right ..), Nat.add_sub_cancel_left]
  fits := by rw [List.length_append]

/-- The end of the code, where the loop is left. -/
def Config.atEnd (m : Machine W) (bc : List Byte) : Config W := .run m ⟨bc, bc.length, bc.length⟩ []

/-- A run of the second part from the end of the first is a run of the whole. -/
theorem concat_iterate {bc1 bc2 : List Byte} {m m1 : Machine W} {c : Config W} {n1 n2 : Nat}
    (h1 : iterate (step H) n1 (.start m bc1 bc1.length) = some (.atEnd m1 bc1))
    (h2 : iterate (step H) n2 (.start m1 bc2 bc2.length) = some c) (hc : ¬ c.Left) :
    ∃ d, iterate (step H) (n1 + n2) (.start m (bc1 ++ bc2) (bc1 ++ bc2).length) = some d ∧
      Relocated (.second bc1 bc2) [] c d := by
  obtain ⟨d1, hd1, hrel1⟩ := ((Relocated.run m 0 : Relocated (.first bc1 bc2) [] _ _)).iterate h1
    fun h => h
  -- the end of the first part is the start of the second
  have hmid : d1 = .run m1 ((Fragment.second bc1 bc2).placed 0) [] := by
    rw [hrel1.of_run rfl]
    show Config.run m1 ⟨_, _, 0 + bc1.length⟩ [] = _
    rw [Nat.zero_add]
    rfl
  subst hmid
  obtain ⟨d, hd, hrel⟩ := (Relocated.run m1 0 : Relocated (.second bc1 bc2) [] _ _).iterate h2 hc
  exact ⟨d, iterate_add_eq_some.mpr ⟨_, hd1, hd⟩, hrel⟩

/-- **Concatenation.**  If `bc1` on its own runs to its end, `bc1 ++ bc2` does from there what
    `bc2` does on its own: it returns what `bc2` returns without leaving its bytes, comes to
    its end where `bc2` does, and goes on for ever if `bc2` does. -/
theorem concatenation_runs (H : Host W) {m m1 : Machine W} {bc1 bc2 : List Byte}
    (h1 : Reaches H (.start m bc1 bc1.length) (.atEnd m1 bc1)) :
    (∀ e m2, e ∉ boundaryErrors → Returns H m1 bc2 bc2.length e m2 →
        Returns H m (bc1 ++ bc2) (bc1 ++ bc2).length e m2) ∧
      (∀ m2, Reaches H (.start m1 bc2 bc2.length) (.atEnd m2 bc2) →
        Reaches H (.start m (bc1 ++ bc2) (bc1 ++ bc2).length) (.atEnd m2 (bc1 ++ bc2))) ∧
      ((Config.start m1 bc2 bc2.length).Diverges H →
        (Config.start m (bc1 ++ bc2) (bc1 ++ bc2).length).Diverges H) := by
  obtain ⟨n1, hn1⟩ := reaches_iff_iterate.mp h1
  refine ⟨fun e m2 he h2 => ?_, fun m2 h2 => ?_, fun h2 => ?_⟩
  · obtain ⟨n2, hn2⟩ := reaches_iff_iterate.mp h2
    obtain ⟨d, hd, hrel⟩ := concat_iterate hn1 hn2 he
    rw [hrel.of_ret] at hd
    exact reaches_iff_iterate.mpr ⟨_, hd⟩
  · obtain ⟨n2, hn2⟩ := reaches_iff_iterate.mp h2
    obtain ⟨d, hd, hrel⟩ := concat_iterate hn1 hn2 fun h => h
    have hend : Config.atEnd m2 (bc1 ++ bc2) = .run m2 ((Fragment.second bc1 bc2).placed _) [] :=
      congrArg (fun n => Config.run m2 ⟨bc1 ++ bc2, (bc1 ++ bc2).length, n⟩ []) List.length_append
    rw [hrel.of_run rfl] at hd
    rw [hend]
    exact reaches_iff_iterate.mpr ⟨_, hd⟩
  · refine reaches_forever_iff.mpr fun n => ?_
    -- the second part makes `n` steps and one more, so that it has not left
    obtain ⟨c', hc'⟩ := reaches_forever_iff.mp h2 (n + 1)
    obtain ⟨c, hc, hnext⟩ := iterate_add_eq_some.mp hc'
    obtain ⟨c1, hs, -⟩ := iterate_succ_eq_some.mp hnext
    obtain ⟨d, hd, -⟩ := concat_iterate hn1 hc (Step.not_left hs)
    rw [Nat.add_comm] at hd
    obtain ⟨d', hd', -⟩ := iterate_add_eq_some.mp hd
    exact ⟨d', hd'⟩

/-- `LIT0` and then `LIT1; RET`. -/
theorem concatenation_runs_lit : ∃ m2,
    Returns Host.silent (.boot .blank) [0x73, 0x74, 0x51] 3 0 m2 ∧ m2.vm.sp = 2 := by
  obtain ⟨m1, m2, h1, h2, hsp⟩ : ∃ m1 m2,
      Reaches Host.silent (.start (.boot .blank) [0x73] 1) (.atEnd m1 [0x73]) ∧
        Returns Host.silent m1 [0x74, 0x51] 2 0 m2 ∧ m2.vm.sp = 2 :=
    ⟨_, _, .single rfl, .head rfl (.single rfl), rfl⟩
  exact ⟨m2, (concatenation_runs Host.silent h1).1 0 m2 (by decide) h2, hsp⟩

end V4Engine
