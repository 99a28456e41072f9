/-
  V4Engine.Vm.ListLogic

  Pre- and postconditions for bytecode.

  `At bc cs p P` is the place `p` of a word, with `P` of the lists and the callers
  `cs`; triples between places compose by the rules of `V4Engine.Lib.Triple`.
  Every instruction has the same rule, its effect on the lists (`instr_leads`);
  a word has a contract, which its code has to keep for whatever callers
  (`WordKeeps`), and which a `CALL` can use (`call_leads`).  `returns_of_keeps`
  carries a contract over to `vm_exec_raw`.

  `countdown` is the loop of the interpreter's own test, for every start value: it
  returns from the positive ones, and comes to an undefined subtraction from the others.
-/
import V4Engine.Lib.Triple
import V4Engine.Vm.ListRuns
import V4Engine.Vm.CodeBytes

namespace V4Engine

open Lib

variable {W : Type} {env : ListEnv} {bc : List Byte} {cs : List Caller} {p q : Nat}
  {P Q : ListVm → Prop}

/-! ## Places and contracts -/

/-- Offset `p` of the code, with `P` of the lists. -/
def At (bc : List Byte) (cs : List Caller) (p : Nat) (P : ListVm → Prop) (c : ListConfig) : Prop :=
  ∃ s, P s ∧ c = .run s ⟨bc, bc.length, p⟩ cs

/-- Back in the innermost caller, or at the end. -/
def Back (cs : List Caller) (P : ListVm → Prop) (c : ListConfig) : Prop :=
  ∃ s, P s ∧ c = .back s cs

/-- The word `bc` takes `P` to `Q` within `n` instructions, whoever calls it. -/
def WordKeeps (env : ListEnv) (n : Nat) (bc : List Byte) (P Q : ListVm → Prop) : Prop :=
  ∀ cs, LeadsWithin (listStep env) n (At bc cs 0 P) (Back cs Q)

/-! ## Rules -/

/-- **Instruction rule.** -/
theorem instr_leads {i : ListInstr} {p' : Nat}
    (hdec : decodeAt ⟨bc, bc.length, p⟩ = .ok (i, q)) (hi : i ≠ .outside)
    (hdef : ∀ s, P s → i.undefined s = false)
    (h : ∀ s, P s → ∃ t, i.exec env ⟨bc, bc.length, p⟩ q s = .ok (.next p', t) ∧ Q t) :
    LeadsWithin (listStep env) 1 (At bc cs p P) (At bc cs p' Q) := by
  refine .step ?_
  rintro _ ⟨s, hs, rfl⟩
  obtain ⟨t, ht, hQ⟩ := h s hs
  refine ⟨_, ?_, t, hQ, rfl⟩
  have hgo : (if i.undefined s then none else
      some (ListConfig.after ⟨bc, bc.length, p⟩ cs (i.exec env ⟨bc, bc.length, p⟩ q s)))
        = some (.run t ⟨bc, bc.length, p'⟩ cs) := by
    rw [if_neg (Bool.eq_false_iff.mp (hdef s hs)), ht]
    rfl
  rw [listStep, hdec]
  cases i with
  | outside => exact absurd rfl hi
  | _ => exact hgo

/-- **Branch rule.**  Both ways are taken to the same assertion. -/
theorem branch_leads {ifZero : Bool} {off : BitVec 16} {n : Nat} {R : ListConfig → Prop} {t : Nat}
    (hdec : decodeAt ⟨bc, bc.length, p⟩ = .ok (.branch ifZero off, q))
    (ht : target ⟨bc, bc.length, p⟩ q off = .ok (.next t))
    (hpop : ∀ s, P s → ∃ v ds, s.ds = v :: ds)
    (hyes : LeadsWithin (listStep env) n
      (At bc cs t fun s => ∃ v, (v == 0) = ifZero ∧ P { s with ds := v :: s.ds }) R)
    (hno : LeadsWithin (listStep env) n
      (At bc cs q fun s => ∃ v, (v == 0) ≠ ifZero ∧ P { s with ds := v :: s.ds }) R) :
    LeadsWithin (listStep env) (1 + n) (At bc cs p P) R := by
  rintro _ ⟨⟨ds, rs, fp, ram⟩, hs, rfl⟩
  obtain ⟨v, ds', rfl⟩ := hpop _ hs
  have hstep : listStep env (.run ⟨v :: ds', rs, fp, ram⟩ ⟨bc, bc.length, p⟩ cs)
      = some (.run ⟨ds', rs, fp, ram⟩
          ⟨bc, bc.length, if (v == 0) = ifZero then t else q⟩ cs) := by
    rw [listStep, hdec]
    show some (ListConfig.after _ cs
      ((if (v == 0) = ifZero then target _ q off else .ok (.next q)) >>= _)) = _
    by_cases hv : (v == 0) = ifZero
    · rw [if_pos hv, if_pos hv, ht]
      rfl
    · rw [if_neg hv, if_neg hv]
      rfl
  have hrest : ∃ k c, k ≤ n ∧ iterate (listStep env) k (.run ⟨ds', rs, fp, ram⟩
      ⟨bc, bc.length, if (v == 0) = ifZero then t else q⟩ cs) = some c ∧ R c := by
    by_cases hv : (v == 0) = ifZero
    · rw [if_pos hv]
      exact hyes _ ⟨_, ⟨v, hv, hs⟩, rfl⟩
    · rw [if_neg hv]
      exact hno _ ⟨_, ⟨v, hv, hs⟩, rfl⟩
  obtain ⟨k, c, hk, hc, hR⟩ := hrest
  exact ⟨k + 1, c, by omega, iterate_succ_eq_some.mpr ⟨_, hstep, hc⟩, hR⟩

/-- **Return rule.** -/
theorem ret_leads (hdec : decodeAt ⟨bc, bc.length, p⟩ = .ok (.ret, q)) :
    LeadsWithin (listStep env) 1 (At bc cs p P) (Back cs P) := by
  refine .step ?_
  rintro _ ⟨s, hs, rfl⟩
  refine ⟨.back s cs, ?_, s, hs, rfl⟩
  rw [listStep, hdec]
  rfl

/-- **Call rule.**  The contract of a word, its frame empty at the start and given back at
    the end. -/
theorem call_leads {idx : BitVec 16} {c : List Byte} {n : Nat} (cs : List Caller) (fp : Option Nat)
    (hdec : decodeAt ⟨bc, bc.length, p⟩ = .ok (.call idx, q))
    (hcallee : env.callee idx = .ok ⟨c, c.length, 0⟩) (hc : WordKeeps env n c P Q) :
    LeadsWithin (listStep env) (1 + n)
      (At bc cs p fun s => s.fp = fp ∧ P { s with fp := some s.rs.length })
      (At bc cs q fun s => s.fp = fp ∧ ∃ fp', Q { s with fp := fp' }) := by
  refine LeadsWithin.trans (Q := At c (⟨⟨bc, bc.length, q⟩, fp⟩ :: cs) 0 P) (.step ?_) ?_
  · rintro _ ⟨s, ⟨hfp, hs⟩, rfl⟩
    refine ⟨_, ?_, _, hs, rfl⟩
    rw [listStep, hdec]
    show some (ListConfig.after _ cs (env.callee idx >>= _)) = _
    rw [hcallee, ← hfp]
    rfl
  · refine (hc _).mono (Nat.le_refl n) (fun _ h => h) ?_
    rintro _ ⟨s, hs, rfl⟩
    exact ⟨{ s with fp := fp }, ⟨rfl, s.fp, hs⟩, rfl⟩

/-- **From the lists to the interpreter.**  A word that keeps a contract returns from every
    plain machine that meets its precondition. -/
theorem returns_of_keeps {n : Nat} {m : Machine W} (H : Host W) (hm : m.vm.Plain)
    (hc : WordKeeps m.vm.listEnv n bc P Q) (hP : P m.lists) :
    ∃ m', DefinedReaches H (.start m bc bc.length) (.ret 0 m' []) ∧ Q m'.lists := by
  obtain ⟨k, c, -, hk, s, hs, rfl⟩ := hc [] (.start m bc) ⟨m.lists, hP, rfl⟩
  obtain ⟨d, hd, hcoupled⟩ := ListReaches.coupled (H := H) hm (reaches_iff_iterate.mpr ⟨k, hk⟩)
  cases hcoupled with
  | done hm' => exact ⟨_, hd, hm'.lists ▸ hs⟩

/-- The same for code that comes to an expression without a value. -/
theorem undefined_of_leads {n : Nat} {m : Machine W} (H : Host W) (hm : m.vm.Plain)
    (hc : LeadsWithin (listStep m.vm.listEnv) n (At bc [] 0 P) ListConfig.Undefined)
    (hP : P m.lists) : ∃ d, DefinedReaches H (.start m bc bc.length) d ∧ d.Undefined := by
  obtain ⟨k, c, -, hk, hundef⟩ := hc (.start m bc) ⟨m.lists, hP, rfl⟩
  obtain ⟨d, hd, hcoupled⟩ := ListReaches.coupled (H := H) hm (reaches_iff_iterate.mpr ⟨k, hk⟩)
  exact ⟨d, hd, hcoupled.undefined hundef⟩

/-! ## A loop -/

/-- `LIT 1; SUB; DUP; JNZ` back to the `LIT 1`, and `RET`. -/
def countdownLoop : List Byte := [0x00, 1, 0, 0, 0, 0x11, 0x01, 0x42, 0xF6, 0xFF, 0x51]

/-- `LIT n`, and the loop behind it. -/
def countdown (n : Cell) : List Byte := 0x00 :: imm32Bytes n ++ countdownLoop

theorem countdown_literal (n : Cell) : decodeAt ⟨countdown n, 16, 0⟩ = .ok (.push n, 5) := by
  have hvalue : leNat (Activation.byteAt ⟨countdown n, 16, 0⟩) 1 4 = leNat (leByte n.toNat) 0 4 :=
    rfl
  have hlt : n.toNat < 256 ^ 4 := n.isLt
  have hk : BitVec.ofNat 32 (leNat (Activation.byteAt ⟨countdown n, 16, 0⟩) 1 4) = n := by
    rw [hvalue, leNat_leByte, Nat.mod_eq_of_lt hlt, BitVec.ofNat_toNat, BitVec.setWidth_eq]
  exact congrArg (fun k => Except.ok (ListInstr.push k, 5)) hk

theorem countdown_one (n : Cell) : decodeAt ⟨countdown n, 16, 5⟩ = .ok (.push 1, 10) := by
  have hvalue : leNat (Activation.byteAt ⟨countdown n, 16, 5⟩) 6 4
      = leNat (countdownLoop.getD · 0) 1 4 := rfl
  have hk : BitVec.ofNat 32 (leNat (Activation.byteAt ⟨countdown n, 16, 5⟩) 6 4) = 1 := by
    rw [hvalue]
    decide
  exact congrArg (fun k => Except.ok (ListInstr.push k, 10)) hk

theorem countdown_branch (n : Cell) :
    decodeAt ⟨countdown n, 16, 12⟩ = .ok (.branch false (-10), 15) := by
  have hvalue : leNat (Activation.byteAt ⟨countdown n, 16, 12⟩) 13 2
      = leNat (countdownLoop.getD · 0) 8 2 := rfl
  have hk : BitVec.ofNat 16 (leNat (Activation.byteAt ⟨countdown n, 16, 12⟩) 13 2) = -10 := by
    rw [hvalue]
    decide
  exact congrArg (fun off => Except.ok (ListInstr.branch false off, 15)) hk

theorem countdown_target (bc : List Byte) : target ⟨bc, 16, 12⟩ 15 (-10) = .ok (.next 5) := by
  have hin : ¬ (((15 : Nat) : Int) + (-10 : BitVec 16).toInt < 0 ∨
      ((15 : Nat) : Int) + (-10 : BitVec 16).toInt > (16 : Nat)) := by decide
  exact if_neg hin

section

variable {n : Cell} {s : ListVm} {cs : List Caller}

/-- The lists with one more cell on top. -/
def ListVm.counting (s : ListVm) (v : Cell) : ListVm := { s with ds := v :: s.ds }

theorem eq_of_counting {s t : ListVm} {v w : Cell}
    (h : { t with ds := w :: t.ds } = s.counting v) : w = v ∧ t = s := by
  obtain ⟨ds, rs, fp, ram⟩ := t
  obtain ⟨ds', rs', fp', ram'⟩ := s
  injection h with hds hrs hfp hram
  injection hds with hw hds
  rw [ListVm.mk.injEq]
  exact ⟨hw, hds, hrs, hfp, hram⟩

/-- A push where there is room. -/
theorem push_leads {k : Cell} (hdec : decodeAt ⟨bc, bc.length, p⟩ = .ok (.push k, q))
    (hroom : s.ds.length < 256) :
    LeadsWithin (listStep env) 1 (At bc cs p (· = s)) (At bc cs q (· = s.counting k)) := by
  refine instr_leads hdec (fun h => by cases h) (fun _ _ => rfl) ?_
  rintro _ rfl
  refine ⟨_, ?_, rfl⟩
  show ((ListVm.pushOn k _ >>= _) >>= _) = _
  rw [ListVm.pushOn, if_neg (Nat.not_le.mpr hroom)]
  rfl

theorem dup_defined (s : ListVm) : (ListInstr.data .DUP).undefined s = false := by
  obtain ⟨_ | ⟨w, _ | ⟨v, ds⟩⟩, rs, fp, ram⟩ := s
  all_goals rfl

/-- A `DUP` where there is room. -/
theorem dup_leads {v : Cell} (hdec : decodeAt ⟨bc, bc.length, p⟩ = .ok (.data .DUP, q))
    (hroom : (s.counting v).ds.length < 256) :
    LeadsWithin (listStep env) 1 (At bc cs p (· = s.counting v))
      (At bc cs q (· = (s.counting v).counting v)) := by
  refine instr_leads hdec (fun h => by cases h) (fun t _ => dup_defined t) ?_
  rintro _ rfl
  refine ⟨_, ?_, rfl⟩
  show ((ListVm.pushOn _ (s.counting v).ds >>= _) >>= _) = _
  rw [ListVm.pushOn, if_neg (Nat.not_le.mpr hroom)]
  rfl

/-- A subtraction of one where there is a predecessor. -/
theorem sub_one_leads {v : Cell} (hdec : decodeAt ⟨bc, bc.length, p⟩ = .ok (.data .SUB, q))
    (hv : v ≠ BitVec.intMin 32) :
    LeadsWithin (listStep env) 1 (At bc cs p (· = (s.counting v).counting 1))
      (At bc cs q (· = s.counting (v - 1))) := by
  refine instr_leads hdec (fun h => by cases h) ?_ ?_
  · -- `signedSub` has a value
    rintro _ rfl
    show (signedSub v 1).isNone = false
    rw [Option.isNone_eq_false_iff]
    exact (signedSub_one_isSome_iff (by decide)).mpr hv
  · rintro _ rfl
    exact ⟨_, rfl, rfl⟩

/-- One round, from any value whose predecessor exists: the way back is taken unless it is
    zero. -/
theorem countdown_round (hroom : s.ds.length ≤ 254) {v : Cell} (hv : v ≠ BitVec.intMin 32) :
    LeadsWithin (listStep env) 4 (At (countdown n) cs 5 (· = s.counting v))
      (At (countdown n) cs (if v = 1 then 15 else 5) (· = s.counting (v - 1))) := by
  have hone : v - 1 = 0 ↔ v = 1 := by
    constructor
    · intro h
      bv_omega
    · rintro rfl
      rfl
  have hlen (w : Cell) : (s.counting w).ds.length < 256 :=
    Nat.lt_of_le_of_lt (Nat.succ_le_succ hroom) (by decide)
  have hpush : LeadsWithin (listStep env) 1 (At (countdown n) cs 5 (· = s.counting v))
      (At (countdown n) cs 10 (· = (s.counting v).counting 1)) :=
    push_leads (countdown_one n) (hlen v)
  have hsub : LeadsWithin (listStep env) 1
      (At (countdown n) cs 10 (· = (s.counting v).counting 1))
      (At (countdown n) cs 11 (· = s.counting (v - 1))) := sub_one_leads rfl hv
  have hdup : LeadsWithin (listStep env) 1 (At (countdown n) cs 11 (· = s.counting (v - 1)))
      (At (countdown n) cs 12 (· = (s.counting (v - 1)).counting (v - 1))) :=
    dup_leads rfl (hlen (v - 1))
  have hjnz : LeadsWithin (listStep env) (1 + 0)
      (At (countdown n) cs 12 (· = (s.counting (v - 1)).counting (v - 1)))
      (At (countdown n) cs (if v = 1 then 15 else 5) (· = s.counting (v - 1))) := by
    -- the copy is consumed; the value under it is still there, at the `LIT 1` or at the `RET`
    refine branch_leads (countdown_branch n) (countdown_target _) ?_ (.refl ?_) (.refl ?_)
    · rintro _ rfl
      exact ⟨_, _, rfl⟩
    · rintro _ ⟨t, ⟨w, hw, ht⟩, rfl⟩
      obtain ⟨rfl, rfl⟩ := eq_of_counting ht
      rw [beq_eq_false_iff_ne, ne_eq, hone] at hw
      rw [if_neg hw]
      exact ⟨_, rfl, rfl⟩
    · rintro _ ⟨t, ⟨w, hw, ht⟩, rfl⟩
      obtain ⟨rfl, rfl⟩ := eq_of_counting ht
      rw [ne_eq, beq_eq_false_iff_ne, not_not, hone] at hw
      rw [if_pos hw]
      exact ⟨_, rfl, rfl⟩
  exact (hpush.trans (hsub.trans (hdup.trans hjnz))).mono (Nat.le_refl 4) (fun _ h => h)
    fun _ h => h

/-- `i` rounds are left, from a positive value. -/
def roundsLeft (n : Cell) (s : ListVm) (cs : List Caller) : Nat → ListConfig → Prop
  | 0 => At (countdown n) cs 15 (· = s.counting 0)
  | i + 1 => At (countdown n) cs 5 fun t =>
      i + 1 < 2 ^ 31 ∧ t = s.counting (BitVec.ofNat 32 (i + 1))

theorem roundsLeft_step (hroom : s.ds.length ≤ 254) (i : Nat) :
    LeadsWithin (listStep env) 4 (roundsLeft n s cs (i + 1)) (roundsLeft n s cs i) := by
  rintro _ ⟨_, ⟨hi, rfl⟩, rfl⟩
  have hpred : BitVec.ofNat 32 (i + 1) - 1 = BitVec.ofNat 32 i := by
    rw [BitVec.ofNat_add]
    exact BitVec.add_sub_cancel _ 1#32
  have hmin : BitVec.ofNat 32 (i + 1) ≠ BitVec.intMin 32 := by
    intro h
    have hnat := congrArg BitVec.toNat h
    rw [BitVec.toNat_ofNat, Nat.mod_eq_of_lt (by omega)] at hnat
    have hval : (BitVec.intMin 32).toNat = 2 ^ 31 := by decide
    omega
  obtain ⟨k, c, hk, hc, t, rfl, rfl⟩ := countdown_round hroom hmin _ ⟨_, rfl, rfl⟩
  refine ⟨k, _, hk, hc, ?_⟩
  rw [hpred]
  -- the last round leaves the loop
  cases i with
  | zero => exact ⟨_, rfl, rfl⟩
  | succ i =>
      have hne : BitVec.ofNat 32 (i + 1 + 1) ≠ 1 := by
        intro h
        have hnat := congrArg BitVec.toNat h
        rw [BitVec.toNat_ofNat, Nat.mod_eq_of_lt (by omega)] at hnat
        have hval : (1 : Cell).toNat = 1 := by decide
        omega
      rw [if_neg hne]
      exact ⟨_, ⟨by omega, rfl⟩, rfl⟩

/-- From a positive `n` the loop runs `n` times and leaves a zero where there was nothing. -/
theorem countdown_keeps (hn : 0 < n.toInt) (hroom : s.ds.length ≤ 254) :
    WordKeeps env (1 + (n.toNat * 4 + 1)) (countdown n) (· = s) (· = s.counting 0) := by
  intro cs
  have hpos : 0 < n.toNat ∧ n.toNat < 2 ^ 31 := by
    rw [BitVec.toInt_eq_toNat_cond] at hn
    split at hn
    · omega
    · have := n.isLt
      omega
  have hstart : LeadsWithin (listStep env) 1 (At (countdown n) cs 0 (· = s))
      (roundsLeft n s cs n.toNat) := by
    obtain ⟨j, hj⟩ := Nat.exists_eq_succ_of_ne_zero (Nat.ne_of_gt hpos.1)
    have hcell : BitVec.ofNat 32 (j + 1) = n := by
      rw [← Nat.succ_eq_add_one, ← hj, BitVec.ofNat_toNat, BitVec.setWidth_eq]
    refine (push_leads (countdown_literal n) (by omega)).mono (Nat.le_refl 1) (fun _ h => h) ?_
    rintro _ ⟨_, rfl, rfl⟩
    rw [hj]
    exact ⟨_, ⟨by omega, by rw [hcell]⟩, rfl⟩
  have hend : LeadsWithin (listStep env) 1 (roundsLeft n s cs 0) (Back cs (· = s.counting 0)) :=
    ret_leads (q := 16) rfl
  exact hstart.trans ((LeadsWithin.counted (roundsLeft_step hroom) n.toNat).trans hend)

/-- `i` rounds above the smallest value, and not above zero. -/
def roundsAbove (n : Cell) (s : ListVm) (cs : List Caller) (i : Nat) : ListConfig → Prop :=
  At (countdown n) cs 5 fun t => i ≤ 2 ^ 31 ∧ t = s.counting (BitVec.ofNat 32 (2 ^ 31 + i))

theorem roundsAbove_step (hroom : s.ds.length ≤ 254) (i : Nat) :
    LeadsWithin (listStep env) 4 (roundsAbove n s cs (i + 1)) (roundsAbove n s cs i) := by
  rintro _ ⟨_, ⟨hi, rfl⟩, rfl⟩
  have hpred : BitVec.ofNat 32 (2 ^ 31 + (i + 1)) - 1 = BitVec.ofNat 32 (2 ^ 31 + i) := by
    rw [← Nat.add_assoc, BitVec.ofNat_add]
    exact BitVec.add_sub_cancel _ 1#32
  -- neither the smallest value nor one, which are `2^31` and `2^31 + 1` rounds away
  have hne {k : Nat} (hk : k ≤ 1 ∨ k = 2 ^ 31) (hzero : k ≠ 0) :
      BitVec.ofNat 32 (2 ^ 31 + (i + 1)) ≠ BitVec.ofNat 32 k := by
    intro h
    have hnat := congrArg BitVec.toNat h
    rw [BitVec.toNat_ofNat, BitVec.toNat_ofNat] at hnat
    omega
  have hmin : BitVec.ofNat 32 (2 ^ 31 + (i + 1)) ≠ BitVec.intMin 32 :=
    hne (k := 2 ^ 31) (.inr rfl) (by decide)
  have hone : BitVec.ofNat 32 (2 ^ 31 + (i + 1)) ≠ 1 :=
    hne (k := 1) (.inl (Nat.le_refl 1)) (by decide)
  obtain ⟨k, c, hk, hc, t, rfl, rfl⟩ := countdown_round hroom hmin _ ⟨_, rfl, rfl⟩
  refine ⟨k, _, hk, hc, ?_⟩
  rw [hpred, if_neg hone]
  exact ⟨_, ⟨by omega, rfl⟩, rfl⟩

/-- From any other `n` the loop gets to the smallest value, which has no predecessor. -/
theorem countdown_undefined (hn : n.toInt ≤ 0) (hroom : s.ds.length ≤ 254) :
    ∃ k, LeadsWithin (listStep env) k (At (countdown n) cs 0 (· = s)) ListConfig.Undefined := by
  -- the number of rounds to the smallest value
  obtain ⟨i, hi, hcell⟩ : ∃ i, i ≤ 2 ^ 31 ∧ BitVec.ofNat 32 (2 ^ 31 + i) = n := by
    refine ⟨(n.toInt + 2 ^ 31).toNat, by omega, ?_⟩
    apply BitVec.eq_of_toNat_eq
    have hlt := n.isLt
    rw [BitVec.toNat_ofNat]
    rw [BitVec.toInt_eq_toNat_cond] at hn ⊢
    split at hn
    · omega
    · rw [if_neg (by assumption)]
      omega
  have hstart : LeadsWithin (listStep env) 1 (At (countdown n) cs 0 (· = s))
      (roundsAbove n s cs i) := by
    refine (push_leads (countdown_literal n) (by omega)).mono (Nat.le_refl 1) (fun _ h => h) ?_
    rintro _ ⟨_, rfl, rfl⟩
    exact ⟨_, ⟨hi, by rw [hcell]⟩, rfl⟩
  have hend : LeadsWithin (listStep env) 1 (roundsAbove n s cs 0) ListConfig.Undefined := by
    have hroom' : (s.counting (BitVec.intMin 32)).ds.length < 256 :=
      Nat.lt_of_le_of_lt (Nat.succ_le_succ hroom) (by decide)
    have hpush : LeadsWithin (listStep env) 1 (At (countdown n) cs 5 _) _ :=
      push_leads (countdown_one n) hroom'
    refine hpush.mono (Nat.le_refl 1) ?_ ?_
    · rintro _ ⟨_, ⟨-, rfl⟩, rfl⟩
      exact ⟨_, rfl, rfl⟩
    · rintro _ ⟨_, rfl, rfl⟩
      have hnone : (signedSub (BitVec.intMin 32) 1).isNone = true := by decide
      exact ⟨_, _, _, .data .SUB, 11, rfl, rfl, hnone⟩
  exact ⟨_, hstart.trans ((LeadsWithin.counted (roundsAbove_step hroom) i).trans hend)⟩

/-- The same behind `CALL idx; RET`. -/
theorem countdown_called (idx : BitVec 16) (hn : 0 < n.toInt) (hroom : s.ds.length ≤ 254)
    (hcallee : env.callee idx = .ok ⟨countdown n, 16, 0⟩) :
    WordKeeps env (1 + (1 + (n.toNat * 4 + 1)) + 1) (0x50 :: imm16Bytes idx ++ [0x51]) (· = s)
      (· = s.counting 0) := by
  intro cs
  have hdec : decodeAt ⟨0x50 :: imm16Bytes idx ++ [0x51], 4, 0⟩ = .ok (.call idx, 3) := by
    have hlt : idx.toNat < 256 ^ 2 := idx.isLt
    have hk : BitVec.ofNat 16 (leNat (leByte idx.toNat) 0 2) = idx := by
      rw [leNat_leByte, Nat.mod_eq_of_lt hlt, BitVec.ofNat_toNat, BitVec.setWidth_eq]
    exact congrArg (fun i => Except.ok (ListInstr.call i, 3)) hk
  -- the word runs with a frame of its own, which it does not use
  have hcall := call_leads cs s.fp hdec hcallee
    (countdown_keeps (s := { s with fp := some s.rs.length }) hn hroom)
  refine (hcall.trans (ret_leads (q := 4) rfl)).mono (Nat.le_refl _) ?_ ?_
  · rintro _ ⟨t, rfl, rfl⟩
    exact ⟨t, ⟨rfl, rfl⟩, rfl⟩
  · rintro _ ⟨t, ⟨hfp, fp', ht⟩, rfl⟩
    refine ⟨t, ?_, rfl⟩
    obtain ⟨ds, rs, fp, ram⟩ := t
    obtain rfl : fp = s.fp := hfp
    injection ht with hds hrs _ hram
    rw [ListVm.counting, ListVm.mk.injEq]
    exact ⟨hds, hrs, rfl, hram⟩

end

/-- **The loop of the interpreter's test**, for every start value and every stack it may find.
    From a positive one it returns `OK`, run on its own or called, with a zero pushed and nothing
    else changed; from any other it comes to an undefined subtraction. -/
theorem countdown_returns (H : Host W) (n : Cell) {m : Machine W} (hm : m.vm.Plain)
    (hroom : m.vm.sp ≤ 254) :
    (0 < n.toInt →
      (∃ m', DefinedReaches H (.start m (countdown n) (countdown n).length) (.ret 0 m' []) ∧
          m'.lists = { m.lists with ds := 0 :: m.lists.ds }) ∧
        ∀ i, m.vm.HasWord i (countdown n) 16 →
          ∃ m', DefinedReaches H (.start m (callCode i) 4) (.ret 0 m' []) ∧
            m'.lists = { m.lists with ds := 0 :: m.lists.ds }) ∧
      (n.toInt ≤ 0 → ∃ d, DefinedReaches H (.start m (countdown n) (countdown n).length) d ∧
        d.Undefined) := by
  have hds : m.lists.ds.length ≤ 254 := by
    show (live m.vm.DS m.vm.sp).reverse.length ≤ 254
    rwa [List.length_reverse, live_length]
  refine ⟨fun hn => ⟨returns_of_keeps H hm (countdown_keeps hn hds) rfl, fun i hword => ?_⟩,
    fun hn => ?_⟩
  · refine returns_of_keeps H hm (countdown_called (BitVec.ofNat 16 i) hn hds ?_) rfl
    have hindex := hword.index
    have hcount := hword.count
    have hidx : (BitVec.ofNat 16 i).toNat = i := by
      rw [BitVec.toNat_ofNat, Nat.mod_eq_of_lt (by omega)]
    show (if (BitVec.ofNat 16 i).toNat ≥ m.vm.wordCount % 65536 then _ else _) = _
    rw [hidx, if_neg (by omega), hword.word]
    rfl
  · obtain ⟨k, hleads⟩ := countdown_undefined hn hds
    exact undefined_of_leads H hm hleads rfl

/-- The test itself counts down from five; from zero the loop runs into the smallest value. -/
theorem countdown_returns_five :
    (∃ m', DefinedReaches Host.silent (.start (.boot .blank) (countdown 5) 16) (.ret 0 m' []) ∧
      m'.lists.ds = [0]) ∧
      ∃ d, DefinedReaches Host.silent (.start (.boot .blank) (countdown 0) 16) d ∧ d.Undefined := by
  have hroom : (Machine.boot .blank).vm.sp ≤ 254 := Nat.zero_le _
  obtain ⟨m', hret, hlists⟩ :=
    ((countdown_returns Host.silent 5 blank_plain hroom).1 (by decide)).1
  exact ⟨⟨m', hret, congrArg ListVm.ds hlists⟩,
    (countdown_returns Host.silent 0 blank_plain hroom).2 (by decide)⟩

end V4Engine
