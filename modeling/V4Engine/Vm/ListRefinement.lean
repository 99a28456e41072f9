/-
  V4Engine.Vm.ListRefinement

  `vm_exec_raw` refines the machine of lists.

  `Machine.lists` forgets the arrays, the dead cells above the stacks and the
  encoding of an instruction.  `Refines` says of one computation that it fails
  with the code the lists fail with, and else shows the lists they end with; it
  goes through `bind`, so that every body is read line by line.  `SYS` and the
  task opcodes aside, one turn of the loop does to the lists what the decoded
  instruction says (`fetch_refines`).
-/
import V4Engine.Vm.ListMachine
import V4Engine.Vm.RamBytes
import V4Engine.Lib.Live

namespace V4Engine

open Lib FaultM VmM

variable {W α β : Type}

/-! ## What a machine shows -/

/-- The lists a machine shows to the program. -/
def Machine.lists (m : Machine W) : ListVm where
  ds := (live m.vm.DS m.vm.sp).reverse
  rs := (live m.vm.RS m.vm.rp).reverse
  fp := m.vm.fp
  ram := m.vm.mem.elim (fun _ => 0) Ram.byte

/-- The words and the RAM of a VM. -/
def Vm.listEnv (vm : Vm) : ListEnv where
  callee idx :=
    if idx.toNat ≥ vm.wordCount % 65536 then .error .invalidWordIdx
    else
      match (vm.words idx.toNat).code with
      | none => .error .invalidArg
      | some code =>
          if (vm.words idx.toNat).codeLen ≤ 0 then .error .invalidArg
          else .ok ⟨code, (vm.words idx.toNat).codeLen.toNat, 0⟩
  ramSize := if vm.mem.isSome then vm.memSize.toNat else 0

/-- A VM without devices whose arrays and words have the sizes it takes them for. -/
structure Vm.Plain (vm : Vm) : Prop where
  sp : vm.sp ≤ 256
  rp : vm.rp ≤ 64
  wordCount : vm.wordCount ≤ 256
  words : ∀ i code, i < vm.wordCount → (vm.words i).code = some code →
    (vm.words i).codeLen.toNat ≤ code.length
  mmio : vm.mmioCount = 0
  ram : ∀ ram, vm.mem = some ram → ram.cap = vm.memSize.toNat

/-- `m` is a plain machine with these words, and shows the lists `s`. -/
structure Presents (env : ListEnv) (s : ListVm) (m : Machine W) : Prop where
  plain : m.vm.Plain
  env : m.vm.listEnv = env
  lists : m.lists = s

/-- What the lists say about the end of a computation; a failure leaves any machine. -/
def Agrees (env : ListEnv) : Except Err (α × ListVm) → Outcome V4Err (Machine W) α → Prop
  | .error e, o => e ≠ .ok ∧ ∃ m, o = .err e.code m
  | .ok (a, s), o => ∃ m, o = .ok a m ∧ Presents env s m

/-- From every machine that shows `s`, `x` ends as `y` does. -/
def Refines (env : ListEnv) (s : ListVm) (x : VmM W α) (y : ListM α) : Prop :=
  ∀ m, Presents env s m → Agrees env (y s) (x m)

variable {env : ListEnv} {s : ListVm} {H : Host W} {m : Machine W}

namespace Presents

variable (h : Presents env s m)
include h

theorem ds : (live m.vm.DS m.vm.sp).reverse = s.ds := congrArg ListVm.ds h.lists

theorem rs : (live m.vm.RS m.vm.rp).reverse = s.rs := congrArg ListVm.rs h.lists

theorem fp : m.vm.fp = s.fp := congrArg ListVm.fp h.lists

theorem ram_eq {ram : Ram} (hram : m.vm.mem = some ram) : s.ram = ram.byte := by
  rw [← h.lists]
  show m.vm.mem.elim _ _ = _
  rw [hram]
  rfl

theorem ds_length : s.ds.length = m.vm.sp := by
  rw [← h.ds, List.length_reverse, live_length]

theorem rs_length : s.rs.length = m.vm.rp := by
  rw [← h.rs, List.length_reverse, live_length]

/-- A change of the stacks. -/
theorem withStacks (DS RS : Nat → Cell) {sp rp : Nat} (hsp : sp ≤ 256) (hrp : rp ≤ 64) :
    Presents env { s with ds := (live DS sp).reverse, rs := (live RS rp).reverse }
      { m with vm := { m.vm with DS := DS, RS := RS, sp := sp, rp := rp } } where
  plain := { h.plain with sp := hsp, rp := hrp }
  env := h.env
  lists := by rw [← h.lists]; rfl

theorem withFp (fp : Option Nat) : Presents env { s with fp := fp } (m.setFp fp) where
  plain := { h.plain with }
  env := h.env
  lists := by rw [← h.lists]; rfl

end Presents

/-! ## Rules -/

namespace Refines

theorem pure (a : α) : Refines env s (Pure.pure a : VmM W α) (Pure.pure a) :=
  fun m hm => ⟨m, rfl, hm⟩

theorem bind {x : VmM W α} {y : ListM α} {f : α → VmM W β} {g : α → ListM β}
    (hx : Refines env s x y) (hf : ∀ a t, y s = .ok (a, t) → Refines env t (f a) (g a)) :
    Refines env s (x >>= f) (y >>= g) := by
  intro m hm
  have hxm := hx m hm
  show Agrees env (y s >>= fun r => g r.1 r.2) _
  cases hy : y s with
  | error e =>
      rw [hy] at hxm
      obtain ⟨he, m', hrun⟩ := hxm
      exact ⟨he, m', bind_err hrun⟩
  | ok r =>
      rw [hy] at hxm
      obtain ⟨m', hrun, hm'⟩ := hxm
      rw [bind_ok hrun]
      exact hf r.1 r.2 hy m' hm'

theorem congr {x : VmM W α} {y z : ListM α} (h : Refines env s x y) (heq : y s = z s) :
    Refines env s x z := fun m hm => heq ▸ h m hm

theorem panic (e : Err) (he : e ≠ .ok := by decide) :
    Refines env s (vmPanic H e.code : VmM W α) fun _ => .error e := by
  intro m hm
  rw [vmPanic_run]
  obtain ⟨info, hinfo⟩ := Option.isSome_iff_exists.mp (panicInfo_isSome hm.plain.sp e.code)
  rw [hinfo]
  exact ⟨he, _, rfl⟩

/-- The depths a plain machine can have. -/
theorem of_depth {x : VmM W α} {y : ListM α}
    (h : s.ds.length ≤ 256 → s.rs.length ≤ 64 → Refines env s x y) : Refines env s x y := by
  intro m hm
  refine h ?_ ?_ m hm
  · rw [hm.ds_length]
    exact hm.plain.sp
  · rw [hm.rs_length]
    exact hm.plain.rp

end Refines

/-! ## Stacks -/

/-- A push where there is room. -/
def listPut (v : Cell) : ListM Unit := fun s => .ok ((), { s with ds := v :: s.ds })

def listPush (v : Cell) : ListM Unit := fun s => do
  let ds ← ListVm.pushOn v s.ds
  return ((), { s with ds := ds })

def listPop : ListM Cell := fun s =>
  match s.ds with
  | [] => .error .stackUnderflow
  | v :: ds => .ok (v, { s with ds := ds })

def listPeek (i : Nat) : ListM Cell := fun s =>
  match s.ds[i]? with
  | none => .error .stackUnderflow
  | some v => .ok (v, s)

def listRsPush (v : Cell) : ListM Unit := fun s =>
  if s.rs.length ≥ 64 then .error .stackOverflow else .ok ((), { s with rs := v :: s.rs })

def listRsPop : ListM Cell := fun s =>
  match s.rs with
  | [] => .error .stackUnderflow
  | v :: rs => .ok (v, { s with rs := rs })

/-- The top of the return stack, left where it is. -/
def listRsPeek : ListM Cell := fun s =>
  match s.rs with
  | [] => .error .stackUnderflow
  | v :: _ => .ok (v, s)

/-- A checked result of the environment or the code. -/
def listLift (r : Except Err α) : ListM α := fun s => r.map (·, s)

theorem listPop_ok {v : Cell} {t : ListVm} (h : listPop s = .ok (v, t)) :
    s = { t with ds := v :: t.ds } := by
  unfold listPop at h
  split at h
  · cases h
  · next hds =>
      cases h
      cases s
      cases hds
      rfl

theorem listPop_length {v : Cell} {t : ListVm} (h : listPop s = .ok (v, t)) :
    s.ds.length = t.ds.length + 1 := by rw [listPop_ok h]; rfl

/-- A stack with a top cell. -/
theorem live_top {f : Nat → Cell} {n : Nat} {v : Cell} {xs : List Cell}
    (h : (live f n).reverse = v :: xs) : 0 < n ∧ f (n - 1) = v ∧ (live f (n - 1)).reverse = xs := by
  cases n with
  | zero => cases h
  | succ n =>
      rw [live_reverse_succ] at h
      injection h with hv hxs
      exact ⟨Nat.succ_pos n, hv, hxs⟩

theorem dsPut_refines (v : Cell) (hroom : s.ds.length < 256) :
    Refines env s (dsPush H v) (listPut v) := by
  intro m hm
  rw [hm.ds_length] at hroom
  refine ⟨_, dsPush_eq_ok.mpr ⟨hroom, rfl⟩, ?_⟩
  have h := hm.withStacks (Function.update m.vm.DS m.vm.sp v) m.vm.RS hroom
    hm.plain.rp
  rw [live_reverse_push, hm.ds, hm.rs] at h
  exact h

theorem dsPush_refines (v : Cell) : Refines env s (dsPush H v) (listPush v) := by
  by_cases hroom : s.ds.length < 256
  · refine (dsPut_refines v hroom).congr ?_
    rw [listPush, ListVm.pushOn, if_neg (Nat.not_le.mpr hroom)]
    rfl
  · have hpush : listPush v s = .error .stackOverflow := by
      rw [listPush, ListVm.pushOn, if_pos (Nat.not_lt.mp hroom)]
      rfl
    intro m hm
    have hfull : m.vm.sp ≥ 256 := by rw [← hm.ds_length]; omega
    have hrun : dsPush H v m = vmPanic H Err.stackOverflow.code m :=
      congrFun (if_pos hfull : (if m.vm.sp ≥ 256 then _ else _ : VmM W Unit) = _) m
    rw [hpush, hrun]
    exact Refines.panic (α := Unit) .stackOverflow (by decide) m hm

theorem dsPop_refines : Refines env s (dsPop H) listPop := by
  intro m hm
  have hds := hm.ds
  have hsp := hm.plain.sp
  cases hs : s.ds with
  | nil =>
      have hzero : m.vm.sp ≤ 0 := by rw [← hm.ds_length, hs]; exact Nat.le_refl 0
      have hrun : dsPop H m = vmPanic H Err.stackUnderflow.code m :=
        congrFun (if_pos hzero : (if m.vm.sp ≤ 0 then _ else _ : VmM W Cell) = _) m
      rw [listPop, hs, hrun]
      exact Refines.panic (α := Cell) .stackUnderflow (by decide) m hm
  | cons v ds =>
      rw [hs] at hds
      obtain ⟨hpos, hv, hrest⟩ := live_top hds
      rw [listPop, hs]
      refine ⟨_, dsPop_eq_ok.mpr ⟨⟨hpos, hsp⟩, hv.symm, rfl⟩, ?_⟩
      have h := hm.withStacks m.vm.DS m.vm.RS (show m.vm.sp - 1 ≤ 256 by omega)
        hm.plain.rp
      rw [hrest, hm.rs] at h
      exact h

/-- The cells of the data stack, counted from the top. -/
theorem Presents.ds_getElem? (h : Presents env s m) (i : Nat) :
    s.ds[i]? = if i < m.vm.sp then some (m.operand i) else none := by
  rw [← h.ds]
  by_cases hi : i < m.vm.sp
  · rw [if_pos hi, List.getElem?_reverse (by simpa using hi), live_length,
      List.getElem?_eq_getElem (by simp; omega), live_getElem]
    rfl
  · rw [if_neg hi]
    exact List.getElem?_eq_none (by simpa using hi)

theorem dsPeek_refines (i : Nat) : Refines env s (dsPeek H i) (listPeek i) := by
  intro m hm
  have hsp := hm.plain.sp
  rw [listPeek, hm.ds_getElem?]
  by_cases hi : i < m.vm.sp
  · rw [if_pos hi]
    exact ⟨m, dsPeek_eq_ok.mpr ⟨⟨hi, by omega⟩, rfl, rfl⟩, hm⟩
  · have hlow : m.vm.sp < 1 + i := by omega
    have hrun : dsPeek H i m = vmPanic H Err.stackUnderflow.code m :=
      congrFun (if_pos hlow : (if m.vm.sp < 1 + i then _ else _ : VmM W Cell) = _) m
    rw [if_neg hi, hrun]
    exact Refines.panic (α := Cell) .stackUnderflow (by decide) m hm

theorem rsPush_refines (v : Cell) : Refines env s (rsPush H v) (listRsPush v) := by
  intro m hm
  have hlen := hm.rs_length
  rw [listRsPush]
  by_cases hroom : m.vm.rp < 64
  · rw [if_neg (by omega)]
    refine ⟨_, rsPush_eq_ok.mpr ⟨hroom, rfl⟩, ?_⟩
    have h := hm.withStacks m.vm.DS (Function.update m.vm.RS m.vm.rp v)
      hm.plain.sp hroom
    rw [live_reverse_push, hm.ds, hm.rs] at h
    exact h
  · have hfull : m.vm.rp ≥ 64 := Nat.not_lt.mp hroom
    have hrun : rsPush H v m = vmPanic H Err.stackOverflow.code m :=
      congrFun (if_pos hfull : (if m.vm.rp ≥ 64 then _ else _ : VmM W Unit) = _) m
    rw [if_pos (by omega), hrun]
    exact Refines.panic (α := Unit) .stackOverflow (by decide) m hm

theorem rsPop_refines : Refines env s (rsPop H) listRsPop := by
  intro m hm
  have hrs := hm.rs
  have hrp := hm.plain.rp
  cases hs : s.rs with
  | nil =>
      have hzero : m.vm.rp ≤ 0 := by rw [← hm.rs_length, hs]; exact Nat.le_refl 0
      have hrun : rsPop H m = vmPanic H Err.stackUnderflow.code m :=
        congrFun (if_pos hzero : (if m.vm.rp ≤ 0 then _ else _ : VmM W Cell) = _) m
      rw [listRsPop, hs, hrun]
      exact Refines.panic (α := Cell) .stackUnderflow (by decide) m hm
  | cons v rs =>
      rw [hs] at hrs
      obtain ⟨hpos, hv, hrest⟩ := live_top hrs
      rw [listRsPop, hs]
      refine ⟨_, rsPop_eq_ok.mpr ⟨⟨hpos, hrp⟩, hv.symm, rfl⟩, ?_⟩
      have h := hm.withStacks m.vm.DS m.vm.RS hm.plain.sp (show m.vm.rp - 1 ≤ 64 by omega)
      rw [hrest, hm.ds] at h
      exact h

theorem rsPeek_refines : Refines env s (rsPeek H 0) listRsPeek := by
  intro m hm
  have hrs := hm.rs
  have hrp := hm.plain.rp
  cases hs : s.rs with
  | nil =>
      have hlow : m.vm.rp < 1 + 0 := by rw [← hm.rs_length, hs]; exact Nat.one_pos
      have hrun : rsPeek H 0 m = vmPanic H Err.stackUnderflow.code m :=
        congrFun (if_pos hlow : (if m.vm.rp < 1 + 0 then _ else _ : VmM W Cell) = _) m
      rw [listRsPeek, hs, hrun]
      exact Refines.panic (α := Cell) .stackUnderflow (by decide) m hm
  | cons v rs =>
      rw [hs] at hrs
      obtain ⟨hpos, hv, -⟩ := live_top hrs
      rw [listRsPeek, hs]
      exact ⟨m, rsPeek_eq_ok.mpr ⟨⟨hpos, by omega⟩, hv.symm, rfl⟩, hm⟩

/-! ## Local variables -/

theorem localSlot_refines (i : Nat) :
    Refines env s (localSlot H i) (listLift (s.localIndex i)) := by
  intro m hm
  have hlen := hm.rs_length
  cases hfp : s.fp with
  | none =>
      rw [listLift, ListVm.localIndex, hfp, localSlot_none (hm.fp.trans hfp)]
      exact Refines.panic (α := Nat) .invalidArg (by decide) m hm
  | some fp =>
      rw [listLift, ListVm.localIndex, hfp, localSlot_some (hm.fp.trans hfp)]
      by_cases hlt : fp + i < s.rs.length
      · rw [if_neg (by omega)]
        show Agrees env (Except.map _ (if fp + i < s.rs.length then _ else _)) _
        rw [if_pos hlt]
        exact ⟨m, rfl, hm⟩
      · rw [if_pos (by omega)]
        show Agrees env (Except.map _ (if fp + i < s.rs.length then _ else _)) _
        rw [if_neg hlt]
        exact Refines.panic (α := Nat) .stackUnderflow (by decide) m hm

/-- A local variable is a slot of the return stack. -/
theorem localIndex_lt {i k : Nat} (h : s.localIndex i = .ok k) : k < s.rs.length := by
  unfold ListVm.localIndex at h
  split at h
  · cases h
  · split at h
    · next hlt => cases h; exact hlt
    · cases h

theorem getRs_refines {k : Nat} (hk : k < s.rs.length) :
    Refines env s (getRs k : VmM W Cell) fun s => .ok (ListVm.fromBottom s.rs k, s) := by
  intro m hm
  have hrp := hm.plain.rp
  have hlen := hm.rs_length
  refine ⟨m, getRs_eq_ok.mpr ⟨by omega, ?_, rfl⟩, hm⟩
  rw [ListVm.fromBottom, ← hm.rs, List.reverse_reverse, live_getD, if_pos (by omega)]

theorem setRs_refines {k : Nat} (hk : k < s.rs.length) (v : Cell) :
    Refines env s (setRs k v : VmM W Unit)
      fun s => .ok ((), { s with rs := ListVm.setFromBottom s.rs k v }) := by
  intro m hm
  have hrp := hm.plain.rp
  have hlen := hm.rs_length
  refine ⟨_, setRs_eq_ok.mpr ⟨by omega, rfl⟩, ?_⟩
  have h := hm.withStacks m.vm.DS (Function.update m.vm.RS k v) hm.plain.sp hrp
  rw [live_update, hm.ds] at h
  rw [ListVm.setFromBottom, ← hm.rs, List.reverse_reverse]
  exact h

/-! ## Memory -/

theorem Vm.Plain.memoryWF {vm : Vm} (h : vm.Plain) : vm.MemoryWF :=
  ⟨by rw [h.mmio]; exact Nat.zero_le _, h.ram⟩

section

variable {n : Nat} {addr : Cell}

/-- An access fits RAM. -/
theorem Presents.inRam (h : Presents env s m) (hn : 0 < n) :
    m.vm.InRam addr n ↔ addr.toNat + n ≤ env.ramSize := by
  rw [← h.env]
  show (m.vm.mem.isSome = true ∧ _) ↔ _ ≤ if m.vm.mem.isSome then m.vm.memSize.toNat else 0
  by_cases hsome : m.vm.mem.isSome
  · rw [if_pos hsome]
    exact and_iff_right hsome
  · rw [if_neg hsome]
    exact iff_of_false (fun hin => hsome hin.1) (by omega)

/-- The answer of an accessor that no window stands before. -/
theorem Presents.access {callback : V4Mmio → Option FnPtr} {call : V4Mmio → FnPtr → VmM W β}
    {refuse : V4Err → β} {done : β → Machine W → Prop} {y : VmM W β} (h : Presents env s m)
    (hn : 0 < n) (hy : ExactAccess n callback call refuse done addr m y) :
    if addr.toNat + n > env.ramSize then y m = .ok (refuse Err.oobMemory.code) m
    else if n = 4 ∧ ¬ 4 ∣ addr.toNat then y m = .ok (refuse Err.unaligned.code) m
    else ∃ r m', y m = .ok r m' ∧ done r m' := by
  have hwindow := window_none h.plain.mmio addr
  have hask : ∀ w f, ¬ m.vm.Asked addr n callback w f := fun w f hask => by
    cases hwindow.symm.trans hask.2.2.1
  have hin : m.vm.InRam addr n ↔ addr.toNat + n ≤ env.ramSize := h.inRam hn
  -- The range is looked at before the alignment.
  by_cases hfit : addr.toNat + n > env.ramSize
  · rw [if_pos hfit]
    exact hy.rangeFirst hwindow fun hyes => by have := hin.mp hyes; omega
  · have hyes : m.vm.InRam addr n := hin.mpr (by omega)
    rw [if_neg hfit]
    by_cases halign : n = 4 ∧ ¬ 4 ∣ addr.toNat
    · obtain ⟨rfl, hna⟩ := halign
      have hcode : m.vm.refusal addr 4 = .unaligned := if_pos ⟨rfl, hna, .inr hyes⟩
      rw [if_pos ⟨rfl, hna⟩, ← hcode]
      exact hy.refuses (fun hall => hna (hall.2 rfl).2) hask
    · rw [if_neg halign]
      exact hy.succeeds ⟨hyes, fun h4 => ⟨hwindow, by by_contra hna; exact halign ⟨h4, hna⟩⟩⟩

variable {k : Cell → VmM W Unit} {core : Cell → Cell → VmM W (V4Err × Cell)}

/-- A load, its address popped. -/
theorem read_refines (hn : 0 < n)
    (hcore : ∀ (m : Machine W), m.vm.MemoryWF → ExactRead H n addr 0 m (core addr 0))
    {g : Cell → ListM Unit} (hk : ∀ v, Refines env s (k v) (g v)) :
    Refines env s (core addr 0 >>= fun r => check r.1 >>= fun _ => k r.2) fun s =>
      if addr.toNat + n > env.ramSize then .error .oobMemory
      else if n = 4 ∧ ¬ 4 ∣ addr.toNat then .error .unaligned
      else g (BitVec.ofNat 32 (leNat s.ram addr.toNat n)) s := by
  intro m hm
  have hread := hm.access hn (hcore m hm.plain.memoryWF)
  show Agrees env (if _ then _ else _) _
  split
  · next hfit =>
      rw [if_pos hfit] at hread
      exact ⟨by decide, m, by rw [bind_ok hread]; rfl⟩
  · next hfit =>
      rw [if_neg hfit] at hread
      split
      · next halign =>
          rw [if_pos halign] at hread
          exact ⟨by decide, m, by rw [bind_ok hread]; rfl⟩
      · next halign =>
          rw [if_neg halign] at hread
          obtain ⟨r, m', hrun, rfl, ram, hram, rfl⟩ := hread
          rw [bind_ok hrun, hm.ram_eq hram]
          exact hk _ m' hm

/-- A store, address and value popped. -/
theorem write_refines {val : Cell} {core : VmM W V4Err} (hn : 0 < n)
    (hcore : ∀ (m : Machine W), m.vm.MemoryWF → ExactWrite H n addr val m core) :
    Refines env s (core >>= check) fun s =>
      if addr.toNat + n > env.ramSize then .error .oobMemory
      else if n = 4 ∧ ¬ 4 ∣ addr.toNat then .error .unaligned
      else .ok ((), { s with ram := putBytes s.ram addr.toNat n val.toNat }) := by
  intro m hm
  have hwrite := hm.access hn (hcore m hm.plain.memoryWF)
  show Agrees env (if _ then _ else _) _
  split
  · next hfit =>
      rw [if_pos hfit] at hwrite
      exact ⟨by decide, m, by rw [bind_ok hwrite]; rfl⟩
  · next hfit =>
      rw [if_neg hfit] at hwrite
      split
      · next halign =>
          rw [if_pos halign] at hwrite
          exact ⟨by decide, m, by rw [bind_ok hwrite]; rfl⟩
      · next halign =>
          rw [if_neg halign] at hwrite
          obtain ⟨r, m', hrun, rfl, ram, byte, hram, rfl, hin, hout⟩ := hwrite
          have hput : byte = putBytes s.ram addr.toNat n val.toNat :=
            hm.ram_eq hram ▸ eq_putBytes hin hout
          refine ⟨_, by rw [bind_ok hrun]; rfl, ?_⟩
          refine ⟨{ hm.plain with ram := fun r hr => by cases hr; exact hm.plain.ram ram hram }, ?_,
            ?_⟩
          · rw [← hm.env]
            show Vm.listEnv { m.vm with mem := some { ram with byte := byte } } = _
            unfold Vm.listEnv
            rw [hram]
            rfl
          · rw [← hput, ← hm.lists]
            rfl

end

/-! ## Immediates -/

theorem codeByte_eq {a : Activation} {i : Nat} (hi : i < a.bc.length) :
    (codeByte a i : VmM W Byte) = Pure.pure (a.byteAt i) := by
  rw [codeByte, Activation.byteAt, List.getD_eq_getElem _ _ hi, List.getElem?_eq_getElem hi]
  rfl

section

variable {a : Activation} (hlen : a.len ≤ a.bc.length) {p : Nat}
include hlen

/-- A truncated immediate, and one that is there. -/
theorem immediate_refines {e : Err} (he : e ≠ .ok) {n : Nat} {x y : VmM W (BitVec (8 * n))}
    (hx : x = if p + n > a.len then vmPanic H e.code else y)
    (hy : p + n ≤ a.bc.length → y = Pure.pure (BitVec.ofNat (8 * n) (leNat a.byteAt p n))) :
    Refines env s x (listLift (immediate e a p n)) := by
  rw [hx]
  by_cases hcut : p + n > a.len
  · rw [if_pos hcut, immediate, if_pos hcut]
    exact .panic e he
  · rw [if_neg hcut, immediate, if_neg hcut, hy (by omega)]
    exact .pure _

theorem imm8_refines :
    Refines env s (imm8 H a p) (listLift (immediate .truncatedLiteral a p 1)) := by
  have hguard : p ≥ a.len ↔ p + 1 > a.len := by omega
  refine immediate_refines (n := 1) hlen (by decide) (y := codeByte a p)
    (if_congr hguard rfl rfl) fun hp => ?_
  have hvalue : a.byteAt p = BitVec.ofNat 8 (leNat a.byteAt p 1) := by simp [leNat]
  rw [codeByte_eq (by omega)]
  exact congrArg (fun v => (Pure.pure v : VmM W Byte)) hvalue

theorem imm16_refines {e : Err} (he : e ≠ .ok) :
    Refines env s (imm16 H e a p) (listLift (immediate e a p 2)) := by
  refine immediate_refines (n := 2) hlen he (y := readI16Le a p) rfl fun hp => ?_
  have hvalue : (a.byteAt p).setWidth 16 ||| ((a.byteAt (p + 1)).setWidth 16 <<< 8)
      = BitVec.ofNat 16 (leNat a.byteAt p 2) := by
    rw [← toNat_join_two (w := 16) (by omega), BitVec.ofNat_toNat, BitVec.setWidth_eq]
  rw [readI16Le, codeByte_eq (by omega), codeByte_eq (by omega)]
  exact congrArg (fun v => (Pure.pure v : VmM W (BitVec 16))) hvalue

theorem imm32_refines : Refines env s (imm32 H a p)
    (listLift (immediate .truncatedLiteral a p 4)) := by
  refine immediate_refines (n := 4) hlen (by decide) (y := readI32Le a p) rfl fun hp => ?_
  have hvalue : (a.byteAt p).setWidth 32 ||| ((a.byteAt (p + 1)).setWidth 32 <<< 8)
      ||| ((a.byteAt (p + 2)).setWidth 32 <<< 16) ||| ((a.byteAt (p + 3)).setWidth 32 <<< 24)
      = BitVec.ofNat 32 (leNat a.byteAt p 4) := by
    rw [← toNat_join_four (w := 32) (by omega), BitVec.ofNat_toNat, BitVec.setWidth_eq]
  rw [readI32Le, codeByte_eq (by omega), codeByte_eq (by omega), codeByte_eq (by omega),
    codeByte_eq (by omega)]
  exact congrArg (fun v => (Pure.pure v : VmM W Cell)) hvalue

end

/-! ## Bodies -/

/-- What an instruction that goes on does. -/
def effectM (f : ListVm → Except Err ListVm) : ListM Unit := fun s => (f s).map ((), ·)

theorem popPush_refines (f : Cell → Cell) :
    Refines env s (popPush H f) (listPop >>= fun v => listPut (f v)) :=
  .of_depth fun hds _ => .bind dsPop_refines fun v t hpop =>
    dsPut_refines _ (by have := listPop_length hpop; omega)

theorem popPopPush_refines (f : Cell → Cell → Cell) : Refines env s (popPopPush H f)
    (listPop >>= fun w => listPop >>= fun v => listPut (f v w)) :=
  .of_depth fun hds _ => .bind dsPop_refines fun w t hw => .bind dsPop_refines fun v u hv =>
    dsPut_refines _ (by have := listPop_length hw; have := listPop_length hv; omega)

theorem binaryBlock_refines (op : Op) : Refines env s (binaryBlock H op)
    (listPop >>= fun w => listPop >>= fun v =>
      (binaryResult op v w).elim (fun _ => .error .divByZero) listPut) := by
  refine .of_depth fun hds _ => .bind dsPop_refines fun w t hw =>
    .bind dsPop_refines fun v u hv => ?_
  have hroom : u.ds.length < 256 := by
    have := listPop_length hw
    have := listPop_length hv
    omega
  cases binaryResult op v w with
  | none => exact .panic .divByZero
  | some r => exact dsPut_refines r hroom

theorem swap_refines : Refines env s (swapBody H)
    (listPop >>= fun v => listPop >>= fun w => listPut v >>= fun _ => listPut w) := by
  refine .of_depth fun hds _ => .bind dsPop_refines fun v t hv =>
    .bind dsPop_refines fun w u hw => ?_
  have hroom : u.ds.length + 1 < 256 := by
    have := listPop_length hv
    have := listPop_length hw
    omega
  refine .bind (dsPut_refines v (by omega)) fun _ t' hput => dsPut_refines w ?_
  cases hput
  exact hroom

theorem listLift_ok {r : Except Err α} {a : α} {t : ListVm} (h : listLift r s = .ok (a, t)) :
    r = .ok a ∧ t = s := by
  cases r with
  | error e => cases h
  | ok b => cases h; exact ⟨rfl, rfl⟩

def listGetRs (k : Nat) : ListM Cell := fun s => .ok (ListVm.fromBottom s.rs k, s)

def listSetRs (k : Nat) (v : Cell) : ListM Unit :=
  fun s => .ok ((), { s with rs := ListVm.setFromBottom s.rs k v })

/-- A body behind the check of its local variable. -/
theorem local_refines (i : Nat) {f : Nat → VmM W α} {g : Nat → ListM α}
    (h : ∀ k, k < s.rs.length → Refines env s (f k) (g k)) :
    Refines env s (localSlot H i >>= f) (listLift (s.localIndex i) >>= g) := by
  refine .bind (localSlot_refines i) fun k t hk => ?_
  obtain ⟨hindex, rfl⟩ := listLift_ok hk
  exact h k (localIndex_lt hindex)

theorem localGet_refines (i : Nat) : Refines env s (localGet H i)
    (listLift (s.localIndex i) >>= fun k => listGetRs k >>= listPush) :=
  local_refines i fun _ hk => .bind (getRs_refines hk) fun _ _ _ => dsPush_refines _

theorem localSet_refines (i : Nat) : Refines env s (localSet H i)
    (listLift (s.localIndex i) >>= fun k => listPop >>= listSetRs k) :=
  local_refines i fun _ hk => .bind dsPop_refines fun _ _ hpop =>
    setRs_refines (by rw [listPop_ok hpop] at hk; exact hk) _

theorem listPeek_ok {i : Nat} {v : Cell} {t : ListVm} (h : listPeek i s = .ok (v, t)) : t = s := by
  unfold listPeek at h
  split at h <;> cases h
  rfl

theorem localTee_refines (i : Nat) : Refines env s (localTee H i)
    (listLift (s.localIndex i) >>= fun k => listPeek 0 >>= listSetRs k) :=
  local_refines i fun _ hk => .bind (dsPeek_refines 0) fun _ _ hpeek =>
    setRs_refines (by rw [listPeek_ok hpeek]; exact hk) _

theorem localAdd_refines (i : Nat) (d : Cell) : Refines env s (localAdd H i d)
    (listLift (s.localIndex i) >>= fun k => listGetRs k >>= fun v => listSetRs k (v + d)) := by
  refine local_refines i fun k hk => .bind (getRs_refines hk) fun v t ht => ?_
  cases ht
  exact setRs_refines hk _

/-! ## One instruction -/

/-- An instruction, its flow as the interpreter has it. -/
def listExec (env : ListEnv) (a : Activation) (q : Nat) (i : ListInstr) : ListM Flow := fun s =>
  (i.exec env a q s).map fun r => (r.1.flow, r.2)

def listOp (env : ListEnv) (a : Activation) (p : Nat) (op : Op) : ListM Flow := fun s => do
  let (i, q) ← decodeOp a p op
  listExec env a q i s

def listFetch (env : ListEnv) (a : Activation) : ListM Flow := fun s => do
  let (i, q) ← decodeAt a
  listExec env a q i s

/-- An instruction that goes on behind its operand. -/
def ListInstr.Moves (i : ListInstr) : Prop := ∀ env a q s,
  i.exec env a q s = do
    let s ← i.effect env s
    return (.next q, s)

section

variable {a : Activation} {p q : Nat} {op : Op}

theorem thenNext_refines {i : ListInstr} {body : VmM W Unit} (hi : i.Moves)
    (hb : Refines env s body (effectM (i.effect env ·))) :
    Refines env s (thenNext q body) (listExec env a q i) := by
  refine (Refines.bind (f := fun _ => (Pure.pure (Flow.next q) : VmM W Flow)) hb
    fun _ t _ => .pure (Flow.next q)).congr ?_
  show (effectM _ s >>= _) = Except.map _ (i.exec env a q s)
  rw [hi, effectM]
  cases i.effect env s <;> rfl

/-- An opcode without operand. -/
theorem bare_refines {i : ListInstr} {x : VmM W Flow} (hdec : decodeOp a p op = .ok (i, p))
    (hx : Refines env s x (listExec env a p i)) : Refines env s x (listOp env a p op) :=
  hx.congr (by rw [listOp, hdec]; rfl)

/-- An opcode with an operand of `n` bytes. -/
theorem operand_refines {n : Nat} {e : Err} {i : BitVec (8 * n) → ListInstr}
    {x : VmM W (BitVec (8 * n))} {k : BitVec (8 * n) → VmM W Flow}
    (hdec : decodeOp a p op = do
      let v ← immediate e a p n
      return (i v, q))
    (hx : Refines env s x (listLift (immediate e a p n)))
    (hk : ∀ v, Refines env s (k v) (listExec env a q (i v))) :
    Refines env s (x >>= k) (listOp env a p op) := by
  refine (hx.bind (g := fun v => listExec env a q (i v)) fun v t ht => ?_).congr ?_
  · obtain ⟨-, rfl⟩ := listLift_ok ht
    exact hk v
  · show (listLift _ s >>= _) = _
    rw [listOp, hdec, listLift]
    cases immediate e a p n <;> rfl

theorem target_refines (off : BitVec 16) {t : ListVm} :
    Refines env t (jumpTo H a q off) (listLift ((target a q off).map Go.flow)) := by
  unfold jumpTo target
  by_cases hout : (q : Int) + off.toInt < 0 ∨ (q : Int) + off.toInt > a.len
  · simp only [if_pos hout]
    exact .panic .jumpOutOfRange
  · simp only [if_neg hout]
    exact .pure _

theorem callee_refines (idx : BitVec 16) :
    Refines env s (callee H idx) (listLift (env.callee idx)) := by
  intro m hm
  rw [← hm.env]
  have hwords := hm.plain.wordCount
  show Agrees _ (Except.map _ (if idx.toNat ≥ m.vm.wordCount % 65536 then _ else _))
    ((if idx.toNat ≥ m.vm.wordCount % 65536 then _ else _ : VmM W Activation) m)
  by_cases hidx : idx.toNat ≥ m.vm.wordCount % 65536
  · rw [if_pos hidx, if_pos hidx]
    exact hm.env ▸ Refines.panic (α := Activation) .invalidWordIdx (by decide) m hm
  · have hword : wordAt idx.toNat m = .ok (m.vm.words idx.toNat) m := if_pos (by omega)
    rw [if_neg hidx, if_neg hidx, bind_ok hword]
    cases (m.vm.words idx.toNat).code with
    | none => exact hm.env ▸ Refines.panic (α := Activation) .invalidArg (by decide) m hm
    | some code =>
        by_cases hlen : (m.vm.words idx.toNat).codeLen ≤ 0
        · simp only [if_pos hlen]
          exact hm.env ▸ Refines.panic (α := Activation) .invalidArg (by decide) m hm
        · simp only [if_neg hlen]
          exact ⟨m, rfl, hm.env ▸ hm⟩

end

/-! ## The switch -/

section

variable {a : Activation} {p q : Nat} {op : Op}

theorem push_body (k : Cell) :
    Refines env s (dsPush H k) (effectM ((ListInstr.push k).effect env ·)) := by
  refine (dsPush_refines k).congr ?_
  show (ListVm.pushOn k s.ds >>= _) = Except.map _ (ListVm.pushOn k s.ds >>= _)
  cases ListVm.pushOn k s.ds <;> rfl

/-- A body of the data stack, its effect read off the list. -/
theorem data_body {body : VmM W Unit} {y : ListM Unit} (hb : ∀ s, Refines env s body y)
    (hy : ∀ ds rs fp ram, y ⟨ds, rs, fp, ram⟩
      = (ListVm.dataEffect op ds).map fun ds => ((), ⟨ds, rs, fp, ram⟩)) :
    Refines env s body (effectM ((ListInstr.data op).effect env ·)) := by
  refine (hb s).congr ((hy s.ds s.rs s.fp s.ram).trans ?_)
  show _ = Except.map _ (ListVm.dataEffect op s.ds >>= _)
  cases ListVm.dataEffect op s.ds <;> rfl

theorem binary_body (h0 : ListVm.dataEffect op [] = .error .stackUnderflow)
    (h1 : ∀ w, ListVm.dataEffect op [w] = .error .stackUnderflow)
    (h2 : ∀ w v ds, ListVm.dataEffect op (w :: v :: ds)
      = (binaryResult op v w).elim (.error .divByZero) fun r => .ok (r :: ds)) :
    Refines env s (binaryBlock H op) (effectM ((ListInstr.data op).effect env ·)) := by
  refine data_body (fun s => binaryBlock_refines op) fun ds rs fp ram => ?_
  match ds with
  | [] => rw [h0]; rfl
  | [w] => rw [h1]; rfl
  | w :: v :: ds =>
      rw [h2]
      show (binaryResult op v w).elim (fun _ => Except.error Err.divByZero) listPut _ = _
      cases binaryResult op v w <;> rfl

theorem unary_body {f : Cell → Cell} (h0 : ListVm.dataEffect op [] = .error .stackUnderflow)
    (h1 : ∀ v ds, ListVm.dataEffect op (v :: ds) = .ok (f v :: ds)) :
    Refines env s (popPush H f) (effectM ((ListInstr.data op).effect env ·)) := by
  refine data_body (fun s => popPush_refines f) fun ds rs fp ram => ?_
  match ds with
  | [] => rw [h0]; rfl
  | v :: ds => rw [h1]; rfl

theorem popPop_body {f : Cell → Cell → Cell}
    (h0 : ListVm.dataEffect op [] = .error .stackUnderflow)
    (h1 : ∀ w, ListVm.dataEffect op [w] = .error .stackUnderflow)
    (h2 : ∀ w v ds, ListVm.dataEffect op (w :: v :: ds) = .ok (f v w :: ds)) :
    Refines env s (popPopPush H f) (effectM ((ListInstr.data op).effect env ·)) := by
  refine data_body (fun s => popPopPush_refines f) fun ds rs fp ram => ?_
  match ds with
  | [] => rw [h0]; rfl
  | [w] => rw [h1]; rfl
  | w :: v :: ds => rw [h2]; rfl

/-- `DUP` and `OVER`: the cell `i` below the top again. -/
theorem peek_body {i : Nat} (h : ∀ ds, ListVm.dataEffect op ds
      = (ds[i]?).elim (.error .stackUnderflow) fun v => ListVm.pushOn v ds) :
    Refines env s (dsPeek H i >>= dsPush H) (effectM ((ListInstr.data op).effect env ·)) := by
  refine data_body (fun s => .bind (dsPeek_refines i) fun v t _ => dsPush_refines v)
    fun ds rs fp ram => ?_
  rw [h]
  show (listPeek i _ >>= fun r => listPush r.1 r.2) = _
  rw [listPeek]
  cases ds[i]? with
  | none => rfl
  | some v =>
      show (ListVm.pushOn v ds >>= _) = Except.map _ (ListVm.pushOn v ds)
      cases ListVm.pushOn v ds <;> rfl

theorem drop_body : Refines env s (do let _ ← dsPop H : VmM W Unit)
    (effectM ((ListInstr.data .DROP).effect env ·)) := by
  refine data_body (fun s => .bind dsPop_refines fun _ _ _ => .pure ()) fun ds rs fp ram => ?_
  cases ds <;> rfl

theorem swap_body : Refines env s (swapBody H)
    (effectM ((ListInstr.data .SWAP).effect env ·)) := by
  refine data_body (fun s => swap_refines) fun ds rs fp ram => ?_
  match ds with
  | [] => rfl
  | [_] => rfl
  | _ :: _ :: _ => rfl

theorem select_body : Refines env s
    (do let v ← dsPop H; let w ← dsPop H; let flag ← dsPop H; dsPush H (if flag ≠ 0 then v else w))
    (effectM ((ListInstr.data .SELECT).effect env ·)) := by
  refine data_body (y := listPop >>= fun v => listPop >>= fun w => listPop >>= fun flag =>
    listPut (if flag ≠ 0 then v else w)) (fun s => .of_depth fun hds _ => ?_) fun ds rs fp ram => ?_
  · refine .bind dsPop_refines fun v t hv => .bind dsPop_refines fun w u hw =>
      .bind dsPop_refines fun flag x hflag => dsPut_refines _ ?_
    have := listPop_length hv
    have := listPop_length hw
    have := listPop_length hflag
    omega
  · match ds with
    | [] => rfl
    | [_] => rfl
    | [_, _] => rfl
    | _ :: _ :: _ :: _ => rfl

theorem toR_body : Refines env s (do let v ← dsPop H; rsPush H v)
    (effectM (ListInstr.toR.effect env ·)) := by
  refine (Refines.bind dsPop_refines fun v _ _ => rsPush_refines v).congr ?_
  obtain ⟨ds, rs, fp, ram⟩ := s
  cases ds with
  | nil => rfl
  | cons v ds =>
      show (if rs.length ≥ 64 then _ else _) = Except.map _ (if rs.length ≥ 64 then _ else _)
      by_cases h : rs.length ≥ 64
      · rw [if_pos h, if_pos h]; rfl
      · rw [if_neg h, if_neg h]; rfl

theorem fromR_body : Refines env s (do let v ← rsPop H; dsPush H v)
    (effectM (ListInstr.fromR.effect env ·)) := by
  refine (Refines.bind rsPop_refines fun v _ _ => dsPush_refines v).congr ?_
  obtain ⟨ds, rs, fp, ram⟩ := s
  cases rs with
  | nil => rfl
  | cons v rs =>
      show (ListVm.pushOn v ds >>= _) = Except.map _ (ListVm.pushOn v ds >>= _)
      cases ListVm.pushOn v ds <;> rfl

theorem rFetch_body : Refines env s (do let v ← rsPeek H 0; dsPush H v)
    (effectM (ListInstr.rFetch.effect env ·)) := by
  refine (Refines.bind rsPeek_refines fun v _ _ => dsPush_refines v).congr ?_
  obtain ⟨ds, rs, fp, ram⟩ := s
  cases rs with
  | nil => rfl
  | cons v rs =>
      show (ListVm.pushOn v ds >>= _) = Except.map _ (ListVm.pushOn v ds >>= _)
      cases ListVm.pushOn v ds <;> rfl

theorem localGet_body (i : Nat) :
    Refines env s (localGet H i) (effectM ((ListInstr.localGet i).effect env ·)) := by
  refine (localGet_refines i).congr ?_
  show (listLift (s.localIndex i) s >>= _) = Except.map _ (s.localIndex i >>= _)
  cases s.localIndex i with
  | error e => rfl
  | ok k =>
      show (ListVm.pushOn _ s.ds >>= _) = Except.map _ (ListVm.pushOn _ s.ds >>= _)
      cases ListVm.pushOn (ListVm.fromBottom s.rs k) s.ds <;> rfl

theorem localSet_body (i : Nat) :
    Refines env s (localSet H i) (effectM ((ListInstr.localSet i).effect env ·)) := by
  refine (localSet_refines i).congr ?_
  show (listLift (s.localIndex i) s >>= _) = Except.map _ (s.localIndex i >>= _)
  cases s.localIndex i with
  | error e => rfl
  | ok k =>
      obtain ⟨ds, rs, fp, ram⟩ := s
      cases ds <;> rfl

theorem localTee_body (i : Nat) :
    Refines env s (localTee H i) (effectM ((ListInstr.localTee i).effect env ·)) := by
  refine (localTee_refines i).congr ?_
  show (listLift (s.localIndex i) s >>= _) = Except.map _ (s.localIndex i >>= _)
  cases s.localIndex i with
  | error e => rfl
  | ok k =>
      obtain ⟨ds, rs, fp, ram⟩ := s
      cases ds <;> rfl

theorem localAdd_body (i : Nat) (d : Cell) :
    Refines env s (localAdd H i d) (effectM ((ListInstr.localAdd i d).effect env ·)) := by
  refine (localAdd_refines i d).congr ?_
  show (listLift (s.localIndex i) s >>= _) = Except.map _ (s.localIndex i >>= _)
  cases s.localIndex i <;> rfl

theorem load_body {n : Nat} {ext : Cell → Cell} {core : Cell → Cell → VmM W (V4Err × Cell)}
    (hn : 0 < n) (hcore : ∀ addr (m : Machine W), m.vm.MemoryWF →
      ExactRead H n addr 0 m (core addr 0)) :
    Refines env s (loadOp H core ext) (effectM ((ListInstr.load n ext).effect env ·)) := by
  refine .of_depth fun hds _ => (Refines.bind dsPop_refines fun addr t hpop =>
    read_refines (g := fun v => listPut (ext v)) hn (hcore addr) fun v =>
      dsPut_refines (ext v) (by have := listPop_length hpop; omega)).congr ?_
  obtain ⟨ds, rs, fp, ram⟩ := s
  cases ds with
  | nil => rfl
  | cons addr ds =>
      show (if _ then _ else if _ then _ else _) =
        Except.map _ (if _ then _ else if _ then _ else _)
      split
      · rfl
      · split <;> rfl

theorem store_body {n : Nat} {core : Cell → Cell → VmM W V4Err} (hn : 0 < n)
    (hcore : ∀ addr val (m : Machine W), m.vm.MemoryWF →
      ExactWrite H n addr val m (core addr val)) :
    Refines env s (storeOp H core) (effectM ((ListInstr.store n).effect env ·)) := by
  refine (Refines.bind dsPop_refines fun addr _ _ => .bind dsPop_refines fun val _ _ =>
    write_refines hn (hcore addr val)).congr ?_
  obtain ⟨ds, rs, fp, ram⟩ := s
  match ds with
  | [] => rfl
  | [_] => rfl
  | addr :: val :: ds =>
      show (if _ then _ else if _ then _ else _) =
        Except.map _ (if _ then _ else if _ then _ else _)
      split
      · rfl
      · split <;> rfl

/-- `JZ` and `JNZ`, the offset read. -/
theorem branch_refines {ifZero : Bool} {c : Cell → Prop} [DecidablePred c] (off : BitVec 16)
    (hc : ∀ v, c v ↔ ((v == 0) = ifZero)) :
    Refines env s (do let v ← dsPop H; if c v then jumpTo H a q off else return .next q)
      (listExec env a q (.branch ifZero off)) := by
  have hgo : ∀ v t, Refines env t (if c v then jumpTo H a q off else return .next q)
      (listLift ((if (v == 0) = ifZero then target a q off else .ok (.next q)).map
        Go.flow)) := by
    intro v t
    by_cases hv : c v
    · rw [if_pos hv, if_pos ((hc v).mp hv)]
      exact target_refines off
    · rw [if_neg hv, if_neg fun h => hv ((hc v).mpr h)]
      exact .pure _
  refine (Refines.bind dsPop_refines fun v t _ => hgo v t).congr ?_
  obtain ⟨ds, rs, fp, ram⟩ := s
  cases ds with
  | nil => rfl
  | cons v ds =>
      show listLift (Except.map _ (if (v == 0) = ifZero then target a q off else .ok (.next q))) _
        = Except.map _ ((if (v == 0) = ifZero then target a q off else .ok (.next q)) >>= _)
      cases (if (v == 0) = ifZero then target a q off else .ok (.next q)) <;> rfl

/-- The extensions of the narrow loads mask what the accessors have masked already. -/
theorem setWidth_mask_byte (v : Cell) : (v &&& 0xFF).setWidth 8 = v.setWidth 8 := by
  rw [low_byte, leByte, Nat.pow_zero, Nat.div_one, BitVec.ofNat_toNat]

theorem setWidth_mask_half (v : Cell) : (v &&& 0xFFFF).setWidth 16 = v.setWidth 16 := by
  rw [low_half, BitVec.ofNat_toNat]

/-- **The switch refined.**  Every opcode but `SYS` and the task opcodes does to the lists
    what its decoded instruction says. -/
theorem execOp_refines (hlen : a.len ≤ a.bc.length) (p : Nat) (op : Op)
    (hop : decodeOp a p op ≠ .ok (.outside, p)) :
    Refines env s (execOp H a p op) (listOp env a p op) := by
  -- what the three shapes of opcodes that move on have in common
  have plain : ∀ (i : ListInstr) (body : VmM W Unit), decodeOp a p op = .ok (i, p) → i.Moves →
      Refines env s body (effectM (i.effect env ·)) →
      Refines env s (thenNext p body) (listOp env a p op) :=
    fun i body hdec hi hb => bare_refines hdec (thenNext_refines hi hb)
  match op with
  | .LIT =>
      exact operand_refines (i := fun k => .push k) rfl (imm32_refines hlen) fun k =>
        thenNext_refines (fun _ _ _ _ => rfl) (push_body k)
  | .LIT_U8 =>
      exact operand_refines (i := fun b => .push (b.setWidth 32)) rfl (imm8_refines hlen) fun b =>
        thenNext_refines (fun _ _ _ _ => rfl) (push_body _)
  | .LIT_I8 =>
      exact operand_refines (i := fun b => .push (b.signExtend 32)) rfl (imm8_refines hlen) fun b =>
        thenNext_refines (fun _ _ _ _ => rfl) (push_body _)
  | .LIT_I16 =>
      exact operand_refines (i := fun w => .push (w.signExtend 32)) rfl
        (imm16_refines hlen (by decide)) fun w =>
          thenNext_refines (fun _ _ _ _ => rfl) (push_body _)
  | .LIT0 | .LIT1 | .LITN1 => exact plain _ _ rfl (fun _ _ _ _ => rfl) (push_body _)
  | .LGET =>
      exact operand_refines (i := fun n => .localGet n.toNat) rfl (imm8_refines hlen) fun n =>
        thenNext_refines (fun _ _ _ _ => rfl) (localGet_body _)
  | .LSET =>
      exact operand_refines (i := fun n => .localSet n.toNat) rfl (imm8_refines hlen) fun n =>
        thenNext_refines (fun _ _ _ _ => rfl) (localSet_body _)
  | .LTEE =>
      exact operand_refines (i := fun n => .localTee n.toNat) rfl (imm8_refines hlen) fun n =>
        thenNext_refines (fun _ _ _ _ => rfl) (localTee_body _)
  | .LINC =>
      exact operand_refines (i := fun n => .localAdd n.toNat 1) rfl (imm8_refines hlen) fun n =>
        thenNext_refines (fun _ _ _ _ => rfl) (localAdd_body _ _)
  | .LDEC =>
      exact operand_refines (i := fun n => .localAdd n.toNat (-1)) rfl (imm8_refines hlen) fun n =>
        thenNext_refines (fun _ _ _ _ => rfl) (localAdd_body _ _)
  | .LGET0 | .LGET1 => exact plain _ _ rfl (fun _ _ _ _ => rfl) (localGet_body _)
  | .LSET0 | .LSET1 => exact plain _ _ rfl (fun _ _ _ _ => rfl) (localSet_body _)
  | .DUP =>
      exact plain (.data .DUP) _ rfl (fun _ _ _ _ => rfl) (peek_body fun ds => by cases ds <;> rfl)
  | .OVER =>
      refine plain (.data .OVER) _ rfl (fun _ _ _ _ => rfl) (peek_body fun ds => ?_)
      match ds with
      | [] => rfl
      | [_] => rfl
      | _ :: _ :: _ => rfl
  | .DROP => exact plain _ _ rfl (fun _ _ _ _ => rfl) drop_body
  | .SWAP => exact plain _ _ rfl (fun _ _ _ _ => rfl) swap_body
  | .SELECT => exact plain _ _ rfl (fun _ _ _ _ => rfl) select_body
  | .ADD | .SUB | .MUL | .DIV | .MOD | .DIVU | .MODU
  | .EQ | .NE | .LT | .LE | .GT | .GE | .LTU | .LEU =>
      exact plain (.data _) _ rfl (fun _ _ _ _ => rfl)
        (binary_body rfl (fun _ => rfl) fun _ _ _ => rfl)
  | .INC | .DEC | .INVERT =>
      exact plain (.data _) _ rfl (fun _ _ _ _ => rfl) (unary_body rfl fun _ _ => rfl)
  | .AND | .OR | .XOR | .SHL | .SHR | .SAR =>
      exact plain (.data _) _ rfl (fun _ _ _ _ => rfl)
        (popPop_body rfl (fun _ => rfl) fun _ _ _ => rfl)
  | .TOR => exact plain _ _ rfl (fun _ _ _ _ => rfl) toR_body
  | .FROMR => exact plain _ _ rfl (fun _ _ _ _ => rfl) fromR_body
  | .RFETCH => exact plain _ _ rfl (fun _ _ _ _ => rfl) rFetch_body
  | .LOAD =>
      exact plain _ _ rfl (fun _ _ _ _ => rfl) (load_body (by decide) fun _ _ hm => read32_exact hm)
  | .LOAD8U =>
      exact plain _ _ rfl (fun _ _ _ _ => rfl) (load_body (by decide) fun _ _ hm => read8_exact hm)
  | .LOAD16U =>
      exact plain _ _ rfl (fun _ _ _ _ => rfl) (load_body (by decide) fun _ _ hm => read16_exact hm)
  | .LOAD8S =>
      refine plain _ _ rfl (fun _ _ _ _ => rfl) ?_
      rw [funext fun v => congrArg (BitVec.signExtend 32) (setWidth_mask_byte v)]
      exact load_body (by decide) fun _ _ hm => read8_exact hm
  | .LOAD16S =>
      refine plain _ _ rfl (fun _ _ _ _ => rfl) ?_
      rw [funext fun v => congrArg (BitVec.signExtend 32) (setWidth_mask_half v)]
      exact load_body (by decide) fun _ _ hm => read16_exact hm
  | .STORE =>
      exact plain _ _ rfl (fun _ _ _ _ => rfl)
        (store_body (by decide) fun _ _ _ hm => write32_exact hm)
  | .STORE8 =>
      exact plain _ _ rfl (fun _ _ _ _ => rfl)
        (store_body (by decide) fun _ _ _ hm => write8_exact hm)
  | .STORE16 =>
      exact plain _ _ rfl (fun _ _ _ _ => rfl)
        (store_body (by decide) fun _ _ _ hm => write16_exact hm)
  | .JMP =>
      refine operand_refines (i := fun off => .jump off) rfl
        (imm16_refines hlen (by decide)) fun off => ?_
      refine (target_refines off).congr ?_
      show _ = Except.map _ (target a (p + 2) off >>= _)
      rw [listLift]
      cases target a (p + 2) off <;> rfl
  | .JZ =>
      refine operand_refines (i := fun off => .branch true off) rfl (imm16_refines hlen (by decide))
        fun off => ?_
      exact branch_refines (q := p + 2) (c := fun v => v = 0) off fun v => by simp
  | .JNZ =>
      refine operand_refines (i := fun off => .branch false off) rfl
        (imm16_refines hlen (by decide)) fun off => ?_
      exact branch_refines (q := p + 2) (c := fun v => v ≠ 0) off fun v => by simp
  | .CALL =>
      refine operand_refines (i := fun idx => .call idx) rfl
        (imm16_refines hlen (by decide)) fun idx => ?_
      refine (Refines.bind (callee_refines idx) fun c t _ => .pure (Flow.call c (p + 2))).congr ?_
      show (listLift (env.callee idx) s >>= _) = Except.map _ (env.callee idx >>= _)
      rw [listLift]
      cases env.callee idx <;> rfl
  | .RET => exact bare_refines (i := .ret) rfl (.pure Flow.ret)
  | .SYS | .TASK_SPAWN | .TASK_EXIT | .TASK_SLEEP | .TASK_YIELD | .CRITICAL_ENTER
  | .CRITICAL_EXIT | .TASK_SEND | .TASK_RECEIVE | .TASK_RECEIVE_BLOCKING | .TASK_SELF
  | .TASK_COUNT => exact absurd rfl hop

/-- **One turn of the loop**, unless it is at an instruction that acts on the world. -/
theorem fetch_refines (hlen : a.len ≤ a.bc.length)
    (hin : ∀ q, decodeAt a ≠ .ok (.outside, q)) :
    Refines env s (fetch H a) (listFetch env a) := by
  unfold fetch listFetch decodeAt
  unfold decodeAt at hin
  by_cases hip : a.ip < a.len
  · simp only [if_pos hip] at hin ⊢
    have hbyte (m : Machine W) : codeByte a a.ip m = .ok (a.byteAt a.ip) m := by
      rw [codeByte_eq (by omega)]
      rfl
    cases hop : Op.ofByte (a.byteAt a.ip) with
    | none =>
        have hrun : execInstr H a = vmPanic H Err.unknownOp.code := by
          funext m
          rw [execInstr, bind_ok (hbyte m), hop]
        exact hrun ▸ .panic .unknownOp
    | some op =>
        have hrun : execInstr H a = execOp H a (a.ip + 1) op := by
          funext m
          rw [execInstr, bind_ok (hbyte m), hop]
        rw [hrun]
        rw [hop] at hin
        exact execOp_refines hlen (a.ip + 1) op (hin _)
  · simp only [if_neg hip]
    exact .panic .fellOffEnd

end

/-! ## Expressions without a value -/

section

variable {a : Activation}

/-- The top of a list, and a machine that shows it. -/
theorem Presents.top (h : Presents env s m) {i : Nat} {v : Cell} (hi : s.ds[i]? = some v) :
    i < m.vm.sp ∧ m.operand i = v := by
  rw [h.ds_getElem?] at hi
  exact (Option.ite_none_right_eq_some.mp hi).imp_right Option.some.inj

/-- An instruction with these operands gets to its expression. -/
theorem undefined_of_operands {o : Option (Cell × Cell)} {op : Op} {x y : Cell}
    (h : o = some (x, y)) :
    (hostValue op x y).isNone = true ↔ ∃ a b, o = some (a, b) ∧ hostValue op a b = none := by
  rw [Option.isNone_iff_eq_none]
  constructor
  · exact fun hnone => ⟨x, y, h, hnone⟩
  · rintro ⟨a, b, hab, hnone⟩
    cases h.symm.trans hab
    exact hnone

/-- One without does not. -/
theorem undefined_of_none {o : Option (Cell × Cell)} {op : Op} (h : o = none) :
    false = true ↔ ∃ a b, o = some (a, b) ∧ hostValue op a b = none := by
  constructor
  · exact fun hfalse => by cases hfalse
  · rintro ⟨a, b, hab, -⟩
    cases h.symm.trans hab

/-- An instruction on the data stack. -/
theorem undefined_data (h : Presents env s m) {op : Op} (hop : op ≠ .LINC ∧ op ≠ .LDEC) :
    (ListInstr.data op).undefined s = true ↔
      ∃ x y, hostOperands m a op = some (x, y) ∧ hostValue op x y = none := by
  obtain ⟨ds, rs, fp, ram⟩ := s
  have hlen : ds.length = m.vm.sp := h.ds_length
  cases op with
  | LINC => exact absurd rfl hop.1
  | LDEC => exact absurd rfl hop.2
  | ADD | SUB | MUL | SHL | SAR =>
      obtain _ | ⟨w, _ | ⟨v, ds⟩⟩ := ds
      · exact undefined_of_none (if_neg (hlen ▸ Nat.not_lt_zero 1))
      · exact undefined_of_none (if_neg (hlen ▸ Nat.lt_irrefl 1))
      · obtain ⟨hsp, hv⟩ := h.top (i := 1) rfl
        obtain ⟨-, hw⟩ := h.top (i := 0) rfl
        exact undefined_of_operands ((if_pos hsp).trans (by rw [hv, hw]))
  | DIV | MOD =>
      obtain _ | ⟨w, _ | ⟨v, ds⟩⟩ := ds
      · have hsp : ¬ 1 < m.vm.sp := hlen ▸ Nat.not_lt_zero 1
        exact undefined_of_none (if_neg fun hpos => hsp hpos.1)
      · have hsp : ¬ 1 < m.vm.sp := hlen ▸ Nat.lt_irrefl 1
        exact undefined_of_none (if_neg fun hpos => hsp hpos.1)
      · obtain ⟨hsp, hv⟩ := h.top (i := 1) rfl
        obtain ⟨-, hw⟩ := h.top (i := 0) rfl
        show (w ≠ 0 && (hostValue _ v w).isNone) = true ↔ _
        -- a zero divisor is caught before the division
        by_cases hzero : w = 0
        · rw [decide_eq_false (not_not.mpr hzero), Bool.false_and]
          exact undefined_of_none (if_neg fun hpos => hpos.2 (hw.trans hzero))
        · rw [decide_eq_true hzero, Bool.true_and]
          have hdivisor : m.operand 0 ≠ 0 := fun h0 => hzero (hw.symm.trans h0)
          exact undefined_of_operands ((if_pos ⟨hsp, hdivisor⟩).trans (by rw [hv, hw]))
  | INC | DEC =>
      obtain _ | ⟨v, ds⟩ := ds
      · exact undefined_of_none (if_neg (hlen ▸ Nat.lt_irrefl 0))
      · obtain ⟨hsp, hv⟩ := h.top (i := 0) rfl
        exact undefined_of_operands ((if_pos hsp).trans (by rw [hv]))
  | _ =>
      obtain _ | ⟨w, _ | ⟨v, ds⟩⟩ := ds
      all_goals exact undefined_of_none rfl

/-- The operand of a decoded instruction. -/
theorem decode_operand {e : Err} {p q q' n : Nat} {f : BitVec (8 * n) → ListInstr}
    {i : ListInstr} (h : (do
      let k ← immediate e a p n
      return (f k, q) : Except Err (ListInstr × Nat)) = .ok (i, q')) :
    p + n ≤ a.len ∧ i = f (BitVec.ofNat (8 * n) (leNat a.byteAt p n)) := by
  unfold immediate at h
  split at h
  · cases h
  · next hcut =>
      cases h
      exact ⟨Nat.not_lt.mp hcut, rfl⟩

/-- The local variable `LINC` and `LDEC` work on. -/
theorem localOperand_lists (h : Presents env s m) (hlen : a.len ≤ a.bc.length)
    (hip : a.ip + 1 + 1 ≤ a.len) :
    localOperand m a = match s.localIndex (a.byteAt (a.ip + 1)).toNat with
      | .ok k => some (ListVm.fromBottom s.rs k)
      | .error _ => none := by
  have hidx : a.localIdx = some (a.byteAt (a.ip + 1)) := by
    rw [Activation.localIdx, if_pos (by omega), Activation.byteAt,
      List.getD_eq_getElem _ _ (by omega), List.getElem?_eq_getElem (by omega)]
  have hrs := h.rs_length
  rw [localOperand, hidx, h.fp, ListVm.localIndex]
  simp only [Option.bind_eq_bind, Option.bind_some]
  cases hfp : s.fp with
  | none => rfl
  | some fp =>
      simp only [Option.bind_some]
      by_cases hlt : fp + (a.byteAt (a.ip + 1)).toNat < m.vm.rp
      · rw [if_pos hlt, if_pos (by omega)]
        simp only
        rw [ListVm.fromBottom, ← h.rs, List.reverse_reverse, live_getD, if_pos hlt]
      · rw [if_neg hlt, if_neg (by omega)]

theorem signedSub_one (v : Cell) : signedSub v 1 = signedAdd v (-1) := by
  have hone : (1 : Cell).toInt = 1 := by decide
  have hneg : (-1 : Cell).toInt = -1 := by decide
  rw [signedSub, signedAdd, hone, hneg, Int.sub_eq_add_neg]

theorem undefined_local (h : Presents env s m) (hlen : a.len ≤ a.bc.length)
    (hip : a.ip + 1 + 1 ≤ a.len) {op : Op} {d : Cell}
    (hop : op = .LINC ∧ d = 1 ∨ op = .LDEC ∧ d = -1) :
    (ListInstr.localAdd (a.byteAt (a.ip + 1)).toNat d).undefined s = true ↔
      ∃ x y, hostOperands m a op = some (x, y) ∧ hostValue op x y = none := by
  have hargs : hostOperands m a op = (localOperand m a).map (·, 0) := by
    obtain ⟨rfl, -⟩ | ⟨rfl, -⟩ := hop
    · rfl
    · rfl
  have hvalue (v : Cell) : signedAdd v d = hostValue op v 0 := by
    obtain ⟨rfl, rfl⟩ | ⟨rfl, rfl⟩ := hop
    · rfl
    · exact (signedSub_one v).symm
  rw [ListInstr.undefined, hargs, localOperand_lists h hlen hip]
  cases s.localIndex (a.byteAt (a.ip + 1)).toNat with
  | error e => exact undefined_of_none rfl
  | ok k =>
      simp only [hvalue]
      exact undefined_of_operands rfl

/-- **One opcode**: the lists and the interpreter see the same undefined expressions. -/
theorem undefined_op (h : Presents env s m) (hlen : a.len ≤ a.bc.length) {op : Op}
    {i : ListInstr} {q : Nat} (hdec : decodeOp a (a.ip + 1) op = .ok (i, q)) :
    i.undefined s = true ↔
      ∃ x y, hostOperands m a op = some (x, y) ∧ hostValue op x y = none := by
  cases op with
  | LINC =>
      obtain ⟨hip, rfl⟩ := decode_operand (n := 1) (f := fun i => .localAdd i.toNat 1) hdec
      have hbyte : BitVec.ofNat (8 * 1) (leNat a.byteAt (a.ip + 1) 1) = a.byteAt (a.ip + 1) := by
        simp [leNat]
      rw [hbyte]
      exact undefined_local h hlen hip (.inl ⟨rfl, rfl⟩)
  | LDEC =>
      obtain ⟨hip, rfl⟩ := decode_operand (n := 1) (f := fun i => .localAdd i.toNat (-1)) hdec
      have hbyte : BitVec.ofNat (8 * 1) (leNat a.byteAt (a.ip + 1) 1) = a.byteAt (a.ip + 1) := by
        simp [leNat]
      rw [hbyte]
      exact undefined_local h hlen hip (.inr ⟨rfl, rfl⟩)
  | LIT | LIT_U8 | LIT_I8 | LIT_I16 | LGET | LSET | LTEE | JMP | JZ | JNZ | CALL =>
      obtain ⟨-, rfl⟩ := decode_operand hdec
      exact undefined_of_none rfl
  -- what is left takes its operands from the data stack, or evaluates nothing
  | _ =>
      cases hdec
      first
        | exact undefined_of_none rfl
        | exact undefined_data h (by decide)

/-- The opcode the lists decode. -/
theorem decodeAt_eq (hlen : a.len ≤ a.bc.length) {op : Op} (hop : a.nextOp = some op) :
    decodeAt a = decodeOp a (a.ip + 1) op := by
  unfold Activation.nextOp at hop
  split at hop
  · next hip =>
      have hbyte : Op.ofByte (a.byteAt a.ip) = some op := by
        rwa [List.getElem?_eq_getElem (by omega), Option.bind_some,
          ← List.getD_eq_getElem _ 0 (by omega)] at hop
      rw [decodeAt, if_pos hip, hbyte]
  · cases hop

/-- What cannot be decoded is not evaluated. -/
theorem not_undefined_of_error (hlen : a.len ≤ a.bc.length) {e : Err}
    (hdec : decodeAt a = .error e) (m : Machine W) (cs : List Caller) :
    ¬ (Config.run m a cs).Undefined := by
  rintro ⟨_, _, _, op, x, y, heq, hop, hargs, -⟩
  cases heq
  rw [decodeAt_eq hlen hop] at hdec
  -- Of the opcodes with operands only `LINC` and `LDEC` can be cut off, and then they have none.
  have hcut : a.localIdx ≠ none → ¬ a.ip + 1 + 1 > a.len := by
    intro hidx hgt
    exact hidx (if_neg (by omega))
  have hlocal : (localOperand m a).map (fun v => (v, (0 : Cell))) = some (x, y) →
      a.localIdx ≠ none := by
    intro hargs hnone
    rw [localOperand, hnone] at hargs
    cases hargs
  cases op with
  | LINC | LDEC =>
      simp only [decodeOp, immediate] at hdec
      rw [if_neg (hcut (hlocal hargs))] at hdec
      cases hdec
  | _ =>
      first
        | cases hargs
        | cases hdec

/-- **One instruction.**  The lists stop in front of exactly the expressions without a value. -/
theorem undefined_iff_lists (h : Presents env s m) (hlen : a.len ≤ a.bc.length) {i : ListInstr}
    {q : Nat} (hdec : decodeAt a = .ok (i, q)) (cs : List Caller) :
    (Config.run m a cs).Undefined ↔ i.undefined s = true := by
  -- what decodes has an opcode
  obtain ⟨op, hop⟩ : ∃ op, a.nextOp = some op := by
    by_contra hnone
    have hnone : a.nextOp = none :=
      Option.eq_none_iff_forall_ne_some.mpr fun op hop => hnone ⟨op, hop⟩
    unfold Activation.nextOp at hnone
    unfold decodeAt at hdec
    split at hdec
    · next hip =>
        rw [if_pos hip, List.getElem?_eq_getElem (by omega), Option.bind_some,
          ← List.getD_eq_getElem _ 0 (by omega)] at hnone
        rw [show Op.ofByte (a.byteAt a.ip) = none from hnone] at hdec
        cases hdec
    · cases hdec
  rw [decodeAt_eq hlen hop] at hdec
  rw [undefined_op h hlen hdec]
  constructor
  · rintro ⟨_, _, _, op', x, y, heq, hop', hargs, hnone⟩
    cases heq
    cases hop.symm.trans hop'
    exact ⟨x, y, hargs, hnone⟩
  · rintro ⟨x, y, hargs, hnone⟩
    exact ⟨m, a, cs, op, x, y, rfl, hop, hargs, hnone⟩

end

end V4Engine
