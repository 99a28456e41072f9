/-
  V4Engine.Vm.TrackRules

  Two runs in lockstep, helper by helper: what two related machines have to
  share so that the code reads, the panics and the memory accessors of one are
  matched by those of the other.

  The counterpart of `HelperRules` for `execOp_tracks`.
-/
import V4Engine.Vm.HelperRules

namespace V4Engine

open Lib FaultM VmM

variable {W : Type} {H : Host W} {S : Sim V4Err (Machine W) (Machine W)} {O : Machine W → Prop}

/-- A failure is reported alike by both. -/
def PanicsTrack (H : Host W) (S : Sim V4Err (Machine W) (Machine W)) : Prop :=
  ∀ (α : Type) (e : V4Err), e ≠ 0 → Exact S (vmPanic H e : VmM W α) (vmPanic H e)

/-! ## Code -/

theorem codeByte_tracks (a : Activation) (i : Nat) : Exact S (codeByte a i) (codeByte a i) := by
  unfold codeByte
  cases a.bc[i]? with
  | none => exact fun _ _ _ => trivial
  | some v => exact .pure v

/-- The checks of a `CALL`, when both have the same dictionary. -/
theorem callee_tracks (P : PanicsTrack H S)
    (hwords : ∀ s t, S.rel s t → t.vm.words = s.vm.words ∧ t.vm.wordCount = s.vm.wordCount)
    (idx : BitVec 16) : Exact S (callee H idx) (callee H idx) := by
  have hword : Exact S (wordAt idx.toNat) (wordAt idx.toNat) := by
    intro s t hst
    unfold wordAt
    rw [(hwords s t hst).1]
    by_cases h : idx.toNat < 256
    · rw [if_pos h, if_pos h]
      exact .inr ⟨t, rfl, hst⟩
    · rw [if_neg h]
      exact trivial
  intro s t hst
  show S.Matches _
    ((if idx.toNat ≥ s.vm.wordCount % 65536 then _ else _ : VmM W Activation) s)
    ((if idx.toNat ≥ t.vm.wordCount % 65536 then _ else _ : VmM W Activation) t)
  rw [(hwords s t hst).2]
  refine (Tracks.ite (fun _ => P _ _ (by decide)) fun _ => .bind hword fun w => ?_) s t hst
  cases w.code with
  | none => exact P _ _ (by decide)
  | some code => exact .ite (fun _ => P _ _ (by decide)) fun _ => .pure _

/-- The code reads of one activation do not look at the VM; a `CALL` does. -/
theorem codeTracks_of_callee (P : PanicsTrack H S)
    (hcallee : ∀ idx, Exact S (callee H idx) (callee H idx)) (a : Activation) :
    CodeTracks H S a where
  imm8 ip := .ite (fun _ => P _ _ (by decide)) fun _ => codeByte_tracks a ip
  imm16 e he ip := .ite (fun _ => P _ _ (Err.code_ne_zero he)) fun _ =>
    .bind (codeByte_tracks a _) fun _ => .bind (codeByte_tracks a _) fun _ => .pure _
  imm32 ip := .ite (fun _ => P _ _ (by decide)) fun _ =>
    .bind (codeByte_tracks a _) fun _ => .bind (codeByte_tracks a _) fun _ =>
      .bind (codeByte_tracks a _) fun _ => .bind (codeByte_tracks a _) fun _ => .pure _
  jumpTo ip off := .ite (fun _ => P _ _ (by decide)) fun _ => .pure _
  callee := hcallee

theorem codeTracks_of_panics (P : PanicsTrack H S)
    (hwords : ∀ s t, S.rel s t → t.vm.words = s.vm.words ∧ t.vm.wordCount = s.vm.wordCount)
    (a : Activation) : CodeTracks H S a := codeTracks_of_callee P (callee_tracks P hwords) a

/-- One turn of the loop, once the instruction it fetches is matched. -/
theorem fetch_tracks_of (P : PanicsTrack H S) {a : Activation}
    (hexec : ∀ op, a.nextOp = some op →
      Tracks S O (execOp H a (a.ip + 1) op) (execOp H a (a.ip + 1) op)) :
    Tracks S O (fetch H a) (fetch H a) := by
  have panic : ∀ e : V4Err, e ≠ 0 → Tracks S O (vmPanic H e : VmM W Flow) (vmPanic H e) :=
    fun e he => (P _ e he).weaken fun _ h => h.elim
  refine .ite (fun hlt => ?_) fun _ => panic _ (by decide)
  intro s t hst
  refine (codeByte_tracks a a.ip s t hst).bind fun v s' t' hv _ hst' => ?_
  have hb : a.bc[a.ip]? = some v := by
    unfold codeByte at hv
    cases hbyte : a.bc[a.ip]? with
    | none => rw [hbyte] at hv; cases hv
    | some w => rw [hbyte] at hv; cases hv; rfl
  cases hdec : Op.ofByte v with
  | none => exact panic _ (by decide) s' t' hst'
  | some op => exact hexec op (Activation.nextOp_eq hlt hb hdec) s' t' hst'

/-! ## Memory -/

/-- Related machines have the same RAM and the same MMIO table, their callbacks answer
    alike, and a new content of the RAM keeps them related. -/
structure MemoryShared (H : Host W) (S : Sim V4Err (Machine W) (Machine W)) : Prop where
  mem : ∀ s t, S.rel s t → t.vm.mem = s.vm.mem
  memSize : ∀ s t, S.rel s t → t.vm.memSize = s.vm.memSize
  mmio : ∀ s t, S.rel s t → t.vm.mmio = s.vm.mmio
  mmioCount : ∀ s t, S.rel s t → t.vm.mmioCount = s.vm.mmioCount
  store : ∀ s t mem, S.rel s t → S.rel { s with vm := { s.vm with mem := mem } }
    { t with vm := { t.vm with mem := mem } }
  read32 : ∀ f u addr out s t, S.rel s t →
    (H.read32 f u addr out t).1 = (H.read32 f u addr out s).1 ∧
    (H.read32 f u addr out t).2.1 = (H.read32 f u addr out s).2.1 ∧
    S.rel (H.read32 f u addr out s).2.2 (H.read32 f u addr out t).2.2
  write32 : ∀ f u addr val s t, S.rel s t →
    (H.write32 f u addr val t).1 = (H.write32 f u addr val s).1 ∧
    S.rel (H.write32 f u addr val s).2 (H.write32 f u addr val t).2
  fails : ∀ e s t, e ≠ 0 → S.rel s t → S.err e s t

namespace MemoryShared

variable (A : MemoryShared H S)
include A

theorem ramByte (i : Nat) : Exact S (ramByte i) (ramByte i) := by
  intro s t hst
  unfold V4Engine.ramByte
  rw [A.mem s t hst]
  cases s.vm.mem with
  | none => exact trivial
  | some ram =>
      by_cases hi : i < ram.cap
      · simp only [if_pos hi]
        exact .inr ⟨t, rfl, hst⟩
      · simp only [if_neg hi]
        exact trivial

theorem setRamByte (i : Nat) (v : Byte) : Exact S (setRamByte i v) (setRamByte i v) := by
  intro s t hst
  unfold V4Engine.setRamByte
  rw [A.mem s t hst]
  cases s.vm.mem with
  | none => exact trivial
  | some ram =>
      by_cases hi : i < ram.cap
      · simp only [if_pos hi]
        exact .inr ⟨_, rfl, A.store s t _ hst⟩
      · simp only [if_neg hi]
        exact trivial

theorem findMmioFrom (addr : Cell) (k : Nat) :
    ∀ i, Exact S (findMmioFrom addr i k) (findMmioFrom addr i k) := by
  induction k with
  | zero => exact fun _ => .pure none
  | succ k ih =>
      intro i
      have hat : Exact S (mmioAt i) (mmioAt i) := by
        intro s t hst
        unfold mmioAt
        rw [A.mmio s t hst]
        by_cases hi : i < 16
        · rw [if_pos hi, if_pos hi]
          exact .inr ⟨t, rfl, hst⟩
        · rw [if_neg hi]
          exact trivial
      exact .bind hat fun w => .ite (fun _ => .pure _) fun _ => ih (i + 1)

theorem findMmio (addr : Cell) : Exact S (findMmio addr) (findMmio addr) := by
  intro s t hst
  show S.Matches _ (V4Engine.findMmioFrom addr 0 s.vm.mmioCount s)
    (V4Engine.findMmioFrom addr 0 t.vm.mmioCount t)
  rw [A.mmioCount s t hst]
  exact A.findMmioFrom addr s.vm.mmioCount 0 s t hst

/-- The RAM check decides alike on both sides. -/
theorem ramCheck {α : Type} {addr : Cell} {n : Nat} {r : V4Err → α} {x y : VmM W α}
    (h : Exact S x y) :
    Exact S
      (do let vm ← getVm
          if v4IsInRam vm addr n ≠ 0 then return r (v4IsInRam vm addr n) else x)
      (do let vm ← getVm
          if v4IsInRam vm addr n ≠ 0 then return r (v4IsInRam vm addr n) else y) := by
  intro s t hst
  have heq : v4IsInRam t.vm addr n = v4IsInRam s.vm addr n := by
    rw [v4IsInRam, v4IsInRam, A.mem s t hst, A.memSize s t hst]
  show S.Matches _
    ((if v4IsInRam s.vm addr n ≠ 0 then pure (r (v4IsInRam s.vm addr n)) else x : VmM W α) s)
    ((if v4IsInRam t.vm addr n ≠ 0 then pure (r (v4IsInRam t.vm addr n)) else y : VmM W α) t)
  rw [heq]
  exact (Tracks.ite (fun _ => .pure _) fun _ => h) s t hst

theorem ldLe32 (addr : Nat) : Exact S (ldLe32 addr) (ldLe32 addr) :=
  .bind (A.ramByte _) fun _ => .bind (A.ramByte _) fun _ => .bind (A.ramByte _) fun _ =>
    .bind (A.ramByte _) fun _ => .pure _

theorem stLe32 (addr : Nat) (v : Cell) : Exact S (stLe32 addr v) (stLe32 addr v) :=
  .bind (A.setRamByte _ _) fun _ => .bind (A.setRamByte _ _) fun _ =>
    .bind (A.setRamByte _ _) fun _ => A.setRamByte _ _

theorem callRead32 (f : FnPtr) (user : HostPtr) (addr out : Cell) :
    Exact S (callRead32 H f user addr out) (callRead32 H f user addr out) := by
  intro s t hst
  obtain ⟨he, hv, hrel⟩ := A.read32 f user addr out s t hst
  refine .inr ⟨_, ?_, hrel⟩
  show Outcome.ok ((H.read32 f user addr out t).1, (H.read32 f user addr out t).2.1) _ = _
  rw [he, hv]

theorem callWrite32 (f : FnPtr) (user : HostPtr) (addr val : Cell) :
    Exact S (callWrite32 H f user addr val) (callWrite32 H f user addr val) := by
  intro s t hst
  obtain ⟨he, hrel⟩ := A.write32 f user addr val s t hst
  refine .inr ⟨_, ?_, hrel⟩
  show Outcome.ok (H.write32 f user addr val t).1 _ = _
  rw [he]

/-- **The accessors** are matched by themselves. -/
theorem memoryTracks : MemoryTracks H S where
  read32 addr out := by
    refine .bind (A.findMmio addr) fun r => ?_
    cases r with
    | some w =>
        refine .ite (fun _ => .pure _) fun _ => ?_
        cases w.read32 with
        | none => exact .pure _
        | some f => exact A.callRead32 f w.user addr out
    | none =>
        exact A.ramCheck (r := fun e => (e, out)) (.ite (fun _ => .pure _) fun _ =>
          .bind (A.ldLe32 _) fun _ => .pure _)
  read16 addr out := A.ramCheck (r := fun e => (e, out))
    (.bind (.bind (A.ramByte _) fun _ => .bind (A.ramByte _) fun _ => .pure _) fun _ => .pure _)
  read8 addr out := A.ramCheck (r := fun e => (e, out)) (.bind (A.ramByte _) fun _ => .pure _)
  write32 addr val := by
    refine .bind (A.findMmio addr) fun r => ?_
    cases r with
    | some w =>
        refine .ite (fun _ => .pure _) fun _ => ?_
        cases w.write32 with
        | none => exact .pure _
        | some f => exact A.callWrite32 f w.user addr val
    | none =>
        exact A.ramCheck (r := id) (.ite (fun _ => .pure _) fun _ =>
          .bind (A.stLe32 _ val) fun _ => .pure _)
  write16 addr val := A.ramCheck (r := id)
    (.bind (.bind (A.setRamByte _ _) fun _ => A.setRamByte _ _) fun _ => .pure _)
  write8 addr val := A.ramCheck (r := id) (.bind (A.setRamByte _ _) fun _ => .pure _)
  check e := by
    refine .ite (fun he => ?_) fun _ => .pure ()
    exact fun s t hst => .inr ⟨t, rfl, A.fails e s t he hst⟩

end MemoryShared

end V4Engine
