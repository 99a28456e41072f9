/-
  V4Engine.Vm.Growth

  A program in a larger VM.

  `m.withStore st` is the machine `m` with another RAM and dictionary.  When these
  have room for what was there before, the RAM with the same content and the words
  under the same indices, a run can tell the difference only where it would have
  failed with `OobMemory` or `InvalidWordIdx` (`larger_vm_runs_alike`).  What lies
  beyond the old RAM is never written.  In particular registering further words
  changes no run of the old ones (`registration_keeps_runs`).
-/
import V4Engine.Vm.StackFrame
import V4Engine.Vm.CodeLength
import V4Engine.Lib.Iterate

namespace V4Engine

open Lib FaultM VmM

variable {W : Type}

/-! ## The relation -/

/-- The RAM and the dictionary of a VM. -/
structure Store where
  mem : Option Ram
  memSize : BitVec 32
  words : Nat → Word
  wordCount : Nat

def Vm.withStore (vm : Vm) (st : Store) : Vm :=
  { vm with mem := st.mem, memSize := st.memSize, words := st.words, wordCount := st.wordCount }

def Machine.withStore (m : Machine W) (st : Store) : Machine W :=
  { m with vm := m.vm.withStore st }

/-- `st` has room for the RAM and the words of `vm` and holds them.  Beyond the `n` bytes
    of that RAM it is as `st0`. -/
structure Vm.GrowsTo (n : BitVec 32) (st0 : Store) (vm : Vm) (st : Store) : Prop where
  size : vm.memSize = n
  memSize : n ≤ st.memSize
  ram : ∀ ram, vm.mem = some ram → ∃ ram', st.mem = some ram' ∧
    ∀ i, i < n.toNat → ram'.byte i = ram.byte i ∧ (i < ram.cap → i < ram'.cap)
  rest : ∀ ram0, st0.mem = some ram0 → ∃ ram', st.mem = some ram' ∧
    ∀ i, n.toNat ≤ i → ram'.byte i = ram0.byte i
  wordCount : vm.wordCount ≤ st.wordCount
  countFits : st.wordCount ≤ 256
  words : ∀ i, i < vm.wordCount → st.words i = vm.words i

/-- Equal but for the store, which is larger on the right. -/
def Grown (n : BitVec 32) (st0 : Store) (s t : Machine W) : Prop :=
  ∃ st, t = s.withStore st ∧ s.vm.GrowsTo n st0 st

/-- The two failures that a larger store may avoid. -/
def OfSize (e : V4Err) : Prop := e = Err.oobMemory.code ∨ e = Err.invalidWordIdx.code

/-- The simulation. -/
def grown (W : Type) (n : BitVec 32) (st0 : Store) : Sim V4Err (Machine W) (Machine W) where
  rel s t := Grown n st0 s t
  err e s t := e ≠ 0 ∧ Grown n st0 s t
  skip e := OfSize e

/-- The callbacks cannot tell machines apart of which one has the larger store. -/
structure Host.IgnoresGrowth (H : Host W) (n : BitVec 32) (st0 : Store) : Prop where
  sys : ∀ f i x y z s t, Grown n st0 s t → (H.sys f i x y z t).1 = (H.sys f i x y z s).1 ∧
    Grown n st0 (H.sys f i x y z s).2 (H.sys f i x y z t).2
  panic : ∀ f u info s t, Grown n st0 s t →
    Grown n st0 (H.panic f u info s) (H.panic f u info t)
  read32 : ∀ f u addr out s t, Grown n st0 s t →
    (H.read32 f u addr out t).1 = (H.read32 f u addr out s).1 ∧
    (H.read32 f u addr out t).2.1 = (H.read32 f u addr out s).2.1 ∧
    Grown n st0 (H.read32 f u addr out s).2.2 (H.read32 f u addr out t).2.2
  write32 : ∀ f u addr val s t, Grown n st0 s t →
    (H.write32 f u addr val t).1 = (H.write32 f u addr val s).1 ∧
    Grown n st0 (H.write32 f u addr val s).2 (H.write32 f u addr val t).2

/-! ## Every helper -/

section

variable {α β : Type} {H : Host W} {n : BitVec 32} {st0 : Store} {O : Machine W → Prop}

/-- The relation reads the store of the smaller VM only. -/
theorem Vm.GrowsTo.congr {vm vm' : Vm} {st : Store} (h : vm.GrowsTo n st0 st)
    (hmem : vm'.mem = vm.mem) (hsize : vm'.memSize = vm.memSize) (hwords : vm'.words = vm.words)
    (hcount : vm'.wordCount = vm.wordCount) : vm'.GrowsTo n st0 st where
  size := hsize.trans h.size
  memSize := h.memSize
  ram := hmem ▸ h.ram
  rest := h.rest
  wordCount := hcount ▸ h.wordCount
  countFits := h.countFits
  words := by rw [hcount, hwords]; exact h.words

/-- What is computed from the VM without its store. -/
theorem getVm_tracks_grown {k : Vm → VmM W α} (hk : ∀ vm st, k (vm.withStore st) = k vm)
    (h : ∀ vm, Tracks (grown W n st0) O (k vm) (k vm)) :
    Tracks (grown W n st0) O (getVm >>= k) (getVm >>= k) := by
  rintro s _ ⟨st, rfl, hg⟩
  have hrun := h s.vm s (s.withStore st) ⟨st, rfl, hg⟩
  rw [bind_ok (show getVm s = .ok s.vm s from rfl),
    bind_ok (show getVm (s.withStore st) = .ok (s.vm.withStore st) (s.withStore st) from rfl), hk]
  exact hrun

/-- An update that leaves the store alone. -/
theorem modifyVm_tracks_grown {u : Vm → Vm}
    (hu : ∀ vm st, u (vm.withStore st) = (u vm).withStore st)
    (hkeep : ∀ vm, (u vm).mem = vm.mem ∧ (u vm).memSize = vm.memSize ∧
      (u vm).words = vm.words ∧ (u vm).wordCount = vm.wordCount) :
    Exact (grown W n st0) (modifyVm u) (modifyVm u) := by
  rintro s _ ⟨st, rfl, hg⟩
  obtain ⟨hmem, hsize, hwords, hcount⟩ := hkeep s.vm
  refine .inr ⟨{ s with vm := u s.vm }.withStore st, ?_, st, rfl, hg.congr hmem hsize hwords hcount⟩
  exact congrArg (fun vm => Outcome.ok () { s with vm := vm }) (hu s.vm st)

theorem slot_tracks_grown (cap : Nat) (f : Nat → α) (i : Nat) :
    Exact (grown W n st0) (slot cap f i : VmM W α) (slot cap f i) := by
  refine .ite (fun _ => .pure _) fun _ => ?_
  exact fun _ _ _ => trivial

/-- Nothing is claimed once the left run fails for want of room. -/
theorem ofSize_panic {e : V4Err} (he : OfSize e) (s : Machine W)
    (y : Outcome V4Err (Machine W) α) :
    (grown W n st0).Matches O (vmPanic H e s : Outcome V4Err (Machine W) α) y := by
  rw [vmPanic_run]
  cases panicInfo s.vm e with
  | none => exact trivial
  | some info => exact .inl he

variable (hH : H.IgnoresGrowth n st0)
include hH

/-- Both take the same snapshot. -/
theorem grown_panics : PanicsTrack H (grown W n st0) := by
  rintro α e he s _ ⟨st, rfl, hg⟩
  rw [vmPanic_run, vmPanic_run]
  have hsnap : panicInfo (s.withStore st).vm e = panicInfo s.vm e := rfl
  rw [hsnap]
  cases panicInfo s.vm e with
  | none => exact trivial
  | some info =>
      refine .inr ⟨_, rfl, he, ?_⟩
      have hhandler : (s.withStore st).vm.panicHandler = s.vm.panicHandler := rfl
      unfold Machine.notified
      rw [hhandler]
      cases s.vm.panicHandler with
      | none => exact ⟨st, rfl, hg⟩
      | some f => exact hH.panic f _ info _ _ ⟨st, rfl, hg⟩

theorem dsPush_tracks_grown (v : Cell) : Exact (grown W n st0) (dsPush H v) (dsPush H v) :=
  getVm_tracks_grown (fun _ _ => rfl) fun _ => .ite (fun _ => grown_panics hH _ _ (by decide))
    fun _ => modifyVm_tracks_grown (fun _ _ => rfl) fun _ => ⟨rfl, rfl, rfl, rfl⟩

theorem dsPop_tracks_grown : Exact (grown W n st0) (dsPop H) (dsPop H) :=
  getVm_tracks_grown (fun _ _ => rfl) fun _ => .ite (fun _ => grown_panics hH _ _ (by decide))
    fun _ => .bind (slot_tracks_grown _ _ _) fun _ =>
      .bind (modifyVm_tracks_grown (fun _ _ => rfl) fun _ => ⟨rfl, rfl, rfl, rfl⟩) fun _ => .pure _

theorem dsPeek_tracks_grown (i : Nat) : Exact (grown W n st0) (dsPeek H i) (dsPeek H i) :=
  getVm_tracks_grown (fun _ _ => rfl) fun _ => .ite (fun _ => grown_panics hH _ _ (by decide))
    fun _ => slot_tracks_grown _ _ _

theorem grown_stack : StackTracks H (grown W n st0) fun _ => False where
  push := dsPush_tracks_grown hH
  pop := dsPop_tracks_grown hH
  peek := dsPeek_tracks_grown hH
  swap := .bind (dsPop_tracks_grown hH) fun v => .bind (dsPop_tracks_grown hH) fun w =>
    .bind (dsPush_tracks_grown hH v) fun _ => dsPush_tracks_grown hH w
  rsPush _ := getVm_tracks_grown (fun _ _ => rfl) fun _ =>
    .ite (fun _ => grown_panics hH _ _ (by decide)) fun _ =>
      modifyVm_tracks_grown (fun _ _ => rfl) fun _ => ⟨rfl, rfl, rfl, rfl⟩
  rsPop := getVm_tracks_grown (fun _ _ => rfl) fun _ =>
    .ite (fun _ => grown_panics hH _ _ (by decide)) fun _ =>
      .bind (slot_tracks_grown _ _ _) fun _ =>
        .bind (modifyVm_tracks_grown (fun _ _ => rfl) fun _ => ⟨rfl, rfl, rfl, rfl⟩) fun _ =>
          .pure _
  rsPeek _ := getVm_tracks_grown (fun _ _ => rfl) fun _ =>
    .ite (fun _ => grown_panics hH _ _ (by decide)) fun _ => slot_tracks_grown _ _ _
  divByZero := grown_panics hH _ _ (by decide)

/-! ### Local variables and callbacks -/

theorem localSlot_tracks_grown (idx : Nat) :
    Exact (grown W n st0) (localSlot H idx) (localSlot H idx) := by
  refine getVm_tracks_grown (fun _ _ => rfl) fun vm => ?_
  cases vm.fp with
  | none => exact grown_panics hH _ _ (by decide)
  | some fp => exact .ite (fun _ => grown_panics hH _ _ (by decide)) fun _ => .pure _

omit hH in
theorem setRs_tracks_grown (i : Nat) (v : Cell) :
    Exact (grown W n st0) (setRs i v) (setRs i v) := by
  rintro s _ ⟨st, rfl, hg⟩
  unfold setRs
  split
  · exact .inr ⟨_, rfl, st, rfl, hg.congr rfl rfl rfl rfl⟩
  · trivial

omit hH in
theorem getRs_tracks_grown (i : Nat) : Exact (grown W n st0) (getRs i) (getRs i) := by
  rintro s _ ⟨st, rfl, hg⟩
  unfold getRs
  split
  · exact .inr ⟨_, rfl, st, rfl, hg⟩
  · trivial

theorem grown_local : LocalTracks H (grown W n st0) fun _ => False where
  get idx := .bind (localSlot_tracks_grown hH idx) fun i => .bind (getRs_tracks_grown i) fun v =>
    dsPush_tracks_grown hH v
  set idx := .bind (localSlot_tracks_grown hH idx) fun i => .bind (dsPop_tracks_grown hH) fun v =>
    setRs_tracks_grown i v
  tee idx := .bind (localSlot_tracks_grown hH idx) fun i =>
    .bind (dsPeek_tracks_grown hH 0) fun v => setRs_tracks_grown i v
  add idx d := .bind (localSlot_tracks_grown hH idx) fun i => .bind (getRs_tracks_grown i) fun v =>
    setRs_tracks_grown i (v + d)

theorem sys_tracks_grown (i x y z : Cell) :
    Exact (grown W n st0) (v4InvokeSysHandler H i x y z) (v4InvokeSysHandler H i x y z) := by
  rintro s _ ⟨st, rfl, hg⟩
  have hhandler : (s.withStore st).gSysHandler = s.gSysHandler := rfl
  unfold v4InvokeSysHandler
  rw [hhandler]
  cases s.gSysHandler with
  | none => exact .inr ⟨_, rfl, st, rfl, hg⟩
  | some f =>
      obtain ⟨hr, hrel⟩ := hH.sys f i x y z s _ ⟨st, rfl, hg⟩
      refine .inr ⟨_, ?_, hrel⟩
      show Outcome.ok (H.sys f i x y z (s.withStore st)).1 _ = _
      rw [hr]

/-! ### Code -/

/-- A `CALL` finds the same word, if there is one in the smaller dictionary. -/
theorem callee_tracks_grown (idx : BitVec 16) :
    Exact (grown W n st0) (callee H idx) (callee H idx) := by
  rintro s _ ⟨st, rfl, hg⟩
  have hfits := Nat.le_trans hg.wordCount hg.countFits
  have hle := hg.wordCount
  have hbound := hg.countFits
  show (grown W n st0).Matches _
    ((if idx.toNat ≥ s.vm.wordCount % 65536 then _ else _ : VmM W Activation) s)
    ((if idx.toNat ≥ st.wordCount % 65536 then _ else _ : VmM W Activation) (s.withStore st))
  by_cases hin : idx.toNat ≥ s.vm.wordCount % 65536
  · -- the larger VM may have the word
    rw [if_pos hin]
    exact ofSize_panic (.inr rfl) s _
  · rw [if_neg hin, if_neg (by omega)]
    have hword : wordAt idx.toNat s = .ok (s.vm.words idx.toNat) s := if_pos (by omega)
    have hword' : wordAt idx.toNat (s.withStore st)
        = .ok (s.vm.words idx.toNat) (s.withStore st) := by
      rw [← hg.words idx.toNat (by omega)]
      exact if_pos (by omega)
    rw [bind_ok hword, bind_ok hword']
    have hP : PanicsTrack H (grown W n st0) := grown_panics hH
    cases (s.vm.words idx.toNat).code with
    | none => exact hP _ _ (by decide) s _ ⟨st, rfl, hg⟩
    | some code =>
        exact (Tracks.ite (fun _ => hP _ _ (by decide)) fun _ => .pure _) s _ ⟨st, rfl, hg⟩

theorem grown_code (a : Activation) : CodeTracks H (grown W n st0) a :=
  codeTracks_of_callee (grown_panics hH) (callee_tracks_grown hH) a

/-! ### Memory -/

omit hH in
/-- A byte inside the smaller RAM. -/
theorem ramByte_tracks_grown {i : Nat} (hi : i < n.toNat) :
    Exact (grown W n st0) (ramByte i) (ramByte i) := by
  rintro s _ ⟨st, rfl, hg⟩
  unfold ramByte
  cases hmem : s.vm.mem with
  | none => exact trivial
  | some ram =>
      obtain ⟨ram', hmem', hbyte⟩ := hg.ram ram hmem
      have hright : (s.withStore st).vm.mem = some ram' := hmem'
      rw [hright]
      by_cases hc : i < ram.cap
      · simp only [if_pos hc, if_pos ((hbyte i hi).2 hc), (hbyte i hi).1]
        exact .inr ⟨_, rfl, st, rfl, hg⟩
      · simp only [if_neg hc]
        exact trivial

omit hH in
theorem setRamByte_tracks_grown {i : Nat} (hi : i < n.toNat) (v : Byte) :
    Exact (grown W n st0) (setRamByte i v) (setRamByte i v) := by
  rintro s _ ⟨st, rfl, hg⟩
  unfold setRamByte
  cases hmem : s.vm.mem with
  | none => exact trivial
  | some ram =>
      obtain ⟨ram', hmem', hbyte⟩ := hg.ram ram hmem
      have hright : (s.withStore st).vm.mem = some ram' := hmem'
      rw [hright]
      by_cases hc : i < ram.cap
      · simp only [if_pos hc, if_pos ((hbyte i hi).2 hc)]
        refine .inr ⟨_, rfl, { st with mem := some { ram' with
          byte := Function.update ram'.byte i v } }, rfl, hg.size, hg.memSize, ?_, ?_,
          hg.wordCount, hg.countFits, hg.words⟩
        · intro ram1 h1
          cases h1
          refine ⟨_, rfl, fun j hj => ⟨?_, (hbyte j hj).2⟩⟩
          show Function.update ram'.byte i v j = Function.update ram.byte i v j
          by_cases hji : j = i
          · rw [hji, Function.update_self, Function.update_self]
          · rw [Function.update_of_ne hji, Function.update_of_ne hji]
            exact (hbyte j hj).1
        · -- the byte written is one of the smaller RAM
          intro ram0 h0
          obtain ⟨ram1, h1, hrest⟩ := hg.rest ram0 h0
          obtain rfl : ram' = ram1 := Option.some.inj (hmem'.symm.trans h1)
          refine ⟨_, rfl, fun j hj => ?_⟩
          show Function.update ram'.byte i v j = ram0.byte j
          have hji : j ≠ i := by omega
          rw [Function.update_of_ne hji]
          exact hrest j hj
      · simp only [if_neg hc]
        exact trivial

/-- An access whose left answer is `OobMemory`, or that is matched. -/
def Guarded (n : BitVec 32) (st0 : Store) (code : α → V4Err) (x : VmM W α) : Prop :=
  ∀ s t, Grown n st0 s t → (∃ r s', x s = .ok r s' ∧ code r = Err.oobMemory.code) ∨
    (grown W n st0).Matches (fun _ => False) (x s) (x t)

omit hH in
theorem Guarded.of_exact {code : α → V4Err} {x : VmM W α} (h : Exact (grown W n st0) x x) :
    Guarded n st0 code x := fun s t hst => .inr (h s t hst)

omit hH in
theorem Guarded.bind {code : β → V4Err} {x : VmM W α} {k : α → VmM W β}
    (hx : Exact (grown W n st0) x x) (hk : ∀ a, Guarded n st0 code (k a)) :
    Guarded n st0 code (x >>= k) := by
  intro s t hst
  have hrun := hx s t hst
  cases hs : x s with
  | ok a s' =>
      rw [hs] at hrun
      obtain hno | ⟨t', ht, hst'⟩ := hrun
      · exact hno.elim
      · rw [bind_ok hs, bind_ok ht]
        exact hk a s' t' hst'
  | err e s' =>
      rw [hs] at hrun
      rw [bind_err hs]
      obtain hskip | ⟨t', ht, hst'⟩ := hrun
      · exact .inr (.inl hskip)
      · rw [bind_err ht]
        exact .inr (.inr ⟨t', rfl, hst'⟩)
  | fault =>
      rw [bind_fault hs]
      exact .inr trivial

omit hH in
theorem check_tracks_grown (e : V4Err) :
    Exact (grown W n st0) (check e : VmM W Unit) (check e) := by
  refine .ite (fun he => ?_) fun _ => .pure _
  exact fun s t hst => .inr ⟨t, rfl, he, hst⟩

omit hH in
/-- What follows an access turns that answer into a failure left out. -/
theorem Guarded.checked {code : α → V4Err} {x : VmM W α} {k : α → VmM W β}
    (h : Guarded n st0 code x)
    (hout : ∀ r s, code r = Err.oobMemory.code → k r s = .err Err.oobMemory.code s)
    (hk : ∀ r, Exact (grown W n st0) (k r) (k r)) :
    Exact (grown W n st0) (x >>= k) (x >>= k) := by
  intro s t hst
  obtain ⟨r, s', hs, hr⟩ | hmatch := h s t hst
  · rw [bind_ok hs, hout r s' hr]
    exact .inl (.inl rfl)
  · exact hmatch.bind fun r s' t' _ _ hst' => hk r s' t' hst'

omit hH in
/-- The bounds check: past the smaller RAM the left access is refused. -/
theorem ramCheck_guarded {addr : Cell} {k : Nat} {r : V4Err → α} {code : α → V4Err}
    {x : VmM W α} (hr : ∀ e, code (r e) = e)
    (hx : addr.toNat + k ≤ n.toNat → Exact (grown W n st0) x x) :
    Guarded n st0 code (do
      let vm ← getVm
      if v4IsInRam vm addr k ≠ 0 then return r (v4IsInRam vm addr k) else x) := by
  rintro s _ ⟨st, rfl, hg⟩
  show (∃ r' s', (if v4IsInRam s.vm addr k ≠ 0 then _ else x : VmM W α) s = .ok r' s' ∧ _) ∨
    (grown W n st0).Matches _ ((if v4IsInRam s.vm addr k ≠ 0 then _ else x : VmM W α) s)
      ((if v4IsInRam (s.withStore st).vm addr k ≠ 0 then _ else x : VmM W α) (s.withStore st))
  by_cases hin : s.vm.mem.isSome ∧ addr.toNat + k ≤ s.vm.memSize.toNat
  · -- what fits the smaller RAM fits the larger one
    have hsize : addr.toNat + k ≤ n.toNat := hg.size ▸ hin.2
    have hleft : v4IsInRam s.vm addr k = 0 := if_pos hin
    obtain ⟨ram, hram⟩ := Option.isSome_iff_exists.mp hin.1
    obtain ⟨ram', hram', -⟩ := hg.ram ram hram
    have hright : v4IsInRam (s.withStore st).vm addr k = 0 := by
      refine if_pos ⟨?_, Nat.le_trans hsize hg.memSize⟩
      show st.mem.isSome
      rw [hram']
      rfl
    rw [hleft, hright]
    exact .inr (hx hsize s _ ⟨st, rfl, hg⟩)
  · have hleft : v4IsInRam s.vm addr k = Err.oobMemory.code := if_neg hin
    rw [hleft]
    exact .inl ⟨_, s, rfl, hr _⟩

omit hH in
theorem findMmio_tracks_grown (addr : Cell) :
    Exact (grown W n st0) (findMmio addr) (findMmio addr) := by
  have hfrom : ∀ k i, Exact (grown W n st0) (findMmioFrom addr i k) (findMmioFrom addr i k) := by
    intro k
    induction k with
    | zero => exact fun _ => .pure none
    | succ k ih =>
        intro i
        refine .bind ?_ fun w => .ite (fun _ => .pure _) fun _ => ih (i + 1)
        rintro s _ ⟨st, rfl, hg⟩
        unfold mmioAt
        split
        · exact .inr ⟨_, rfl, st, rfl, hg⟩
        · trivial
  exact getVm_tracks_grown (fun _ _ => rfl) fun vm => hfrom vm.mmioCount 0

theorem read32_guarded (addr out : Cell) :
    Guarded n st0 Prod.fst (v4MemRead32Core H addr out) := by
  refine .bind (findMmio_tracks_grown addr) fun w => ?_
  cases w with
  | some w =>
      refine .of_exact (.ite (fun _ => .pure _) fun _ => ?_)
      cases w.read32 with
      | none => exact .pure _
      | some f =>
          rintro s _ ⟨st, rfl, hg⟩
          obtain ⟨he, hv, hrel⟩ := hH.read32 f w.user addr out s _ ⟨st, rfl, hg⟩
          refine .inr ⟨_, ?_, hrel⟩
          show Outcome.ok ((H.read32 f w.user addr out (s.withStore st)).1,
            (H.read32 f w.user addr out (s.withStore st)).2.1) _ = _
          rw [he, hv]
  | none =>
      refine ramCheck_guarded (r := fun e => (e, out)) (fun _ => rfl) fun hin =>
        .ite (fun _ => .pure _) fun _ => .bind ?_ fun v => .pure _
      exact .bind (ramByte_tracks_grown (by omega)) fun _ => .bind (ramByte_tracks_grown (by omega))
        fun _ => .bind (ramByte_tracks_grown (by omega)) fun _ =>
          .bind (ramByte_tracks_grown (by omega)) fun _ => .pure _

theorem write32_guarded (addr val : Cell) :
    Guarded n st0 id (v4MemWrite32Core H addr val) := by
  refine .bind (findMmio_tracks_grown addr) fun w => ?_
  cases w with
  | some w =>
      refine .of_exact (.ite (fun _ => .pure _) fun _ => ?_)
      cases w.write32 with
      | none => exact .pure _
      | some f =>
          rintro s _ ⟨st, rfl, hg⟩
          obtain ⟨he, hrel⟩ := hH.write32 f w.user addr val s _ ⟨st, rfl, hg⟩
          refine .inr ⟨_, ?_, hrel⟩
          show Outcome.ok (H.write32 f w.user addr val (s.withStore st)).1 _ = _
          rw [he]
  | none =>
      refine ramCheck_guarded (r := id) (fun _ => rfl) fun hin =>
        .ite (fun _ => .pure _) fun _ => .bind ?_ fun v => .pure _
      exact .bind (setRamByte_tracks_grown (by omega) _) fun _ =>
        .bind (setRamByte_tracks_grown (by omega) _) fun _ =>
          .bind (setRamByte_tracks_grown (by omega) _) fun _ =>
            setRamByte_tracks_grown (by omega) _

omit hH in
theorem read16_guarded (addr out : Cell) :
    Guarded (W := W) n st0 Prod.fst (v4MemRead16Core addr out) := by
  refine ramCheck_guarded (r := fun e => (e, out)) (fun _ => rfl) fun hin =>
    .bind ?_ fun _ => .pure _
  exact .bind (ramByte_tracks_grown (by omega)) fun _ =>
    .bind (ramByte_tracks_grown (by omega)) fun _ => .pure _

omit hH in
theorem read8_guarded (addr out : Cell) :
    Guarded (W := W) n st0 Prod.fst (v4MemRead8Core addr out) :=
  ramCheck_guarded (r := fun e => (e, out)) (fun _ => rfl) fun hin =>
    .bind (ramByte_tracks_grown (by omega)) fun _ => .pure _

omit hH in
theorem write16_guarded (addr val : Cell) :
    Guarded (W := W) n st0 id (v4MemWrite16Core addr val) := by
  refine ramCheck_guarded (r := id) (fun _ => rfl) fun hin => .bind ?_ fun _ => .pure _
  exact .bind (setRamByte_tracks_grown (by omega) _) fun _ =>
    setRamByte_tracks_grown (by omega) _

omit hH in
theorem write8_guarded (addr val : Cell) :
    Guarded (W := W) n st0 id (v4MemWrite8Core addr val) :=
  ramCheck_guarded (r := id) (fun _ => rfl) fun hin =>
    .bind (setRamByte_tracks_grown (by omega) _) fun _ => .pure _

theorem loadOp_tracks_grown {core : Cell → Cell → VmM W (V4Err × Cell)}
    (hc : ∀ addr out, Guarded n st0 Prod.fst (core addr out)) (ext : Cell → Cell) :
    Exact (grown W n st0) (loadOp H core ext) (loadOp H core ext) := by
  refine .bind (dsPop_tracks_grown hH) fun addr => (hc addr 0).checked (fun r s hr => ?_) fun r =>
    .bind (check_tracks_grown r.1) fun _ => dsPush_tracks_grown hH (ext r.2)
  obtain ⟨e, v⟩ := r
  obtain rfl : e = Err.oobMemory.code := hr
  rfl

theorem storeOp_tracks_grown {core : Cell → Cell → VmM W V4Err}
    (hc : ∀ addr val, Guarded n st0 id (core addr val)) :
    Exact (grown W n st0) (storeOp H core) (storeOp H core) := by
  refine .bind (dsPop_tracks_grown hH) fun addr => .bind (dsPop_tracks_grown hH) fun val =>
    (hc addr val).checked (fun e s he => ?_) fun e => check_tracks_grown e
  obtain rfl : e = Err.oobMemory.code := he
  rfl

theorem grown_loadStore : LoadStoreTracks H (grown W n st0) fun _ => False where
  load32 := loadOp_tracks_grown hH (read32_guarded hH)
  load16 := loadOp_tracks_grown hH read16_guarded
  load8 := loadOp_tracks_grown hH read8_guarded
  store32 := storeOp_tracks_grown hH (write32_guarded hH)
  store16 := storeOp_tracks_grown hH write16_guarded
  store8 := storeOp_tracks_grown hH write8_guarded

/-- **One instruction.**  Outside the task group it keeps the relation. -/
theorem fetch_tracks_grown {a : Activation} (hop : ∀ op, a.nextOp = some op → op.isTask = false) :
    Exact (grown W n st0) (fetch H a) (fetch H a) := by
  refine fetch_tracks_of (grown_panics hH) fun op hnext => ?_
  exact execOp_tracks_of (grown_stack hH) (grown_code hH a) (fun _ => grown_local hH)
    (grown_loadStore hH) (fun _ => sys_tracks_grown hH)
    (fun h => Bool.noConfusion ((hop op hnext).symm.trans h))

end

/-! ## Runs -/

/-- The relation between configurations. -/
def Config.Grown (n : BitVec 32) (st0 : Store) : Config W → Config W → Prop
  | .run s cur cs, d => ∃ t, d = .run t cur cs ∧ V4Engine.Grown n st0 s t
  | .poll w s cur cs, d => ∃ t, d = .poll w t cur cs ∧ V4Engine.Grown n st0 s t
  | .ret e s cs, d => ∃ t, d = .ret e t cs ∧ V4Engine.Grown n st0 s t
  | .fault, _ => True

section

variable {H : Host W} {n : BitVec 32} {st0 : Store}

theorem Grown.setFp {s t : Machine W} (h : Grown n st0 s t) (fp : Option Nat) :
    Grown n st0 (s.setFp fp) (t.setFp fp) := by
  obtain ⟨st, rfl, hg⟩ := h
  exact ⟨st, rfl, hg.congr rfl rfl rfl rfl⟩

theorem grown_settle (cur : Activation) (cs : List Caller) {x y : Outcome V4Err (Machine W) Flow}
    (h : (grown W n st0).Matches (fun _ => False) x y) :
    (settle cur cs x).Grown n st0 (settle cur cs y) ∨
      ∃ e m, settle cur cs x = .ret e m cs ∧ OfSize e := by
  match x, h with
  | .ok f s, h =>
      obtain hno | ⟨t, rfl, hst⟩ := h
      · exact hno.elim
      · left
        cases f with
        | next ip => exact ⟨t, rfl, hst⟩
        | ret => exact ⟨t, rfl, hst⟩
        | wait w ip => exact ⟨t, rfl, hst⟩
        | call c ip =>
            obtain ⟨st, rfl, hg⟩ := hst
            exact ⟨_, rfl, st, rfl, hg.congr rfl rfl rfl rfl⟩
  | .err e s, h =>
      obtain hskip | ⟨t, rfl, hst⟩ := h
      · exact .inr ⟨e, s, rfl, hskip⟩
      · exact .inl ⟨t, rfl, hst.2⟩
  | .fault, _ => exact .inl trivial

/-- **One step** of the smaller run is matched by one step of the larger run. -/
theorem Config.Grown.step (hH : H.IgnoresGrowth n st0) {c d c' : Config W} (h : c.Grown n st0 d)
    (hc : c.NoTask) (hs : Step H c c') :
    (∃ d', Step H d d' ∧ c'.Grown n st0 d') ∨ ∃ e m cs, c' = .ret e m cs ∧ e ≠ 0 ∧ OfSize e := by
  obtain ⟨s, cur, cs, rfl, rfl⟩ | ⟨w, s, cur, cs, rfl, -⟩ | ⟨s, x, cs, rfl, rfl⟩
    | ⟨e, s, x, cs, he, rfl, rfl⟩ := hs.cases
  · obtain ⟨t, rfl, hst⟩ := h
    obtain hd | ⟨e, m, heq, hsize⟩ := grown_settle cur cs (fetch_tracks_grown hH hc s t hst)
    · exact .inl ⟨_, rfl, hd⟩
    · refine .inr ⟨e, m, cs, heq, ?_, hsize⟩
      rcases hsize with rfl | rfl <;> decide
  · exact hc.elim
  · obtain ⟨t, rfl, hst⟩ := h
    exact .inl ⟨_, rfl, _, rfl, hst.setFp x.oldFp⟩
  · obtain ⟨t, rfl, hst⟩ := h
    exact .inl ⟨_, if_neg he, _, rfl, hst.setFp x.oldFp⟩

/-- **The run rule.**  Every configuration of the smaller run is matched after as many
    steps, unless an activation failed for want of room. -/
theorem Config.Grown.iterate (hH : H.IgnoresGrowth n st0) {c0 d0 c : Config W} {k : Nat}
    (h0 : c0.Grown n st0 d0) (hops : ∀ c, Reaches H c0 c → c.NoTask)
    (h : Lib.iterate (V4Engine.step H) k c0 = some c) :
    (∃ d, Lib.iterate (V4Engine.step H) k d0 = some d ∧ c.Grown n st0 d) ∨
      ∃ e m cs, c = .ret e m cs ∧ e ≠ 0 ∧ OfSize e := by
  obtain ⟨d, hd, hcd, -⟩ | hskipped := iterate_lockstep (R := fun c d => c.Grown n st0 d ∧
      Reaches H c0 c) (E := fun c => ∃ e m cs, c = Config.ret e m cs ∧ e ≠ 0 ∧ OfSize e)
    (fun c d c' ⟨hcd, hc⟩ hs => (hcd.step hH (hops c hc) hs).imp_left fun ⟨d', hd', hcd'⟩ =>
      ⟨d', hd', hcd', hc.tail hs⟩)
    (fun c c' hc hs => skipped_step hc hs) ⟨h0, .refl⟩ h
  · exact .inl ⟨d, hd, hcd⟩
  · exact .inr hskipped

/-- A return is matched by the same return. -/
theorem Vm.GrowsTo.returns {m m' : Machine W} {st : Store} {e : V4Err}
    (hroom : m.vm.GrowsTo m.vm.memSize st st) (hH : H.IgnoresGrowth m.vm.memSize st)
    (bc : List Byte) (len : Nat) (hops : ∀ c, Reaches H (.start m bc len) c → c.NoTask)
    (he : ¬ OfSize e) (hret : Returns H m bc len e m') :
    ∃ st', Returns H (m.withStore st) bc len e (m'.withStore st') ∧
      m'.vm.GrowsTo m.vm.memSize st st' := by
  have h0 : (Config.start m bc len).Grown m.vm.memSize st (.start (m.withStore st) bc len) :=
    ⟨_, rfl, st, rfl, hroom⟩
  obtain ⟨k, hk⟩ := reaches_iff_iterate.mp hret
  obtain ⟨d, hd, _, rfl, st', rfl, hg⟩ | ⟨e', _, _, heq, -, hsize⟩ := h0.iterate hH hops hk
  · exact ⟨st', reaches_iff_iterate.mpr ⟨k, hd⟩, hg⟩
  · cases heq
    exact absurd hsize he

end

/-- **A larger VM.**  A program that executes no task opcode does in a larger VM what it does
    in the smaller one, unless it fails there with `OobMemory` or `InvalidWordIdx`: it returns
    the same code with the same stacks, frame pointer and RAM, and the rest of the larger RAM
    untouched, or goes on for ever in both. -/
theorem larger_vm_runs_alike {H : Host W} {m : Machine W} {st : Store}
    (hroom : m.vm.GrowsTo m.vm.memSize st st) (hH : H.IgnoresGrowth m.vm.memSize st)
    (bc : List Byte) (len : Nat) (hops : ∀ c, Reaches H (.start m bc len) c → c.NoTask) :
    (∀ e m', ¬ OfSize e → Returns H m bc len e m' →
      ∃ st', Returns H (m.withStore st) bc len e (m'.withStore st') ∧
        m'.vm.GrowsTo m.vm.memSize st st') ∧
    ((Config.start m bc len).Diverges H → (Config.start (m.withStore st) bc len).Diverges H) := by
  have h0 : (Config.start m bc len).Grown m.vm.memSize st (.start (m.withStore st) bc len) :=
    ⟨_, rfl, st, rfl, hroom⟩
  refine ⟨fun e m' he hret => hroom.returns hH bc len hops he hret, fun hdiv => ?_⟩
  refine reaches_forever_iff.mpr fun k => ?_
  obtain ⟨c, hc⟩ := reaches_forever_iff.mp hdiv k
  obtain ⟨d, hd, -⟩ | ⟨e, m', cs, rfl, he, -⟩ := h0.iterate hH hops hc
  · exact ⟨d, hd⟩
  · -- an error is handed through the callers, and then the run is over
    obtain ⟨m'', hend⟩ := ret_unwinds (H := H) he cs m'
    obtain ⟨c', hs⟩ := hdiv _ ((reaches_iff_iterate.mpr ⟨k, hc⟩).trans hend)
    cases hs

theorem Host.silent_ignoresGrowth (n : BitVec 32) (st0 : Store) :
    Host.silent.IgnoresGrowth n st0 where
  sys _ _ _ _ _ _ _ h := ⟨rfl, h⟩
  panic _ _ _ _ _ h := h
  read32 _ _ _ _ _ _ h := ⟨rfl, rfl, h⟩
  write32 _ _ _ _ _ _ h := ⟨rfl, h⟩

/-- Four bytes of RAM and the word `LIT1; LIT0; STORE; RET`. -/
def smallVm : Vm :=
  { Vm.blank with
    mem := some ⟨4, fun _ => 0⟩
    memSize := 4
    words := fun _ => ⟨some [0x74, 0x73, 0x31, 0x51], 4⟩
    wordCount := 1 }

/-- Sixteen bytes, zero where `smallVm` has its four, and one more word. -/
def largerStore : Store where
  mem := some ⟨16, fun i => if i < 4 then 0 else 7⟩
  memSize := 16
  words i := if i = 0 then ⟨some [0x74, 0x73, 0x31, 0x51], 4⟩ else ⟨some [0x51], 1⟩
  wordCount := 2

/-- `CALL 0; RET` writes the RAM in both, and nothing beyond the four bytes. -/
theorem larger_vm_runs_alike_store : ∃ m' st',
    Returns Host.silent (.boot smallVm) [0x50, 0, 0, 0x51] 4 0 m' ∧
      Returns Host.silent ((Machine.boot smallVm).withStore largerStore) [0x50, 0, 0, 0x51] 4 0
        (m'.withStore st') ∧
      (m'.vm.mem.map fun ram => ram.byte 0) = some 1 ∧ m'.vm.GrowsTo 4 largerStore st' := by
  have hroom : smallVm.GrowsTo 4 largerStore largerStore := by
    refine ⟨rfl, by decide, fun ram hram => ?_, fun ram hram => ⟨ram, hram, fun _ _ => rfl⟩,
      by decide, by decide, fun i hi => ?_⟩
    · obtain rfl := Option.some.inj hram
      refine ⟨_, rfl, fun i hi => ⟨if_pos hi, fun hcap => Nat.lt_trans hcap (by decide)⟩⟩
    · exact if_pos (Nat.lt_one_iff.mp hi)
  have hrun : iterate (step Host.silent) 7 (.start (.boot smallVm) [0x50, 0, 0, 0x51] 4)
      = some (.ret 0 _ []) := rfl
  have hops : ∀ c, Reaches Host.silent (.start (.boot smallVm) [0x50, 0, 0, 0x51] 4) c →
      c.NoTask := by
    -- the eight configurations of the run, one by one
    intro c hc
    obtain ⟨k, hk⟩ := reaches_iff_iterate.mp hc
    have hle := iterate_le_of_final hrun rfl hk
    obtain _ | _ | _ | _ | _ | _ | _ | _ | k := k
    case succ => omega
    all_goals
      cases hk
      first
        | trivial
        | rintro op ⟨⟩
          rfl
  have hret := reaches_iff_iterate.mpr ⟨7, hrun⟩
  obtain ⟨st', hret', hgrows⟩ := (larger_vm_runs_alike (m := .boot smallVm) hroom
    (Host.silent_ignoresGrowth 4 largerStore) _ _ hops).1 0 _ (by unfold OfSize; decide) hret
  exact ⟨_, st', hret, hret', rfl, hgrows⟩

/-- **More words.**  Registering further words, whatever becomes of each registration,
    changes no run of the words already there that executes no task opcode and does not fail
    with `InvalidWordIdx` or `OobMemory`. -/
theorem registration_keeps_runs {H : Host W} {m : Machine W} {bytes : CodePtr → List Byte}
    {d d' : Dictionary} (hcarries : m.vm.Carries bytes d) (hbound : d.wordCount ≤ 256)
    {later : List Registration} (hlater : exec registerStep later d = some d')
    (hH : ∀ st, H.IgnoresGrowth m.vm.memSize st) (bc : List Byte) (len : Nat)
    (hops : ∀ c, Reaches H (.start m bc len) c → c.NoTask) {e : V4Err} {m' : Machine W}
    (he : ¬ OfSize e) (hret : Returns H m bc len e m') :
    ∃ st', Returns H { m with vm := m.vm.holding bytes d' } bc len e (m'.withStore st') := by
  obtain ⟨hkept, hbound'⟩ := registrations_keep hlater
  -- the store after the registrations: the same RAM, and words behind the old ones
  let st : Store :=
    { mem := m.vm.mem
      memSize := m.vm.memSize
      words := fun i => ⟨(d'.words i).code.map bytes, (d'.words i).codeLen⟩
      wordCount := d'.wordCount }
  have hroom : m.vm.GrowsTo m.vm.memSize st st := by
    refine ⟨rfl, Nat.le_refl _, fun ram hram => ⟨ram, hram, fun i _ => ⟨rfl, id⟩⟩,
      fun ram hram => ⟨ram, hram, fun i _ => rfl⟩, ?_, hbound' hbound, fun i hi => ?_⟩
    · rw [hcarries.wordCount]
      exact hkept.count
    · rw [hcarries.wordCount] at hi
      rw [hcarries.words i hi, ← hkept.words i hi]
  obtain ⟨st', hret', -⟩ := hroom.returns (hH st) bc len hops he hret
  exact ⟨st', hret'⟩

end V4Engine
