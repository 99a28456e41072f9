/-
  V4Engine.Vm.Lockstep

  Two runs of the same code, one on deeper stacks.

  `deeper W b q` relates a machine to one whose data stack has `b`, and whose
  return stack has `q`, underneath, the frame pointer moved up accordingly.  The
  scheduler, the message queue and the task buffers are not compared.  Every
  instruction outside the task group keeps the relation.  With `b` and `q` empty
  it does so without exception; otherwise the runs part where the shallow one
  underflows or overflows, and where the deep one gets past the end of an array.
-/
import V4Engine.Vm.RunRules
import V4Engine.Vm.TrackRules

namespace V4Engine

open Lib FaultM VmM

variable {W : Type}

/-! ## The relation -/

/-- `vm'` is `vm` with `b` and `q` underneath its stacks. -/
structure Deeper (b q : List Cell) (vm vm' : Vm) : Prop where
  ds : OnTop b vm.DS vm.sp vm'.DS vm'.sp
  rs : OnTop q vm.RS vm.rp vm'.RS vm'.rp
  dsFits : vm'.sp ≤ 256
  rsFits : vm'.rp ≤ 64
  fp : vm'.fp = vm.fp.map (q.length + ·)
  mem : vm'.mem = vm.mem
  memSize : vm'.memSize = vm.memSize
  mmio : vm'.mmio = vm.mmio
  mmioCount : vm'.mmioCount = vm.mmioCount
  words : vm'.words = vm.words
  wordCount : vm'.wordCount = vm.wordCount
  panicHandler : vm'.panicHandler = vm.panicHandler
  panicUserData : vm'.panicUserData = vm.panicUserData

/-- There is something underneath. -/
def Framed (b q : List Cell) : Prop := b ≠ [] ∨ q ≠ []

/-- The simulation.  After an error only the VMs are compared: the panic handler
    may have seen different stacks. -/
def deeper (W : Type) (b q : List Cell) : Sim V4Err (Machine W) (Machine W) where
  rel s t := Deeper b q s.vm t.vm ∧ t.world = s.world ∧ t.gSysHandler = s.gSysHandler
  err e s t := e ≠ 0 ∧ Deeper b q s.vm t.vm
  skip e := Framed b q ∧ (e = Err.stackOverflow.code ∨ e = Err.stackUnderflow.code)

/-- The deep machine would be past the end of an array. -/
def OverLimit (b q : List Cell) (s : Machine W) : Prop :=
  Framed b q ∧ (256 < b.length + s.vm.sp ∨ 64 < q.length + s.vm.rp)

namespace Deeper

variable {b q : List Cell} {vm vm' : Vm} (h : Deeper b q vm vm')
include h

theorem withDs {DS DS' : Nat → Cell} {sp sp' : Nat} (hds : OnTop b DS sp DS' sp')
    (hfit : sp' ≤ 256) :
    Deeper b q { vm with DS := DS, sp := sp } { vm' with DS := DS', sp := sp' } :=
  ⟨hds, h.rs, hfit, h.rsFits, h.fp, h.mem, h.memSize, h.mmio, h.mmioCount, h.words, h.wordCount,
    h.panicHandler, h.panicUserData⟩

theorem withRs {RS RS' : Nat → Cell} {rp rp' : Nat} (hrs : OnTop q RS rp RS' rp')
    (hfit : rp' ≤ 64) :
    Deeper b q { vm with RS := RS, rp := rp } { vm' with RS := RS', rp := rp' } :=
  ⟨h.ds, hrs, h.dsFits, hfit, h.fp, h.mem, h.memSize, h.mmio, h.mmioCount, h.words, h.wordCount,
    h.panicHandler, h.panicUserData⟩

theorem withMem (mem : Option Ram) :
    Deeper b q { vm with mem := mem } { vm' with mem := mem } :=
  ⟨h.ds, h.rs, h.dsFits, h.rsFits, h.fp, rfl, h.memSize, h.mmio, h.mmioCount, h.words,
    h.wordCount, h.panicHandler, h.panicUserData⟩

theorem withFp (fp : Option Nat) :
    Deeper b q { vm with fp := fp } { vm' with fp := fp.map (q.length + ·) } :=
  ⟨h.ds, h.rs, h.dsFits, h.rsFits, rfl, h.mem, h.memSize, h.mmio, h.mmioCount, h.words,
    h.wordCount, h.panicHandler, h.panicUserData⟩

end Deeper

/-- The callbacks of MMIO windows cannot tell related machines apart, and the
    panic handler leaves the VM alone. -/
structure Host.Respects (H : Host W) (b q : List Cell) : Prop where
  panic : ∀ f u info m, (H.panic f u info m).vm = m.vm
  read32 : ∀ f u addr out s t, (deeper W b q).rel s t →
    (H.read32 f u addr out t).1 = (H.read32 f u addr out s).1 ∧
    (H.read32 f u addr out t).2.1 = (H.read32 f u addr out s).2.1 ∧
    (deeper W b q).rel (H.read32 f u addr out s).2.2 (H.read32 f u addr out t).2.2
  write32 : ∀ f u addr val s t, (deeper W b q).rel s t →
    (H.write32 f u addr val t).1 = (H.write32 f u addr val s).1 ∧
    (deeper W b q).rel (H.write32 f u addr val s).2 (H.write32 f u addr val t).2

/-! ## Every helper -/

section

variable {H : Host W} {b q : List Cell} (hH : H.Respects b q) {O : Machine W → Prop}

include hH in
theorem notified_vm (m : Machine W) (info : V4PanicInfo) : (m.notified H info).vm = m.vm := by
  unfold Machine.notified
  cases m.vm.panicHandler with
  | none => rfl
  | some f => exact hH.panic f _ info _

include hH in
/-- Both report the failure, each with its own snapshot. -/
theorem panic_tracks {α : Type} {e : V4Err} (he : e ≠ 0) :
    Exact (deeper W b q) (vmPanic H e : VmM W α) (vmPanic H e) := by
  intro s t hst
  rw [vmPanic_run, vmPanic_run]
  cases panicInfo s.vm e with
  | none => exact trivial
  | some info =>
      obtain ⟨info', hinfo'⟩ := Option.isSome_iff_exists.mp (panicInfo_isSome hst.1.dsFits e)
      rw [hinfo']
      refine .inr ⟨_, rfl, he, ?_⟩
      show Deeper b q (s.notified H info).vm (t.notified H info').vm
      rw [notified_vm hH, notified_vm hH]
      exact hst.1

/-- Nothing is claimed after a left panic that is left out. -/
theorem skip_panic {α : Type} {e : V4Err} (hskip : (deeper W b q).skip e) (s : Machine W)
    (y : Outcome V4Err (Machine W) α) :
    (deeper W b q).Matches O (vmPanic H e s : Outcome V4Err (Machine W) α) y := by
  rw [vmPanic_run]
  cases panicInfo s.vm e with
  | none => exact trivial
  | some info => exact .inl hskip

theorem not_framed (h : ¬ Framed b q) : b = [] ∧ q = [] :=
  ⟨Classical.not_not.mp fun hb => h (.inl hb), Classical.not_not.mp fun hq => h (.inr hq)⟩

include hH

/-- A failing bounds check of a stack helper: left out, or the same on both sides. -/
theorem bounds_panic {α : Type} {e : Err} (he : e = .stackOverflow ∨ e = .stackUnderflow)
    {s t : Machine W} (hst : (deeper W b q).rel s t) {y : Outcome V4Err (Machine W) α}
    (hy : b = [] → q = [] → y = vmPanic H e.code t) :
    (deeper W b q).Matches O (vmPanic H e.code s) y := by
  by_cases hf : Framed b q
  · refine skip_panic ⟨hf, ?_⟩ s y
    rcases he with rfl | rfl
    · exact .inl rfl
    · exact .inr rfl
  · rw [hy (not_framed hf).1 (not_framed hf).2]
    have he0 : e.code ≠ 0 := by rcases he with rfl | rfl <;> decide
    exact (panic_tracks hH he0).weaken (fun _ h => h.elim) s t hst

omit hH in
/-- A push where the deep stack has room. -/
theorem dsPush_room {s t : Machine W} (hst : (deeper W b q).rel s t) (hroom : t.vm.sp < 256)
    (v : Cell) : (deeper W b q).Matches O (dsPush H v s) (dsPush H v t) := by
  have hdepth := hst.1.ds.depth
  have hs : dsPush H v s = .ok () { s with vm := { s.vm with
      DS := Function.update s.vm.DS s.vm.sp v, sp := s.vm.sp + 1 } } := by
    show (if s.vm.sp ≥ 256 then _ else _ : VmM W Unit) s = _
    rw [if_neg (by omega)]
    rfl
  have ht : dsPush H v t = .ok () { t with vm := { t.vm with
      DS := Function.update t.vm.DS t.vm.sp v, sp := t.vm.sp + 1 } } := by
    show (if t.vm.sp ≥ 256 then _ else _ : VmM W Unit) t = _
    rw [if_neg (by omega)]
    rfl
  rw [hs, ht]
  exact .inr ⟨_, rfl, hst.1.withDs (hst.1.ds.push v) hroom, hst.2⟩

theorem dsPush_tracks (v : Cell) :
    Tracks (deeper W b q) (OverLimit b q) (dsPush H v) (dsPush H v) := by
  intro s t hst
  have hdepth := hst.1.ds.depth
  by_cases hroom : t.vm.sp < 256
  · exact dsPush_room hst hroom v
  · have ht : dsPush H v t = vmPanic H Err.stackOverflow.code t := by
      show (if t.vm.sp ≥ 256 then _ else _ : VmM W Unit) t = _
      rw [if_pos (by omega)]
    show (deeper W b q).Matches _ ((if s.vm.sp ≥ 256 then _ else _ : VmM W Unit) s) _
    by_cases hs : s.vm.sp ≥ 256
    · rw [if_pos hs]
      exact bounds_panic hH (.inl rfl) hst fun _ _ => ht
    · rw [if_neg hs]
      refine .inl ⟨.inl ?_, .inl ?_⟩
      · rintro rfl
        rw [List.length_nil] at hdepth
        omega
      · show 256 < b.length + (s.vm.sp + 1)
        omega

theorem dsPop_tracks : Exact (deeper W b q) (dsPop H) (dsPop H) := by
  intro s t hst
  have hdepth := hst.1.ds.depth
  have hfit := hst.1.dsFits
  show (deeper W b q).Matches _ ((if s.vm.sp ≤ 0 then _ else _ : VmM W Cell) s)
    ((if t.vm.sp ≤ 0 then _ else _ : VmM W Cell) t)
  by_cases hs : s.vm.sp ≤ 0
  · rw [if_pos hs]
    refine bounds_panic hH (.inr rfl) hst fun hb _ => ?_
    rw [if_pos (by rw [hdepth, hb]; simpa using hs)]
  · rw [if_neg hs, if_neg (by omega), slot, slot, if_pos (by omega), if_pos (by omega)]
    have hval : t.vm.DS (t.vm.sp - 1) = s.vm.DS (s.vm.sp - 1) :=
      hst.1.ds.below (i := 0) (by omega)
    refine .inr ⟨{ t with vm := { t.vm with sp := t.vm.sp - 1 } }, ?_,
      hst.1.withDs (hst.1.ds.pop (by omega)) (by omega), hst.2⟩
    rw [← hval]
    rfl

theorem dsPeek_tracks (i : Nat) : Exact (deeper W b q) (dsPeek H i) (dsPeek H i) := by
  intro s t hst
  have hdepth := hst.1.ds.depth
  have hfit := hst.1.dsFits
  show (deeper W b q).Matches _ ((if s.vm.sp < 1 + i then _ else _ : VmM W Cell) s)
    ((if t.vm.sp < 1 + i then _ else _ : VmM W Cell) t)
  by_cases hs : s.vm.sp < 1 + i
  · rw [if_pos hs]
    refine bounds_panic hH (.inr rfl) hst fun hb _ => ?_
    rw [if_pos (by rw [hdepth, hb]; simpa using hs)]
  · rw [if_neg hs, if_neg (by omega), slot, slot, if_pos (by omega), if_pos (by omega),
      ← hst.1.ds.below (i := i) (by omega)]
    exact .inr ⟨t, rfl, hst⟩

theorem rsPush_tracks (v : Cell) :
    Tracks (deeper W b q) (OverLimit b q) (rsPush H v) (rsPush H v) := by
  intro s t hst
  have hdepth := hst.1.rs.depth
  show (deeper W b q).Matches _ ((if s.vm.rp ≥ 64 then _ else _ : VmM W Unit) s)
    ((if t.vm.rp ≥ 64 then _ else _ : VmM W Unit) t)
  by_cases hs : s.vm.rp ≥ 64
  · rw [if_pos hs]
    refine bounds_panic hH (.inl rfl) hst fun _ hq => ?_
    rw [if_pos (by rw [hdepth, hq]; simpa using hs)]
  · rw [if_neg hs]
    by_cases ht : t.vm.rp ≥ 64
    · refine .inl ⟨.inr ?_, .inr ?_⟩
      · rintro rfl
        rw [List.length_nil] at hdepth
        omega
      · show 64 < q.length + (s.vm.rp + 1)
        omega
    · rw [if_neg ht]
      exact .inr ⟨_, rfl, hst.1.withRs (hst.1.rs.push v) (by omega), hst.2⟩

theorem rsPop_tracks : Exact (deeper W b q) (rsPop H) (rsPop H) := by
  intro s t hst
  have hdepth := hst.1.rs.depth
  have hfit := hst.1.rsFits
  show (deeper W b q).Matches _ ((if s.vm.rp ≤ 0 then _ else _ : VmM W Cell) s)
    ((if t.vm.rp ≤ 0 then _ else _ : VmM W Cell) t)
  by_cases hs : s.vm.rp ≤ 0
  · rw [if_pos hs]
    refine bounds_panic hH (.inr rfl) hst fun _ hq => ?_
    rw [if_pos (by rw [hdepth, hq]; simpa using hs)]
  · rw [if_neg hs, if_neg (by omega), slot, slot, if_pos (by omega), if_pos (by omega)]
    have hval : t.vm.RS (t.vm.rp - 1) = s.vm.RS (s.vm.rp - 1) :=
      hst.1.rs.below (i := 0) (by omega)
    refine .inr ⟨{ t with vm := { t.vm with rp := t.vm.rp - 1 } }, ?_,
      hst.1.withRs (hst.1.rs.pop (by omega)) (by omega), hst.2⟩
    rw [← hval]
    rfl

theorem rsPeek_tracks (i : Nat) : Exact (deeper W b q) (rsPeek H i) (rsPeek H i) := by
  intro s t hst
  have hdepth := hst.1.rs.depth
  have hfit := hst.1.rsFits
  show (deeper W b q).Matches _ ((if s.vm.rp < 1 + i then _ else _ : VmM W Cell) s)
    ((if t.vm.rp < 1 + i then _ else _ : VmM W Cell) t)
  by_cases hs : s.vm.rp < 1 + i
  · rw [if_pos hs]
    refine bounds_panic hH (.inr rfl) hst fun _ hq => ?_
    rw [if_pos (by rw [hdepth, hq]; simpa using hs)]
  · rw [if_neg hs, if_neg (by omega), slot, slot, if_pos (by omega), if_pos (by omega),
      ← hst.1.rs.below (i := i) (by omega)]
    exact .inr ⟨t, rfl, hst⟩

/-- The two pushes of a `SWAP` have the room its two pops made. -/
theorem swap_tracks : Tracks (deeper W b q) (OverLimit b q) (swapBody H) (swapBody H) := by
  intro s t hst
  refine (dsPop_tracks hH s t hst).bind fun v s1 t1 _ ht1 hst1 => ?_
  refine (dsPop_tracks hH s1 t1 hst1).bind fun w s2 t2 _ ht2 hst2 => ?_
  obtain ⟨hpos, heq⟩ := dsPop_ok ht1
  obtain ⟨hpos', heq'⟩ := dsPop_ok ht2
  have hfit := hst.1.dsFits
  have hsp : t2.vm.sp + 2 = t.vm.sp := by
    rw [heq'] at *
    rw [heq] at *
    change 0 < t.vm.sp - 1 at hpos'
    show t.vm.sp - 1 - 1 + 2 = t.vm.sp
    omega
  refine (dsPush_room hst2 (by omega) v).bind fun _ s3 t3 _ ht3 hst3 => ?_
  have hsp3 : t3.vm.sp = t2.vm.sp + 1 := by
    change (if t2.vm.sp ≥ 256 then _ else _ : VmM W Unit) t2 = _ at ht3
    rw [if_neg (by omega)] at ht3
    cases ht3
    rfl
  exact dsPush_room hst3 (by omega) w

theorem deeper_stack : StackTracks H (deeper W b q) (OverLimit b q) where
  push := dsPush_tracks hH
  pop := dsPop_tracks hH
  peek := dsPeek_tracks hH
  swap := swap_tracks hH
  rsPush := rsPush_tracks hH
  rsPop := rsPop_tracks hH
  rsPeek := rsPeek_tracks hH
  divByZero := (panic_tracks hH (by decide)).weaken fun _ h => h.elim

/-! ### Local variables -/

/-- The slot of a local variable moves up with the frame. -/
theorem localSlot_tracks {idx : Nat} {s t : Machine W} (hst : (deeper W b q).rel s t)
    {f g : Nat → VmM W Unit}
    (hfg : ∀ i, i < s.vm.rp → (deeper W b q).Matches O (f i s) (g (q.length + i) t)) :
    (deeper W b q).Matches O ((localSlot H idx >>= f) s) ((localSlot H idx >>= g) t) := by
  have hdepth := hst.1.rs.depth
  -- A failing check ends both sides.
  have fail : ∀ {e : Err} {x y : VmM W Nat} {f g : Nat → VmM W Unit}
      (_ : ∀ O, (deeper W b q).Matches O (vmPanic H e.code s : Outcome _ _ Nat) (y t))
      (_ : x s = vmPanic H e.code s),
      (deeper W b q).Matches O ((x >>= f) s) ((y >>= g) t) := by
    intro e x y f g hxy hx
    refine Sim.Matches.bind (hx.symm ▸ hxy _) fun i s' t' hok _ _ => ?_
    rw [hx, vmPanic_run] at hok
    split at hok <;> cases hok
  cases hfp : s.vm.fp with
  | none =>
      have hfp' : t.vm.fp = none := by rw [hst.1.fp, hfp]; rfl
      refine fail (fun O' => ?_) (localSlot_none hfp idx)
      rw [localSlot_none hfp' idx]
      exact (panic_tracks hH (by decide)).weaken (fun _ h => h.elim) s t hst
  | some fp =>
      have hfp' : t.vm.fp = some (q.length + fp) := by rw [hst.1.fp, hfp]; rfl
      have hs := localSlot_some (H := H) hfp idx
      have ht := localSlot_some (H := H) hfp' idx
      by_cases hlt : fp + idx ≥ s.vm.rp
      · rw [if_pos hlt] at hs
        rw [if_pos (by omega)] at ht
        exact fail (fun O' => bounds_panic hH (.inr rfl) hst fun _ _ => ht) hs
      · rw [if_neg hlt] at hs
        rw [if_neg (by omega), Nat.add_assoc] at ht
        rw [bind_ok hs, bind_ok ht]
        exact hfg (fp + idx) (by omega)

omit hH in
theorem getRs_tracks {i : Nat} {s t : Machine W} (hst : (deeper W b q).rel s t)
    (hi : i < s.vm.rp) :
    (deeper W b q).Matches (fun _ => False) (getRs i s) (getRs (q.length + i) t) := by
  have hdepth := hst.1.rs.depth
  have hfit := hst.1.rsFits
  unfold getRs
  rw [if_pos (by omega), if_pos (by omega), hst.1.rs.top i hi]
  exact .inr ⟨t, rfl, hst⟩

omit hH in
theorem setRs_tracks {i : Nat} {s t : Machine W} (hst : (deeper W b q).rel s t)
    (hi : i < s.vm.rp) (v : Cell) :
    (deeper W b q).Matches O (setRs i v s) (setRs (q.length + i) v t) := by
  have hdepth := hst.1.rs.depth
  have hfit := hst.1.rsFits
  unfold setRs
  rw [if_pos (by omega), if_pos (by omega)]
  exact .inr ⟨_, rfl, hst.1.withRs (hst.1.rs.set i v) hfit, hst.2⟩

theorem deeper_local : LocalTracks H (deeper W b q) (OverLimit b q) where
  get idx s t hst := localSlot_tracks hH hst fun i hi =>
    (getRs_tracks hst hi).bind fun v s' t' _ _ hst' => dsPush_tracks hH v s' t' hst'
  set idx s t hst := localSlot_tracks hH hst fun i hi =>
    (dsPop_tracks hH s t hst).bind fun v s' t' hs _ hst' => by
      have heq := (dsPop_ok hs).2
      exact setRs_tracks hst' (heq ▸ hi) v
  tee idx s t hst := localSlot_tracks hH hst fun i hi =>
    (dsPeek_tracks hH 0 s t hst).bind fun v s' t' hs _ hst' => by
      have heq := dsPeek_ok hs
      exact setRs_tracks hst' (heq ▸ hi) v
  add idx d s t hst := localSlot_tracks hH hst fun i hi =>
    (getRs_tracks hst hi).bind fun v s' t' hs _ hst' => by
      have heq := getRs_ok hs
      exact setRs_tracks hst' (heq ▸ hi) (v + d)

/-! ### Memory and code -/

theorem deeper_memory : MemoryShared H (deeper W b q) where
  mem _ _ hst := hst.1.mem
  memSize _ _ hst := hst.1.memSize
  mmio _ _ hst := hst.1.mmio
  mmioCount _ _ hst := hst.1.mmioCount
  store _ _ mem hst := ⟨hst.1.withMem mem, hst.2⟩
  read32 := hH.read32
  write32 := hH.write32
  fails _ _ _ he hst := ⟨he, hst.1⟩

theorem deeper_code (a : Activation) : CodeTracks H (deeper W b q) a :=
  codeTracks_of_panics (fun _ _ he => panic_tracks hH he)
    (fun _ _ hst => ⟨hst.1.words, hst.1.wordCount⟩) a

/-- What a `SYS` needs: the handler cannot tell related machines apart. -/
def SysRespects (H : Host W) (b q : List Cell) : Prop :=
  ∀ f i x y z s t, (deeper W b q).rel s t → (H.sys f i x y z t).1 = (H.sys f i x y z s).1 ∧
    (deeper W b q).rel (H.sys f i x y z s).2 (H.sys f i x y z t).2

omit hH in
theorem sys_tracks (hsys : SysRespects H b q) (i x y z : Cell) :
    Exact (deeper W b q) (v4InvokeSysHandler H i x y z) (v4InvokeSysHandler H i x y z) := by
  intro s t hst
  unfold v4InvokeSysHandler
  rw [hst.2.2]
  cases s.gSysHandler with
  | none => exact .inr ⟨t, rfl, hst⟩
  | some f =>
      obtain ⟨hr, hrel⟩ := hsys f i x y z s t hst
      refine .inr ⟨_, ?_, hrel⟩
      show Outcome.ok (H.sys f i x y z t).1 _ = _
      rw [hr]

/-- **One instruction.**  Outside the task group it keeps the relation. -/
theorem fetch_tracks {a : Activation} (hop : ∀ op, a.nextOp = some op → op.isTask = false ∧
      (op = .SYS → SysRespects H b q)) :
    Tracks (deeper W b q) (OverLimit b q) (fetch H a) (fetch H a) := by
  refine fetch_tracks_of (fun _ _ he => panic_tracks hH he) fun op hnext => ?_
  obtain ⟨htask, hsys⟩ := hop op hnext
  exact execOp_tracks (deeper_stack hH) (deeper_code hH a) (fun _ => deeper_local hH)
    (deeper_memory hH).memoryTracks (fun heq i x y z => sys_tracks (hsys heq) i x y z)
    (fun h => Bool.noConfusion (htask.symm.trans h))

end

/-! ## Runs -/

/-- A suspended caller with its frame moved up by `k`. -/
def Caller.shift (k : Nat) (x : Caller) : Caller := { x with oldFp := x.oldFp.map (k + ·) }

/-- The relation between configurations. -/
def Config.Deeper (b q : List Cell) : Config W → Config W → Prop
  | .run s cur cs, d => ∃ t, d = .run t cur (cs.map (.shift q.length)) ∧ (deeper W b q).rel s t
  | .poll w s cur cs, d =>
      ∃ t, d = .poll w t cur (cs.map (.shift q.length)) ∧ (deeper W b q).rel s t
  | .ret e s cs, d => ∃ t, d = .ret e t (cs.map (.shift q.length)) ∧
      V4Engine.Deeper b q s.vm t.vm ∧ (e = 0 → (deeper W b q).rel s t)
  | .fault, _ => True

theorem deeper_setFp {b q : List Cell} {s t : Machine W} (h : (deeper W b q).rel s t)
    (fp : Option Nat) :
    (deeper W b q).rel (s.setFp fp) (t.setFp (fp.map (q.length + ·))) := ⟨h.1.withFp fp, h.2⟩

/-- Matched instructions lead to related configurations, or to one about which
    nothing is claimed. -/
theorem deeper_settle {b q : List Cell} (cur : Activation) (cs : List Caller)
    {x y : Outcome V4Err (Machine W) Flow} (h : (deeper W b q).Matches (OverLimit b q) x y) :
    (settle cur cs x).Deeper b q (settle cur (cs.map (.shift q.length)) y) ∨
      (∃ e m, settle cur cs x = .ret e m cs ∧ (deeper W b q).skip e) ∨
      ∃ n, (settle cur cs x).machine = some n ∧ OverLimit b q n := by
  match x, h with
  | .ok f s, h =>
      obtain hover | ⟨t, rfl, hst⟩ := h
      · refine .inr (.inr ?_)
        cases f <;> exact ⟨_, rfl, hover⟩
      · left
        cases f with
        | next ip => exact ⟨t, rfl, hst⟩
        | ret => exact ⟨t, rfl, hst.1, fun _ => hst⟩
        | wait w ip => exact ⟨t, rfl, hst⟩
        -- The callee gets its frame at the current depth, which is shifted in the deeper run.
        | call c ip =>
            refine ⟨t.setFp (some t.vm.rp), ?_, ?_⟩
            · show Config.run _ _ _ = Config.run _ _ _
              rw [hst.1.fp]
              rfl
            · rw [hst.1.rs.depth]
              exact deeper_setFp hst (some s.vm.rp)
  | .err e s, h =>
      obtain hskip | ⟨t, rfl, hst⟩ := h
      · exact .inr (.inl ⟨e, s, rfl, hskip⟩)
      · exact .inl ⟨t, rfl, hst.2, fun h0 => absurd h0 hst.1⟩
  | .fault, _ => exact .inl trivial

/-- No `SYS` is executed in this configuration, or its handler cannot tell related
    machines apart; no task opcode is executed. -/
def Config.Plain (H : Host W) (b q : List Cell) (c : Config W) : Prop :=
  c.NoTask ∧ ∀ m cur cs, c = .run m cur cs → cur.nextOp = some .SYS → SysRespects H b q

/-- **One step** of the left run is matched by one step of the right run. -/
theorem Config.Deeper.step {H : Host W} {b q : List Cell} (hH : H.Respects b q)
    {c d c' : Config W} (h : c.Deeper b q d) (hc : c.Plain H b q) (hs : Step H c c') :
    (∃ d', Step H d d' ∧ c'.Deeper b q d') ∨
      (∃ e m cs, c' = .ret e m cs ∧ e ≠ 0 ∧ (deeper W b q).skip e) ∨
      ∃ n, c'.machine = some n ∧ OverLimit b q n := by
  obtain ⟨s, cur, cs, rfl, rfl⟩ | ⟨w, s, cur, cs, rfl, -⟩ | ⟨s, x, cs, rfl, rfl⟩
    | ⟨e, s, x, cs, he, rfl, rfl⟩ := hs.cases
  · obtain ⟨t, rfl, hst⟩ := h
    have htracks := fetch_tracks hH (a := cur) (fun op hop => ⟨hc.1 op hop, fun heq =>
      hc.2 s cur cs rfl (heq ▸ hop)⟩) s t hst
    obtain hd | ⟨e, m, heq, hskip⟩ | hover := deeper_settle cur cs htracks
    · exact .inl ⟨_, rfl, hd⟩
    · refine .inr (.inl ⟨e, m, cs, heq, ?_, hskip⟩)
      rcases hskip.2 with rfl | rfl <;> decide
    · exact .inr (.inr hover)
  · exact hc.1.elim
  · obtain ⟨t, rfl, -, hst⟩ := h
    exact .inl ⟨_, rfl, t.setFp (x.oldFp.map (q.length + ·)), rfl, deeper_setFp (hst rfl) x.oldFp⟩
  · obtain ⟨t, rfl, hvm, -⟩ := h
    exact .inl ⟨_, if_neg he, t.setFp (x.oldFp.map (q.length + ·)), rfl, hvm.withFp x.oldFp,
      fun h0 => absurd h0 he⟩

end V4Engine
