/-
  V4Engine.Vm.StackFrame

  The frame rule of the stacks.

  What a program does is independent of what lies below its stacks: started on
  deeper ones, it returns the same code and the same RAM and leaves what is
  underneath alone.  The exceptions are underflow and overflow, where the depth
  is observed.
-/
import V4Engine.Vm.Lockstep

namespace V4Engine

open Lib FaultM VmM

variable {W : Type}

/-- The MMIO callbacks act on the outside world only, and the panic handler leaves
    the VM alone. -/
structure Host.Detached (H : Host W) : Prop where
  panic : ∀ f u info m, (H.panic f u info m).vm = m.vm
  read32 : ∀ f u addr out, ∃ r : W → V4Err × Cell × W, ∀ m,
    H.read32 f u addr out m
      = ((r m.world).1, (r m.world).2.1, { m with world := (r m.world).2.2 })
  write32 : ∀ f u addr val, ∃ w : W → V4Err × W, ∀ m,
    H.write32 f u addr val m = ((w m.world).1, { m with world := (w m.world).2 })

/-- Callbacks that do not see the stacks cannot tell related machines apart. -/
theorem Host.Detached.respects {H : Host W} (h : H.Detached) (b q : List Cell) :
    H.Respects b q where
  panic := h.panic
  read32 f u addr out s t hst := by
    obtain ⟨r, hr⟩ := h.read32 f u addr out
    rw [hr s, hr t, hst.2.1]
    exact ⟨rfl, rfl, hst.1, rfl, hst.2.2⟩
  write32 f u addr val s t hst := by
    obtain ⟨w, hw⟩ := h.write32 f u addr val
    rw [hw s, hw t, hst.2.1]
    exact ⟨rfl, hst.1, rfl, hst.2.2⟩

/-- The machine on other stacks, its frame pointer moved up by `k`. -/
def Machine.onStacks (m : Machine W) (s : Stacks) (k : Nat) : Machine W :=
  { m with vm := { m.vm.withStacks s with fp := m.vm.fp.map (k + ·) } }

/-- No `SYS` is executed in this configuration. -/
def Config.NoSys (c : Config W) : Prop :=
  ∀ m cur cs, c = .run m cur cs → cur.nextOp ≠ some .SYS

theorem onStacks_deeper {b q : List Cell} {m : Machine W} {s : Stacks}
    (hds : live s.DS s.sp = b ++ m.vm.ds) (hrs : live s.RS s.rp = q ++ m.vm.rs) :
    (deeper W b q).rel m (m.onStacks s q.length) :=
  ⟨⟨onTop_iff.mpr hds, onTop_iff.mpr hrs, s.sp_le, s.rp_le, rfl, rfl, rfl, rfl, rfl, rfl, rfl, rfl,
    rfl⟩, rfl, rfl⟩

/-- A failed activation leaves the run with its code. -/
theorem skipped_step {H : Host W} {S : V4Err → Prop} {c c' : Config W}
    (h : ∃ e m cs, c = .ret e m cs ∧ e ≠ 0 ∧ S e) (hs : Step H c c') :
    ∃ e m cs, c' = .ret e m cs ∧ e ≠ 0 ∧ S e := by
  obtain ⟨e, m, cs, rfl, he, hS⟩ := h
  obtain ⟨_, _, _, h, -⟩ | ⟨_, _, _, _, h, -⟩ | ⟨_, _, _, h, -⟩ | ⟨e', m', x, cs', -, h, rfl⟩ :=
    hs.cases
  · cases h
  · cases h
  · cases h
    exact absurd rfl he
  · cases h
    exact ⟨e, _, cs', rfl, he, hS⟩

section

variable {H : Host W} {b q : List Cell} {c0 d0 : Config W}

/-- **The run rule.**  Every configuration of the left run is matched, unless an
    activation failed with one of the codes left out. -/
theorem Config.Deeper.reaches (hH : H.Respects b q) (h0 : c0.Deeper b q d0)
    (hplain : ∀ c, Reaches H c0 c → c.Plain H b q)
    (hlim : ∀ c n, Reaches H c0 c → c.machine = some n → ¬ OverLimit b q n)
    {c : Config W} (h : Reaches H c0 c) :
    (∃ d, Reaches H d0 d ∧ c.Deeper b q d) ∨
      ∃ e m cs, c = .ret e m cs ∧ e ≠ 0 ∧ (deeper W b q).skip e := by
  induction h with
  | refl => exact .inl ⟨d0, .refl, h0⟩
  | @tail c c' hc hs ih =>
      obtain ⟨d, hd, hcd⟩ | hskipped := ih
      · obtain ⟨d', hs', hcd'⟩ | hskipped | ⟨n, hn, hover⟩ :=
          hcd.step hH (hplain c hc) hs
        · exact .inl ⟨d', hd.tail hs', hcd'⟩
        · exact .inr hskipped
        · exact absurd hover (hlim c' n (hc.tail hs) hn)
      · exact .inr (skipped_step hskipped hs)

end

/-- **Frame rule.**  A run that executes no `SYS` and no task opcode and does not
    report a stack error is the same on deeper stacks, as long as these fit. -/
theorem vmExecRaw_frame {H : Host W} (hH : H.Detached) {m m' : Machine W} {bc : List Byte}
    {len : Nat} {e : V4Err} (hrun : Returns H m bc len e m')
    (hops : ∀ c, Reaches H (.start m bc len) c → c.NoTask ∧ c.NoSys)
    (hover : e ≠ Err.stackOverflow.code) (hunder : e ≠ Err.stackUnderflow.code)
    (b q : List Cell) (hlim : ∀ c n, Reaches H (.start m bc len) c → c.machine = some n →
      b.length + n.vm.sp ≤ 256 ∧ q.length + n.vm.rp ≤ 64)
    (s : Stacks) (hds : live s.DS s.sp = b ++ m.vm.ds) (hrs : live s.RS s.rp = q ++ m.vm.rs) :
    ∃ t', Returns H (m.onStacks s q.length) bc len e t' ∧ t'.vm.ds = b ++ m'.vm.ds ∧
      t'.vm.rs = q ++ m'.vm.rs ∧ t'.vm.fp = m'.vm.fp.map (q.length + ·) ∧
      t'.vm.mem = m'.vm.mem := by
  have h0 : (Config.start m bc len).Deeper b q (.start (m.onStacks s q.length) bc len) :=
    ⟨_, rfl, onStacks_deeper hds hrs⟩
  have hplain : ∀ c, Reaches H (.start m bc len) c → c.Plain H b q := fun c hc =>
    ⟨(hops c hc).1, fun n cur cs heq hsys => absurd hsys ((hops c hc).2 n cur cs heq)⟩
  -- The limits keep the deeper run from overflowing where the other does not.
  have hfits : ∀ c n, Reaches H (.start m bc len) c → c.machine = some n → ¬ OverLimit b q n := by
    rintro c n hc hn ⟨-, hbad⟩
    obtain ⟨hd, hr⟩ := hlim c n hc hn
    omega
  obtain ⟨d, hd, hcd⟩ | ⟨e', _, _, heq, -, hskip⟩ := h0.reaches (hH.respects b q) hplain hfits hrun
  · obtain ⟨t', rfl, hvm, -⟩ := hcd
    exact ⟨t', hd, onTop_iff.mp hvm.ds, onTop_iff.mp hvm.rs, hvm.fp, hvm.mem⟩
  · cases heq
    rcases hskip.2 with h | h
    · exact absurd h hover
    · exact absurd h hunder

theorem Host.silent_detached : Host.silent.Detached where
  panic _ _ _ _ := rfl
  read32 _ _ _ out := ⟨fun w => (0, out, w), fun _ => rfl⟩
  write32 _ _ _ _ := ⟨fun w => (0, w), fun _ => rfl⟩

/-- `LIT1` on the blank VM leaves `[1]`. -/
def oneVm : Vm := { Vm.blank with DS := Function.update (fun _ => 0) 0 1, sp := 1 }

/-- `LIT1 RET` on top of `[7]` and `[9]`. -/
theorem vmExecRaw_frame_lit1 :
    ∃ t', Returns Host.silent ((Machine.boot Vm.blank).onStacks
        ⟨fun _ => 7, fun _ => 9, 1, 1, by decide, by decide⟩ 1) [0x74, 0x51] 2 0 t' ∧
      t'.vm.ds = [7, 1] ∧ t'.vm.rs = [9] ∧ t'.vm.fp = none ∧ t'.vm.mem = none := by
  have h1 : Step Host.silent (.start (Machine.boot Vm.blank) [0x74, 0x51] 2)
      (.run (Machine.boot oneVm) ⟨[0x74, 0x51], 2, 1⟩ []) := rfl
  have h2 : Step Host.silent (.run (Machine.boot oneVm) ⟨[0x74, 0x51], 2, 1⟩ [])
      (.ret 0 (Machine.boot oneVm) []) := rfl
  -- The run has three configurations.
  have hall : ∀ c, Reaches Host.silent (.start (Machine.boot Vm.blank) [0x74, 0x51] 2) c →
      c = .start (Machine.boot Vm.blank) [0x74, 0x51] 2 ∨
      c = .run (Machine.boot oneVm) ⟨[0x74, 0x51], 2, 1⟩ [] ∨ c = .ret 0 (Machine.boot oneVm) [] :=
    fun c hc => (hc.cases_step h1).imp_right fun hc => (hc.cases_step h2).imp_right fun hc =>
      hc.of_final rfl
  refine vmExecRaw_frame Host.silent_detached (.head h1 (.single h2)) (fun c hc => ?_) (by decide)
    (by decide) [7] [9] (fun c n hc hn => ?_) _ rfl rfl
  · rcases hall c hc with rfl | rfl | rfl
    · refine ⟨fun op hop => ?_, fun m cur cs heq => ?_⟩
      · obtain rfl : Op.LIT1 = op := Option.some.inj hop
        rfl
      · cases heq
        decide
    · refine ⟨fun op hop => ?_, fun m cur cs heq => ?_⟩
      · obtain rfl : Op.RET = op := Option.some.inj hop
        rfl
      · cases heq
        decide
    · exact ⟨trivial, nofun⟩
  · rcases hall c hc with rfl | rfl | rfl
    · cases hn
      decide
    · cases hn
      decide
    · cases hn
      decide

end V4Engine
