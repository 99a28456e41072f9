/-
  V4Engine.Vm.WordEntry

  The two ways into a word: `vm_exec` on its dictionary entry, and a `CALL` from
  outside, `vm_exec_raw` on the code `CALL i; RET`.

  A `CALL` gives the word a frame of its own, `vm_exec` does not.  A word that
  uses no local variable at its own level, whatever its callees do, runs alike
  both ways (`exec_agrees_with_call`): `Linked` pairs the configurations of the
  two runs.  At the word's own level they differ in the frame pointer; inside
  a callee only in what the outermost caller restores.
-/
import V4Engine.Vm.Create
import V4Engine.Vm.FpBlind
import V4Engine.Vm.CodeBytes
import V4Engine.Vm.StackRuns
import Mathlib.Computability.StateTransition

namespace V4Engine

open Lib FaultM VmM

variable {W : Type}

/-! ## Entry points -/

/-- `vm_get_word`; `none` is a null pointer. -/
def Vm.getWord (vm : Vm) (idx : Int) : Option Word :=
  if idx < 0 ∨ idx ≥ vm.wordCount then none else some (vm.words idx.toNat)

/-- The configuration in which `vm_exec(vm, entry)` starts.  Without an entry or without
    code it returns at once. -/
def vmExec (m : Machine W) (entry : Option Word) : Config W :=
  match entry with
  | none => .ret Err.invalidArg.code m []
  | some word =>
      match word.code with
      | none => .ret Err.invalidArg.code m []
      | some code => .start m code word.codeLen.toNat

/-- The bytes of `CALL i; RET`. -/
def callCode (i : Nat) : List Byte := 0x50 :: imm16Bytes (BitVec.ofNat 16 i) ++ [0x51]

/-- `vm_exec_raw` on `CALL i; RET`. -/
def callWord (m : Machine W) (i : Nat) : Config W := .start m (callCode i) 4

/-- Word `i` is in the dictionary, as `vm_register_word` leaves it. -/
structure Vm.HasWord (vm : Vm) (i : Nat) (code : List Byte) (len : Nat) : Prop where
  index : i < vm.wordCount
  count : vm.wordCount ≤ 256
  word : vm.words i = ⟨some code, len⟩
  pos : 0 < len

/-- The word executes no local-variable opcode at its own call level. -/
def NoOwnLocals (H : Host W) (c : Config W) : Prop :=
  ∀ m cur, Reaches H c (.run m cur []) → ∀ op, cur.nextOp = some op → op.isLocal = false

/-- The run goes on for ever. -/
def Config.Diverges (H : Host W) (c : Config W) : Prop := ∀ d, Reaches H c d → ∃ d', Step H d d'

theorem diverges_iff {H : Host W} {c : Config W} :
    c.Diverges H ↔ ¬ (StateTransition.eval (step H) c).Dom := by
  constructor
  · rintro h hdom
    obtain ⟨hreach, hend⟩ := StateTransition.mem_eval.mp (Part.get_mem hdom)
    obtain ⟨d, hs⟩ := h _ hreach
    cases hs.symm.trans hend
  · intro h d hreach
    cases hd : step H d with
    | some d' => exact ⟨d', hd⟩
    | none => exact absurd (Part.dom_iff_mem.mpr ⟨d, StateTransition.mem_eval.mpr ⟨hreach, hd⟩⟩) h

theorem Vm.HasWord.exec {m : Machine W} {i : Nat} {code : List Byte} {len : Nat}
    (h : m.vm.HasWord i code len) :
    vmExec m (m.vm.getWord i) = .start m code len := by
  have hin : ¬ ((i : Int) < 0 ∨ (i : Int) ≥ m.vm.wordCount) := by
    have := h.index
    omega
  have hget : m.vm.getWord i = some ⟨some code, len⟩ := by
    rw [Vm.getWord, if_neg hin, Int.toNat_natCast, h.word]
  rw [hget]
  rfl

/-! ## More callers underneath -/

/-- The configuration with further callers outside. -/
def Config.onto (base : List Caller) : Config W → Config W
  | .run m cur cs => .run m cur (cs ++ base)
  | .poll w m cur cs => .poll w m cur (cs ++ base)
  | .ret e m cs => .ret e m (cs ++ base)
  | .fault => .fault

theorem settle_onto (cur : Activation) (cs base : List Caller)
    (o : Outcome V4Err (Machine W) Flow) :
    settle cur (cs ++ base) o = (settle cur cs o).onto base := by
  cases o with
  | ok f m => cases f <;> rfl
  | err e m => rfl
  | fault => rfl

/-- A step does not look at the callers outside. -/
theorem Step.onto {H : Host W} {c d : Config W} (h : Step H c d) (base : List Caller) :
    Step H (c.onto base) (d.onto base) := by
  obtain ⟨m, cur, cs, rfl, rfl⟩ | ⟨w, m, cur, cs, rfl, rfl⟩ | ⟨m, x, cs, rfl, rfl⟩
    | ⟨e, m, x, cs, he, rfl, rfl⟩ := h.cases
  · exact congrArg some (settle_onto cur cs base _)
  · exact congrArg some (settle_onto cur cs base _)
  · rfl
  · exact if_neg he

/-! ## The two runs side by side -/

/-- Corresponding configurations of the run of a word on its own and of its run under the
    caller `b`.  `P` is what the callbacks keep of the frame pointer of the former. -/
inductive Linked (P : Option Nat → Prop) (b : Caller) : Config W → Config W → Prop where
  | run {m cur} (fp) (h : P m.vm.fp) : Linked P b (.run m cur []) (.run (m.setFp fp) cur [b])
  | poll {w m cur} (fp) (h : P m.vm.fp) :
      Linked P b (.poll w m cur []) (.poll w (m.setFp fp) cur [b])
  | returned {e m} (h : P m.vm.fp) : Linked P b (.ret e m []) (.ret e (m.setFp b.oldFp) [])
  | inside {c d} (i : Config W) (act fp fp') (h : P fp) (hc : c = i.onto [⟨act, fp⟩])
      (hd : d = i.onto [⟨act, fp'⟩, b]) : Linked P b c d

namespace Linked

variable {H : Host W} {P : Option Nat → Prop} {b : Caller}

/-- Where the word has returned, so has the caller. -/
theorem of_ret {e : V4Err} {n : Machine W} {d : Config W} (h : Linked P b (.ret e n []) d) :
    d = .ret e (n.setFp b.oldFp) [] ∧ P n.vm.fp := by
  cases h with
  | returned h => exact ⟨rfl, h⟩
  | inside i act fp fp' _ hc _ =>
      cases i with
      | ret e' m cs => cases cs <;> cases hc
      | _ => cases hc

/-- And the other way round. -/
theorem to_ret {e : V4Err} {m' : Machine W} {c : Config W} (h : Linked P b c (.ret e m' [])) :
    ∃ n, c = .ret e n [] ∧ m' = n.setFp b.oldFp ∧ P n.vm.fp := by
  cases h with
  | returned h => exact ⟨_, rfl, rfl, h⟩
  | inside i act fp fp' _ _ hd =>
      cases i with
      | ret e' m cs => cases cs <;> cases hd
      | _ => cases hd

theorem of_fault {d : Config W} (h : Linked P b .fault d) : d = .fault := by
  cases h with
  | inside i act fp fp' _ hc hd =>
      cases i with
      | fault => exact hd
      | _ => cases hc

theorem to_fault {c : Config W} (h : Linked P b c .fault) : c = .fault := by
  cases h with
  | inside i act fp fp' _ hc hd =>
      cases i with
      | fault => exact hc
      | _ => cases hd

variable (hb : b.act.nextOp = some .RET)
include hb

/-- The caller returns with the result it gets, its own frame pointer in place again. -/
theorem leave (e : V4Err) (m : Machine W) (fp : Option Nat) :
    Relation.TransGen (Step H) (.ret e (m.setFp fp) [b]) (.ret e (m.setFp b.oldFp) []) := by
  by_cases he : e = 0
  · subst he
    have hreturn : Step H (.ret 0 (m.setFp fp) [b]) (.run (m.setFp b.oldFp) b.act []) := rfl
    refine .tail (.single hreturn) ?_
    show some (settle b.act [] (fetch H b.act (m.setFp b.oldFp))) = _
    rw [fetch_run hb]
    rfl
  · exact .single (if_neg he)

/-- Matching outcomes at the word's own level lead to linked configurations. -/
theorem settle (cur : Activation) {fp₀ : Option Nat} (hfp₀ : P fp₀)
    {x y : Outcome V4Err (Machine W) Flow} (h : (butFp W P).Matches (fun _ => False) x y)
    (hfault : x = .fault → y = .fault) :
    ∃ d, Linked P b (V4Engine.settle cur [] x) d ∧
      Reaches H (V4Engine.settle cur [b] y) d := by
  cases x with
  | ok f m =>
      obtain hno | ⟨_, rfl, ⟨fp, rfl⟩, hfp⟩ := h
      · exact hno.elim
      cases f with
      | next ip => exact ⟨_, .run fp hfp, .refl⟩
      | ret => exact ⟨_, .returned hfp, (leave hb 0 m fp).to_reflTransGen⟩
      | wait w ip => exact ⟨_, .poll fp hfp, .refl⟩
      -- Both callees get the same frame; only what is saved differs.
      | call c ip =>
          exact ⟨_, .inside (.run (m.setFp (some m.vm.rp)) c []) _ _ _ hfp rfl rfl, .refl⟩
  | err e m =>
      obtain hno | ⟨_, rfl, ⟨fp, rfl⟩, hfp⟩ := h
      · exact hno.elim
      · exact ⟨_, .returned hfp, (leave hb e m fp).to_reflTransGen⟩
  | fault =>
      rw [hfault rfl]
      exact ⟨_, .inside .fault b.act fp₀ fp₀ hfp₀ rfl rfl, .refl⟩

variable (hH : H.IgnoresFp) (hP : H.KeepsFpIn P)
include hH hP

/-- **One step.**  A step of the word on its own is matched by one or more steps of the
    word that was called; where the former has ended, so has the latter. -/
theorem respects {c₀ : Config W} (hlocal : NoOwnLocals H c₀) :
    StateTransition.Respects (step H) (step H) fun c d => Reaches H c₀ c ∧ Linked P b c d := by
  rintro c d ⟨hreach, hlink⟩
  cases hlink with
  | @run m cur fp hfp =>
      have hop := hlocal m cur hreach
      obtain ⟨d, hd, hrest⟩ := settle hb cur hfp
        (fetch_tracks_butFp hH hP hop m (m.setFp fp) ⟨⟨fp, rfl⟩, hfp⟩)
        fun hf => butFp_faults (fetch_tracks_butFp hH keepsFpIn_true hop) hf fp
      exact ⟨d, ⟨hreach.tail rfl, hd⟩, .head' rfl hrest⟩
  | @poll w m cur fp hfp =>
      obtain ⟨d, hd, hrest⟩ := settle hb cur hfp
        (pollOnce_tracks_butFp hH hP w cur.ip m (m.setFp fp) ⟨⟨fp, rfl⟩, hfp⟩)
        fun hf => butFp_faults (pollOnce_tracks_butFp hH keepsFpIn_true w cur.ip) hf fp
      exact ⟨d, ⟨hreach.tail rfl, hd⟩, .head' rfl hrest⟩
  | returned => rfl
  | inside i act fp fp' hfp hc hd =>
      subst hc hd
      cases hi : step H i with
      | some j =>
          have hc : step H (i.onto [⟨act, fp⟩]) = some (j.onto [⟨act, fp⟩]) := Step.onto hi _
          have hd : Step H (i.onto [⟨act, fp'⟩, b]) (j.onto [⟨act, fp'⟩, b]) := Step.onto hi _
          rw [hc]
          exact ⟨_, ⟨hreach.tail hc, .inside j act fp fp' hfp rfl rfl⟩, .single hd⟩
      | none =>
          -- The callee has ended: both runs are back at the word's own level.
          obtain rfl | ⟨e, m, rfl⟩ := step_eq_none hi
          · rfl
          · by_cases he : e = 0
            · subst he
              have hc : step H ((Config.ret 0 m []).onto [⟨act, fp⟩])
                  = some (.run (m.setFp fp) act []) := rfl
              rw [hc]
              exact ⟨_, ⟨hreach.tail hc, .run fp' hfp⟩, .single rfl⟩
            · have hc : step H ((Config.ret e m []).onto [⟨act, fp⟩])
                  = some (.ret e (m.setFp fp) []) := if_neg he
              have hd : Step H (.ret e m [⟨act, fp'⟩, b]) (.ret e (m.setFp fp') [b]) := if_neg he
              rw [hc]
              exact ⟨_, ⟨hreach.tail hc, .returned hfp⟩, .head hd (leave hb e (m.setFp fp) fp')⟩

end Linked

/-! ## Both ways in -/

section

variable {H : Host W} {m : Machine W} {i : Nat} {code : List Byte} {len : Nat}

/-- The suspended `CALL i; RET`, about to return. -/
def callSite (m : Machine W) (i : Nat) : Caller := ⟨⟨callCode i, 4, 3⟩, m.vm.fp⟩

theorem callCode_at (i : Nat) : Activation.At ⟨callCode i, 4, 0⟩
    ((0x50 :: imm16Bytes (BitVec.ofNat 16 i)) ++ [0x51]) := at_whole (callCode i)

theorem callSite_ret (m : Machine W) (i : Nat) : (callSite m i).act.nextOp = some .RET := by
  have hat : (callSite m i).act.At [0x51] := (callCode_at i).drop
  exact hat.nextOp rfl

namespace Vm.HasWord

variable (h : m.vm.HasWord i code len)
include h

theorem callee_run : callee H (BitVec.ofNat 16 i) m = .ok ⟨code, len, 0⟩ m := by
  have hindex := h.index
  have hcount := h.count
  have hpos := h.pos
  have hidx : (BitVec.ofNat 16 i).toNat = i := by
    rw [BitVec.toNat_ofNat, Nat.mod_eq_of_lt (by omega)]
  have hword : wordAt i m = .ok ⟨some code, (len : Int)⟩ m := by
    rw [wordAt, if_pos (by omega), h.word]
  rw [callee, bind_ok (show getVm m = .ok m.vm m from rfl), hidx, if_neg (by omega),
    bind_ok hword]
  show (if (len : Int) ≤ 0 then _ else _ : VmM W Activation) m = _
  rw [if_neg (by omega)]
  rfl

/-- The `CALL`: the word starts with a frame at the current depth. -/
theorem call_step : Step H (callWord m i)
    (.run (m.setFp (some m.vm.rp)) ⟨code, len, 0⟩ [callSite m i]) := by
  have hat := callCode_at i
  have hop : Activation.nextOp ⟨callCode i, 4, 0⟩ = some .CALL := hat.take.nextOp rfl
  show some (settle ⟨callCode i, 4, 0⟩ [] (fetch H _ m)) = _
  rw [fetch_run hop]
  show some (settle _ [] ((imm16 H .truncatedJump ⟨callCode i, 4, 0⟩ 1 >>= _) m)) = _
  rw [bind_ok (hat.take.imm16_run .truncatedJump), bind_ok h.callee_run]
  rfl

end Vm.HasWord

/-- What both runs of the word end with. -/
theorem call_ends {P : Option Nat → Prop} (hH : H.IgnoresFp) (hP : H.KeepsFpIn P)
    (hreg : m.vm.HasWord i code len) (hlocal : NoOwnLocals H (.start m code len))
    (hfp : P m.vm.fp) :
    (∀ e m', Returns H m (callCode i) 4 e m' ↔
      ∃ n, Returns H m code len e n ∧ m' = n.setFp m.vm.fp ∧ P n.vm.fp) ∧
    (Reaches H (callWord m i) .fault ↔ Reaches H (.start m code len) .fault) ∧
    ((callWord m i).Diverges H ↔ (Config.start m code len).Diverges H) := by
  have hresp := Linked.respects (callSite_ret m i) hH hP hlocal
  have hstart : Reaches H (.start m code len) (.start m code len) ∧ Linked P (callSite m i)
      (.start m code len) (.run (m.setFp (some m.vm.rp)) ⟨code, len, 0⟩ [callSite m i]) :=
    ⟨.refl, .run _ hfp⟩
  -- After its first step the call is a run linked to that of the word.
  have heval : StateTransition.eval (step H) (callWord m i) = StateTransition.eval (step H)
      (.run (m.setFp (some m.vm.rp)) ⟨code, len, 0⟩ [callSite m i]) :=
    StateTransition.reaches_eval (.single hreg.call_step)
  have hends : ∀ {c d : Config W}, step H d = none →
      (Reaches H c d ↔ d ∈ StateTransition.eval (step H) c) :=
    fun hd => ⟨fun h => StateTransition.mem_eval.mpr ⟨h, hd⟩,
      fun h => (StateTransition.mem_eval.mp h).1⟩
  refine ⟨fun e m' => ⟨fun h => ?_, ?_⟩, ⟨fun h => ?_, fun h => ?_⟩, ?_⟩
  -- Results, both directions.
  · have h' : Config.ret e m' [] ∈ StateTransition.eval (step H) (callWord m i) := (hends rfl).mp h
    rw [heval] at h'
    obtain ⟨c, ⟨-, hlink⟩, hc⟩ := StateTransition.tr_eval_rev hresp hstart h'
    obtain ⟨n, rfl, rfl, hn⟩ := hlink.to_ret
    exact ⟨n, (hends rfl).mpr hc, rfl, hn⟩
  · rintro ⟨n, h, rfl, -⟩
    obtain ⟨d, ⟨-, hlink⟩, hd⟩ := StateTransition.tr_eval hresp hstart ((hends rfl).mp h)
    obtain ⟨rfl, -⟩ := hlink.of_ret
    exact (hends rfl).mpr (heval ▸ hd)
  -- Faults, both directions.
  · have h' := (hends rfl).mp h
    rw [heval] at h'
    obtain ⟨c, ⟨-, hlink⟩, hc⟩ := StateTransition.tr_eval_rev hresp hstart h'
    obtain rfl := hlink.to_fault
    exact (hends rfl).mpr hc
  · obtain ⟨d, ⟨-, hlink⟩, hd⟩ := StateTransition.tr_eval hresp hstart ((hends rfl).mp h)
    obtain rfl := hlink.of_fault
    exact (hends rfl).mpr (heval ▸ hd)
  · rw [diverges_iff, diverges_iff, heval, StateTransition.tr_eval_dom hresp hstart]

/-- **Running a word and calling it.**  Either both go on for ever, or both leave an array,
    or both end with the same result and the same machine but for the frame pointer: the
    call puts back the one there was.  With callbacks that leave the frame pointer alone the
    machines are equal. -/
theorem exec_agrees_with_call (hH : H.IgnoresFp) (hreg : m.vm.HasWord i code len)
    (hlocal : NoOwnLocals H (vmExec m (m.vm.getWord i))) :
    ((callWord m i).Diverges H ↔ (vmExec m (m.vm.getWord i)).Diverges H) ∧
    (Reaches H (callWord m i) .fault ↔ Reaches H (vmExec m (m.vm.getWord i)) .fault) ∧
    (∀ e m', Reaches H (callWord m i) (.ret e m' []) ↔
      ∃ n, Reaches H (vmExec m (m.vm.getWord i)) (.ret e n []) ∧ m' = n.setFp m.vm.fp) ∧
    (H.KeepsFp → ∀ e m', Reaches H (callWord m i) (.ret e m' []) ↔
      Reaches H (vmExec m (m.vm.getWord i)) (.ret e m' [])) := by
  rw [hreg.exec] at hlocal ⊢
  obtain ⟨hret, hfault, hdiv⟩ := call_ends hH keepsFpIn_true hreg hlocal trivial
  refine ⟨hdiv, hfault, fun e m' => (hret e m').trans ?_, fun hkeep e m' => ?_⟩
  · simp only [and_true]
    exact Iff.rfl
  · -- The callbacks keep the frame pointer of the own level at the value it has now.
    have hkeepIn : H.KeepsFpIn (· = m.vm.fp) := hkeep.mono fun s s' h hs => h.trans hs
    have hret' := (call_ends hH hkeepIn hreg hlocal rfl).1 e
    constructor
    · intro h
      obtain ⟨n, hn, rfl, hfp⟩ := (hret' m').mp h
      rw [← hfp]
      exact hn
    · intro h
      have hcall := (hret e (m'.setFp m.vm.fp)).mpr ⟨m', h, rfl, trivial⟩
      obtain ⟨n, hn, -, hfp⟩ := (hret' _).mp hcall
      -- `n` is the end of the same run, so what is put back is what is there.
      obtain rfl : n = m' := by
        cases hn.unique_end rfl h rfl
        rfl
      rw [← hfp] at hcall
      exact hcall

end

/-- A two-byte program whose first instruction is not a local-variable opcode, with a
    `RET` after it. -/
theorem noOwnLocals_ret {H : Host W} {m n : Machine W} {v : Byte} (op : Op)
    (hop : Op.ofByte v = some op) (hlocal : op.isLocal = false)
    (hs : Step H (.start m [v, 0x51] 2) (.run n ⟨[v, 0x51], 2, 1⟩ [])) :
    NoOwnLocals H (.start m [v, 0x51] 2) := by
  intro m' cur h op' hop'
  have hret : Step H (.run n ⟨[v, 0x51], 2, 1⟩ []) (.ret 0 n []) := rfl
  obtain heq | h := h.cases_step hs
  · cases heq
    have hnext : Activation.nextOp ⟨[v, 0x51], 2, 0⟩ = some op := hop
    cases hnext.symm.trans hop'
    exact hlocal
  · obtain heq | h := h.cases_step hret
    · cases heq
      cases hop'
      rfl
    · cases h.of_final rfl

/-- A machine whose only word is `code`. -/
def oneWord (code : List Byte) (vm : Vm) : Machine Unit :=
  .boot { vm with words := fun _ => ⟨some code, code.length⟩, wordCount := 1 }

/-- The word `LIT1; RET`. -/
def lit1Word : Machine Unit := oneWord [0x74, 0x51] Vm.blank

/-- Run and called, it leaves the same machine. -/
theorem lit1_word_called :
    Reaches Host.silent (callWord lit1Word 0) (.ret 0 (lit1Word.pushed 1) []) := by
  have hs : Step Host.silent (.start lit1Word [0x74, 0x51] 2)
      (.run (lit1Word.pushed 1) ⟨[0x74, 0x51], 2, 1⟩ []) := rfl
  have hexec : Reaches Host.silent (vmExec lit1Word (lit1Word.vm.getWord 0))
      (.ret 0 (lit1Word.pushed 1) []) := .tail (.single hs) rfl
  have hblind : Host.silent.IgnoresFp :=
    ⟨fun _ _ _ _ _ _ _ h => ⟨rfl, h⟩, fun _ _ _ _ _ h => h, fun _ _ _ _ _ _ h => ⟨rfl, rfl, h⟩,
      fun _ _ _ _ _ _ h => ⟨rfl, h⟩⟩
  have hkeeps : Host.silent.KeepsFp := Host.silent_within.mono fun m m' h => by rw [h]
  have hreg : lit1Word.vm.HasWord 0 [0x74, 0x51] 2 := ⟨by decide, by decide, rfl, by decide⟩
  have hlocal : NoOwnLocals Host.silent (vmExec lit1Word (lit1Word.vm.getWord 0)) :=
    noOwnLocals_ret .LIT1 rfl rfl hs
  exact ((exec_agrees_with_call hblind hreg hlocal).2.2.2 hkeeps 0 _).mpr hexec

/-- A host whose `SYS` handler resets the stacks. -/
def resetHost : Host Unit :=
  { Host.silent with sys := fun _ _ _ _ _ m => (0, { m with vm := vmResetStacks m.vm }) }

/-- A machine with a frame of local variables, four operands of a `SYS`, and the word
    `SYS; RET`. -/
def framed : Machine Unit :=
  { oneWord [0x60, 0x51] { Vm.blank with sp := 4, rp := 1, fp := some 0 } with
    gSysHandler := some 0 }

/-- A handler that writes the frame pointer without looking at it: the call puts the old one
    back, `vm_exec` does not. -/
theorem reset_tells_call_from_exec :
    resetHost.IgnoresFp ∧ framed.vm.HasWord 0 [0x60, 0x51] 2 ∧
      NoOwnLocals resetHost (vmExec framed (framed.vm.getWord 0)) ∧
      ∃ n n', Reaches resetHost (vmExec framed (framed.vm.getWord 0)) (.ret 0 n []) ∧
        Reaches resetHost (callWord framed 0) (.ret 0 n' []) ∧
        n.vm.fp = none ∧ n'.vm.fp = some 0 := by
  have hblind : resetHost.IgnoresFp := by
    refine ⟨fun _ _ _ _ _ s t h => ⟨rfl, ?_⟩, fun _ _ _ _ _ h => h,
      fun _ _ _ _ _ _ h => ⟨rfl, rfl, h⟩, fun _ _ _ _ _ _ h => ⟨rfl, h⟩⟩
    obtain ⟨fp, rfl⟩ := h
    exact ⟨none, rfl⟩
  -- The machine after the `SYS`, with the frame pointer `fp` it is left with later.
  let after (fp : Option Nat) : Machine Unit :=
    ({ framed.popped 4 with vm := vmResetStacks (framed.popped 4).vm }.pushed 0).setFp fp
  have hsys : Step resetHost (.start framed [0x60, 0x51] 2)
      (.run (after none) ⟨[0x60, 0x51], 2, 1⟩ []) := rfl
  have hcall : Step resetHost (callWord framed 0)
      (.run (framed.setFp (some 1)) ⟨[0x60, 0x51], 2, 0⟩ [callSite framed 0]) := rfl
  have hsys' : Step resetHost
      (.run (framed.setFp (some 1)) ⟨[0x60, 0x51], 2, 0⟩ [callSite framed 0])
      (.run (after none) ⟨[0x60, 0x51], 2, 1⟩ [callSite framed 0]) := rfl
  have hret : Step resetHost (.run (after none) ⟨[0x60, 0x51], 2, 1⟩ [callSite framed 0])
      (.ret 0 (after none) [callSite framed 0]) := rfl
  have hleave := Linked.leave (H := resetHost) (callSite_ret framed 0) 0 (after none) none
  refine ⟨hblind, ⟨by decide, by decide, rfl, by decide⟩,
    noOwnLocals_ret .SYS rfl rfl hsys, after none, after (some 0),
    .tail (.single hsys) rfl, ?_, rfl, rfl⟩
  exact .head hcall (.head hsys' (.head hret hleave.to_reflTransGen))

end V4Engine
