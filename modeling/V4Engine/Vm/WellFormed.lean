/-
  V4Engine.Vm.WellFormed

  Checking bytecode with the opcode table is sound for the interpreter.

  `decode` is the front end's view of a word: instruction lengths come from
  `kPrimitiveTable` only.  The interpreter's view is the hand-written switch.
  On a dictionary of well-formed words the two agree at every instruction that
  is ever executed, so a run fetches from instruction starts only and none of
  the errors about the shape of the code can come out of it.
-/
import V4Engine.Vm.RunRules
import V4Engine.Task.Frame

namespace V4Engine

open Lib FaultM VmM

variable {W : Type}

/-! ## Decoding by the table -/

/-- The number of immediate bytes the table gives for an opcode byte. -/
def immSize (b : Byte) : Option Nat :=
  (kPrimitiveTable.find? fun r => r.1 == b.toNat).map fun r => r.2.size

/-- The instruction starts from offset `p` on, if the code splits exactly. -/
def decodeFrom (bc : List Byte) : Nat → Nat → Option (List Nat)
  | 0, p => if p = bc.length then some [] else none
  | fuel + 1, p =>
      if p = bc.length then some []
      else do
        let b ← bc[p]?
        let size ← immSize b
        let starts ← decodeFrom bc fuel (p + 1 + size)
        return p :: starts

/-- The instruction starts of a word.  Every instruction takes a byte, so that the
    length is fuel enough. -/
def decode (bc : List Byte) : Option (List Nat) := decodeFrom bc bc.length 0

/-- The instruction whose opcode byte is at offset `p`. -/
def opAt (bc : List Byte) (p : Nat) : Option Op := bc[p]?.bind Op.ofByte

/-- A word that decodes into `starts`, ends in `RET` or `JMP`, jumps to
    instruction starts only and calls registered words only. -/
structure WellFormed (wordCount : Nat) (bc : List Byte) (starts : List Nat) : Prop where
  decoded : decode bc = some starts
  last : ∃ p, starts.getLast? = some p ∧ (opAt bc p = some .RET ∨ opAt bc p = some .JMP)
  targets : ∀ p ∈ starts, ∀ op ∈ [Op.JMP, Op.JZ, Op.JNZ], opAt bc p = some op →
    ∀ off, i16At bc (p + 1) = some off → ∃ t ∈ starts, (t : Int) = (p : Int) + 3 + off.toInt
  callees : ∀ p ∈ starts, opAt bc p = some .CALL →
    ∀ idx, i16At bc (p + 1) = some idx → idx.toNat < wordCount

/-- A table of at most 256 words, all of them well formed. -/
structure Vm.WellFormedDictionary (vm : Vm) : Prop where
  wordCount : vm.wordCount ≤ 256
  words : ∀ i, i < vm.wordCount → ∃ bc starts, (vm.words i).code = some bc ∧
    (vm.words i).codeLen = bc.length ∧ WellFormed vm.wordCount bc starts

/-- The codes that speak about the shape of the code. -/
def decodeErrors : List V4Err :=
  [Err.truncatedLiteral, .truncatedJump, .jumpOutOfRange, .unknownOp, .invalidWordIdx,
   .fellOffEnd].map Err.code

/-- The instruction pointer is at the start of an instruction, and no decode error returns. -/
structure Config.Decodes (c : Config W) : Prop where
  start : ∀ m cur cs, c = .run m cur cs → ∃ starts, decode cur.bc = some starts ∧ cur.ip ∈ starts
  code : ∀ e m cs, c = .ret e m cs → e ∉ decodeErrors

/-! ### What decoding gives -/

/-- The table and the switch name the same opcodes. -/
theorem immSize_eq (b : Byte) : immSize b = (Op.ofByte b).map fun op => op.kind.size := by
  rw [immSize, kPrimitiveTable, List.find?_map, Option.map_map]
  rfl

theorem opAt_eq {bc : List Byte} {p : Nat} {b : Byte} {op : Op} (hb : bc[p]? = some b)
    (hop : Op.ofByte b = some op) : opAt bc p = some op := by
  rw [opAt, hb]
  exact hop

theorem decodeFrom_le {bc : List Byte} {fuel p : Nat} {starts : List Nat}
    (h : decodeFrom bc fuel p = some starts) : p ≤ bc.length := by
  cases fuel with
  | zero =>
      unfold decodeFrom at h
      split at h
      · omega
      · cases h
  | succ fuel =>
      unfold decodeFrom at h
      split at h
      · omega
      · obtain ⟨b, hb, -⟩ := Option.bind_eq_some_iff.mp h
        exact Nat.le_of_lt (List.getElem?_eq_some_iff.mp hb).1

/-- An instruction fits into the code, and the next one is a start unless it is
    the last. -/
def InstrAt (bc : List Byte) (starts : List Nat) (p : Nat) : Prop :=
  ∃ op, opAt bc p = some op ∧ p + 1 + op.kind.size ≤ bc.length ∧
    (p + 1 + op.kind.size ∈ starts ∨ starts.getLast? = some p)

/-- Every start is an instruction, and the first one is where decoding began. -/
theorem decodeFrom_instrAt {bc : List Byte} {fuel p : Nat} {starts : List Nat}
    (h : decodeFrom bc fuel p = some starts) :
    (starts ≠ [] → starts.head? = some p) ∧ ∀ q ∈ starts, InstrAt bc starts q := by
  induction fuel generalizing p starts with
  | zero =>
      unfold decodeFrom at h
      split at h
      · cases h
        exact ⟨fun hne => absurd rfl hne, nofun⟩
      · cases h
  | succ fuel ih =>
      unfold decodeFrom at h
      split at h
      · cases h
        exact ⟨fun hne => absurd rfl hne, nofun⟩
      · simp only [Option.bind_eq_bind, Option.bind_eq_some_iff, Option.pure_def,
          Option.some.injEq] at h
        obtain ⟨b, hb, size, hsize, rest, hrest, rfl⟩ := h
        rw [immSize_eq] at hsize
        obtain ⟨op, hop, rfl⟩ := Option.map_eq_some_iff.mp hsize
        obtain ⟨hhead, hall⟩ := ih hrest
        refine ⟨fun _ => rfl, fun q hq => ?_⟩
        rcases List.mem_cons.mp hq with rfl | hq
        · refine ⟨op, opAt_eq hb hop, decodeFrom_le hrest, ?_⟩
          -- The tail starts right behind this instruction, or this is the last one.
          by_cases hne : rest = []
          · subst hne
            exact .inr rfl
          · exact .inl (List.mem_cons_of_mem _ (List.mem_of_mem_head? (hhead hne)))
        · obtain ⟨op', hop', hle, hnext⟩ := hall q hq
          refine ⟨op', hop', hle, hnext.imp (List.mem_cons_of_mem _) fun hlast => ?_⟩
          rw [List.getLast?_cons, hlast]
          rfl

namespace WellFormed

variable {wordCount : Nat} {bc : List Byte} {starts : List Nat}
  (h : WellFormed wordCount bc starts)
include h

theorem instrAt {p : Nat} (hp : p ∈ starts) : InstrAt bc starts p :=
  (decodeFrom_instrAt h.decoded).2 p hp

/-- Execution begins at a start. -/
theorem zero_mem : 0 ∈ starts := by
  obtain ⟨p, hp, -⟩ := h.last
  have hne : starts ≠ [] := by
    rintro rfl
    cases hp
  exact List.mem_of_mem_head? ((decodeFrom_instrAt h.decoded).1 hne)

/-- Execution can only go past an instruction that is not the last one. -/
theorem next_mem {p : Nat} {op : Op} (hp : p ∈ starts) (hop : opAt bc p = some op)
    (hret : op ≠ .RET) (hjmp : op ≠ .JMP) : p + 1 + op.kind.size ∈ starts := by
  obtain ⟨op', hop', -, hnext⟩ := h.instrAt hp
  obtain rfl : op' = op := Option.some.inj (hop'.symm.trans hop)
  refine hnext.resolve_right fun hlast => ?_
  obtain ⟨q, hq, hend⟩ := h.last
  obtain rfl : q = p := Option.some.inj (hq.symm.trans hlast)
  rw [hop] at hend
  rcases hend with heq | heq
  · exact hret (Option.some.inj heq)
  · exact hjmp (Option.some.inj heq)

end WellFormed

/-! ## The invariant -/

/-- The callbacks leave the dictionary alone, and the ones of MMIO windows return
    none of the codes above. -/
structure Host.KeepsDictionary (H : Host W) : Prop where
  sys : ∀ f i x y z m, (H.sys f i x y z m).2.vm.words = m.vm.words ∧
    (H.sys f i x y z m).2.vm.wordCount = m.vm.wordCount
  read32 : ∀ f u addr out m, (H.read32 f u addr out m).2.2.vm.words = m.vm.words ∧
    (H.read32 f u addr out m).2.2.vm.wordCount = m.vm.wordCount ∧
    (H.read32 f u addr out m).1 ∉ decodeErrors
  write32 : ∀ f u addr val m, (H.write32 f u addr val m).2.vm.words = m.vm.words ∧
    (H.write32 f u addr val m).2.vm.wordCount = m.vm.wordCount ∧
    (H.write32 f u addr val m).1 ∉ decodeErrors

/-- An activation of a well-formed word about to execute one of its instructions. -/
def Activation.AtStart (wordCount : Nat) (a : Activation) : Prop :=
  a.len = a.bc.length ∧ ∃ starts, WellFormed wordCount a.bc starts ∧ a.ip ∈ starts

/-- The dictionary of `vm0` stays, and execution is at an instruction start until
    the run ends, in a fault or not. -/
def checkedCode (W : Type) (vm0 : Vm) : RunInv W where
  machine m := m.vm.words = vm0.words ∧ m.vm.wordCount = vm0.wordCount
  act := Activation.AtStart vm0.wordCount
  fp _ := True
  err e _ := e ∉ decodeErrors
  fault := True

section

variable {H : Host W} {vm0 : Vm}

theorem checked_panic {e : Err} (he : e.code ≠ 0 ∧ e.code ∉ decodeErrors) :
    PanicAllows H (checkedCode W vm0).effect e.code :=
  ⟨fun _ _ _ _ => he, fun _ _ _ => trivial⟩

theorem checked_stack : StackAllows H (checkedCode W vm0).effect where
  ds _ _ _ hm _ := hm
  dsOut _ _ _ := trivial
  rsOut _ _ _ := trivial
  overflow := checked_panic (by decide)
  underflow := checked_panic (by decide)
  divByZero := checked_panic (by decide)

theorem checked_local : LocalAllows H (checkedCode W vm0).effect where
  set _ _ _ _ hm _ _ _ := hm
  noFrame := checked_panic (by decide)

theorem checked_memory (hH : H.KeepsDictionary) :
    MemoryAllows H (checkedCode W vm0).effect (· ∉ decodeErrors) where
  ram _ _ _ hm _ := hm
  ramOut _ _ _ _ _ := trivial
  mmioOut _ _ _ := trivial
  read32 f u addr out m hm := by
    obtain ⟨hwords, hcount, hcode⟩ := hH.read32 f u addr out m
    exact ⟨⟨hwords.trans hm.1, hcount.trans hm.2⟩, hcode⟩
  write32 f u addr val m hm := by
    obtain ⟨hwords, hcount, hcode⟩ := hH.write32 f u addr val m
    exact ⟨⟨hwords.trans hm.1, hcount.trans hm.2⟩, hcode⟩
  ok := by decide
  unaligned := by decide
  oobMemory := by decide
  fails _ _ _ hE he := ⟨he, hE⟩

theorem checked_task : TaskAllows (checkedCode W vm0).effect where
  backend m o vm hm hs := by
    have hf := (backendStep_frame hs).1
    exact ⟨hf.words.trans hm.1, hf.wordCount.trans hm.2⟩
  backendOut _ _ _ _ := trivial
  world _ _ hm := hm
  counters _ _ _ _ hm := hm

theorem checked_closed : (checkedCode W vm0).Closed :=
  ⟨fun _ hm => ⟨trivial, hm⟩, fun _ _ hm _ => hm, fun _ _ _ he _ => he⟩

/-- The immediate of the instruction at a start is there, its jumps and calls are
    in range, and execution goes on at a start. -/
theorem checked_code (hd : vm0.WellFormedDictionary) {a : Activation} {starts : List Nat}
    (hlen : a.len = a.bc.length) (hwf : WellFormed vm0.wordCount a.bc starts)
    (hip : a.ip ∈ starts) {op : Op} (hop : opAt a.bc a.ip = some op) :
    CodeMeets H (checkedCode W vm0).effect a (a.ip + 1) op ((checkedCode W vm0).flow a) := by
  have hF := (checkedCode W vm0).composable
  have out : CodeOut (checkedCode W vm0).effect a := fun _ _ _ => trivial
  obtain ⟨op', hop', hfits, -⟩ := hwf.instrAt hip
  obtain rfl : op' = op := Option.some.inj (hop'.symm.trans hop)
  -- The position behind the instruction, for every opcode execution goes past.
  have hnext : ∀ n, op'.kind.size = n → op' ≠ .RET → op' ≠ .JMP →
      (checkedCode W vm0).flow a (.next (a.ip + 1 + n)) :=
    fun n hn hret hjmp => ⟨hlen, starts, hwf, hn ▸ hwf.next_mem hip hop hret hjmp⟩
  have hsize : ∀ n, op'.kind.size = n → a.ip + 1 + n ≤ a.len := fun n hn => by omega
  refine ⟨fun hk hret => ?_, fun hk => ?_, fun hk => ?_, fun hk => ?_, fun hk => ?_, fun hk => ?_,
    fun _ => trivial, fun heq w => ?_⟩
  · exact hnext 0 (by rw [hk]; rfl) hret (by rintro rfl; cases hk)
  · have hn : op'.kind.size = 1 := by rw [hk]; rfl
    exact (imm8_meets hF out (.inl (hsize 1 hn))).mono fun _ _ =>
      hnext 1 hn (by rintro rfl; cases hk) (by rintro rfl; cases hk)
  · have hn : op'.kind.size = 2 := by rw [hk]; rfl
    exact (imm16_meets hF out (.inl (hsize 2 hn))).mono fun _ _ =>
      hnext 2 hn (by rintro rfl; cases hk) (by rintro rfl; cases hk)
  · have hn : op'.kind.size = 4 := by rw [hk]; rfl
    exact (imm32_meets hF out (.inl (hsize 4 hn))).mono fun _ _ =>
      hnext 4 hn (by rintro rfl; cases hk) (by rintro rfl; cases hk)
  · have hn : op'.kind.size = 2 := by rw [hk]; rfl
    have hjump : op' ∈ [Op.JMP, Op.JZ, Op.JNZ] := by
      revert hk
      cases op' <;> decide
    refine (imm16_meets hF out (.inl (hsize 2 hn))).mono fun off hoff => ⟨?_, fun hjmp =>
      hnext 2 hn (by rintro rfl; cases hk) hjmp⟩
    obtain ⟨t, ht, heq⟩ := hwf.targets a.ip hip op' hjump hop off hoff.2
    have htgt : ((a.ip + 1 + 2 : Nat) : Int) + off.toInt = t := by omega
    obtain ⟨opt, -, hfit, -⟩ := hwf.instrAt ht
    refine jumpTo_meets hF (.inl ⟨by omega, by omega⟩) fun _ _ => ?_
    rw [htgt, Int.toNat_natCast]
    exact ⟨hlen, starts, hwf, ht⟩
  · have hn : op'.kind.size = 2 := by rw [hk]; rfl
    have hcall : op' = .CALL := by
      revert hk
      cases op' <;> decide
    refine (imm16_meets hF out (.inl (hsize 2 hn))).mono fun idx hidx => ?_
    have hlt := hwf.callees a.ip hip (hcall ▸ hop) idx hidx.2
    have hcount := hd.wordCount
    refine callee_meets hF (.inl fun m hm => ?_) (checked_panic (by decide))
      (fun _ _ _ => trivial) fun m code hm hidx' _ hcode hpos => ?_
    · rw [hm.2, Nat.mod_eq_of_lt (by omega)]
      exact hlt
    · rw [hm.1] at hcode ⊢
      obtain ⟨bc, starts', hbc, hbclen, hwf'⟩ := hd.words idx.toNat hlt
      obtain rfl : bc = code := Option.some.inj (hbc.symm.trans hcode)
      refine ⟨⟨?_, starts', hwf', hwf'.zero_mem⟩, hnext 2 hn (by rw [hcall]; decide)
        (by rw [hcall]; decide)⟩
      show (vm0.words idx.toNat).codeLen.toNat = bc.length
      rw [hbclen, Int.toNat_natCast]
  · subst heq
    exact hnext 0 rfl (by decide) (by decide)

/-- Every instruction of a well-formed word. -/
theorem checked_fetch (hd : vm0.WellFormedDictionary) (hH : H.KeepsDictionary) {a : Activation}
    (ha : a.AtStart vm0.wordCount) :
    Meets (checkedCode W vm0).effect (fetch H a) ((checkedCode W vm0).flow a) := by
  have hF := (checkedCode W vm0).composable
  have hS : StackAllows H (checkedCode W vm0).effect := checked_stack
  obtain ⟨hlen, starts, hwf, hip⟩ := ha
  obtain ⟨op, hop, hfits, -⟩ := hwf.instrAt hip
  have hnext : a.nextOp = some op := by
    rw [Activation.nextOp, if_pos (by omega)]
    exact hop
  refine fetch_meets hF (fun _ _ _ => trivial) (.inl (by omega)) (fun _ => .inl ?_)
    fun op' _ hop' => ?_
  · rw [hnext]
    rfl
  · obtain rfl : op = op' := Option.some.inj (hnext.symm.trans hop')
    exact execOp_meets hF hS.stackMeets (checked_code hd hlen hwf hip hop)
      (hS.rsMeets hF (fun _ _ _ hm _ => hm) op) (fun _ => checked_local.localMeets hF hS)
      (fun _ => (checked_memory hH).memoryMeets hF hS)
      (fun _ => sys_meets hF fun f i x y z m hm =>
        ⟨(hH.sys f i x y z m).1.trans hm.1, (hH.sys f i x y z m).2.trans hm.2⟩)
      fun _ => checked_task.taskMeets hF

end

/-! ## Every run -/

/-- **Soundness of the check.**  A run of a well-formed word over a dictionary of
    well-formed words fetches its opcodes from instruction starts, and fails with
    none of the codes about the shape of the code. -/
theorem vmExecRaw_decodes (H : Host W) (hH : H.KeepsDictionary) (m : Machine W)
    (hd : m.vm.WellFormedDictionary) (bc : List Byte) {starts : List Nat}
    (hbc : WellFormed m.vm.wordCount bc starts) {c : Config W}
    (h : Reaches H (.start m bc bc.length) c) : c.Decodes := by
  have hstart : (checkedCode W m.vm).Holds [] (.start m bc bc.length) :=
    ⟨⟨rfl, rfl⟩, ⟨rfl, starts, hbc, hbc.zero_mem⟩, [], rfl, nofun⟩
  have hend : (checkedCode W m.vm).Holds [] c :=
    RunInv.Holds.reaches checked_closed (fun cur ha => checked_fetch hd hH ha)
      (fun w cur ha => checked_task.pollOnce (checkedCode W m.vm).composable checked_stack
        w cur.ip ha ha) hstart h
  constructor
  · rintro m' cur cs rfl
    obtain ⟨-, starts', hwf, hip⟩ := hend.2.1
    exact ⟨starts', hwf.decoded, hip⟩
  · rintro e m' cs rfl
    obtain ⟨rfl, -⟩ | ⟨-, hcode⟩ := hend.1
    · decide
    · exact hcode

theorem Host.silent_keepsDictionary : Host.silent.KeepsDictionary :=
  have hok : (0 : V4Err) ∉ decodeErrors := by decide
  ⟨fun _ _ _ _ _ _ => ⟨rfl, rfl⟩, fun _ _ _ _ _ => ⟨rfl, rfl, hok⟩,
    fun _ _ _ _ _ => ⟨rfl, rfl, hok⟩⟩

theorem oneWordVm_wellFormed : oneWordVm.WellFormedDictionary where
  wordCount := by decide
  words _ _ := by
    have hjump : ∀ p ∈ [0], ∀ op ∈ [Op.JMP, Op.JZ, Op.JNZ], opAt [0x51] p ≠ some op := by decide
    have hcall : ∀ p ∈ [0], opAt [0x51] p ≠ some .CALL := by decide
    exact ⟨[0x51], [0], rfl, rfl, by decide, ⟨0, rfl, .inl rfl⟩,
      fun p hp op hop heq => absurd heq (hjump p hp op hop),
      fun p hp heq => absurd heq (hcall p hp)⟩

/-- `CALL 0` followed by `RET`, up to the start of the callee. -/
theorem vmExecRaw_decodes_call : (Config.run ((Machine.boot oneWordVm).setFp (some 0))
    ⟨[0x51], 1, 0⟩ [⟨⟨[0x50, 0, 0, 0x51], 4, 3⟩, none⟩]).Decodes := by
  have hjump : ∀ p ∈ [0, 3], ∀ op ∈ [Op.JMP, Op.JZ, Op.JNZ],
      opAt [0x50, 0, 0, 0x51] p ≠ some op := by decide
  have hcall : ∀ p ∈ [0, 3], opAt [0x50, 0, 0, 0x51] p = some .CALL →
      i16At [0x50, 0, 0, 0x51] (p + 1) = some 0 := by decide
  have hwf : WellFormed 1 [0x50, 0, 0, 0x51] [0, 3] := by
    refine ⟨by decide, ⟨3, rfl, .inl rfl⟩, fun p hp op hop heq => absurd heq (hjump p hp op hop),
      fun p hp heq idx hidx => ?_⟩
    rw [hcall p hp heq] at hidx
    cases hidx
    decide
  exact vmExecRaw_decodes Host.silent Host.silent_keepsDictionary (Machine.boot oneWordVm)
    oneWordVm_wellFormed [0x50, 0, 0, 0x51] hwf (.single rfl)

end V4Engine
