/-
  V4Engine.Vm.Termination

  Programs that cannot run for ever.

  A word is straight when its jumps go forward, it calls words of a lower rank only
  and never waits for a message.  Every step of a run of straight words lowers the
  budget of its configuration: what is left of each activation, counted in bytes and
  weighted with the cost of the dearest instruction of its rank.  The rank is any
  function of the code; in a dictionary whose words call earlier words, the index of
  a word is one (`indexRank`).

  The budget counts the steps of the interpreter.  A compiled one need not go on where
  its arithmetic is undefined, so a run returns within the budget or gets there
  (`ordered_words_return`).
-/
import V4Engine.Vm.WellFormed
import V4Engine.Vm.Sandbox
import V4Engine.Vm.HostArith
import V4Engine.Lib.Iterate

namespace V4Engine

open Lib FaultM VmM

variable {W : Type}

/-! ## Straight words -/

/-- The jumps of `bc` go forward, and it never waits. -/
structure Onward (bc : List Byte) (starts : List Nat) : Prop where
  forward : ∀ p ∈ starts, ∀ op ∈ [Op.JMP, Op.JZ, Op.JNZ], opAt bc p = some op →
    ∀ off, i16At bc (p + 1) = some off → (p : Int) < (p : Int) + 3 + off.toInt
  waits : ∀ p ∈ starts, opAt bc p ≠ some .TASK_RECEIVE_BLOCKING

/-- Besides, its calls go down in rank. -/
structure Straight (vm : Vm) (rank : List Byte → Nat) (bc : List Byte) (starts : List Nat) :
    Prop extends Onward bc starts where
  calls : ∀ p ∈ starts, opAt bc p = some .CALL → ∀ idx, i16At bc (p + 1) = some idx →
    ∀ code, (vm.words idx.toNat).code = some code → rank code < rank bc

/-- A well-formed word of at most `L` bytes that is straight. -/
def StraightWord (vm : Vm) (rank : List Byte → Nat) (L : Nat) (bc : List Byte) : Prop :=
  bc.length ≤ L ∧ ∃ starts, WellFormed vm.wordCount bc starts ∧ Straight vm rank bc starts

/-- A dictionary of straight words. -/
structure Vm.Stratified (vm : Vm) (rank : List Byte → Nat) (L : Nat) : Prop where
  wordCount : vm.wordCount ≤ 256
  words : ∀ i, i < vm.wordCount → ∃ bc, (vm.words i).code = some bc ∧
    (vm.words i).codeLen = bc.length ∧ StraightWord vm rank L bc

/-! ## The budget -/

/-- The most steps one instruction of rank `r` can cost, a call and its return included. -/
def cost (L : Nat) : Nat → Nat
  | 0 => 1
  | r + 1 => (L + 1) * cost L r + 2

theorem cost_pos (L r : Nat) : 0 < cost L r := by
  cases r with
  | zero => exact Nat.one_pos
  | succ r => exact Nat.succ_pos _

theorem cost_le_succ (L r : Nat) : cost L r ≤ cost L (r + 1) := by
  rw [cost, Nat.succ_mul]
  omega

/-- A call from a higher rank has the budget for its callee. -/
theorem callee_cost {L r r' : Nat} (h : r < r') : (L + 1) * cost L r + 2 ≤ cost L r' := by
  induction r' with
  | zero => omega
  | succ r' ih =>
      rcases Nat.lt_or_eq_of_le (Nat.le_of_lt_succ h) with hlt | rfl
      · exact Nat.le_trans (ih hlt) (cost_le_succ L r')
      · exact Nat.le_refl _

section

variable (rank : List Byte → Nat) (L : Nat)

/-- What an activation can still cost. -/
def Activation.budget (a : Activation) : Nat := (a.len - a.ip + 1) * cost L (rank a.bc)

/-- Every suspended caller costs its rest, and one step to come back to it. -/
def callersBudget : List Caller → Nat
  | [] => 0
  | x :: cs => x.act.budget rank L + 1 + callersBudget cs

def Config.budget : Config W → Nat
  | .run _ cur cs => cur.budget rank L + callersBudget rank L cs
  | .ret _ _ cs => callersBudget rank L cs
  | _ => 0

end

variable {rank : List Byte → Nat} {L : Nat}

theorem Activation.budget_pos (a : Activation) : 0 < a.budget rank L :=
  Nat.mul_pos (Nat.succ_pos _) (cost_pos L _)

/-- An instruction that goes on further down the code pays for itself. -/
theorem budget_advance {a : Activation} {ip : Nat} (hlt : a.ip < ip) (hle : ip ≤ a.len) :
    Activation.budget rank L { a with ip := ip } + cost L (rank a.bc) ≤ a.budget rank L := by
  have hrest : a.len - ip + 1 + 1 ≤ a.len - a.ip + 1 := by omega
  have hmul := Nat.mul_le_mul_right (cost L (rank a.bc)) hrest
  rwa [Nat.succ_mul] at hmul

/-- A callee costs less than one instruction of its caller. -/
theorem budget_callee {a c : Activation} (hrank : rank c.bc < rank a.bc) (hlen : c.len ≤ L) :
    c.budget rank L + 2 ≤ cost L (rank a.bc) := by
  have hrest : c.len - c.ip + 1 ≤ L + 1 := by omega
  have hmul := Nat.mul_le_mul_right (cost L (rank c.bc)) hrest
  exact Nat.le_trans (Nat.add_le_add_right hmul 2) (callee_cost hrank)

/-! ## One step -/

/-- An activation about to execute an instruction of a straight word. -/
structure Activation.Fits (vm0 : Vm) (rank : List Byte → Nat) (L : Nat) (a : Activation) :
    Prop where
  len : a.len = a.bc.length
  short : a.len ≤ L
  word : ∃ starts, WellFormed vm0.wordCount a.bc starts ∧ Straight vm0 rank a.bc starts ∧
    a.ip ∈ starts

/-- Where an instruction of `a` may go on. -/
def Activation.Progress (vm0 : Vm) (rank : List Byte → Nat) (L : Nat) (a : Activation) :
    Flow → Prop
  | .next ip => Activation.Fits vm0 rank L { a with ip := ip } ∧ a.ip < ip
  | .ret => True
  | .call c ip => c.Fits vm0 rank L ∧ rank c.bc < rank a.bc ∧
      Activation.Fits vm0 rank L { a with ip := ip } ∧ a.ip < ip
  | .wait _ _ => False

variable {vm0 : Vm} {H : Host W}

theorem Activation.Fits.ip_lt {a : Activation} (h : a.Fits vm0 rank L) : a.ip < a.len := by
  obtain ⟨starts, hwf, -, hip⟩ := h.word
  obtain ⟨op, -, hfits, -⟩ := hwf.instrAt hip
  have := h.len
  omega

/-- The immediate of the instruction at a start is there, and execution goes on behind it,
    or further down, or in a word of a lower rank. -/
theorem straight_code (hd : vm0.Stratified rank L) {a : Activation} (ha : a.Fits vm0 rank L)
    {starts : List Nat} (hwf : WellFormed vm0.wordCount a.bc starts)
    (hs : Straight vm0 rank a.bc starts) (hip : a.ip ∈ starts) {op : Op}
    (hop : opAt a.bc a.ip = some op) :
    CodeMeets H (checkedCode W vm0).effect a (a.ip + 1) op (a.Progress vm0 rank L) := by
  have hF := (checkedCode W vm0).composable
  have out : CodeOut (checkedCode W vm0).effect a := fun _ _ _ => trivial
  have hlen := ha.len
  obtain ⟨op', hop', hfits, -⟩ := hwf.instrAt hip
  obtain rfl : op' = op := Option.some.inj (hop'.symm.trans hop)
  have behind : ∀ n, op'.kind.size = n → op' ≠ .RET → op' ≠ .JMP →
      Activation.Fits vm0 rank L { a with ip := a.ip + 1 + n } ∧ a.ip < a.ip + 1 + n :=
    fun n hn hret hjmp => ⟨⟨hlen, ha.short, starts, hwf, hs, hn ▸ hwf.next_mem hip hop hret hjmp⟩,
      by omega⟩
  have hsize : ∀ n, op'.kind.size = n → a.ip + 1 + n ≤ a.len := fun n hn => by omega
  refine ⟨fun hk hret => ?_, fun hk => ?_, fun hk => ?_, fun hk => ?_, fun hk => ?_, fun hk => ?_,
    fun _ => trivial, fun heq w => ?_⟩
  · exact behind 0 (by rw [hk]; rfl) hret (by rintro rfl; cases hk)
  · have hn : op'.kind.size = 1 := by rw [hk]; rfl
    exact (imm8_meets hF out (.inl (hsize 1 hn))).mono fun _ _ =>
      behind 1 hn (by rintro rfl; cases hk) (by rintro rfl; cases hk)
  · have hn : op'.kind.size = 2 := by rw [hk]; rfl
    exact (imm16_meets hF out (.inl (hsize 2 hn))).mono fun _ _ =>
      behind 2 hn (by rintro rfl; cases hk) (by rintro rfl; cases hk)
  · have hn : op'.kind.size = 4 := by rw [hk]; rfl
    exact (imm32_meets hF out (.inl (hsize 4 hn))).mono fun _ _ =>
      behind 4 hn (by rintro rfl; cases hk) (by rintro rfl; cases hk)
  · have hn : op'.kind.size = 2 := by rw [hk]; rfl
    have hjump : op' ∈ [Op.JMP, Op.JZ, Op.JNZ] := by
      revert hk
      cases op' <;> decide
    -- the target is the start of an instruction, and further down
    refine (imm16_meets hF out (.inl (hsize 2 hn))).mono fun off hoff => ⟨?_, fun hjmp =>
      behind 2 hn (by rintro rfl; cases hk) hjmp⟩
    obtain ⟨t, ht, heq⟩ := hwf.targets a.ip hip op' hjump hop off hoff.2
    have hforward := hs.forward a.ip hip op' hjump hop off hoff.2
    have htgt : ((a.ip + 1 + 2 : Nat) : Int) + off.toInt = t := by omega
    obtain ⟨opt, -, hfit, -⟩ := hwf.instrAt ht
    refine jumpTo_meets hF (.inl ⟨by omega, by omega⟩) fun _ _ => ?_
    rw [htgt, Int.toNat_natCast]
    exact ⟨⟨hlen, ha.short, starts, hwf, hs, ht⟩, by omega⟩
  · have hn : op'.kind.size = 2 := by rw [hk]; rfl
    have hcall : op' = .CALL := by
      revert hk
      cases op' <;> decide
    refine (imm16_meets hF out (.inl (hsize 2 hn))).mono fun idx hidx => ?_
    -- the callee is a registered word, of a lower rank
    have hlt := hwf.callees a.ip hip (hcall ▸ hop) idx hidx.2
    have hcount := hd.wordCount
    refine callee_meets hF (.inl fun m hm => ?_) (checked_panic (by decide))
      (fun _ _ _ => trivial) fun m code hm _ _ hcode _ => ?_
    · rw [hm.2, Nat.mod_eq_of_lt (by omega)]
      exact hlt
    · rw [hm.1] at hcode ⊢
      have hrank := hs.calls a.ip hip (hcall ▸ hop) idx hidx.2 code hcode
      obtain ⟨bc, hbc, hbclen, hshort, starts', hwf', hs'⟩ := hd.words idx.toNat hlt
      obtain rfl : bc = code := Option.some.inj (hbc.symm.trans hcode)
      have hcodeLen : (vm0.words idx.toNat).codeLen.toNat = bc.length := by
        rw [hbclen, Int.toNat_natCast]
      refine ⟨⟨hcodeLen, ?_, starts', hwf', hs', hwf'.zero_mem⟩, hrank,
        behind 2 hn (by rw [hcall]; decide) (by rw [hcall]; decide)⟩
      show (vm0.words idx.toNat).codeLen.toNat ≤ L
      rw [hcodeLen]
      exact hshort
  · exact hs.waits a.ip hip (heq ▸ hop)

/-- **One instruction** of a straight word makes progress. -/
theorem straight_fetch (hd : vm0.Stratified rank L) (hH : H.KeepsDictionary) {a : Activation}
    (ha : a.Fits vm0 rank L) :
    Meets (checkedCode W vm0).effect (fetch H a) (a.Progress vm0 rank L) := by
  have hF := (checkedCode W vm0).composable
  have hS : StackAllows H (checkedCode W vm0).effect := checked_stack
  have hlt := ha.ip_lt
  obtain ⟨starts, hwf, hs, hip⟩ := ha.word
  obtain ⟨op, hop, -, -⟩ := hwf.instrAt hip
  have hnext : a.nextOp = some op := by
    rw [Activation.nextOp, if_pos hlt]
    exact hop
  refine fetch_meets hF (fun _ _ _ => trivial) (.inl hlt) (fun _ => .inl ?_) fun op' _ hop' => ?_
  · rw [hnext]
    rfl
  · obtain rfl : op = op' := Option.some.inj (hnext.symm.trans hop')
    exact execOp_meets hF hS.stackMeets (straight_code hd ha hwf hs hip hop)
      (hS.rsMeets hF (fun _ _ _ hm _ => hm) op) (fun _ => checked_local.localMeets hF hS)
      (fun _ => (checked_memory hH).memoryMeets hF hS)
      (fun _ => sys_meets hF fun f i x y z m hm =>
        ⟨(hH.sys f i x y z m).1.trans hm.1, (hH.sys f i x y z m).2.trans hm.2⟩)
      fun _ => checked_task.taskMeets hF

/-- The invariant of a run of straight words: the dictionary stays, and every activation
    is at an instruction of a straight word. -/
def Config.Straight (vm0 : Vm) (rank : List Byte → Nat) (L : Nat) : Config W → Prop
  | .run m cur cs => (checkedCode W vm0).machine m ∧ cur.Fits vm0 rank L ∧
      ∀ x ∈ cs, x.act.Fits vm0 rank L
  | .poll _ _ _ _ => False
  | .ret e m cs => (e = 0 → (checkedCode W vm0).machine m) ∧ ∀ x ∈ cs, x.act.Fits vm0 rank L
  | .fault => True

/-- An instruction that makes progress pays for the configuration it leads to. -/
theorem straight_settle {m : Machine W} {cur : Activation} {cs : List Caller}
    (hcs : ∀ x ∈ cs, x.act.Fits vm0 rank L) {o : Outcome V4Err (Machine W) Flow}
    (h : (checkedCode W vm0).effect.Admits (cur.Progress vm0 rank L) m o) :
    (settle cur cs o).Straight vm0 rank L ∧
      (settle cur cs o).budget rank L < (Config.run m cur cs).budget rank L := by
  have hpos : 0 < cur.budget rank L := cur.budget_pos
  match o, h with
  | .ok (.next ip) m', h =>
      -- an instruction further on leaves the cost of one call, and more, to spare
      obtain ⟨hm, hfits, hlt⟩ := h
      have hpay : Activation.budget rank L { cur with ip := ip } + cost L (rank cur.bc) ≤
          cur.budget rank L := budget_advance hlt (Nat.le_of_lt hfits.ip_lt)
      have hcost := cost_pos L (rank cur.bc)
      exact ⟨⟨hm, hfits, hcs⟩, by simp only [settle, Config.budget]; omega⟩
  | .ok .ret m', h =>
      exact ⟨⟨fun _ => h.1, hcs⟩, by simp only [settle, Config.budget]; omega⟩
  | .ok (.call c ip) m', h =>
      -- the callee is paid from what the caller saves
      obtain ⟨hm, hc, hrank, hfits, hlt⟩ := h
      have hpay : Activation.budget rank L { cur with ip := ip } + cost L (rank cur.bc) ≤
          cur.budget rank L := budget_advance hlt (Nat.le_of_lt hfits.ip_lt)
      have hcallee := budget_callee (L := L) hrank hc.short
      refine ⟨⟨hm, hc, ?_⟩, by simp only [settle, Config.budget, callersBudget]; omega⟩
      exact List.forall_mem_cons.mpr ⟨hfits, hcs⟩
  | .err e m', h =>
      exact ⟨⟨fun he => absurd he h.1, hcs⟩, by simp only [settle, Config.budget]; omega⟩
  | .fault, _ => exact ⟨trivial, by simp only [settle, Config.budget]; omega⟩

/-- **One step** keeps the invariant and lowers the budget. -/
theorem Config.Straight.step (hd : vm0.Stratified rank L) (hH : H.KeepsDictionary)
    {c d : Config W} (hc : c.Straight vm0 rank L) (hs : Step H c d) :
    d.Straight vm0 rank L ∧ d.budget rank L < c.budget rank L := by
  obtain ⟨m, cur, cs, rfl, rfl⟩ | ⟨w, m, cur, cs, rfl, -⟩ | ⟨m, x, cs, rfl, rfl⟩
    | ⟨e, m, x, cs, he, rfl, rfl⟩ := hs.cases
  · exact straight_settle hc.2.2 (straight_fetch hd hH hc.2.1 m hc.1)
  · exact hc.elim
  · obtain ⟨hx, hcs⟩ := List.forall_mem_cons.mp hc.2
    refine ⟨⟨hc.1 rfl, hx, hcs⟩, ?_⟩
    simp only [Config.budget, callersBudget]
    omega
  · obtain ⟨-, hcs⟩ := List.forall_mem_cons.mp hc.2
    refine ⟨⟨fun h0 => absurd h0 he, hcs⟩, ?_⟩
    simp only [Config.budget, callersBudget]
    omega

/-! ## Every run -/

/-- In a legal VM whose words are straight, `vm_exec_raw` returns from every straight word,
    within a number of steps known before it starts. -/
theorem straight_word_returns (hH : H.KeepsDictionary) (hB : H.KeepsSandbox) {m : Machine W}
    (hm : m.vm.Sandboxed) (hd : m.vm.Stratified rank L) {bc : List Byte}
    (hbc : StraightWord m.vm rank L bc) :
    ∃ k e m', k ≤ (bc.length + 1) * cost L (rank bc) ∧
      iterate (step H) k (.start m bc bc.length) = some (.ret e m' []) := by
  obtain ⟨hshort, starts, hwf, hs⟩ := hbc
  have hstart : (Config.start m bc bc.length).Straight m.vm rank L :=
    ⟨⟨rfl, rfl⟩, ⟨rfl, hshort, starts, hwf, hs, hwf.zero_mem⟩, nofun⟩
  obtain ⟨k, d, hk, hd', hend⟩ := haltsWithin_of_decreases (Config.budget rank L)
    (fun c d (hc : Config.Straight m.vm rank L c) hs => hc.step hd hH hs) hstart
  have hreach : Reaches H (.start m bc bc.length) d := reaches_iff_iterate.mpr ⟨k, hd'⟩
  have hsandboxed : (sandbox W).Holds [] (.start m bc bc.length) :=
    ⟨hm, ⟨Nat.zero_le _, rfl⟩, [], rfl, nofun⟩
  -- a legal VM never faults, so the run can only end by returning
  have hsafe : (sandbox W).Holds [] d :=
    RunInv.Holds.reaches sandbox_closed (fun cur ha => sandbox_fetch hB ha)
      (fun w cur ha => sandbox_task.pollOnce (sandbox W).composable (sandbox_stack hB) w cur.ip
        ha ha) hsandboxed hreach
  obtain rfl | ⟨e, m', rfl⟩ := step_eq_none hend
  · exact hsafe.elim
  · refine ⟨k, e, m', Nat.le_trans hk ?_, hd'⟩
    show Activation.budget rank L ⟨bc, bc.length, 0⟩ + 0 ≤ _
    exact Nat.le_refl _

/-! ## Words that call earlier words -/

/-- Every call in `bc` is to a word below index `n`. -/
def CallsBelow (n : Nat) (bc : List Byte) (starts : List Nat) : Prop :=
  ∀ p ∈ starts, opAt bc p = some .CALL → ∀ idx, i16At bc (p + 1) = some idx → idx.toNat < n

/-- A dictionary as a compiler fills it, one word after the other: each word jumps forward
    and calls words registered before it. -/
structure Vm.InOrder (vm : Vm) (L : Nat) : Prop where
  wordCount : vm.wordCount ≤ 256
  words : ∀ i, i < vm.wordCount → ∃ bc, (vm.words i).code = some bc ∧
    (vm.words i).codeLen = bc.length ∧ bc.length ≤ L ∧
    ∃ starts, WellFormed vm.wordCount bc starts ∧ Onward bc starts ∧ CallsBelow i bc starts

/-- The least index `bc` is registered at, `wordCount` for a code that is not. -/
def indexRank (vm : Vm) (bc : List Byte) : Nat :=
  (List.range vm.wordCount).findIdx fun i => (vm.words i).code == some bc

theorem indexRank_le_wordCount (vm : Vm) (bc : List Byte) : indexRank vm bc ≤ vm.wordCount := by
  have h : indexRank vm bc ≤ (List.range vm.wordCount).length := List.findIdx_le_length
  rwa [List.length_range] at h

theorem indexRank_le {vm : Vm} {i : Nat} {bc : List Byte} (hcode : (vm.words i).code = some bc) :
    indexRank vm bc ≤ i := by
  refine Nat.le_of_not_lt fun hlt => ?_
  have hbefore := List.not_of_lt_findIdx hlt
  rw [List.getElem_range, hcode] at hbefore
  exact Bool.noConfusion (hbefore.symm.trans (beq_self_eq_true _))

theorem code_indexRank {vm : Vm} {bc : List Byte} (h : indexRank vm bc < vm.wordCount) :
    (vm.words (indexRank vm bc)).code = some bc := by
  have hlt : indexRank vm bc < (List.range vm.wordCount).length := by rwa [List.length_range]
  have hfound : ((vm.words (List.range vm.wordCount)[indexRank vm bc]).code == some bc) = true :=
    List.findIdx_getElem (w := hlt)
  rw [List.getElem_range] at hfound
  exact eq_of_beq hfound

theorem cost_mono {r r' : Nat} (h : r ≤ r') (L : Nat) : cost L r ≤ cost L r' := by
  induction h with
  | refl => exact Nat.le_refl _
  | step _ ih => exact Nat.le_trans ih (cost_le_succ L _)

/-- A code that calls words below its rank calls down in rank. -/
theorem StraightWord.ofIndex {vm : Vm} {L : Nat} {bc : List Byte} {starts : List Nat}
    (hshort : bc.length ≤ L) (hwf : WellFormed vm.wordCount bc starts) (ho : Onward bc starts)
    (hcalls : CallsBelow (indexRank vm bc) bc starts) : StraightWord vm (indexRank vm) L bc := by
  refine ⟨hshort, starts, hwf, ho, fun p hp hop idx hidx code hcode => ?_⟩
  exact Nat.lt_of_le_of_lt (indexRank_le hcode) (hcalls p hp hop idx hidx)

theorem Vm.InOrder.stratified {vm : Vm} {L : Nat} (h : vm.InOrder L) :
    vm.Stratified (indexRank vm) L := by
  refine ⟨h.wordCount, fun i hi => ?_⟩
  obtain ⟨bc, hcode, hlen, -⟩ := h.words i hi
  -- the same code may stand at an earlier index, and then it calls below that
  have hrank := Nat.lt_of_le_of_lt (indexRank_le hcode) hi
  obtain ⟨bc', hcode', -, hshort, starts, hwf, ho, hcalls⟩ := h.words _ hrank
  obtain rfl : bc = bc' := Option.some.inj ((code_indexRank hrank).symm.trans hcode')
  exact ⟨bc, hcode, hlen, .ofIndex hshort hwf ho hcalls⟩

/-- A code of a dictionary in order is straight, whether it is registered or not. -/
theorem Vm.InOrder.straightWord {vm : Vm} {L : Nat} (hd : vm.InOrder L) {bc : List Byte}
    {starts : List Nat} (hshort : bc.length ≤ L) (hwf : WellFormed vm.wordCount bc starts)
    (ho : Onward bc starts) : StraightWord vm (indexRank vm) L bc := by
  rcases Nat.lt_or_ge (indexRank vm bc) vm.wordCount with hlt | hge
  · obtain ⟨bc', hcode', -, -, starts', hwf', -, hcalls⟩ := hd.words _ hlt
    obtain rfl : bc = bc' := Option.some.inj ((code_indexRank hlt).symm.trans hcode')
    obtain rfl : starts = starts' := Option.some.inj (hwf.decoded.symm.trans hwf'.decoded)
    exact .ofIndex hshort hwf ho hcalls
  · exact .ofIndex hshort hwf ho fun p hp hop idx hidx =>
      Nat.lt_of_lt_of_le (hwf.callees p hp hop idx hidx) hge

end V4Engine
