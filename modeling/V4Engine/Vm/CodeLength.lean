/-
  V4Engine.Vm.CodeLength

  The length of a word's code, reported and executed.

  Registration takes an `int`, the dictionary stores it, and `vm_exec` and `CALL`
  execute that many bytes; `vm_word_get_code_len` returns a 16-bit value.  The words
  of a VM are those of its dictionary, with the bytes their code pointers lead to
  (`Vm.Carries`).
-/
import V4Engine.Vm.Dictionary
import V4Engine.Vm.WordEntry

namespace V4Engine

open Lib FaultM VmM

variable {W : Type}

/-! ## Reporting -/

def vmWordGetCodeLen (word : Option NamedWord) : BitVec 16 :=
  match word with
  | none => 0
  | some w => BitVec.ofInt 16 w.codeLen

/-- The dictionary of the VM is `d`, and `bytes` is the code its pointers lead to. -/
structure Vm.Carries (vm : Vm) (bytes : CodePtr → List Byte) (d : Dictionary) : Prop where
  wordCount : vm.wordCount = d.wordCount
  words : ∀ i, i < d.wordCount →
    vm.words i = ⟨(d.words i).code.map bytes, (d.words i).codeLen⟩

/-- `vm_exec` on word `i` and a `CALL i` run it as a code of `n` bytes. -/
structure RunsBytes (H : Host W) (m : Machine W) (i n : Nat) : Prop where
  exec : (vmExec m (m.vm.getWord i)).current.map Activation.len = some n
  call : ∃ act, callee H (BitVec.ofNat 16 i) m = .ok act m ∧ act.len = n

/-! ## Registrations -/

/-- Arguments of `vm_register_word`, with the answer of `strdup`. -/
structure Registration where
  name : Option CString
  code : Option CodePtr
  codeLen : Int
  dupOk : Bool

def registerStep (r : Registration) (d : Dictionary) : Option Dictionary :=
  (vmRegisterWord r.name r.code r.codeLen r.dupOk d).map Prod.snd

/-- The words registered in `d` are in `d'` as they were. -/
structure Dictionary.KeptIn (d d' : Dictionary) : Prop where
  count : d.wordCount ≤ d'.wordCount
  words : ∀ j, j < d.wordCount → d'.words j = d.words j

theorem Dictionary.KeptIn.refl (d : Dictionary) : d.KeptIn d := ⟨Nat.le_refl _, fun _ _ => rfl⟩

theorem Dictionary.KeptIn.trans {d d' d'' : Dictionary} (h : d.KeptIn d') (h' : d'.KeptIn d'') :
    d.KeptIn d'' where
  count := Nat.le_trans h.count h'.count
  words j hj := (h'.words j (Nat.lt_of_lt_of_le hj h.count)).trans (h.words j hj)

/-- Setting a name touches the record after the last word only. -/
theorem Dictionary.setName_words (d : Dictionary) (name : Option NamePtr) {j : Nat}
    (hj : j < d.wordCount) : (d.setName name).words j = d.words j :=
  Function.update_of_ne (Nat.ne_of_lt hj) _ _

theorem Dictionary.append_words (d : Dictionary) (code : Option CodePtr) (codeLen : Int) {j : Nat}
    (hj : j < d.wordCount) : (d.append code codeLen).words j = d.words j :=
  Function.update_of_ne (Nat.ne_of_lt hj) _ _

theorem Dictionary.append_last (d : Dictionary) (code : Option CodePtr) (codeLen : Int) :
    (d.append code codeLen).words d.wordCount
      = { d.words d.wordCount with code := code, codeLen := codeLen } :=
  Function.update_self ..

/-- Copying a name leaves the words and their number. -/
theorem copyName_kept {n : CString} {dupOk ok : Bool} {d d' : Dictionary}
    (h : copyName n dupOk d = some (ok, d')) :
    d'.wordCount = d.wordCount ∧ ∀ j, j < d.wordCount → d'.words j = d.words j := by
  unfold copyName at h
  cases ha : d.arena with
  | none =>
      rw [ha] at h
      cases dupOk with
      | false =>
          cases h
          exact ⟨rfl, fun j hj => d.setName_words none hj⟩
      | true =>
          cases h
          exact ⟨rfl, fun j hj => (d.strdup n).setName_words _ hj⟩
  | some a =>
      simp only [ha] at h
      rcases halloc : v4ArenaAlloc (BitVec.ofNat 64 n.size) 1 a.alloc with ⟨_ | off, alloc⟩
      · -- no room in the arena: the record keeps the name it had
        simp only [halloc] at h
        cases h
        exact ⟨rfl, fun _ _ => rfl⟩
      · simp only [halloc] at h
        by_cases hfit : off.toNat + n.size ≤ a.alloc.size.toNat
        · rw [if_pos hfit] at h
          cases h
          exact ⟨rfl, fun j hj => Dictionary.setName_words (d.withArena _) _ hj⟩
        · rw [if_neg hfit] at h
          cases h

theorem registerName_kept {name : Option CString} {dupOk ok : Bool} {d d' : Dictionary}
    (h : registerName name dupOk d = some (ok, d')) :
    d'.wordCount = d.wordCount ∧ ∀ j, j < d.wordCount → d'.words j = d.words j := by
  cases name with
  | none =>
      cases h
      exact ⟨rfl, fun j hj => d.setName_words none hj⟩
  | some n => exact copyName_kept h

/-- **A registration** leaves the words as they are, or appends one with the code and the
    length it was given. -/
theorem vmRegisterWord_cases {name : Option CString} {code : Option CodePtr} {codeLen r : Int}
    {dupOk : Bool} {d d' : Dictionary}
    (h : vmRegisterWord name code codeLen dupOk d = some (r, d')) :
    d.KeptIn d' ∧
      (r < 0 ∧ d'.wordCount = d.wordCount ∨
        r = d.wordCount ∧ d'.wordCount = d.wordCount + 1 ∧ d'.wordCount ≤ 256 ∧ code.isSome ∧
          0 < codeLen ∧ (d'.words d.wordCount).code = code ∧
          (d'.words d.wordCount).codeLen = codeLen) := by
  unfold vmRegisterWord at h
  by_cases hargs : code.isNone ∨ codeLen ≤ 0
  · rw [if_pos hargs] at h
    cases h
    exact ⟨.refl d, .inl ⟨by decide, rfl⟩⟩
  · rw [if_neg hargs] at h
    by_cases hfull : d.wordCount ≥ 256
    · rw [if_pos hfull] at h
      cases h
      exact ⟨.refl d, .inl ⟨by decide, rfl⟩⟩
    · rw [if_neg hfull] at h
      rcases hname : registerName name dupOk d with _ | ⟨_ | _, named⟩
      · rw [hname] at h
        cases h
      · rw [hname] at h
        obtain ⟨hcount, hwords⟩ := registerName_kept hname
        cases h
        exact ⟨⟨Nat.le_of_eq hcount.symm, hwords⟩, .inl ⟨by decide, hcount⟩⟩
      · rw [hname] at h
        obtain ⟨hcount, hwords⟩ := registerName_kept hname
        cases h
        have hcode : code.isSome := by
          rw [Option.isSome_iff_ne_none]
          exact fun hnone => hargs (.inl (by rw [hnone]; rfl))
        have hgrown : (named.append code codeLen).wordCount = d.wordCount + 1 :=
          congrArg (· + 1) hcount
        constructor
        · refine ⟨by omega, fun j hj => ?_⟩
          rw [named.append_words code codeLen (hcount.symm ▸ hj), hwords j hj]
        · -- the index returned is the count after the name was copied
          rw [← hcount, named.append_last]
          exact .inr ⟨rfl, rfl, by omega, hcode, by omega, rfl, rfl⟩

/-- Registrations keep the words registered before them, and the dictionary its bound. -/
theorem registrations_keep {later : List Registration} {d d' : Dictionary}
    (h : exec registerStep later d = some d') :
    d.KeptIn d' ∧ (d.wordCount ≤ 256 → d'.wordCount ≤ 256) := by
  refine exec_invariant (I := fun t => d.KeptIn t ∧ (d.wordCount ≤ 256 → t.wordCount ≤ 256)) ?_
    ⟨.refl d, id⟩ h
  rintro r t t' ⟨hkept, hbound⟩ hstep
  obtain ⟨⟨e, _⟩, hreg, rfl⟩ := Option.map_eq_some_iff.mp hstep
  obtain ⟨hkept', hcount⟩ := vmRegisterWord_cases hreg
  refine ⟨hkept.trans hkept', fun hle => ?_⟩
  rcases hcount with ⟨-, hsame⟩ | ⟨-, -, hle', -⟩
  · exact hsame.symm ▸ hbound hle
  · exact hle'

/-! ## The two lengths -/

/-- A registered word is executed with the length it was registered with. -/
theorem runsBytes_of_word {H : Host W} {m : Machine W} {bytes : CodePtr → List Byte}
    {d : Dictionary} (hcarries : m.vm.Carries bytes d) {i : Nat} (hbound : d.wordCount ≤ 256)
    (hi : i < d.wordCount) (hcode : (d.words i).code.isSome) (hpos : 0 < (d.words i).codeLen)
    (n : Nat) : RunsBytes H m i n ↔ n = (d.words i).codeLen.toNat := by
  obtain ⟨p, hp⟩ := Option.isSome_iff_exists.mp hcode
  have hlen : ((d.words i).codeLen.toNat : Int) = (d.words i).codeLen :=
    Int.toNat_of_nonneg (by omega)
  have hword : m.vm.HasWord i (bytes p) (d.words i).codeLen.toNat :=
    ⟨by rw [hcarries.wordCount]; exact hi, by rw [hcarries.wordCount]; exact hbound,
      by rw [hcarries.words i hi, hp, hlen]; rfl, by omega⟩
  constructor
  · intro h
    have hexec := h.exec
    rw [hword.exec] at hexec
    exact (Option.some.inj hexec).symm
  · rintro rfl
    exact ⟨by rw [hword.exec]; rfl, _, hword.callee_run, rfl⟩

theorem vmWordGetCodeLen_toNat {d : Dictionary} {i : Nat} (hi : i < d.wordCount)
    (hpos : 0 < (d.words i).codeLen) :
    (vmWordGetCodeLen (vmGetWord i d)).toNat = (d.words i).codeLen.toNat % 65536 := by
  have hget : vmGetWord i d = some (d.words i) := by
    rw [vmGetWord, if_neg (by omega), Int.toNat_natCast]
  rw [hget]
  show (BitVec.ofInt 16 (d.words i).codeLen).toNat = _
  rw [BitVec.toNat_ofInt]
  omega

/-- **The reported length** of an accepted word is the executed one, whatever is registered
    later, if and only if it fits 16 bits. -/
theorem reported_length_executed_iff (H : Host W) {name : Option CString}
    {code : Option CodePtr} {codeLen : Int} {dupOk : Bool} {d d' d'' : Dictionary} {i : Nat}
    (haccepted : vmRegisterWord name code codeLen dupOk d = some ((i : Int), d'))
    {later : List Registration} (hlater : exec registerStep later d' = some d'')
    {bytes : CodePtr → List Byte} {m : Machine W} (hcarries : m.vm.Carries bytes d'') :
    RunsBytes H m i (vmWordGetCodeLen (vmGetWord i d'')).toNat ↔ codeLen < 65536 := by
  obtain ⟨-, ⟨hneg, -⟩ | ⟨hi, hgrown, hbound, hcode, hpos, hnewcode, hnewlen⟩⟩ :=
    vmRegisterWord_cases haccepted
  · omega
  · obtain rfl : i = d.wordCount := by omega
    obtain ⟨hkept, hbound'⟩ := registrations_keep hlater
    have hsame : d''.words d.wordCount = d'.words d.wordCount := hkept.words _ (by omega)
    have hin : d.wordCount < d''.wordCount := Nat.lt_of_lt_of_le (by omega) hkept.count
    have hlen : (d''.words d.wordCount).codeLen = codeLen := by rw [hsame, hnewlen]
    rw [runsBytes_of_word hcarries (hbound' hbound) hin (by rw [hsame, hnewcode]; exact hcode)
      (by rw [hlen]; exact hpos), vmWordGetCodeLen_toNat hin (by rw [hlen]; exact hpos), hlen]
    omega

/-- A VM with the words of a dictionary. -/
def Vm.holding (vm : Vm) (bytes : CodePtr → List Byte) (d : Dictionary) : Vm :=
  { vm with
    words := fun i => ⟨(d.words i).code.map bytes, (d.words i).codeLen⟩
    wordCount := d.wordCount }

/-- Code of `RET`s. -/
def retCode (_ : CodePtr) : List Byte := List.replicate 65536 0x51

/-- The dictionary of one word without a name. -/
def oneLength (codeLen : Int) : Dictionary :=
  smallDictionary.setName none |>.append (some 1) codeLen

theorem short_word_reported :
    RunsBytes Host.silent (.boot (Vm.blank.holding retCode (oneLength 6))) 0
      (vmWordGetCodeLen (vmGetWord 0 (oneLength 6))).toNat := by
  have haccepted : vmRegisterWord none (some 1) 6 true smallDictionary
      = some (((0 : Nat) : Int), oneLength 6) := rfl
  have hlater : exec registerStep [] (oneLength 6) = some (oneLength 6) := rfl
  have hcarries : (Vm.blank.holding retCode (oneLength 6)).Carries retCode (oneLength 6) :=
    ⟨rfl, fun _ _ => rfl⟩
  exact (reported_length_executed_iff Host.silent haccepted hlater hcarries).mpr (by decide)

/-- A word of 65536 bytes is accepted, executed whole and reported as empty. -/
theorem long_word_reported_empty :
    vmRegisterWord none (some 1) 65536 true smallDictionary = some (0, oneLength 65536) ∧
      vmWordGetCodeLen (vmGetWord 0 (oneLength 65536)) = 0 ∧
      RunsBytes Host.silent (.boot (Vm.blank.holding retCode (oneLength 65536))) 0 65536 ∧
      ¬ RunsBytes Host.silent (.boot (Vm.blank.holding retCode (oneLength 65536))) 0
        (vmWordGetCodeLen (vmGetWord 0 (oneLength 65536))).toNat := by
  have hcarries : (Vm.blank.holding retCode (oneLength 65536)).Carries retCode (oneLength 65536) :=
    ⟨rfl, fun _ _ => rfl⟩
  have hbound : (oneLength 65536).wordCount ≤ 256 := by decide
  have hi : 0 < (oneLength 65536).wordCount := by decide
  have hpos : 0 < ((oneLength 65536).words 0).codeLen := by decide
  have hlength : ∀ n, RunsBytes Host.silent
      (.boot (Vm.blank.holding retCode (oneLength 65536))) 0 n ↔ n = 65536 :=
    runsBytes_of_word hcarries hbound hi rfl hpos
  exact ⟨rfl, by decide, (hlength _).mpr rfl, fun h => absurd ((hlength _).mp h) (by decide)⟩

end V4Engine
