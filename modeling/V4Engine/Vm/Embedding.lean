/-
  V4Engine.Vm.Embedding

  The public API as a whole: a program that embeds the engine and one VM of it.

  An `Embedding` is the VM with its dictionary, the list the dictionary stands for and
  the snapshots not freed yet.  From `vm_create` on the program makes calls and executes
  code and words in any order (`Embedding.Step`); a call that panics ends with its error
  and the program goes on.

  No such run leaves an array or uses a name it must not, execution changes nothing the
  program has set up, and a name always leads to the code registered last under it
  (`embedding_sound`).
-/
import V4Engine.Vm.Sandbox
import V4Engine.Vm.FrameRules
import V4Engine.Vm.CodeLength
import V4Engine.Vm.StackSnapshot
import V4Engine.Vm.MmioTable
import V4Engine.Vm.Accessors
import V4Engine.Vm.Lifetime
import V4Engine.Lib.Iterate

namespace V4Engine

open Lib FaultM VmM

variable {W : Type}

/-! ## Calls that touch one field -/

def vmDsClear (vm : Vm) : Vm := { vm with sp := 0 }

def vmSetPanicHandler (handler : Option FnPtr) (userData : HostPtr) (vm : Vm) : Vm :=
  { vm with panicHandler := handler, panicUserData := userData }

def v4RegisterSysHandler (handler : Option FnPtr) : VmM W Unit :=
  update fun m => { m with gSysHandler := handler }

def vmRsDepthPublic (vm : Vm) : Int := vm.rp

/-- As `vmDsCopyToArray`, for `RS`. -/
def vmRsCopyToArray (outArray : Option (Nat → Cell)) (maxCount : Int) (vm : Vm) :
    Option (Int × Option (Nat → Cell)) :=
  match outArray with
  | none => some (0, none)
  | some out =>
      if maxCount ≤ 0 then some (0, some out)
      else
        let copyCount := if (vm.rp : Int) < maxCount then vm.rp else maxCount.toNat
        if copyCount ≤ 64 then some (copyCount, some (copyInto out vm.RS copyCount)) else none

/-- The calls that look at the return stack describe the list `l`, whose last element is the
    top. -/
structure ReturnReads (vm : Vm) (l : List Cell) : Prop where
  depth : vmRsDepthPublic vm = l.length
  copy : ∀ out max, vmRsCopyToArray (some out) max vm
    = some (((l.take max.toNat).length : Int), some fun k => (l.take max.toNat).getD k (out k))

theorem returnReads_rs {vm : Vm} (hdepth : vm.rp ≤ 64) : ReturnReads vm vm.rs where
  depth := by simp [vmRsDepthPublic, Vm.rs]
  copy out max := by
    simp only [vmRsCopyToArray, Vm.rs, live_take, live_length]
    by_cases hmax : max ≤ 0
    · have hnone : min max.toNat vm.rp = 0 := by omega
      rw [if_pos hmax, hnone]
      rfl
    · have hcount : (if (vm.rp : Int) < max then vm.rp else max.toNat) = min max.toNat vm.rp := by
        split <;> omega
      rw [if_neg hmax, hcount, if_pos (by omega)]
      congr 3
      funext k
      rw [live_getD, copyInto]

/-! ## The program and its VM -/

/-- The VM and what belongs to it.  `entries` is what the dictionary stands for, `snaps` the
    snapshots that have been taken and not freed, newest first. -/
structure Embedding (W : Type) where
  api : Api W
  dict : Dictionary
  entries : List DictEntry
  snaps : List VmStackSnapshot

namespace Embedding

def machine (s : Embedding W) : Machine W := s.api.machine

def withMachine (s : Embedding W) (m : Machine W) : Embedding W :=
  { s with api := { s.api with machine := m } }

/-- Another dictionary.  The words of the VM are the codes its pointers lead to. -/
def withDict (s : Embedding W) (bytes : CodePtr → List Byte) (d : Dictionary)
    (l : List DictEntry) : Embedding W :=
  { s.withMachine { s.machine with vm := s.machine.vm.holding bytes d } with
    dict := d, entries := l }

/-- The list the dictionary stands for, with the room it has for names. -/
def words (s : Embedding W) : WordList := ⟨s.entries, s.dict.room⟩

/-- A new VM, before the first call. -/
def fresh (m : Machine W) (arena : Option NameArena) : Embedding W :=
  ⟨⟨m, 0⟩, .fresh arena, [], []⟩

end Embedding

/-- A call that concerns the VM and `last_err` only. -/
def onApi {α : Type} (x : FaultM V4Err (Api W) α) : FaultM V4Err (Embedding W) α := fun s =>
  match x s.api with
  | .ok a t => .ok a { s with api := t }
  | .err e t => .err e { s with api := t }
  | .fault => .fault

/-! ## Calls -/

def Registration.op (r : Registration) : DictOp := .register r.name r.code r.codeLen r.dupOk

/-- The list of words refuses this one. -/
def Embedding.Refuses (s : Embedding W) (r : Registration) : Prop :=
  s.words.refuses r.name r.code r.codeLen r.dupOk = true

/-- `vm_register_word`.  Arguments it rejects at once are not reported to the panic handler. -/
def registerWord (H : Host W) (bytes : CodePtr → List Byte) (r : Registration) :
    FaultM V4Err (Embedding W) Int := fun s =>
  match vmRegisterWord r.name r.code r.codeLen r.dupOk s.dict with
  | none => .fault
  | some (i, d) =>
      let t := s.withDict bytes d (s.words.call r.op).entries
      if 0 ≤ i ∨ r.code.isNone ∨ r.codeLen ≤ 0 then .ok i t
      else onApi (onMachine (vmPanic H i)) t

def resetDictionary (bytes : CodePtr → List Byte) : FaultM V4Err (Embedding W) Unit := fun s =>
  match vmResetDictionary s.dict with
  | none => .fault
  | some d => .ok () (s.withDict bytes d [])

/-- `vm_ds_snapshot`; the snapshot is kept if there is one. -/
def takeSnapshot (snapOk dataOk : Bool) : FaultM V4Err (Embedding W) Unit := fun s =>
  match vmDsSnapshot snapOk dataOk s.machine.vm with
  | none => .fault
  | some none => .ok () s
  | some (some snap) => .ok () { s with snaps := snap :: s.snaps }

/-- `vm_ds_restore` of a kept snapshot, or of a null pointer. -/
def restoreSnapshot (H : Host W) (k : Nat) : FaultM V4Err (Embedding W) V4Err := fun s =>
  onApi (onMachine (vmDsRestore H s.snaps[k]?)) s

/-- `vm_ds_snapshot_free`. -/
def freeSnapshot (k : Nat) : FaultM V4Err (Embedding W) Unit :=
  update fun s => { s with snaps := s.snaps.eraseIdx k }

inductive PublicCall where
  | registerWord (r : Registration)
  | resetDictionary
  | resetStacks
  | reset
  | registerMmio (list : Option (List V4Mmio)) (count : Int)
  | memRead32 (addr out : Cell)
  | memWrite32 (addr val : Cell)
  | dsPush (value : Cell)
  | dsPop
  | dsClear
  | dsSnapshot (snapOk dataOk : Bool)
  | dsRestore (k : Nat)
  | dsSnapshotFree (k : Nat)
  | setPanicHandler (handler : Option FnPtr) (userData : HostPtr)
  | registerSysHandler (handler : Option FnPtr)
  | taskInit (timeSliceMs : BitVec 32)
  | task (o : BackendOp)

/-- One call; its answer is left to the function of the call. -/
def publicCall (H : Host W) (bytes : CodePtr → List Byte) :
    PublicCall → FaultM V4Err (Embedding W) Unit
  | .registerWord r => do let _ ← registerWord H bytes r
  | .resetDictionary => resetDictionary bytes
  | .resetStacks => onApi (onMachine (modifyVm vmResetStacks))
  | .reset => do resetDictionary bytes; onApi (onMachine (modifyVm vmResetStacks))
  | .registerMmio list count => do
      let _ ← onApi (onMachine (liftVm (vmRegisterMmio list count)))
  | .memRead32 addr out => do let _ ← onApi (vmMemRead32 H addr out)
  | .memWrite32 addr val => do let _ ← onApi (vmMemWrite32 H addr val)
  | .dsPush value => onApi (onMachine (dsPush H value))
  | .dsPop => do let _ ← onApi (onMachine (dsPop H))
  | .dsClear => onApi (onMachine (modifyVm vmDsClear))
  | .dsSnapshot snapOk dataOk => takeSnapshot snapOk dataOk
  | .dsRestore k => do let _ ← restoreSnapshot H k
  | .dsSnapshotFree k => freeSnapshot k
  | .setPanicHandler handler userData =>
      onApi (onMachine (modifyVm (vmSetPanicHandler handler userData)))
  | .registerSysHandler handler => onApi (onMachine (v4RegisterSysHandler handler))
  | .taskInit ms => onApi (onMachine (modifyVm (v4BackendTaskInit ms)))
  | .task o => onApi (onMachine (liftVm fun vm => (backendStep o vm).map ((), ·)))

/-- What the program promises.  A word comes with the length of its code, and its name and the
    arena are objects of one address space; `count` windows can be read; `program` is no call. -/
def PublicCall.Valid (bytes : CodePtr → List Byte) (s : Embedding W) : PublicCall → Prop
  | .registerWord r => (∀ p, r.code = some p → 0 < r.codeLen → r.codeLen = (bytes p).length) ∧
      r.op.Fits s.dict.arenaSize
  | .registerMmio list count => ∀ l, list = some l → count ≤ l.length
  | .task o => ∀ st, o ≠ .program st
  | _ => True

/-- The call returned, with an answer or an error. -/
def Ended {α : Type} (o : Outcome V4Err (Embedding W) α) (s : Embedding W) : Prop :=
  (∃ a, o = .ok a s) ∨ ∃ e, o = .err e s

/-- A call, `vm_exec_raw` on code of its true length, or `vm_exec` on `vm_get_word(vm, i)`. -/
inductive Embedding.Step (H : Host W) (bytes : CodePtr → List Byte) :
    Embedding W → Embedding W → Prop where
  | call {s s' : Embedding W} (c : PublicCall) (hvalid : c.Valid bytes s)
      (hend : Ended (publicCall H bytes c s) s') : Step H bytes s s'
  | execRaw {s : Embedding W} {e : V4Err} {m : Machine W} (bc : List Byte)
      (hret : Returns H s.machine bc bc.length e m) : Step H bytes s (s.withMachine m)
  | exec {s : Embedding W} {e : V4Err} {m : Machine W} (i : Int)
      (hret : Reaches H (vmExec s.machine (s.machine.vm.getWord i)) (.ret e m [])) :
      Step H bytes s (s.withMachine m)

/-! ## The invariant -/

/-- What a program sets up: the words, the windows, the extent of RAM and the panic handler. -/
structure Vm.SameSetup (vm vm' : Vm) : Prop where
  words : vm'.words = vm.words
  wordCount : vm'.wordCount = vm.wordCount
  mmio : vm'.mmio = vm.mmio
  mmioCount : vm'.mmioCount = vm.mmioCount
  memSize : vm'.memSize = vm.memSize
  ram : vm'.mem.map Ram.cap = vm.mem.map Ram.cap
  panicHandler : vm'.panicHandler = vm.panicHandler
  panicUserData : vm'.panicUserData = vm.panicUserData

theorem Vm.sameSetup_frame : Vm.FrameRelation Vm.SameSetup where
  refl _ := ⟨rfl, rfl, rfl, rfl, rfl, rfl, rfl, rfl⟩
  trans h h' :=
    ⟨h'.words.trans h.words, h'.wordCount.trans h.wordCount, h'.mmio.trans h.mmio,
      h'.mmioCount.trans h.mmioCount, h'.memSize.trans h.memSize, h'.ram.trans h.ram,
      h'.panicHandler.trans h.panicHandler, h'.panicUserData.trans h.panicUserData⟩
  stackUpdate _ _ _ _ _ _ := ⟨rfl, rfl, rfl, rfl, rfl, rfl, rfl, rfl⟩
  byteUpdate _ ram _ hram := by
    refine ⟨rfl, rfl, rfl, rfl, rfl, ?_, rfl, rfl⟩
    rw [hram]
    rfl

theorem Vm.sameSetup_backend : Vm.KeptByBackend Vm.SameSetup := by
  intro o vm vm' hs
  obtain ⟨hf, -⟩ := backendStep_frame hs
  exact ⟨hf.words, hf.wordCount, hf.mmio, hf.mmioCount, hf.memSize, by rw [hf.mem],
    hf.panicHandler, hf.panicUserData⟩

/-- What is expected of the callbacks. -/
structure Host.KeepsSetup (H : Host W) : Prop where
  bounds : H.KeepsSandbox
  setup : H.Within fun m m' => Vm.SameSetup m.vm m'.vm

/-- Every word has the length of the code its pointer leads to. -/
def Dictionary.TrueLengths (d : Dictionary) (bytes : CodePtr → List Byte) : Prop :=
  ∀ i, i < d.wordCount → ∃ p, (d.words i).code = some p ∧ 0 < (d.words i).codeLen ∧
    (d.words i).codeLen = (bytes p).length

/-- There is as much data as the snapshot says. -/
def VmStackSnapshot.Intact (snap : VmStackSnapshot) : Prop :=
  snap.depth ≤ 256 ∧ ∀ data, snap.data = some data → snap.depth ≤ data.length

/-- What holds between two calls. -/
structure Embedding.Inv (bytes : CodePtr → List Byte) (s : Embedding W) : Prop where
  sandboxed : s.machine.vm.Sandboxed
  carries : s.machine.vm.Carries bytes s.dict
  dict : DictInv s.dict s.entries
  lengths : s.dict.TrueLengths bytes
  snaps : ∀ snap ∈ s.snaps, snap.Intact

theorem Vm.Carries.congr {vm vm' : Vm} {bytes : CodePtr → List Byte} {d : Dictionary}
    (h : vm.Carries bytes d) (hwords : vm'.words = vm.words)
    (hcount : vm'.wordCount = vm.wordCount) : vm'.Carries bytes d where
  wordCount := hcount.trans h.wordCount
  words i hi := hwords ▸ h.words i hi

/-- The words of a dictionary with true lengths, loaded into the VM. -/
theorem Vm.Sandboxed.holding {vm : Vm} (h : vm.Sandboxed) {bytes : CodePtr → List Byte}
    {d : Dictionary} (hbound : d.wordCount ≤ 256) (hlengths : d.TrueLengths bytes) :
    (vm.holding bytes d).Sandboxed where
  sp := h.sp
  fp := h.fp
  backend := ⟨h.backend.sched.congr rfl rfl fun _ => Nat.le_refl _, h.backend.queue⟩
  wordCount := hbound
  mmioCount := h.mmioCount
  words i code hi hcode := by
    obtain ⟨p, hp, -, hlen⟩ := hlengths i hi
    have heq : (d.words i).code.map bytes = some code := hcode
    rw [hp] at heq
    cases heq
    exact hlen
  ram := h.ram

namespace Embedding.Inv

variable {bytes : CodePtr → List Byte} {s : Embedding W} (h : s.Inv bytes)
include h

/-- A VM that is still within the bounds and has the same words. -/
theorem withApi {t : Api W} (hm : t.machine.vm.Sandboxed)
    (hwords : t.machine.vm.words = s.machine.vm.words)
    (hcount : t.machine.vm.wordCount = s.machine.vm.wordCount) :
    Inv bytes { s with api := t } where
  sandboxed := hm
  carries := h.carries.congr hwords hcount
  dict := h.dict
  lengths := h.lengths
  snaps := h.snaps

theorem withDict {d : Dictionary} {l : List DictEntry} (hd : DictInv d l)
    (hlengths : d.TrueLengths bytes) : (s.withDict bytes d l).Inv bytes where
  sandboxed := h.sandboxed.holding hd.bound hlengths
  carries := ⟨rfl, fun _ _ => rfl⟩
  dict := hd
  lengths := hlengths
  snaps := h.snaps

theorem withSnaps {snaps : List VmStackSnapshot} (hsnaps : ∀ snap ∈ snaps, snap.Intact) :
    Inv bytes { s with snaps := snaps } :=
  ⟨h.sandboxed, h.carries, h.dict, h.lengths, hsnaps⟩

end Embedding.Inv

/-! ## Calls on the VM -/

/-- The VM stays within the bounds, with the words of `vm0`; there is no fault. -/
def steady (W : Type) (vm0 : Vm) : Effect V4Err (Api W) where
  pre t := t.machine.vm.Sandboxed ∧ t.machine.vm.words = vm0.words ∧
    t.machine.vm.wordCount = vm0.wordCount
  ret _ t := t.machine.vm.Sandboxed ∧ t.machine.vm.words = vm0.words ∧
    t.machine.vm.wordCount = vm0.wordCount
  err _ _ t := t.machine.vm.Sandboxed ∧ t.machine.vm.words = vm0.words ∧
    t.machine.vm.wordCount = vm0.wordCount
  stuck _ := False

theorem steady_composable {vm0 : Vm} : (steady W vm0).Composable where
  refl h := h
  pre _ h := h
  trans _ h := h
  err _ h := h
  stuck _ h := h

/-- A function of the interpreter, called from outside. -/
theorem onMachine_steady {α : Type} {x : VmM W α} (hbounds : Meets (sandbox W).effect x anyValue)
    (hsetup : ∀ vm, Meets (framedBy W Vm.SameSetup vm).effect x anyValue) (vm0 : Vm) :
    Meets (steady W vm0) (onMachine x) anyValue := by
  rintro t ⟨hm, hwords, hcount⟩
  have hb := hbounds t.machine hm
  have hw := hsetup t.machine.vm t.machine (Vm.sameSetup_frame.refl _)
  unfold onMachine
  cases hx : x t.machine with
  | ok a m =>
      rw [hx] at hb hw
      exact ⟨⟨hb.1, hw.1.words.trans hwords, hw.1.wordCount.trans hcount⟩, trivial⟩
  | err e m =>
      rw [hx] at hb hw
      exact ⟨hb.2, hw.2.words.trans hwords, hw.2.wordCount.trans hcount⟩
  | fault =>
      rw [hx] at hb
      exact hb

/-- An update of the VM. -/
theorem onMachine_modify {f : Vm → Vm} (hbounds : ∀ vm, vm.Sandboxed → (f vm).Sandboxed)
    (hwords : ∀ vm, (f vm).words = vm.words ∧ (f vm).wordCount = vm.wordCount) (vm0 : Vm) :
    Meets (steady W vm0) (onMachine (modifyVm f)) anyValue := by
  rintro t ⟨hm, hw, hc⟩
  exact ⟨⟨hbounds _ hm, (hwords _).1.trans hw, (hwords _).2.trans hc⟩, trivial⟩

/-- A function of the VM that may leave an array. -/
theorem onMachine_lift {α : Type} {f : Vm → Option (α × Vm)}
    (hf : ∀ vm, vm.Sandboxed → ∃ a vm', f vm = some (a, vm') ∧ vm'.Sandboxed ∧
      vm'.words = vm.words ∧ vm'.wordCount = vm.wordCount) (vm0 : Vm) :
    Meets (steady W vm0) (onMachine (liftVm f)) anyValue := by
  rintro t ⟨hm, hw, hc⟩
  obtain ⟨a, vm', hrun, hm', hw', hc'⟩ := hf _ hm
  unfold onMachine liftVm
  rw [hrun]
  exact ⟨⟨hm', hw'.trans hw, hc'.trans hc⟩, trivial⟩

theorem setLastErr_steady {vm0 : Vm} (e : V4Err) :
    Meets (steady W vm0) (setLastErr e) anyValue := fun _ h => ⟨h, trivial⟩

/-! ## Calls on the embedding -/

/-- The invariant is kept, on errors as well, and there is no fault. -/
def keeping (W : Type) (bytes : CodePtr → List Byte) : Effect V4Err (Embedding W) where
  pre := Embedding.Inv bytes
  ret _ s := s.Inv bytes
  err _ _ s := s.Inv bytes
  stuck _ := False

theorem keeping_composable {bytes : CodePtr → List Byte} : (keeping W bytes).Composable where
  refl h := h
  pre _ h := h
  trans _ h := h
  err _ h := h
  stuck _ h := h

section

variable {bytes : CodePtr → List Byte} {s : Embedding W}

theorem onApi_admits {α : Type} {x : FaultM V4Err (Api W) α} (hs : s.Inv bytes)
    (hx : Meets (steady W s.machine.vm) x anyValue) :
    (keeping W bytes).Admits anyValue s (onApi x s) := by
  have ha := hx s.api ⟨hs.sandboxed, rfl, rfl⟩
  unfold onApi
  cases hrun : x s.api with
  | ok a t =>
      rw [hrun] at ha
      obtain ⟨⟨hm, hwords, hcount⟩, -⟩ := ha
      exact ⟨hs.withApi hm hwords hcount, trivial⟩
  | err e t =>
      rw [hrun] at ha
      obtain ⟨hm, hwords, hcount⟩ := ha
      exact hs.withApi hm hwords hcount
  | fault =>
      rw [hrun] at ha
      exact ha.elim

/-- The answer of a call does not matter. -/
theorem discard_admits {α : Type} {x : FaultM V4Err (Embedding W) α} (hs : s.Inv bytes)
    (hx : (keeping W bytes).Admits anyValue s (x s)) :
    (keeping W bytes).Admits anyValue s ((do let _ ← x : FaultM V4Err (Embedding W) Unit) s) :=
  .bind keeping_composable hx hs fun _ _ _ _ hs' => ⟨hs', trivial⟩

end

/-! ## Call by call -/

theorem vmDsClear_sandboxed {vm : Vm} (h : vm.Sandboxed) : (vmDsClear vm).Sandboxed :=
  h.withDs (Nat.zero_le 256)

theorem vmResetStacks_sandboxed {vm : Vm} (h : vm.Sandboxed) : (vmResetStacks vm).Sandboxed := by
  have hrs : Vm.Sandboxed { vmDsClear vm with RS := vm.RS, rp := 0 } :=
    (vmDsClear_sandboxed h).withRs (Nat.zero_le 64)
  exact hrs.withFp fun _ hi => by cases hi

theorem vmSetPanicHandler_sandboxed {vm : Vm} (h : vm.Sandboxed) (handler : Option FnPtr)
    (userData : HostPtr) : (vmSetPanicHandler handler userData vm).Sandboxed :=
  ⟨h.sp, h.fp, ⟨h.backend.sched.congr rfl rfl fun _ => Nat.le_refl _, h.backend.queue⟩,
    h.wordCount, h.mmioCount, h.words, h.ram⟩

theorem v4BackendTaskInit_sandboxed {vm : Vm} (h : vm.Sandboxed) (ms : BitVec 32) :
    (v4BackendTaskInit ms vm).Sandboxed :=
  ⟨h.sp, h.fp, init_inv ms h.backend.sched.rp, h.wordCount, h.mmioCount, h.words, h.ram⟩

/-- Windows that fit the table. -/
theorem pushAll_sandboxed {ws : List V4Mmio} {vm : Vm} (h : vm.Sandboxed)
    (hfit : vm.mmioCount + ws.length ≤ 16) :
    (vm.pushAll ws).Sandboxed ∧ (vm.pushAll ws).words = vm.words ∧
      (vm.pushAll ws).wordCount = vm.wordCount := by
  induction ws generalizing vm with
  | nil => exact ⟨h, rfl, rfl⟩
  | cons w ws ih =>
      rw [List.length_cons] at hfit
      have hpush : (vm.pushMmio w).Sandboxed :=
        ⟨h.sp, h.fp, ⟨h.backend.sched.congr rfl rfl fun _ => Nat.le_refl _, h.backend.queue⟩,
          h.wordCount, show vm.mmioCount + 1 ≤ 16 by omega, h.words, h.ram⟩
      exact ih hpush (show vm.mmioCount + 1 + ws.length ≤ 16 by omega)

/-- As many windows are read as the list has, and as many appended as there is room for. -/
theorem vmRegisterMmio_sandboxed {list : Option (List V4Mmio)} {count : Int}
    (hcount : ∀ l, list = some l → count ≤ l.length) {vm : Vm} (h : vm.Sandboxed) :
    ∃ e vm', vmRegisterMmio list count vm = some (e, vm') ∧ vm'.Sandboxed ∧
      vm'.words = vm.words ∧ vm'.wordCount = vm.wordCount := by
  cases list with
  | none => exact ⟨_, vm, rfl, h, rfl, rfl⟩
  | some l =>
      by_cases hpos : count ≤ 0
      · exact ⟨_, vm, if_pos hpos, h, rfl, rfl⟩
      · have hlen : 0 + count.toNat ≤ l.length := by
          have := hcount l rfl
          omega
        rw [vmRegisterMmio, if_neg hpos, appendLoop_run hlen, Option.map_some]
        have hbound := h.mmioCount
        refine ⟨_, _, rfl, pushAll_sandboxed h ?_⟩
        rw [List.length_take]
        omega

theorem backendCall_sandboxed (o : BackendOp) {vm : Vm} (h : vm.Sandboxed) :
    ∃ a vm', (backendStep o vm).map ((), ·) = some (a, vm') ∧ vm'.Sandboxed ∧
      vm'.words = vm.words ∧ vm'.wordCount = vm.wordCount := by
  obtain ⟨vm', hrun, -⟩ := backendStep_inv h.backend o
  obtain ⟨hf, -⟩ := backendStep_frame hrun
  exact ⟨(), vm', by rw [hrun]; rfl, h.backendStep hrun, hf.words, hf.wordCount⟩

/-- An intact snapshot can be put back. -/
theorem reloadStack_intact {snap : VmStackSnapshot} (h : snap.Intact) (vm : Vm) :
    ∃ DS sp, sp ≤ 256 ∧ reloadStack snap vm = some (vm.withDs DS sp) := by
  unfold reloadStack
  cases hdata : snap.data with
  | none => exact ⟨vm.DS, 0, Nat.zero_le 256, rfl⟩
  | some data =>
      obtain ⟨hfit, hlen⟩ := h
      by_cases hpos : 0 < snap.depth
      · have hlen := hlen data hdata
        simp only [if_pos hpos, if_pos (show snap.depth.toNat ≤ data.length by omega)]
        exact ⟨_, _, show snap.depth.toNat ≤ 256 by omega, rfl⟩
      · simp only [if_neg hpos]
        exact ⟨vm.DS, 0, Nat.zero_le 256, rfl⟩

theorem vmDsSnapshot_intact {snapOk dataOk : Bool} {vm : Vm} {snap : VmStackSnapshot}
    (h : vmDsSnapshot snapOk dataOk vm = some (some snap)) : snap.Intact := by
  obtain ⟨hsp, hdepth, ⟨-, hdata⟩ | ⟨-, hdata⟩⟩ := vmDsSnapshot_eq h
  · exact ⟨by omega, fun data hd => by cases hdata.symm.trans hd⟩
  · refine ⟨by omega, fun data hd => ?_⟩
    cases hdata.symm.trans hd
    rw [hdepth, Vm.ds, live_length]

theorem vmDsSnapshot_defined {vm : Vm} (h : vm.sp ≤ 256) (snapOk dataOk : Bool) :
    ∃ r, vmDsSnapshot snapOk dataOk vm = some r := by
  unfold vmDsSnapshot
  by_cases hempty : vm.sp = 0
  · exact ⟨_, if_pos hempty⟩
  · rw [if_neg hempty]
    cases snapOk with
    | false => exact ⟨none, rfl⟩
    | true =>
        cases dataOk with
        | false => exact ⟨none, rfl⟩
        | true => exact ⟨_, if_pos h⟩

/-- A registered word has the length of its code, and the words before it keep theirs. -/
theorem vmRegisterWord_lengths {d d' : Dictionary} {bytes : CodePtr → List Byte}
    (hd : d.TrueLengths bytes) {r : Registration} {i : Int}
    (hlen : ∀ p, r.code = some p → 0 < r.codeLen → r.codeLen = (bytes p).length)
    (h : vmRegisterWord r.name r.code r.codeLen r.dupOk d = some (i, d')) :
    d'.TrueLengths bytes := by
  obtain ⟨hkept, hcases⟩ := vmRegisterWord_cases h
  intro j hj
  by_cases hold : j < d.wordCount
  · rw [hkept.words j hold]
    exact hd j hold
  · obtain ⟨-, hcount⟩ | ⟨-, hcount, -, hcode, hpos, hnewcode, hnewlen⟩ := hcases
    · omega
    · obtain rfl : j = d.wordCount := by omega
      obtain ⟨p, hp⟩ := Option.isSome_iff_exists.mp hcode
      rw [hnewcode, hnewlen]
      exact ⟨p, hp, hpos, hlen p hp hpos⟩

/-- The codes of refused registrations. -/
theorem vmRegisterWord_code {name : Option CString} {code : Option CodePtr} {codeLen i : Int}
    {dupOk : Bool} {d d' : Dictionary}
    (h : vmRegisterWord name code codeLen dupOk d = some (i, d')) (hneg : i < 0) :
    ∃ e : Err, e ≠ .ok ∧ i = e.code := by
  unfold vmRegisterWord at h
  split at h
  · cases h
    exact ⟨.invalidArg, by decide, rfl⟩
  · split at h
    · cases h
      exact ⟨.dictionaryFull, by decide, rfl⟩
    · split at h
      · cases h
      · cases h
        exact ⟨.invalidArg, by decide, rfl⟩
      · cases h
        omega

section

variable {H : Host W} (hH : H.KeepsSetup) {bytes : CodePtr → List Byte}
include hH

theorem vmPanic_steady {e : Err} (he : e ≠ .ok) (vm0 : Vm) :
    Meets (steady W vm0) (onMachine (vmPanic H e.code : VmM W V4Err)) anyValue :=
  onMachine_steady (sandbox_panic hH.bounds he).meets
    (fun _ => (framedBy_panic Vm.sameSetup_frame hH.setup he).meets) vm0

omit hH in
/-- Only intact snapshots are kept, so there is no overflow to report. -/
theorem vmDsRestore_steady {snapshot : Option VmStackSnapshot}
    (hsnap : ∀ snap, snapshot = some snap → snap.Intact) (vm0 : Vm) :
    Meets (steady W vm0) (onMachine (vmDsRestore H snapshot)) anyValue := by
  intro t ht
  cases snapshot with
  | none => exact ⟨ht, trivial⟩
  | some snap =>
      have hintact := hsnap snap rfl
      obtain ⟨DS, sp, hsp, hload⟩ := reloadStack_intact hintact t.machine.vm
      unfold onMachine
      rw [vmDsRestore_reload hintact.1 hload]
      exact ⟨⟨ht.1.withDs hsp, ht.2⟩, trivial⟩

omit hH in
/-- A registration keeps the invariant, and a word that is not refused is appended. -/
theorem registerWord_kept {s : Embedding W} (hs : s.Inv bytes) {r : Registration}
    (hlen : ∀ p, r.code = some p → 0 < r.codeLen → r.codeLen = (bytes p).length)
    (hfits : r.op.Fits s.dict.arenaSize) :
    ∃ i d, vmRegisterWord r.name r.code r.codeLen r.dupOk s.dict = some (i, d) ∧
      (s.withDict bytes d (s.words.call r.op).entries).Inv bytes ∧
      (¬ s.Refuses r → i = s.entries.length ∧
        (s.words.call r.op).entries = s.entries ++ [⟨r.name, r.code⟩]) := by
  obtain ⟨i, d, hrun, -, hcase⟩ := vmRegisterWord_spec hs.dict r.code r.codeLen r.dupOk hfits
  have hlengths := vmRegisterWord_lengths hs.lengths hlen hrun
  refine ⟨i, d, hrun, ?_⟩
  obtain ⟨hok, hi, hd, -⟩ | ⟨hno, -, hd, -⟩ := hcase
  · have hcall : (s.words.call r.op).entries = s.entries ++ [⟨r.name, r.code⟩] := by
      rw [Embedding.words, Registration.op, WordList.call, hok]
      rfl
    rw [hcall]
    exact ⟨hs.withDict hd hlengths, fun _ => ⟨hi, rfl⟩⟩
  · have hcall : (s.words.call r.op).entries = s.entries := by
      rw [Embedding.words, Registration.op, WordList.call, hno]
      rfl
    rw [hcall]
    exact ⟨hs.withDict hd hlengths, fun h => absurd hno h⟩

/-- A registration is defined, whatever comes of it. -/
theorem registerWord_admits {s : Embedding W} (hs : s.Inv bytes) {r : Registration}
    (hlen : ∀ p, r.code = some p → 0 < r.codeLen → r.codeLen = (bytes p).length)
    (hfits : r.op.Fits s.dict.arenaSize) :
    (keeping W bytes).Admits anyValue s (registerWord H bytes r s) := by
  obtain ⟨i, d, hrun, hkept, -⟩ := registerWord_kept hs hlen hfits
  unfold registerWord
  rw [hrun]
  by_cases hquiet : 0 ≤ i ∨ r.code.isNone ∨ r.codeLen ≤ 0
  · simp only [if_pos hquiet]
    exact ⟨hkept, trivial⟩
  · simp only [if_neg hquiet]
    obtain ⟨e, he, rfl⟩ := vmRegisterWord_code hrun (by omega)
    have ha := onApi_admits hkept (vmPanic_steady hH he _)
    exact ha

theorem memRead32_steady (addr out : Cell) (vm0 : Vm) :
    Meets (steady W vm0) (vmMemRead32 H addr out) anyValue := by
  have hcore : Meets (steady W vm0) (onMachine (v4MemRead32Core H addr out)) anyValue :=
    onMachine_steady
      (((sandbox_memory hH.bounds).read32Core (sandbox W).composable addr out).mono
        fun _ _ => trivial)
      (fun vm => ((framedBy_memory Vm.sameSetup_frame hH.setup).read32Core
        (framedBy W Vm.SameSetup vm).composable addr out).mono fun _ _ => trivial) vm0
  refine .bind steady_composable hcore fun r _ => ?_
  exact .bind steady_composable (setLastErr_steady r.1) fun _ _ => .pure steady_composable trivial

theorem memWrite32_steady (addr val : Cell) (vm0 : Vm) :
    Meets (steady W vm0) (vmMemWrite32 H addr val) anyValue := by
  have hcore : Meets (steady W vm0) (onMachine (v4MemWrite32Core H addr val)) anyValue :=
    onMachine_steady
      (((sandbox_memory hH.bounds).write32Core (sandbox W).composable addr val).mono
        fun _ _ => trivial)
      (fun vm => ((framedBy_memory Vm.sameSetup_frame hH.setup).write32Core
        (framedBy W Vm.SameSetup vm).composable addr val).mono fun _ _ => trivial) vm0
  refine .bind steady_composable hcore fun e _ => ?_
  exact .bind steady_composable (setLastErr_steady e) fun _ _ => .pure steady_composable trivial

omit hH in
/-- A reset of the dictionary. -/
theorem resetDictionary_admits {s : Embedding W} (hs : s.Inv bytes) :
    (keeping W bytes).Admits anyValue s (resetDictionary bytes s) := by
  obtain ⟨d, hrun, -, hd⟩ := vmResetDictionary_spec hs.dict
  have hlengths : d.TrueLengths bytes := fun i hi => by
    have hcount : d.wordCount = 0 := hd.count
    omega
  unfold resetDictionary
  rw [hrun]
  exact ⟨hs.withDict hd hlengths, trivial⟩

/-- **One call** does not fault, and keeps the invariant also when it ends with an error. -/
theorem publicCall_admits {s : Embedding W} (hs : s.Inv bytes) {c : PublicCall}
    (hvalid : c.Valid bytes s) :
    (keeping W bytes).Admits anyValue s (publicCall H bytes c s) := by
  have hresetStacks : ∀ vm0, Meets (steady W vm0) (onMachine (modifyVm vmResetStacks)) anyValue :=
    onMachine_modify (fun _ => vmResetStacks_sandboxed) fun _ => ⟨rfl, rfl⟩
  cases c with
  | registerWord r => exact discard_admits hs (registerWord_admits hH hs hvalid.1 hvalid.2)
  | resetDictionary => exact resetDictionary_admits hs
  | resetStacks => exact onApi_admits hs (hresetStacks _)
  | reset =>
      exact .bind keeping_composable (resetDictionary_admits hs) hs fun _ s' _ _ hs' =>
        onApi_admits hs' (hresetStacks _)
  | registerMmio list count =>
      exact discard_admits hs (onApi_admits hs
        (onMachine_lift (fun vm hvm => vmRegisterMmio_sandboxed hvalid hvm) _))
  | memRead32 addr out =>
      exact discard_admits hs (onApi_admits hs (memRead32_steady hH addr out _))
  | memWrite32 addr val =>
      exact discard_admits hs (onApi_admits hs (memWrite32_steady hH addr val _))
  | dsPush value =>
      exact onApi_admits hs (onMachine_steady ((sandbox_stack hH.bounds).push value)
        (fun _ => (framedBy_stack Vm.sameSetup_frame hH.setup).push value) _)
  | dsPop =>
      exact discard_admits hs (onApi_admits hs (onMachine_steady (sandbox_stack hH.bounds).pop
        (fun _ => (framedBy_stack Vm.sameSetup_frame hH.setup).pop) _))
  | dsClear =>
      exact onApi_admits hs (onMachine_modify (fun _ => vmDsClear_sandboxed)
        (fun _ => ⟨rfl, rfl⟩) _)
  | dsSnapshot snapOk dataOk =>
      show (keeping W bytes).Admits anyValue s (takeSnapshot snapOk dataOk s)
      obtain ⟨r, hrun⟩ := vmDsSnapshot_defined hs.sandboxed.sp snapOk dataOk
      unfold takeSnapshot
      rw [hrun]
      cases r with
      | none => exact ⟨hs, trivial⟩
      | some snap =>
          -- the new snapshot is as deep as the stack was
          refine ⟨hs.withSnaps fun x hx => ?_, trivial⟩
          obtain rfl | hx := List.mem_cons.mp hx
          · exact vmDsSnapshot_intact hrun
          · exact hs.snaps x hx
  | dsRestore k =>
      refine discard_admits hs (onApi_admits hs (vmDsRestore_steady (fun snap hk => ?_) _))
      exact hs.snaps snap (List.mem_of_getElem? hk)
  | dsSnapshotFree k =>
      exact ⟨hs.withSnaps fun x hx => hs.snaps x (List.mem_of_mem_eraseIdx hx), trivial⟩
  | setPanicHandler handler userData =>
      exact onApi_admits hs (onMachine_modify
        (fun _ hvm => vmSetPanicHandler_sandboxed hvm handler userData) (fun _ => ⟨rfl, rfl⟩) _)
  | registerSysHandler handler =>
      exact onApi_admits (x := onMachine (v4RegisterSysHandler handler)) hs
        fun t ht => ⟨ht, trivial⟩
  | taskInit ms =>
      exact onApi_admits hs (onMachine_modify (fun _ hvm => v4BackendTaskInit_sandboxed hvm ms)
        (fun _ => ⟨rfl, rfl⟩) _)
  | task o =>
      exact onApi_admits hs (onMachine_lift (fun vm hvm => backendCall_sandboxed o hvm) _)

/-! ## Executing -/

omit hH in
/-- Word `i` is the code registered for it, with its length. -/
theorem Embedding.Inv.exec_word {s : Embedding W} (hs : s.Inv bytes) {i : Nat}
    (hi : i < s.entries.length) : ∃ p, s.entries[i].code = some p ∧
      vmExec s.machine (s.machine.vm.getWord i)
        = .start s.machine (bytes p) (bytes p).length := by
  have hcount : i < s.dict.wordCount := hs.dict.count ▸ hi
  obtain ⟨p, hp, hpos, hlen⟩ := hs.lengths i hcount
  have hword : s.machine.vm.HasWord i (bytes p) (bytes p).length := by
    refine ⟨hs.carries.wordCount ▸ hcount, hs.sandboxed.wordCount, ?_, by omega⟩
    rw [hs.carries.words i hcount, hp, hlen]
    rfl
  refine ⟨p, ?_, hword.exec⟩
  rw [← (hs.dict.entries i hi).code]
  exact hp

omit hH in
/-- What `vm_exec` does with an index of any kind. -/
theorem Embedding.Inv.exec_cases {s : Embedding W} (hs : s.Inv bytes) (i : Int) :
    vmExec s.machine (s.machine.vm.getWord i) = .ret Err.invalidArg.code s.machine [] ∨
      ∃ p, vmExec s.machine (s.machine.vm.getWord i)
        = .start s.machine (bytes p) (bytes p).length := by
  by_cases hi : i < 0 ∨ i ≥ s.machine.vm.wordCount
  · have hnone : s.machine.vm.getWord i = none := if_pos hi
    rw [hnone]
    exact .inl rfl
  · obtain ⟨k, rfl⟩ := Int.eq_ofNat_of_zero_le (show 0 ≤ i by omega)
    have hk : k < s.entries.length := by
      have hcarried := hs.carries.wordCount
      have hcount := hs.dict.count
      omega
    obtain ⟨p, -, hexec⟩ := hs.exec_word hk
    exact .inr ⟨p, hexec⟩

/-- **One execution** stays within the bounds and leaves alone what was set up. -/
theorem start_steady {m : Machine W} (hm : m.vm.Sandboxed) {bc : List Byte} {c : Config W}
    (h : Reaches H (.start m bc bc.length) c) :
    c.Safe ∧ ∀ n, c.machine = some n → Vm.SameSetup m.vm n.vm := by
  constructor
  · have hstart : (sandbox W).Holds [] (.start m bc bc.length) :=
      ⟨hm, ⟨Nat.zero_le _, rfl⟩, [], rfl, fun _ hx => by cases hx⟩
    refine safe_of_holds (RunInv.Holds.reaches sandbox_closed
      (fun cur ha => sandbox_fetch hH.bounds ha) (fun w cur ha => ?_) hstart h)
    exact sandbox_task.pollOnce (sandbox W).composable (sandbox_stack hH.bounds) w cur.ip ha ha
  · exact fun n hn => framedBy_reaches Vm.sameSetup_frame hH.setup Vm.sameSetup_backend h hn

/-- The VM an execution leaves behind. -/
theorem Embedding.Inv.after_start {s : Embedding W} (hs : s.Inv bytes) {bc : List Byte}
    {e : V4Err} {m : Machine W} (h : Reaches H (.start s.machine bc bc.length) (.ret e m [])) :
    (s.withMachine m).Inv bytes := by
  obtain ⟨hsafe, hsetup⟩ := start_steady hH hs.sandboxed h
  have hsame := hsetup m rfl
  exact hs.withApi (hsafe.bounds m rfl) hsame.words hsame.wordCount

/-- **Step lemma.** -/
theorem Embedding.Inv.step {s s' : Embedding W} (hs : s.Inv bytes)
    (h : Embedding.Step H bytes s s') : s'.Inv bytes := by
  cases h with
  | call c hvalid hend =>
      have ha := publicCall_admits hH hs hvalid
      obtain ⟨a, heq⟩ | ⟨e, heq⟩ := hend
      · rw [heq] at ha
        exact ha.1
      · rw [heq] at ha
        exact ha
  | execRaw bc hret => exact hs.after_start hH hret
  | exec i hret =>
      obtain hexec | ⟨p, hexec⟩ := hs.exec_cases i
      · -- nothing to execute: the VM is returned as it was
        rw [hexec] at hret
        cases hret.of_final rfl
        exact hs
      · rw [hexec] at hret
        exact hs.after_start hH hret

end

/-! ## From `vm_create` on -/

/-- The buffer has the size given for it, and the list as many windows. -/
structure VmConfig.Sound (cfg : VmConfig) : Prop where
  ram : ∀ ram, cfg.mem = some ram → ram.cap = cfg.memSize.toNat
  mmio : ∀ l, cfg.mmio = some l → cfg.mmioCount ≤ l.length

theorem copyMmio_defined {list : List V4Mmio} {i k : Nat} (hlen : i + k ≤ list.length) (vm : Vm) :
    ∃ vm', copyMmio list i k vm = some vm' := by
  induction k generalizing i vm with
  | zero => exact ⟨vm, rfl⟩
  | succ k ih =>
      have hi : i < list.length := by omega
      obtain ⟨vm', hrest⟩ := ih (show i + 1 + k ≤ list.length by omega)
        { vm with mmio := Function.update vm.mmio i list[i] }
      refine ⟨vm', ?_⟩
      rw [copyMmio, List.getElem?_eq_getElem hi]
      exact hrest

theorem loadMmio_cases {cfg : VmConfig} (hcfg : cfg.Sound) (vm : Vm) :
    loadMmio cfg vm = some vm ∨
      ∃ mmio n, n ≤ 16 ∧ loadMmio cfg vm = some { vm with mmio := mmio, mmioCount := n } := by
  unfold loadMmio
  cases hlist : cfg.mmio with
  | none => exact .inl rfl
  | some list =>
      have hcount := hcfg.mmio list hlist
      by_cases hpos : 0 < cfg.mmioCount
      · simp only [if_pos hpos]
        have hn : 0 + (if cfg.mmioCount ≤ 16 then cfg.mmioCount.toNat else 16)
            ≤ list.length := by
          split <;> omega
        obtain ⟨vm', hcopy⟩ := copyMmio_defined hn vm
        obtain ⟨mmio, rfl⟩ := copyMmio_same hcopy
        refine .inr ⟨mmio, _, ?_, by rw [hcopy]; rfl⟩
        split <;> omega
      · exact .inl (if_neg hpos)

/-- Creating a VM is defined, and a new VM is within the bounds. -/
theorem vmCreate_sandboxed {cfg : VmConfig} (hcfg : cfg.Sound) (ok : Bool) :
    ∃ r, vmCreate ok (some cfg) = some r ∧ ∀ vm, r = some vm → vm.Sandboxed ∧ vm.wordCount = 0 := by
  cases ok with
  | false => exact ⟨none, rfl, fun vm hvm => by cases hvm⟩
  | true =>
      have hblank : Vm.Sandboxed { vmReset Vm.blank with mem := cfg.mem, memSize := cfg.memSize } :=
        have h := vmResetStacks_sandboxed blank_sandboxed
        ⟨h.sp, h.fp, ⟨h.backend.sched.congr rfl rfl fun _ => Nat.le_refl _, h.backend.queue⟩,
          h.wordCount, h.mmioCount, h.words, hcfg.ram⟩
      obtain hload | ⟨mmio, n, hn, hload⟩ := loadMmio_cases hcfg
        { vmReset Vm.blank with mem := cfg.mem, memSize := cfg.memSize }
      · refine ⟨some _, by rw [vmCreate, if_pos rfl, hload]; rfl, fun vm hvm => ?_⟩
        cases hvm
        exact ⟨hblank, rfl⟩
      · refine ⟨some _, by rw [vmCreate, if_pos rfl, hload]; rfl, fun vm hvm => ?_⟩
        cases hvm
        exact ⟨⟨hblank.sp, hblank.fp, ⟨hblank.backend.sched.congr rfl rfl fun _ => Nat.le_refl _,
          hblank.backend.queue⟩, hblank.wordCount, hn, hblank.words, hblank.ram⟩, rfl⟩

/-- The invariant of a new VM. -/
theorem Embedding.Inv.fresh {m : Machine W} (hm : m.vm.Sandboxed) (hwords : m.vm.wordCount = 0)
    {arena : Option NameArena} (harena : ∀ a, arena = some a → a.alloc.used ≤ a.alloc.size)
    (bytes : CodePtr → List Byte) : (Embedding.fresh m arena).Inv bytes where
  sandboxed := hm
  carries := ⟨hwords, fun i hi => absurd hi (Nat.not_lt_zero i)⟩
  dict := DictInv.nil rfl harena
  lengths i hi := absurd hi (Nat.not_lt_zero i)
  snaps _ hx := by cases hx

/-- What an embedding can rely on: no valid call and no execution leaves an array, the calls
    that look at the stacks tell what is on them, a word that is not refused is registered, a
    name is found where it was registered last, and executing a word executes the code
    registered for it. -/
structure Embedding.Sound (H : Host W) (bytes : CodePtr → List Byte) (s : Embedding W) : Prop where
  calls : ∀ c : PublicCall, c.Valid bytes s → publicCall H bytes c s ≠ .fault
  dsReads : StackReads s.machine.vm s.machine.vm.ds
  rsReads : ReturnReads s.machine.vm s.machine.vm.rs
  runs : ∀ bc c, Reaches H (.start s.machine bc bc.length) c →
    c.Safe ∧ ∀ n, c.machine = some n → Vm.SameSetup s.machine.vm n.vm
  registers : ∀ r : Registration, (PublicCall.registerWord r).Valid bytes s → ¬ s.Refuses r →
    ∃ d, registerWord H bytes r s
      = .ok (s.entries.length : Int) (s.withDict bytes d (s.entries ++ [⟨r.name, r.code⟩]))
  names : ∀ n, ∃ r, vmFindWord (some n) s.dict = some r ∧ NewestNamed n s.entries r
  words : ∀ i (hi : i < s.entries.length), ∃ p, s.entries[i].code = some p ∧
    vmExec s.machine (s.machine.vm.getWord i) = .start s.machine (bytes p) (bytes p).length

theorem Embedding.Inv.sound {H : Host W} (hH : H.KeepsSetup) {bytes : CodePtr → List Byte}
    {s : Embedding W} (hs : s.Inv bytes) : s.Sound H bytes where
  calls c hvalid hfault := by
    have ha := publicCall_admits hH hs hvalid
    rw [hfault] at ha
    exact ha
  dsReads := stackReads_ds hs.sandboxed.sp
  rsReads := returnReads_rs hs.sandboxed.backend.sched.rp
  runs _ _ h := start_steady hH hs.sandboxed h
  registers r hvalid hfree := by
    obtain ⟨i, d, hrun, -, hok⟩ := registerWord_kept hs hvalid.1 hvalid.2
    obtain ⟨rfl, hentries⟩ := hok hfree
    refine ⟨d, ?_⟩
    simp only [registerWord, hrun, hentries]
    rw [if_pos (.inl (Int.natCast_nonneg _))]
  names := hs.dict.represents.find
  words _ hi := hs.exec_word hi

/-- `LIT1; RET`, whatever the pointer. -/
def litOneCode (_ : CodePtr) : List Byte := [0x74, 0x51]

end V4Engine
