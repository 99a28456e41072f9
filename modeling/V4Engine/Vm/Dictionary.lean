/-
  V4Engine.Vm.Dictionary

  The word management API of `core.cpp`: registering, finding and reading words,
  and resetting the dictionary.

  A name is copied into the arena of the VM or, without one, by `strdup`.  Both
  memories are modelled byte by byte; `none` is a read or a write outside a block,
  the use of a freed block, or the freeing of one that is not live.  The bytecode
  of a word belongs to the embedder and is only pointed to, and so is the panic
  handler that a refused registration calls.

  `DictLaw` says that the dictionary is an append-only list with shadowing.
-/
import V4Engine.Vm.Arena
import V4Engine.Lib.CString

namespace V4Engine

open Lib

/-- A `const uint8_t*` to bytecode. -/
abbrev CodePtr := Nat

/-- A non-null `char*` to a name: an offset into the arena, or a block of `strdup`. -/
inductive NamePtr where
  | arena (off : Nat)
  | heap (id : Nat)
  deriving DecidableEq, Repr

/-- `Word`, with its name. -/
structure NamedWord where
  name : Option NamePtr
  code : Option CodePtr
  codeLen : Int
  deriving DecidableEq, Repr

/-- An arena and the content of its buffer. -/
structure NameArena where
  alloc : V4Arena
  mem : Nat → Byte

/-- The dictionary of a VM, with the memories its names live in.  Blocks of `strdup`
    are numbered in order of allocation. -/
structure Dictionary where
  words : Nat → NamedWord
  wordCount : Nat
  arena : Option NameArena
  next : Nat
  blocks : Nat → Option (List Byte)

namespace Dictionary

/-- The bytes readable from a name pointer on. -/
def reader (d : Dictionary) : NamePtr → Reader
  | .arena off => fun k =>
      d.arena.bind fun a => if off + k < a.alloc.size.toNat then some (a.mem (off + k)) else none
  | .heap id => fun k => (d.blocks id).bind fun b => b[k]?

/-- `vm->words[vm->word_count].name = name`. -/
def setName (d : Dictionary) (name : Option NamePtr) : Dictionary :=
  { d with words :=
      Function.update d.words d.wordCount { d.words d.wordCount with name := name } }

/-- `strdup(name)`: a new block with the name and its NUL. -/
def strdup (d : Dictionary) (n : CString) : Dictionary :=
  { d with next := d.next + 1, blocks := Function.update d.blocks d.next (some n.data) }

/-- The arena and its buffer replaced. -/
def withArena (d : Dictionary) (a : NameArena) : Dictionary := { d with arena := some a }

/-- Store code and length of the new word and count it. -/
def append (d : Dictionary) (code : Option CodePtr) (codeLen : Int) : Dictionary :=
  { d with
    words := Function.update d.words d.wordCount
      { d.words d.wordCount with code := code, codeLen := codeLen }
    wordCount := d.wordCount + 1 }

end Dictionary

/-! ## Registering -/

/-- The copying of a name, and whether it succeeded.  `dupOk` is the answer of
    `strdup`. -/
def copyName (n : CString) (dupOk : Bool) (d : Dictionary) : Option (Bool × Dictionary) :=
  match d.arena with
  | some a =>
      match v4ArenaAlloc (BitVec.ofNat 64 n.size) 1 a.alloc with
      | (none, alloc) => some (false, d.withArena ⟨alloc, a.mem⟩)
      | (some off, alloc) =>
          if off.toNat + n.size ≤ a.alloc.size.toNat then
            some (true, (d.withArena ⟨alloc, writeBytes a.mem off.toNat n.data⟩).setName
              (some (.arena off.toNat)))
          else none
  | none =>
      if dupOk then some (true, (d.strdup n).setName (some (.heap d.next)))
      else some (false, d.setName none)

/-- The part of a registration that sets the name. -/
def registerName (name : Option CString) (dupOk : Bool) (d : Dictionary) :
    Option (Bool × Dictionary) :=
  match name with
  | some n => copyName n dupOk d
  | none => some (true, d.setName none)

/-- Returns the index of the new word or a negative error code. -/
def vmRegisterWord (name : Option CString) (code : Option CodePtr) (codeLen : Int) (dupOk : Bool)
    (d : Dictionary) : Option (Int × Dictionary) :=
  if code.isNone ∨ codeLen ≤ 0 then some (Err.invalidArg.code, d)
  else if d.wordCount ≥ 256 then some (Err.dictionaryFull.code, d)
  else
    match registerName name dupOk d with
    | none => none
    | some (false, d) => some (Err.invalidArg.code, d)
    | some (true, d) => some ((d.wordCount : Int), d.append code codeLen)

/-! ## Resetting -/

/-- Free one name, if there is one, and clear the pointer. -/
def freeName (i : Nat) (d : Dictionary) : Option Dictionary :=
  match (d.words i).name with
  | none => some d
  | some (.arena _) => none
  | some (.heap id) =>
      if (d.blocks id).isSome then
        some { d with
          words := Function.update d.words i { d.words i with name := none }
          blocks := Function.update d.blocks id none }
      else none

/-- Free the names of `k` words from `i` on. -/
def freeNames (i : Nat) : Nat → Dictionary → Option Dictionary
  | 0, d => some d
  | k + 1, d => (freeName i d).bind (freeNames (i + 1) k)

def vmResetDictionary (d : Dictionary) : Option Dictionary :=
  match d.arena with
  | some _ => some { d with wordCount := 0 }
  | none => (freeNames 0 d.wordCount d).map fun d => { d with wordCount := 0 }

/-! ## Looking up -/

/-- The search loop over the words below `i`, from the last one down. -/
def findDown (d : Dictionary) (n : CString) : Nat → Option Int
  | 0 => some (-1)
  | i + 1 =>
      match (d.words i).name with
      | none => findDown d n i
      | some p => (strEq (d.reader p) n.bytes).bind fun eq =>
          if eq then some (i : Int) else findDown d n i

def vmFindWord (name : Option CString) (d : Dictionary) : Option Int :=
  match name with
  | none => some (-1)
  | some n => findDown d n d.wordCount

/-- `none` is a null pointer. -/
def vmGetWord (idx : Int) (d : Dictionary) : Option NamedWord :=
  if idx < 0 ∨ idx ≥ d.wordCount then none else some (d.words idx.toNat)

/-! ## The dictionary as a list -/

/-- What was registered. -/
structure DictEntry where
  name : Option CString
  code : Option CodePtr
  deriving DecidableEq

inductive DictOp where
  | register (name : Option CString) (code : Option CodePtr) (codeLen : Int) (dupOk : Bool)
  | reset

/-- The call and what it returns, `0` for a reset. -/
def dictCall : DictOp → Dictionary → Option (Int × Dictionary)
  | .register name code codeLen dupOk, d => vmRegisterWord name code codeLen dupOk d
  | .reset, d => (vmResetDictionary d).map (0, ·)

/-- An append-only list of at most 256 words.  `room` is the number of bytes left for their
    names, `none` when each name is copied into memory of its own. -/
structure WordList where
  entries : List DictEntry
  room : Option Nat
  deriving DecidableEq

/-- The bytes a name takes. -/
def nameSize (name : Option CString) : Nat := (name.map CString.size).getD 0

/-- A name is refused for want of room, or of memory of its own. -/
def nameRefused (room : Option Nat) (dupOk : Bool) (n : CString) : Bool :=
  match room with
  | some k => k < n.size
  | none => !dupOk

namespace WordList

/-- A word is refused without code, as the 257th, or when its name is. -/
def refuses (l : WordList) (name : Option CString) (code : Option CodePtr) (codeLen : Int)
    (dupOk : Bool) : Bool :=
  code.isNone || codeLen ≤ 0 || 256 ≤ l.entries.length || name.any (nameRefused l.room dupOk)

/-- The list after a call.  A reset gives no room back. -/
def call : DictOp → WordList → WordList
  | .register name code codeLen dupOk, l =>
      if l.refuses name code codeLen dupOk then l
      else ⟨l.entries ++ [⟨name, code⟩], l.room.map (· - nameSize name)⟩
  | .reset, l => ⟨[], l.room⟩

end WordList

/-- A dictionary and the list it stands for.  The calls on the one and on the other share
    nothing but their arguments. -/
structure DictState where
  dict : Dictionary
  list : WordList

def dictStep (o : DictOp) (s : DictState) : Option DictState :=
  (dictCall o s.dict).map fun r => ⟨r.2, s.list.call o⟩

/-- The name pointer of a word leads to `name`. -/
def NameIs (d : Dictionary) : Option NamePtr → Option CString → Prop
  | none, none => True
  | some p, some n => ReadsAs (d.reader p) n
  | _, _ => False

/-- `r` is the index of the newest entry named `n`, or `-1` for want of one. -/
def NewestNamed (n : CString) (l : List DictEntry) (r : Int) : Prop :=
  (r = -1 ∧ ∀ i (h : i < l.length), l[i].name ≠ some n) ∨
    ∃ i, ∃ h : i < l.length, r = i ∧ l[i].name = some n ∧
      ∀ j (hj : j < l.length), i < j → l[j].name ≠ some n

/-- The answers of a dictionary are those of the list. -/
structure Represents (d : Dictionary) (l : List DictEntry) : Prop where
  count : d.wordCount = l.length
  bound : d.wordCount ≤ 256
  find : ∀ n, ∃ r, vmFindWord (some n) d = some r ∧ NewestNamed n l r
  get : ∀ i (h : i < l.length), ∃ w, vmGetWord i d = some w ∧ w.code = l[i].code ∧
    NameIs d w.name l[i].name

/-- What is expected of one call: afterwards the answers are those of the list, and a
    registration returns the index of the entry that is appended, or an error when the
    list refuses the word. -/
def DictLaw (s : DictState) (o : DictOp) (s' : DictState) : Prop :=
  Represents s'.dict s'.list.entries ∧
    match o with
    | .register name code codeLen dupOk =>
        ∃ r, (vmRegisterWord name code codeLen dupOk s.dict).map Prod.fst = some r ∧
          if s.list.refuses name code codeLen dupOk then r < 0 else r = s.list.entries.length
    | .reset => True

/-- Size of the arena's buffer. -/
def Dictionary.arenaSize (d : Dictionary) : Nat :=
  match d.arena with
  | some a => a.alloc.size.toNat
  | none => 0

theorem Dictionary.arenaSize_congr {d d' : Dictionary} (h : d'.arena = d.arena) :
    d'.arenaSize = d.arenaSize := by
  rw [arenaSize, arenaSize, h]

/-- The bytes left in the arena.  One without a buffer hands out nothing. -/
def Dictionary.room (d : Dictionary) : Option Nat :=
  d.arena.map fun a =>
    if a.alloc.buffer.isSome then a.alloc.size.toNat - a.alloc.used.toNat else 0

/-- The name and the buffer of the arena are objects of one 64-bit address space. -/
def DictOp.Fits (arenaSize : Nat) : DictOp → Prop
  | .register (some n) _ _ _ => n.size + arenaSize < 2 ^ 64
  | _ => True

instance (arenaSize : Nat) (o : DictOp) : Decidable (o.Fits arenaSize) := by
  unfold DictOp.Fits
  split <;> infer_instance

/-! ## The invariant -/

/-- A name pointer that leads to `n` and keeps doing so: its bytes are below what the
    arena has handed out, or in a block of `strdup`. -/
def Placed (d : Dictionary) (p : NamePtr) (n : CString) : Prop :=
  ReadsAs (d.reader p) n ∧
    match p with
    | .arena off => ∃ a, d.arena = some a ∧ off + n.size ≤ a.alloc.used.toNat
    | .heap id => d.arena = none ∧ id < d.next

/-- The slot of a word holds what was registered. -/
structure Holds (d : Dictionary) (w : NamedWord) (e : DictEntry) : Prop where
  code : w.code = e.code
  anonymous : e.name = none → w.name = none
  named : ∀ n, e.name = some n → ∃ p, w.name = some p ∧ Placed d p n

structure DictInv (d : Dictionary) (l : List DictEntry) : Prop where
  count : d.wordCount = l.length
  bound : d.wordCount ≤ 256
  entries : ∀ i (h : i < l.length), Holds d (d.words i) l[i]
  distinct : ∀ i j id, i < l.length → j < l.length → (d.words i).name = some (.heap id) →
    (d.words j).name = some (.heap id) → i = j
  arena : ∀ a, d.arena = some a → a.alloc.used ≤ a.alloc.size

theorem Holds.nameIs {d : Dictionary} {w : NamedWord} {e : DictEntry} (h : Holds d w e) :
    NameIs d w.name e.name := by
  cases hn : e.name with
  | none =>
      rw [h.anonymous hn]
      trivial
  | some n =>
      obtain ⟨p, hp, hplaced⟩ := h.named n hn
      rw [hp]
      exact hplaced.1

/-- Entries are kept by whatever keeps their slots and the bytes of their names. -/
theorem Holds.mono {d d' : Dictionary} {w : NamedWord} {e : DictEntry} (h : Holds d w e)
    (hplaced : ∀ p n, Placed d p n → Placed d' p n) : Holds d' w e where
  code := h.code
  anonymous := h.anonymous
  named n hn := by
    obtain ⟨p, hp, hpn⟩ := h.named n hn
    exact ⟨p, hp, hplaced p n hpn⟩

/-! ## The answers -/

/-- `r` is the index of the newest entry named `n` below `i`, or `-1`. -/
def NewestBelow (n : CString) (l : List DictEntry) (i : Nat) (r : Int) : Prop :=
  (r = -1 ∧ ∀ j (h : j < l.length), j < i → l[j].name ≠ some n) ∨
    ∃ k, ∃ h : k < l.length, k < i ∧ r = k ∧ l[k].name = some n ∧
      ∀ j (hj : j < l.length), j < i → k < j → l[j].name ≠ some n

/-- An entry with another name changes nothing. -/
theorem NewestBelow.skip {n : CString} {l : List DictEntry} {i : Nat} {r : Int}
    (h : NewestBelow n l i r) (hi : i < l.length) (hne : l[i].name ≠ some n) :
    NewestBelow n l (i + 1) r := by
  have hstep : ∀ j (hj : j < l.length), j < i + 1 → (j < i → l[j].name ≠ some n) →
      l[j].name ≠ some n := by
    intro j hj hji hbelow
    by_cases heq : j = i
    · subst heq
      exact hne
    · exact hbelow (by omega)
  rcases h with ⟨hr, hall⟩ | ⟨k, hk, hki, hr, hname, hall⟩
  · exact Or.inl ⟨hr, fun j hj hji => hstep j hj hji (hall j hj)⟩
  · refine Or.inr ⟨k, hk, by omega, hr, hname, fun j hj hji hkj => ?_⟩
    exact hstep j hj hji fun hlt => hall j hj hlt hkj

/-- The search among the words below `i`, by induction on `i`. -/
theorem findDown_newest {d : Dictionary} {l : List DictEntry} (h : DictInv d l) (n : CString)
    {i : Nat} (hi : i ≤ l.length) : ∃ r, findDown d n i = some r ∧ NewestBelow n l i r := by
  induction i with
  | zero => exact ⟨-1, rfl, Or.inl ⟨rfl, fun j _ hj => absurd hj (Nat.not_lt_zero j)⟩⟩
  | succ i ih =>
      obtain ⟨r, hr, hnewest⟩ := ih (by omega)
      have hlt : i < l.length := by omega
      have hentry := h.entries i hlt
      rw [findDown]
      cases hname : l[i].name with
      | none =>
          -- the search passes over an anonymous word
          rw [hentry.anonymous hname]
          exact ⟨r, hr, hnewest.skip hlt (by rw [hname]; simp)⟩
      | some m =>
          obtain ⟨p, hp, hplaced⟩ := hentry.named m hname
          rw [hp]
          simp only [hplaced.1.strEq n, Option.bind_some]
          by_cases hmn : m = n
          · rw [if_pos (decide_eq_true hmn)]
            refine ⟨i, rfl, Or.inr ⟨i, hlt, Nat.lt_succ_self i, rfl, ?_, ?_⟩⟩
            · rw [hname, hmn]
            · intro j _ hji hij
              omega
          · rw [if_neg (by simp [hmn])]
            refine ⟨r, hr, hnewest.skip hlt ?_⟩
            rw [hname]
            exact fun hsome => hmn (Option.some.inj hsome)

theorem NewestBelow.newestNamed {n : CString} {l : List DictEntry} {r : Int}
    (h : NewestBelow n l l.length r) : NewestNamed n l r := by
  rcases h with ⟨hr, hall⟩ | ⟨k, hk, -, hr, hname, hall⟩
  · exact Or.inl ⟨hr, fun j hj => hall j hj hj⟩
  · exact Or.inr ⟨k, hk, hr, hname, fun j hj hkj => hall j hj hj hkj⟩

/-- **The answers** of a dictionary satisfying the invariant are those of the list. -/
theorem DictInv.represents {d : Dictionary} {l : List DictEntry} (h : DictInv d l) :
    Represents d l where
  count := h.count
  bound := h.bound
  find n := by
    obtain ⟨r, hr, hnewest⟩ := findDown_newest h n (Nat.le_refl l.length)
    refine ⟨r, ?_, hnewest.newestNamed⟩
    rw [vmFindWord, h.count]
    exact hr
  get i hi := by
    have hentry := h.entries i hi
    refine ⟨d.words i, ?_, hentry.code, hentry.nameIs⟩
    rw [vmGetWord, if_neg, Int.toNat_natCast]
    rw [h.count]
    omega

/-! ## Registering keeps the invariant -/

/-- Writing behind the counted words. -/
theorem DictInv.setName {d : Dictionary} {l : List DictEntry} (h : DictInv d l)
    (name : Option NamePtr) : DictInv (d.setName name) l := by
  have hwords : ∀ i, i < l.length → (d.setName name).words i = d.words i := by
    intro i hi
    apply Function.update_of_ne
    rw [h.count]
    exact Nat.ne_of_lt hi
  refine ⟨h.count, h.bound, fun i hi => ?_, fun i j id hi hj => ?_, h.arena⟩
  · rw [hwords i hi]
    exact (h.entries i hi).mono fun _ _ hp => hp
  · rw [hwords i hi, hwords j hj]
    exact h.distinct i j id hi hj

/-- A new name pointer that leads to the name, and to no block in use. -/
structure NewName (d : Dictionary) (l : List DictEntry) (name : Option CString) : Prop where
  anonymous : name = none → (d.words d.wordCount).name = none
  named : ∀ n, name = some n → ∃ p, (d.words d.wordCount).name = some p ∧ Placed d p n
  fresh : ∀ i id, i < l.length → (d.words i).name = some (.heap id) →
    (d.words d.wordCount).name ≠ some (.heap id)

/-- Once the name is in place the word can be counted. -/
theorem DictInv.append {d : Dictionary} {l : List DictEntry} (h : DictInv d l)
    (hroom : d.wordCount < 256) {name : Option CString} (hname : NewName d l name)
    (code : Option CodePtr) (codeLen : Int) :
    DictInv (d.append code codeLen) (l ++ [⟨name, code⟩]) := by
  have hcount := h.count
  have hwords : ∀ i, i < l.length → (d.append code codeLen).words i = d.words i := by
    intro i hi
    exact Function.update_of_ne (by omega) _ _
  have hnew : ((d.append code codeLen).words l.length)
      = { d.words d.wordCount with code := code, codeLen := codeLen } := by
    rw [← hcount]
    exact Function.update_self ..
  constructor
  · show d.wordCount + 1 = _
    rw [List.length_append, hcount]
    rfl
  · exact hroom
  · intro i hi
    rw [List.length_append, List.length_singleton] at hi
    by_cases hil : i < l.length
    · rw [hwords i hil, List.getElem_append_left hil]
      exact (h.entries i hil).mono fun _ _ hp => hp
    · obtain rfl : i = l.length := by omega
      rw [hnew, List.getElem_append_right (Nat.le_refl _)]
      simp only [Nat.sub_self, List.getElem_cons_zero]
      exact ⟨rfl, hname.anonymous, hname.named⟩
  · intro i j id hi hj hni hnj
    rw [List.length_append, List.length_singleton] at hi hj
    -- the new name is a fresh block, so it meets no old one
    by_cases hil : i < l.length <;> by_cases hjl : j < l.length
    · rw [hwords i hil] at hni
      rw [hwords j hjl] at hnj
      exact h.distinct i j id hil hjl hni hnj
    · obtain rfl : j = l.length := by omega
      rw [hwords i hil] at hni
      rw [hnew] at hnj
      exact absurd hnj (hname.fresh i id hil hni)
    · obtain rfl : i = l.length := by omega
      rw [hwords j hjl] at hnj
      rw [hnew] at hni
      exact absurd hni (hname.fresh j id hjl hnj)
    · omega
  · exact h.arena

/-- The invariant survives changes to the memories that keep every placed name. -/
theorem DictInv.mono {d d' : Dictionary} {l : List DictEntry} (h : DictInv d l)
    (hwords : d'.words = d.words) (hcount : d'.wordCount = d.wordCount)
    (hplaced : ∀ p n, Placed d p n → Placed d' p n)
    (harena : ∀ a, d'.arena = some a → a.alloc.used ≤ a.alloc.size) : DictInv d' l := by
  refine ⟨hcount.trans h.count, hcount ▸ h.bound, fun i hi => ?_, fun i j id => ?_, harena⟩
  · rw [hwords]
    exact (h.entries i hi).mono hplaced
  · rw [hwords]
    exact h.distinct i j id

@[simp] theorem setName_name (d : Dictionary) (name : Option NamePtr) :
    ((d.setName name).words d.wordCount).name = name := by
  show (Function.update d.words d.wordCount _ d.wordCount).name = name
  rw [Function.update_self]

/-- What copying a name leads to: the invariant is kept, and a name that is not refused
    is in place. -/
structure NameRegistered (d : Dictionary) (l : List DictEntry) (name : Option CString)
    (dupOk ok : Bool) (d' : Dictionary) : Prop where
  inv : DictInv d' l
  count : d'.wordCount = d.wordCount
  size : d'.arenaSize = d.arenaSize
  refused : name.any (nameRefused d.room dupOk) = !ok
  room : d'.room = if ok then d.room.map (· - nameSize name) else d.room
  name : ok = true → NewName d' l name

/-- The words keep their names when the pointer is set behind them. -/
theorem DictInv.newName {d : Dictionary} {l : List DictEntry} (h : DictInv d l) {p : NamePtr}
    {n : CString} (hp : Placed d p n)
    (hfresh : ∀ i id, i < l.length → (d.words i).name = some (.heap id) → p ≠ .heap id) :
    NewName (d.setName (some p)) l (some n) where
  anonymous hn := by cases hn
  named m hm := by
    obtain rfl := Option.some.inj hm
    exact ⟨p, setName_name d (some p), hp⟩
  fresh i id hi hni := by
    have hword : (d.setName (some p)).words i = d.words i := by
      apply Function.update_of_ne
      rw [h.count]
      exact Nat.ne_of_lt hi
    rw [hword] at hni
    show ((d.setName (some p)).words d.wordCount).name ≠ _
    rw [setName_name]
    exact fun hsome => hfresh i id hi hni (Option.some.inj hsome)

/-- A name stays where it is when `strdup` copies another one. -/
theorem Placed.strdup {d : Dictionary} {p : NamePtr} {m : CString} (h : Placed d p m)
    (harena : d.arena = none) (n : CString) : Placed (d.strdup n) p m := by
  obtain ⟨hreads, hp⟩ := h
  cases p with
  | arena off =>
      obtain ⟨a, ha, -⟩ := hp
      rw [harena] at ha
      cases ha
  | heap id =>
      have hblock : (d.strdup n).blocks id = d.blocks id :=
        Function.update_of_ne (Nat.ne_of_lt hp.2) _ _
      refine ⟨hreads.congr fun k _ => ?_, harena, Nat.lt_succ_of_lt hp.2⟩
      simp only [Dictionary.reader, hblock]

theorem placed_strdup {d : Dictionary} (harena : d.arena = none) (n : CString) :
    Placed (d.strdup n) (.heap d.next) n := by
  have hblock : (d.strdup n).blocks d.next = some n.data := Function.update_self ..
  refine ⟨fun k hk => ?_, harena, Nat.lt_succ_self _⟩
  simp only [Dictionary.reader, hblock, Option.bind_some]
  exact List.getElem?_eq_getElem hk

/-- The blocks in use are older than the next one. -/
theorem DictInv.heap_lt {d : Dictionary} {l : List DictEntry} (h : DictInv d l) {i id : Nat}
    (hi : i < l.length) (hid : (d.words i).name = some (.heap id)) :
    d.arena = none ∧ id < d.next ∧ (d.blocks id).isSome := by
  have hentry := h.entries i hi
  cases hname : l[i].name with
  | none =>
      rw [hentry.anonymous hname] at hid
      cases hid
  | some m =>
      obtain ⟨p, hp, hreads, hplaced⟩ := hentry.named m hname
      rw [hid] at hp
      obtain rfl := Option.some.inj hp
      refine ⟨hplaced.1, hplaced.2, ?_⟩
      have hfirst := hreads 0 (by rw [CString.data_length]; exact Nat.zero_lt_succ _)
      obtain ⟨b, hb, -⟩ := Option.bind_eq_some_iff.mp hfirst
      rw [hb]
      rfl

/-- Copying a name with `strdup`. -/
theorem copyName_heap {d : Dictionary} {l : List DictEntry} (h : DictInv d l)
    (harena : d.arena = none) (n : CString) (dupOk : Bool) :
    ∃ ok d', copyName n dupOk d = some (ok, d') ∧ NameRegistered d l (some n) dupOk ok d' := by
  have hroom : d.room = none := by rw [Dictionary.room, harena]; rfl
  have hrefused : (some n).any (nameRefused d.room dupOk) = !dupOk := by rw [hroom]; rfl
  unfold copyName
  rw [harena]
  cases dupOk with
  | false =>
      refine ⟨false, d.setName none, rfl, h.setName none, rfl, rfl, hrefused, rfl, ?_⟩
      exact fun hok => absurd hok (by decide)
  | true =>
      have hinv : DictInv (d.strdup n) l :=
        h.mono rfl rfl (fun _ _ hp => hp.strdup harena n) h.arena
      refine ⟨true, (d.strdup n).setName (some (.heap d.next)), rfl, hinv.setName _, rfl, rfl,
        hrefused, ?_, fun _ => ?_⟩
      · rw [if_pos rfl, hroom]
        exact hroom
      apply hinv.newName (placed_strdup harena n)
      intro i id hi hni heq
      obtain rfl := NamePtr.heap.inj heq
      exact Nat.lt_irrefl _ (h.heap_lt hi hni).2.1

/-- A name stays where it is when another one is copied behind all that is used. -/
theorem Placed.withArena {d : Dictionary} {p : NamePtr} {m : CString} (h : Placed d p m)
    {a : NameArena} (ha : d.arena = some a) {alloc : V4Arena} {off : Nat} {l : List Byte}
    (hsize : alloc.size = a.alloc.size) (hoff : a.alloc.used.toNat ≤ off)
    (hused : a.alloc.used.toNat ≤ alloc.used.toNat) :
    Placed (d.withArena ⟨alloc, writeBytes a.mem off l⟩) p m := by
  obtain ⟨hreads, hp⟩ := h
  cases p with
  | heap id =>
      rw [ha] at hp
      cases hp.1
  | arena start =>
      obtain ⟨a', ha', hstop⟩ := hp
      obtain rfl := Option.some.inj (ha.symm.trans ha')
      refine ⟨hreads.congr fun k hk => ?_, _, rfl, Nat.le_trans hstop hused⟩
      rw [CString.data_length] at hk
      simp only [Dictionary.reader, Dictionary.withArena, ha, Option.bind_some, hsize]
      rw [writeBytes_of_lt (by omega)]

theorem placed_withArena (d : Dictionary) (a : NameArena) {alloc : V4Arena} {off : Nat}
    {n : CString} (hsize : alloc.size = a.alloc.size) (hused : alloc.used.toNat = off + n.size)
    (hle : off + n.size ≤ a.alloc.size.toNat) :
    Placed (d.withArena ⟨alloc, writeBytes a.mem off n.data⟩) (.arena off) n := by
  refine ⟨fun k hk => ?_, _, rfl, Nat.le_of_eq hused.symm⟩
  have hk' := hk
  rw [CString.data_length] at hk'
  simp only [Dictionary.reader, Dictionary.withArena, Option.bind_some, hsize]
  rw [if_pos (by omega), writeBytes_at hk]

/-- Copying a name into the arena: the new block lies behind all that is used. -/
theorem copyName_arena {d : Dictionary} {l : List DictEntry} (h : DictInv d l) {a : NameArena}
    (ha : d.arena = some a) {n : CString} (hfits : n.size + a.alloc.size.toNat < 2 ^ 64)
    (dupOk : Bool) :
    ∃ ok d', copyName n dupOk d = some (ok, d') ∧ NameRegistered d l (some n) dupOk ok d' := by
  have hbytes : (BitVec.ofNat 64 n.size).toNat = n.size := by
    rw [BitVec.toNat_ofNat]
    omega
  have hpos : BitVec.ofNat 64 n.size ≠ 0 := by
    intro h0
    have hz : (BitVec.ofNat 64 n.size).toNat = 0 := congrArg BitVec.toNat h0
    rw [hbytes] at hz
    exact absurd hz (Nat.succ_ne_zero _)
  have hbound := BitVec.le_def.mp (h.arena a ha)
  have hrefused : ∀ alloc, alloc = a.alloc → d.withArena ⟨alloc, a.mem⟩ = d := by
    rintro alloc rfl
    rw [Dictionary.withArena, ← ha]
  unfold copyName
  rw [ha]
  by_cases hbuffer : a.alloc.buffer.isSome
  · obtain ⟨off, used, hoff, hused, halloc⟩ :=
      v4ArenaAlloc_served hbuffer hpos (show (1 : BitVec 64) ≠ 0 by decide) (by decide)
    rw [show (1 : BitVec 64).toNat = 1 from rfl, roundUp_one] at hoff hused
    rw [Nat.mod_eq_of_lt a.alloc.used.isLt] at hoff
    rw [hbytes, Nat.mod_eq_of_lt (by omega)] at hused
    have hroom : d.room = some (a.alloc.size.toNat - a.alloc.used.toNat) := by
      rw [Dictionary.room, ha, Option.map_some, if_pos hbuffer]
    simp only [halloc]
    by_cases hspace : used > a.alloc.size
    · -- the arena is full: the registration is refused
      have hlt := BitVec.lt_def.mp hspace
      rw [if_pos hspace]
      refine ⟨false, d, ?_, h, rfl, rfl, ?_, rfl, fun hok => absurd hok (by decide)⟩
      · simp only [hrefused a.alloc rfl]
      · rw [hroom]
        exact decide_eq_true (by omega)
    · have hle := BitVec.le_def.mp (BitVec.not_lt.mp hspace)
      rw [if_neg hspace]
      simp only
      rw [if_pos (by omega)]
      -- the copy lands above `used`, clear of every name placed before
      have hmono : ∀ p m, Placed d p m →
          Placed (d.withArena ⟨{ a.alloc with used := used },
            writeBytes a.mem off.toNat n.data⟩) p m :=
        fun p m hp => hp.withArena ha rfl (by omega) (by show _ ≤ used.toNat; omega)
      have hinv : DictInv (d.withArena ⟨{ a.alloc with used := used },
          writeBytes a.mem off.toNat n.data⟩) l := by
        refine h.mono rfl rfl hmono fun a' ha' => ?_
        obtain rfl := Option.some.inj ha'
        exact BitVec.le_def.mpr hle
      refine ⟨true, _, rfl, hinv.setName _, rfl, ?_, ?_, ?_, fun _ => ?_⟩
      · simp only [Dictionary.arenaSize, Dictionary.setName, Dictionary.withArena, ha]
      · rw [hroom]
        exact decide_eq_false (by omega)
      · rw [if_pos rfl, hroom]
        show some (if a.alloc.buffer.isSome then a.alloc.size.toNat - used.toNat else 0)
          = some (a.alloc.size.toNat - a.alloc.used.toNat - n.size)
        rw [if_pos hbuffer, hused]
        congr 1
        omega
      · apply hinv.newName
        · exact placed_withArena d a rfl (by show used.toNat = _; omega) (by omega)
        · intro i id _ _ heq
          cases heq
  · have halloc : v4ArenaAlloc (BitVec.ofNat 64 n.size) 1 a.alloc = (none, a.alloc) :=
      v4ArenaAlloc_refused fun hserved => hbuffer hserved.1
    simp only [halloc]
    refine ⟨false, d, ?_, h, rfl, rfl, ?_, rfl, fun hok => absurd hok (by decide)⟩
    · simp only [hrefused a.alloc rfl]
    · have hroom : d.room = some 0 := by
        rw [Dictionary.room, ha, Option.map_some, if_neg hbuffer]
      rw [hroom]
      exact decide_eq_true (show 0 < n.size from Nat.succ_pos _)

/-- **The name of a registration.** -/
theorem registerName_spec {d : Dictionary} {l : List DictEntry} (h : DictInv d l)
    {name : Option CString} (hfits : ∀ n, name = some n → n.size + d.arenaSize < 2 ^ 64)
    (dupOk : Bool) :
    ∃ ok d', registerName name dupOk d = some (ok, d') ∧
      NameRegistered d l name dupOk ok d' := by
  cases name with
  | none =>
      refine ⟨true, d.setName none, rfl, h.setName none, rfl, rfl, rfl, ?_, fun _ => ?_⟩
      · rw [if_pos rfl]
        cases hroom : d.room <;> exact hroom
      refine ⟨fun _ => setName_name d none, fun n hn => (by cases hn), fun i id _ _ heq => ?_⟩
      rw [show ((d.setName none).words (d.setName none).wordCount).name = none from
        setName_name d none] at heq
      cases heq
  | some n =>
      cases ha : d.arena with
      | none => exact copyName_heap h ha n dupOk
      | some a =>
          have hn := hfits n rfl
          rw [Dictionary.arenaSize, ha] at hn
          exact copyName_arena h ha hn dupOk

/-- **A registration** is defined: it leaves the list alone when the list refuses the word,
    and appends an entry otherwise. -/
theorem vmRegisterWord_spec {d : Dictionary} {l : List DictEntry} (h : DictInv d l)
    {name : Option CString} (code : Option CodePtr) (codeLen : Int) (dupOk : Bool)
    (hfits : (DictOp.register name code codeLen dupOk).Fits d.arenaSize) :
    ∃ r d', vmRegisterWord name code codeLen dupOk d = some (r, d') ∧
      d'.arenaSize = d.arenaSize ∧
      ((WordList.refuses ⟨l, d.room⟩ name code codeLen dupOk = false ∧ r = l.length ∧
          DictInv d' (l ++ [⟨name, code⟩]) ∧ d'.room = d.room.map (· - nameSize name)) ∨
        (WordList.refuses ⟨l, d.room⟩ name code codeLen dupOk = true ∧ r < 0 ∧
          DictInv d' l ∧ d'.room = d.room)) := by
  have hcount := h.count
  unfold vmRegisterWord WordList.refuses
  by_cases hcode : code.isNone ∨ codeLen ≤ 0
  · rw [if_pos hcode]
    refine ⟨_, d, rfl, rfl, Or.inr ⟨?_, by decide, h, rfl⟩⟩
    simp only [Bool.or_eq_true, decide_eq_true_eq]
    exact .inl (.inl hcode)
  rw [if_neg hcode]
  by_cases hfull : d.wordCount ≥ 256
  · rw [if_pos hfull]
    refine ⟨_, d, rfl, rfl, Or.inr ⟨?_, by decide, h, rfl⟩⟩
    simp only [Bool.or_eq_true, decide_eq_true_eq]
    exact .inl (.inr (by omega))
  rw [if_neg hfull]
  -- Only the name is left to decide.
  have hrest : (code.isNone || decide (codeLen ≤ 0) || decide (256 ≤ l.length)) = false := by
    simp only [Bool.or_eq_false_iff, decide_eq_false_iff_not]
    exact ⟨⟨Bool.eq_false_iff.mpr fun hnone => hcode (.inl hnone), fun hle => hcode (.inr hle)⟩,
      by omega⟩
  rw [hrest, Bool.false_or]
  have hname : ∀ n, name = some n → n.size + d.arenaSize < 2 ^ 64 := by
    rintro n rfl
    exact hfits
  -- The name is stored before the count moves, so a refused name leaves the list alone.
  obtain ⟨ok, d', heq, hreg⟩ := registerName_spec h hname dupOk
  rw [heq, hreg.refused]
  cases ok with
  | false => exact ⟨_, d', rfl, hreg.size, Or.inr ⟨rfl, by decide, hreg.inv, hreg.room⟩⟩
  | true =>
      have hroom : d'.wordCount < 256 := by
        rw [hreg.count]
        exact Nat.not_le.mp hfull
      refine ⟨_, _, rfl, hreg.size, Or.inl ⟨rfl, ?_, ?_, hreg.room⟩⟩
      · rw [hreg.inv.count]
      · exact hreg.inv.append hroom (hreg.name rfl) code codeLen

/-! ## Resetting keeps the invariant -/

/-- An empty dictionary. -/
theorem DictInv.nil {d : Dictionary} (hcount : d.wordCount = 0)
    (harena : ∀ a, d.arena = some a → a.alloc.used ≤ a.alloc.size) : DictInv d [] where
  count := hcount
  bound := by omega
  entries i hi := absurd hi (Nat.not_lt_zero i)
  distinct i _ _ hi := absurd hi (Nat.not_lt_zero i)
  arena := harena

/-- The names of the words from `i` to `i + k` can be freed: each is anonymous or a live
    block, and no block occurs twice. -/
structure Freeable (d : Dictionary) (i k : Nat) : Prop where
  live : ∀ j, i ≤ j → j < i + k → ∀ p, (d.words j).name = some p →
    ∃ id, p = .heap id ∧ (d.blocks id).isSome
  distinct : ∀ j j' id, i ≤ j → j < i + k → i ≤ j' → j' < i + k →
    (d.words j).name = some (.heap id) → (d.words j').name = some (.heap id) → j = j'

theorem freeName_spec {d : Dictionary} {i k : Nat} (h : Freeable d i (k + 1)) :
    ∃ d', freeName i d = some d' ∧ d'.arena = d.arena ∧ Freeable d' (i + 1) k := by
  have hrest : Freeable d (i + 1) k :=
    ⟨fun j hj hjk => h.live j (by omega) (by omega),
      fun j j' id hj hjk hj' hjk' => h.distinct j j' id (by omega) (by omega) (by omega) (by omega)⟩
  unfold freeName
  cases hname : (d.words i).name with
  | none => exact ⟨d, rfl, rfl, hrest⟩
  | some p =>
      obtain ⟨id, rfl, hlive⟩ := h.live i (Nat.le_refl i) (by omega) p hname
      simp only [if_pos hlive]
      refine ⟨_, rfl, rfl, fun j hj hjk p hp => ?_, fun j j' id' hj hjk hj' hjk' hp hp' => ?_⟩
      · simp only [Function.update_of_ne (show j ≠ i by omega)] at hp
        obtain ⟨id', rfl, hlive'⟩ := h.live j (by omega) (by omega) p hp
        refine ⟨id', rfl, ?_⟩
        -- no later word owns the block freed here
        have hne : id' ≠ id := by
          rintro rfl
          have heq := h.distinct i j id' (Nat.le_refl i) (by omega) (by omega) (by omega) hname hp
          omega
        simp only [Function.update_of_ne hne]
        exact hlive'
      · simp only [Function.update_of_ne (show j ≠ i by omega)] at hp
        simp only [Function.update_of_ne (show j' ≠ i by omega)] at hp'
        exact hrest.distinct j j' id' hj hjk hj' hjk' hp hp'

/-- The loop, by induction on the number of words left. -/
theorem freeNames_spec {d : Dictionary} {i k : Nat} (h : Freeable d i k) :
    ∃ d', freeNames i k d = some d' ∧ d'.arena = d.arena := by
  induction k generalizing i d with
  | zero => exact ⟨d, rfl, rfl⟩
  | succ k ih =>
      obtain ⟨d1, hd1, harena1, hrest⟩ := freeName_spec h
      obtain ⟨d2, hd2, harena2⟩ := ih hrest
      refine ⟨d2, ?_, harena2.trans harena1⟩
      rw [freeNames, hd1, Option.bind_some]
      exact hd2

/-- Without an arena the names of the counted words can be freed. -/
theorem DictInv.freeable {d : Dictionary} {l : List DictEntry} (h : DictInv d l)
    (harena : d.arena = none) : Freeable d 0 d.wordCount := by
  have hcount := h.count
  refine ⟨fun j _ hj p hp => ?_, fun j j' id _ hj _ hj' => ?_⟩
  · have hj : j < l.length := by omega
    cases p with
    | heap id => exact ⟨id, rfl, (h.heap_lt hj hp).2.2⟩
    | arena off =>
        have hentry := h.entries j hj
        cases hname : l[j].name with
        | none =>
            rw [hentry.anonymous hname] at hp
            cases hp
        | some m =>
            obtain ⟨p, hp', -, hplaced⟩ := hentry.named m hname
            rw [hp] at hp'
            obtain rfl := Option.some.inj hp'
            obtain ⟨a, ha, -⟩ := hplaced
            rw [harena] at ha
            cases ha
  · exact h.distinct j j' id (by omega) (by omega)

/-- **A reset** is defined and empties the list. -/
theorem vmResetDictionary_spec {d : Dictionary} {l : List DictEntry} (h : DictInv d l) :
    ∃ d', vmResetDictionary d = some d' ∧ d'.arena = d.arena ∧ DictInv d' [] := by
  unfold vmResetDictionary
  cases ha : d.arena with
  | some a =>
      exact ⟨_, rfl, rfl, DictInv.nil rfl fun a' ha' => h.arena a' (ha.trans ha')⟩
  | none =>
      obtain ⟨d', hd', harena⟩ := freeNames_spec (h.freeable ha)
      rw [ha] at harena
      simp only [hd', Option.map_some]
      refine ⟨_, rfl, harena, DictInv.nil rfl fun a' ha' => ?_⟩
      rw [show d'.arena = some a' from ha'] at harena
      cases harena

/-! ## Runs -/

/-- The dictionary stands for the list, and has as much room for names. -/
structure DictState.Inv (s : DictState) : Prop where
  dict : DictInv s.dict s.list.entries
  room : s.list.room = s.dict.room

/-- The answers after a call are those of the list. -/
theorem dictStep_spec {s : DictState} (h : s.Inv) {o : DictOp} (hfits : o.Fits s.dict.arenaSize) :
    ∃ s', dictStep o s = some s' ∧ s'.Inv ∧ s'.dict.arenaSize = s.dict.arenaSize ∧
      DictLaw s o s' := by
  have hlist : s.list = ⟨s.list.entries, s.dict.room⟩ := by rw [← h.room]
  cases o with
  | register name code codeLen dupOk =>
      obtain ⟨r, d', heq, hsize, hcase⟩ := vmRegisterWord_spec h.dict code codeLen dupOk hfits
      rw [← hlist] at hcase
      have hstep : dictStep (.register name code codeLen dupOk) s
          = some ⟨d', s.list.call (.register name code codeLen dupOk)⟩ := by
        rw [dictStep, dictCall, heq]
        rfl
      refine ⟨_, hstep, ?_⟩
      -- The list appends the word or refuses it, on its own account.
      obtain ⟨hok, hr, hinv, hroom⟩ | ⟨hno, hr, hinv, hroom⟩ := hcase
      · have hcall : s.list.call (.register name code codeLen dupOk)
            = ⟨s.list.entries ++ [⟨name, code⟩], s.list.room.map (· - nameSize name)⟩ := by
          rw [WordList.call, hok]
          rfl
        rw [hcall]
        refine ⟨⟨hinv, ?_⟩, hsize, hinv.represents, r, by rw [heq]; rfl, ?_⟩
        · rw [hroom, h.room]
        · rw [hok]
          exact hr
      · have hcall : s.list.call (.register name code codeLen dupOk) = s.list := by
          rw [WordList.call, hno]
          rfl
        rw [hcall]
        refine ⟨⟨hinv, h.room.trans hroom.symm⟩, hsize, hinv.represents, r, by rw [heq]; rfl, ?_⟩
        rw [if_pos hno]
        exact hr
  | reset =>
      obtain ⟨d', heq, harena, hinv⟩ := vmResetDictionary_spec h.dict
      refine ⟨⟨d', ⟨[], s.list.room⟩⟩, ?_, ⟨hinv, ?_⟩, ?_, hinv.represents, trivial⟩
      · rw [dictStep, dictCall, heq]
        rfl
      · rw [h.room, Dictionary.room, Dictionary.room, harena]
      · exact Dictionary.arenaSize_congr harena

/-- **The dictionary is an append-only list with shadowing.**  From an empty
    dictionary every sequence of registrations and resets is defined, and after each
    call of it the answers are those of the list. -/
theorem dictionary_refines_list (d : Dictionary) (hcount : d.wordCount = 0)
    (harena : ∀ a, d.arena = some a → a.alloc.used ≤ a.alloc.size) (ops : List DictOp)
    (hfits : ∀ o ∈ ops, o.Fits d.arenaSize) :
    (exec dictStep ops ⟨d, [], d.room⟩).isSome ∧ EachStep dictStep DictLaw ops ⟨d, [], d.room⟩ := by
  -- the size of the name arena never changes, so a request that fits now fits later
  have hinit : DictState.Inv ⟨d, [], d.room⟩ ∧ d.arenaSize = d.arenaSize :=
    ⟨⟨DictInv.nil hcount harena, rfl⟩, rfl⟩
  refine exec_eachStep (I := fun s => s.Inv ∧ s.dict.arenaSize = d.arenaSize) ?_ hinit hfits
  rintro o s ⟨h, hsize⟩ hfits
  rw [← hsize] at hfits
  obtain ⟨s', hs', hinv, hsize', hlaw⟩ := dictStep_spec h hfits
  exact ⟨s', hs', ⟨hinv, hsize'.trans hsize⟩, hlaw⟩

/-- An empty dictionary with an arena of eight bytes. -/
def smallDictionary : Dictionary :=
  { words := fun _ => ⟨none, none, 0⟩, wordCount := 0,
    arena := some ⟨v4ArenaInit (some 0) 8, fun _ => 0⟩, next := 0, blocks := fun _ => none }

/-- `FOO`. -/
def nameFoo : CString := ⟨[70, 79, 79], by decide⟩

/-- Two words of one name fill the arena, and a third is refused. -/
def threeFoos : List DictOp :=
  [.register (some nameFoo) (some 1) 6 true, .register (some nameFoo) (some 2) 6 true,
    .register (some nameFoo) (some 3) 6 true, .register none (some 4) 6 true]

/-- The refused word leaves no entry, the anonymous one is never found, and the newest `FOO`
    is found in front of the older one. -/
theorem dictionary_refines_list_foos : ∃ s,
    exec dictStep threeFoos ⟨smallDictionary, [], some 8⟩ = some s ∧
      s.list = ⟨[⟨some nameFoo, some 1⟩, ⟨some nameFoo, some 2⟩, ⟨none, some 4⟩], some 0⟩ ∧
      vmFindWord (some nameFoo) s.dict = some 1 ∧
      (vmGetWord 0 s.dict).map NamedWord.code = some (some 1) ∧
      EachStep dictStep DictLaw threeFoos ⟨smallDictionary, [], some 8⟩ := by
  have hrun := dictionary_refines_list smallDictionary rfl
    (fun a ha => by obtain rfl := Option.some.inj ha; decide) threeFoos (by decide)
  exact ⟨_, rfl, by decide, by decide, by decide, hrun.2⟩

end V4Engine
