/-
  V4Engine.Vm.Arena

  `arena.cpp`: the linear allocator behind word names.

  Sizes and offsets are 64-bit words and wrap as `size_t` does.  A block is the
  offset and the length of what one call handed out; the list of blocks exists
  only for stating properties.  `AllocFits` is the exact condition on a request
  under which the allocator does what it promises: the end of the block, computed
  without wrapping, either fits 64 bits or wraps to a value above the limit.

  Offsets are rounded up, addresses are not: a block is aligned exactly when the
  buffer itself is (`arena_aligned_iff`).
-/
import V4Engine.Vm.Types
import V4Engine.Lib.Align
import V4Engine.Lib.Runs

namespace V4Engine

open Lib

/-- `V4Arena`; `buffer` is `none` for a null pointer. -/
structure V4Arena where
  buffer : Option HostPtr
  size : BitVec 64
  used : BitVec 64
  deriving DecidableEq, Repr

def v4ArenaInit (buffer : Option HostPtr) (size : BitVec 64) : V4Arena :=
  { buffer := buffer, size := size, used := 0 }

/-- Returns the offset of the new block, `none` for a null pointer. -/
def v4ArenaAlloc (bytes align : BitVec 64) (arena : V4Arena) : Option (BitVec 64) × V4Arena :=
  if arena.buffer.isNone ∨ bytes = 0 then (none, arena)
  else if align = 0 ∨ align &&& (align - 1) ≠ 0 then (none, arena)
  else
    let current := arena.used
    let aligned := (current + align - 1) &&& ~~~(align - 1)
    if aligned + bytes > arena.size then (none, arena)
    else (some aligned, { arena with used := aligned + bytes })

def v4ArenaReset (arena : V4Arena) : V4Arena := { arena with used := 0 }

def v4ArenaAvailable (arena : V4Arena) : BitVec 64 := arena.size - arena.used

/-! ## Runs -/

/-- A block that was handed out. -/
structure ArenaBlock where
  off : BitVec 64
  bytes : BitVec 64
  deriving DecidableEq, Repr

/-- Offset of the first byte past the block, as an integer. -/
def ArenaBlock.stop (b : ArenaBlock) : Nat := b.off.toNat + b.bytes.toNat

/-- No byte belongs to both. -/
def ArenaBlock.Apart (b c : ArenaBlock) : Prop := b.stop ≤ c.off.toNat ∨ c.stop ≤ b.off.toNat

instance (b c : ArenaBlock) : Decidable (b.Apart c) := inferInstanceAs (Decidable (_ ∨ _))

/-- An arena and the blocks handed out since its last initialisation or reset. -/
structure ArenaState where
  arena : V4Arena
  blocks : List ArenaBlock

inductive ArenaOp where
  | alloc (bytes align : BitVec 64)
  | reset

def arenaStep : ArenaOp → ArenaState → Option ArenaState
  | .alloc bytes align, s =>
      match v4ArenaAlloc bytes align s.arena with
      | (some off, arena) => some ⟨arena, ⟨off, bytes⟩ :: s.blocks⟩
      | (none, arena) => some ⟨arena, s.blocks⟩
  | .reset, s => some ⟨v4ArenaReset s.arena, []⟩

/-- The arena after `v4_arena_init`. -/
def ArenaState.init (buffer : Option HostPtr) (size : BitVec 64) : ArenaState :=
  ⟨v4ArenaInit buffer size, []⟩

/-- Every block lies within the buffer and no two overlap; no more is used than
    there is, so that the available bytes are the rest. -/
structure ArenaState.Safe (s : ArenaState) : Prop where
  within : ∀ b ∈ s.blocks, b.stop ≤ s.arena.size.toNat
  apart : s.blocks.Pairwise ArenaBlock.Apart
  used : s.arena.used ≤ s.arena.size
  available : (v4ArenaAvailable s.arena).toNat + s.arena.used.toNat = s.arena.size.toNat

/-- What is expected of one call: it ends in a safe state; an allocation takes
    nothing back, and one that fails changes nothing. -/
def ArenaLaw (s : ArenaState) (o : ArenaOp) (s' : ArenaState) : Prop :=
  s'.Safe ∧
    match o with
    | .alloc bytes align =>
        s.arena.used ≤ s'.arena.used ∧ s'.arena.size = s.arena.size ∧
          ((v4ArenaAlloc bytes align s.arena).1 = none → s' = s)
    | .reset => True

/-- The condition on a call.  A request that is not refused for its arguments must
    not end past `2^64`, unless the wrapped end is still above the limit. -/
def AllocFits (arena : V4Arena) (bytes align : BitVec 64) : Prop :=
  arena.buffer.isSome → bytes ≠ 0 → align ≠ 0 → align &&& (align - 1) = 0 →
    roundUp arena.used.toNat align.toNat + bytes.toNat < 2 ^ 64 ∨
      arena.size.toNat < (roundUp arena.used.toNat align.toNat + bytes.toNat) % 2 ^ 64

/-- `AllocFits` for the calls of a run. -/
def ArenaOk (s : ArenaState) : ArenaOp → Prop
  | .alloc bytes align => AllocFits s.arena bytes align
  | .reset => True

/-! ## One call -/

/-- A request with a null buffer, no bytes or an alignment that is not a power of
    two is refused. -/
theorem v4ArenaAlloc_refused {bytes align : BitVec 64} {arena : V4Arena}
    (h : ¬(arena.buffer.isSome ∧ bytes ≠ 0 ∧ align ≠ 0 ∧ align &&& (align - 1) = 0)) :
    v4ArenaAlloc bytes align arena = (none, arena) := by
  unfold v4ArenaAlloc
  split
  case isTrue => rfl
  case isFalse hfirst =>
    rw [if_pos]
    by_contra hsecond
    apply h
    simp only [not_or, Option.isNone_iff_eq_none, ← ne_eq] at hfirst hsecond
    exact ⟨Option.isSome_iff_ne_none.mpr hfirst.1, hfirst.2, hsecond.1, not_not.mp hsecond.2⟩

/-- Any other request is decided by its rounded-up offset and its end, both taken
    modulo `2^64`. -/
theorem v4ArenaAlloc_served {bytes align : BitVec 64} {arena : V4Arena}
    (hbuffer : arena.buffer.isSome) (hbytes : bytes ≠ 0) (halign : align ≠ 0)
    (hpow : align &&& (align - 1) = 0) :
    ∃ off used : BitVec 64,
      off.toNat = roundUp arena.used.toNat align.toNat % 2 ^ 64 ∧
      used.toNat = (roundUp arena.used.toNat align.toNat + bytes.toNat) % 2 ^ 64 ∧
      v4ArenaAlloc bytes align arena =
        if used > arena.size then (none, arena) else (some off, { arena with used := used }) := by
  have hoff := toNat_alignUp halign hpow arena.used
  refine ⟨_, ((arena.used + align - 1) &&& ~~~(align - 1)) + bytes, hoff, ?_, ?_⟩
  · rw [BitVec.toNat_add, hoff, Nat.mod_add_mod]
  · have hfirst : ¬(arena.buffer.isNone ∨ bytes = 0) := by
      rintro (h | h)
      · rw [Option.isNone_iff_eq_none.mp h] at hbuffer
        contradiction
      · exact hbytes h
    have hsecond : ¬(align = 0 ∨ align &&& (align - 1) ≠ 0) := by
      rintro (h | h)
      · exact halign h
      · exact h hpow
    unfold v4ArenaAlloc
    rw [if_neg hfirst, if_neg hsecond]

/-- The rounded-up offset does not pass `2^64`. -/
theorem roundUp_le_two_pow {align : BitVec 64} (halign : align ≠ 0)
    (hpow : align &&& (align - 1) = 0) (used : BitVec 64) :
    roundUp used.toNat align.toNat ≤ 2 ^ 64 := by
  apply roundUp_le
  · exact Nat.pos_of_ne_zero fun h => halign (BitVec.eq_of_toNat_eq h)
  · exact dvd_two_pow_of_and_sub_one halign hpow
  · exact Nat.le_of_lt used.isLt

theorem v4ArenaAvailable_toNat {arena : V4Arena} (h : arena.used ≤ arena.size) :
    (v4ArenaAvailable arena).toNat + arena.used.toNat = arena.size.toNat := by
  have hle : arena.used.toNat ≤ arena.size.toNat := BitVec.le_def.mp h
  unfold v4ArenaAvailable
  rw [BitVec.toNat_sub_of_le h]
  omega

/-! ## The invariant -/

/-- Blocks are nonempty, pairwise disjoint and below `used`, which is within the
    buffer; while nothing has been handed out nothing is used. -/
structure ArenaState.Inv (s : ArenaState) : Prop where
  bound : s.arena.used ≤ s.arena.size
  nonempty : ∀ b ∈ s.blocks, b.bytes ≠ 0
  below : ∀ b ∈ s.blocks, b.stop ≤ s.arena.used.toNat
  apart : s.blocks.Pairwise ArenaBlock.Apart
  empty : s.blocks = [] → s.arena.used = 0

theorem ArenaState.inv_init (buffer : Option HostPtr) (size : BitVec 64) :
    (ArenaState.init buffer size).Inv where
  bound := BitVec.le_def.mpr (Nat.zero_le _)
  nonempty := by simp [ArenaState.init]
  below := by simp [ArenaState.init]
  apart := List.Pairwise.nil
  empty := fun _ => rfl

theorem ArenaState.inv_reset (s : ArenaState) : ArenaState.Inv ⟨v4ArenaReset s.arena, []⟩ :=
  ArenaState.inv_init s.arena.buffer s.arena.size

theorem ArenaState.Inv.safe {s : ArenaState} (h : s.Inv) : s.Safe where
  within := fun b hb => Nat.le_trans (h.below b hb) (BitVec.le_def.mp h.bound)
  apart := h.apart
  used := h.bound
  available := v4ArenaAvailable_toNat h.bound

/-- A block past everything used keeps the invariant. -/
theorem ArenaState.Inv.push {s : ArenaState} (h : s.Inv) {off bytes used : BitVec 64}
    (hbytes : bytes ≠ 0) (hoff : s.arena.used.toNat ≤ off.toNat)
    (hused : used.toNat = off.toNat + bytes.toNat) (hsize : used ≤ s.arena.size) :
    ArenaState.Inv ⟨{ s.arena with used := used }, ⟨off, bytes⟩ :: s.blocks⟩ where
  bound := hsize
  nonempty := List.forall_mem_cons.mpr ⟨hbytes, h.nonempty⟩
  below := by
    intro b hb
    rcases List.mem_cons.mp hb with rfl | hb
    · exact Nat.le_of_eq hused.symm
    · have hstop := h.below b hb
      show b.stop ≤ used.toNat
      omega
  apart := by
    apply List.Pairwise.cons _ h.apart
    intro b hb
    have hstop := h.below b hb
    exact Or.inr (Nat.le_trans hstop hoff)
  empty := fun hnil => absurd hnil (List.cons_ne_nil _ _)

theorem arenaStep_alloc_none {bytes align : BitVec 64} {s : ArenaState}
    (h : v4ArenaAlloc bytes align s.arena = (none, s.arena)) :
    arenaStep (.alloc bytes align) s = some s := by
  simp only [arenaStep, h]

theorem arenaStep_alloc_some {bytes align off : BitVec 64} {arena : V4Arena} {s : ArenaState}
    (h : v4ArenaAlloc bytes align s.arena = (some off, arena)) :
    arenaStep (.alloc bytes align) s = some ⟨arena, ⟨off, bytes⟩ :: s.blocks⟩ := by
  simp only [arenaStep, h]

/-- A call that returns null obeys the law. -/
theorem ArenaLaw.refused {bytes align : BitVec 64} {s : ArenaState} (h : s.Inv) :
    ArenaLaw s (.alloc bytes align) s :=
  ⟨h.safe, BitVec.le_def.mpr (Nat.le_refl _), rfl, fun _ => rfl⟩

/-- A block that ends past `2^64` is not what was asked for: the block itself, or
    one handed out before, shows it. -/
theorem not_arenaLaw_of_wrap {bytes align off used : BitVec 64} {s : ArenaState} (h : s.Inv)
    (hle : roundUp s.arena.used.toNat align.toNat ≤ 2 ^ 64)
    (hoff : off.toNat = roundUp s.arena.used.toNat align.toNat % 2 ^ 64)
    (hused : used.toNat = (roundUp s.arena.used.toNat align.toNat + bytes.toNat) % 2 ^ 64)
    (hwrap : 2 ^ 64 ≤ roundUp s.arena.used.toNat align.toNat + bytes.toNat) :
    ¬ArenaLaw s (.alloc bytes align)
      ⟨{ s.arena with used := used }, ⟨off, bytes⟩ :: s.blocks⟩ := by
  rintro ⟨hsafe, hmono, -, -⟩
  have hsize := s.arena.size.isLt
  have hlt := bytes.isLt
  have hmono : s.arena.used.toNat ≤ used.toNat := BitVec.le_def.mp hmono
  rcases Nat.lt_or_eq_of_le hle with hround | hround
  · -- the offset is right and the block runs past every buffer
    have hwithin := hsafe.within ⟨off, bytes⟩ (List.mem_cons_self ..)
    have hstop : off.toNat + bytes.toNat ≤ s.arena.size.toNat := hwithin
    rw [hoff, Nat.mod_eq_of_lt hround] at hstop
    omega
  · -- the offset wraps to 0 and the block covers the first one
    rw [hround, Nat.mod_self] at hoff
    rw [hround, Nat.add_mod_left, Nat.mod_eq_of_lt hlt] at hused
    have hpos : s.arena.used.toNat ≠ 0 := by
      intro h0
      rw [h0, roundUp_zero] at hround
      exact absurd hround (by decide)
    have hne : s.blocks ≠ [] := fun hnil => hpos (by rw [h.empty hnil]; rfl)
    obtain ⟨b, hb⟩ := List.exists_mem_of_ne_nil s.blocks hne
    have hbelow : b.off.toNat + b.bytes.toNat ≤ s.arena.used.toNat := h.below b hb
    have hbytes : b.bytes.toNat ≠ 0 := fun h0 => h.nonempty b hb (BitVec.eq_of_toNat_eq h0)
    rcases (List.pairwise_cons.mp hsafe.apart).1 b hb with hapart | hapart
    · have hapart : off.toNat + bytes.toNat ≤ b.off.toNat := hapart
      omega
    · have hapart : b.off.toNat + b.bytes.toNat ≤ off.toNat := hapart
      omega

/-- **One allocation.**  It meets the condition and obeys the law, keeping the
    invariant, or it does neither. -/
theorem arenaStep_alloc_law {bytes align : BitVec 64} {s s' : ArenaState} (h : s.Inv)
    (hs : arenaStep (.alloc bytes align) s = some s') :
    (AllocFits s.arena bytes align ∧ s'.Inv ∧ ArenaLaw s (.alloc bytes align) s') ∨
      (¬AllocFits s.arena bytes align ∧ ¬ArenaLaw s (.alloc bytes align) s') := by
  by_cases hvalid : s.arena.buffer.isSome ∧ bytes ≠ 0 ∧ align ≠ 0 ∧ align &&& (align - 1) = 0
  case neg =>
    -- a malformed request changes nothing
    obtain rfl : s = s' := by
      rw [arenaStep_alloc_none (v4ArenaAlloc_refused hvalid)] at hs
      exact Option.some.inj hs
    have hfits : AllocFits s.arena bytes align := fun h1 h2 h3 h4 => absurd ⟨h1, h2, h3, h4⟩ hvalid
    exact Or.inl ⟨hfits, h, ArenaLaw.refused h⟩
  case pos =>
    obtain ⟨hbuffer, hbytes, halign, hpow⟩ := hvalid
    obtain ⟨off, used, hoff, hused, halloc⟩ := v4ArenaAlloc_served hbuffer hbytes halign hpow
    have hround := roundUp_le_two_pow halign hpow s.arena.used
    have hfits : AllocFits s.arena bytes align ↔
        roundUp s.arena.used.toNat align.toNat + bytes.toNat < 2 ^ 64 ∨
          s.arena.size.toNat < used.toNat := by
      rw [hused]
      exact ⟨fun hf => hf hbuffer hbytes halign hpow, fun hf _ _ _ _ => hf⟩
    by_cases hsize : used > s.arena.size
    · -- refused for lack of space
      rw [if_pos hsize] at halloc
      obtain rfl : s = s' := by
        rw [arenaStep_alloc_none halloc] at hs
        exact Option.some.inj hs
      exact Or.inl ⟨hfits.mpr (Or.inr (BitVec.lt_def.mp hsize)), h, ArenaLaw.refused h⟩
    · rw [if_neg hsize] at halloc
      rw [arenaStep_alloc_some halloc] at hs
      obtain rfl := Option.some.inj hs
      have hle : used ≤ s.arena.size := BitVec.not_lt.mp hsize
      by_cases hwrap : roundUp s.arena.used.toNat align.toNat + bytes.toNat < 2 ^ 64
      · -- nothing wraps: the block starts at or after `used` and ends at the new `used`
        rw [Nat.mod_eq_of_lt hwrap] at hused
        rw [Nat.mod_eq_of_lt (by omega)] at hoff
        have hge : s.arena.used.toNat ≤ off.toNat := by
          rw [hoff]
          apply le_roundUp
          exact Nat.pos_of_ne_zero fun h0 => halign (BitVec.eq_of_toNat_eq h0)
        have hinv : ArenaState.Inv ⟨{ s.arena with used := used }, ⟨off, bytes⟩ :: s.blocks⟩ :=
          h.push hbytes hge (by omega) hle
        refine Or.inl ⟨hfits.mpr (Or.inl hwrap), hinv, hinv.safe, ?_, rfl, ?_⟩
        · exact BitVec.le_def.mpr (show s.arena.used.toNat ≤ used.toNat by omega)
        · rw [halloc]
          exact fun hnone => absurd hnone (Option.some_ne_none off)
      · right
        constructor
        · rw [hfits, not_or]
          exact ⟨hwrap, Nat.not_lt.mpr (BitVec.le_def.mp hle)⟩
        · exact not_arenaLaw_of_wrap h hround hoff hused (Nat.not_lt.mp hwrap)

/-- A step that meets the condition keeps the invariant. -/
theorem ArenaState.Inv.step {o : ArenaOp} {s s' : ArenaState} (h : s.Inv) (hok : ArenaOk s o)
    (hs : arenaStep o s = some s') : s'.Inv := by
  cases o with
  | alloc bytes align =>
      rcases arenaStep_alloc_law h hs with ⟨-, hinv, -⟩ | ⟨hfits, -⟩
      · exact hinv
      · exact absurd hok hfits
  | reset =>
      obtain rfl := Option.some.inj hs
      exact ArenaState.inv_reset s

theorem arenaStep_isSome (o : ArenaOp) (s : ArenaState) : (arenaStep o s).isSome := by
  cases o with
  | alloc bytes align =>
      simp only [arenaStep]
      split <;> rfl
  | reset => rfl

theorem arenaLaw_iff {o : ArenaOp} {s s' : ArenaState} (h : s.Inv)
    (hs : arenaStep o s = some s') : ArenaLaw s o s' ↔ ArenaOk s o := by
  cases o with
  | alloc bytes align =>
      rcases arenaStep_alloc_law h hs with ⟨hfits, -, hlaw⟩ | ⟨hfits, hlaw⟩
      · exact iff_of_true hlaw hfits
      · exact iff_of_false hlaw hfits
  | reset =>
      obtain rfl := Option.some.inj hs
      exact iff_of_true ⟨(ArenaState.inv_reset s).safe, trivial⟩ trivial

/-- **Arena safety.**  From a fresh arena, all calls of a sequence do what is
    expected of them if and only if each of them meets the condition. -/
theorem arena_safe_iff (buffer : Option HostPtr) (size : BitVec 64) (ops : List ArenaOp) :
    EachStep arenaStep ArenaLaw ops (ArenaState.init buffer size) ↔
      Along arenaStep ArenaOk ops (ArenaState.init buffer size) := by
  apply eachStep_iff_along_of (I := ArenaState.Inv)
  · intro o s s' h hok hs
    exact h.step hok hs
  · intro o s _
    exact arenaStep_isSome o s
  · intro o s s' h hs
    exact arenaLaw_iff h hs
  · exact ArenaState.inv_init buffer size

/-- In a buffer of 16 bytes with 8 in use, a request for `2^64 - 4` bytes is
    served and leaves 4 in use. -/
theorem arena_wrapped_alloc :
    ¬EachStep arenaStep ArenaLaw [.alloc 8 1, .alloc (BitVec.ofNat 64 (2 ^ 64 - 4)) 4]
      (ArenaState.init (some 0) 16) := by
  intro h
  obtain ⟨-, hmono, -⟩ := (h.2 _ rfl).1 _ rfl
  exact absurd hmono (by decide)

/-! ## Alignment -/

/-- The pointer `arena->buffer + off`. -/
def blockAddress (buffer : HostPtr) (off : BitVec 64) : BitVec 64 := BitVec.ofNat 64 buffer + off

/-- A request that is not refused: its arguments are accepted and its end, computed as
    the source does, is within the limit. -/
def Accepted (arena : V4Arena) (bytes align : BitVec 64) : Prop :=
  bytes ≠ 0 ∧ align ≠ 0 ∧ align &&& (align - 1) = 0 ∧
    (roundUp arena.used.toNat align.toNat + bytes.toNat) % 2 ^ 64 ≤ arena.size.toNat

theorem v4ArenaAlloc_buffer (bytes align : BitVec 64) (arena : V4Arena) :
    (v4ArenaAlloc bytes align arena).2.buffer = arena.buffer := by
  unfold v4ArenaAlloc
  split
  · rfl
  · split
    · rfl
    · simp only
      split <;> rfl

theorem arenaStep_buffer {o : ArenaOp} {s s' : ArenaState} (h : arenaStep o s = some s') :
    s'.arena.buffer = s.arena.buffer := by
  cases o with
  | alloc bytes align =>
      have hkeep := v4ArenaAlloc_buffer bytes align s.arena
      rcases halloc : v4ArenaAlloc bytes align s.arena with ⟨_ | off, arena⟩
      all_goals
        simp only [arenaStep, halloc] at h hkeep
        cases h
        exact hkeep
  | reset =>
      cases h
      rfl

/-- A request is served exactly when it is accepted, and then with a multiple of its
    alignment as offset. -/
theorem v4ArenaAlloc_accepted {bytes align : BitVec 64} {arena : V4Arena}
    (hbuffer : arena.buffer.isSome) :
    (Accepted arena bytes align ∧
      ∃ off arena', v4ArenaAlloc bytes align arena = (some off, arena') ∧
        align.toNat ∣ off.toNat) ∨
      (¬Accepted arena bytes align ∧ v4ArenaAlloc bytes align arena = (none, arena)) := by
  by_cases hvalid : bytes ≠ 0 ∧ align ≠ 0 ∧ align &&& (align - 1) = 0
  · obtain ⟨hbytes, halign, hpow⟩ := hvalid
    obtain ⟨off, used, hoff, hused, halloc⟩ := v4ArenaAlloc_served hbuffer hbytes halign hpow
    -- the limit is compared with the wrapped end
    by_cases hsize : used > arena.size
    · right
      rw [if_pos hsize] at halloc
      refine ⟨?_, halloc⟩
      rintro ⟨-, -, -, hle⟩
      rw [← hused] at hle
      exact Nat.not_lt.mpr hle (BitVec.lt_def.mp hsize)
    · left
      rw [if_neg hsize] at halloc
      refine ⟨⟨hbytes, halign, hpow, ?_⟩, off, _, halloc, ?_⟩
      · rw [← hused]
        exact BitVec.le_def.mp (BitVec.not_lt.mp hsize)
      · rw [hoff, Nat.dvd_mod_iff (dvd_two_pow_of_and_sub_one halign hpow)]
        exact dvd_roundUp _ _
  · right
    refine ⟨fun h => hvalid ⟨h.1, h.2.1, h.2.2.1⟩, v4ArenaAlloc_refused fun h => hvalid h.2⟩

/-- An aligned offset leads to an aligned address exactly in an aligned buffer. -/
theorem dvd_blockAddress {align off : BitVec 64} (halign : align ≠ 0)
    (hpow : align &&& (align - 1) = 0) (hoff : align.toNat ∣ off.toNat) (buffer : HostPtr) :
    align.toNat ∣ (blockAddress buffer off).toNat ↔ align.toNat ∣ buffer := by
  have hword := dvd_two_pow_of_and_sub_one halign hpow
  rw [blockAddress, BitVec.toNat_add, Nat.dvd_mod_iff hword, Nat.dvd_add_left hoff,
    BitVec.toNat_ofNat, Nat.dvd_mod_iff hword]

/-- **Alignment.**  In every reachable arena a request is answered by null or an aligned
    pointer if and only if it is refused or the buffer itself has the alignment. -/
theorem arena_aligned_iff (buffer : HostPtr) (size : BitVec 64) {before : List ArenaOp}
    {s : ArenaState} (hs : exec arenaStep before (ArenaState.init (some buffer) size) = some s)
    (bytes align : BitVec 64) :
    (∀ off arena, v4ArenaAlloc bytes align s.arena = (some off, arena) →
        align.toNat ∣ (blockAddress buffer off).toNat) ↔
      (Accepted s.arena bytes align → align.toNat ∣ buffer) := by
  have hbuffer : s.arena.buffer = some buffer :=
    exec_invariant (I := fun s => s.arena.buffer = some buffer)
      (fun o s s' h hstep => (arenaStep_buffer hstep).trans h) rfl hs
  rcases v4ArenaAlloc_accepted (Option.isSome_iff_exists.mpr ⟨buffer, hbuffer⟩) with
    ⟨hacc, off, arena, halloc, hoff⟩ | ⟨hrefused, halloc⟩
  · have haddress := dvd_blockAddress hacc.2.1 hacc.2.2.1 hoff buffer
    constructor
    · intro h _
      exact haddress.mp (h off arena halloc)
    · intro h off' arena' halloc'
      rw [halloc] at halloc'
      cases halloc'
      exact haddress.mpr (h hacc)
  · -- nothing is returned
    constructor
    · exact fun _ hacc => absurd hacc hrefused
    · intro _ off arena h
      rw [halloc] at h
      cases h

/-- After five bytes of a buffer at address 16, four bytes aligned to 4 are at 24. -/
theorem arena_aligned_second_block :
    (v4ArenaAlloc 4 4 (v4ArenaAlloc 5 1 (v4ArenaInit (some 16) 64)).2).1 = some 8 ∧
      (4 : BitVec 64).toNat ∣ (blockAddress 16 8).toNat := by
  have hs : exec arenaStep [.alloc 5 1] (ArenaState.init (some 16) 64)
      = some ⟨(v4ArenaAlloc 5 1 (v4ArenaInit (some 16) 64)).2, [⟨0, 5⟩]⟩ := rfl
  have haligned := (arena_aligned_iff 16 64 hs 4 4).mpr fun _ => by decide
  exact ⟨by decide, haligned 8 _ rfl⟩

/-- In a buffer at address 1, the first four bytes aligned to 4 are at address 1. -/
theorem arena_misaligned :
    (v4ArenaAlloc 4 4 (v4ArenaInit (some 1) 16)).1 = some 0 ∧
      ¬(4 : BitVec 64).toNat ∣ (blockAddress 1 0).toNat := by
  decide

end V4Engine
