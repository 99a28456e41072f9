/-
  V4Engine.Lib.CString

  NUL-terminated strings in memory.

  Memory is read through a partial function: `none` is a byte that may not be
  read.  `ReadsAs s n` says that the bytes from the start of `s` are those of the
  string `n` and a NUL; `strEq` is the comparison a `strcmp(..) == 0` makes, which
  stops at the first difference.
-/
import Mathlib.Data.List.Basic

namespace V4Engine.Lib

/-- The bytes of a C string before its NUL. -/
structure CString where
  bytes : List (BitVec 8)
  noNul : 0 ∉ bytes
  deriving DecidableEq

namespace CString

/-- `strlen(s) + 1`. -/
def size (n : CString) : Nat := n.bytes.length + 1

/-- The bytes with their NUL. -/
def data (n : CString) : List (BitVec 8) := n.bytes ++ [0]

@[simp] theorem data_length (n : CString) : n.data.length = n.size := by simp [data, size]

end CString

/-- Bytes readable from a pointer on. -/
abbrev Reader := Nat → Option (BitVec 8)

/-- The readable bytes start with `l`. -/
def StartsWith (s : Reader) (l : List (BitVec 8)) : Prop :=
  ∀ k (h : k < l.length), s k = some l[k]

/-- The string at the pointer is `n`. -/
def ReadsAs (s : Reader) (n : CString) : Prop := StartsWith s n.data

/-- Whether the string at the pointer is `l` followed by a NUL; `none` when a byte
    that is compared may not be read. -/
def strEq (s : Reader) : List (BitVec 8) → Option Bool
  | [] => (s 0).map (· == 0)
  | b :: bs => (s 0).bind fun c => if c = b then strEq (fun k => s (k + 1)) bs else some false

theorem startsWith_cons {s : Reader} {b : BitVec 8} {l : List (BitVec 8)} :
    StartsWith s (b :: l) ↔ s 0 = some b ∧ StartsWith (fun k => s (k + 1)) l := by
  constructor
  · intro h
    refine ⟨h 0 (Nat.zero_lt_succ _), fun k hk => ?_⟩
    exact h (k + 1) (Nat.succ_lt_succ hk)
  · rintro ⟨h0, h⟩ k hk
    cases k with
    | zero => exact h0
    | succ k => exact h k (Nat.lt_of_succ_lt_succ hk)

theorem StartsWith.congr {s s' : Reader} {l : List (BitVec 8)} (h : StartsWith s l)
    (hs : ∀ k, k < l.length → s' k = s k) : StartsWith s' l := by
  intro k hk
  rw [hs k hk]
  exact h k hk

/-- The comparison of a string in memory with another one, by induction on the
    latter: equal exactly when both end at the same place. -/
theorem strEq_of_startsWith {s : Reader} {l m : List (BitVec 8)} (hl : 0 ∉ l) (hm : 0 ∉ m)
    (h : StartsWith s (l ++ [0])) : strEq s m = some (decide (l = m)) := by
  induction m generalizing s l with
  | nil =>
      cases l with
      | nil =>
          obtain ⟨h0, -⟩ := startsWith_cons.mp h
          simp [strEq, h0]
      | cons b l =>
          obtain ⟨h0, -⟩ := startsWith_cons.mp h
          have hb : b ≠ 0#8 := fun hb => hl (hb ▸ List.mem_cons_self)
          simp [strEq, h0, hb]
  | cons c m ih =>
      have hc : 0#8 ≠ c := fun hc => hm (hc ▸ List.mem_cons_self)
      have hm' : 0 ∉ m := fun hmem => hm (List.mem_cons_of_mem c hmem)
      cases l with
      | nil =>
          obtain ⟨h0, -⟩ := startsWith_cons.mp h
          simp [strEq, h0, hc]
      | cons b l =>
          obtain ⟨h0, hrest⟩ := startsWith_cons.mp h
          have hl' : 0 ∉ l := fun hmem => hl (List.mem_cons_of_mem b hmem)
          rw [strEq, h0, Option.bind_some]
          by_cases hbc : b = c
          · rw [if_pos hbc, ih hl' hm' hrest]
            simp [hbc]
          · rw [if_neg hbc]
            simp [hbc]

/-- **Comparison.**  It is the equality of strings. -/
theorem ReadsAs.strEq {s : Reader} {n : CString} (h : ReadsAs s n) (m : CString) :
    strEq s m.bytes = some (decide (n = m)) := by
  rw [strEq_of_startsWith n.noNul m.noNul h]
  congr 2
  rw [CString.mk.injEq]

/-- Memory after `memcpy(mem + off, l, length of l)`. -/
def writeBytes (mem : Nat → BitVec 8) (off : Nat) (l : List (BitVec 8)) : Nat → BitVec 8 :=
  fun k => if off ≤ k then l.getD (k - off) (mem k) else mem k

theorem writeBytes_of_lt {mem : Nat → BitVec 8} {off k : Nat} {l : List (BitVec 8)}
    (h : k < off) : writeBytes mem off l k = mem k := if_neg (Nat.not_le.mpr h)

theorem writeBytes_at {mem : Nat → BitVec 8} {off k : Nat} {l : List (BitVec 8)}
    (h : k < l.length) : writeBytes mem off l (off + k) = l[k] := by
  rw [writeBytes, if_pos (Nat.le_add_right off k), Nat.add_sub_cancel_left]
  rw [List.getD_eq_getElem?_getD, List.getElem?_eq_getElem h, Option.getD_some]

end V4Engine.Lib
