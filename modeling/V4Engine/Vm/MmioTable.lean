/-
  V4Engine.Vm.MmioTable

  Registering MMIO windows.

  `vm_register_mmio` tests the capacity of the table inside the loop that appends
  to it.  `appendLoop_run` is what the loop does to any table: it appends as much
  of the list as there is room for.  A list that fits is appended whole and a full
  table refuses any list, but a list of which only a part fits leaves that part
  behind with an error (`registration_all_or_nothing_iff`).
-/
import V4Engine.Vm.HelperRules

namespace V4Engine

open Lib

/-! ## The function -/

/-- `vm->mmio[vm->mmio_count++] = w`. -/
def Vm.pushMmio (vm : Vm) (w : V4Mmio) : Vm :=
  { vm with mmio := Function.update vm.mmio vm.mmioCount w, mmioCount := vm.mmioCount + 1 }

/-- The appending loop from `list[i]` on, with `k` turns left; `none` is a read past
    the end of the list.  Returns `appended`. -/
def appendLoop (list : List V4Mmio) (i : Nat) : Nat → Nat → Vm → Option (Nat × Vm)
  | 0, appended, vm => some (appended, vm)
  | k + 1, appended, vm =>
      if vm.mmioCount ≥ 16 then some (appended, vm)
      else do
        let w ← list[i]?
        appendLoop list (i + 1) k (appended + 1) (vm.pushMmio w)

/-- The new VM comes with the result code; `list` is the array the pointer leads to. -/
def vmRegisterMmio (list : Option (List V4Mmio)) (count : Int) (vm : Vm) : Option (V4Err × Vm) :=
  match list with
  | none => some (Err.invalidArg.code, vm)
  | some l =>
      if count ≤ 0 then some (Err.invalidArg.code, vm)
      else
        (appendLoop l 0 count.toNat 0 vm).map fun r =>
          (if (r.1 : Int) = count then 0 else Err.invalidArg.code, r.2)

/-! ## The table -/

/-- The registered windows, in the order in which they are looked up. -/
def Vm.mmioTable (vm : Vm) : List V4Mmio := (List.range' 0 vm.mmioCount).map vm.mmio

/-- The VM with the windows `ws` appended one by one. -/
def Vm.pushAll (vm : Vm) (ws : List V4Mmio) : Vm := ws.foldl Vm.pushMmio vm

theorem Vm.pushMmio_table (vm : Vm) (w : V4Mmio) :
    (vm.pushMmio w).mmioTable = vm.mmioTable ++ [w] := by
  have hold : ∀ i ∈ List.range' 0 vm.mmioCount,
      Function.update vm.mmio vm.mmioCount w i = vm.mmio i := by
    intro i hi
    apply Function.update_of_ne
    rw [List.mem_range'_1] at hi
    omega
  simp only [mmioTable, pushMmio, List.range'_1_concat, List.map_append, List.map_cons,
    List.map_nil, Nat.zero_add, Function.update_self]
  rw [List.map_congr_left hold]

theorem Vm.pushAll_table (vm : Vm) (ws : List V4Mmio) :
    (vm.pushAll ws).mmioTable = vm.mmioTable ++ ws := by
  induction ws generalizing vm with
  | nil => simp [pushAll]
  | cons w ws ih =>
      rw [pushAll, List.foldl_cons, ← pushAll, ih, pushMmio_table, List.append_assoc]
      rfl

/-- **The loop.**  Of the `k` elements it is given it appends those there is room for. -/
theorem appendLoop_run {list : List V4Mmio} {i k : Nat} (hlen : i + k ≤ list.length)
    (appended : Nat) (vm : Vm) :
    appendLoop list i k appended vm = some (appended + min k (16 - vm.mmioCount),
      vm.pushAll ((list.drop i).take (min k (16 - vm.mmioCount)))) := by
  induction k generalizing i appended vm with
  | zero => simp [appendLoop, Vm.pushAll]
  | succ k ih =>
      rw [appendLoop]
      by_cases hfull : vm.mmioCount ≥ 16
      · have hroom : min (k + 1) (16 - vm.mmioCount) = 0 := by omega
        rw [if_pos hfull, hroom]
        simp [Vm.pushAll]
      · have hi : i < list.length := by omega
        have hcount : (vm.pushMmio list[i]).mmioCount = vm.mmioCount + 1 := rfl
        have hroom : min (k + 1) (16 - vm.mmioCount)
            = min k (16 - (vm.mmioCount + 1)) + 1 := by omega
        rw [if_neg hfull, List.getElem?_eq_getElem hi, Option.bind_eq_bind, Option.bind_some,
          ih (by omega), hcount, hroom, List.drop_eq_getElem_cons hi, List.take_succ_cons,
          Vm.pushAll, Vm.pushAll, List.foldl_cons]
        congr 2
        omega

/-- **`vm_register_mmio`** on a list of its own length. -/
theorem vmRegisterMmio_run {list : List V4Mmio} (hne : list ≠ []) (vm : Vm) :
    vmRegisterMmio (some list) list.length vm
      = some (if list.length ≤ 16 - vm.mmioCount then 0 else Err.invalidArg.code,
          vm.pushAll (list.take (16 - vm.mmioCount))) := by
  have hpos : 0 < list.length := List.length_pos_iff.mpr hne
  have htake : list.take (min list.length (16 - vm.mmioCount))
      = list.take (16 - vm.mmioCount) := by
    rw [Nat.min_comm, ← List.take_take, List.take_length]
  rw [vmRegisterMmio, if_neg (by omega), Int.toNat_natCast, appendLoop_run (by omega),
    List.drop_zero, htake, Option.map_some]
  congr 2
  by_cases hfit : list.length ≤ 16 - vm.mmioCount
  · rw [if_pos hfit, if_pos (by omega)]
  · rw [if_neg hfit, if_neg (by omega)]

/-! ## All or nothing -/

/-- The call either returns OK with the whole list appended, or an error with the VM as
    it was. -/
def AllOrNothing (list : List V4Mmio) (vm : Vm) : Prop :=
  ∃ e vm', vmRegisterMmio (some list) list.length vm = some (e, vm') ∧
    ((e = 0 ∧ vm'.mmioTable = vm.mmioTable ++ list) ∨ (e ≠ 0 ∧ vm' = vm))

/-- **Registration** is all or nothing exactly when the list fits or the table is full
    already. -/
theorem registration_all_or_nothing_iff {list : List V4Mmio} (hne : list ≠ []) (vm : Vm) :
    AllOrNothing list vm ↔ vm.mmioCount + list.length ≤ 16 ∨ 16 ≤ vm.mmioCount := by
  have hpos : 0 < list.length := List.length_pos_iff.mpr hne
  have hrun := vmRegisterMmio_run hne vm
  constructor
  · rintro ⟨e, vm', heq, hresult⟩
    rw [hrun] at heq
    cases heq
    rcases hresult with ⟨he, -⟩ | ⟨-, hsame⟩
    · -- an OK is only returned when every window found a place
      left
      by_contra hfit
      rw [if_neg (by omega)] at he
      exact absurd he (by decide)
    · -- nothing was appended, so there was no room for even one window
      right
      have hlen := congrArg (fun vm => vm.mmioTable.length) hsame
      simp only [Vm.pushAll_table, List.length_append, List.length_take] at hlen
      omega
  · rintro (hfit | hfull)
    · refine ⟨_, _, hrun, .inl ⟨if_pos (by omega), ?_⟩⟩
      rw [Vm.pushAll_table, List.take_of_length_le (by omega)]
    · refine ⟨_, _, hrun, .inr ⟨?_, ?_⟩⟩
      · rw [if_neg (by omega)]
        decide
      · rw [Nat.sub_eq_zero_of_le hfull, List.take_zero]
        rfl

/-- A VM whose table holds `n` empty windows. -/
def emptyWindows (n : Nat) : Vm :=
  { Vm.blank with mmioCount := n }

/-- A window of four bytes at `base`, without callbacks. -/
def fourBytes (base : BitVec 32) : V4Mmio := ⟨base, 4, none, none, 0⟩

/-- Two windows fit behind fourteen. -/
theorem registration_fits : AllOrNothing [fourBytes 0, fourBytes 8] (emptyWindows 14) :=
  (registration_all_or_nothing_iff (by simp) (emptyWindows 14)).mpr (.inl (by decide))

/-- Two windows behind fifteen: the call fails, and the first one is in force. -/
theorem registration_partial :
    (vmRegisterMmio (some [fourBytes 0, fourBytes 8]) 2 (emptyWindows 15)).map
        (fun r => (r.1, r.2.mmioCount, r.2.window 0, r.2.window 8))
      = some (Err.invalidArg.code, 16, some (fourBytes 0), none) ∧
    ¬ AllOrNothing [fourBytes 0, fourBytes 8] (emptyWindows 15) := by
  refine ⟨by decide, ?_⟩
  rintro ⟨e, vm', heq, hresult⟩
  rw [vmRegisterMmio_run (by simp)] at heq
  cases heq
  rcases hresult with ⟨he, -⟩ | ⟨-, hsame⟩
  · exact absurd he (by decide)
  · exact absurd (congrArg Vm.mmioCount hsame) (by decide)

end V4Engine
