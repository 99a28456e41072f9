/-
  V4Engine.Vm.ListRuns

  Runs of `vm_exec_raw` are runs of the machine of lists.

  One step of the lists is one or two steps of the interpreter, and a failure is
  all the returns of the callers behind it.  So the interpreter returns, fails
  and goes on for ever exactly as the lists do, up to the first instruction that
  acts on the world outside or has no value (`interpreter_refines_lists`); the
  runs are those that evaluate no undefined expression.
-/
import V4Engine.Vm.ListRefinement
import V4Engine.Vm.WordEntry
import V4Engine.Lib.Iterate

namespace V4Engine

open Lib FaultM VmM

variable {W : Type} {H : Host W} {env : ListEnv}

/-! ## Coupled configurations -/

/-- The length passed for the code is at most its own. -/
def Activation.Whole (a : Activation) : Prop := a.len ≤ a.bc.length

/-- Corresponding configurations of the lists and of the interpreter. -/
inductive Coupled (env : ListEnv) : ListConfig → Config W → Prop where
  | run {s m cur cs} (hm : Presents env s m) (hcur : cur.Whole) (hcs : ∀ x ∈ cs, x.act.Whole) :
      Coupled env (.run s cur cs) (.run m cur cs)
  | done {s m} (hm : Presents env s m) : Coupled env (.done s) (.ret 0 m [])
  | failed (e : Err) (m : Machine W) : Coupled env (.failed e) (.ret e.code m [])

/-- The callees of a plain VM are whole. -/
theorem Presents.callee_whole {s : ListVm} {m : Machine W} (h : Presents env s m) {idx : BitVec 16}
    {c : Activation} (hc : env.callee idx = .ok c) : c.Whole := by
  have hwords := h.plain.wordCount
  rw [← h.env] at hc
  change (if idx.toNat ≥ m.vm.wordCount % 65536 then _ else _) = _ at hc
  split at hc
  · cases hc
  · next hidx =>
      cases hcode : (m.vm.words idx.toNat).code with
      | none => rw [hcode] at hc; cases hc
      | some code =>
          simp only [hcode] at hc
          split at hc
          · cases hc
          · cases hc
            exact h.plain.words idx.toNat code (by omega) hcode

/-- Only `CALL` starts an activation. -/
theorem exec_call {i : ListInstr} {a c : Activation} {q ip : Nat} {s t : ListVm}
    (h : i.exec env a q s = .ok (.call c ip, t)) : ∃ idx, env.callee idx = .ok c := by
  cases i with
  | call idx =>
      refine ⟨idx, ?_⟩
      change (env.callee idx >>= _) = _ at h
      cases hc : env.callee idx with
      | error e => rw [hc] at h; cases h
      | ok c' => rw [hc] at h; cases h; rfl
  | jump off =>
      change (target a q off >>= _) = _ at h
      unfold target at h
      split at h <;> cases h
  | branch ifZero off =>
      obtain ⟨ds, rs, fp, ram⟩ := s
      cases ds with
      | nil => cases h
      | cons v ds =>
          change ((if (v == 0) = ifZero then target a q off else .ok (.next q)) >>= _) = _ at h
          unfold target at h
          split at h
          · split at h <;> cases h
          · cases h
  | ret => cases h
  -- every other instruction goes on behind itself
  | _ =>
      change (ListInstr.effect env s _ >>= _) = _ at h
      revert h
      cases ListInstr.effect env s _ <;> intro h <;> cases h

/-- Where an instruction leads is coupled with where it leads on the lists. -/
theorem settle_coupled {cur : Activation} {cs : List Caller} (hcur : cur.Whole)
    (hcs : ∀ x ∈ cs, x.act.Whole) {r : Except Err (Go × ListVm)}
    (hcall : ∀ c ip t, r = .ok (.call c ip, t) → ∃ idx, env.callee idx = .ok c)
    {o : Outcome V4Err (Machine W) Flow} (h : Agrees env (r.map fun r => (r.1.flow, r.2)) o) :
    ∃ d, DefinedReaches H (settle cur cs o) d ∧ Coupled env (.after cur cs r) d := by
  match r, h with
  | .error e, h =>
      obtain ⟨he, m, rfl⟩ := h
      obtain ⟨m', hreach⟩ := ret_unwinds_defined (H := H) (Err.code_ne_zero he) cs m
      exact ⟨_, hreach, .failed e m'⟩
  | .ok (.next ip, t), h =>
      obtain ⟨m, rfl, hm⟩ := h
      exact ⟨_, .refl, .run hm hcur hcs⟩
  | .ok (.ret, t), h =>
      obtain ⟨m, rfl, hm⟩ := h
      cases cs with
      | nil => exact ⟨_, .refl, .done hm⟩
      | cons x cs =>
          -- the caller takes a step of its own to put its frame back
          obtain ⟨hx, hcs⟩ := List.forall_mem_cons.mp hcs
          exact ⟨_, .single (definedStep_ret 0 m (x :: cs)), .run (hm.withFp x.oldFp) hx hcs⟩
  | .ok (.call c ip, t), h =>
      obtain ⟨m, rfl, hm⟩ := h
      obtain ⟨idx, hc⟩ := hcall c ip t rfl
      have hframe := hm.withFp (some m.vm.rp)
      rw [← hm.rs_length] at hframe
      refine ⟨_, .refl, ?_⟩
      show Coupled env _ (.run (m.setFp (some m.vm.rp)) c (⟨{ cur with ip := ip }, m.vm.fp⟩ :: cs))
      rw [← hm.rs_length, hm.fp]
      exact .run hframe (hm.callee_whole hc) (List.forall_mem_cons.mpr ⟨hcur, hcs⟩)

/-- The lists stand before an instruction that acts on the world outside. -/
def ListConfig.Leaves (c : ListConfig) : Prop :=
  ∃ s cur cs q, c = .run s cur cs ∧ decodeAt cur = .ok (.outside, q)

/-- The lists stand before an expression without a value. -/
def ListConfig.Undefined (c : ListConfig) : Prop :=
  ∃ s cur cs i q, c = .run s cur cs ∧ decodeAt cur = .ok (i, q) ∧ i.undefined s = true

/-- Where the lists stop. -/
theorem listStep_eq_none {c : ListConfig} (h : listStep env c = none) :
    c.Leaves ∨ c.Undefined ∨ (∃ s, c = .done s) ∨ ∃ e, c = .failed e := by
  cases c with
  | done s => exact .inr (.inr (.inl ⟨s, rfl⟩))
  | failed e => exact .inr (.inr (.inr ⟨e, rfl⟩))
  | run s cur cs =>
      simp only [listStep] at h
      split at h
      · cases h
      · next hdec => exact .inl ⟨s, cur, cs, _, rfl, hdec⟩
      · next hdec =>
          split at h
          · next hundef => exact .inr (.inl ⟨s, cur, cs, _, _, rfl, hdec, hundef⟩)
          · cases h

/-- A step of the lists from an instruction. -/
theorem listStep_run {s : ListVm} {cur : Activation} {cs : List Caller} {c' : ListConfig}
    (h : listStep env (.run s cur cs) = some c') :
    (∃ e, decodeAt cur = .error e ∧ c' = .failed e) ∨
      ∃ i q, decodeAt cur = .ok (i, q) ∧ i ≠ .outside ∧ i.undefined s = false ∧
        c' = .after cur cs (i.exec env cur q s) := by
  simp only [listStep] at h
  split at h
  · next e hdec => exact .inl ⟨e, hdec, (Option.some.inj h).symm⟩
  · cases h
  · next i q hout hdec =>
      split at h
      · cases h
      · next hdef =>
          exact .inr ⟨i, q, hdec, hout, Bool.eq_false_iff.mpr hdef, (Option.some.inj h).symm⟩

/-- **One step** of the lists is at least one of the interpreter. -/
theorem Coupled.step {c c' : ListConfig} {d : Config W} (h : Coupled env c d)
    (hs : listStep env c = some c') :
    ∃ d', Relation.TransGen (fun c d => definedStep H c = some d) d d' ∧ Coupled env c' d' := by
  cases h with
  | done => cases hs
  | failed => cases hs
  | @run s m cur cs hm hcur hcs =>
      have hstep : (Config.run m cur cs).Fitting →
          definedStep H (.run m cur cs) = some (settle cur cs (fetch H cur m)) := guarded_of
      obtain ⟨e, hdec, rfl⟩ | ⟨i, q, hdec, hin, hdef, rfl⟩ := listStep_run hs
      · -- what does not decode evaluates nothing
        have hfetch := (fetch_refines (H := H) hcur
          fun q hq => by rw [hdec] at hq; cases hq) m hm
        unfold listFetch at hfetch
        rw [hdec] at hfetch
        obtain ⟨d, hreach, hd⟩ := settle_coupled (H := H) (r := .error e) hcur hcs
          (fun _ _ _ => nofun) hfetch
        have hfit := Config.undefined_iff.mp (not_undefined_of_error hcur hdec m cs)
        exact ⟨d, .head' (hstep hfit) hreach, hd⟩
      · -- the lists have a value, so the expression has one
        have hfetch := (fetch_refines (H := H) hcur
          fun q' hq => hin (by rw [hdec] at hq; cases hq; rfl)) m hm
        unfold listFetch at hfetch
        rw [hdec] at hfetch
        obtain ⟨d, hreach, hd⟩ := settle_coupled (H := H) hcur hcs (fun _ _ _ => exec_call) hfetch
        have hfit : (Config.run m cur cs).Fitting := Config.undefined_iff.mp fun hundef => by
          rw [(undefined_iff_lists hm hcur hdec cs).mp hundef] at hdef
          cases hdef
        exact ⟨d, .head' (hstep hfit) hreach, hd⟩

/-! ## Runs -/

/-- The lists a run of the code `bc` starts with. -/
def ListConfig.start (m : Machine W) (bc : List Byte) : ListConfig :=
  .run m.lists ⟨bc, bc.length, 0⟩ []

/-- Any number of steps of the lists. -/
abbrev ListReaches (env : ListEnv) : ListConfig → ListConfig → Prop :=
  Relation.ReflTransGen fun c d => listStep env c = some d

section

variable {m : Machine W} {bc : List Byte} (hm : m.vm.Plain)
include hm

/-- The start of the lists is coupled with the start of the interpreter. -/
theorem start_coupled :
    Coupled m.vm.listEnv (.start m bc) (Config.start m bc bc.length) :=
  .run ⟨hm, rfl, rfl⟩ (Nat.le_refl bc.length) nofun

/-- Whatever the lists reach, the interpreter reaches. -/
theorem ListReaches.coupled {c : ListConfig} (h : ListReaches m.vm.listEnv (.start m bc) c) :
    ∃ d, DefinedReaches H (.start m bc bc.length) d ∧ Coupled m.vm.listEnv c d := by
  obtain ⟨n, hn⟩ := reaches_iff_iterate.mp h
  obtain ⟨k, d, -, hk, hd⟩ := iterate_simulates (g := definedStep H) (fun _ _ _ h hs => h.step hs)
    (start_coupled hm) hn
  exact ⟨d, reaches_iff_iterate.mpr ⟨k, hk⟩, hd⟩

/-- If the lists go on for ever, so does the interpreter. -/
theorem lists_diverge
    (h : ∀ c, ListReaches m.vm.listEnv (.start m bc) c → ∃ c', listStep m.vm.listEnv c = some c') :
    ∀ d, DefinedReaches H (.start m bc bc.length) d → ∃ d', definedStep H d = some d' := by
  refine reaches_forever_iff.mpr fun n => ?_
  obtain ⟨c, hc⟩ := reaches_forever_iff.mp h n
  obtain ⟨k, d, hk, hd, -⟩ := iterate_simulates (g := definedStep H) (fun _ _ _ h hs => h.step hs)
    (start_coupled hm) hc
  obtain ⟨j, rfl⟩ := Nat.exists_eq_add_of_le hk
  obtain ⟨d', hd', -⟩ := iterate_add_eq_some.mp hd
  exact ⟨d', hd'⟩

end

/-- Where the lists have no value, the interpreter has none. -/
theorem Coupled.undefined {c : ListConfig} {d : Config W} (h : Coupled env c d) (hc : c.Undefined) :
    d.Undefined := by
  obtain ⟨s, cur, cs, i, q, rfl, hdec, hundef⟩ := hc
  cases h with
  | run hm hcur hcs => exact (undefined_iff_lists hm hcur hdec cs).mpr hundef

theorem definedStep_returned (e : V4Err) (m : Machine W) :
    definedStep H (.ret e m []) = none := definedStep_ret e m []

/-- **Refinement.**  A run of `vm_exec_raw` in a VM without devices whose words have their true
    lengths: up to an instruction that acts on the world outside, it shows the lists of the
    machine of lists, and evaluates no undefined expression on the way; it returns with them
    where that machine is done, with the error code where that machine fails, comes to an
    undefined expression where that machine has no value, and returns in no other way. -/
theorem interpreter_refines_lists (H : Host W) (m : Machine W) (bc : List Byte)
    (hm : m.vm.Plain) :
    (∀ s cur cs, ListReaches m.vm.listEnv (.start m bc) (.run s cur cs) →
        ∃ m', DefinedReaches H (.start m bc bc.length) (.run m' cur cs) ∧ m'.lists = s) ∧
      (∀ s, ListReaches m.vm.listEnv (.start m bc) (.done s) →
        ∃ m', DefinedReaches H (.start m bc bc.length) (.ret 0 m' []) ∧ m'.lists = s) ∧
      (∀ e, ListReaches m.vm.listEnv (.start m bc) (.failed e) →
        ∃ m', DefinedReaches H (.start m bc bc.length) (.ret e.code m' [])) ∧
      (∀ c, ListReaches m.vm.listEnv (.start m bc) c → c.Undefined →
        ∃ d, DefinedReaches H (.start m bc bc.length) d ∧ d.Undefined) ∧
      ∀ r m', DefinedReaches H (.start m bc bc.length) (.ret r m' []) →
        (∃ c, ListReaches m.vm.listEnv (.start m bc) c ∧ c.Leaves) ∨
          r = 0 ∧ ListReaches m.vm.listEnv (.start m bc) (.done m'.lists) ∨
          ∃ e : Err, r = e.code ∧ ListReaches m.vm.listEnv (.start m bc) (.failed e) := by
  refine ⟨fun s cur cs h => ?_, fun s h => ?_, fun e h => ?_, fun c h hundef => ?_,
    fun r m' h => ?_⟩
  · obtain ⟨d, hd, hc⟩ := ListReaches.coupled (H := H) hm h
    cases hc with
    | run hm' => exact ⟨_, hd, hm'.lists⟩
  · obtain ⟨d, hd, hc⟩ := ListReaches.coupled (H := H) hm h
    cases hc with
    | done hm' => exact ⟨_, hd, hm'.lists⟩
  · obtain ⟨d, hd, hc⟩ := ListReaches.coupled (H := H) hm h
    cases hc with
    | failed e m' => exact ⟨m', hd⟩
  · obtain ⟨d, hd, hc⟩ := ListReaches.coupled (H := H) hm h
    exact ⟨d, hd, hc.undefined hundef⟩
  · have hfinal := definedStep_returned (H := H) r m'
    by_cases hend : ∃ c, ListReaches m.vm.listEnv (.start m bc) c ∧ listStep m.vm.listEnv c = none
    · obtain ⟨c, hreach, hnone⟩ := hend
      obtain ⟨d, hd, hc⟩ := ListReaches.coupled (H := H) hm hreach
      obtain hleaves | hundef | ⟨s, rfl⟩ | ⟨e, rfl⟩ := listStep_eq_none hnone
      · exact .inl ⟨c, hreach, hleaves⟩
      · -- a run that returns does not stop at an undefined expression
        have hdef := hc.undefined hundef
        obtain rfl := final_unique h hfinal hd (definedStep_of_undefined hdef)
        obtain ⟨_, _, _, _, _, _, heq, -⟩ := hdef
        cases heq
      · cases hc with
        | done hm' =>
            cases final_unique h hfinal hd (definedStep_returned 0 _)
            exact .inr (.inl ⟨rfl, hm'.lists ▸ hreach⟩)
      · cases hc with
        | failed e m'' =>
            cases final_unique h hfinal hd (definedStep_returned e.code m'')
            exact .inr (.inr ⟨e, rfl, hreach⟩)
    · -- the lists go on for ever, and a run that returns does not
      have hforever := lists_diverge (H := H) hm fun c hc => Option.ne_none_iff_exists'.mp
        fun hnone => hend ⟨c, hc, hnone⟩
      obtain ⟨d, hd⟩ := hforever _ h
      rw [hfinal] at hd
      cases hd

theorem blank_plain : Vm.blank.Plain :=
  ⟨Nat.zero_le _, Nat.zero_le _, Nat.zero_le _, nofun, rfl, nofun⟩

/-- `LIT1; LIT1; ADD; RET`. -/
theorem interpreter_refines_lists_add :
    ∃ m', DefinedReaches Host.silent (.start (.boot .blank) [0x74, 0x74, 0x10, 0x51] 4)
      (.ret 0 m' []) ∧ m'.lists.ds = [2] := by
  obtain ⟨s, hreach, hds⟩ : ∃ s, ListReaches Vm.blank.listEnv
      (.start (Machine.boot .blank) [0x74, 0x74, 0x10, 0x51]) (.done s) ∧ s.ds = [2] :=
    ⟨_, .head rfl (.head rfl (.head rfl (.single rfl))), rfl⟩
  obtain ⟨m', hret, hlists⟩ := (interpreter_refines_lists Host.silent (.boot .blank)
    [0x74, 0x74, 0x10, 0x51] blank_plain).2.1 s hreach
  exact ⟨m', hret, hlists ▸ hds⟩

end V4Engine
