import TsKafka.BasicConsumer.Wait
import TsKafka.Library.Termination
import Mathlib.Algebra.BigOperators.Group.Finset.Basic
import Mathlib.Algebra.Order.BigOperators.Group.Finset

/-!
# The calls of `wait`

What holds of all calls of `wait` on one consumer, whoever makes them and however often a blocked
caller wakes without being notified: `_mx` is held by one of them at a time and always given back,
`wait` returns only when `_stop` has been raised, and once it has, no caller is kept from
returning by the others.
-/

namespace TsKafka.BasicConsumer
open RdKafka PartialRun

variable {τ : Type}

/-! ## The mutex -/

/-- A caller at this place has locked `_mx`. -/
def CallPc.Locked : CallPc → Prop
  | .wait .test | .wait .block | .wait .ret => True
  | _ => False

/-- `_mx` is locked by the caller that is between the lock and the unlock. -/
def State.Exclusive (s : State τ) : Prop := ∀ c, (s.call c).Locked ↔ s.mx = some c

theorem CallPc.locked_woken (pc : CallPc) : pc.woken.Locked ↔ pc.Locked := by
  unfold CallPc.woken
  split <;> rfl

section Steps

variable [DecidableEq τ] {s t : State τ}

omit [DecidableEq τ] in
theorem State.Exclusive.congr (h : s.Exclusive) (hmx : t.mx = s.mx)
    (hcall : ∀ c, (t.call c).Locked ↔ (s.call c).Locked) : t.Exclusive := by
  intro c
  rw [hcall, h, hmx]

/-- A caller that neither locks nor unlocks. -/
theorem locked_setCall {s : State τ} {c : Caller τ} {pc : CallPc}
    (hpc : pc.Locked ↔ (s.call c).Locked) (c' : Caller τ) :
    ((s.setCall c pc).call c').Locked ↔ (s.call c').Locked := by
  by_cases hc : c' = c
  · subst hc
    rw [setCall_self, hpc]
  · rw [setCall_of_ne s hc]

theorem State.Exclusive.lock (h : s.Exclusive) {c : Caller τ} (hmx : s.mx = none) :
    ({ s.setCall c (.wait .test) with mx := some c } : State τ).Exclusive := by
  intro c'
  by_cases hc : c' = c
  · subst hc
    exact iff_of_true (setCall_self s c' _ ▸ trivial) rfl
  · refine iff_of_false ?_ fun heq => hc (Option.some.inj heq).symm
    show ¬ ((s.setCall c (.wait .test)).call c').Locked
    rw [setCall_of_ne s hc, h, hmx]
    simp

theorem State.Exclusive.unlock (h : s.Exclusive) {c : Caller τ} (pc : CallPc)
    (hlocked : (s.call c).Locked) (hpc : ¬ pc.Locked) {t : State τ} (hmx : t.mx = none)
    (hcall : t.call = (s.setCall c pc).call) : t.Exclusive := by
  intro c'
  rw [hmx, hcall]
  refine iff_of_false ?_ (by simp)
  by_cases hc : c' = c
  · subst hc
    rwa [setCall_self]
  · rw [setCall_of_ne s hc, h, (h c).mp hlocked]
    exact fun heq => hc (Option.some.inj heq).symm

theorem State.Exclusive.step (h : s.Exclusive) {a : Action τ} (hstep : Step s a t) :
    t.Exclusive := by
  cases hstep with
  | reader result pc hpc hcallback =>
    unfold State.readerAt
    split
    · exact h.congr rfl fun c => CallPc.locked_woken (s.call c)
    · exact h
  | readerFault result fault hpc hhandle => exact h
  | stop c hidle => exact h.congr rfl (locked_setCall (by simp [hidle, CallPc.Locked]))
  | wait c hidle => exact h.congr rfl (locked_setCall (by simp [hidle, CallPc.Locked]))
  | stopCall c pc t hpc hstep =>
    have hself : ∀ q : CallPc, ¬ q.Locked → (q.Locked ↔ (s.call c).Locked) :=
      fun q hq => iff_of_false hq (by simp [hpc, CallPc.Locked])
    cases hstep with
    | notify =>
      have hwoken : (CallPc.stop .halt).Locked ↔ (s.notifyAll.call c).Locked :=
        iff_of_false (by simp [CallPc.Locked])
          (by simp [State.notifyAll, hpc, CallPc.woken, CallPc.Locked])
      exact h.congr rfl fun c' =>
        (locked_setCall hwoken c').trans (CallPc.locked_woken (s.call c'))
    | haltFault hconsumer => exact h
    | _ => exact h.congr rfl (locked_setCall (hself _ (by simp [CallPc.Locked])))
  | waitCall c pc t hpc hstep =>
    cases hstep with
    | lock hmx => exact h.lock hmx
    | leaves hstop => exact h.congr rfl (locked_setCall (by simp [hpc, CallPc.Locked]))
    | stays hstop => exact h.congr rfl (locked_setCall (by simp [hpc, CallPc.Locked]))
    | block =>
      exact h.unlock (c := c) (.wait .blocked) (by simp [hpc, CallPc.Locked])
        (by simp [CallPc.Locked]) rfl rfl
    | ret =>
      exact h.unlock (c := c) .idle (by simp [hpc, CallPc.Locked]) (by simp [CallPc.Locked]) rfl
        rfl
  | wake c hpc => exact h.congr rfl (locked_setCall (by simp [hpc, CallPc.Locked]))

/-! ## The return -/

/-- Who is about to return has read `_stop` as true, and so has who has returned. -/
structure State.ReturnsStopped (s : State τ) : Prop where
  leaving : ∀ c, s.call c = .wait .ret → s.bc.stop = true
  returned : s.waitReturns ≠ 0 → s.bc.stop = true

/-- A call of `wait` is over when its caller was about to return. -/
theorem Step.waitReturns {a : Action τ} (hstep : Step s a t) :
    t.waitReturns = s.waitReturns ∨ ∃ c, s.call c = .wait .ret := by
  cases hstep with
  | reader result pc hpc hcallback =>
    unfold State.readerAt
    split <;> exact .inl rfl
  | stopCall c pc t hpc hstep => cases hstep <;> exact .inl rfl
  | waitCall c pc t hpc hstep =>
    cases hstep with
    | ret => exact .inr ⟨c, hpc⟩
    | _ => exact .inl rfl
  | _ => exact .inl rfl

theorem State.ReturnsStopped.step (h : s.ReturnsStopped) {a : Action τ} (hstep : Step s a t) :
    t.ReturnsStopped := by
  constructor
  · intro c hret
    exact hstep.stop_mono ((hstep.leaving hret).elim (h.leaving c) id)
  · intro hreturned
    apply hstep.stop_mono
    rcases hstep.waitReturns with hsame | ⟨c, hret⟩
    · exact h.returned (hsame ▸ hreturned)
    · exact h.leaving c hret

end Steps

/-! ## The end of the calls -/

/-- The next step of a call of `wait`, and of no other. -/
def waiterStep [DecidableEq τ] (s : State τ) (c : Caller τ) : Option (State τ) :=
  match s.call c with
  | .wait _ => step s (.call c)
  | _ => none

/-- How many steps a call of `wait` still makes before it returns or blocks. -/
def CallPc.rank : CallPc → ℕ
  | .wait .lock => 3
  | .wait .test => 2
  | .wait .block => 1
  | .wait .ret => 1
  | _ => 0

theorem CallPc.rank_le (pc : CallPc) : pc.rank ≤ 3 := by
  cases pc with
  | wait pc => cases pc <;> decide
  | _ => exact Nat.zero_le 3

/-- A bound on the steps of all calls of `wait`. -/
def State.waitRank [Fintype τ] [DecidableEq τ] (s : State τ) : ℕ := ∑ c, (s.call c).rank

/-- The call of `c` stays blocked, unless it is woken. -/
def State.Blocks (s : State τ) (c : Caller τ) : Prop :=
  s.call c = .wait .block ∨ s.call c = .wait .blocked

/-- `t` is reached from `s` by steps of calls of `wait` alone. -/
structure Waiting (s t : State τ) : Prop where
  exclusive : t.Exclusive
  fault : t.fault = none
  stop : t.bc.stop = s.bc.stop
  /-- When `_stop` is raised, no further call blocks. -/
  blocks : s.bc.stop = true → ∀ c, t.Blocks c → s.Blocks c

/-- No call of `wait` goes on by itself: each has returned, or is blocked, and in this case it had
tested `_stop` when this was not raised. -/
def WaitsOver (s t : State τ) : Prop :=
  ∀ c p, t.call c = .wait p → p = .blocked ∧ (s.bc.stop = true → s.Blocks c)

section Waiters

variable [DecidableEq τ] {s t u : State τ}

theorem waiterStep_eq_some {c : Caller τ} (h : waiterStep t c = some u) :
    ∃ pc, t.call c = .wait pc ∧ WaitStep t c pc u := by
  unfold waiterStep at h
  split at h
  · rename_i pc hpc
    cases (Step.of_step h).2 with
    | stopCall c pc' v hpc' hstep => cases hpc.symm.trans hpc'
    | waitCall c pc' v hpc' hstep => exact ⟨pc', hpc', hstep⟩
  · cases h

theorem waiterStep_of_waitStep {c : Caller τ} {pc : WaitPc} (hfault : t.fault = none)
    (hpc : t.call c = .wait pc) (h : t.waitStep c pc = some u) : waiterStep t c = some u := by
  unfold waiterStep
  rw [hpc]
  simp only [step, hfault, hpc]
  exact h

/-- A step of a call of `wait` moves this call on, and no other. -/
theorem WaitStep.moves {c : Caller τ} {pc : WaitPc} (h : WaitStep t c pc u) :
    ∃ q : CallPc, u.call = (t.setCall c q).call ∧ q.rank < (CallPc.wait pc).rank ∧
      (t.bc.stop = true → (q = .wait .block ∨ q = .wait .blocked) → pc = .block) := by
  cases h with
  | lock hmx => exact ⟨.wait .test, rfl, by decide, by simp⟩
  | leaves hstop => exact ⟨.wait .ret, rfl, by decide, by simp⟩
  | stays hstop => exact ⟨.wait .block, rfl, by decide, by simp [hstop]⟩
  | block => exact ⟨.wait .blocked, rfl, by decide, fun _ _ => rfl⟩
  | ret => exact ⟨.idle, rfl, by decide, by simp⟩

theorem WaitStep.waitRank_lt [Fintype τ] {c : Caller τ} {pc : WaitPc} (hpc : t.call c = .wait pc)
    (h : WaitStep t c pc u) : u.waitRank < t.waitRank := by
  obtain ⟨q, hcall, hrank, -⟩ := h.moves
  unfold State.waitRank
  rw [hcall]
  apply Finset.sum_lt_sum
  · intro c' _
    by_cases hc : c' = c
    · subst hc
      rw [setCall_self, hpc]
      exact hrank.le
    · rw [setCall_of_ne t hc]
  · exact ⟨c, Finset.mem_univ c, by rwa [setCall_self, hpc]⟩

theorem Waiting.step (h : Waiting s t) {c : Caller τ} (hstep : waiterStep t c = some u) :
    Waiting s u := by
  obtain ⟨pc, hpc, hwait⟩ := waiterStep_eq_some hstep
  obtain ⟨q, hcall, -, hq⟩ := hwait.moves
  refine ⟨h.exclusive.step (.waitCall c pc u hpc hwait), ?_, ?_, ?_⟩
  · cases hwait <;> exact h.fault
  · cases hwait <;> exact h.stop
  · intro hstop c' hblocks
    unfold State.Blocks at hblocks
    rw [hcall] at hblocks
    apply h.blocks hstop
    by_cases hc : c' = c
    · subst hc
      rw [setCall_self] at hblocks
      exact .inl (hpc.trans (congrArg _ (hq (h.stop.trans hstop) hblocks)))
    · rwa [setCall_of_ne t hc] at hblocks

/-- Whoever has locked the mutex goes on, and when nobody has, everybody at the lock can. -/
theorem Waiting.goes_on (h : Waiting s t) :
    WaitsOver s t ∨ ∃ c, (waiterStep t c).isSome := by
  by_cases hover : WaitsOver s t
  · exact .inl hover
  right
  simp only [WaitsOver, not_forall] at hover
  obtain ⟨c, pc, hpc, hnot⟩ := hover
  have hlocked : ∀ c, (t.call c).Locked → (waiterStep t c).isSome := by
    intro c hlocked
    cases hcall : t.call c with
    | wait pc =>
      rw [hcall] at hlocked
      cases pc with
      | lock => exact hlocked.elim
      | blocked => exact hlocked.elim
      | _ => rw [waiterStep_of_waitStep h.fault hcall rfl]; rfl
    | _ =>
      rw [hcall] at hlocked
      exact hlocked.elim
  cases hmx : t.mx with
  | some holder => exact ⟨holder, hlocked holder ((h.exclusive holder).mpr hmx)⟩
  | none =>
    refine ⟨c, ?_⟩
    cases pc with
    | lock =>
      rw [waiterStep_of_waitStep h.fault hpc (if_pos hmx)]
      rfl
    | blocked => exact absurd ⟨rfl, fun hstop => h.blocks hstop c (.inr hpc)⟩ hnot
    | _ => exact hlocked c (by rw [hpc]; trivial)

/-- What the calls of `wait` do, in every run of the threads. -/
structure WaitCalls [Fintype τ] (s : State τ) : Prop where
  /-- `_mx` is locked by the one caller that is between its lock and its unlock. -/
  exclusive : s.Exclusive
  /-- A call has returned only when `_stop` has been raised, however often it was woken before. -/
  returned : s.waitReturns ≠ 0 → s.bc.stop = true
  /-- The calls bring each other to their end in every order: within a bounded number of steps each
  has returned or is blocked, and after `_stop` is raised no further one blocks. -/
  ends : s.fault = none → EndsWithin waiterStep (3 * Fintype.card (Caller τ)) (WaitsOver s) s

theorem wait_calls [Fintype τ] (bc : Members) (as : List (Action τ)) (s : State τ)
    (hrun : run step (launched τ bc) as = some s) : WaitCalls s := by
  have hinv : s.Exclusive ∧ s.ReturnsStopped := by
    apply run_invariant (I := fun s : State τ => s.Exclusive ∧ s.ReturnsStopped) ?_ hrun
    · refine ⟨fun c => iff_of_false id (by simp [launched]), ?_, fun hzero => absurd rfl hzero⟩
      intro c hret
      cases hret
    · rintro s a t ⟨hexclusive, hreturns⟩ h
      have hstep := (Step.of_step h).2
      exact ⟨hexclusive.step hstep, hreturns.step hstep⟩
  refine ⟨hinv.1, hinv.2.returned, fun hfault => ?_⟩
  apply EndsWithin.of_rank (I := Waiting s) State.waitRank (fun t a u h hstep => h.step hstep) ?_
    (fun t h => h.goes_on) ⟨hinv.1, hfault, rfl, fun _ _ => id⟩
  · calc s.waitRank ≤ ∑ _c : Caller τ, 3 := Finset.sum_le_sum fun c _ => (s.call c).rank_le
      _ = 3 * Fintype.card (Caller τ) := by simp [Nat.mul_comm]
  · intro t c u _ hstep
    obtain ⟨pc, hpc, hwait⟩ := waiterStep_eq_some hstep
    exact hwait.waitRank_lt hpc

end Waiters

/-- One caller has locked `_mx` and another is at the lock when a third raises `_stop`. -/
def raisedDuringWaits : List (Action (Fin 3)) :=
  [.wait (.thread 0), .call (.thread 0), .wait (.thread 1), .stop (.thread 2), .call (.thread 2),
    .call (.thread 2)]

theorem wait_calls_raisedDuringWaits :
    ∃ s, run step (launched (Fin 3) startedOnce.bc) raisedDuringWaits = some s ∧
      s.bc.stop = true ∧ WaitCalls s :=
  ⟨_, rfl, rfl, wait_calls startedOnce.bc raisedDuringWaits _ rfl⟩

end TsKafka.BasicConsumer
