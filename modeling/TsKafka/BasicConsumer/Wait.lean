import TsKafka.BasicConsumer.Teardown
import Mathlib.Data.Fintype.Basic

/-!
# What `wait` promises

`wait` tests `_stop` under `_mx`, but `stop` writes it and both notifications are made without
that mutex, and `stop` raises the flag before it joins the reader. The first part of the file says
when no thread is left blocked for good, the second when a return of `wait` means that no callback
runs any more.
-/

namespace TsKafka.BasicConsumer
open RdKafka PartialRun

instance {τ : Type} [Fintype τ] [DecidableEq τ] : Fintype (Caller τ) where
  elems := insert .reader (Finset.univ.image .thread)
  complete c := by cases c <;> simp

variable {τ : Type}

/-! ## One call of `stop` -/

/-- The call of `stop` has notified. -/
def StopPc.notified : StopPc → Bool
  | .test | .store | .notify => false
  | _ => true

/-- A consumer on which `stop` has been called at most once: a call in progress shows in `_stop` and
in the notification how far it is. -/
structure OneCall (s : State τ) : Prop where
  notCalled : s.stopCalls = 0 → s.bc.stop = false ∧ s.stopNotified = false ∧
    s.bc.consumer ≠ none ∧ ∀ c p, s.call c ≠ .stop p
  sole : ∀ c c' p p', s.call c = .stop p → s.call c' = .stop p' → c = c'
  inProgress : ∀ c p, s.call c = .stop p →
    s.bc.stop = p.stored ∧ s.stopNotified = p.notified ∧ s.bc.consumer ≠ none
  finished : s.stopCalls ≠ 0 → (∀ c p, s.call c ≠ .stop p) → s.stopNotified = true
  stop : s.stopNotified = true → s.bc.stop = true

theorem SameStop.oneCall {s s' : State τ} (hsame : SameStop s s') (h : OneCall s) :
    OneCall s' := by
  have hcall := fun c p => (hsame.call c p).mp
  refine ⟨?_, ?_, ?_, ?_, ?_⟩
  · intro hzero
    rw [hsame.stopCalls] at hzero
    obtain ⟨hstop, hnotified, hconsumer, hidle⟩ := h.notCalled hzero
    rw [hsame.bc, hsame.stopNotified]
    exact ⟨hstop, hnotified, hconsumer, fun c p hp => hidle c p (hcall c p hp)⟩
  · intro c c' p p' hp hp'
    exact h.sole c c' p p' (hcall c p hp) (hcall c' p' hp')
  · intro c p hp
    rw [hsame.bc, hsame.stopNotified]
    exact h.inProgress c p (hcall c p hp)
  · intro hcalls hidle
    rw [hsame.stopCalls] at hcalls
    rw [hsame.stopNotified]
    exact h.finished hcalls fun c p hp => hidle c p ((hsame.call c p).mpr hp)
  · intro hnotified
    rw [hsame.stopNotified] at hnotified
    rw [hsame.bc]
    exact h.stop hnotified

/-- The condition on a step: `stop` is called when it has not been called before. -/
def OneStop (s : State τ) : Action τ → Prop
  | .stop _ => s.stopCalls = 0
  | _ => True

instance OneStop.decidable (s : State τ) : (a : Action τ) → Decidable (OneStop s a)
  | .stop _ => inferInstanceAs (Decidable (s.stopCalls = 0))
  | .reader _ | .wait _ | .call _ | .wake _ => isTrue trivial

/-- Every call of `stop` has ended, and there has been one. -/
def StopFinished (s : State τ) : Prop := s.stopCalls ≠ 0 ∧ ∀ c p, s.call c ≠ .stop p

section Steps

variable [DecidableEq τ] {s s' : State τ}

/-- The call of `c` goes on to `pc'`, and the flag and the notification show it. -/
theorem OneCall.advance {c : Caller τ} {pc pc' : StopPc} (h : OneCall s)
    (hpc : s.call c = .stop pc) (hcall : s'.call c = .stop pc')
    (hothers : ∀ c' p, c' ≠ c → (s'.call c' = .stop p ↔ s.call c' = .stop p))
    (hstop : s'.bc.stop = pc'.stored) (hnotified : s'.stopNotified = pc'.notified)
    (hconsumer : s'.bc.consumer = s.bc.consumer) (hcalls : s'.stopCalls = s.stopCalls) :
    OneCall s' := by
  have hself : ∀ c' p, s'.call c' = .stop p → c' = c ∧ p = pc' := by
    intro c' p hp
    have hc : c' = c := by
      by_contra hne
      exact hne (h.sole c' c p pc ((hothers c' p hne).mp hp) hpc)
    subst hc
    cases hp.symm.trans hcall
    exact ⟨rfl, rfl⟩
  refine ⟨?_, ?_, ?_, ?_, ?_⟩
  · intro hzero
    exact absurd hpc ((h.notCalled (hcalls ▸ hzero)).2.2.2 c pc)
  · intro c₁ c₂ p₁ p₂ h₁ h₂
    rw [(hself c₁ p₁ h₁).1, (hself c₂ p₂ h₂).1]
  · intro c' p hp
    rw [(hself c' p hp).2, hconsumer]
    exact ⟨hstop, hnotified, (h.inProgress c pc hpc).2.2⟩
  · intro _ hidle
    exact absurd hcall (hidle c pc')
  · intro hnot
    rw [hnotified] at hnot
    rw [hstop]
    cases pc' <;> first | rfl | cases hnot

/-- The call of `c` ends after it has notified. -/
theorem OneCall.finish {c : Caller τ} {pc : StopPc} (h : OneCall s)
    (hpc : s.call c = .stop pc) (hnotified : pc.notified = true)
    (hcall : s'.call c = .idle)
    (hothers : ∀ c' p, c' ≠ c → (s'.call c' = .stop p ↔ s.call c' = .stop p))
    (hstop : s'.bc.stop = s.bc.stop) (hsame : s'.stopNotified = s.stopNotified)
    (hcalls : s'.stopCalls = s.stopCalls) : OneCall s' := by
  have hidle : ∀ c' p, s'.call c' ≠ .stop p := by
    intro c' p hp
    by_cases hc : c' = c
    · subst hc
      cases hp.symm.trans hcall
    · exact hc (h.sole c' c p pc ((hothers c' p hc).mp hp) hpc)
  have hold : s.stopNotified = true := (h.inProgress c pc hpc).2.1.trans hnotified
  refine ⟨?_, ?_, ?_, fun _ _ => hsame.trans hold, fun _ => hstop.trans (h.stop hold)⟩
  · intro hzero
    exact absurd hpc ((h.notCalled (hcalls ▸ hzero)).2.2.2 c pc)
  · intro c₁ c₂ p₁ p₂ h₁
    exact absurd h₁ (hidle c₁ p₁)
  · intro c' p hp
    exact absurd hp (hidle c' p)

theorem OneCall.enter (h : OneCall s) {c : Caller τ} (hzero : s.stopCalls = 0) :
    OneCall { s.setCall c (.stop .test) with stopCalls := s.stopCalls + 1 } := by
  obtain ⟨hstop, hnotified, hconsumer, hidle⟩ := h.notCalled hzero
  have hself : ∀ c' p, (s.setCall c (.stop .test)).call c' = .stop p → c' = c ∧ p = .test := by
    intro c' p hp
    rcases setCall_eq hp with ⟨rfl, htest⟩ | ⟨-, hold⟩
    · cases htest
      exact ⟨rfl, rfl⟩
    · exact absurd hold (hidle c' p)
  refine ⟨?_, ?_, ?_, ?_, h.stop⟩
  · intro hcontra
    exact absurd hcontra (Nat.succ_ne_zero _)
  · intro c₁ c₂ p₁ p₂ h₁ h₂
    rw [(hself c₁ p₁ h₁).1, (hself c₂ p₂ h₂).1]
  · intro c' p hp
    rw [(hself c' p hp).2]
    exact ⟨hstop, hnotified, hconsumer⟩
  · intro _ hall
    exact absurd (setCall_self s c (.stop .test)) (hall c .test)

theorem OneCall.stopStep {c : Caller τ} {pc : StopPc} (h : OneCall s)
    (hpc : s.call c = .stop pc) (hstep : StopStep s c pc s') : OneCall s' := by
  have hothers : ∀ c' p, c' ≠ c → (s'.call c' = .stop p ↔ s.call c' = .stop p) :=
    fun c' p hc => hstep.call_of_ne hc
  obtain ⟨hstored, hnotified, -⟩ := h.inProgress c pc hpc
  cases hstep with
  | returns hstop =>
    rw [hstop] at hstored
    cases hstored
  | proceeds _ => exact h.advance hpc (setCall_self s c _) hothers hstored hnotified rfl rfl
  | store => exact h.advance hpc (setCall_self s c _) hothers rfl hnotified rfl rfl
  | notify => exact h.advance hpc (setCall_self _ c _) hothers hstored rfl rfl rfl
  | haltFault _ => exact ⟨h.notCalled, h.sole, h.inProgress, h.finished, h.stop⟩
  | joinThrows e _ => exact h.finish hpc rfl (setCall_self s c _) hothers rfl rfl rfl
  | resetConsumer => exact h.finish hpc rfl (setCall_self s c _) hothers rfl rfl rfl
  | _ => exact h.advance hpc (setCall_self s c _) hothers hstored hnotified rfl rfl

theorem OneCall.step {a : Action τ} (h : OneCall s) (hguard : OneStop s a) (hstep : Step s a s') :
    OneCall s' := by
  cases hstep with
  | reader result pc hpc _ => exact (SameStop.readerAt hpc).oneCall h
  | readerFault result fault _ _ => exact ⟨h.notCalled, h.sole, h.inProgress, h.finished, h.stop⟩
  | stop c _ => exact h.enter hguard
  | wait c hidle => exact (SameStop.setCall (by simp [hidle]) (by simp)).oneCall h
  | stopCall c pc _ hpc hstop => exact h.stopStep hpc hstop
  | waitCall c pc _ hpc hwait => exact (SameStop.waitStep hpc hwait).oneCall h
  | wake c hpc => exact (SameStop.setCall (by simp [hpc]) (by simp)).oneCall h

/-! ## No lost wake-up -/

/-- The condition on a step: the later of the two notifications, that of `stop` and that of the
reader, finds no thread between its test of `_stop` and its block on `_cv`. -/
def NoneAboutToBlock (s : State τ) : Action τ → Prop
  | .call c => s.call c = .stop .notify ∧ s.reader = .done → ∀ c', s.call c' ≠ .wait .block
  | .reader _ =>
    s.reader = .notify ∧ s.stopNotified = true → ∀ c', s.call c' ≠ .wait .block
  | _ => True

instance NoneAboutToBlock.decidable [Fintype τ] (s : State τ) :
    (a : Action τ) → Decidable (NoneAboutToBlock s a)
  | .call c => inferInstanceAs (Decidable
      (s.call c = .stop .notify ∧ s.reader = .done → ∀ c', s.call c' ≠ .wait .block))
  | .reader _ => inferInstanceAs (Decidable
      (s.reader = .notify ∧ s.stopNotified = true → ∀ c', s.call c' ≠ .wait .block))
  | .stop _ | .wait _ | .wake _ => isTrue trivial

/-- After both notifications no thread is blocked or about to be. -/
structure Awake (s : State τ) : Prop where
  oneCall : OneCall s
  awake : s.stopNotified = true → s.reader = .done →
    ∀ c, s.call c ≠ .wait .block ∧ s.call c ≠ .wait .blocked

theorem CallPc.woken_ne {pc : CallPc} (h : pc ≠ .wait .block) :
    pc.woken ≠ .wait .block ∧ pc.woken ≠ .wait .blocked := by
  unfold CallPc.woken
  split
  · simp
  · rename_i hblocked
    exact ⟨h, fun hcontra => hblocked hcontra⟩

/-- A caller that moves to a place that is not one of the two changes nothing. -/
theorem awake_setCall {c : Caller τ} {pc : CallPc} (hblock : pc ≠ .wait .block)
    (hblocked : pc ≠ .wait .blocked)
    (h : ∀ c, s.call c ≠ .wait .block ∧ s.call c ≠ .wait .blocked) (c' : Caller τ) :
    (s.setCall c pc).call c' ≠ .wait .block ∧ (s.setCall c pc).call c' ≠ .wait .blocked := by
  by_cases hc : c' = c
  · subst hc
    rw [setCall_self]
    exact ⟨hblock, hblocked⟩
  · rw [setCall_of_ne s hc]
    exact h c'

theorem Awake.step (s : State τ) (a : Action τ) (s' : State τ) (h : Awake s)
    (hguard : OneStop s a ∧ NoneAboutToBlock s a) (hstep : step s a = some s') : Awake s' := by
  have hstep := (Step.of_step hstep).2
  refine ⟨h.oneCall.step hguard.1 hstep, ?_⟩
  intro hnotified hdone
  cases hstep with
  | reader result pc hpc _ =>
    have hpc' : pc = .done := hdone
    subst hpc'
    have hnotify : s.reader = .notify := ReaderPc.eq_notify_of_next hpc
    rw [(SameStop.readerAt hpc).stopNotified] at hnotified
    intro c
    rw [State.readerAt, if_pos hnotify]
    exact CallPc.woken_ne (hguard.2 ⟨hnotify, hnotified⟩ c)
  | readerFault result fault _ _ => exact h.awake hnotified hdone
  | stop c _ => exact awake_setCall (by simp) (by simp) (h.awake hnotified hdone)
  | wait c _ => exact awake_setCall (by simp) (by simp) (h.awake hnotified hdone)
  | stopCall c pc _ hpc hstop =>
    cases hstop with
    | notify =>
      have hnone := hguard.2 ⟨hpc, hdone⟩
      exact awake_setCall (s := s.notifyAll) (by simp) (by simp)
        fun c' => CallPc.woken_ne (hnone c')
    | haltFault _ => exact h.awake hnotified hdone
    | _ => exact awake_setCall (by simp) (by simp) (h.awake hnotified hdone)
  | waitCall c pc _ hpc hwait =>
    cases hwait with
    | stays hstop =>
      rw [h.oneCall.stop hnotified] at hstop
      cases hstop
    | block => exact absurd hpc (h.awake hnotified hdone c).1
    | _ => exact awake_setCall (by simp) (by simp) (h.awake hnotified hdone)
  | wake c _ => exact awake_setCall (by simp) (by simp) (h.awake hnotified hdone)

/-- A call of `stop` at its join comes to its end when `do_read` has ended: the join throws, or it
returns and the resets follow. -/
theorem exists_join_end {c : Caller τ} (hfault : s.fault = none) (hpc : s.call c = .stop .join)
    (hreader : s.reader = .done) :
    ∃ as u, run BasicConsumer.step s as = some u ∧ u.reader = .done ∧
      u.stopCalls = s.stopCalls ∧ u.call = Function.update s.call c .idle := by
  by_cases hth : s.bc.th = none
  · refine ⟨[.call c], ?_⟩
    simp [run, BasicConsumer.step, State.stopStep, State.threw, State.setCall, hfault, hpc, hth,
      hreader]
  · by_cases hc : c = .reader
    · subst hc
      refine ⟨[.call .reader], ?_⟩
      simp [run, BasicConsumer.step, State.stopStep, State.threw, State.setCall, hfault, hpc, hth,
        hreader]
    · refine ⟨List.replicate 4 (.call c), ?_⟩
      simp [run, BasicConsumer.step, State.stopStep, State.tore, State.stopReturned,
        State.setCall, hfault, hpc, hth, hc, hreader]

/-- A call of `stop` that has notified comes to its end when `do_read` has ended, and the other
calls stay where they are. -/
theorem exists_stop_end {c : Caller τ} {pc : StopPc} (hfault : s.fault = none)
    (hpc : s.call c = .stop pc) (hnotified : pc.notified = true) (hconsumer : s.bc.consumer ≠ none)
    (hreader : s.reader = .done) :
    ∃ as u, run BasicConsumer.step s as = some u ∧ u.reader = .done ∧
      u.stopCalls = s.stopCalls ∧ u.call = Function.update s.call c .idle := by
  cases pc with
  | test => cases hnotified
  | store => cases hnotified
  | notify => cases hnotified
  | halt =>
    obtain ⟨as, u, hrun, hdone, hcalls, hcall⟩ := exists_join_end
      (s := s.tore c .halt s.bc .join) hfault (setCall_self s c _) hreader
    refine ⟨.call c :: as, u, ?_, hdone, hcalls, ?_⟩
    · rw [run_cons_eq_some]
      refine ⟨_, ?_, hrun⟩
      simp [BasicConsumer.step, State.stopStep, hfault, hpc, hconsumer]
    · rw [hcall]
      simp [State.tore, State.setCall]
  | join => exact exists_join_end hfault hpc hreader
  | resetQueue =>
    refine ⟨List.replicate 3 (.call c), ?_⟩
    simp [run, BasicConsumer.step, State.stopStep, State.tore, State.stopReturned, State.setCall,
      hfault, hpc, hreader]
  | resetTopic =>
    refine ⟨List.replicate 2 (.call c), ?_⟩
    simp [run, BasicConsumer.step, State.stopStep, State.tore, State.stopReturned, State.setCall,
      hfault, hpc, hreader]
  | resetConsumer =>
    refine ⟨[.call c], ?_⟩
    simp [run, BasicConsumer.step, State.stopStep, State.stopReturned, State.setCall, hfault, hpc,
      hreader]

/-- When both notifications have been made, a thread about to block is left blocked. -/
theorem exists_blocked (h : OneCall s) (hfault : s.fault = none) (hnotified : s.stopNotified = true)
    (hreader : s.reader = .done) {c : Caller τ} (hc : s.call c = .wait .block) :
    ∃ as u, run BasicConsumer.step s as = some u ∧ u.stopCalls = s.stopCalls ∧ StopFinished u ∧
      u.reader = .done ∧ ∃ c, u.call c = .wait .blocked := by
  have hbegun : s.stopCalls ≠ 0 := by
    intro hzero
    have hfalse := (h.notCalled hzero).2.1
    rw [hnotified] at hfalse
    cases hfalse
  -- the waiter blocks
  let v : State τ := { s.setCall c (.wait .blocked) with mx := none }
  have hblock : BasicConsumer.step s (.call c) = some v := by
    simp [BasicConsumer.step, State.waitStep, hfault, hc, v]
  have hcall : ∀ c' p, v.call c' = .stop p ↔ s.call c' = .stop p := by
    intro c' p
    exact (SameStop.setCall (s := s) (c := c) (by simp [hc]) (by simp)).call c' p
  by_cases hidle : ∀ c' p, s.call c' ≠ .stop p
  · refine ⟨[.call c], v, run_singleton hblock, rfl, ⟨hbegun, ?_⟩, hreader, c,
      setCall_self s c _⟩
    intro c' p hp
    exact hidle c' p ((hcall c' p).mp hp)
  · -- `stop` comes to its end
    push Not at hidle
    obtain ⟨c', p, hp⟩ := hidle
    obtain ⟨-, hflag, hconsumer⟩ := h.inProgress c' p hp
    have hne : c ≠ c' := by
      rintro rfl
      cases hc.symm.trans hp
    obtain ⟨as, u, hrun, hdone, hcalls, hall⟩ := exists_stop_end (s := v) hfault
      ((hcall c' p).mpr hp) (hflag.symm.trans hnotified) hconsumer hreader
    refine ⟨.call c :: as, u, run_cons_eq_some.mpr ⟨v, hblock, hrun⟩, hcalls, ⟨?_, ?_⟩, hdone, c,
      ?_⟩
    · rw [hcalls]
      exact hbegun
    · intro c₀ p₀ hp₀
      rw [hall] at hp₀
      by_cases hc₀ : c₀ = c'
      · subst hc₀
        simp at hp₀
      · rw [Function.update_of_ne hc₀] at hp₀
        exact hc₀ (h.sole c₀ c' p₀ p ((hcall c₀ p₀).mp hp₀) hp)
    · rw [hall, Function.update_of_ne hne]
      exact setCall_self s c _

/-- The condition is no stronger than needed: a step that breaks it leads, without a further call of
`stop`, to a thread that is blocked when `stop` and `do_read` have finished. -/
theorem exists_blocked_of_break {a : Action τ} (h : OneCall s) (hbreak : ¬ NoneAboutToBlock s a)
    (hstep : BasicConsumer.step s a = some s') :
    ∃ as u, run BasicConsumer.step s' as = some u ∧ u.stopCalls = s'.stopCalls ∧ StopFinished u ∧
      u.reader = .done ∧ ∃ c, u.call c = .wait .blocked := by
  obtain ⟨hfault, hstep⟩ := Step.of_step hstep
  cases hstep with
  | reader result pc hpc hcallback =>
    simp only [NoneAboutToBlock, Classical.not_imp, not_forall, not_not] at hbreak
    obtain ⟨⟨hnotify, hnotified⟩, c, hc⟩ := hbreak
    have hv := h.step (a := .reader result) trivial (.reader result pc hpc hcallback)
    rw [hnotify] at hpc
    cases hpc
    refine exists_blocked hv ?_ ?_ rfl (c := c) ?_
    · simp [State.readerAt, State.notifyAll, hnotify, hfault]
    · simp [State.readerAt, State.notifyAll, hnotify, hnotified]
    · simp [State.readerAt, State.notifyAll, hnotify, hc, CallPc.woken]
  | stopCall c pc _ hpc hstop =>
    simp only [NoneAboutToBlock, Classical.not_imp, not_forall, not_not] at hbreak
    obtain ⟨⟨hnotify, hdone⟩, c', hc'⟩ := hbreak
    have hv := h.step (a := .call c) trivial (.stopCall c pc _ hpc hstop)
    cases hpc.symm.trans hnotify
    cases hstop
    have hne : c' ≠ c := by
      rintro rfl
      cases hc'.symm.trans hnotify
    refine exists_blocked hv hfault rfl hdone (c := c') ?_
    simp [State.setCall, State.notifyAll, hne, hc', CallPc.woken]
  | readerFault result fault hpc _ => simp [NoneAboutToBlock, hpc] at hbreak
  | waitCall c pc _ hpc _ => simp [NoneAboutToBlock, hpc] at hbreak
  | _ => exact absurd trivial hbreak

end Steps

theorem awake_launched {bc : Members} (h : bc.Ready) : Awake (launched τ bc) := by
  have hidle : ∀ c p, (launched τ bc).call c ≠ .stop p := fun c p hp => by cases hp
  refine ⟨⟨fun _ => ⟨h.stop, rfl, h.consumer, hidle⟩, ?_, ?_, ?_, ?_⟩, ?_⟩
  · intro c c' p p' hp
    exact absurd hp (hidle c p)
  · intro c p hp
    exact absurd hp (hidle c p)
  · intro hcalls
    exact absurd rfl hcalls
  · intro hnotified
    cases hnotified
  · intro hnotified
    cases hnotified

/-- In a run with one call of `stop` whose steps all meet the condition, no thread is blocked in
`wait` when `stop` and `do_read` have both finished; and from a step that breaks the condition on a
run leads, without a further call of `stop`, to a thread that is. -/
theorem no_lost_wakeup [DecidableEq τ] (w : World) (hw : Started w) (as : List (Action τ))
    (s : State τ) (hone : Meets step OneStop (launched τ w.bc) as)
    (hmeets : Meets step NoneAboutToBlock (launched τ w.bc) as)
    (hrun : run step (launched τ w.bc) as = some s) :
    (¬ (StopFinished s ∧ s.reader = .done ∧ ∃ c, s.call c = .wait .blocked)) ∧
      ∀ a s', ¬ NoneAboutToBlock s a → step s a = some s' →
        ∃ bs t, run step s' bs = some t ∧ t.stopCalls = s'.stopCalls ∧ StopFinished t ∧
          t.reader = .done ∧ ∃ c, t.call c = .wait .blocked := by
  have h := run_invariant_of_meets Awake.step (hone.and hmeets) hrun (awake_launched hw.ready)
  refine ⟨?_, fun a s' hbreak hstep => exists_blocked_of_break h.oneCall hbreak hstep⟩
  rintro ⟨⟨hcalls, hidle⟩, hdone, c, hblocked⟩
  exact (h.awake (h.oneCall.finished hcalls hidle) hdone c).2 hblocked

/-- The thread `false` has called `wait` and read `_stop` as false. -/
def aboutToBlock : List (Action Bool) :=
  [.wait (.thread false), .call (.thread false), .call (.thread false)]

/-- The thread `true` calls `stop`, and the reader ends. -/
def stopUntilReaderDone : List (Action Bool) :=
  .stop (.thread true) :: List.replicate 3 (.call (.thread true)) ++
    List.replicate 2 (.reader none)

/-- The waiter blocks after both notifications. -/
theorem lost_wakeup :
    ¬ ∀ as s, Meets step OneStop (launched Bool startedOnce.bc) as → twoThreads as = some s →
      ¬ (StopFinished s ∧ s.reader = .done ∧ ∃ c, s.call c = .wait .blocked) := by
  intro hclaim
  have hnot := hclaim (aboutToBlock ++ stopUntilReaderDone ++ .call (.thread false) ::
    List.replicate 5 (.call (.thread true))) _ (by decide) rfl
  refine hnot ⟨⟨by decide, ?_⟩, rfl, .thread false, rfl⟩
  intro c p hp
  match c with
  | .reader => cases hp
  | .thread true => cases hp
  | .thread false => cases hp

/-- The condition at a waiter that is blocked before `stop` is called. -/
theorem no_lost_wakeup_blocked_before :
    ∃ s, twoThreads (aboutToBlock ++ .call (.thread false) :: stopUntilReaderDone ++
        List.replicate 5 (.call (.thread true))) = some s ∧
      ¬ (StopFinished s ∧ s.reader = .done ∧ ∃ c, s.call c = .wait .blocked) :=
  ⟨_, rfl, (no_lost_wakeup startedOnce startedOnce_started (aboutToBlock ++
    .call (.thread false) :: stopUntilReaderDone ++ List.replicate 5 (.call (.thread true))) _
    (by decide) (by decide) rfl).1⟩

/-! ## Callbacks after `wait` -/

/-- The condition on a step: `wait` returns when the reader holds no message for the callback, and
from then on `consume` gives it none. -/
def QuietReturn (s : State τ) : Action τ → Prop
  | .call c => s.call c = .wait .ret → s.reader.pending = none
  | .reader result => s.waitReturns ≠ 0 → s.reader = .consume → readable result = none
  | _ => True

instance QuietReturn.decidable (s : State τ) : (a : Action τ) → Decidable (QuietReturn s a)
  | .call c => inferInstanceAs (Decidable (s.call c = .wait .ret → s.reader.pending = none))
  | .reader result => inferInstanceAs (Decidable
      (s.waitReturns ≠ 0 → s.reader = .consume → readable result = none))
  | .stop _ | .wait _ | .wake _ => isTrue trivial

/-- Who leaves `wait` has read `_stop` as true; after that the reader holds no message for the
callback. -/
structure Quieted (s : State τ) : Prop where
  leaving : ∀ c, s.call c = .wait .ret → s.bc.stop = true
  returned : s.waitReturns ≠ 0 → s.bc.stop = true ∧ s.reader.pending = none

section Steps

variable [DecidableEq τ] {s s' : State τ}

theorem Step.stop_mono {a : Action τ} (h : Step s a s') (hstop : s.bc.stop = true) :
    s'.bc.stop = true := by
  cases h with
  | reader result pc hpc _ =>
    rw [(SameStop.readerAt hpc).bc]
    exact hstop
  | stopCall c pc _ _ hstep => cases hstep <;> first | exact hstop | rfl
  | waitCall c pc _ _ hstep => cases hstep <;> exact hstop
  | _ => exact hstop

theorem setCall_eq_ret {c c' : Caller τ} {pc : CallPc} (hpc : pc ≠ .wait .ret)
    (h : (s.setCall c pc).call c' = .wait .ret) : s.call c' = .wait .ret := by
  rcases setCall_eq h with ⟨-, hret⟩ | ⟨-, hold⟩
  · exact absurd hret hpc
  · exact hold

theorem CallPc.woken_eq_ret {pc : CallPc} (h : pc.woken = .wait .ret) : pc = .wait .ret := by
  unfold CallPc.woken at h
  split at h
  · cases h
  · exact h

/-- A caller that leaves `wait` was leaving it before or has just read `_stop` as true. -/
theorem Step.leaving {a : Action τ} (h : Step s a s') {c : Caller τ}
    (hret : s'.call c = .wait .ret) : s.call c = .wait .ret ∨ s.bc.stop = true := by
  cases h with
  | reader result pc _ _ =>
    unfold State.readerAt at hret
    split at hret
    · exact .inl (CallPc.woken_eq_ret hret)
    · exact .inl hret
  | readerFault result fault _ _ => exact .inl hret
  | stopCall c₀ pc _ _ hstep =>
    cases hstep with
    | notify => exact .inl (CallPc.woken_eq_ret (setCall_eq_ret (by simp) hret))
    | haltFault _ => exact .inl hret
    | _ => exact .inl (setCall_eq_ret (by simp) hret)
  | waitCall c₀ pc _ _ hstep =>
    cases hstep with
    | leaves hstop => exact .inr hstop
    | _ => exact .inl (setCall_eq_ret (by simp) hret)
  | _ => exact .inl (setCall_eq_ret (by simp) hret)

/-- A reader that holds no message, reads `_stop` as true and gets nothing from `consume` holds no
message afterwards. -/
theorem ReaderPc.pending_next {pc pc' : ReaderPc} {result : Option Message}
    (hpending : pc.pending = none) (hresult : pc = .consume → readable result = none)
    (h : pc.next true result = some pc') : pc'.pending = none := by
  cases pc with
  | consume =>
    cases h
    exact hresult rfl
  | got result' =>
    rw [ReaderPc.pending] at hpending
    rw [ReaderPc.next_got, hpending] at h
    cases h
    rfl
  | callback msg => cases hpending
  | _ =>
    cases h
    try rfl

theorem Quieted.step (s : State τ) (a : Action τ) (s' : State τ) (h : Quieted s)
    (hguard : QuietReturn s a) (hstep : step s a = some s') : Quieted s' := by
  have hstep := (Step.of_step hstep).2
  constructor
  · intro c hret
    rcases hstep.leaving hret with hold | hstop
    · exact hstep.stop_mono (h.leaving c hold)
    · exact hstep.stop_mono hstop
  · intro hreturned
    cases hstep with
    | reader result pc hpc hcallback =>
      have hsame : (s.readerAt pc).waitReturns = s.waitReturns := by
        unfold State.readerAt
        split <;> rfl
      rw [hsame] at hreturned
      obtain ⟨hstop, hpending⟩ := h.returned hreturned
      refine ⟨(Step.reader result pc hpc hcallback).stop_mono hstop, ?_⟩
      rw [hstop] at hpc
      exact ReaderPc.pending_next hpending (hguard hreturned) hpc
    | stopCall c pc _ hpc hstop =>
      have hold : s.waitReturns ≠ 0 ∧ s'.reader = s.reader := by
        cases hstop <;> exact ⟨hreturned, rfl⟩
      obtain ⟨hraised, hpending⟩ := h.returned hold.1
      rw [hold.2]
      exact ⟨(Step.stopCall c pc s' hpc hstop).stop_mono hraised, hpending⟩
    | waitCall c pc _ hpc hwait =>
      cases hwait with
      | ret => exact ⟨h.leaving c hpc, hguard hpc⟩
      | _ => exact h.returned hreturned
    | _ => exact h.returned hreturned

/-- A reader that holds a message for the callback can begin the callback. -/
theorem exists_callback_of_pending (hfault : s.fault = none) (hpending : s.reader.pending ≠ none) :
    ∃ as u, run BasicConsumer.step s as = some u ∧ u.waitReturns = s.waitReturns ∧
      u.reader.inCallback = true := by
  cases hreader : s.reader with
  | callback msg => exact ⟨[], s, rfl, rfl, by rw [hreader]; rfl⟩
  | got result =>
    rw [hreader, ReaderPc.pending] at hpending
    obtain ⟨msg, hread⟩ := Option.ne_none_iff_exists'.mp hpending
    refine ⟨[.reader none], ?_⟩
    simp [run, BasicConsumer.step, State.readerStep, State.readerAt, ReaderPc.next_got,
      ReaderPc.inCallback, hfault, hreader, hread]
  | _ => exact absurd rfl (hreader ▸ hpending)

/-- The condition is no stronger than needed: a step that breaks it leads to a callback after a
`wait` has returned. -/
theorem exists_callback_of_not_quietReturn {a : Action τ} (hbreak : ¬ QuietReturn s a)
    (hstep : BasicConsumer.step s a = some s') (hgoes : s'.fault = none) :
    ∃ as u, run BasicConsumer.step s' as = some u ∧ u.waitReturns ≠ 0 ∧
      u.reader.inCallback = true := by
  obtain ⟨hfault, hstep⟩ := Step.of_step hstep
  cases hstep with
  | reader result pc hpc _ =>
    simp only [QuietReturn, Classical.not_imp] at hbreak
    obtain ⟨hreturned, hconsume, hreadable⟩ := hbreak
    rw [hconsume] at hpc
    cases hpc
    have hat : s.readerAt (.got result) = { s with reader := .got result } := by
      simp [State.readerAt, hconsume, ReaderPc.inCallback]
    rw [hat]
    obtain ⟨as, u, hu, hsame, hcallback⟩ :=
      exists_callback_of_pending (s := { s with reader := .got result }) hfault hreadable
    exact ⟨as, u, hu, hsame ▸ hreturned, hcallback⟩
  | waitCall c pc _ hpc hwait =>
    simp only [QuietReturn, Classical.not_imp] at hbreak
    obtain ⟨hret, hpending⟩ := hbreak
    cases hpc.symm.trans hret
    cases hwait
    obtain ⟨as, u, hu, hsame, hcallback⟩ := exists_callback_of_pending
      (s := { s.setCall c .idle with mx := none, waitReturns := s.waitReturns + 1 }) hfault hpending
    exact ⟨as, u, hu, hsame ▸ Nat.succ_ne_zero _, hcallback⟩
  | readerFault result fault _ _ => cases hgoes
  | stopCall c pc _ hpc _ =>
    simp [QuietReturn, hpc] at hbreak
  | _ => exact absurd trivial hbreak

end Steps

theorem quieted_launched (bc : Members) : Quieted (launched τ bc) := by
  constructor
  · intro c hret
    cases hret
  · intro hreturned
    exact absurd rfl hreturned

/-- In a run whose steps all meet the condition, no callback is in progress once a `wait` has
returned; and from a step that breaks the condition on a run leads to one that is. -/
theorem no_callback_after_wait [DecidableEq τ] (w : World) (as : List (Action τ)) (s : State τ)
    (hmeets : Meets step QuietReturn (launched τ w.bc) as)
    (hrun : run step (launched τ w.bc) as = some s) :
    (s.waitReturns ≠ 0 → s.reader.inCallback = false) ∧
      ∀ a s', ¬ QuietReturn s a → step s a = some s' → s'.fault = none →
        ∃ bs t, run step s' bs = some t ∧ t.waitReturns ≠ 0 ∧ t.reader.inCallback = true := by
  refine ⟨?_, fun a s' => exists_callback_of_not_quietReturn⟩
  intro hreturned
  have h := run_invariant_of_meets Quieted.step hmeets hrun (quieted_launched w.bc)
  have hpending := (h.returned hreturned).2
  cases hreader : s.reader with
  | callback msg =>
    rw [hreader] at hpending
    cases hpending
  | _ => rfl

/-- A waiter returns while the reader is in the callback. -/
theorem callback_after_wait :
    ¬ ∀ as s, Meets step OneStop (launched Bool startedOnce.bc) as → twoThreads as = some s →
      s.waitReturns ≠ 0 → s.reader.inCallback = false := by
  intro hclaim
  have hnot := hclaim [.reader none, .reader (some ⟨.ERR_NO_ERROR, [1], 5⟩), .reader none,
    .wait (.thread false), .call (.thread false), .stop (.thread true), .call (.thread true),
    .call (.thread true), .call (.thread false), .call (.thread false)] _ (by decide) rfl
    (by decide)
  cases hnot

/-- The condition at a waiter that returns when the reader has ended. -/
theorem no_callback_after_wait_reader_done :
    ∃ s, twoThreads (stopUntilReaderDone ++ .wait (.thread false) ::
        List.replicate 3 (.call (.thread false))) = some s ∧ s.reader.inCallback = false :=
  ⟨_, rfl, (no_callback_after_wait startedOnce (stopUntilReaderDone ++
    .wait (.thread false) :: List.replicate 3 (.call (.thread false))) _ (by decide) rfl).1
    (by decide)⟩

end TsKafka.BasicConsumer
