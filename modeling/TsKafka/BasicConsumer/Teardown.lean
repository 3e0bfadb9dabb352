import TsKafka.BasicConsumer.Threads
import TsKafka.BasicConsumer.Lifecycle

/-!
# The teardown that `stop` carries out

`stop` guards its body with a read of `_stop` and a later write. As long as one call has the body
to itself the consumer goes through three phases: it runs, one call tears it down, it is stopped.
The file says when that is so for calls from any threads, and that it always is when one thread
makes all the calls.
-/

namespace TsKafka.BasicConsumer
open RdKafka PartialRun

/-- The object after a `start` that returned true, when other calls of `start` before it failed. -/
def Started (w : World) : Prop :=
  ∃ rb h v env sa errstr errstr', exec (World.fresh rb) h = .ok v ∧ (∀ op ∈ h, op.Fails) ∧
    start env v sa errstr = .ok (true, w, errstr')

/-- The members of a running consumer. -/
structure Members.Ready (bc : Members) : Prop where
  stop : bc.stop = false
  th : bc.th ≠ none
  consumer : bc.consumer ≠ none
  queue : bc.queue ≠ none

theorem Started.ready {w : World} (h : Started w) : w.bc.Ready := by
  obtain ⟨rb, h, v, env, sa, errstr, errstr', hexec, hfails, hstart⟩ := h
  have hrunning : v.bc.stop = false := by
    rw [Bool.eq_false_iff, ne_eq, (exec_tracks hexec).stop]
    intro hstop
    exact hfails .stop hstop
  obtain ⟨gconf, rfl⟩ := start_ok_true hstart
  exact ⟨hrunning, Option.some_ne_none _, Option.some_ne_none _, Option.some_ne_none _⟩

/-- The teardown in the order of `stop`'s body. -/
def teardownOrder : List Teardown := [.halt, .join, .resetQueue, .resetTopic, .resetConsumer]

/-- The teardown by the time a call that has it to itself is at a place. -/
def StopPc.teardown : StopPc → List Teardown
  | .test | .store | .notify | .halt => []
  | .join => [.halt]
  | .resetQueue => [.halt, .join]
  | .resetTopic => [.halt, .join, .resetQueue]
  | .resetConsumer => [.halt, .join, .resetQueue, .resetTopic]

/-- The members at that moment, when they were `bc` before. -/
def StopPc.members (bc : Members) : StopPc → Members
  | .test | .store => bc
  | .notify | .halt | .join => { bc with stop := true }
  | .resetQueue => { bc with stop := true, th := none }
  | .resetTopic => { bc with stop := true, th := none, queue := none }
  | .resetConsumer => { bc with stop := true, th := none, queue := none, topic := none }

/-- The members after the teardown. -/
def Members.tornDown (bc : Members) : Members :=
  { bc with stop := true, th := none, queue := none, topic := none, consumer := none }

/-- The call has stored `_stop`. -/
def StopPc.stored : StopPc → Bool
  | .test | .store => false
  | _ => true

/-- The call has joined the reader. -/
def StopPc.joined : StopPc → Bool
  | .resetQueue | .resetTopic | .resetConsumer => true
  | _ => false

theorem StopPc.teardown_le (pc : StopPc) : pc.teardown <+: teardownOrder := by
  cases pc <;> decide

theorem StopPc.members_stop {bc : Members} {pc : StopPc} (h : pc.stored = true) :
    (pc.members bc).stop = true := by
  cases pc <;> first | rfl | cases h

/-- Until it has joined the reader, `stop` leaves the handles of the reader alone. -/
theorem StopPc.members_of_not_joined (bc : Members) {pc : StopPc} (h : pc.joined = false) :
    (pc.members bc).th = bc.th ∧ (pc.members bc).consumer = bc.consumer ∧
      (pc.members bc).queue = bc.queue := by
  cases pc <;> first | exact ⟨rfl, rfl, rfl⟩ | cases h

variable {τ : Type}

/-! ## Three phases -/

/-- No call of `stop` has stored `_stop`. -/
structure Running (bc : Members) (s : State τ) : Prop where
  bc : s.bc = bc
  teardown : s.teardown = []
  calls : ∀ c pc, s.call c = .stop pc → pc = .test ∨ pc = .store ∧ c ≠ .reader
  sole : ∀ c c', s.call c = .stop .store → s.call c' = .stop .store → c = c'
  begun : s.stopCalls = 0 ∨ ∃ c pc, s.call c = .stop pc
  returns : s.stopReturns = []

/-- The call of `c` carries out the teardown and is at `pc`. -/
structure TearingDown (bc : Members) (s : State τ) (c : Caller τ) (pc : StopPc) : Prop where
  caller : c ≠ .reader
  call : s.call c = .stop pc
  stored : pc.stored = true
  others : ∀ c' pc', s.call c' = .stop pc' → c' ≠ c → pc' = .test
  bc : s.bc = pc.members bc
  teardown : s.teardown = pc.teardown
  joined : pc.joined = true → s.reader = .done

/-- The teardown is over. -/
structure Stopped (bc : Members) (s : State τ) : Prop where
  bc : s.bc = bc.tornDown
  teardown : s.teardown = teardownOrder
  calls : ∀ c pc, s.call c = .stop pc → pc = .test
  reader : s.reader = .done

inductive Phase (bc : Members) (s : State τ) : Prop
  | running (h : Running bc s)
  | tearingDown (c : Caller τ) (pc : StopPc) (h : TearingDown bc s c pc)
  | stopped (h : Stopped bc s)

/-- A started consumer with at most one call of `stop` in its body at any time. -/
structure SoleTeardown (bc : Members) (s : State τ) : Prop where
  phase : Phase bc s
  fault : s.fault = none
  thrown : s.thrown = []
  returns : ∀ c ∈ s.stopReturns, c ≠ .reader → s.reader = .done

theorem soleTeardown_launched (bc : Members) : SoleTeardown bc (launched τ bc) := by
  refine ⟨.running ⟨rfl, rfl, ?_, ?_, .inl rfl, rfl⟩, rfl, rfl, ?_⟩
  · intro c pc hpc
    cases hpc
  · intro c c' hpc
    cases hpc
  · intro c hc
    cases hc

/-! ## Steps that do not concern `stop` -/

@[simp] theorem CallPc.woken_eq_stop {pc : CallPc} {p : StopPc} :
    pc.woken = .stop p ↔ pc = .stop p := by
  unfold CallPc.woken
  split <;> simp

/-- The two states differ in the calls of `wait` and in where the reader is, at most. -/
structure SameStop (s s' : State τ) : Prop where
  bc : s'.bc = s.bc
  call : ∀ c pc, s'.call c = .stop pc ↔ s.call c = .stop pc
  reader : s.reader = .done → s'.reader = .done
  fault : s'.fault = s.fault
  thrown : s'.thrown = s.thrown
  teardown : s'.teardown = s.teardown
  stopCalls : s'.stopCalls = s.stopCalls
  stopReturns : s'.stopReturns = s.stopReturns
  stopNotified : s'.stopNotified = s.stopNotified

namespace SameStop

variable {bc : Members} {s s' : State τ}

theorem running (hsame : SameStop s s') (h : Running bc s) : Running bc s' := by
  refine ⟨hsame.bc.trans h.bc, hsame.teardown.trans h.teardown, ?_, ?_, ?_,
    hsame.stopReturns.trans h.returns⟩
  · intro c pc hpc
    exact h.calls c pc ((hsame.call c pc).mp hpc)
  · intro c c' hc hc'
    exact h.sole c c' ((hsame.call c _).mp hc) ((hsame.call c' _).mp hc')
  · rcases h.begun with hzero | ⟨c, pc, hpc⟩
    · exact .inl (hsame.stopCalls.trans hzero)
    · exact .inr ⟨c, pc, (hsame.call c pc).mpr hpc⟩

theorem tearingDown (hsame : SameStop s s') {c : Caller τ} {pc : StopPc}
    (h : TearingDown bc s c pc) : TearingDown bc s' c pc := by
  refine ⟨h.caller, (hsame.call c pc).mpr h.call, h.stored, ?_, hsame.bc.trans h.bc,
    hsame.teardown.trans h.teardown, fun hjoined => hsame.reader (h.joined hjoined)⟩
  intro c' pc' hpc'
  exact h.others c' pc' ((hsame.call c' pc').mp hpc')

theorem stopped (hsame : SameStop s s') (h : Stopped bc s) : Stopped bc s' := by
  refine ⟨hsame.bc.trans h.bc, hsame.teardown.trans h.teardown, ?_, hsame.reader h.reader⟩
  intro c pc hpc
  exact h.calls c pc ((hsame.call c pc).mp hpc)

theorem soleTeardown (hsame : SameStop s s') (h : SoleTeardown bc s) : SoleTeardown bc s' := by
  refine ⟨?_, hsame.fault.trans h.fault, hsame.thrown.trans h.thrown, ?_⟩
  · cases h.phase with
    | running hphase => exact .running (hsame.running hphase)
    | tearingDown c pc hphase => exact .tearingDown c pc (hsame.tearingDown hphase)
    | stopped hphase => exact .stopped (hsame.stopped hphase)
  · intro c hc hcaller
    rw [hsame.stopReturns] at hc
    exact hsame.reader (h.returns c hc hcaller)

theorem readerAt {result : Option Message} {pc : ReaderPc}
    (hpc : s.reader.next s.bc.stop result = some pc) : SameStop s (s.readerAt pc) := by
  have hdone : s.reader ≠ .done := by
    intro hdone
    rw [hdone] at hpc
    cases hpc
  unfold State.readerAt
  split
  · exact ⟨rfl, fun c pc => CallPc.woken_eq_stop, fun h => absurd h hdone, rfl, rfl, rfl, rfl, rfl,
      rfl⟩
  · exact ⟨rfl, fun c pc => Iff.rfl, fun h => absurd h hdone, rfl, rfl, rfl, rfl, rfl,
      rfl⟩

variable [DecidableEq τ]

theorem setCall {c : Caller τ} {pc : CallPc} (hold : ∀ p, s.call c ≠ .stop p)
    (hnew : ∀ p, pc ≠ .stop p) : SameStop s (s.setCall c pc) := by
  refine ⟨rfl, fun c' p => ?_, id, rfl, rfl, rfl, rfl, rfl, rfl⟩
  by_cases hc : c' = c
  · subst hc
    simp [State.setCall, hold p, hnew p]
  · simp [State.setCall, hc]

theorem waitStep {c : Caller τ} {pc : WaitPc} (hpc : s.call c = .wait pc)
    (hstep : WaitStep s c pc s') : SameStop s s' := by
  have hset : ∀ pc', (∀ p, pc' ≠ .stop p) → SameStop s (s.setCall c pc') :=
    fun _ hnew => setCall (by simp [hpc]) hnew
  cases hstep with
  | lock _ => exact { hset (.wait .test) (by simp) with }
  | leaves _ => exact hset (.wait .ret) (by simp)
  | stays _ => exact hset (.wait .block) (by simp)
  | block => exact { hset (.wait .blocked) (by simp) with }
  | ret => exact { hset .idle (by simp) with }

end SameStop

/-! ## Steps of `stop` -/

section Steps

variable {bc : Members} {s s' : State τ}

/-- Among the calls of `stop` that have stored `_stop` there is only the one that tears down. -/
theorem Phase.tearingDown_of_stored {c : Caller τ} {pc : StopPc} (h : Phase bc s)
    (hpc : s.call c = .stop pc) (hstored : pc.stored = true) : TearingDown bc s c pc := by
  cases h with
  | running h =>
    rcases h.calls c pc hpc with rfl | ⟨rfl, -⟩ <;> cases hstored
  | tearingDown c' pc' h =>
    by_cases hc : c = c'
    · subst hc
      have hsame := h.call.symm.trans hpc
      cases hsame
      exact h
    · have htest := h.others c pc hpc hc
      rw [htest] at hstored
      cases hstored
  | stopped h =>
    have htest := h.calls c pc hpc
    rw [htest] at hstored
    cases hstored

/-- While `_stop` is false no call has stored it. -/
theorem Phase.running_of_not_stopped (h : Phase bc s) (hstop : s.bc.stop = false) :
    Running bc s := by
  cases h with
  | running h => exact h
  | tearingDown c pc h =>
    rw [h.bc, StopPc.members_stop h.stored] at hstop
    cases hstop
  | stopped h =>
    rw [h.bc] at hstop
    cases hstop

/-- A call that is about to store `_stop` is the first to do so. -/
theorem Phase.running_of_store {c : Caller τ} (h : Phase bc s) (hpc : s.call c = .stop .store) :
    Running bc s := by
  cases h with
  | running h => exact h
  | tearingDown c₀ pc h =>
    by_cases hc : c = c₀
    · subst hc
      cases h.call.symm.trans hpc
      cases h.stored
    · cases h.others c _ hpc hc
  | stopped h => cases h.calls c _ hpc

/-- The call that tears down goes on to `pc'`. -/
theorem TearingDown.advance {c : Caller τ} {pc pc' : StopPc} (h : TearingDown bc s c pc)
    (hstored : pc'.stored = true) (hcall : s'.call c = .stop pc')
    (hothers : ∀ c' p, c' ≠ c → (s'.call c' = .stop p ↔ s.call c' = .stop p))
    (hbc : s'.bc = pc'.members bc) (hteardown : s'.teardown = pc'.teardown)
    (hjoined : pc'.joined = true → s'.reader = .done) : TearingDown bc s' c pc' := by
  refine ⟨h.caller, hcall, hstored, ?_, hbc, hteardown, hjoined⟩
  intro c' p hp hc'
  exact h.others c' p ((hothers c' p hc').mp hp) hc'

variable [DecidableEq τ]

/-- The step of the teardown that `tore` describes. -/
theorem TearingDown.tore {c : Caller τ} {pc pc' : StopPc} {act : Teardown} {bc' : Members}
    (h : TearingDown bc s c pc) (hstored : pc'.stored = true)
    (hteardown : pc'.teardown = pc.teardown ++ [act]) (hbc : bc' = pc'.members bc)
    (hjoined : pc'.joined = true → s.reader = .done) :
    TearingDown bc (s.tore c act bc' pc') c pc' := by
  refine h.advance hstored (setCall_self s c _) ?_ hbc ?_ hjoined
  · intro c' p hc'
    rw [← setCall_of_ne s hc' (.stop pc')]
    rfl
  · rw [hteardown, ← h.teardown]
    rfl

/-- The calls in progress when the one of `c` has returned. -/
theorem stop_of_stopReturned {c c' : Caller τ} {p : StopPc}
    (hp : (s.stopReturned c).call c' = .stop p) : c' ≠ c ∧ s.call c' = .stop p := by
  rcases setCall_eq hp with ⟨-, hidle⟩ | ⟨hc, hold⟩
  · cases hidle
  · exact ⟨hc, hold⟩

/-- The calls in progress when `c` has begun one. -/
theorem stop_of_entered {c c' : Caller τ} {p : StopPc}
    (hp : (s.setCall c (.stop .test)).call c' = .stop p) : p = .test ∨ s.call c' = .stop p := by
  rcases setCall_eq hp with ⟨-, htest⟩ | ⟨-, hold⟩
  · cases htest
    exact .inl rfl
  · exact .inr hold

/-- The last step of the teardown. -/
theorem TearingDown.finish {c : Caller τ} (h : TearingDown bc s c .resetConsumer) :
    Stopped bc { s.stopReturned c with
      bc := { s.bc with consumer := none }
      teardown := s.teardown ++ [.resetConsumer] } := by
  refine ⟨?_, ?_, ?_, h.joined rfl⟩
  · show { s.bc with consumer := none } = bc.tornDown
    rw [h.bc]
    rfl
  · show s.teardown ++ [.resetConsumer] = teardownOrder
    rw [h.teardown]
    rfl
  · intro c' pc' hpc'
    obtain ⟨hc, hold⟩ := stop_of_stopReturned hpc'
    exact h.others c' pc' hold hc

/-- The condition on a step: a `stop` that reads `_stop` as false is not called by the reader and
finds no other call between its read and its write; one that reads it as true is called by the
reader or finds `do_read` ended. -/
def SoleStop (s : State τ) : Action τ → Prop
  | .call c => s.call c = .stop .test →
    (s.bc.stop = false → c ≠ .reader ∧ ∀ c', s.call c' ≠ .stop .store) ∧
      (s.bc.stop = true → c = .reader ∨ s.reader = .done)
  | _ => True

/-- A call of `stop` leaves the other calls of `stop` where they are. -/
theorem StopStep.call_of_ne {c c' : Caller τ} {pc p : StopPc} (h : StopStep s c pc s')
    (hc : c' ≠ c) : s'.call c' = .stop p ↔ s.call c' = .stop p := by
  cases h <;> simp [State.stopReturned, State.threw, State.tore, State.setCall, State.notifyAll, hc]

theorem Phase.enter (h : Phase bc s) {c : Caller τ} (hidle : s.call c = .idle) :
    Phase bc { s.setCall c (.stop .test) with stopCalls := s.stopCalls + 1 } := by
  cases h with
  | running h =>
    refine .running ⟨h.bc, h.teardown, ?_, ?_, .inr ⟨c, .test, setCall_self s c _⟩, h.returns⟩
    · intro c' p hp
      rcases stop_of_entered hp with rfl | hold
      · exact .inl rfl
      · exact h.calls c' p hold
    · intro c₁ c₂ h₁ h₂
      rcases stop_of_entered h₁ with htest | h₁
      · cases htest
      rcases stop_of_entered h₂ with htest | h₂
      · cases htest
      exact h.sole c₁ c₂ h₁ h₂
  | tearingDown c₀ pc h =>
    have hne : c₀ ≠ c := by
      rintro rfl
      cases hidle.symm.trans h.call
    refine .tearingDown c₀ pc ⟨h.caller, (setCall_of_ne s hne _).trans h.call, h.stored, ?_, h.bc,
      h.teardown, h.joined⟩
    intro c' p hp hc'
    rcases stop_of_entered hp with rfl | hold
    · rfl
    · exact h.others c' p hold hc'
  | stopped h =>
    refine .stopped ⟨h.bc, h.teardown, ?_, h.reader⟩
    intro c' p hp
    rcases stop_of_entered hp with rfl | hold
    · rfl
    · exact h.calls c' p hold

/-- A call that reads `_stop` as true returns. -/
theorem SoleTeardown.stopReturned (hbc : bc.Ready) (h : SoleTeardown bc s) {c : Caller τ}
    (hpc : s.call c = .stop .test) (hstop : s.bc.stop = true)
    (hguard : c = .reader ∨ s.reader = .done) : SoleTeardown bc (s.stopReturned c) := by
  refine ⟨?_, h.fault, h.thrown, ?_⟩
  · cases h.phase with
    | running hphase =>
      rw [hphase.bc, hbc.stop] at hstop
      cases hstop
    | tearingDown c₀ p hphase =>
      have hne : c₀ ≠ c := by
        rintro rfl
        cases hphase.call.symm.trans hpc
        cases hphase.stored
      exact .tearingDown c₀ p ⟨hphase.caller, (setCall_of_ne s hne _).trans hphase.call,
        hphase.stored, fun c' p' hp' => hphase.others c' p' (stop_of_stopReturned hp').2, hphase.bc,
        hphase.teardown, hphase.joined⟩
    | stopped hphase =>
      exact .stopped ⟨hphase.bc, hphase.teardown,
        fun c' p' hp' => hphase.calls c' p' (stop_of_stopReturned hp').2, hphase.reader⟩
  · intro c' hc' hcaller
    rcases List.mem_append.mp hc' with hold | hnew
    · exact h.returns c' hold hcaller
    · rw [List.mem_singleton] at hnew
      subst hnew
      exact hguard.resolve_left hcaller

/-- A call that reads `_stop` as false goes on to the store. -/
theorem SoleTeardown.proceeds (h : SoleTeardown bc s) {c : Caller τ}
    (hstop : s.bc.stop = false) (hcaller : c ≠ .reader)
    (hfirst : ∀ c', s.call c' ≠ .stop .store) : SoleTeardown bc (s.setCall c (.stop .store)) := by
  have hphase := h.phase.running_of_not_stopped hstop
  have hstore : ∀ c', (s.setCall c (.stop .store)).call c' = .stop .store → c' = c := by
    intro c' hc'
    rcases setCall_eq hc' with ⟨rfl, -⟩ | ⟨-, hold⟩
    · rfl
    · exact absurd hold (hfirst c')
  refine ⟨.running ⟨hphase.bc, hphase.teardown, ?_, ?_, .inr ⟨c, .store, setCall_self s c _⟩,
    hphase.returns⟩, h.fault, h.thrown, h.returns⟩
  · intro c' p hp
    rcases setCall_eq hp with ⟨rfl, hsame⟩ | ⟨-, hold⟩
    · cases hsame
      exact .inr ⟨rfl, hcaller⟩
    · exact hphase.calls c' p hold
  · intro c₁ c₂ h₁ h₂
    rw [hstore c₁ h₁, hstore c₂ h₂]

/-- The first store of `_stop` gives its call the teardown. -/
theorem SoleTeardown.store (h : SoleTeardown bc s) {c : Caller τ}
    (hpc : s.call c = .stop .store) :
    SoleTeardown bc { s.setCall c (.stop .notify) with bc := { s.bc with stop := true } } := by
  have hphase := h.phase.running_of_store hpc
  have hcaller : c ≠ .reader := by
    rcases hphase.calls c _ hpc with htest | ⟨-, hcaller⟩
    · cases htest
    · exact hcaller
  refine ⟨.tearingDown c .notify ⟨hcaller, setCall_self s c _, rfl, ?_, ?_, hphase.teardown, ?_⟩,
    h.fault, h.thrown, h.returns⟩
  · intro c' p hp hc'
    have hp : s.call c' = .stop p := (StopStep.store.call_of_ne hc').mp hp
    rcases hphase.calls c' p hp with htest | ⟨rfl, -⟩
    · exact htest
    · exact absurd (hphase.sole c' c hp hpc) hc'
  · show { s.bc with stop := true } = StopPc.members bc .notify
    rw [hphase.bc]
    rfl
  · intro hjoined
    cases hjoined

theorem SoleTeardown.stopStep (hbc : bc.Ready) (h : SoleTeardown bc s) {c : Caller τ}
    {pc : StopPc} (hguard : SoleStop s (.call c)) (hpc : s.call c = .stop pc)
    (hstep : StopStep s c pc s') : SoleTeardown bc s' := by
  cases hstep with
  | returns hstop => exact h.stopReturned hbc hpc hstop ((hguard hpc).2 hstop)
  | proceeds hstop =>
    obtain ⟨hcaller, hfirst⟩ := (hguard hpc).1 hstop
    exact h.proceeds hstop hcaller hfirst
  | store => exact h.store hpc
  | notify =>
    have hphase := h.phase.tearingDown_of_stored hpc rfl
    refine ⟨.tearingDown c .halt (hphase.advance rfl (setCall_self _ c _) ?_ hphase.bc
      hphase.teardown ?_), h.fault, h.thrown, h.returns⟩
    · intro c' p hc'
      exact StopStep.notify.call_of_ne hc'
    · intro hjoined
      cases hjoined
  | halt _ =>
    have hphase := h.phase.tearingDown_of_stored hpc rfl
    exact ⟨.tearingDown c .join (hphase.tore rfl rfl hphase.bc (by simp [StopPc.joined])),
      h.fault, h.thrown, h.returns⟩
  | haltFault hconsumer =>
    have hphase := h.phase.tearingDown_of_stored hpc rfl
    rw [hphase.bc] at hconsumer
    exact absurd hconsumer hbc.consumer
  | joinThrows e hthread =>
    have hphase := h.phase.tearingDown_of_stored hpc rfl
    rcases hthread with hnone | hreader
    · rw [hphase.bc] at hnone
      exact absurd hnone hbc.th
    · exact absurd hreader hphase.caller
  | join _ hreader =>
    have hphase := h.phase.tearingDown_of_stored hpc rfl
    refine ⟨.tearingDown c .resetQueue (hphase.tore rfl rfl ?_ fun _ => hreader), h.fault,
      h.thrown, h.returns⟩
    rw [hphase.bc]
    rfl
  | resetQueue =>
    have hphase := h.phase.tearingDown_of_stored hpc rfl
    refine ⟨.tearingDown c .resetTopic (hphase.tore rfl rfl ?_ fun _ => hphase.joined rfl),
      h.fault, h.thrown, h.returns⟩
    rw [hphase.bc]
    rfl
  | resetTopic =>
    have hphase := h.phase.tearingDown_of_stored hpc rfl
    refine ⟨.tearingDown c .resetConsumer (hphase.tore rfl rfl ?_ fun _ => hphase.joined rfl),
      h.fault, h.thrown, h.returns⟩
    rw [hphase.bc]
    rfl
  | resetConsumer =>
    have hphase := h.phase.tearingDown_of_stored hpc rfl
    refine ⟨.stopped hphase.finish, h.fault, h.thrown, ?_⟩
    intro c' _ _
    exact hphase.joined rfl

omit [DecidableEq τ] in
/-- The handles are there while the reader is in `consume`. -/
theorem SoleTeardown.handles (hbc : bc.Ready) (h : SoleTeardown bc s)
    (hreader : s.reader = .consume) : s.bc.consumer ≠ none ∧ s.bc.queue ≠ none := by
  cases h.phase with
  | running hphase =>
    rw [hphase.bc]
    exact ⟨hbc.consumer, hbc.queue⟩
  | tearingDown c pc hphase =>
    have hjoined : pc.joined = false := by
      by_contra hjoined
      have hdone := hphase.joined (by simpa using hjoined)
      rw [hreader] at hdone
      cases hdone
    obtain ⟨-, hconsumer, hqueue⟩ := StopPc.members_of_not_joined bc hjoined
    rw [hphase.bc, hconsumer, hqueue]
    exact ⟨hbc.consumer, hbc.queue⟩
  | stopped hphase =>
    rw [hphase.reader] at hreader
    cases hreader

theorem SoleTeardown.step (hbc : bc.Ready) (s : State τ) (a : Action τ) (s' : State τ)
    (h : SoleTeardown bc s) (hguard : SoleStop s a) (hstep : step s a = some s') :
    SoleTeardown bc s' := by
  cases (Step.of_step hstep).2 with
  | reader result pc hpc _ => exact (SameStop.readerAt hpc).soleTeardown h
  | readerFault result fault hpc hhandle =>
    obtain ⟨hconsumer, hqueue⟩ := h.handles hbc hpc
    rcases hhandle with hnone | hnone
    · exact absurd hnone hconsumer
    · exact absurd hnone hqueue
  | stop c hidle => exact ⟨h.phase.enter hidle, h.fault, h.thrown, h.returns⟩
  | wait c hidle =>
    exact (SameStop.setCall (by simp [hidle]) (by simp)).soleTeardown h
  | stopCall c pc _ hpc hstop => exact h.stopStep hbc hguard hpc hstop
  | waitCall c pc _ hpc hwait => exact (SameStop.waitStep hpc hwait).soleTeardown h
  | wake c hpc => exact (SameStop.setCall (by simp [hpc]) (by simp)).soleTeardown h

/-! ## Calls from any threads -/

/-- The teardown is carried out once and in order, no call goes through a handle that another call
has reset, no join fails, and no `stop` returns to another thread before `do_read` has ended. -/
structure TeardownOnce (s : State τ) : Prop where
  once : s.teardown <+: teardownOrder
  complete : s.stopCalls ≠ 0 → (∀ c pc, s.call c ≠ .stop pc) → s.teardown = teardownOrder
  fault : s.fault = none
  handles : s.reader = .consume → s.bc.consumer ≠ none ∧ s.bc.queue ≠ none
  joins : s.thrown = []
  returns : ∀ c ∈ s.stopReturns, c ≠ .reader → s.reader = .done

omit [DecidableEq τ] in
theorem SoleTeardown.teardownOnce (hbc : bc.Ready) (h : SoleTeardown bc s) : TeardownOnce s := by
  refine ⟨?_, ?_, h.fault, h.handles hbc, h.thrown, h.returns⟩
  · cases h.phase with
    | running hphase =>
      rw [hphase.teardown]
      exact List.nil_prefix
    | tearingDown c pc hphase =>
      rw [hphase.teardown]
      exact pc.teardown_le
    | stopped hphase => exact hphase.teardown ▸ List.prefix_refl _
  · intro hcalls hidle
    cases h.phase with
    | running hphase =>
      rcases hphase.begun with hzero | ⟨c, pc, hpc⟩
      · exact absurd hzero hcalls
      · exact absurd hpc (hidle c pc)
    | tearingDown c pc hphase => exact absurd hphase.call (hidle c pc)
    | stopped hphase => exact hphase.teardown

/-- A `stop` that the reader calls with `_stop` still false ends by joining itself. -/
theorem run_self_join (hfault : s.fault = none) (hconsumer : s.bc.consumer ≠ none)
    (hth : s.bc.th ≠ none) (hstore : s.call .reader = .stop .store) :
    ∃ u, run BasicConsumer.step s (List.replicate 4 (.call .reader)) = some u ∧ u.thrown ≠ [] := by
  simp [run, BasicConsumer.step, State.stopStep, State.setCall, State.tore, State.notifyAll,
    State.threw, hfault, hconsumer, hth, hstore]

/-- Two calls that have both read `_stop` as false both halt the client. -/
theorem run_two_halts {c c' : Caller τ} (hc : c' ≠ c) (hfault : s.fault = none)
    (hconsumer : s.bc.consumer ≠ none) (hstore : s.call c = .stop .store)
    (hstore' : s.call c' = .stop .store) :
    ∃ u, run BasicConsumer.step s
        (List.replicate 3 (.call c) ++ List.replicate 3 (.call c')) = some u ∧
      u.teardown = s.teardown ++ [.halt, .halt] := by
  simp [run, BasicConsumer.step, State.stopStep, State.setCall, State.tore, State.notifyAll,
    CallPc.woken, hfault, hconsumer, hstore, hstore', hc]

/-- The condition is no stronger than needed: a step that breaks it leads to a state in which the
teardown has gone wrong. -/
theorem SoleTeardown.exists_break (hbc : bc.Ready) {a : Action τ} (h : SoleTeardown bc s)
    (hbreak : ¬ SoleStop s a) (hstep : BasicConsumer.step s a = some s') :
    ∃ as u, run BasicConsumer.step s' as = some u ∧ ¬ TeardownOnce u := by
  cases a with
  | call c =>
    simp only [SoleStop, Classical.not_imp, not_and_or] at hbreak
    obtain ⟨hpc, hbreak⟩ := hbreak
    simp only [BasicConsumer.step, h.fault, hpc, Option.isSome_none, Bool.false_eq_true, if_false,
      State.stopStep, Option.some.injEq] at hstep
    subst hstep
    rcases hbreak with ⟨hstop, hbreak⟩ | ⟨hstop, hbreak⟩
    · have hphase := h.phase.running_of_not_stopped hstop
      have hconsumer : s.bc.consumer ≠ none := hphase.bc ▸ hbc.consumer
      have hth : s.bc.th ≠ none := hphase.bc ▸ hbc.th
      rw [hstop, if_neg Bool.false_ne_true]
      by_cases hc : c = .reader
      · subst hc
        obtain ⟨u, hu, hthrown⟩ := run_self_join (s := s.setCall .reader (.stop .store)) h.fault
          hconsumer hth (setCall_self _ _ _)
        exact ⟨_, u, hu, fun hgood => hthrown hgood.joins⟩
      · obtain ⟨c', hc'⟩ : ∃ c', s.call c' = .stop .store := by
          by_contra hnone
          exact hbreak.elim (· hc) (· fun c' hc' => hnone ⟨c', hc'⟩)
        have hne : c' ≠ c := by
          rintro rfl
          cases hpc.symm.trans hc'
        obtain ⟨u, hu, hteardown⟩ := run_two_halts (s := s.setCall c (.stop .store)) hne h.fault
          hconsumer (setCall_self _ _ _) ((setCall_of_ne s hne _).trans hc')
        refine ⟨_, u, hu, fun hgood => ?_⟩
        have honce := hgood.once
        have hnone : (s.setCall c (.stop .store)).teardown = [] := hphase.teardown
        rw [hteardown, hnone] at honce
        exact absurd honce (by decide)
    · rw [hstop, if_pos rfl]
      refine ⟨[], _, rfl, fun hgood => ?_⟩
      obtain ⟨hcaller, hreader⟩ := not_or.mp hbreak
      exact hreader (hgood.returns c (List.mem_append_right _ (List.mem_singleton_self c)) hcaller)
  | _ => exact absurd trivial hbreak

/-! ## Calls from one thread -/

/-- The condition on a step: only the thread `ctl` calls `stop`. -/
def ByController (ctl : τ) (_ : State τ) : Action τ → Prop
  | .stop c => c = .thread ctl
  | _ => True

theorem Stopped.step {a : Action τ} (h : Stopped bc s) (hstep : Step s a s') :
    Stopped bc s' ∧ s'.begun = s.begun := by
  cases hstep with
  | reader result pc hpc _ =>
    rw [h.reader] at hpc
    cases hpc
  | readerFault result fault hpc _ =>
    rw [h.reader] at hpc
    cases hpc
  | stop c hidle =>
    refine ⟨⟨h.bc, h.teardown, ?_, h.reader⟩, rfl⟩
    intro c' p hp
    rcases stop_of_entered hp with rfl | hold
    · rfl
    · exact h.calls c' p hold
  | wait c hidle => exact ⟨(SameStop.setCall (by simp [hidle]) (by simp)).stopped h, rfl⟩
  | stopCall c pc _ hpc hstop =>
    cases h.calls c pc hpc
    cases hstop with
    | returns _ =>
      refine ⟨⟨h.bc, h.teardown, ?_, h.reader⟩, rfl⟩
      exact fun c' p hp => h.calls c' p (stop_of_stopReturned hp).2
    | proceeds hrunning =>
      rw [h.bc] at hrunning
      cases hrunning
  | waitCall c pc _ hpc hwait =>
    refine ⟨(SameStop.waitStep hpc hwait).stopped h, ?_⟩
    cases hwait <;> rfl
  | wake c hpc => exact ⟨(SameStop.setCall (by simp [hpc]) (by simp)).stopped h, rfl⟩

/-- A started consumer that only the thread `ctl` stops. -/
structure Controlled (bc : Members) (ctl : τ) (s : State τ) : Prop where
  sole : SoleTeardown bc s
  caller : ∀ c pc, s.call c = .stop pc → c = .thread ctl
  returned : s.stopReturns ≠ [] → Stopped bc s

omit [DecidableEq τ] in
theorem controlled_launched (bc : Members) (ctl : τ) : Controlled bc ctl (launched τ bc) := by
  refine ⟨soleTeardown_launched bc, ?_, fun h => absurd rfl h⟩
  intro c pc hpc
  cases hpc

omit [DecidableEq τ] in
/-- A call that begins finds the consumer running or stopped. -/
theorem Controlled.phase_of_test {ctl : τ} {c : Caller τ} (h : Controlled bc ctl s)
    (hpc : s.call c = .stop .test) : Running bc s ∨ Stopped bc s := by
  cases h.sole.phase with
  | running hphase => exact .inl hphase
  | tearingDown c₀ pc hphase =>
    have hc : c₀ = c := (h.caller c₀ pc hphase.call).trans (h.caller c _ hpc).symm
    subst hc
    cases hphase.call.symm.trans hpc
    cases hphase.stored
  | stopped hphase => exact .inr hphase

omit [DecidableEq τ] in
/-- The calls of one thread do not get in each other's way. -/
theorem Controlled.soleStop (hbc : bc.Ready) {ctl : τ} (h : Controlled bc ctl s) (a : Action τ) :
    SoleStop s a := by
  cases a with
  | call c =>
    intro hpc
    have hc := h.caller c _ hpc
    constructor
    · intro _
      refine ⟨by simp [hc], ?_⟩
      intro c' hc'
      rw [hc, ← h.caller c' _ hc', hc'] at hpc
      cases hpc
    · intro hstop
      rcases h.phase_of_test hpc with hphase | hphase
      · rw [hphase.bc, hbc.stop] at hstop
        cases hstop
      · exact .inr hphase.reader
  | _ => trivial

/-- A call of `stop` is in progress because it was before or because it has just begun. -/
theorem Step.stop_call {a : Action τ} (h : Step s a s') {c : Caller τ} {pc : StopPc}
    (hpc : s'.call c = .stop pc) : (∃ p, s.call c = .stop p) ∨ a = .stop c := by
  cases h with
  | reader result p hnext _ => exact .inl ⟨pc, ((SameStop.readerAt hnext).call c pc).mp hpc⟩
  | readerFault result fault _ _ => exact .inl ⟨pc, hpc⟩
  | stop c₀ hidle =>
    rcases setCall_eq hpc with ⟨rfl, -⟩ | ⟨-, hold⟩
    · exact .inr rfl
    · exact .inl ⟨pc, hold⟩
  | wait c₀ hidle =>
    exact .inl ⟨pc, ((SameStop.setCall (by simp [hidle]) (by simp)).call c pc).mp hpc⟩
  | stopCall c₀ p _ hp hstop =>
    by_cases hc : c = c₀
    · subst hc
      exact .inl ⟨p, hp⟩
    · exact .inl ⟨pc, (hstop.call_of_ne hc).mp hpc⟩
  | waitCall c₀ p _ hp hwait => exact .inl ⟨pc, ((SameStop.waitStep hp hwait).call c pc).mp hpc⟩
  | wake c₀ hp =>
    exact .inl ⟨pc, ((SameStop.setCall (by simp [hp]) (by simp)).call c pc).mp hpc⟩

/-- The first return of `stop` ends the teardown. -/
theorem Controlled.stopped_of_returned (hbc : bc.Ready) {ctl : τ} {a : Action τ}
    (h : Controlled bc ctl s) (hstep : Step s a s') (hreturned : s'.stopReturns ≠ []) :
    Stopped bc s' := by
  by_cases hfirst : s.stopReturns = []
  · cases hstep with
    | reader result pc hpc _ =>
      rw [(SameStop.readerAt hpc).stopReturns] at hreturned
      exact absurd hfirst hreturned
    | stopCall c pc _ hpc hstop =>
      cases hstop with
      | returns hstop =>
        rcases h.phase_of_test hpc with hphase | hphase
        · rw [hphase.bc, hbc.stop] at hstop
          cases hstop
        · exact (hphase.step (.stopCall c .test _ hpc (.returns hstop))).1
      | resetConsumer => exact (h.sole.phase.tearingDown_of_stored hpc rfl).finish
      | _ => exact absurd hfirst hreturned
    | waitCall c pc _ hpc hwait =>
      rw [(SameStop.waitStep hpc hwait).stopReturns] at hreturned
      exact absurd hfirst hreturned
    | _ => exact absurd hfirst hreturned
  · exact ((h.returned hfirst).step hstep).1

theorem Controlled.step (hbc : bc.Ready) (ctl : τ) (s : State τ) (a : Action τ) (s' : State τ)
    (h : Controlled bc ctl s) (hguard : ByController ctl s a) (hstep : step s a = some s') :
    Controlled bc ctl s' := by
  have hstep' := (Step.of_step hstep).2
  refine ⟨SoleTeardown.step hbc s a s' h.sole (h.soleStop hbc a) hstep, ?_,
    h.stopped_of_returned hbc hstep'⟩
  intro c pc hpc
  rcases hstep'.stop_call hpc with ⟨p, hp⟩ | rfl
  · exact h.caller c p hp
  · exact hguard

end Steps

/-- In a run whose steps all meet the condition, the teardown of a started consumer is carried out
once in every state reached, whichever threads call `stop`; and from a step that breaks the
condition on a run leads to a state in which it has gone wrong. -/
theorem teardown_once_of_sole_stop [DecidableEq τ] (w : World) (hw : Started w)
    (as : List (Action τ)) (s : State τ)
    (hmeets : Meets step SoleStop (launched τ w.bc) as)
    (hrun : run step (launched τ w.bc) as = some s) :
    TeardownOnce s ∧ ∀ a s', ¬ SoleStop s a → step s a = some s' →
      ∃ bs t, run step s' bs = some t ∧ ¬ TeardownOnce t := by
  have h := run_invariant_of_meets (SoleTeardown.step hw.ready) hmeets hrun
    (soleTeardown_launched w.bc)
  exact ⟨h.teardownOnce hw.ready, fun a s' hbreak hstep => h.exists_break hw.ready hbreak hstep⟩

/-- What is expected of a consumer that one thread stops: nothing goes wrong, `do_read` has its
handles, and from the first return of `stop` on `do_read` has ended, no callback begins and no
member changes. -/
structure HaltedByStop [DecidableEq τ] (s : State τ) : Prop where
  fault : s.fault = none ∧ s.thrown = []
  handles : s.reader = .consume → s.bc.consumer ≠ none ∧ s.bc.queue ≠ none
  returned : s.stopReturns ≠ [] → s.reader = .done ∧
    ∀ as s', run step s as = some s' →
      s'.reader = .done ∧ s'.begun = s.begun ∧ s'.bc = s.bc

/-- `stop`, called any number of times by one thread, halts a started consumer. -/
theorem stop_halts [DecidableEq τ] (w : World) (hw : Started w) (ctl : τ) (as : List (Action τ))
    (s : State τ) (hmeets : Meets step (ByController ctl) (launched τ w.bc) as)
    (hrun : run step (launched τ w.bc) as = some s) : HaltedByStop s := by
  have h := run_invariant_of_meets (Controlled.step hw.ready ctl) hmeets hrun
    (controlled_launched w.bc ctl)
  refine ⟨⟨h.sole.fault, h.sole.thrown⟩, h.sole.handles hw.ready, ?_⟩
  intro hreturned
  have hstopped := h.returned hreturned
  refine ⟨hstopped.reader, ?_⟩
  intro as' s' hrun'
  obtain ⟨hstopped', hbegun⟩ := run_invariant
    (I := fun u => Stopped w.bc u ∧ u.begun = s.begun)
    (fun u a v hu hstep => by
      obtain ⟨hv, hbegun⟩ := hu.1.step (Step.of_step hstep).2
      exact ⟨hv, hbegun.trans hu.2⟩) hrun' ⟨hstopped, rfl⟩
  exact ⟨hstopped'.reader, hbegun, hstopped'.bc.trans hstopped.bc.symm⟩

/-! ## Runs of a consumer that was started once -/

/-- The object after one `start` with every answer of librdkafka accepting. -/
def startedOnce : World :=
  ((World.fresh ⟨0, 0⟩).started
    ((Conf.setAll StartEnv.accepting.api Conf.create ""
      (preStartSettings 41 .fromBeginning)).1.getD Conf.create) .fromBeginning).launch

theorem startedOnce_started : Started startedOnce :=
  ⟨⟨0, 0⟩, [], _, .accepting, .fromBeginning, "", "", rfl, by simp, rfl⟩

/-- The run `as` of that consumer, with two threads next to the reader. -/
abbrev twoThreads (as : List (Action Bool)) : Option (State Bool) :=
  run step (launched Bool startedOnce.bc) as

/-- Two threads read `_stop` as false before either writes it: both carry out the teardown. -/
theorem teardown_twice : ¬ ∀ as s, twoThreads as = some s → TeardownOnce s := by
  intro hclaim
  have h := hclaim
    [.stop (.thread true), .stop (.thread false), .call (.thread true), .call (.thread false),
      .call (.thread true), .call (.thread false), .call (.thread true), .call (.thread false),
      .call (.thread true), .call (.thread false)] _ rfl
  exact absurd h.once (by decide)

/-- The thread `true` stops the consumer while the reader is in `consume`. -/
def stopDuringConsume : List (Action Bool) :=
  [.reader none, .stop (.thread true)] ++ List.replicate 4 (.call (.thread true)) ++
    List.replicate 4 (.reader none) ++ List.replicate 4 (.call (.thread true))

theorem byController_stopDuringConsume :
    Meets step (ByController true) (launched Bool startedOnce.bc) stopDuringConsume := by
  simp [stopDuringConsume, Meets, ByController]

theorem teardown_once_of_sole_stop_during_consume :
    ∃ s, twoThreads stopDuringConsume = some s ∧ TeardownOnce s := by
  have hready := startedOnce_started.ready
  refine ⟨_, rfl, (teardown_once_of_sole_stop startedOnce startedOnce_started stopDuringConsume _ ?_
    rfl).1⟩
  exact meets_of_invariant (Controlled.step hready true) (fun s a h _ => h.soleStop hready a)
    byController_stopDuringConsume (controlled_launched _ true)

theorem stop_halts_during_consume :
    ∃ s, twoThreads stopDuringConsume = some s ∧ s.stopReturns ≠ [] ∧ HaltedByStop s :=
  ⟨_, rfl, by decide, stop_halts startedOnce startedOnce_started true stopDuringConsume _
    byController_stopDuringConsume rfl⟩

end TsKafka.BasicConsumer
