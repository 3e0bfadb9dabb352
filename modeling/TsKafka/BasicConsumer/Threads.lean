import TsKafka.BasicConsumer.StartStop
import TsKafka.BasicConsumer.DoRead

/-!
# The threads of a started `basic_consumer`

The reader thread, and any number of calls of `stop` and `wait`, made by other threads `τ` or by
the reader from inside its callback. A step is one access to what the threads share: `_stop`,
`_mx`, `_cv`, a handle or `_th`.

Waiting on `_cv` releases `_mx` and blocks in one step; `notify_all` wakes the callers that are
blocked at that moment, and a blocked caller may wake without being notified. `join` returns only
when the thread's function has returned.
-/

namespace TsKafka.BasicConsumer
open RdKafka PartialRun

/-- Who calls `stop` or `wait`. -/
inductive Caller (τ : Type) where
  /-- The reader thread, from inside its callback. -/
  | reader
  | thread (t : τ)
  deriving DecidableEq

/-- Where a call of `stop` is (`basic_consumer.cpp:180-195`). -/
inductive StopPc where
  /-- At `if (_stop)`. -/
  | test
  /-- At `_stop = true`. -/
  | store
  /-- At `_cv.notify_all()`. -/
  | notify
  /-- At `_consumer->stop(_topic.get(), 0)`. -/
  | halt
  /-- At `_th.join()`. -/
  | join
  | resetQueue
  | resetTopic
  | resetConsumer
  deriving DecidableEq, Repr

/-- Where a call of `wait` is (`basic_consumer.cpp:137-142`). -/
inductive WaitPc where
  /-- At the lock of `_mx`, on entry or when woken. -/
  | lock
  /-- At the test `!_stop`. -/
  | test
  /-- At `_cv.wait(l)`, with `_mx` still held. -/
  | block
  | blocked
  /-- Out of the loop, at the unlock. -/
  | ret
  deriving DecidableEq, Repr

inductive CallPc where
  | idle
  | stop (pc : StopPc)
  | wait (pc : WaitPc)
  deriving DecidableEq, Repr

/-- A blocked caller is woken. -/
def CallPc.woken : CallPc → CallPc
  | .wait .blocked => .wait .lock
  | pc => pc

/-- What `stop` does after its notification. -/
inductive Teardown where
  | halt
  | join
  | resetQueue
  | resetTopic
  | resetConsumer
  deriving DecidableEq, Repr

def ReaderPc.inCallback : ReaderPc → Bool
  | .callback _ => true
  | _ => false

/-- A started consumer with its threads. From `thrown` on the fields are history: the exceptions
that left `stop`, the number of callbacks begun, the teardown so far, the calls of `stop` begun
and ended, whether `stop` has notified, and the number of `wait` calls that have returned. -/
structure State (τ : Type) where
  bc : Members
  mx : Option (Caller τ)
  reader : ReaderPc
  call : Caller τ → CallPc
  /-- What has ended the program. -/
  fault : Option Fault
  thrown : List JoinError
  begun : Nat
  teardown : List Teardown
  stopCalls : Nat
  stopReturns : List (Caller τ)
  stopNotified : Bool
  waitReturns : Nat

/-- The state in which a `start` that returned true leaves the object `bc`. -/
def launched (τ : Type) (bc : Members) : State τ where
  bc := bc
  mx := none
  reader := .head
  call := fun _ => .idle
  fault := none
  thrown := []
  begun := 0
  teardown := []
  stopCalls := 0
  stopReturns := []
  stopNotified := false
  waitReturns := 0

inductive Action (τ : Type) where
  /-- The reader takes its next step; `result` is what `consume` returns. -/
  | reader (result : Option Message)
  /-- `c` calls `stop`. -/
  | stop (c : Caller τ)
  /-- `c` calls `wait`. -/
  | wait (c : Caller τ)
  /-- The call of `c` takes its next step. -/
  | call (c : Caller τ)
  /-- `c` wakes without being notified. -/
  | wake (c : Caller τ)
  deriving DecidableEq

namespace State

variable {τ : Type}

/-- `_cv.notify_all()`. -/
def notifyAll (s : State τ) : State τ := { s with call := fun c => (s.call c).woken }

/-- The reader goes to the place `pc`. -/
def readerAt (s : State τ) (pc : ReaderPc) : State τ :=
  let s := if s.reader = .notify then s.notifyAll else s
  { s with reader := pc, begun := if pc.inCallback then s.begun + 1 else s.begun }

variable [DecidableEq τ]

def setCall (s : State τ) (c : Caller τ) (pc : CallPc) : State τ :=
  { s with call := Function.update s.call c pc }

/-- The call of `stop` by `c` returns. -/
def stopReturned (s : State τ) (c : Caller τ) : State τ :=
  { s.setCall c .idle with stopReturns := s.stopReturns ++ [c] }

/-- The call of `stop` by `c` is left by an exception. -/
def threw (s : State τ) (c : Caller τ) (e : JoinError) : State τ :=
  { s.setCall c .idle with thrown := s.thrown ++ [e] }

/-- The call of `stop` by `c` has done `act`, with the members now `bc`, and goes to `pc`. -/
def tore (s : State τ) (c : Caller τ) (act : Teardown) (bc : Members) (pc : StopPc) : State τ :=
  { s.setCall c (.stop pc) with bc := bc, teardown := s.teardown ++ [act] }

/-- The next step of the reader. -/
def readerStep (s : State τ) (result : Option Message) : Option (State τ) :=
  if s.reader = .consume ∧ s.bc.consumer.isNone then some { s with fault := some .nullConsumer }
  else if s.reader = .consume ∧ s.bc.queue.isNone then some { s with fault := some .nullQueue }
  -- a callback ends when what it calls has returned
  else if s.reader.inCallback ∧ s.call .reader ≠ .idle then none
  else (s.reader.next s.bc.stop result).map s.readerAt

/-- The next step of a call of `stop`. Of two calls that come to the join one returns from it and
resets the handles. The other finds `_th` not joinable here; when it is made before the first
returns, the language leaves it undefined. -/
def stopStep (s : State τ) (c : Caller τ) : StopPc → Option (State τ)
  | .test => some (if s.bc.stop then s.stopReturned c else s.setCall c (.stop .store))
  | .store => some { s.setCall c (.stop .notify) with bc := { s.bc with stop := true } }
  | .notify => some { s.notifyAll.setCall c (.stop .halt) with stopNotified := true }
  | .halt =>
    if s.bc.consumer.isNone then some { s with fault := some .nullConsumer }
    else some (s.tore c .halt s.bc .join)
  | .join =>
    if s.bc.th.isNone then some (s.threw c .notJoinable)
    else if c = .reader then some (s.threw c .deadlock)
    else if s.reader = .done then some (s.tore c .join { s.bc with th := none } .resetQueue)
    else none
  | .resetQueue => some (s.tore c .resetQueue { s.bc with queue := none } .resetTopic)
  | .resetTopic => some (s.tore c .resetTopic { s.bc with topic := none } .resetConsumer)
  | .resetConsumer =>
    some { s.stopReturned c with
      bc := { s.bc with consumer := none }
      teardown := s.teardown ++ [.resetConsumer] }

/-- The next step of a call of `wait`. -/
def waitStep (s : State τ) (c : Caller τ) : WaitPc → Option (State τ)
  | .lock => if s.mx = none then some { s.setCall c (.wait .test) with mx := some c } else none
  | .test => some (s.setCall c (.wait (if s.bc.stop then .ret else .block)))
  | .block => some { s.setCall c (.wait .blocked) with mx := none }
  | .blocked => none
  | .ret => some { s.setCall c .idle with mx := none, waitReturns := s.waitReturns + 1 }

/-- `c` makes a call, and is then at `pc`. -/
def enter (s : State τ) (c : Caller τ) (pc : CallPc) : Option (State τ) :=
  if s.call c = .idle ∧ (c = .reader → s.reader.inCallback) then some (s.setCall c pc) else none

end State

variable {τ : Type} [DecidableEq τ]

/-- One step of the threads of the consumer. -/
def step (s : State τ) (a : Action τ) : Option (State τ) :=
  if s.fault.isSome then none
  else
    match a with
    | .reader result => s.readerStep result
    | .stop c => (s.enter c (.stop .test)).map fun s => { s with stopCalls := s.stopCalls + 1 }
    | .wait c => s.enter c (.wait .lock)
    | .call c =>
      match s.call c with
      | .idle => none
      | .stop pc => s.stopStep c pc
      | .wait pc => s.waitStep c pc
    | .wake c => if s.call c = .wait .blocked then some (s.setCall c (.wait .lock)) else none

theorem setCall_self (s : State τ) (c : Caller τ) (pc : CallPc) :
    (s.setCall c pc).call c = pc := by
  simp [State.setCall]

theorem setCall_of_ne (s : State τ) {c c' : Caller τ} (h : c' ≠ c) (pc : CallPc) :
    (s.setCall c pc).call c' = s.call c' := by
  simp [State.setCall, h]

/-- After the call of `c` has moved to `pc`, a call at `q` is that one or was there before. -/
theorem setCall_eq {s : State τ} {c c' : Caller τ} {pc q : CallPc}
    (h : (s.setCall c pc).call c' = q) : c' = c ∧ pc = q ∨ c' ≠ c ∧ s.call c' = q := by
  by_cases hc : c' = c
  · subst hc
    exact .inl ⟨rfl, (setCall_self s c' pc).symm.trans h⟩
  · exact .inr ⟨hc, (setCall_of_ne s hc pc).symm.trans h⟩

/-! ## The steps as relations -/

/-- The ways in which a call of `stop` takes a step. -/
inductive StopStep (s : State τ) (c : Caller τ) : StopPc → State τ → Prop
  | returns (hstop : s.bc.stop = true) : StopStep s c .test (s.stopReturned c)
  | proceeds (hstop : s.bc.stop = false) : StopStep s c .test (s.setCall c (.stop .store))
  | store :
      StopStep s c .store { s.setCall c (.stop .notify) with bc := { s.bc with stop := true } }
  | notify :
      StopStep s c .notify { s.notifyAll.setCall c (.stop .halt) with stopNotified := true }
  | halt (hconsumer : s.bc.consumer ≠ none) : StopStep s c .halt (s.tore c .halt s.bc .join)
  | haltFault (hconsumer : s.bc.consumer = none) :
      StopStep s c .halt { s with fault := some .nullConsumer }
  | joinThrows (e : JoinError) (hthread : s.bc.th = none ∨ c = .reader) :
      StopStep s c .join (s.threw c e)
  | join (hcaller : c ≠ .reader) (hreader : s.reader = .done) :
      StopStep s c .join (s.tore c .join { s.bc with th := none } .resetQueue)
  | resetQueue :
      StopStep s c .resetQueue (s.tore c .resetQueue { s.bc with queue := none } .resetTopic)
  | resetTopic :
      StopStep s c .resetTopic (s.tore c .resetTopic { s.bc with topic := none } .resetConsumer)
  | resetConsumer :
      StopStep s c .resetConsumer { s.stopReturned c with
        bc := { s.bc with consumer := none }
        teardown := s.teardown ++ [.resetConsumer] }

/-- The ways in which a call of `wait` takes a step. -/
inductive WaitStep (s : State τ) (c : Caller τ) : WaitPc → State τ → Prop
  | lock (hmx : s.mx = none) :
      WaitStep s c .lock { s.setCall c (.wait .test) with mx := some c }
  | leaves (hstop : s.bc.stop = true) : WaitStep s c .test (s.setCall c (.wait .ret))
  | stays (hstop : s.bc.stop = false) : WaitStep s c .test (s.setCall c (.wait .block))
  | block : WaitStep s c .block { s.setCall c (.wait .blocked) with mx := none }
  | ret : WaitStep s c .ret
      { s.setCall c .idle with mx := none, waitReturns := s.waitReturns + 1 }

/-- The ways in which the system takes a step. -/
inductive Step (s : State τ) : Action τ → State τ → Prop
  | reader (result : Option Message) (pc : ReaderPc)
      (hpc : s.reader.next s.bc.stop result = some pc)
      (hcallback : s.reader.inCallback → s.call .reader = .idle) :
      Step s (.reader result) (s.readerAt pc)
  | readerFault (result : Option Message) (fault : Fault) (hpc : s.reader = .consume)
      (hhandle : s.bc.consumer = none ∨ s.bc.queue = none) :
      Step s (.reader result) { s with fault := some fault }
  | stop (c : Caller τ) (hidle : s.call c = .idle) :
      Step s (.stop c) { s.setCall c (.stop .test) with stopCalls := s.stopCalls + 1 }
  | wait (c : Caller τ) (hidle : s.call c = .idle) :
      Step s (.wait c) (s.setCall c (.wait .lock))
  | stopCall (c : Caller τ) (pc : StopPc) (s' : State τ) (hpc : s.call c = .stop pc)
      (hstep : StopStep s c pc s') : Step s (.call c) s'
  | waitCall (c : Caller τ) (pc : WaitPc) (s' : State τ) (hpc : s.call c = .wait pc)
      (hstep : WaitStep s c pc s') : Step s (.call c) s'
  | wake (c : Caller τ) (hpc : s.call c = .wait .blocked) :
      Step s (.wake c) (s.setCall c (.wait .lock))

theorem StopStep.of_stopStep {s s' : State τ} {c : Caller τ} {pc : StopPc}
    (h : s.stopStep c pc = some s') : StopStep s c pc s' := by
  cases pc with
  | test =>
    simp only [State.stopStep] at h
    cases h
    split
    · rename_i hstop
      exact .returns hstop
    · rename_i hstop
      exact .proceeds (by simpa using hstop)
  | halt =>
    simp only [State.stopStep] at h
    split at h
    · rename_i hnone
      cases h
      exact .haltFault (Option.isNone_iff_eq_none.mp hnone)
    · rename_i hsome
      cases h
      exact .halt fun hnone => hsome (Option.isNone_iff_eq_none.mpr hnone)
  | join =>
    simp only [State.stopStep] at h
    split at h
    · rename_i hnone
      cases h
      exact .joinThrows _ (.inl (Option.isNone_iff_eq_none.mp hnone))
    · split at h
      · rename_i hreader
        cases h
        exact .joinThrows _ (.inr hreader)
      · rename_i hcaller
        split at h
        · rename_i hdone
          cases h
          exact .join hcaller hdone
        · cases h
  | store =>
    cases h
    exact .store
  | notify =>
    cases h
    exact .notify
  | resetQueue =>
    cases h
    exact .resetQueue
  | resetTopic =>
    cases h
    exact .resetTopic
  | resetConsumer =>
    cases h
    exact .resetConsumer

theorem WaitStep.of_waitStep {s s' : State τ} {c : Caller τ} {pc : WaitPc}
    (h : s.waitStep c pc = some s') : WaitStep s c pc s' := by
  cases pc with
  | lock =>
    simp only [State.waitStep] at h
    split at h
    · rename_i hmx
      cases h
      exact .lock hmx
    · cases h
  | test =>
    simp only [State.waitStep] at h
    cases h
    split
    · rename_i hstop
      exact .leaves hstop
    · rename_i hstop
      exact .stays (by simpa using hstop)
  | block =>
    cases h
    exact .block
  | blocked => cases h
  | ret =>
    cases h
    exact .ret

theorem Step.of_readerStep {s s' : State τ} {result : Option Message}
    (h : s.readerStep result = some s') : Step s (.reader result) s' := by
  simp only [State.readerStep] at h
  split at h
  · rename_i hguard
    cases h
    exact .readerFault result _ hguard.1 (.inl (Option.isNone_iff_eq_none.mp hguard.2))
  · split at h
    · rename_i hguard
      cases h
      exact .readerFault result _ hguard.1 (.inr (Option.isNone_iff_eq_none.mp hguard.2))
    · split at h
      · cases h
      · rename_i hguard
        obtain ⟨pc, hpc, rfl⟩ := Option.map_eq_some_iff.mp h
        refine .reader result pc hpc fun hcallback => ?_
        by_contra hbusy
        exact hguard ⟨hcallback, hbusy⟩

theorem State.enter_eq_some {s s' : State τ} {c : Caller τ} {pc : CallPc}
    (h : s.enter c pc = some s') : s.call c = .idle ∧ s' = s.setCall c pc := by
  simp only [State.enter] at h
  split at h
  · rename_i hguard
    cases h
    exact ⟨hguard.1, rfl⟩
  · cases h

/-- A system whose program has not ended takes its steps as `Step` says. -/
theorem Step.of_step {s s' : State τ} {a : Action τ} (h : step s a = some s') :
    s.fault = none ∧ Step s a s' := by
  simp only [step] at h
  split at h
  · cases h
  · rename_i hfault
    refine ⟨by simpa using hfault, ?_⟩
    cases a with
    | reader result => exact Step.of_readerStep h
    | stop c =>
      obtain ⟨v, hv, rfl⟩ := Option.map_eq_some_iff.mp h
      obtain ⟨hidle, rfl⟩ := State.enter_eq_some hv
      exact .stop c hidle
    | wait c =>
      obtain ⟨hidle, rfl⟩ := State.enter_eq_some h
      exact .wait c hidle
    | call c =>
      dsimp only at h
      split at h
      · cases h
      · rename_i pc hpc
        exact .stopCall c pc s' hpc (StopStep.of_stopStep h)
      · rename_i pc hpc
        exact .waitCall c pc s' hpc (WaitStep.of_waitStep h)
    | wake c =>
      dsimp only at h
      split at h
      · rename_i hpc
        cases h
        exact .wake c hpc
      · cases h

/-! ## An uninterrupted call of `stop` -/

/-- A call of `stop` that meets only the reader's last steps does to the members what `stop` does
as a function. -/
theorem run_stop {s : State τ} {c : Caller τ} {w w' : World} (hfault : s.fault = none)
    (hidle : s.call c = .idle) (hcaller : c ≠ .reader) (hreader : s.reader = .head)
    (hbc : s.bc = w.bc) (hstop : BasicConsumer.stop w = .ok (w', none)) :
    ∃ as s', run step s as = some s' ∧ s'.bc = w'.bc ∧ s'.call c = .idle := by
  cases hstopped : w.bc.stop with
  | true =>
    rw [BasicConsumer.stop, if_pos hstopped] at hstop
    cases hstop
    refine ⟨[.stop c, .call c], ?_⟩
    simp [run, step, State.enter, State.stopStep, State.stopReturned, State.setCall, hfault, hidle,
      hcaller, hbc, hstopped]
  | false =>
    cases hconsumer : w.bc.consumer with
    | none => simp [BasicConsumer.stop, hstopped, hconsumer] at hstop
    | some p =>
      cases hth : w.bc.th with
      | none => simp [BasicConsumer.stop, hstopped, hconsumer, hth] at hstop
      | some reader =>
        simp only [BasicConsumer.stop, hstopped, hconsumer, hth, Bool.false_eq_true, if_false,
          Except.ok.injEq, Prod.mk.injEq, and_true] at hstop
        subst hstop
        -- up to the join, the reader's way out of its loop, from the join on
        refine ⟨.stop c :: List.replicate 4 (.call c) ++ List.replicate 2 (.reader none) ++
          List.replicate 4 (.call c), ?_⟩
        simp [run, step, State.enter, State.stopStep, State.readerStep, State.readerAt,
          State.setCall, State.tore, State.notifyAll, State.stopReturned, ReaderPc.next,
          ReaderPc.inCallback, CallPc.woken, World.join, World.resetQueue, World.resetTopic,
          World.resetConsumer, hfault, hidle, hcaller, hreader, hbc, hstopped, hconsumer, hth]

end TsKafka.BasicConsumer
