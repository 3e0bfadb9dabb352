import TsKafka.RoundTrip
import TsKafka.BasicProducer.ConcurrentPush
import TsKafka.BasicProducer.PushLoop
import TsKafka.Library.Observation

/-!
# Each thread's calls are those of `push`

`TsKafka.BasicProducer.Push` has `push` as a function of what its attempts meet,
`TsKafka.BasicProducer.Threads` has it as steps that interleave with those of other threads. In
every interleaving the calls that one thread makes on the producer handle are the calls of the
function, for one `push` after the other, each with the status that the thread gets back.
-/

namespace TsKafka.BasicProducer
open RdKafka PartialRun WriterLog

variable {τ : Type}

/-! ## What a thread does to the handle -/

/-- The call on the producer handle that a step of `push` makes, with the thread that makes it. -/
def State.callsMade (clock : Clock) (s : State τ) : Action τ → List (τ × ProducerCall)
  | .produce t err =>
    match s.frame t with
    | some f => [(t, .produce (produceArgs clock s.topic f.data) err)]
    | none => []
  | .poll t _ => [(t, .poll 1)]
  | _ => []

/-- The calls that a `push` at this place has made in its present round. -/
def PushPc.calls (args : ProduceArgs) : PushPc → List ProducerCall
  | .produce => []
  | .switch err => [.produce args err]
  | .pollOk => [.produce args .ERR_NO_ERROR]
  | .pollContinue => [.produce args .ERR__QUEUE_FULL]

/-- A `push` in progress has made the calls of `push` on some attempts, and those of its present
round. -/
def Frame.Going (clock : Clock) (topic : String) (f : Frame) (calls : List ProducerCall) : Prop :=
  ∃ attempts before, push (produceArgs clock topic f.data) f.hasToken attempts = ⟨before, none⟩ ∧
    calls = before ++ f.pc.calls (produceArgs clock topic f.data)

/-- A `push` that is still in its loop goes on with the attempts that follow. -/
theorem push_append_of_running {args : ProduceArgs} {hasToken : Bool} {attempts : List Attempt}
    {before : List ProducerCall} (h : push args hasToken attempts = ⟨before, none⟩)
    (rest : List Attempt) :
    push args hasToken (attempts ++ rest) =
      ⟨before ++ (push args hasToken rest).calls, (push args hasToken rest).status⟩ := by
  induction attempts generalizing before with
  | nil =>
    cases h
    rfl
  | cons attempt attempts ih =>
    rw [push_cons] at h
    split at h
    · cases h
    · rename_i hlast
      obtain ⟨hcalls, hstatus⟩ := PushRun.mk.injEq .. ▸ h
      have hrest : push args hasToken attempts = ⟨(push args hasToken attempts).calls, none⟩ := by
        rw [← hstatus]
      rw [List.cons_append, push_cons, if_neg hlast, ih hrest, ← hcalls, List.append_assoc]

variable {clock : Clock} {topic : String} {f : Frame} {calls : List ProducerCall}

/-- An attempt after which the `push` has not returned. -/
theorem Frame.Going.extend (h : f.Going clock topic calls) {g : Frame} (hdata : g.data = f.data)
    (htoken : g.hasToken = f.hasToken) {more : List ProducerCall}
    (hcalls : g.pc.calls (produceArgs clock topic f.data) =
      f.pc.calls (produceArgs clock topic f.data) ++ more) :
    g.Going clock topic (calls ++ more) := by
  obtain ⟨attempts, before, hpush, rfl⟩ := h
  refine ⟨attempts, before, ?_, ?_⟩
  · rw [hdata, htoken, hpush]
  · rw [hdata, hcalls, List.append_assoc]

/-- `produce` returns and the `push` goes to the switch. -/
theorem Frame.Going.produced (h : f.Going clock topic calls) (hpc : f.pc = .produce)
    (err : ErrorCode) (msg : Option Nat) :
    (⟨f.data, f.hasToken, .switch err, msg⟩ : Frame).Going clock topic
      (calls ++ [.produce (produceArgs clock topic f.data) err]) :=
  h.extend (g := ⟨f.data, f.hasToken, .switch err, msg⟩) rfl rfl (by simp [hpc, PushPc.calls])

/-- The switch goes to the `poll` after a success. -/
theorem Frame.Going.toPollOk (h : f.Going clock topic calls) {err : ErrorCode} {cancel : Bool}
    (hpc : f.pc = .switch err) (hswitch : switchErr err cancel = .pollOk) :
    ({ f with pc := .pollOk } : Frame).Going clock topic calls := by
  have herr := switchErr_eq_pollOk.mp hswitch
  rw [← List.append_nil calls]
  exact h.extend (g := { f with pc := .pollOk }) rfl rfl (by simp [hpc, herr, PushPc.calls])

/-- The switch goes to the `poll` after a full queue. -/
theorem Frame.Going.toPollContinue (h : f.Going clock topic calls) {err : ErrorCode}
    {cancel : Bool} (hpc : f.pc = .switch err) (hswitch : switchErr err cancel = .pollContinue) :
    ({ f with pc := .pollContinue } : Frame).Going clock topic calls := by
  have herr := (switchErr_eq_pollContinue.mp hswitch).1
  rw [← List.append_nil calls]
  exact h.extend (g := { f with pc := .pollContinue }) rfl rfl (by simp [hpc, herr, PushPc.calls])

/-- The `poll` after a full queue ends the round. -/
theorem Frame.Going.nextRound (h : f.Going clock topic calls) (hpc : f.pc = .pollContinue) :
    ({ f with pc := .produce } : Frame).Going clock topic (calls ++ [.poll 1]) := by
  obtain ⟨attempts, before, hpush, rfl⟩ := h
  refine ⟨attempts ++ [⟨.ERR__QUEUE_FULL, false⟩], _, ?_, (List.append_nil _).symm⟩
  rw [push_append_of_running hpush, hpc]
  simp [push, switchErr, PushPc.calls]

/-- The `poll` after a success ends the `push`. -/
theorem Frame.Going.pollOk (h : f.Going clock topic calls) (hpc : f.pc = .pollOk) :
    ∃ attempts, push (produceArgs clock topic f.data) f.hasToken attempts =
      ⟨calls ++ [.poll 1], some .ok⟩ := by
  obtain ⟨attempts, before, hpush, rfl⟩ := h
  refine ⟨attempts ++ [⟨.ERR_NO_ERROR, false⟩], ?_⟩
  rw [push_append_of_running hpush, hpc]
  simp [push, switchErr, PushPc.calls]

/-- A switch that returns ends the `push`. -/
theorem Frame.Going.ret (h : f.Going clock topic calls) {err : ErrorCode} (hpc : f.pc = .switch err)
    {token : Bool} {status : ProducerStatus}
    (hswitch : switchErr err (f.hasToken && token) = .ret status) :
    ∃ attempts, push (produceArgs clock topic f.data) f.hasToken attempts =
      ⟨calls, some status⟩ := by
  obtain ⟨attempts, before, hpush, rfl⟩ := h
  refine ⟨attempts ++ [⟨err, token⟩], ?_⟩
  rw [push_append_of_running hpush, hpc]
  simp [push, hswitch, PushPc.calls]

/-! ## One thread -/

variable [DecidableEq τ] {s s' : State τ} {t u : τ} {pushes : List Pushed}

/-- The calls `calls` of thread `t` are those of the sequential pushes `pushes`, and of the `push`
that it is in. -/
structure State.PushesAs (clock : Clock) (s : State τ) (t : τ) (calls : List ProducerCall)
    (pushes : List Pushed) : Prop where
  /-- The pushes are the returned calls of the thread, with the status that each has returned. -/
  returned : pushes.map (fun p => (p.data, (p.run clock s.topic).status)) =
    (byWriter t s.returned).map fun r => (r.data, some r.status)
  calls : ∃ going, calls = pushes.flatMap (fun p => (p.run clock s.topic).calls) ++ going ∧
    match s.frame t with
    | none => going = []
    | some f => f.Going clock s.topic going

theorem State.PushesAs.congr (h : s.PushesAs clock t calls pushes) (htopic : s'.topic = s.topic)
    (hreturned : byWriter t s'.returned = byWriter t s.returned) (hframe : s'.frame t = s.frame t) :
    s'.PushesAs clock t calls pushes := by
  constructor
  · rw [htopic, hreturned, h.returned]
  · rw [htopic, hframe]
    exact h.calls

/-- The thread's `push` goes on. -/
theorem State.PushesAs.setFrame (h : s.PushesAs clock t calls pushes) {f g : Frame}
    (hframe : s.frame t = some f) {more : List ProducerCall} (htopic : s'.topic = s.topic)
    (hreturned : s'.returned = s.returned) (hframe' : s'.frame t = some g)
    (hgoing : ∀ going, f.Going clock s.topic going → g.Going clock s.topic (going ++ more)) :
    s'.PushesAs clock t (calls ++ more) pushes := by
  obtain ⟨going, rfl, hf⟩ := h.calls
  rw [hframe] at hf
  constructor
  · rw [htopic, hreturned, h.returned]
  · rw [htopic, hframe']
    exact ⟨going ++ more, List.append_assoc _ _ _, hgoing going hf⟩

/-- The thread's `push` returns. -/
theorem State.PushesAs.ret (h : s.PushesAs clock t calls pushes) {f : Frame}
    (hframe : s.frame t = some f) {more : List ProducerCall} {status : ProducerStatus}
    (htopic : s'.topic = s.topic)
    (hreturned : s'.returned = s.returned ++ [(t, ⟨f.data, status, f.msg⟩)])
    (hframe' : s'.frame t = none)
    (hends : ∀ going, f.Going clock s.topic going →
      ∃ attempts, push (produceArgs clock s.topic f.data) f.hasToken attempts =
        ⟨going ++ more, some status⟩) :
    ∃ pushes', s'.PushesAs clock t (calls ++ more) pushes' := by
  obtain ⟨going, rfl, hf⟩ := h.calls
  rw [hframe] at hf
  obtain ⟨attempts, hpush⟩ := hends going hf
  have hrun : Pushed.run clock s.topic ⟨f.data, f.hasToken, attempts⟩ =
      ⟨going ++ more, some status⟩ := hpush
  refine ⟨pushes ++ [⟨f.data, f.hasToken, attempts⟩], ?_, [], ?_, ?_⟩
  · simp [htopic, hreturned, h.returned, hrun]
  · simp [htopic, hrun]
  · rw [hframe']

/-- A new call of `push`. -/
theorem State.PushesAs.enter (h : s.PushesAs clock t calls pushes) (hframe : s.frame t = none)
    (data : TimedDataRaw) (hasToken : Bool) :
    (s.enter t data hasToken).PushesAs clock t calls pushes := by
  obtain ⟨going, rfl, hnone⟩ := h.calls
  rw [hframe] at hnone
  subst hnone
  refine ⟨h.returned, [], rfl, ?_⟩
  have hframe' : (s.enter t data hasToken).frame t = some ⟨data, hasToken, .produce, none⟩ := by
    simp [State.enter, State.setFrame]
  rw [hframe']
  exact ⟨[], [], rfl, rfl⟩

/-- `produce` returns to thread `u`, which goes to the switch. -/
theorem State.produced_frame (clock : Clock) (s : State τ) (u : τ) (f : Frame) (err : ErrorCode) :
    ∃ msg, (s.produced clock u f err).frame =
        Function.update s.frame u (some ⟨f.data, f.hasToken, .switch err, msg⟩) ∧
      (s.produced clock u f err).topic = s.topic ∧
      (s.produced clock u f err).returned = s.returned := by
  unfold State.produced
  split
  · exact ⟨some s.accepted.length, rfl, rfl, rfl⟩
  · exact ⟨f.msg, rfl, rfl, rfl⟩

/-- A step of thread `u` leaves the account of every other thread. -/
theorem State.PushesAs.other (h : s.PushesAs clock t calls pushes) (hu : t ≠ u) {g : Option Frame}
    (htopic : s'.topic = s.topic) (hframe : s'.frame = Function.update s.frame u g)
    (hreturned : byWriter t s'.returned = byWriter t s.returned) (made : List ProducerCall) :
    s'.PushesAs clock t (calls ++ byWriter t (made.map fun c => (u, c))) pushes := by
  have hnone : byWriter t (made.map fun c => (u, c)) = [] := by
    simp [byWriter, Ne.symm hu]
  rw [hnone, List.append_nil]
  exact h.congr htopic hreturned (by rw [hframe, Function.update_of_ne hu])

theorem byWriter_map_self (t : τ) (made : List ProducerCall) :
    byWriter t (made.map fun c => (t, c)) = made := by
  simp [byWriter]

/-- The switch of the thread's `push`. -/
theorem State.PushesAs.switch (h : s.PushesAs clock t calls pushes) {f : Frame} {err : ErrorCode}
    (hframe : s.frame t = some f) (hpc : f.pc = .switch err) (token : Bool) :
    ∃ pushes', (s.switched t f (switchErr err (f.hasToken && token))).PushesAs clock t calls
      pushes' := by
  rw [← List.append_nil calls]
  cases hswitch : switchErr err (f.hasToken && token) with
  | pollOk =>
    refine ⟨pushes, h.setFrame hframe rfl rfl (Function.update_self ..) ?_⟩
    intro going hgoing
    rw [List.append_nil]
    exact hgoing.toPollOk hpc hswitch
  | pollContinue =>
    refine ⟨pushes, h.setFrame hframe rfl rfl (Function.update_self ..) ?_⟩
    intro going hgoing
    rw [List.append_nil]
    exact hgoing.toPollContinue hpc hswitch
  | ret status =>
    have hends : ∀ going, f.Going clock s.topic going →
        ∃ attempts, push (produceArgs clock s.topic f.data) f.hasToken attempts =
          ⟨going ++ [], some status⟩ := by
      intro going hgoing
      rw [List.append_nil]
      exact hgoing.ret hpc hswitch
    exact h.ret hframe rfl rfl (Function.update_self ..) hends

/-- The switch of another thread's. -/
theorem State.PushesAs.switch_other (h : s.PushesAs clock t calls pushes) (hu : t ≠ u) (f : Frame)
    (after : AfterSwitch) : (s.switched u f after).PushesAs clock t calls pushes := by
  cases after with
  | ret status =>
    refine h.congr rfl ?_ (Function.update_of_ne hu _ _)
    simp [State.switched, State.ret, Ne.symm hu]
  | pollOk => exact h.congr rfl rfl (Function.update_of_ne hu _ _)
  | pollContinue => exact h.congr rfl rfl (Function.update_of_ne hu _ _)

/-- One step keeps the account of every thread. -/
theorem State.PushesAs.step {a : Action τ} (h : s.PushesAs clock t calls pushes)
    (hstep : Step clock s a s') :
    ∃ pushes', s'.PushesAs clock t (calls ++ byWriter t (s.callsMade clock a)) pushes' := by
  cases hstep with
  | call u data hasToken hdtor hframe =>
    simp only [State.callsMade, byWriter_nil, List.append_nil]
    refine ⟨pushes, ?_⟩
    by_cases hu : t = u
    · subst hu
      exact h.enter hframe data hasToken
    · exact h.congr rfl rfl (Function.update_of_ne hu _ _)
  | produce u err f hframe hpc hhandle =>
    obtain ⟨msg, hframe', htopic, hreturned⟩ := s.produced_frame clock u f err
    have hmade : s.callsMade clock (.produce u err) =
        [ProducerCall.produce (produceArgs clock s.topic f.data) err].map fun c => (u, c) := by
      simp [State.callsMade, hframe]
    rw [hmade]
    by_cases hu : t = u
    · subst hu
      rw [byWriter_map_self]
      refine ⟨pushes, h.setFrame hframe htopic hreturned (by rw [hframe', Function.update_self]) ?_⟩
      intro going hgoing
      exact hgoing.produced hpc err msg
    · exact ⟨pushes, h.other hu htopic hframe' (by rw [hreturned]) _⟩
  | switch u token f err hframe hpc =>
    simp only [State.callsMade, byWriter_nil, List.append_nil]
    by_cases hu : t = u
    · subst hu
      exact h.switch hframe hpc token
    · exact ⟨pushes, h.switch_other hu f _⟩
  | pollOk u n f hframe hpc hhandle =>
    have hmade : s.callsMade clock (.poll u n) = [ProducerCall.poll 1].map fun c => (u, c) := rfl
    rw [hmade]
    by_cases hu : t = u
    · subst hu
      rw [byWriter_map_self]
      exact h.ret hframe rfl rfl (Function.update_self ..) fun going hgoing => hgoing.pollOk hpc
    · refine ⟨pushes, h.other hu ?_ (g := none) rfl ?_ _⟩
      · rfl
      · simp [State.ret, State.dispatch, Ne.symm hu]
  | pollContinue u n f hframe hpc hhandle =>
    have hmade : s.callsMade clock (.poll u n) = [ProducerCall.poll 1].map fun c => (u, c) := rfl
    rw [hmade]
    by_cases hu : t = u
    · subst hu
      rw [byWriter_map_self]
      exact ⟨pushes, h.setFrame hframe rfl rfl (Function.update_self ..) fun going hgoing =>
        hgoing.nextRound hpc⟩
    · refine ⟨pushes, h.other hu ?_ (g := some { f with pc := .produce }) rfl ?_ _⟩
      · rfl
      · rfl
  | dtorMember n m left hdtor =>
    simp only [State.callsMade, byWriter_nil, List.append_nil]
    refine ⟨pushes, ?_⟩
    unfold State.destroyMember
    split <;> exact h.congr rfl rfl rfl
  | _ =>
    simp only [State.callsMade, byWriter_nil, List.append_nil]
    exact ⟨pushes, h.congr rfl rfl rfl⟩

/-- In every interleaving of the threads, the polling thread and librdkafka, the calls that a
thread has made on the handle are those of sequential pushes of its records, with the results that
it got back, and of a `push` that has not returned yet. -/
theorem pushes_as_function [Fintype τ] (clock : Clock) (topic : String) (stop : Bool)
    (as : List (Action τ)) (s : State τ)
    (hrun : run (step clock) (connected τ topic stop) as = some s) (t : τ) :
    ∃ pushes, s.PushesAs clock t
      (byWriter t (observed (step clock) (State.callsMade clock) (connected τ topic stop) as))
      pushes := by
  have hbegin : ∃ pushes, (connected τ topic stop).PushesAs clock t (byWriter t []) pushes :=
    ⟨[], rfl, [], rfl, rfl⟩
  have hinv := observed_invariant
    (I := fun (s : State τ) made => ∃ pushes, s.PushesAs clock t (byWriter t made) pushes)
    (fun s made a s' h hstep => by
      obtain ⟨pushes, h⟩ := h
      rw [byWriter_append]
      exact h.step (Step.of_step hstep)) hrun hbegin
  rwa [List.nil_append] at hinv

/-- Two threads, one of which goes round on a full queue while the other pushes. -/
theorem pushes_as_function_fullQueueRace :
    ∃ s, run (step .hundredNanoseconds) (connected (Fin 2) "" false) fullQueueRace = some s ∧
      ∃ pushes, s.PushesAs .hundredNanoseconds 0
        [.produce (produceArgs .hundredNanoseconds "" ⟨0, [1]⟩) .ERR__QUEUE_FULL, .poll 1,
          .produce (produceArgs .hundredNanoseconds "" ⟨0, [1]⟩) .ERR_NO_ERROR] pushes :=
  ⟨_, rfl, pushes_as_function .hundredNanoseconds "" false fullQueueRace _ rfl 0⟩

end TsKafka.BasicProducer
