import TsKafka.BasicConsumer.Lifecycle
import TsKafka.BasicConsumer.Threads

/-!
# The life of a `basic_consumer`

One thread constructs a consumer, makes any calls of `start` and `stop`, and destroys it,
interleaved with the readers that the starts launch. A step is one access to what the threads
share: `_stop`, `_th`, a handle, or the call of `consume` that goes through the handles. What the
program does not survive is recorded as a fault, and nothing happens after it; an exception that
leaves `stop` goes to the caller, who makes its next call.

It is assumed that librdkafka survives a topic or a queue of a client that has been destroyed, and
a null topic: `_consumer->stop` with such a topic and `consume` with such a queue are no faults.
(`TsKafka.BasicConsumer.LifeFaults` says which lives come to them.) A `start` that finds `_th`
joinable ends the program in the step of the assignment; the thread that it has launched by then
is in `TsKafka.BasicConsumer.Launching`.
-/

namespace TsKafka.BasicConsumer
open RdKafka PartialRun

/-- What can end the program in the course of a life. -/
inductive LifeFault where
  /-- A call that goes wrong by itself. -/
  | call (fault : Fault)
  /-- `consume` is in a client that has been destroyed. -/
  | destroyedConsumer
  deriving DecidableEq, Repr

/-- Where the caller is. -/
inductive CallerPc where
  /-- Between two calls. -/
  | idle
  /-- In `pre_start`, at `_consumer.reset(p)`. -/
  | resetConsumer (env : StartEnv) (sa : ConsumerStartArgs) (p : Client)
  /-- In `pre_start`, at `Topic::create(p, ...)` and `_topic.reset(top)`. -/
  | resetTopic (env : StartEnv) (sa : ConsumerStartArgs) (p : Client)
  /-- In `pre_start`, at `_queue.reset(Queue::create(p))`. -/
  | resetQueue (p : Client)
  /-- In `start`, at `_th = std::thread(...)`. -/
  | assign
  /-- In `stop`, called by the destructor or not. -/
  | stop (dtor : Bool) (pc : StopPc)
  /-- In the destructor, after its body. -/
  | members
  | destroyed

/-- Where a reader is. -/
inductive ReaderPlace where
  /-- In `do_read`; at `.consume` it is about to make the call. -/
  | outside (pc : ReaderPc)
  /-- In the call of `consume`, made on the client `client` with a queue of the client `queue`. -/
  | inside (client queue : Nat)
  deriving DecidableEq, Repr

/-- A thread in `do_read`. -/
structure Reader where
  id : Nat
  place : ReaderPlace
  deriving DecidableEq, Repr

/-- A consumer, its caller with the calls it has still to make, and the reader launched last. From
`destroyed` on the fields are history: the clients that have been destroyed, the exceptions that
left `stop`, and for each `consume` and each callback that has begun the reader that made it. -/
structure Life where
  world : World
  caller : CallerPc
  todo : List Op
  reader : Option Reader
  fault : Option LifeFault
  destroyed : List Nat
  thrown : List JoinError
  consumed : List Nat
  called : List Nat

/-- A newly constructed consumer whose caller is going to make the calls `script` and then to
destroy it. -/
def Life.begin (rb : RbCb) (script : List Op) : Life where
  world := .fresh rb
  caller := .idle
  todo := script
  reader := none
  fault := none
  destroyed := []
  thrown := []
  consumed := []
  called := []

inductive LifeAction where
  | caller
  /-- The reader goes on; `result` is what `consume` returns, if it is there. -/
  | reader (result : Option Message)
  deriving DecidableEq, Repr

/-- `pre_start` up to `Consumer::create`: the client, if one was created, and `errstr`. -/
def createConsumer (env : StartEnv) (clients : Nat) (sa : ConsumerStartArgs) (errstr : String) :
    Option Client × String :=
  match Conf.setAll env.api Conf.create errstr (preStartSettings env.rand sa) with
  | (none, errstr) => (none, errstr)
  | (some gconf, errstr) =>
    match env.consumerCreateFails with
    | some text => (none, text)
    | none => (some { id := clients, kind := .consumer, conf := gconf }, errstr)

namespace Life

def fail (s : Life) (fault : LifeFault) : Life := { s with fault := some fault }

def goto (s : Life) (pc : CallerPc) : Life := { s with caller := pc }

/-- The caller begins its next call. -/
def begins (s : Life) (rest : List Op) (pc : CallerPc) : Life :=
  { s with todo := rest, caller := pc }

/-- The client that `_consumer` holds. -/
def held (s : Life) : List Nat := (s.world.bc.consumer.map Client.id).toList

/-- `Consumer::create` has returned the client `p`. -/
def created (s : Life) (rest : List Op) (env : StartEnv) (sa : ConsumerStartArgs) (p : Client) :
    Life :=
  { s with
    world := { s.world with clients := s.world.clients + 1 }
    todo := rest
    caller := .resetConsumer env sa p }

/-- `_consumer.reset(p)`: the client that it held is destroyed. -/
def resetConsumer (s : Life) (p : Option Client) (pc : CallerPc) : Life :=
  { s with
    world := s.world.resetConsumer p
    destroyed := s.destroyed ++ s.held
    caller := pc }

def resetTopic (s : Life) (t : Option Topic) (pc : CallerPc) : Life :=
  { s with world := s.world.resetTopic t, caller := pc }

def resetQueue (s : Life) (q : Option Queue) (pc : CallerPc) : Life :=
  { s with world := s.world.resetQueue q, caller := pc }

/-- `_th` is given a new thread, and `start` returns true. -/
def launch (s : Life) : Life :=
  { s with
    world := s.world.launch
    reader := some ⟨s.world.readers, .outside .head⟩
    caller := .idle }

/-- Where the caller is when `stop` has returned. -/
def afterStop (dtor : Bool) : CallerPc := if dtor then .members else .idle

/-- `_stop = true`. -/
def raiseStop (s : Life) (pc : CallerPc) : Life :=
  { s with world := { s.world with bc := { s.world.bc with stop := true } }, caller := pc }

/-- `stop` makes the call `call` to the outside. -/
def calls (s : Life) (call : Call) (pc : CallerPc) : Life :=
  { s with world := { s.world with log := s.world.log ++ [call] }, caller := pc }

/-- `_th.join()` of the thread `reader` returns. -/
def joined (s : Life) (reader : Nat) (pc : CallerPc) : Life :=
  { s with world := s.world.join reader, caller := pc }

/-- An exception leaves `stop`. -/
def threw (s : Life) (e : JoinError) : Life :=
  { s with thrown := s.thrown ++ [e], caller := .idle }

/-- The members are destroyed: `_queue`, `_topic` and `_consumer` in this order. -/
def destroy (s : Life) : Life :=
  { s with
    world := { s.world with
      bc := { s.world.bc with consumer := none, topic := none, queue := none } }
    destroyed := s.destroyed ++ s.held
    caller := .destroyed }

/-- The caller begins its next call, or the destructor when there is none. -/
def nextCall (s : Life) : Life :=
  match s.todo with
  | [] => s.goto (.stop true .test)
  | .stop :: rest => s.begins rest (.stop false .test)
  | .start env sa errstr :: rest =>
    match createConsumer env s.world.clients sa errstr with
    | (none, _) => s.begins rest .idle
    | (some p, _) => s.created rest env sa p

/-- The reader has ended. -/
def readerDone (s : Life) : Bool := s.reader.any fun r => r.place = .outside .done

/-- The next step of a call of `stop`. -/
def stopStep (s : Life) (dtor : Bool) : StopPc → Option Life
  | .test =>
    some (s.goto (if s.world.bc.stop then afterStop dtor else .stop dtor .store))
  | .store => some (s.raiseStop (.stop dtor .notify))
  | .notify => some (s.calls .notifyAll (.stop dtor .halt))
  | .halt =>
    match s.world.bc.consumer with
    | none => some (s.fail (.call .nullConsumer))
    | some _ => some (s.calls (.consumerStop s.world.bc.topic 0) (.stop dtor .join))
  | .join =>
    match s.world.bc.th with
    | none => some (if dtor then s.fail (.call .leavesDestructor) else s.threw .notJoinable)
    | some reader => if s.readerDone then some (s.joined reader (.stop dtor .resetQueue)) else none
  | .resetQueue => some (s.resetQueue none (.stop dtor .resetTopic))
  | .resetTopic => some (s.resetTopic none (.stop dtor .resetConsumer))
  | .resetConsumer => some (s.resetConsumer none (afterStop dtor))

def callerStep (s : Life) : Option Life :=
  match s.caller with
  | .idle => some s.nextCall
  | .resetConsumer env sa p => some (s.resetConsumer (some p) (.resetTopic env sa p))
  | .resetTopic env sa p =>
    match env.topicCreateFails with
    | some _ => some (s.goto .idle)
    | none => some (s.resetTopic (some ⟨p.id, sa.topic⟩) (.resetQueue p))
  | .resetQueue p => some (s.resetQueue (some ⟨p.id⟩) .assign)
  | .assign => some (if s.world.bc.th.isSome then s.fail (.call .assignJoinable) else s.launch)
  | .stop dtor pc => s.stopStep dtor pc
  | .members =>
    some (if s.world.bc.th.isSome then s.fail (.call .destroyJoinable) else s.destroy)
  | .destroyed => none

/-- The reader goes to the place `pc`. -/
def readerAt (s : Life) (r : Reader) (pc : ReaderPc) : Life :=
  { s with
    reader := some { r with place := .outside pc }
    called := if pc.inCallback then s.called ++ [r.id] else s.called }

/-- The reader calls `_consumer->consume(_queue.get(), bk_ms)`. -/
def beginConsume (s : Life) (r : Reader) : Life :=
  match s.world.bc.consumer, s.world.bc.queue with
  | none, _ => s.fail (.call .nullConsumer)
  | some _, none => s.fail (.call .nullQueue)
  | some c, some q =>
    { s with
      reader := some { r with place := .inside c.id q.client }
      consumed := s.consumed ++ [r.id] }

def readerStep (s : Life) (result : Option Message) : Option Life :=
  match s.reader with
  | none => none
  | some r =>
    match r.place with
    | .inside client _ =>
      some (if client ∈ s.destroyed then s.fail .destroyedConsumer
        else s.readerAt r (.got result))
    | .outside pc =>
      if pc = .consume then some (s.beginConsume r)
      else (pc.next s.world.bc.stop result).map (s.readerAt r)

end Life

/-- One step of the caller or of the reader. -/
def lifeStep (s : Life) : LifeAction → Option Life
  | .caller => if s.fault = none then s.callerStep else none
  | .reader result => if s.fault = none then s.readerStep result else none

variable {s t u : Life}

/-! ## When a client is created -/

/-- A `start` that comes to `Consumer::create` and gets a client from it. -/
def StartEnv.Creates (env : StartEnv) (sa : ConsumerStartArgs) : Prop :=
  (∀ s ∈ preStartSettings env.rand sa, (env.api.check s.1 s.2).1 = .CONF_OK) ∧
    env.consumerCreateFails = none

instance (env : StartEnv) (sa : ConsumerStartArgs) : Decidable (env.Creates sa) :=
  inferInstanceAs (Decidable (_ ∧ _))

theorem StartEnv.accepts_iff_creates {env : StartEnv} {sa : ConsumerStartArgs} :
    env.Accepts sa ↔ env.Creates sa ∧ env.topicCreateFails = none :=
  and_assoc.symm

theorem createConsumer_isSome (env : StartEnv) (clients : Nat) (sa : ConsumerStartArgs)
    (errstr : String) : (createConsumer env clients sa errstr).1.isSome ↔ env.Creates sa := by
  have hset := Conf.setAll_isSome env.api Conf.create errstr (preStartSettings env.rand sa)
  unfold createConsumer StartEnv.Creates
  rw [← hset]
  rcases Conf.setAll env.api Conf.create errstr (preStartSettings env.rand sa) with
    ⟨_ | gconf, text⟩
  · simp
  · cases env.consumerCreateFails <;> simp

/-- The client that is created is the next one. -/
theorem id_of_createConsumer {env : StartEnv} {clients : Nat} {sa : ConsumerStartArgs}
    {errstr text : String} {p : Client}
    (h : createConsumer env clients sa errstr = (some p, text)) :
    p.id = clients := by
  unfold createConsumer at h
  rcases hconf : Conf.setAll env.api Conf.create errstr (preStartSettings env.rand sa) with
    ⟨_ | gconf, text'⟩
  · rw [hconf] at h
    cases h
  · rw [hconf] at h
    cases hfails : env.consumerCreateFails with
    | some text =>
      rw [hfails] at h
      cases h
    | none =>
      rw [hfails] at h
      cases h
      rfl

theorem createConsumer_of_creates {env : StartEnv} {sa : ConsumerStartArgs} (h : env.Creates sa)
    (clients : Nat) (errstr : String) :
    ∃ p text, createConsumer env clients sa errstr = (some p, text) := by
  rcases hcreate : createConsumer env clients sa errstr with ⟨_ | p, text⟩
  · have hsome := (createConsumer_isSome env clients sa errstr).mpr h
    rw [hcreate] at hsome
    cases hsome
  · exact ⟨p, text, rfl⟩

theorem createConsumer_of_not_creates {env : StartEnv} {sa : ConsumerStartArgs}
    (h : ¬ env.Creates sa) (clients : Nat) (errstr : String) :
    ∃ text, createConsumer env clients sa errstr = (none, text) := by
  rcases hcreate : createConsumer env clients sa errstr with ⟨_ | p, text⟩
  · exact ⟨text, rfl⟩
  · refine absurd ((createConsumer_isSome env clients sa errstr).mp ?_) h
    rw [hcreate]
    rfl

/-- `pre_start` is `createConsumer` and what it does with the client. -/
theorem preStart_eq (env : StartEnv) (w : World) (sa : ConsumerStartArgs) (errstr : String) :
    preStart env w sa errstr =
      match createConsumer env w.clients sa errstr with
      | (none, errstr) => (false, w, errstr)
      | (some p, errstr) =>
        let w := { w with clients := w.clients + 1 }.resetConsumer (some p)
        match env.topicCreateFails with
        | some text => (false, w, text)
        | none =>
          (true, (w.resetTopic (some ⟨p.id, sa.topic⟩)).resetQueue (some ⟨p.id⟩), errstr) := by
  unfold preStart createConsumer
  rcases Conf.setAll env.api Conf.create errstr (preStartSettings env.rand sa) with
    ⟨_ | gconf, text⟩
  · rfl
  · cases env.consumerCreateFails with
    | some text => rfl
    | none => cases env.topicCreateFails <;> rfl

/-! ## The steps as a relation

`Life.Step` names the ways in which `lifeStep` succeeds, with the guard of each; the invariants are
proved by cases on it. -/

inductive Life.Step (s : Life) : Life → Prop
  | beginDestructor (hcaller : s.caller = .idle) (htodo : s.todo = []) :
      Step s (s.goto (.stop true .test))
  | beginStop (rest : List Op) (hcaller : s.caller = .idle) (htodo : s.todo = .stop :: rest) :
      Step s (s.begins rest (.stop false .test))
  | startFails (env : StartEnv) (sa : ConsumerStartArgs) (errstr : String) (rest : List Op)
      (hcaller : s.caller = .idle) (htodo : s.todo = .start env sa errstr :: rest)
      (hfails : ¬ env.Creates sa) : Step s (s.begins rest .idle)
  | startCreates (env : StartEnv) (sa : ConsumerStartArgs) (errstr : String) (rest : List Op)
      (p : Client) (hcaller : s.caller = .idle) (htodo : s.todo = .start env sa errstr :: rest)
      (hcreates : env.Creates sa) (hid : p.id = s.world.clients) :
      Step s (s.created rest env sa p)
  | resetConsumer (env : StartEnv) (sa : ConsumerStartArgs) (p : Client)
      (hcaller : s.caller = .resetConsumer env sa p) :
      Step s (s.resetConsumer (some p) (.resetTopic env sa p))
  | topicFails (env : StartEnv) (sa : ConsumerStartArgs) (p : Client)
      (hcaller : s.caller = .resetTopic env sa p) (htopic : env.topicCreateFails ≠ none) :
      Step s (s.goto .idle)
  | resetTopic (env : StartEnv) (sa : ConsumerStartArgs) (p : Client)
      (hcaller : s.caller = .resetTopic env sa p) (htopic : env.topicCreateFails = none) :
      Step s (s.resetTopic (some ⟨p.id, sa.topic⟩) (.resetQueue p))
  | resetQueue (p : Client) (hcaller : s.caller = .resetQueue p) :
      Step s (s.resetQueue (some ⟨p.id⟩) .assign)
  | assignJoinable (hcaller : s.caller = .assign) (hth : s.world.bc.th ≠ none) :
      Step s (s.fail (.call .assignJoinable))
  | launch (hcaller : s.caller = .assign) (hth : s.world.bc.th = none) : Step s s.launch
  | stopReturns (dtor : Bool) (hcaller : s.caller = .stop dtor .test)
      (hstop : s.world.bc.stop = true) : Step s (s.goto (afterStop dtor))
  | stopProceeds (dtor : Bool) (hcaller : s.caller = .stop dtor .test)
      (hstop : s.world.bc.stop = false) : Step s (s.goto (.stop dtor .store))
  | store (dtor : Bool) (hcaller : s.caller = .stop dtor .store) :
      Step s (s.raiseStop (.stop dtor .notify))
  | notify (dtor : Bool) (hcaller : s.caller = .stop dtor .notify) :
      Step s (s.calls .notifyAll (.stop dtor .halt))
  | halt (dtor : Bool) (hcaller : s.caller = .stop dtor .halt)
      (hconsumer : s.world.bc.consumer ≠ none) :
      Step s (s.calls (.consumerStop s.world.bc.topic 0) (.stop dtor .join))
  | haltNull (dtor : Bool) (hcaller : s.caller = .stop dtor .halt)
      (hconsumer : s.world.bc.consumer = none) : Step s (s.fail (.call .nullConsumer))
  | joinThrows (hcaller : s.caller = .stop false .join) (hth : s.world.bc.th = none) :
      Step s (s.threw .notJoinable)
  | joinTerminates (hcaller : s.caller = .stop true .join) (hth : s.world.bc.th = none) :
      Step s (s.fail (.call .leavesDestructor))
  | join (dtor : Bool) (reader : Nat) (hcaller : s.caller = .stop dtor .join)
      (hth : s.world.bc.th = some reader) (hdone : s.readerDone = true) :
      Step s (s.joined reader (.stop dtor .resetQueue))
  | dropQueue (dtor : Bool) (hcaller : s.caller = .stop dtor .resetQueue) :
      Step s (s.resetQueue none (.stop dtor .resetTopic))
  | dropTopic (dtor : Bool) (hcaller : s.caller = .stop dtor .resetTopic) :
      Step s (s.resetTopic none (.stop dtor .resetConsumer))
  | dropConsumer (dtor : Bool) (hcaller : s.caller = .stop dtor .resetConsumer) :
      Step s (s.resetConsumer none (afterStop dtor))
  | destroyJoinable (hcaller : s.caller = .members) (hth : s.world.bc.th ≠ none) :
      Step s (s.fail (.call .destroyJoinable))
  | destroy (hcaller : s.caller = .members) (hth : s.world.bc.th = none) : Step s s.destroy
  | readerNext (r : Reader) (result : Option Message) (pc pc' : ReaderPc)
      (hreader : s.reader = some r) (hplace : r.place = .outside pc) (hconsume : pc ≠ .consume)
      (hpc : pc.next s.world.bc.stop result = some pc') : Step s (s.readerAt r pc')
  | readerCalls (r : Reader) (c : Client) (q : Queue) (hreader : s.reader = some r)
      (hplace : r.place = .outside .consume) (hconsumer : s.world.bc.consumer = some c)
      (hqueue : s.world.bc.queue = some q) :
      Step s { s with
        reader := some { r with place := .inside c.id q.client }
        consumed := s.consumed ++ [r.id] }
  | readerNull (r : Reader) (fault : Fault) (hreader : s.reader = some r)
      (hplace : r.place = .outside .consume)
      (hhandle : s.world.bc.consumer = none ∨ s.world.bc.queue = none) :
      Step s (s.fail (.call fault))
  | readerReturns (r : Reader) (result : Option Message) (client queue : Nat)
      (hreader : s.reader = some r) (hplace : r.place = .inside client queue)
      (hlive : client ∉ s.destroyed) : Step s (s.readerAt r (.got result))
  | readerDestroyed (r : Reader) (client queue : Nat) (hreader : s.reader = some r)
      (hplace : r.place = .inside client queue) (hdestroyed : client ∈ s.destroyed) :
      Step s (s.fail .destroyedConsumer)

theorem Life.Step.of_nextCall (hcaller : s.caller = .idle) : s.Step s.nextCall := by
  cases htodo : s.todo with
  | nil =>
    have hnext : s.nextCall = s.goto (.stop true .test) := by simp only [Life.nextCall, htodo]
    rw [hnext]
    exact .beginDestructor hcaller htodo
  | cons op rest =>
    cases op with
    | stop =>
      have hnext : s.nextCall = s.begins rest (.stop false .test) := by
        simp only [Life.nextCall, htodo]
      rw [hnext]
      exact .beginStop rest hcaller htodo
    | start env sa errstr =>
      by_cases hcreates : env.Creates sa
      · obtain ⟨p, text, hcreate⟩ := createConsumer_of_creates hcreates s.world.clients errstr
        have hnext : s.nextCall = s.created rest env sa p := by
          simp only [Life.nextCall, htodo, hcreate]
        rw [hnext]
        exact .startCreates env sa errstr rest p hcaller htodo hcreates
          (id_of_createConsumer hcreate)
      · obtain ⟨text, hcreate⟩ := createConsumer_of_not_creates hcreates s.world.clients errstr
        have hnext : s.nextCall = s.begins rest .idle := by
          simp only [Life.nextCall, htodo, hcreate]
        rw [hnext]
        exact .startFails env sa errstr rest hcaller htodo hcreates

theorem Life.Step.of_stopStep {dtor : Bool} {pc : StopPc} (hcaller : s.caller = .stop dtor pc)
    (h : s.stopStep dtor pc = some t) : s.Step t := by
  cases pc with
  | test =>
    cases h
    split
    · rename_i hstop
      exact .stopReturns dtor hcaller hstop
    · rename_i hstop
      exact .stopProceeds dtor hcaller (by simpa using hstop)
  | halt =>
    simp only [Life.stopStep] at h
    split at h
    · rename_i hnone
      cases h
      exact .haltNull dtor hcaller hnone
    · rename_i c hsome
      cases h
      exact .halt dtor hcaller (by simp [hsome])
  | join =>
    simp only [Life.stopStep] at h
    split at h
    · rename_i hth
      cases h
      cases dtor with
      | false => exact .joinThrows hcaller hth
      | true => exact .joinTerminates hcaller hth
    · rename_i reader hth
      obtain ⟨hdone, h⟩ := Option.ite_none_right_eq_some.mp h
      cases h
      exact .join dtor reader hcaller hth hdone
  | store =>
    cases h
    exact .store dtor hcaller
  | notify =>
    cases h
    exact .notify dtor hcaller
  | resetQueue =>
    cases h
    exact .dropQueue dtor hcaller
  | resetTopic =>
    cases h
    exact .dropTopic dtor hcaller
  | resetConsumer =>
    cases h
    exact .dropConsumer dtor hcaller

theorem Life.Step.of_callerStep (h : s.callerStep = some t) : s.Step t := by
  unfold Life.callerStep at h
  split at h
  · rename_i hcaller
    cases h
    exact .of_nextCall hcaller
  · rename_i env sa p hcaller
    cases h
    exact .resetConsumer env sa p hcaller
  · rename_i env sa p hcaller
    split at h
    · rename_i text htopic
      cases h
      exact .topicFails env sa p hcaller (by simp [htopic])
    · rename_i htopic
      cases h
      exact .resetTopic env sa p hcaller htopic
  · rename_i p hcaller
    cases h
    exact .resetQueue p hcaller
  · rename_i hcaller
    cases h
    split
    · rename_i hth
      exact .assignJoinable hcaller (Option.isSome_iff_ne_none.mp hth)
    · rename_i hth
      exact .launch hcaller (Option.not_isSome_iff_eq_none.mp hth)
  · rename_i dtor pc hcaller
    exact .of_stopStep hcaller h
  · rename_i hcaller
    cases h
    split
    · rename_i hth
      exact .destroyJoinable hcaller (Option.isSome_iff_ne_none.mp hth)
    · rename_i hth
      exact .destroy hcaller (Option.not_isSome_iff_eq_none.mp hth)
  · cases h

theorem Life.Step.of_readerStep {result : Option Message} (h : s.readerStep result = some t) :
    s.Step t := by
  unfold Life.readerStep at h
  split at h
  · cases h
  · rename_i r hreader
    split at h
    · rename_i client queue hplace
      cases h
      split
      · rename_i hdestroyed
        exact .readerDestroyed r client queue hreader hplace hdestroyed
      · rename_i hlive
        exact .readerReturns r result client queue hreader hplace hlive
    · rename_i pc hplace
      split at h
      · rename_i hconsume
        cases h
        subst hconsume
        unfold Life.beginConsume
        split
        · rename_i hnone
          exact .readerNull r _ hreader hplace (.inl hnone)
        · rename_i hnone
          exact .readerNull r _ hreader hplace (.inr hnone)
        · rename_i c q hconsumer hqueue
          exact .readerCalls r c q hreader hplace hconsumer hqueue
      · rename_i hconsume
        obtain ⟨pc', hpc, rfl⟩ := Option.map_eq_some_iff.mp h
        exact .readerNext r result pc pc' hreader hplace hconsume hpc

/-- Before a step nothing has ended the program. -/
theorem Life.Step.of_lifeStep {a : LifeAction} (h : lifeStep s a = some t) :
    s.fault = none ∧ s.Step t := by
  cases a with
  | caller =>
    obtain ⟨hfault, h⟩ := Option.ite_none_right_eq_some.mp h
    exact ⟨hfault, .of_callerStep h⟩
  | reader result =>
    obtain ⟨hfault, h⟩ := Option.ite_none_right_eq_some.mp h
    exact ⟨hfault, .of_readerStep h⟩

/-! ## Calls that are not interrupted

A call during which the reader moves only when the join waits for it does what the call does as a
function. -/

/-- The caller is between two calls and is going to make the calls `ops`. -/
structure Life.Between (s : Life) (ops : List Op) : Prop where
  caller : s.caller = .idle
  fault : s.fault = none
  todo : s.todo = ops

theorem run_lifeCaller {as : List LifeAction} (hfault : s.fault = none) (h : s.callerStep = some t)
    (hrun : run lifeStep t as = some u) : run lifeStep s (.caller :: as) = some u := by
  have hlife : lifeStep s .caller = some t := (if_pos hfault).trans h
  exact run_cons_eq_some.mpr ⟨t, hlife, hrun⟩

theorem Life.Between.callerStep {ops : List Op} (h : s.Between ops) :
    s.callerStep = some s.nextCall := by
  rw [Life.callerStep, h.caller]

/-- The end of a `start` that has a client. -/
theorem Life.run_created (env : StartEnv) (sa : ConsumerStartArgs) (rest : List Op) (p : Client)
    (hfault : s.fault = none) :
    ∃ as t, run lifeStep (s.created rest env sa p) as = some t ∧
      let w := { s.world with clients := s.world.clients + 1 }.resetConsumer (some p)
      if env.topicCreateFails = none then
        let w := (w.resetTopic (some ⟨p.id, sa.topic⟩)).resetQueue (some ⟨p.id⟩)
        if s.world.bc.th.isSome then t.fault = some (.call .assignJoinable)
        else t.Between rest ∧ t.world = w.launch ∧
          t.reader = some ⟨s.world.readers, .outside .head⟩
      else t.Between rest ∧ t.world = w ∧ t.reader = s.reader := by
  let v := (s.created rest env sa p).resetConsumer (some p) (.resetTopic env sa p)
  have hv : (s.created rest env sa p).callerStep = some v := rfl
  cases htopic : env.topicCreateFails with
  | some text =>
    have hidle : v.callerStep = some (v.goto .idle) := by
      simp only [Life.callerStep, v, Life.resetConsumer, htopic]
    refine ⟨_, _, run_lifeCaller hfault hv (run_lifeCaller hfault hidle run_nil), ?_⟩
    exact ⟨⟨rfl, hfault, rfl⟩, rfl, rfl⟩
  | none =>
    let w := v.resetTopic (some ⟨p.id, sa.topic⟩) (.resetQueue p)
    let x := w.resetQueue (some ⟨p.id⟩) .assign
    have hw : v.callerStep = some w := by
      simp only [Life.callerStep, v, w, Life.resetConsumer, htopic]
    have hassign : x.callerStep = some (if s.world.bc.th.isSome then x.fail (.call .assignJoinable)
        else x.launch) := rfl
    refine ⟨_, _, run_lifeCaller hfault hv (run_lifeCaller hfault hw
      (run_lifeCaller hfault rfl (run_lifeCaller hfault hassign run_nil))), ?_⟩
    simp only [if_true]
    split
    · rfl
    · exact ⟨⟨rfl, hfault, rfl⟩, rfl, rfl⟩

theorem Life.Between.run_start {env : StartEnv} {sa : ConsumerStartArgs} {errstr : String}
    {rest : List Op} (h : s.Between (.start env sa errstr :: rest)) :
    ∃ as t, run lifeStep s as = some t ∧
      match BasicConsumer.start env s.world sa errstr with
      | .ok (started, w, _) => t.Between rest ∧ t.world = w ∧
        t.reader = if started then some ⟨s.world.readers, .outside .head⟩ else s.reader
      | .error fault => t.fault = some (.call fault) := by
  rcases hcreate : createConsumer env s.world.clients sa errstr with ⟨_ | p, text⟩
  · have hnext : s.nextCall = s.begins rest .idle := by
      simp only [Life.nextCall, h.todo, hcreate]
    refine ⟨_, _, run_lifeCaller h.fault (h.callerStep.trans (congrArg some hnext)) run_nil, ?_⟩
    rw [BasicConsumer.start, preStart_eq, hcreate]
    exact ⟨⟨rfl, h.fault, rfl⟩, rfl, rfl⟩
  · have hnext : s.nextCall = s.created rest env sa p := by
      simp only [Life.nextCall, h.todo, hcreate]
    obtain ⟨as, t, hrun, ht⟩ := Life.run_created env sa rest p h.fault
    refine ⟨_, t, run_lifeCaller h.fault (h.callerStep.trans (congrArg some hnext)) hrun, ?_⟩
    rw [BasicConsumer.start, preStart_eq, hcreate]
    cases htopic : env.topicCreateFails with
    | some text' => simpa [htopic] using ht
    | none =>
      rw [if_pos htopic] at ht
      by_cases hth : s.world.bc.th.isSome
      · rw [if_pos hth] at ht
        have hth' : (World.resetQueue (World.resetTopic (World.resetConsumer
            { s.world with clients := s.world.clients + 1 } (some p)) (some ⟨p.id, sa.topic⟩))
              (some ⟨p.id⟩)).bc.th.isSome := hth
        simpa only [htopic, hth', if_true] using ht
      · rw [if_neg hth] at ht
        have hth' : ¬ (World.resetQueue (World.resetTopic (World.resetConsumer
            { s.world with clients := s.world.clients + 1 } (some p)) (some ⟨p.id, sa.topic⟩))
              (some ⟨p.id⟩)).bc.th.isSome := hth
        simpa only [htopic, hth', Bool.false_eq_true, if_false, if_true] using ht

/-- The reader that `stop` is going to join, if there is one, is at its loop head. -/
def Life.Waiting (s : Life) : Prop :=
  s.world.bc.th ≠ none → ∃ r, s.reader = some ⟨r, .outside .head⟩

/-- A call of `stop`, in the destructor or not, that the reader does not interrupt. -/
theorem Life.Waiting.run_stop {dtor : Bool} (h : s.Waiting) (hcaller : s.caller = .stop dtor .test)
    (hfault : s.fault = none) :
    ∃ as t, run lifeStep s as = some t ∧
      match BasicConsumer.stop s.world with
      | .ok (w, none) => t.world = w ∧ t.caller = Life.afterStop dtor ∧ t.todo = s.todo ∧
        t.fault = none ∧ t.thrown = s.thrown ∧ t.Waiting
      | .ok (w, some e) => if dtor then t.fault = some (.call .leavesDestructor)
        else t.world = w ∧ t.caller = .idle ∧ t.todo = s.todo ∧ t.fault = none ∧
          t.thrown = s.thrown ++ [e] ∧ t.Waiting
      | .error fault => t.fault = some (.call fault) := by
  cases hstop : s.world.bc.stop with
  | true =>
    refine ⟨[.caller], s.goto (Life.afterStop dtor), ?_, ?_⟩
    · simp [run, lifeStep, Life.callerStep, Life.stopStep, hcaller, hfault, hstop]
    · rw [BasicConsumer.stop, if_pos hstop]
      exact ⟨rfl, rfl, rfl, hfault, rfl, h⟩
  | false =>
    cases hconsumer : s.world.bc.consumer with
    | none =>
      refine ⟨List.replicate 4 .caller, ?_⟩
      simp [run, lifeStep, Life.callerStep, Life.stopStep, Life.goto, Life.raiseStop, Life.calls,
        Life.fail, BasicConsumer.stop, hcaller, hfault, hstop, hconsumer]
    | some c =>
      cases hth : s.world.bc.th with
      | none =>
        refine ⟨List.replicate 5 .caller, ?_⟩
        cases dtor <;>
          simp [run, lifeStep, Life.callerStep, Life.stopStep, Life.goto, Life.raiseStop,
            Life.calls, Life.threw, Life.fail, Life.Waiting, BasicConsumer.stop, hcaller, hfault,
            hstop, hconsumer, hth]
      | some reader =>
        obtain ⟨r, hr⟩ := h (by simp [hth])
        -- up to the join, the reader's way out of its loop, from the join on
        refine ⟨List.replicate 4 .caller ++ List.replicate 2 (.reader none) ++
          List.replicate 4 .caller, ?_⟩
        simp [run, lifeStep, Life.callerStep, Life.stopStep, Life.goto, Life.raiseStop, Life.calls,
          Life.readerStep, Life.readerAt, Life.readerDone, Life.joined, Life.resetQueue,
          Life.resetTopic, Life.resetConsumer, Life.Waiting, ReaderPc.next, ReaderPc.inCallback,
          BasicConsumer.stop, World.join, World.resetQueue, World.resetTopic, World.resetConsumer,
          hcaller, hfault, hstop, hconsumer, hth, hr]

theorem Life.Between.run_start_waiting {env : StartEnv} {sa : ConsumerStartArgs} {errstr : String}
    {rest : List Op} (h : s.Between (.start env sa errstr :: rest)) (hs : s.Waiting) :
    ∃ as t, run lifeStep s as = some t ∧
      match (Op.start env sa errstr).exec s.world with
      | .ok w => t.Between rest ∧ t.Waiting ∧ t.world = w
      | .error fault => t.fault = some (.call fault) := by
  obtain ⟨as, t, hrun, ht⟩ := h.run_start
  refine ⟨as, t, hrun, ?_⟩
  rcases hstart : BasicConsumer.start env s.world sa errstr with fault | ⟨started, w, text⟩
  · rw [hstart] at ht
    rw [Op.exec, hstart]
    exact ht
  · rw [hstart] at ht
    obtain ⟨hbetween, hworld, hreader⟩ := ht
    rw [Op.exec, hstart]
    refine ⟨hbetween, ?_, hworld⟩
    intro hth
    cases started with
    | true => exact ⟨_, hreader⟩
    | false =>
      -- a `start` that fails leaves `_th` and the reader
      have hfails : ¬ env.Accepts sa := by
        intro haccepts
        obtain ⟨gconf, text', htrue⟩ := start_of_accepts haccepts s.world errstr
        rw [hstart] at htrue
        split at htrue <;> cases htrue
      obtain ⟨v, text', hfalse, hv⟩ := start_of_not_accepts hfails s.world errstr
      rw [hstart] at hfalse
      cases hfalse
      have hsame : t.world.bc.th = s.world.bc.th := by
        rw [hworld]
        rcases hv with rfl | ⟨gconf, rfl⟩ <;> rfl
      obtain ⟨r, hr⟩ := hs (hsame ▸ hth)
      exact ⟨r, hreader.trans hr⟩

theorem Life.Between.run_stop_waiting {rest : List Op} (h : s.Between (.stop :: rest))
    (hs : s.Waiting) :
    ∃ as t, run lifeStep s as = some t ∧
      match Op.stop.exec s.world with
      | .ok w => t.Between rest ∧ t.Waiting ∧ t.world = w
      | .error fault => t.fault = some (.call fault) := by
  have hnext : s.nextCall = s.begins rest (.stop false .test) := by
    simp only [Life.nextCall, h.todo]
  have hwaiting : (s.begins rest (.stop false .test)).Waiting := hs
  obtain ⟨as, t, hrun, ht⟩ := hwaiting.run_stop rfl h.fault
  refine ⟨_, t, run_lifeCaller h.fault (h.callerStep.trans (congrArg some hnext)) hrun, ?_⟩
  have hworld : (s.begins rest (.stop false .test)).world = s.world := rfl
  rw [hworld] at ht
  rw [Op.exec]
  rcases hstop : BasicConsumer.stop s.world with fault | ⟨w, _ | e⟩
  · rw [hstop] at ht
    exact ht
  · rw [hstop] at ht
    obtain ⟨hw, hcaller, htodo, hfault, -, hwait⟩ := ht
    exact ⟨⟨hcaller, hfault, htodo⟩, hwait, hw⟩
  · rw [hstop] at ht
    obtain ⟨hw, hcaller, htodo, hfault, -, hwait⟩ := ht
    exact ⟨⟨hcaller, hfault, htodo⟩, hwait, hw⟩

/-- A history of calls that the sequential model carries out is one that a life can carry out, with
the same effect on the object and to the outside; and so is one that ends in a fault. -/
theorem Life.Between.run_exec {ops rest : List Op} (h : s.Between (ops ++ rest)) (hs : s.Waiting) :
    ∃ as t, run lifeStep s as = some t ∧
      match exec s.world ops with
      | .ok w => t.Between rest ∧ t.Waiting ∧ t.world = w
      | .error fault => t.fault = some (.call fault) := by
  induction ops generalizing s with
  | nil => exact ⟨[], s, rfl, h, hs, rfl⟩
  | cons op ops ih =>
    have hop : ∃ as t, run lifeStep s as = some t ∧
        match op.exec s.world with
        | .ok w => t.Between (ops ++ rest) ∧ t.Waiting ∧ t.world = w
        | .error fault => t.fault = some (.call fault) := by
      cases op with
      | start env sa errstr => exact h.run_start_waiting hs
      | stop => exact h.run_stop_waiting hs
    obtain ⟨as, t, hrun, ht⟩ := hop
    rw [exec]
    cases hexec : op.exec s.world with
    | error fault =>
      rw [hexec] at ht
      exact ⟨as, t, hrun, ht⟩
    | ok w =>
      rw [hexec] at ht
      obtain ⟨hbetween, hwaiting, rfl⟩ := ht
      obtain ⟨bs, u, hrun', hu⟩ := ih hbetween hwaiting
      exact ⟨as ++ bs, u, run_append_eq_some.mpr ⟨t, hrun, hrun'⟩, hu⟩

theorem Life.run_begin (rb : RbCb) (ops rest : List Op) :
    ∃ as t, run lifeStep (Life.begin rb (ops ++ rest)) as = some t ∧
      match exec (World.fresh rb) ops with
      | .ok w => t.Between rest ∧ t.Waiting ∧ t.world = w
      | .error fault => t.fault = some (.call fault) := by
  have hbegin : (Life.begin rb (ops ++ rest)).Between (ops ++ rest) := ⟨rfl, rfl, rfl⟩
  exact hbegin.run_exec fun hth => absurd rfl hth

/-- Every history of calls on a new consumer, as the sequential model carries it out, is a
beginning of a life. -/
theorem life_carries_out (rb : RbCb) (history rest : List Op) :
    ∃ as s, run lifeStep (Life.begin rb (history ++ rest)) as = some s ∧
      match exec (World.fresh rb) history with
      | .ok w => s.Between rest ∧ s.world = w
      | .error fault => s.fault = some (.call fault) := by
  obtain ⟨as, s, hrun, hs⟩ := Life.run_begin rb history rest
  refine ⟨as, s, hrun, ?_⟩
  cases hexec : exec (World.fresh rb) history with
  | error fault =>
    rw [hexec] at hs
    exact hs
  | ok w =>
    rw [hexec] at hs
    exact ⟨hs.1, hs.2.2⟩

end TsKafka.BasicConsumer
