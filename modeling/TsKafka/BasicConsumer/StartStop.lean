import TsKafka.BasicConsumer.Rebalance

/-!
# `pre_start`, `start`, `stop` and the destructor (`basic_consumer.cpp:36-43, 144-195`)

The calls of one thread on a `basic_consumer`, as functions on its members. librdkafka's answers
are the argument `StartEnv`. A call returns, throws the `std::system_error` of
`std::thread::join`, or ends the program (`Fault`).
-/

namespace TsKafka.BasicConsumer
open RdKafka

/-- `consumer_start_args` (`basic_consumer.hpp:16-20`). -/
structure ConsumerStartArgs extends DefArg where
  startOffset : Int64
  consumeBlockTimeMs : Int32 := 1000

/-- The members of `basic_consumer` (`basic_consumer.hpp:58-66`) but its mutex and condition
variable. A thread is its number; `_th` is joinable when it has one. -/
structure Members where
  stop : Bool
  th : Option Nat
  rbCb : RbCb
  consumer : Option Client
  topic : Option Topic
  queue : Option Queue

/-- What is done to the outside: the handles a `unique_ptr` is given, librdkafka's calls that
start or stop a partition, threads. -/
inductive Call where
  | resetConsumer (client : Option Nat)
  | resetTopic (client : Option Nat)
  | resetQueue (client : Option Nat)
  /-- `Consumer::start(topic, partition, offset, queue)`. -/
  | consumerStart (topic : Topic) (partition : Int32) (offset : Int64) (queue : Queue)
  /-- `Consumer::stop(topic, partition)`. -/
  | consumerStop (topic : Option Topic) (partition : Int32)
  | notifyAll
  | launch (reader : Nat)
  | join (reader : Nat)
  deriving DecidableEq, Repr

/-- A consumer object and its history: `clients` and `readers` number the librdkafka clients and
the reader threads that have been created. -/
structure World where
  bc : Members
  clients : Nat
  readers : Nat
  log : List Call

/-- A newly constructed consumer; `rb` is what its atomics happen to hold. -/
def World.fresh (rb : RbCb) : World where
  bc := { stop := false, th := none, rbCb := rb, consumer := none, topic := none, queue := none }
  clients := 0
  readers := 0
  log := []

namespace World

def resetConsumer (w : World) (c : Option Client) : World :=
  { w with bc := { w.bc with consumer := c }, log := w.log ++ [.resetConsumer (c.map Client.id)] }

def resetTopic (w : World) (t : Option Topic) : World :=
  { w with bc := { w.bc with topic := t }, log := w.log ++ [.resetTopic (t.map Topic.client)] }

def resetQueue (w : World) (q : Option Queue) : World :=
  { w with bc := { w.bc with queue := q }, log := w.log ++ [.resetQueue (q.map Queue.client)] }

/-- `_th = std::thread(&basic_consumer::do_read<callback_t>, ...)`. -/
def launch (w : World) : World :=
  { w with
    bc := { w.bc with th := some w.readers }
    readers := w.readers + 1
    log := w.log ++ [.launch w.readers] }

/-- `_th.join()` of the thread `reader` returns. -/
def join (w : World) (reader : Nat) : World :=
  { w with bc := { w.bc with th := none }, log := w.log ++ [.join reader] }

end World

/-! ## `pre_start` and `start` -/

/-- What librdkafka and `rand` answer to one `pre_start`. A `create` that fails returns null and
leaves a text in `errstr`. -/
structure StartEnv where
  rand : Int32
  api : ConfApi
  consumerCreateFails : Option String
  topicCreateFails : Option String

/-- The settings of `pre_start` in the order in which it makes them. -/
def preStartSettings (rand : Int32) (sa : ConsumerStartArgs) : List (String × ConfValue) :=
  [("metadata.broker.list", .text sa.endpoint), ("group.id", .text (toString rand.toInt)),
    ("rebalance_cb", .rebalanceCb)] ++ sa.params.entries.map fun kv => (kv.1, .text kv.2)

/-- `pre_start` (`basic_consumer.cpp:144-178`): the result, the object, `errstr`. -/
def preStart (env : StartEnv) (w : World) (sa : ConsumerStartArgs) (errstr : String) :
    Bool × World × String :=
  match Conf.setAll env.api Conf.create errstr (preStartSettings env.rand sa) with
  | (none, errstr) => (false, w, errstr)
  | (some gconf, errstr) =>
    match env.consumerCreateFails with
    | some text => (false, w, text)
    | none =>
      let p : Client := { id := w.clients, kind := .consumer, conf := gconf }
      let w := { w with clients := w.clients + 1 }.resetConsumer (some p)
      match env.topicCreateFails with
      | some text => (false, w, text)
      | none =>
        let w := w.resetTopic (some ⟨p.id, sa.topic⟩)
        (true, w.resetQueue (some ⟨p.id⟩), errstr)

/-- What ends the program. -/
inductive Fault where
  /-- A call through a null `_consumer`. -/
  | nullConsumer
  /-- `consume` is handed a null `_queue`. -/
  | nullQueue
  /-- A thread assigned to a joinable `std::thread`: `std::terminate`. -/
  | assignJoinable
  /-- A joinable `std::thread` destroyed: `std::terminate`. -/
  | destroyJoinable
  /-- An exception leaves the destructor: `std::terminate`. -/
  | leavesDestructor
  deriving DecidableEq, Repr

/-- The conditions of the `std::system_error` that `std::thread::join` throws. -/
inductive JoinError where
  /-- `invalid_argument`: the thread is not joinable. -/
  | notJoinable
  /-- `resource_deadlock_would_occur`: a thread joins itself. -/
  | deadlock
  deriving DecidableEq, Repr

/-- `start` (`basic_consumer.hpp:74-82`). -/
def start (env : StartEnv) (w : World) (sa : ConsumerStartArgs) (errstr : String) :
    Except Fault (Bool × World × String) :=
  match preStart env w sa errstr with
  | (false, w, errstr) => .ok (false, w, errstr)
  | (true, w, errstr) =>
    if w.bc.th.isSome then .error .assignJoinable else .ok (true, w.launch, errstr)

/-! ## `stop` and the destructor -/

/-- `stop` (`basic_consumer.cpp:180-195`), called from a thread that is not the reader: the object
and the exception that leaves it. -/
def stop (w : World) : Except Fault (World × Option JoinError) :=
  if w.bc.stop then .ok (w, none)
  else
    let w : World := { w with bc := { w.bc with stop := true }, log := w.log ++ [.notifyAll] }
    match w.bc.consumer with
    | none => .error .nullConsumer
    | some _ =>
      let w : World := { w with log := w.log ++ [.consumerStop w.bc.topic 0] }
      match w.bc.th with
      | none => .ok (w, some .notJoinable)
      | some reader =>
        .ok ((((w.join reader).resetQueue none).resetTopic none).resetConsumer none, none)

/-- The destructor (`basic_consumer.cpp:40-43`) and the destruction of `_th`. -/
def destructor (w : World) : Except Fault World :=
  match stop w with
  | .error fault => .error fault
  | .ok (_, some _) => .error .leavesDestructor
  | .ok (w, none) => if w.bc.th.isSome then .error .destroyJoinable else .ok w

/-! ## What the calls do -/

/-- Every setting is accepted and both `create` calls return a handle. -/
def StartEnv.Accepts (env : StartEnv) (sa : ConsumerStartArgs) : Prop :=
  (∀ s ∈ preStartSettings env.rand sa, (env.api.check s.1 s.2).1 = .CONF_OK) ∧
    env.consumerCreateFails = none ∧ env.topicCreateFails = none

instance (env : StartEnv) (sa : ConsumerStartArgs) : Decidable (env.Accepts sa) :=
  inferInstanceAs (Decidable (_ ∧ _))

/-- The object after a `pre_start` that went through. -/
def World.started (w : World) (gconf : Conf) (sa : ConsumerStartArgs) : World :=
  (({ w with clients := w.clients + 1 }.resetConsumer
    (some { id := w.clients, kind := .consumer, conf := gconf })).resetTopic
      (some ⟨w.clients, sa.topic⟩)).resetQueue (some ⟨w.clients⟩)

theorem preStart_of_accepts {env : StartEnv} {sa : ConsumerStartArgs} (h : env.Accepts sa)
    (w : World) (errstr : String) :
    ∃ gconf errstr', preStart env w sa errstr = (true, w.started gconf sa, errstr') := by
  obtain ⟨hset, hconsumer, htopic⟩ := h
  rcases hconf : Conf.setAll env.api Conf.create errstr (preStartSettings env.rand sa) with
    ⟨conf, errstr'⟩
  have hsome : conf.isSome := by
    have hsome := (Conf.setAll_isSome env.api Conf.create errstr _).mpr hset
    rwa [hconf] at hsome
  obtain ⟨gconf, rfl⟩ := Option.isSome_iff_exists.mp hsome
  refine ⟨gconf, errstr', ?_⟩
  simp [preStart, hconf, hconsumer, htopic, World.started, World.resetConsumer]

/-- What a `pre_start` that returned true leaves. -/
theorem preStart_true {env : StartEnv} {w w' : World} {sa : ConsumerStartArgs}
    {errstr errstr' : String} (h : preStart env w sa errstr = (true, w', errstr')) :
    ∃ gconf text, Conf.setAll env.api Conf.create errstr (preStartSettings env.rand sa) =
      (some gconf, text) ∧ w' = w.started gconf sa := by
  unfold preStart at h
  rcases hconf : Conf.setAll env.api Conf.create errstr (preStartSettings env.rand sa) with
    ⟨_ | gconf, text⟩
  · rw [hconf] at h
    cases h
  · rw [hconf] at h
    cases hconsumer : env.consumerCreateFails with
    | some text => simp [hconsumer] at h
    | none =>
      cases htopic : env.topicCreateFails with
      | some text => simp [hconsumer, htopic] at h
      | none =>
        simp only [hconsumer, htopic, Prod.mk.injEq, true_and] at h
        exact ⟨gconf, text, rfl, h.1.symm⟩

/-- Everything goes through but the last `create`. -/
def StartEnv.FailsAtTopic (env : StartEnv) (sa : ConsumerStartArgs) : Prop :=
  (∀ s ∈ preStartSettings env.rand sa, (env.api.check s.1 s.2).1 = .CONF_OK) ∧
    env.consumerCreateFails = none ∧ env.topicCreateFails ≠ none

instance (env : StartEnv) (sa : ConsumerStartArgs) : Decidable (env.FailsAtTopic sa) :=
  inferInstanceAs (Decidable (_ ∧ _))

theorem StartEnv.FailsAtTopic.not_accepts {env : StartEnv} {sa : ConsumerStartArgs}
    (h : env.FailsAtTopic sa) : ¬ env.Accepts sa := by
  rintro ⟨-, -, htopic⟩
  exact h.2.2 htopic

/-- A `pre_start` that fails in `Topic::create` leaves a new `_consumer`. -/
theorem preStart_of_failsAtTopic {env : StartEnv} {sa : ConsumerStartArgs}
    (h : env.FailsAtTopic sa) (w : World) (errstr : String) :
    ∃ gconf errstr', preStart env w sa errstr = (false, { w with
      clients := w.clients + 1 }.resetConsumer
        (some { id := w.clients, kind := .consumer, conf := gconf }), errstr') := by
  obtain ⟨hset, hconsumer, htopic⟩ := h
  obtain ⟨text, htopic⟩ := Option.ne_none_iff_exists'.mp htopic
  rcases hconf : Conf.setAll env.api Conf.create errstr (preStartSettings env.rand sa) with
    ⟨conf, errstr'⟩
  have hsome := (Conf.setAll_isSome env.api Conf.create errstr _).mpr hset
  rw [hconf] at hsome
  obtain ⟨gconf, rfl⟩ := Option.isSome_iff_exists.mp hsome
  refine ⟨gconf, text, ?_⟩
  simp [preStart, hconf, hconsumer, htopic]

/-- A `pre_start` that fails at an earlier exit leaves the object as it was. -/
theorem preStart_of_fails_earlier {env : StartEnv} {sa : ConsumerStartArgs}
    (h : ¬ env.Accepts sa) (htopic : ¬ env.FailsAtTopic sa) (w : World) (errstr : String) :
    ∃ errstr', preStart env w sa errstr = (false, w, errstr') := by
  unfold preStart
  rcases hconf : Conf.setAll env.api Conf.create errstr (preStartSettings env.rand sa) with
    ⟨_ | gconf, errstr'⟩
  · exact ⟨errstr', rfl⟩
  · cases hconsumer : env.consumerCreateFails with
    | some text => exact ⟨text, rfl⟩
    | none =>
      have hset : ∀ s ∈ preStartSettings env.rand sa, (env.api.check s.1 s.2).1 = .CONF_OK := by
        apply (Conf.setAll_isSome env.api Conf.create errstr _).mp
        rw [hconf]
        rfl
      by_cases hnone : env.topicCreateFails = none
      · exact absurd ⟨hset, hconsumer, hnone⟩ h
      · exact absurd ⟨hset, hconsumer, hnone⟩ htopic

/-- A `pre_start` that fails leaves the object as it was, or with a new `_consumer`. -/
theorem preStart_of_not_accepts {env : StartEnv} {sa : ConsumerStartArgs} (h : ¬ env.Accepts sa)
    (w : World) (errstr : String) :
    ∃ w' errstr', preStart env w sa errstr = (false, w', errstr') ∧
      (w' = w ∨ ∃ gconf, w' = { w with clients := w.clients + 1 }.resetConsumer
        (some { id := w.clients, kind := .consumer, conf := gconf })) := by
  by_cases htopic : env.FailsAtTopic sa
  · obtain ⟨gconf, errstr', hpre⟩ := preStart_of_failsAtTopic htopic w errstr
    exact ⟨_, errstr', hpre, .inr ⟨gconf, rfl⟩⟩
  · obtain ⟨errstr', hpre⟩ := preStart_of_fails_earlier h htopic w errstr
    exact ⟨w, errstr', hpre, .inl rfl⟩

theorem start_of_accepts {env : StartEnv} {sa : ConsumerStartArgs} (h : env.Accepts sa)
    (w : World) (errstr : String) :
    ∃ gconf errstr', start env w sa errstr =
      if w.bc.th.isSome then .error .assignJoinable
      else .ok (true, (w.started gconf sa).launch, errstr') := by
  obtain ⟨gconf, errstr', hpre⟩ := preStart_of_accepts h w errstr
  refine ⟨gconf, errstr', ?_⟩
  rw [start, hpre]
  rfl

theorem start_of_not_accepts {env : StartEnv} {sa : ConsumerStartArgs} (h : ¬ env.Accepts sa)
    (w : World) (errstr : String) :
    ∃ w' errstr', start env w sa errstr = .ok (false, w', errstr') ∧
      (w' = w ∨ ∃ gconf, w' = { w with clients := w.clients + 1 }.resetConsumer
        (some { id := w.clients, kind := .consumer, conf := gconf })) := by
  obtain ⟨w', errstr', hpre, hw'⟩ := preStart_of_not_accepts h w errstr
  refine ⟨w', errstr', ?_, hw'⟩
  rw [start, hpre]

/-- What a `start` that returned true leaves. -/
theorem start_ok_true {env : StartEnv} {v w : World} {sa : ConsumerStartArgs}
    {errstr errstr' : String} (h : start env v sa errstr = .ok (true, w, errstr')) :
    ∃ gconf, w = (v.started gconf sa).launch := by
  by_cases haccepts : env.Accepts sa
  · obtain ⟨gconf, text, hstart⟩ := start_of_accepts haccepts v errstr
    rw [h] at hstart
    split at hstart
    · cases hstart
    · cases hstart
      exact ⟨gconf, rfl⟩
  · obtain ⟨w', text, hstart, -⟩ := start_of_not_accepts haccepts v errstr
    rw [h] at hstart
    cases hstart

end TsKafka.BasicConsumer
