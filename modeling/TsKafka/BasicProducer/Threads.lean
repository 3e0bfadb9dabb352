import TsKafka.BasicProducer.Push
import TsKafka.Library.PartialRun
import Mathlib.Data.Fintype.Basic

/-!
# The threads of a connected `basic_producer`

Any number of threads `τ` call `push` on one producer whose `connect` has returned true, next to
its polling thread (`bg_pool`), librdkafka and, at the end, the destructor. A step is one access
to what the threads share: a call on the producer handle, or a read or write of `_stop`. Every
answer of librdkafka and every value read from a cancel token is part of the label of the step.

librdkafka is kept to what `rdkafkacpp.h` says of it: `produce` appends a copy of the record
exactly when it returns `ERR_NO_ERROR`; later it settles the status of a queued message, at most
once; `poll` hands settled reports to `dr_cb`; destroying the handle drops what is queued. A poll
and its calls of `dr_cb` are one step here; `TsKafka.BasicProducer.Reports` takes them apart.
-/

namespace TsKafka.BasicProducer
open RdKafka PartialRun

/-- Where a call of `push` is. -/
inductive PushPc where
  /-- At `_producer->produce(...)` (line 21). -/
  | produce
  /-- At `switch (err)` (line 30). -/
  | switch (err : ErrorCode)
  /-- At the `poll(1)` of line 33. -/
  | pollOk
  /-- At the `poll(1)` of line 39. -/
  | pollContinue
  deriving DecidableEq, Repr

/-- A call of `push` in progress. `msg` is history: the message the call has got accepted. -/
structure Frame where
  data : TimedDataRaw
  hasToken : Bool
  pc : PushPc
  msg : Option Nat
  deriving DecidableEq, Repr

/-- The call has its record accepted and has not returned. -/
def Frame.committed (f : Frame) : Bool :=
  f.pc = .switch .ERR_NO_ERROR ∨ f.pc = .pollOk

/-- A call of `push` that has returned. -/
structure Returned where
  data : TimedDataRaw
  status : ProducerStatus
  msg : Option Nat
  deriving DecidableEq, Repr

/-- Where `bg_pool` is (`basic_producer.cpp:56-60`). -/
inductive BgPc where
  /-- At the test `!_stop`. -/
  | test
  /-- In `_producer->poll(500)`. -/
  | poll
  | done
  deriving DecidableEq, Repr

/-- The members of `basic_producer` (`basic_producer.hpp:35-40`). -/
inductive Member where
  | topic
  | drCb
  | ev
  | producer
  | pollTh
  | stop
  deriving DecidableEq, Repr

/-- The order in which the members are destroyed: the reverse of their declarations. -/
def membersInDestructionOrder : List Member :=
  [.topic, .drCb, .ev, .producer, .pollTh, .stop].reverse

/-- Where the destructor is (`basic_producer.cpp:12-16`). -/
inductive DtorPc where
  | notCalled
  /-- At `_poll_th.join()`. -/
  | join
  /-- After its body, with the members that are still to be destroyed. -/
  | members (left : List Member)
  deriving DecidableEq, Repr

/-- A delivery report: the message it is about, its `err()` and its `errstr()`. -/
structure Report where
  msg : Nat
  err : ErrorCode
  errstr : String
  deriving DecidableEq, Repr

/-- A producer with its threads and its librdkafka client. Messages are numbered in the order in
which librdkafka accepted them; `accepted`, `reported`, `called` and `returned` are history. -/
structure State (τ : Type) where
  topic : String
  stop : Bool
  /-- `_producer` holds its handle. -/
  handle : Bool
  frame : τ → Option Frame
  bg : BgPc
  dtor : DtorPc
  /-- Accepted messages without a final status. -/
  outq : List Nat
  /-- Reports that wait for a `poll`. -/
  drq : List Report
  accepted : List (τ × ProduceArgs)
  reported : List Report
  called : List (τ × TimedDataRaw)
  returned : List (τ × Returned)

/-- A producer whose `connect` has just returned true: the polling thread is started, and
`_stop` is whatever it was. -/
def connected (τ : Type) (topic : String) (stop : Bool) : State τ where
  topic := topic
  stop := stop
  handle := true
  frame := fun _ => none
  bg := .test
  dtor := .notCalled
  outq := []
  drq := []
  accepted := []
  reported := []
  called := []
  returned := []

inductive Action (τ : Type) where
  /-- Thread `t` calls `push(data, cancel_token)`. -/
  | call (t : τ) (data : TimedDataRaw) (hasToken : Bool)
  /-- The `produce` call of thread `t` returns `err`. -/
  | produce (t : τ) (err : ErrorCode)
  /-- Thread `t` executes the switch; `token` is what `*cancel_token` shows if it is read. -/
  | switch (t : τ) (token : Bool)
  /-- The `poll(1)` of thread `t` returns, having dispatched `n` reports. -/
  | poll (t : τ) (n : Nat)
  /-- `bg_pool` tests `_stop`. -/
  | bgTest
  /-- The `poll(500)` of `bg_pool` returns, having dispatched `n` reports. -/
  | bgPoll (n : Nat)
  /-- librdkafka settles the status of the message at place `i` of its queue. -/
  | settle (i : Nat) (err : ErrorCode) (errstr : String)
  /-- The destructor is called and executes `_stop = true`. -/
  | dtorStop
  /-- `_poll_th.join()` returns. -/
  | dtorJoin
  /-- The next member is destroyed; the handle dispatches `n` reports while it is. -/
  | dtorMember (n : Nat)
  deriving DecidableEq

namespace State

variable {τ : Type}

/-- A poll takes `n` waiting reports and hands them to `dr_cb`. -/
def dispatch (s : State τ) (n : Nat) : State τ :=
  { s with
    drq := s.drq.drop n
    reported := s.reported ++ s.drq.take n }

/-- librdkafka gives the message `msg` its final status. -/
def settle (s : State τ) (i msg : Nat) (err : ErrorCode) (errstr : String) : State τ :=
  { s with outq := s.outq.eraseIdx i, drq := s.drq ++ [⟨msg, err, errstr⟩] }

/-- Destruction of the member `m`. -/
def destroyMember (s : State τ) (m : Member) (left : List Member) (n : Nat) : State τ :=
  let s := if m = .producer then { s.dispatch n with handle := false } else s
  { s with dtor := .members left }

theorem destroyMember_of_ne (s : State τ) {m : Member} (hm : m ≠ .producer) (left : List Member)
    (n : Nat) : s.destroyMember m left n = { s with dtor := .members left } := by
  rw [destroyMember, if_neg hm]

@[simp] theorem destroyMember_bg (s : State τ) (m : Member) (left : List Member) (n : Nat) :
    (s.destroyMember m left n).bg = s.bg := by
  unfold destroyMember
  split <;> rfl

@[simp] theorem destroyMember_frame (s : State τ) (m : Member) (left : List Member) (n : Nat) :
    (s.destroyMember m left n).frame = s.frame := by
  unfold destroyMember
  split <;> rfl

variable [DecidableEq τ]

def setFrame (s : State τ) (t : τ) (f : Frame) : State τ :=
  { s with frame := Function.update s.frame t (some f) }

/-- Thread `t` enters `push`. -/
def enter (s : State τ) (t : τ) (data : TimedDataRaw) (hasToken : Bool) : State τ :=
  { s.setFrame t ⟨data, hasToken, .produce, none⟩ with called := s.called ++ [(t, data)] }

/-- The `produce` call of thread `t` returns `err`. -/
def produced (clock : Clock) (s : State τ) (t : τ) (f : Frame) (err : ErrorCode) : State τ :=
  if err = .ERR_NO_ERROR then
    { s.setFrame t { f with pc := .switch err, msg := some s.accepted.length } with
      accepted := s.accepted ++ [(t, produceArgs clock s.topic f.data)]
      outq := s.outq ++ [s.accepted.length] }
  else s.setFrame t { f with pc := .switch err }

/-- Thread `t` returns `status` from `push`. -/
def ret (s : State τ) (t : τ) (f : Frame) (status : ProducerStatus) : State τ :=
  { s with
    frame := Function.update s.frame t none
    returned := s.returned ++ [(t, ⟨f.data, status, f.msg⟩)] }

/-- Thread `t` goes through the switch with the outcome `next`. -/
def switched (s : State τ) (t : τ) (f : Frame) : AfterSwitch → State τ
  | .pollOk => s.setFrame t { f with pc := .pollOk }
  | .pollContinue => s.setFrame t { f with pc := .pollContinue }
  | .ret status => s.ret t f status

/-- The `poll(1)` of thread `t` returns. -/
def polled (s : State τ) (t : τ) (f : Frame) (n : Nat) : Option (State τ) :=
  match f.pc with
  | .pollOk => some ((s.dispatch n).ret t f .ok)
  | .pollContinue => some ((s.dispatch n).setFrame t { f with pc := .produce })
  | _ => none

end State

variable {τ : Type} [DecidableEq τ]

/-- One step of the threads of the producer. -/
def step [Fintype τ] (clock : Clock) (s : State τ) : Action τ → Option (State τ)
  | .call t data hasToken =>
    if s.dtor = .notCalled ∧ s.frame t = none then some (s.enter t data hasToken) else none
  | .produce t err =>
    match s.frame t with
    | some f => if f.pc = .produce ∧ s.handle then some (s.produced clock t f err) else none
    | none => none
  | .switch t token =>
    match s.frame t with
    | some f =>
      match f.pc with
      | .switch err => some (s.switched t f (switchErr err (f.hasToken && token)))
      | _ => none
    | none => none
  | .poll t n =>
    match s.frame t with
    | some f => if s.handle then s.polled t f n else none
    | none => none
  | .bgTest =>
    if s.bg = .test then some { s with bg := if s.stop then .done else .poll } else none
  | .bgPoll n =>
    if s.bg = .poll ∧ s.handle then some { s.dispatch n with bg := .test } else none
  | .settle i err errstr =>
    match s.outq[i]? with
    | some msg => if s.handle then some (s.settle i msg err errstr) else none
    | none => none
  | .dtorStop =>
    -- an object is not destroyed while one of its member functions runs
    if s.dtor = .notCalled ∧ ∀ t, s.frame t = none then
      some { s with stop := true, dtor := .join }
    else none
  | .dtorJoin =>
    if s.dtor = .join ∧ s.bg = .done then
      some { s with dtor := .members membersInDestructionOrder }
    else none
  | .dtorMember n =>
    match s.dtor with
    | .members (m :: left) => some (s.destroyMember m left n)
    | _ => none

/-! ## The steps as a relation

`Step` names the ways in which `step` succeeds, with the guard of each; the proofs go by cases
on it. -/

inductive Step (clock : Clock) (s : State τ) : Action τ → State τ → Prop
  | call (t : τ) (data : TimedDataRaw) (hasToken : Bool) (hdtor : s.dtor = .notCalled)
      (hframe : s.frame t = none) : Step clock s (.call t data hasToken) (s.enter t data hasToken)
  | produce (t : τ) (err : ErrorCode) (f : Frame) (hframe : s.frame t = some f)
      (hpc : f.pc = .produce) (hhandle : s.handle = true) :
      Step clock s (.produce t err) (s.produced clock t f err)
  | switch (t : τ) (token : Bool) (f : Frame) (err : ErrorCode) (hframe : s.frame t = some f)
      (hpc : f.pc = .switch err) :
      Step clock s (.switch t token) (s.switched t f (switchErr err (f.hasToken && token)))
  | pollOk (t : τ) (n : Nat) (f : Frame) (hframe : s.frame t = some f) (hpc : f.pc = .pollOk)
      (hhandle : s.handle = true) : Step clock s (.poll t n) ((s.dispatch n).ret t f .ok)
  | pollContinue (t : τ) (n : Nat) (f : Frame) (hframe : s.frame t = some f)
      (hpc : f.pc = .pollContinue) (hhandle : s.handle = true) :
      Step clock s (.poll t n) ((s.dispatch n).setFrame t { f with pc := .produce })
  | bgTest (hbg : s.bg = .test) :
      Step clock s .bgTest { s with bg := if s.stop then .done else .poll }
  | bgPoll (n : Nat) (hbg : s.bg = .poll) (hhandle : s.handle = true) :
      Step clock s (.bgPoll n) { s.dispatch n with bg := .test }
  | settle (i msg : Nat) (err : ErrorCode) (errstr : String) (hmsg : s.outq[i]? = some msg)
      (hhandle : s.handle = true) :
      Step clock s (.settle i err errstr) (s.settle i msg err errstr)
  | dtorStop (hdtor : s.dtor = .notCalled) (hframe : ∀ t, s.frame t = none) :
      Step clock s .dtorStop { s with stop := true, dtor := .join }
  | dtorJoin (hdtor : s.dtor = .join) (hbg : s.bg = .done) :
      Step clock s .dtorJoin { s with dtor := .members membersInDestructionOrder }
  | dtorMember (n : Nat) (m : Member) (left : List Member) (hdtor : s.dtor = .members (m :: left)) :
      Step clock s (.dtorMember n) (s.destroyMember m left n)

theorem Step.of_step [Fintype τ] {clock : Clock} {s s' : State τ} {a : Action τ}
    (h : step clock s a = some s') : Step clock s a s' := by
  cases a with
  | call t data hasToken =>
    simp only [step] at h
    split at h
    · rename_i hguard
      cases h
      exact .call t data hasToken hguard.1 hguard.2
    · cases h
  | produce t err =>
    simp only [step] at h
    split at h
    · rename_i f hf
      split at h
      · rename_i hguard
        cases h
        exact .produce t err f hf hguard.1 hguard.2
      · cases h
    · cases h
  | switch t token =>
    simp only [step] at h
    split at h
    · rename_i f hf
      split at h
      · rename_i err hpc
        cases h
        exact .switch t token f err hf hpc
      · cases h
    · cases h
  | poll t n =>
    simp only [step, State.polled] at h
    split at h
    · rename_i f hf
      split at h
      · rename_i hhandle
        split at h
        · rename_i hpc
          cases h
          exact .pollOk t n f hf hpc hhandle
        · rename_i hpc
          cases h
          exact .pollContinue t n f hf hpc hhandle
        · cases h
      · cases h
    · cases h
  | bgTest =>
    simp only [step] at h
    split at h
    · rename_i hbg
      cases h
      exact .bgTest hbg
    · cases h
  | bgPoll n =>
    simp only [step] at h
    split at h
    · rename_i hguard
      cases h
      exact .bgPoll n hguard.1 hguard.2
    · cases h
  | settle i err errstr =>
    simp only [step] at h
    split at h
    · rename_i msg hmsg
      split at h
      · rename_i hhandle
        cases h
        exact .settle i msg err errstr hmsg hhandle
      · cases h
    · cases h
  | dtorStop =>
    simp only [step] at h
    split at h
    · rename_i hguard
      cases h
      exact .dtorStop hguard.1 hguard.2
    · cases h
  | dtorJoin =>
    simp only [step] at h
    split at h
    · rename_i hguard
      cases h
      exact .dtorJoin hguard.1 hguard.2
    · cases h
  | dtorMember n =>
    simp only [step] at h
    split at h
    · rename_i m left hdtor
      cases h
      exact .dtorMember n m left hdtor
    · cases h

end TsKafka.BasicProducer
