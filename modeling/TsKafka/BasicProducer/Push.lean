import TsKafka.RdKafka

/-!
# `basic_producer::push` (`basic_producer.cpp:17-47`)

`push` loops over `produce` attempts. What comes from outside is one `Attempt` a round: the code
`produce` returns and the value `*cancel_token` shows when the round reads it. A finite list of
attempts is a finite part of the environment; when it is used up without a `return`, `push` is
still in its loop.
-/

namespace TsKafka.BasicProducer
open RdKafka

/-- `producer_status` (`basic_producer.hpp:12-17`). -/
inductive ProducerStatus where
  | ok
  /-- The bus is occupied, try later. Data not saved. -/
  | busy
  /-- The bus is broken, drop and reconnect. -/
  | error
  deriving DecidableEq, Repr

/-- The arguments of `push`'s call of `produce` (`basic_producer.cpp:21-28`). -/
def produceArgs (clock : Clock) (topic : String) (data : TimedDataRaw) : ProduceArgs where
  topicName := topic
  partition := Topic.PARTITION_UA
  msgflags := Producer.RK_MSG_COPY
  payload := data.object
  key := none
  timestamp := clock.toKafkaTs data.ts
  msgOpaque := none

/-- What the `switch (err)` of a round leads to (`basic_producer.cpp:30-44`). -/
inductive AfterSwitch where
  /-- `poll(1)`, then `return producer_status::ok`. -/
  | pollOk
  /-- `poll(1)`, then `continue`. -/
  | pollContinue
  | ret (status : ProducerStatus)
  deriving DecidableEq, Repr

/-- The `switch (err)`; `cancel` is the value of `cancel_token && *cancel_token`, which only the
queue-full case evaluates. -/
def switchErr (err : ErrorCode) (cancel : Bool) : AfterSwitch :=
  match err with
  | .ERR_NO_ERROR => .pollOk
  | .ERR__QUEUE_FULL => if cancel then .ret .busy else .pollContinue
  | _ => .ret .error

/-- The environment's part of one round: the result of `produce` and what `*cancel_token` shows
if this round reads it. -/
structure Attempt where
  err : ErrorCode
  token : Bool
  deriving DecidableEq, Repr

/-- A call of `push` on the producer handle. -/
inductive ProducerCall where
  | produce (args : ProduceArgs) (err : ErrorCode)
  | poll (timeoutMs : Nat)
  deriving DecidableEq, Repr

/-- The calls of a `push` and its return value; `none` while it is still in the loop. -/
structure PushRun where
  calls : List ProducerCall
  status : Option ProducerStatus
  deriving DecidableEq, Repr

/-- `push` with the arguments `args` for `produce`; `hasToken` says that `cancel_token` is not
null. -/
def push (args : ProduceArgs) (hasToken : Bool) : List Attempt → PushRun
  | [] => ⟨[], none⟩
  | attempt :: rest =>
    let call := ProducerCall.produce args attempt.err
    match switchErr attempt.err (hasToken && attempt.token) with
    | .pollOk => ⟨[call, .poll 1], some .ok⟩
    | .pollContinue =>
      let next := push args hasToken rest
      ⟨call :: .poll 1 :: next.calls, next.status⟩
    | .ret status => ⟨[call], some status⟩

/-- The record a call adds to librdkafka's queue: `produce` takes a copy of it exactly when it
returns `ERR_NO_ERROR`. -/
def ProducerCall.accepted? : ProducerCall → Option ProduceArgs
  | .produce args err => if err = .ERR_NO_ERROR then some args else none
  | .poll _ => none

/-- The records the calls add to librdkafka's queue, in order. -/
def accepted (calls : List ProducerCall) : List ProduceArgs :=
  calls.filterMap ProducerCall.accepted?

@[simp] theorem accepted_nil : accepted [] = [] := rfl

@[simp] theorem accepted_poll (timeoutMs : Nat) (calls : List ProducerCall) :
    accepted (.poll timeoutMs :: calls) = accepted calls := rfl

theorem accepted_produce (args : ProduceArgs) (err : ErrorCode) (calls : List ProducerCall) :
    accepted (.produce args err :: calls) =
      if err = .ERR_NO_ERROR then args :: accepted calls else accepted calls := by
  by_cases h : err = .ERR_NO_ERROR <;> simp [accepted, ProducerCall.accepted?, h]

/-! ## What each outcome of the switch says about the result of `produce` -/

theorem switchErr_eq_pollOk {err : ErrorCode} {cancel : Bool} :
    switchErr err cancel = .pollOk ↔ err = .ERR_NO_ERROR := by
  cases err <;> cases cancel <;> simp [switchErr]

theorem switchErr_eq_pollContinue {err : ErrorCode} {cancel : Bool} :
    switchErr err cancel = .pollContinue ↔ err = .ERR__QUEUE_FULL ∧ cancel = false := by
  cases err <;> cases cancel <;> simp [switchErr]

/-- The switch returns only `busy` or `error`, and only for a refused record. -/
theorem switchErr_eq_ret {err : ErrorCode} {cancel : Bool} {status : ProducerStatus}
    (h : switchErr err cancel = .ret status) : err ≠ .ERR_NO_ERROR ∧ status ≠ .ok := by
  cases err <;> cases cancel <;> simp_all [switchErr] <;> simp [← h]

/-- A `push` that returned `ok` has added its record once; any other has added nothing, whatever
number of queue-full rounds it went through. -/
theorem accepted_push (args : ProduceArgs) (hasToken : Bool) (attempts : List Attempt) :
    accepted (push args hasToken attempts).calls =
      if (push args hasToken attempts).status = some .ok then [args] else [] := by
  induction attempts with
  | nil => rfl
  | cons attempt rest ih =>
    rw [push]
    cases hswitch : switchErr attempt.err (hasToken && attempt.token) with
    | pollOk =>
      have herr := switchErr_eq_pollOk.mp hswitch
      simp [accepted_produce, herr]
    | pollContinue =>
      have herr := (switchErr_eq_pollContinue.mp hswitch).1
      simp only [accepted_produce, herr, accepted_poll]
      exact ih
    | ret status =>
      obtain ⟨herr, hstatus⟩ := switchErr_eq_ret hswitch
      simp [accepted_produce, herr, hstatus]

end TsKafka.BasicProducer
