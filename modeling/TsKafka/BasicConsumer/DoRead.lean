import TsKafka.RdKafka
import TsKafka.Library.PartialRun

/-!
# `basic_consumer::do_read` (`basic_consumer.hpp:85-106`)

The reader thread, once as a machine with a place in the code (`ReaderPc`), which the models of
the threads interleave with other callers, and once as a function of what its rounds receive
(`doRead`), which the statements about the sequence of callbacks use. `run_rounds` connects them.
-/

namespace TsKafka.BasicConsumer
open RdKafka PartialRun

/-- Where `do_read` is. -/
inductive ReaderPc where
  /-- At the test `!_stop` of the loop. -/
  | head
  /-- In `_consumer->consume(_queue.get(), bk_ms)`. -/
  | consume
  /-- `consume` has returned `msg`; at the test that rejects it or not. -/
  | got (msg : Option Message)
  /-- In the callback for `msg`. -/
  | callback (msg : Message)
  /-- At `delete msg`. -/
  | delete (msg : Message)
  /-- Out of the loop, at `_cv.notify_all()`. -/
  | notify
  | done
  deriving DecidableEq, Repr

/-- `! msg || !msg->len() || msg->err() != RdKafka::ERR_NO_ERROR` (`basic_consumer.hpp:91`). -/
def rejected : Option Message → Bool
  | none => true
  | some msg => msg.len == 0 || msg.err != .ERR_NO_ERROR

/-- The next place of the reader: `stop` is the value of `_stop` and `result` what `consume`
returns, when the place needs them. -/
def ReaderPc.next (stop : Bool) (result : Option Message) : ReaderPc → Option ReaderPc
  | .head => some (if stop then .notify else .consume)
  | .consume => some (.got result)
  | .got none => some .head
  | .got (some msg) => some (if rejected (some msg) then .head else .callback msg)
  | .callback msg => some (.delete msg)
  | .delete _ => some .head
  | .notify => some .done
  | .done => none

/-- What `do_read` does to the outside. -/
inductive ReadEvent where
  | consume (bkMs : Int32) (result : Option Message)
  | callback (t : Tp) (buf : List UInt8) (len : Nat)
  | delete (msg : Message)
  | notifyAll
  deriving DecidableEq, Repr

/-- The callback's arguments for a message (`basic_consumer.hpp:98`). -/
def callbackArgs (clock : Clock) (msg : Message) : Tp × List UInt8 × Nat :=
  (clock.ofMilliseconds msg.timestamp, msg.payload, msg.len)

/-- The event of the step that leaves a place. -/
def ReaderPc.event (clock : Clock) (bkMs : Int32) (result : Option Message) :
    ReaderPc → List ReadEvent
  | .consume => [.consume bkMs result]
  | .callback msg =>
    let (t, buf, len) := callbackArgs clock msg
    [.callback t buf len]
  | .delete msg => [.delete msg]
  | .notify => [.notifyAll]
  | _ => []

/-- The reader with the events so far; a label is the value of `_stop` and a `consume` result. -/
def readerStep (clock : Clock) (bkMs : Int32) (s : ReaderPc × List ReadEvent)
    (input : Bool × Option Message) : Option (ReaderPc × List ReadEvent) :=
  (s.1.next input.1 input.2).map fun pc => (pc, s.2 ++ s.1.event clock bkMs input.2)

/-! ## The loop as a function of its rounds -/

/-- What one round receives: the value of `_stop` at the loop head, and the result of `consume`
when the loop is entered. -/
structure Round where
  stop : Bool
  result : Option Message
  deriving DecidableEq, Repr

/-- The events of a round that enters the loop body. -/
def readRound (clock : Clock) (bkMs : Int32) (result : Option Message) : List ReadEvent :=
  match result with
  | none => [.consume bkMs none]
  | some msg =>
    if rejected (some msg) then [.consume bkMs (some msg)]
    else
      let (t, buf, len) := callbackArgs clock msg
      [.consume bkMs (some msg), .callback t buf len, .delete msg]

/-- `do_read` over the rounds of a finite part of its life; it returns at the first round whose
loop head reads `_stop` as true. -/
def doRead (clock : Clock) (bkMs : Int32) : List Round → List ReadEvent
  | [] => []
  | round :: rest =>
    if round.stop then [.notifyAll]
    else readRound clock bkMs round.result ++ doRead clock bkMs rest

/-- The callback invocations among the events, in order. -/
def callbacks (events : List ReadEvent) : List (Tp × List UInt8 × Nat) :=
  events.filterMap fun
    | .callback t buf len => some (t, buf, len)
    | _ => none

/-- The message of a result, when `do_read` does not reject it. -/
def readable (result : Option Message) : Option Message :=
  result.filter fun msg => !rejected (some msg)

@[simp] theorem callbacks_nil : callbacks [] = [] := rfl

@[simp] theorem callbacks_append (xs ys : List ReadEvent) :
    callbacks (xs ++ ys) = callbacks xs ++ callbacks ys := by
  simp [callbacks]

theorem readable_eq_some {result : Option Message} {msg : Message} :
    readable result = some msg ↔ result = some msg ∧ rejected (some msg) = false := by
  rw [readable, Option.filter_eq_some_iff, Bool.not_eq_true']

/-- What passes the test is a message without an error and with bytes in it. -/
theorem rejected_eq_false {msg : Message} :
    rejected (some msg) = false ↔ msg.err = .ERR_NO_ERROR ∧ msg.payload ≠ [] := by
  simp [rejected, Message.len, and_comm]

theorem readable_eq_some_iff {result : Option Message} {msg : Message} :
    readable result = some msg ↔
      result = some msg ∧ msg.err = .ERR_NO_ERROR ∧ msg.payload ≠ [] := by
  rw [readable_eq_some, rejected_eq_false]

/-- The results that pass are the messages without an error and with bytes in them. -/
theorem filterMap_readable (results : List (Option Message)) :
    results.filterMap readable = (results.filterMap id).filter fun msg =>
      msg.err = .ERR_NO_ERROR ∧ msg.payload ≠ [] := by
  have htest : ∀ msg, (!rejected (some msg)) =
      decide (msg.err = .ERR_NO_ERROR ∧ msg.payload ≠ []) := by
    intro msg
    rw [Bool.eq_iff_iff, Bool.not_eq_true', rejected_eq_false, decide_eq_true_iff]
  have hreadable : readable = fun result : Option Message =>
      result.filter fun msg => decide (msg.err = .ERR_NO_ERROR ∧ msg.payload ≠ []) := by
    funext result
    rw [readable]
    exact congrArg result.filter (funext htest)
  rw [hreadable, List.filter_filterMap]
  rfl

/-- At the test of a result the reader goes on to the callback or back to the loop head. -/
theorem ReaderPc.next_got (stop : Bool) (result result' : Option Message) :
    (ReaderPc.got result).next stop result' = some ((readable result).elim .head .callback) := by
  cases result with
  | none => rfl
  | some msg =>
    cases h : rejected (some msg) <;> simp [ReaderPc.next, readable, h, Option.filter]

theorem readRound_eq (clock : Clock) (bkMs : Int32) (result : Option Message) :
    readRound clock bkMs result =
      .consume bkMs result :: (readable result).elim [] fun msg =>
        (ReaderPc.callback msg).event clock bkMs none ++ [.delete msg] := by
  cases result with
  | none => rfl
  | some msg =>
    cases h : rejected (some msg) <;>
      simp [readRound, readable, h, Option.filter, ReaderPc.event]

/-- `do_read` ends with its notification. -/
theorem ReaderPc.eq_notify_of_next {stop : Bool} {result : Option Message} {pc : ReaderPc}
    (h : pc.next stop result = some .done) : pc = .notify := by
  cases pc with
  | notify => rfl
  | head => cases stop <;> simp [ReaderPc.next] at h
  | got result' =>
    rw [ReaderPc.next_got] at h
    cases hread : readable result' <;> simp [hread] at h
  | _ => simp [ReaderPc.next] at h

theorem callbacks_readRound (clock : Clock) (bkMs : Int32) (result : Option Message) :
    callbacks (readRound clock bkMs result) =
      ((readable result).map (callbackArgs clock)).toList := by
  rw [readRound_eq]
  cases readable result <;> rfl

theorem callbacks_flatMap_readRound (clock : Clock) (bkMs : Int32)
    (results : List (Option Message)) :
    callbacks (results.flatMap (readRound clock bkMs)) =
      (results.filterMap readable).map (callbackArgs clock) := by
  induction results with
  | nil => rfl
  | cons result rest ih =>
    rw [List.flatMap_cons, callbacks_append, ih, callbacks_readRound]
    cases h : readable result <;> simp [h]

/-- The rounds of a reader that is never asked to stop. -/
theorem doRead_not_stopped (clock : Clock) (bkMs : Int32) (results : List (Option Message)) :
    doRead clock bkMs (results.map fun result => ⟨false, result⟩) =
      results.flatMap (readRound clock bkMs) := by
  induction results with
  | nil => rfl
  | cons result rest ih =>
    rw [List.map_cons, doRead, ih, List.flatMap_cons]
    rfl

/-- The callbacks of a reader that is never asked to stop: the messages it does not reject. -/
theorem callbacks_doRead (clock : Clock) (bkMs : Int32) (results : List (Option Message)) :
    callbacks (doRead clock bkMs (results.map fun result => ⟨false, result⟩)) =
      (results.filterMap readable).map (callbackArgs clock) := by
  rw [doRead_not_stopped, callbacks_flatMap_readRound]

/-! ## The message in the reader's hands -/

/-- The message that the reader holds and will give the callback. -/
def ReaderPc.pending : ReaderPc → Option Message
  | .got result => readable result
  | .callback msg => some msg
  | _ => none

/-- Outside `consume` the reader gives the callback the message it holds, and gets no other. -/
theorem ReaderPc.next_pending {clock : Clock} {bkMs : Int32} {stop : Bool} {pc pc' : ReaderPc}
    (hpc : pc ≠ .consume) (h : pc.next stop none = some pc') :
    callbacks (pc.event clock bkMs none) ++ (pc'.pending.map (callbackArgs clock)).toList =
      (pc.pending.map (callbackArgs clock)).toList := by
  cases pc with
  | consume => exact absurd rfl hpc
  | got result =>
    rw [ReaderPc.next_got] at h
    cases h
    rw [ReaderPc.pending]
    cases readable result <;> rfl
  | head =>
    cases stop <;> cases h <;> rfl
  | callback msg =>
    cases h
    rfl
  | delete msg =>
    cases h
    rfl
  | notify =>
    cases h
    rfl
  | done => cases h

/-! ## The machine runs the rounds -/

/-- The machine goes through the body of one round and back to the loop head. -/
theorem run_round (clock : Clock) (bkMs : Int32) (result : Option Message)
    (events : List ReadEvent) :
    ∃ inputs, run (readerStep clock bkMs) (.head, events) inputs =
      some (.head, events ++ readRound clock bkMs result) := by
  cases result with
  | none =>
    refine ⟨[(false, none), (false, none), (false, none)], ?_⟩
    simp [run, readerStep, ReaderPc.next, ReaderPc.event, readRound]
  | some msg =>
    cases h : rejected (some msg) with
    | true =>
      refine ⟨[(false, none), (false, some msg), (false, none)], ?_⟩
      simp [run, readerStep, ReaderPc.next, ReaderPc.event, readRound, h]
    | false =>
      refine ⟨[(false, none), (false, some msg), (false, none), (false, none), (false, none)], ?_⟩
      simp [run, readerStep, ReaderPc.next, ReaderPc.event, readRound, h]

/-- Whatever its rounds receive, the machine has a run with exactly the events of `doRead`. -/
theorem run_rounds (clock : Clock) (bkMs : Int32) (rounds : List Round)
    (events : List ReadEvent) :
    ∃ inputs pc, run (readerStep clock bkMs) (.head, events) inputs =
      some (pc, events ++ doRead clock bkMs rounds) := by
  induction rounds generalizing events with
  | nil => exact ⟨[], .head, by simp [doRead]⟩
  | cons round rest ih =>
    cases hstop : round.stop with
    | true =>
      refine ⟨[(true, none), (true, none)], .done, ?_⟩
      simp [run, readerStep, ReaderPc.next, ReaderPc.event, doRead, hstop]
    | false =>
      obtain ⟨inputs, hinputs⟩ := run_round clock bkMs round.result events
      obtain ⟨inputs', pc, hrest⟩ := ih (events ++ readRound clock bkMs round.result)
      refine ⟨inputs ++ inputs', pc, ?_⟩
      rw [run_append, hinputs, Option.bind_some, hrest]
      simp [doRead, hstop]

end TsKafka.BasicConsumer
