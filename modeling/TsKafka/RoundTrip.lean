import TsKafka.BasicProducer.Push
import TsKafka.BasicConsumer.DoRead

/-!
# From `push` to the callback

A producer pushes a list of records, whatever becomes of each push; the broker hands the accepted
records of one partition back to `do_read`, in order and unchanged, among timeouts and error
events. The callback then sees the accepted records with a non-empty payload, each once, with
their bytes and with their time brought to whole milliseconds: `do_read` rejects a message of
length zero before it looks at anything else.
-/

namespace TsKafka
open RdKafka BasicProducer BasicConsumer

/-- A call of `push` with what the environment answers to it. -/
structure Pushed where
  data : TimedDataRaw
  hasToken : Bool
  attempts : List Attempt
  deriving DecidableEq, Repr

/-- The call. -/
def Pushed.run (clock : Clock) (topic : String) (p : Pushed) : PushRun :=
  push (produceArgs clock topic p.data) p.hasToken p.attempts

/-- The data of the pushes that returned `ok`, in order. -/
def okData (clock : Clock) (topic : String) (pushes : List Pushed) : List TimedDataRaw :=
  (pushes.filter fun p => (p.run clock topic).status = some .ok).map Pushed.data

/-- The records that librdkafka accepted, in order. -/
def acceptedRecords (clock : Clock) (topic : String) (pushes : List Pushed) : List ProduceArgs :=
  pushes.flatMap fun p => accepted (p.run clock topic).calls

/-- The message in which a consumer gets an accepted record: payload and timestamp unchanged. -/
def toMessage (args : ProduceArgs) : Message :=
  ⟨.ERR_NO_ERROR, args.payload, args.timestamp⟩

/-- A result of `consume` that is neither a timeout nor an error event. -/
def proper (result : Option Message) : Bool :=
  result.any fun msg => msg.err = .ERR_NO_ERROR

/-- The broker hands back exactly `records`, among any timeouts and error events. -/
def HandsBack (records : List ProduceArgs) (results : List (Option Message)) : Prop :=
  results.filter proper = records.map fun args => some (toMessage args)

instance (records : List ProduceArgs) (results : List (Option Message)) :
    Decidable (HandsBack records results) :=
  inferInstanceAs (Decidable (_ = _))

/-- `do_read` on `results`, never asked to stop: the callback invocations. -/
def readBack (clock : Clock) (bkMs : Int32) (results : List (Option Message)) :
    List (Tp × List UInt8 × Nat) :=
  callbacks (doRead clock bkMs (results.map fun result => ⟨false, result⟩))

/-- The callback's arguments for a pushed record: the time brought to whole milliseconds, the
bytes and their number. -/
def asRead (clock : Clock) (data : TimedDataRaw) : Tp × List UInt8 × Nat :=
  (clock.ofMilliseconds (clock.toKafkaTs data.ts), data.object, data.object.length)

theorem acceptedRecords_eq (clock : Clock) (topic : String) (pushes : List Pushed) :
    acceptedRecords clock topic pushes =
      (okData clock topic pushes).map (produceArgs clock topic) := by
  induction pushes with
  | nil => rfl
  | cons p rest ih =>
    have hp : accepted (p.run clock topic).calls =
        if (p.run clock topic).status = some .ok then [produceArgs clock topic p.data] else [] :=
      accepted_push _ _ _
    simp only [acceptedRecords, okData, List.flatMap_cons, hp] at ih ⊢
    rw [ih]
    by_cases h : (p.run clock topic).status = some .ok <;> simp [h]

/-- Timeouts and error events do not reach the callback. -/
theorem readBack_filter_proper (clock : Clock) (bkMs : Int32) (results : List (Option Message)) :
    readBack clock bkMs results = readBack clock bkMs (results.filter proper) := by
  unfold readBack
  rw [callbacks_doRead, callbacks_doRead, List.filterMap_filter]
  congr 2
  funext result
  cases result with
  | none => rfl
  | some msg => by_cases h : msg.err = .ERR_NO_ERROR <;> simp [proper, readable, rejected, h]

/-- Only its emptiness decides whether an accepted record is rejected. -/
theorem readable_toMessage (clock : Clock) (topic : String) (data : TimedDataRaw) :
    readable (some (toMessage (produceArgs clock topic data))) =
      if data.object = [] then none else some (toMessage (produceArgs clock topic data)) := by
  by_cases h : data.object = [] <;>
    simp [readable, rejected, toMessage, produceArgs, Message.len, Option.filter, h]

/-- The callback sees the messages of accepted records, without those of length zero. -/
theorem readBack_messages (clock : Clock) (topic : String) (bkMs : Int32)
    (records : List TimedDataRaw) :
    readBack clock bkMs (records.map fun data => some (toMessage (produceArgs clock topic data))) =
      (records.filter fun data => data.object ≠ []).map (asRead clock) := by
  unfold readBack
  rw [callbacks_doRead]
  induction records with
  | nil => rfl
  | cons data rest ih =>
    have hread := readable_toMessage clock topic data
    by_cases hdata : data.object = []
    · rw [if_pos hdata] at hread
      rw [List.map_cons, List.filterMap_cons_none hread,
        List.filter_cons_of_neg (by simpa using hdata), ih]
    · rw [if_neg hdata] at hread
      rw [List.map_cons, List.filterMap_cons_some hread, List.map_cons, ih,
        List.filter_cons_of_pos (by simpa using hdata)]
      rfl

/-- Whatever the pushes return and whatever timeouts and error events are mixed in, the callback
sees exactly the pushed records that returned `ok` and are not empty, each once and in order, with
the same bytes and with the time brought to whole milliseconds, which the conversions compute
without overflow. -/
theorem readBack_pushed (clock : Clock) (topic : String) (bkMs : Int32) (pushes : List Pushed)
    (results : List (Option Message))
    (hback : HandsBack (acceptedRecords clock topic pushes) results) :
    readBack clock bkMs results =
        ((okData clock topic pushes).filter fun data => data.object ≠ []).map (asRead clock) ∧
      ∀ data ∈ okData clock topic pushes,
        (asRead clock data).1.toInt = data.ts.toInt.tdiv clock.den.toInt * clock.den.toInt := by
  constructor
  · rw [readBack_filter_proper, hback, acceptedRecords_eq, List.map_map]
    exact readBack_messages clock topic bkMs _
  · intro data _
    exact clock.toInt_ofMilliseconds_toKafkaTs data.ts

/-- Two pushes, one of them retried once, read back after a timeout and around an error event. -/
theorem readBack_pushed_two :
    readBack .hundredNanoseconds 1000
        [none, some ⟨.ERR_NO_ERROR, [1], 0⟩, some ⟨.other (-191), [], 0⟩,
          some ⟨.ERR_NO_ERROR, [2, 3], 5⟩] =
      [(0, [1], 1), (50000, [2, 3], 2)] :=
  (readBack_pushed .hundredNanoseconds "" 1000
    [⟨⟨0, [1]⟩, false, [⟨.ERR__QUEUE_FULL, false⟩, ⟨.ERR_NO_ERROR, false⟩]⟩,
      ⟨⟨50009, [2, 3]⟩, false, [⟨.ERR_NO_ERROR, false⟩]⟩] _ (by decide)).1.trans (by decide)

/-- An empty record is accepted and handed back, and the callback never sees it. -/
theorem empty_record_not_read :
    ¬ ∀ (pushes : List Pushed) (results : List (Option Message)),
      HandsBack (acceptedRecords .hundredNanoseconds "" pushes) results →
        readBack .hundredNanoseconds 1000 results =
          (okData .hundredNanoseconds "" pushes).map (asRead .hundredNanoseconds) := by
  intro h
  have hread := h [⟨⟨0, []⟩, false, [⟨.ERR_NO_ERROR, false⟩]⟩] [some ⟨.ERR_NO_ERROR, [], 0⟩]
    (by decide)
  revert hread
  decide

end TsKafka
