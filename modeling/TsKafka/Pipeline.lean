import TsKafka.RoundTrip
import TsKafka.TimeConversion
import TsKafka.BasicProducer.Accounting
import TsKafka.BasicProducer.ConcurrentPush
import TsKafka.BasicConsumer.ReadLoop
import TsKafka.BasicConsumer.Replay
import TsKafka.Library.PartitionedLog

/-!
# A producer, a broker and a consumer

Threads push on a connected producer while `do_read` reads the same topic: the broker stores
accepted messages in partitions, `consume` hands out the records of partitions that feed the
queue, and every party moves on its own. Which partitions feed the queue, and from which offset
on, is up to the environment here; a partition that feeds nothing is one that no `consume` takes a
record from.

Of librdkafka and the broker it is assumed that a message is stored at most once, that the
messages of one producer are stored in a partition in the order in which they were accepted, that
only a stored message is reported without an error, that a partition is handed out in its order,
and that a record is handed out with the payload and the timestamp that `produce` was given. (A
topic in which the broker puts its own time in place of the timestamp is none of these.)
-/

namespace TsKafka
open RdKafka PartialRun WriterLog PartitionedLog BasicProducer BasicConsumer

/-- A record in a partition. `origin` is the number of the message of this producer that it was
stored for; a record of another producer has none. -/
structure Entry where
  origin : Option Nat
  record : Record
  deriving DecidableEq, Repr

/-- The entry for message number `msg`. That the broker keeps the payload and the timestamp is an
assumption. -/
def Entry.own (msg : Nat) (args : ProduceArgs) : Entry := ⟨some msg, args.payload, args.timestamp⟩

structure Pipeline (τ : Type) where
  producer : BasicProducer.State τ
  broker : Partitions Int32 Entry
  consumer : Loop

/-- A connected producer, a topic without records and a reader at the beginning of `do_read`, which
is going to read partition `p` from `start p` on. -/
def Pipeline.connected (τ : Type) (topic : String) (stop : Bool) (start : Int32 → Nat) :
    Pipeline τ where
  producer := BasicProducer.connected τ topic stop
  broker := .empty start
  consumer := Loop.enter false

inductive PipelineAction (τ : Type) where
  | producer (a : BasicProducer.Action τ)
  /-- The broker stores the message at place `i` of librdkafka's queue. -/
  | store (i : Nat) (partition : Int32)
  /-- It stores a record of another producer. -/
  | storeOther (partition : Int32) (record : Record)
  /-- The consumer's `stop` raises `_stop`. -/
  | raiseStop
  /-- A step of `do_read` outside `consume`. -/
  | read
  /-- `consume` returns the next record of a partition. -/
  | fetch (partition : Int32)
  /-- `consume` returns null or a message with an error. -/
  | idle (result : Option Message)
  deriving DecidableEq

variable {τ : Type}

/-- The numbers of the messages that are stored. -/
def Pipeline.numbers (s : Pipeline τ) : List Nat := s.broker.entries.filterMap fun e => e.2.origin

/-- The numbers of the messages in a partition, in its order. -/
def Pipeline.numbersIn (s : Pipeline τ) (p : Int32) : List Nat :=
  (s.broker.log p).filterMap Entry.origin

/-- librdkafka reports a message without an error only when it is stored. -/
def Pipeline.Truthful (s : Pipeline τ) : BasicProducer.Action τ → Prop
  | .settle i err _ => err = .ERR_NO_ERROR → ∃ msg ∈ s.producer.outq[i]?, msg ∈ s.numbers
  | _ => True

instance (s : Pipeline τ) (a : BasicProducer.Action τ) : Decidable (s.Truthful a) := by
  unfold Pipeline.Truthful
  split <;> infer_instance

/-- Message `msg` can be stored in partition `p` now. -/
def Pipeline.Storable (s : Pipeline τ) (p : Int32) (msg : Nat) : Prop :=
  s.producer.handle = true ∧ msg ∉ s.numbers ∧ ∀ earlier ∈ s.numbersIn p, earlier < msg

instance (s : Pipeline τ) (p : Int32) (msg : Nat) : Decidable (s.Storable p msg) :=
  inferInstanceAs (Decidable (_ ∧ _))

/-- The reader goes on; `result` is what `consume` returns, if it is there. -/
def Pipeline.reads (clock : Clock) (bkMs : Int32) (s : Pipeline τ) (result : Option Message) :
    Option (Pipeline τ) :=
  (loopStep clock bkMs s.consumer (.read result)).map fun c => { s with consumer := c }

/-- One step of the producer, the broker or the consumer. -/
def pipelineStep [DecidableEq τ] [Fintype τ] (clock : Clock) (bkMs : Int32) (s : Pipeline τ) :
    PipelineAction τ → Option (Pipeline τ)
  | .producer a =>
    if s.Truthful a then
      (BasicProducer.step clock s.producer a).map fun u => { s with producer := u }
    else none
  | .store i p =>
    match s.producer.outq[i]? with
    | some msg =>
      match s.producer.accepted[msg]? with
      | some (_, args) =>
        if s.Storable p msg then some { s with broker := s.broker.append p (.own msg args) }
        else none
      | none => none
    | none => none
  | .storeOther p record => some { s with broker := s.broker.append p ⟨none, record⟩ }
  | .raiseStop =>
    (loopStep clock bkMs s.consumer .raiseStop).map fun c => { s with consumer := c }
  | .read => if s.consumer.pc = .consume then none else s.reads clock bkMs none
  | .fetch p =>
    if s.consumer.pc = .consume then
      match s.broker.next p with
      | some e =>
        { s with broker := s.broker.took p e }.reads clock bkMs (some e.record.message)
      | none => none
    else none
  | .idle result =>
    if s.consumer.pc = .consume ∧ proper result = false then s.reads clock bkMs result else none

/-! ## The steps as a relation -/

/-- The ways in which `pipelineStep` succeeds. -/
inductive Pipeline.Step [DecidableEq τ] [Fintype τ] (clock : Clock) (bkMs : Int32)
    (s : Pipeline τ) : Pipeline τ → Prop
  | producer (a : BasicProducer.Action τ) (u : BasicProducer.State τ) (htruthful : s.Truthful a)
      (hstep : BasicProducer.step clock s.producer a = some u) :
      Step clock bkMs s { s with producer := u }
  | store (i : Nat) (p : Int32) (msg : Nat) (t : τ) (args : ProduceArgs)
      (haccepted : s.producer.accepted[msg]? = some (t, args)) (hstorable : s.Storable p msg) :
      Step clock bkMs s { s with broker := s.broker.append p (.own msg args) }
  | storeOther (p : Int32) (record : Record) :
      Step clock bkMs s { s with broker := s.broker.append p ⟨none, record⟩ }
  | raiseStop : Step clock bkMs s { s with consumer := { s.consumer with stop := true } }
  | read (c : Loop) (hpc : s.consumer.pc ≠ .consume)
      (hstep : loopStep clock bkMs s.consumer (.read none) = some c) :
      Step clock bkMs s { s with consumer := c }
  | fetch (p : Int32) (e : Entry) (c : Loop) (hpc : s.consumer.pc = .consume)
      (hnext : s.broker.next p = some e)
      (hstep : loopStep clock bkMs s.consumer (.read (some e.record.message)) = some c) :
      Step clock bkMs s { s with broker := s.broker.took p e, consumer := c }
  | idle (result : Option Message) (c : Loop) (hpc : s.consumer.pc = .consume)
      (hproper : proper result = false)
      (hstep : loopStep clock bkMs s.consumer (.read result) = some c) :
      Step clock bkMs s { s with consumer := c }

section Steps

variable [DecidableEq τ] [Fintype τ] {clock : Clock} {bkMs : Int32} {s t : Pipeline τ}

theorem Pipeline.Step.of_pipelineStep {a : PipelineAction τ}
    (h : pipelineStep clock bkMs s a = some t) : Pipeline.Step clock bkMs s t := by
  cases a with
  | producer a =>
    simp only [pipelineStep] at h
    split at h
    · obtain ⟨u, hu, rfl⟩ := Option.map_eq_some_iff.mp h
      exact .producer a u ‹_› hu
    · cases h
  | store i p =>
    simp only [pipelineStep] at h
    split at h
    · split at h
      · split at h
        · cases h
          exact .store i p _ _ _ ‹_› ‹_›
        · cases h
      · cases h
    · cases h
  | storeOther p record =>
    cases h
    exact .storeOther p record
  | raiseStop =>
    cases h
    exact .raiseStop
  | read =>
    simp only [pipelineStep, Pipeline.reads] at h
    split at h
    · cases h
    · obtain ⟨c, hc, rfl⟩ := Option.map_eq_some_iff.mp h
      exact .read c ‹_› hc
  | fetch p =>
    simp only [pipelineStep, Pipeline.reads] at h
    split at h
    · split at h
      · obtain ⟨c, hc, rfl⟩ := Option.map_eq_some_iff.mp h
        exact .fetch p _ c ‹_› ‹_› hc
      · cases h
    · cases h
  | idle result =>
    simp only [pipelineStep, Pipeline.reads] at h
    split at h
    · obtain ⟨c, hc, rfl⟩ := Option.map_eq_some_iff.mp h
      exact .idle result c (And.left ‹_›) (And.right ‹_›) hc
    · cases h

/-- The producer of a pipeline is a producer, whatever the others do. -/
theorem producer_run {u : Pipeline τ} {as : List (PipelineAction τ)}
    (hrun : run (pipelineStep clock bkMs) s as = some u) :
    ∃ bs, run (BasicProducer.step clock) s.producer bs = some u.producer := by
  have hsteps : ∀ (s : Pipeline τ) a t v, s.producer = v → pipelineStep clock bkMs s a = some t →
      ∃ bs w, run (BasicProducer.step clock) v bs = some w ∧ t.producer = w := by
    rintro s a t v rfl h
    cases Pipeline.Step.of_pipelineStep h with
    | producer a u htruthful hstep => exact ⟨[a], u, run_singleton hstep, rfl⟩
    | _ => exact ⟨[], _, rfl, rfl⟩
  obtain ⟨bs, v, hbs, rfl⟩ := run_simulation hsteps hrun rfl
  exact ⟨bs, hbs⟩

/-- The consumer of a pipeline is a `do_read`, whatever the others do. -/
theorem consumer_run {u : Pipeline τ} {as : List (PipelineAction τ)}
    (hrun : run (pipelineStep clock bkMs) s as = some u) :
    ∃ bs, run (loopStep clock bkMs) s.consumer bs = some u.consumer := by
  have hsteps : ∀ (s : Pipeline τ) a t v, s.consumer = v → pipelineStep clock bkMs s a = some t →
      ∃ bs w, run (loopStep clock bkMs) v bs = some w ∧ t.consumer = w := by
    rintro s a t v rfl h
    cases Pipeline.Step.of_pipelineStep h with
    | raiseStop => exact ⟨[.raiseStop], _, run_singleton rfl, rfl⟩
    | read c hpc hstep => exact ⟨[_], c, run_singleton hstep, rfl⟩
    | fetch p e c hpc hnext hstep => exact ⟨[_], c, run_singleton hstep, rfl⟩
    | idle result c hpc hproper hstep => exact ⟨[_], c, run_singleton hstep, rfl⟩
    | _ => exact ⟨[], _, rfl, rfl⟩
  obtain ⟨bs, v, hbs, rfl⟩ := run_simulation hsteps hrun rfl
  exact ⟨bs, hbs⟩

end Steps

/-! ## What the broker holds -/

section Kept

variable {clock : Clock} {bkMs : Int32} {s t : Pipeline τ} {start : Int32 → Nat}

/-- What holds of the broker's partitions and of what the reader has taken, in every run. -/
structure Pipeline.Kept (start : Int32 → Nat) (s : Pipeline τ) : Prop where
  inOrder : s.broker.InOrder start
  /-- The messages of this producer are in each partition in the order of their acceptance. -/
  ascending : ∀ p, (s.numbersIn p).Pairwise (· < ·)
  once : s.numbers.Nodup
  /-- They have the payload and the timestamp that `produce` was given. -/
  stored : ∀ e ∈ s.broker.entries, ∀ msg, e.2.origin = some msg →
    ∃ t args, s.producer.accepted[msg]? = some (t, args) ∧ e.2 = .own msg args
  settled : ∀ r ∈ s.producer.settled, r.err = .ERR_NO_ERROR → r.msg ∈ s.numbers
  /-- What `do_read` has consumed is what has been taken, but for timeouts and errors. -/
  handedOut : (consumed s.consumer.events).filter proper =
    s.broker.taken.map fun e => some e.2.record.message

theorem Pipeline.kept_connected (topic : String) (stop : Bool) (start : Int32 → Nat) :
    (Pipeline.connected τ topic stop start).Kept start where
  inOrder := .empty start
  ascending _ := List.Pairwise.nil
  once := List.Pairwise.nil
  stored e he := by cases he
  settled r hr := by cases hr
  handedOut := rfl

/-- The numbers of partition `p` when an entry is appended to partition `q`. -/
theorem numbersIn_append (s : Pipeline τ) (p q : Int32) (e : Entry) :
    { s with broker := s.broker.append q e }.numbersIn p =
      s.numbersIn p ++ if q = p then e.origin.toList else [] := by
  unfold Pipeline.numbersIn
  rw [Partitions.log_append, List.filterMap_append]
  split
  · cases h : e.origin <;> simp [h]
  · rfl

theorem numbers_append (s : Pipeline τ) (q : Int32) (e : Entry) :
    { s with broker := s.broker.append q e }.numbers = s.numbers ++ e.origin.toList := by
  unfold Pipeline.numbers Partitions.append
  rw [List.filterMap_append]
  cases h : e.origin <;> simp [h]

/-- A step of the reader that takes no record from the broker. -/
theorem Pipeline.Kept.reads (h : s.Kept start) {c : Loop}
    (hconsumed : (consumed c.events).filter proper = (consumed s.consumer.events).filter proper) :
    { s with consumer := c }.Kept start where
  inOrder := h.inOrder
  ascending := h.ascending
  once := h.once
  stored := h.stored
  settled := h.settled
  handedOut := hconsumed.trans h.handedOut

theorem Pipeline.Kept.producer [DecidableEq τ] (h : s.Kept start) {a : BasicProducer.Action τ}
    {u : BasicProducer.State τ} (htruthful : s.Truthful a)
    (hstep : BasicProducer.Step clock s.producer a u) : { s with producer := u }.Kept start where
  inOrder := h.inOrder
  ascending := h.ascending
  once := h.once
  stored e he msg hmsg := by
    obtain ⟨t, args, haccepted, hargs⟩ := h.stored e he msg hmsg
    obtain ⟨later, hlater⟩ := hstep.accepted_prefix
    refine ⟨t, args, ?_, hargs⟩
    obtain ⟨hlt, -⟩ := List.getElem?_eq_some_iff.mp haccepted
    show u.accepted[msg]? = _
    rw [← hlater, List.getElem?_append_left hlt, haccepted]
  settled r hr herr := by
    rcases hstep.mem_settled hr with hold | ⟨i, rfl, hmsg⟩
    · exact h.settled r hold herr
    · obtain ⟨msg, hmsg', hstored⟩ := htruthful herr
      cases hmsg.symm.trans hmsg'
      exact hstored
  handedOut := h.handedOut

theorem Pipeline.Kept.store (h : s.Kept start) {p : Int32} {msg : Nat} {t : τ} {args : ProduceArgs}
    (haccepted : s.producer.accepted[msg]? = some (t, args)) (hstorable : s.Storable p msg) :
    { s with broker := s.broker.append p (.own msg args) }.Kept start where
  inOrder := h.inOrder.append p _
  ascending q := by
    rw [numbersIn_append]
    split
    · subst q
      refine List.pairwise_append.mpr ⟨h.ascending p, List.pairwise_singleton _ _, ?_⟩
      intro earlier hearlier later hlater
      rw [List.mem_singleton.mp hlater]
      exact hstorable.2.2 earlier hearlier
    · rw [List.append_nil]
      exact h.ascending q
  once := by
    rw [numbers_append]
    exact List.concat_eq_append ▸ h.once.concat hstorable.2.1
  stored e he msg' hmsg' := by
    rcases List.mem_append.mp he with hold | hnew
    · exact h.stored e hold msg' hmsg'
    · cases List.mem_singleton.mp hnew
      cases hmsg'
      exact ⟨t, args, haccepted, rfl⟩
  settled r hr herr := by
    rw [numbers_append]
    exact List.mem_append_left _ (h.settled r hr herr)
  handedOut := h.handedOut

theorem Pipeline.Kept.storeOther (h : s.Kept start) (p : Int32) (record : Record) :
    { s with broker := s.broker.append p ⟨none, record⟩ }.Kept start where
  inOrder := h.inOrder.append p _
  ascending q := by
    rw [numbersIn_append]
    split <;> simpa using h.ascending q
  once := by
    rw [numbers_append]
    simpa using h.once
  stored e he msg hmsg := by
    rcases List.mem_append.mp he with hold | hnew
    · exact h.stored e hold msg hmsg
    · cases List.mem_singleton.mp hnew
      cases hmsg
  settled r hr herr := by
    rw [numbers_append]
    exact List.mem_append_left _ (h.settled r hr herr)
  handedOut := h.handedOut

theorem Pipeline.Kept.step [DecidableEq τ] [Fintype τ] (h : s.Kept start)
    (hstep : Pipeline.Step clock bkMs s t) : t.Kept start := by
  cases hstep with
  | producer a u htruthful hstep => exact h.producer htruthful (BasicProducer.Step.of_step hstep)
  | store i p msg t args haccepted hstorable => exact h.store haccepted hstorable
  | storeOther p record => exact h.storeOther p record
  | raiseStop => exact h.reads rfl
  | read c hpc hstep =>
    obtain ⟨pc, -, rfl⟩ := loopStep_read hstep
    apply h.reads
    simp only [consumed_append, ReaderPc.consumed_event clock bkMs none hpc, List.append_nil]
  | fetch p e c hpc hnext hstep =>
    obtain ⟨pc, -, rfl⟩ := loopStep_read hstep
    refine ⟨h.inOrder.took hnext, h.ascending, h.once, h.stored, h.settled, ?_⟩
    simp only [hpc, ReaderPc.event, consumed_append, consumed_consume, List.filter_append,
      Partitions.took, List.map_append, h.handedOut]
    rfl
  | idle result c hpc hproper hstep =>
    obtain ⟨pc, -, rfl⟩ := loopStep_read hstep
    apply h.reads
    simp only [hpc, ReaderPc.event, consumed_append, consumed_consume, List.filter_append,
      List.filter_singleton, hproper, cond_false, List.append_nil]

theorem Pipeline.kept_of_run [DecidableEq τ] [Fintype τ] {topic : String} {stop : Bool}
    {as : List (PipelineAction τ)}
    (hrun : run (pipelineStep clock bkMs) (Pipeline.connected τ topic stop start) as = some s) :
    s.Kept start :=
  run_invariant (fun _ _ _ h hstep => h.step (.of_pipelineStep hstep)) hrun
    (Pipeline.kept_connected topic stop start)

end Kept

/-! ## From `push` to the callback -/

section Delivers

variable [DecidableEq τ]

/-- `e` was stored for a message of thread `t`. -/
def Entry.writtenBy (accepted : List (τ × ProduceArgs)) (t : τ) (e : Entry) : Bool :=
  e.origin.any fun msg => (accepted[msg]?).any fun item => item.1 = t

/-- What `do_read` gives the callback for the records of thread `t` that it has taken from partition
`p`, in order. -/
def Pipeline.given (clock : Clock) (s : Pipeline τ) (t : τ) (p : Int32) :
    List (Tp × List UInt8 × Nat) :=
  (((byWriter p s.broker.taken).filter (Entry.writtenBy s.producer.accepted t)).filterMap fun e =>
    readable (some e.record.message)).map (callbackArgs clock)

/-- The same for all partitions together. -/
def Pipeline.givenOf (clock : Clock) (s : Pipeline τ) (t : τ) : List (Tp × List UInt8 × Nat) :=
  (((s.broker.taken.map Prod.snd).filter (Entry.writtenBy s.producer.accepted t)).filterMap fun e =>
    readable (some e.record.message)).map (callbackArgs clock)

theorem Pipeline.givenOf_eq_filterMap (clock : Clock) (s : Pipeline τ) (t : τ) :
    s.givenOf clock t = s.broker.taken.filterMap fun e =>
      if e.2.writtenBy s.producer.accepted t = true then
        (readable (some e.2.record.message)).map (callbackArgs clock)
      else none := by
  rw [Pipeline.givenOf, List.filterMap_filter, List.map_filterMap, List.filterMap_map]
  congr 1
  funext e
  by_cases ht : e.2.writtenBy s.producer.accepted t = true <;> simp [ht]

theorem Pipeline.given_eq_filterMap (clock : Clock) (s : Pipeline τ) (t : τ) (p : Int32) :
    s.given clock t p = s.broker.taken.filterMap fun e =>
      if e.1 = p ∧ e.2.writtenBy s.producer.accepted t = true then
        (readable (some e.2.record.message)).map (callbackArgs clock)
      else none := by
  rw [Pipeline.given, byWriter, List.filterMap_filter, List.map_filterMap, List.filterMap_filterMap]
  congr 1
  funext e
  by_cases hp : e.1 = p <;> by_cases ht : e.2.writtenBy s.producer.accepted t = true <;>
    simp [hp, ht]

/-- The data of the pushes of thread `t` that have returned `ok`, and of one whose record is
accepted and that has not returned yet. -/
def okOrPending (s : BasicProducer.State τ) (t : τ) : List TimedDataRaw :=
  ((byWriter t s.returned).filter fun r => r.status = .ok).map Returned.data ++
    (((s.frame t).filter Frame.committed).map Frame.data).toList

/-- What a reader is to give the callback for the records of thread `t`. -/
def toRead (clock : Clock) (s : BasicProducer.State τ) (t : τ) : List (Tp × List UInt8 × Nat) :=
  ((okOrPending s t).filter fun data => data.object ≠ []).map (asRead clock)

/-- The accepted records of a thread, as the pushes that they come from. -/
theorem byWriter_accepted [Fintype τ] {clock : Clock} {topic : String} {stop : Bool}
    {as : List (BasicProducer.Action τ)} {s : BasicProducer.State τ}
    (hrun : run (BasicProducer.step clock) (connected τ topic stop) as = some s) (t : τ) :
    byWriter t s.accepted = (okOrPending s t).map (produceArgs clock topic) := by
  obtain ⟨ops, store, hops, href⟩ :=
    run_simulation (Refines.step clock) hrun (refines_connected topic stop)
  have hentries := Store.byWriter_entries hops t
  rw [href.entries, href.performed, List.filterMap_append] at hentries
  have hreturned : ∀ rs : List Returned, (rs.map Returned.write).filterMap
      (Write.entry (produceArgs clock topic) (· = .ok)) =
        ((rs.filter fun r => r.status = .ok).map Returned.data).map (produceArgs clock topic) := by
    intro rs
    induction rs with
    | nil => rfl
    | cons r rest ih =>
      by_cases hr : r.status = .ok <;> simp [Returned.write, Write.entry, hr, ih]
  rw [hentries, hreturned, okOrPending, List.map_append]
  congr 1
  unfold State.committed
  cases (s.frame t).filter Frame.committed <;> simp [Write.entry]

/-- The records of a list of pushes that the callback is given. -/
theorem filterMap_readable (clock : Clock) (topic : String) (records : List TimedDataRaw) :
    (((records.map (produceArgs clock topic)).filterMap fun args =>
      readable (some (toMessage args))).map (callbackArgs clock)) =
        (records.filter fun data => data.object ≠ []).map (asRead clock) := by
  have hread := readBack_messages clock topic 0 records
  rw [readBack, callbacks_doRead, List.filterMap_map] at hread
  rw [List.filterMap_map]
  exact hread

section Run

variable {s : Pipeline τ} {start : Int32 → Nat}

omit [DecidableEq τ] in
/-- A taken entry is in the log. -/
theorem Pipeline.Kept.mem_entries (h : s.Kept start) {p : Int32} {e : Entry}
    (he : e ∈ byWriter p s.broker.taken) : (p, e) ∈ s.broker.entries :=
  mem_byWriter.mp ((h.inOrder.taken_sublist p).subset he)

/-- What the callback is given of a thread's records, by the numbers of the messages. -/
theorem Pipeline.Kept.readable_eq (h : s.Kept start) (clock : Clock) (t : τ) {items : List Entry}
    (hitems : ∀ e ∈ items, ∃ p, (p, e) ∈ s.broker.entries) :
    ((items.filter (Entry.writtenBy s.producer.accepted t)).filterMap fun e =>
        readable (some e.record.message)).map (callbackArgs clock) =
      ((byWriter t ((items.filterMap Entry.origin).filterMap
        (s.producer.accepted[·]?))).filterMap fun args =>
          readable (some (toMessage args))).map (callbackArgs clock) := by
  unfold byWriter
  rw [List.filterMap_filter, List.filterMap_filterMap, List.filterMap_filterMap,
    List.filterMap_filterMap]
  congr 1
  apply List.filterMap_congr
  intro e he
  cases horigin : e.origin with
  | none => simp [Entry.writtenBy, horigin]
  | some msg =>
    obtain ⟨p, hentry⟩ := hitems e he
    obtain ⟨u, args, haccepted, hown⟩ := h.stored (p, e) hentry msg horigin
    obtain rfl : e = .own msg args := hown
    have hmessage : (Entry.own msg args).record.message = toMessage args := rfl
    by_cases hu : u = t <;> simp [Entry.writtenBy, Entry.own, haccepted, hu, ← hmessage]

omit [DecidableEq τ] in
/-- The callbacks are those of the records taken, but for one that `do_read` still holds. -/
theorem Pipeline.Kept.callbacks_eq (h : s.Kept start) {clock : Clock} {bkMs : Int32}
    (hrounds : s.consumer.InRounds clock bkMs) :
    callbacks s.consumer.events ++ (s.consumer.pc.pending.map (callbackArgs clock)).toList =
      (s.broker.taken.filterMap fun e => readable (some e.2.record.message)).map
        (callbackArgs clock) := by
  have hproper := readBack_filter_proper clock bkMs (consumed s.consumer.events)
  rw [readBack, readBack, callbacks_doRead, callbacks_doRead, h.handedOut,
    List.filterMap_map] at hproper
  rw [hrounds.callbacks, hproper]
  rfl

/-- The records of a thread in one partition reach the callback in program order. -/
theorem Pipeline.Kept.given_sublist [Fintype τ] (h : s.Kept start) {clock : Clock} {topic : String}
    {stop : Bool} {as : List (BasicProducer.Action τ)}
    (hrun : run (BasicProducer.step clock) (BasicProducer.connected τ topic stop) as =
      some s.producer) (t : τ) (p : Int32) :
    (s.given clock t p).Sublist (toRead clock s.producer t) := by
  have hascending : ((byWriter p s.broker.taken).filterMap Entry.origin).Pairwise (· < ·) :=
    (h.ascending p).sublist ((h.inOrder.taken_sublist p).filterMap _)
  have hbound : ∀ msg ∈ (byWriter p s.broker.taken).filterMap Entry.origin,
      msg < s.producer.accepted.length := by
    intro msg hmsg
    obtain ⟨e, he, horigin⟩ := List.mem_filterMap.mp hmsg
    obtain ⟨t, args, haccepted, -⟩ := h.stored (p, e) (h.mem_entries he) msg horigin
    exact (List.getElem?_eq_some_iff.mp haccepted).1
  have hsublist := filterMap_getElem?_sublist s.producer.accepted hascending hbound
  rw [Pipeline.given, h.readable_eq clock t fun e he => ⟨p, h.mem_entries he⟩, toRead,
    ← filterMap_readable clock topic, ← byWriter_accepted hrun t]
  exact ((hsublist.filterMap _).filterMap _).map _

omit [DecidableEq τ] in
theorem Pipeline.Kept.nodup_taken (h : s.Kept start) :
    (s.broker.taken.filterMap fun e => e.2.origin).Nodup :=
  nodup_filterMap_of_byWriter _ h.inOrder.taken_sublist h.once

/-- From all partitions together each of them reaches it at most once. -/
theorem Pipeline.Kept.givenOf_subperm [Fintype τ] (h : s.Kept start) {clock : Clock}
    {topic : String} {stop : Bool} {as : List (BasicProducer.Action τ)}
    (hrun : run (BasicProducer.step clock) (BasicProducer.connected τ topic stop) as =
      some s.producer) (t : τ) :
    (s.givenOf clock t).Subperm (toRead clock s.producer t) := by
  have hentry : ∀ e ∈ s.broker.taken.map Prod.snd, ∃ p, (p, e) ∈ s.broker.entries := by
    intro e he
    obtain ⟨⟨p, e⟩, hmem, rfl⟩ := List.mem_map.mp he
    exact ⟨p, h.mem_entries (mem_byWriter.mpr hmem)⟩
  have hnodup : ((s.broker.taken.map Prod.snd).filterMap Entry.origin).Nodup := by
    rw [List.filterMap_map]
    exact h.nodup_taken
  have hbound : ∀ msg ∈ (s.broker.taken.map Prod.snd).filterMap Entry.origin,
      msg < s.producer.accepted.length := by
    intro msg hmsg
    obtain ⟨e, he, horigin⟩ := List.mem_filterMap.mp hmsg
    obtain ⟨p, hmem⟩ := hentry e he
    obtain ⟨t, args, haccepted, -⟩ := h.stored (p, e) hmem msg horigin
    exact (List.getElem?_eq_some_iff.mp haccepted).1
  have hsubperm := filterMap_getElem?_subperm s.producer.accepted hnodup hbound
  rw [Pipeline.givenOf, h.readable_eq clock t hentry, toRead, ← filterMap_readable clock topic,
    ← byWriter_accepted hrun t]
  exact subperm_map _ (subperm_filterMap _ (subperm_filterMap _ hsubperm))

end Run

/-- What becomes of the pushed records on their way to the callback. -/
structure Pipeline.Delivers (clock : Clock) (start : Int32 → Nat) (s : Pipeline τ) : Prop where
  /-- The callbacks made, and the one that is due, are those of the records that have been taken
  from the broker and are not empty, in the order in which they were taken. -/
  callbacks : callbacks s.consumer.events ++
      (s.consumer.pc.pending.map (callbackArgs clock)).toList =
    (s.broker.taken.filterMap fun e => readable (some e.2.record.message)).map (callbackArgs clock)
  /-- From each partition records have been taken without a gap or a repetition. -/
  contiguous : ∀ p, byWriter p s.broker.taken =
    ((s.broker.log p).take (s.broker.position p)).drop (start p)
  /-- What the callback is given of a thread's records in a partition are records of its accepted
  pushes, in program order. -/
  programOrder : ∀ t p, (s.given clock t p).Sublist (toRead clock s.producer t)
  /-- No message is taken twice, from one partition or from two. -/
  once : (s.broker.taken.filterMap fun e => e.2.origin).Nodup
  /-- A record that is reported without an error is in some partition; when this is read from its
  beginning to its end and the record is not empty, it has been given to the callback or is about to
  be. -/
  delivered : ∀ r ∈ s.producer.settled, r.err = .ERR_NO_ERROR →
    ∃ p t args, s.producer.accepted[r.msg]? = some (t, args) ∧ .own r.msg args ∈ s.broker.log p ∧
      (start p = 0 → s.broker.position p = (s.broker.log p).length → args.payload ≠ [] →
        callbackArgs clock (toMessage args) ∈ BasicConsumer.callbacks s.consumer.events ++
          (s.consumer.pc.pending.map (callbackArgs clock)).toList)

/-- In every interleaving of the threads that push, librdkafka, the broker and the reader, and
whenever the producer is destroyed or the consumer told to stop. -/
theorem pipeline_delivers [Fintype τ] (clock : Clock) (bkMs : Int32) (topic : String) (stop : Bool)
    (start : Int32 → Nat) (as : List (PipelineAction τ)) (s : Pipeline τ)
    (hrun : run (pipelineStep clock bkMs) (Pipeline.connected τ topic stop start) as = some s) :
    s.Delivers clock start := by
  have h := Pipeline.kept_of_run hrun
  obtain ⟨bs, hproducer⟩ := producer_run hrun
  obtain ⟨cs, hconsumer⟩ := consumer_run hrun
  have hcallbacks := h.callbacks_eq (Loop.inRounds_of_run hconsumer)
  refine ⟨hcallbacks, h.inOrder.taken, h.given_sublist hproducer, h.nodup_taken, ?_⟩
  intro r hr herr
  obtain ⟨⟨p, e⟩, he, horigin⟩ := List.mem_filterMap.mp (h.settled r hr herr)
  obtain ⟨t, args, haccepted, hown⟩ := h.stored (p, e) he r.msg horigin
  obtain rfl : e = .own r.msg args := hown
  have hlog : .own r.msg args ∈ s.broker.log p := mem_byWriter.mpr he
  refine ⟨p, t, args, haccepted, hlog, ?_⟩
  intro hstart hend hpayload
  rw [← h.inOrder.taken_eq_log hstart hend] at hlog
  rw [hcallbacks]
  refine List.mem_map_of_mem (List.mem_filterMap.mpr ⟨_, mem_byWriter.mp hlog, ?_⟩)
  exact readable_message hpayload

/-- Two records are pushed, the second while the first is read; another producer's record and an
error event are read between them, and the producer is told that both have been delivered. -/
def readWhilePushing : List (PipelineAction Unit) :=
  [.producer (.call () ⟨15000, [1]⟩ false), .producer (.produce () .ERR_NO_ERROR),
    .producer (.switch () false), .store 0 7, .read, .storeOther 7 ⟨[9], 4⟩, .fetch 7,
    .producer (.poll () 0), .producer (.call () ⟨29999, [2, 3]⟩ false), .read,
    .producer (.produce () .ERR_NO_ERROR), .read, .read, .read, .fetch 7, .read, .read, .read,
    .read, .idle (some ⟨.other (-191), [], 0⟩), .read, .read, .store 1 7, .fetch 7,
    .producer (.settle 1 .ERR_NO_ERROR ""), .producer (.settle 0 .ERR_NO_ERROR "")]

theorem pipeline_delivers_readWhilePushing :
    ∃ s, run (pipelineStep .hundredNanoseconds 1000)
        (Pipeline.connected Unit "" false fun _ => 0) readWhilePushing = some s ∧
      s.given .hundredNanoseconds () 7 = [(10000, [1], 1), (20000, [2, 3], 2)] ∧
      s.Delivers .hundredNanoseconds fun _ => 0 :=
  ⟨_, rfl, by decide, pipeline_delivers .hundredNanoseconds 1000 "" false (fun _ => 0)
    readWhilePushing _ rfl⟩

/-! ## A time series -/

/-- The accepted pushes of a thread are pushes of it, in order. -/
theorem okOrPending_sublist {s : BasicProducer.State τ} (h : InProgramOrder s) (t : τ) :
    (okOrPending s t).Sublist (byWriter t s.called) := by
  rw [h t]
  refine (List.filter_sublist.map _).append ?_
  cases hframe : s.frame t with
  | none => exact List.nil_sublist _
  | some f => by_cases hf : f.committed <;> simp [Option.filter, hf]

/-- What the callback is given of a thread's records comes from its pushes, in program order. -/
theorem Pipeline.Kept.given_sublist_called [Fintype τ] {s : Pipeline τ} {start : Int32 → Nat}
    (h : s.Kept start) {clock : Clock} {topic : String} {stop : Bool}
    {as : List (BasicProducer.Action τ)}
    (hrun : run (BasicProducer.step clock) (BasicProducer.connected τ topic stop) as =
      some s.producer) (t : τ) (p : Int32) :
    (s.given clock t p).Sublist ((byWriter t s.producer.called).map (asRead clock)) := by
  have hinOrder : InProgramOrder s.producer :=
    run_invariant InProgramOrder.step hrun (fun _ => rfl)
  have hpushed := okOrPending_sublist hinOrder t
  exact (h.given_sublist hrun t p).trans ((List.filter_sublist.trans hpushed).map _)

/-- The same from all partitions together, in whatever order these are read. -/
theorem Pipeline.Kept.givenOf_subperm_called [Fintype τ] {s : Pipeline τ} {start : Int32 → Nat}
    (h : s.Kept start) {clock : Clock} {topic : String} {stop : Bool}
    {as : List (BasicProducer.Action τ)}
    (hrun : run (BasicProducer.step clock) (BasicProducer.connected τ topic stop) as =
      some s.producer) (t : τ) :
    (s.givenOf clock t).Subperm ((byWriter t s.producer.called).map (asRead clock)) := by
  have hinOrder : InProgramOrder s.producer :=
    run_invariant InProgramOrder.step hrun (fun _ => rfl)
  have hpushed := okOrPending_sublist hinOrder t
  exact (h.givenOf_subperm hrun t).trans
    ((List.filter_sublist.trans hpushed).map _).subperm

/-- A thread that pushes the records of a time series in the order of their times has them read
back in the order of their times, partition by partition, whatever the other threads push and
whichever of its records are lost on the way. -/
theorem series_in_order [Fintype τ] (clock : Clock) (bkMs : Int32) (topic : String) (stop : Bool)
    (start : Int32 → Nat) (as : List (PipelineAction τ)) (s : Pipeline τ)
    (hrun : run (pipelineStep clock bkMs) (Pipeline.connected τ topic stop start) as = some s)
    (t : τ) (hseries : ((byWriter t s.producer.called).map TimedData.ts).Pairwise (· ≤ ·))
    (p : Int32) : ((s.given clock t p).map Prod.fst).Pairwise (· ≤ ·) := by
  have h := Pipeline.kept_of_run hrun
  obtain ⟨bs, hproducer⟩ := producer_run hrun
  have hread : (((byWriter t s.producer.called).map (asRead clock)).map Prod.fst).Pairwise
      (· ≤ ·) := by
    rw [List.map_map]
    refine List.pairwise_map.mpr ((List.pairwise_map.mp hseries).imp ?_)
    intro d e hle
    exact clock.coarsening.coarsen_mono hle
  exact hread.sublist ((h.given_sublist_called hproducer t p).map _)

theorem series_in_order_readWhilePushing :
    ∃ s, run (pipelineStep .hundredNanoseconds 1000)
        (Pipeline.connected Unit "" false fun _ => 0) readWhilePushing = some s ∧
      ((s.given .hundredNanoseconds () 7).map Prod.fst).Pairwise (· ≤ ·) :=
  ⟨_, rfl, series_in_order .hundredNanoseconds 1000 "" false (fun _ => 0) readWhilePushing _ rfl ()
    (by decide) 7⟩

end Delivers

end TsKafka
