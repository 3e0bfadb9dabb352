import TsKafka.BasicConsumer.Lifecycle
import TsKafka.BasicConsumer.DoRead

/-!
# What a started consumer reads

A consumer after a `start` that returned true, with librdkafka and the broker's partition logs.
`_queue` is fed by the partitions that were started on it (`Consumer::start`) or assigned in the
rebalance callback; `consume` hands out their records in offset order and times out when they are
drained.
-/

namespace TsKafka.BasicConsumer
open RdKafka PartialRun

/-- A record of a partition log. -/
structure Record where
  payload : List UInt8
  timestamp : Int64
  deriving DecidableEq, Repr

/-- The message in which `consume` hands out a record. -/
def Record.message (r : Record) : Message := ⟨.ERR_NO_ERROR, r.payload, r.timestamp⟩

/-- The partition logs, and the position in a log that a starting offset stands for. Negative
offsets are librdkafka's logical ones (begin, end, stored). -/
structure Broker where
  log : String → Int32 → List Record
  position : String → Int32 → Int64 → Nat
  position_nonneg : ∀ topic partition offset, 0 ≤ offset →
    position topic partition offset = offset.toInt.toNat

/-- A partition that feeds the queue; `next` is the offset of its next record. -/
structure Feed where
  topic : String
  partition : Int32
  next : Nat
  deriving DecidableEq, Repr

def Broker.feed (b : Broker) (topic : String) (partition : Int32) (offset : Int64) : Feed :=
  ⟨topic, partition, b.position topic partition offset⟩

/-- The next record of a feed. -/
def Broker.nextRecord (b : Broker) (f : Feed) : Option Record :=
  (b.log f.topic f.partition)[f.next]?

/-- The partitions that a log of calls has started on the queue `q`. -/
def Broker.startedOn (b : Broker) (q : Option Queue) (log : List Call) : List Feed :=
  log.filterMap fun
    | .consumerStart topic partition offset queue =>
      if some queue = q then some (b.feed topic.name partition offset) else none
    | _ => none

/-- The running consumer: `delivered` is what the callback has been given so far, `timedOut` says
that a `consume` has timed out. -/
structure Replay where
  feeds : List Feed
  rb : RbCb
  reader : ReaderPc
  delivered : List (Tp × List UInt8 × Nat)
  timedOut : Bool
  deriving DecidableEq

/-- The state in which `start` leaves the consumer. -/
def Broker.replay (b : Broker) (w : World) : Replay where
  feeds := b.startedOn w.bc.queue w.log
  rb := w.bc.rbCb
  reader := .head
  delivered := []
  timedOut := false

/-- What a `consume` call returns. -/
inductive Answer where
  /-- The next record of the feed at place `i`. -/
  | record (i : Nat)
  /-- A message with an error other than a timeout. -/
  | event (msg : Message)
  /-- Null, or `ERR__TIMED_OUT`. -/
  | timeout (msg : Option Message)
  deriving DecidableEq, Repr

/-- `consume` times out with null or with a message that says so. -/
def isTimeout : Option Message → Bool
  | none => true
  | some msg => msg.err == .ERR__TIMED_OUT

namespace Replay

/-- The `consume` call of the reader returns. -/
def consumed (b : Broker) (s : Replay) : Answer → Option Replay
  | .record i => do
    let f ← s.feeds[i]?
    let r ← b.nextRecord f
    some { s with
      feeds := s.feeds.set i { f with next := f.next + 1 }
      reader := .got (some r.message) }
  | .event msg =>
    if msg.err ≠ .ERR_NO_ERROR ∧ msg.err ≠ .ERR__TIMED_OUT then
      some { s with reader := .got (some msg) }
    else none
  | .timeout msg =>
    if isTimeout msg ∧ ∀ f ∈ s.feeds, b.nextRecord f = none then
      some { s with reader := .got msg, timedOut := true }
    else none

end Replay

inductive ReplayAction where
  /-- A step of the reader outside `consume`; `stop` is the value of `_stop`, which a `stop` call
  may have raised by then. -/
  | reader (stop : Bool)
  | consume (answer : Answer)
  /-- librdkafka calls the rebalance callback. -/
  | rebalance (err : ErrorCode) (partitions : List TopicPartition)
  deriving DecidableEq

/-- One step of the consumer that `start` left as `w`. The rebalance callback belongs to the
group-aware `KafkaConsumer`, and it is this class that it is called with. -/
def replayStep (clock : Clock) (b : Broker) (w : World) (bkMs : Int32) (s : Replay) :
    ReplayAction → Option Replay
  | .reader stop =>
    if s.reader = .consume ∨ (w.bc.stop = true ∧ stop = false) then none
    else (s.reader.next stop none).map fun pc =>
      { s with
        reader := pc
        delivered := s.delivered ++ callbacks (s.reader.event clock bkMs none) }
  | .consume answer => if s.reader = .consume then s.consumed b answer else none
  | .rebalance err partitions =>
    if w.bc.consumer.map Client.kind = some .kafkaConsumer then
      let r := s.rb.rebalanceCb err partitions
      some { s with
        rb := r.rb
        feeds := r.assigns.foldl
          (fun _ ps => ps.map fun p => b.feed p.topic p.partition p.offset) s.feeds }
    else none

/-- What the records of `log` from `offset` on give the callback. -/
def expected (clock : Clock) (log : List Record) (offset : Nat) : List (Tp × List UInt8 × Nat) :=
  (log.drop offset).map fun r => callbackArgs clock r.message

/-- The callback has been given a beginning of the expected records, and all of them once a
`consume` has timed out. -/
def Replay.Replays (clock : Clock) (log : List Record) (offset : Nat) (s : Replay) : Prop :=
  s.delivered <+: expected clock log offset ∧
    (s.timedOut = true → s.delivered = expected clock log offset)

/-! ## What the callback is given -/

/-- What the callback has been given, and what the reader holds for it. -/
def Replay.given (clock : Clock) (s : Replay) : List (Tp × List UInt8 × Nat) :=
  s.delivered ++ (s.reader.pending.map (callbackArgs clock)).toList

theorem Replay.delivered_prefix_given (clock : Clock) (s : Replay) :
    s.delivered <+: s.given clock :=
  List.prefix_append _ _

theorem readable_timeout {result : Option Message} (h : isTimeout result = true) :
    readable result = none := by
  cases result with
  | none => rfl
  | some msg =>
    have herr : msg.err = .ERR__TIMED_OUT := by simpa [isTimeout] using h
    simp [readable, rejected, herr, Option.filter]

theorem readable_event {msg : Message} (h : msg.err ≠ .ERR_NO_ERROR) :
    readable (some msg) = none := by
  simp [readable, rejected, h, Option.filter]

theorem readable_message {r : Record} (h : r.payload ≠ []) :
    readable (some r.message) = some r.message := by
  simp [readable, rejected, Record.message, Message.len, h, Option.filter]

section Steps

variable {clock : Clock} {b : Broker} {w : World} {bkMs : Int32} {s s' : Replay}

/-- What a step does to a consumer that is not group-aware: it hands out no record, or the next
one of a feed. -/
theorem replayStep_cases {a : ReplayAction} (h : replayStep clock b w bkMs s a = some s')
    (hkind : w.bc.consumer.map Client.kind ≠ some .kafkaConsumer) :
    s.delivered <+: s'.delivered ∧
      ((s'.feeds = s.feeds ∧ s'.given clock = s.given clock ∧
          (s'.timedOut = s.timedOut ∨
            (∀ f ∈ s.feeds, b.nextRecord f = none) ∧ s'.delivered = s'.given clock)) ∨
        ∃ i f r, s.feeds[i]? = some f ∧ b.nextRecord f = some r ∧
          s'.feeds = s.feeds.set i { f with next := f.next + 1 } ∧
          s'.given clock =
            s.given clock ++ ((readable (some r.message)).map (callbackArgs clock)).toList ∧
          s'.timedOut = s.timedOut) := by
  cases a with
  | reader stop =>
    simp only [replayStep] at h
    split at h
    · cases h
    · rename_i hguard
      have hpc : s.reader ≠ .consume := fun hpc => hguard (.inl hpc)
      obtain ⟨pc, hnext, rfl⟩ := Option.map_eq_some_iff.mp h
      refine ⟨List.prefix_append _ _, .inl ⟨rfl, ?_, .inl rfl⟩⟩
      show (s.delivered ++ callbacks _) ++ _ = s.given clock
      rw [List.append_assoc, ReaderPc.next_pending hpc hnext]
      rfl
  | consume answer =>
    simp only [replayStep] at h
    split at h
    · rename_i hpc
      have hgiven : s.given clock = s.delivered := by
        simp [Replay.given, hpc, ReaderPc.pending]
      cases answer with
      | record i =>
        simp only [Replay.consumed, Option.bind_eq_bind, Option.bind_eq_some_iff] at h
        obtain ⟨f, hf, r, hr, hs'⟩ := h
        cases hs'
        refine ⟨List.prefix_refl _, .inr ⟨i, f, r, hf, hr, rfl, ?_, rfl⟩⟩
        rw [hgiven]
        rfl
      | event msg =>
        simp only [Replay.consumed] at h
        split at h
        · rename_i herr
          cases h
          refine ⟨List.prefix_refl _, .inl ⟨rfl, ?_, .inl rfl⟩⟩
          rw [hgiven]
          simp [Replay.given, ReaderPc.pending, readable_event herr.1]
        · cases h
      | timeout msg =>
        simp only [Replay.consumed] at h
        split at h
        · rename_i hguard
          cases h
          have hnone := readable_timeout hguard.1
          refine ⟨List.prefix_refl _, .inl ⟨rfl, ?_, .inr ⟨hguard.2, ?_⟩⟩⟩
          · rw [hgiven]
            simp [Replay.given, ReaderPc.pending, hnone]
          · simp [Replay.given, ReaderPc.pending, hnone]
        · cases h
    · cases h
  | rebalance err partitions =>
    simp only [replayStep] at h
    rw [if_neg hkind] at h
    cases h

/-! ## A partition that was started on the queue -/

/-- The consumer has read `n` records of its one feed, which began at `offset`. -/
structure Follows (clock : Clock) (b : Broker) (topic : String) (partition : Int32) (offset : Nat)
    (n : Nat) (s : Replay) : Prop where
  feeds : s.feeds = [⟨topic, partition, offset + n⟩]
  given : s.given clock = (expected clock (b.log topic partition) offset).take n
  timedOut : s.timedOut = true →
    (b.log topic partition).length ≤ offset + n ∧ s.delivered = s.given clock

theorem expected_take_succ {log : List Record} {offset n : Nat} {r : Record}
    (h : log[offset + n]? = some r) :
    (expected clock log offset).take (n + 1) =
      (expected clock log offset).take n ++ [callbackArgs clock r.message] := by
  rw [List.take_add_one]
  simp [expected, h]

theorem Follows.step {topic : String} {partition : Int32} {offset : Nat}
    (hkind : w.bc.consumer.map Client.kind ≠ some .kafkaConsumer)
    (hpayload : ∀ r ∈ b.log topic partition, r.payload ≠ []) (s : Replay) (a : ReplayAction)
    (s' : Replay) (h : ∃ n, Follows clock b topic partition offset n s)
    (hstep : replayStep clock b w bkMs s a = some s') :
    ∃ n, Follows clock b topic partition offset n s' := by
  obtain ⟨n, h⟩ := h
  obtain ⟨hgrows, hcases⟩ := replayStep_cases hstep hkind
  rcases hcases with ⟨hfeeds, hgiven, htimedOut⟩ | ⟨i, f, r, hf, hr, hfeeds, hgiven, htimedOut⟩
  · refine ⟨n, hfeeds ▸ h.feeds, hgiven ▸ h.given, fun hout => ?_⟩
    rcases htimedOut with hsame | ⟨hdrained, hall⟩
    · obtain ⟨hlength, hdelivered⟩ := h.timedOut (hsame ▸ hout)
      refine ⟨hlength, ?_⟩
      -- nothing is left to deliver, so the step has delivered nothing
      have hback : s'.delivered <+: s.delivered := by
        rw [hdelivered, ← hgiven]
        exact s'.delivered_prefix_given clock
      rw [hgiven, ← hdelivered]
      exact hback.eq_of_length_le hgrows.length_le
    · refine ⟨?_, hall⟩
      have hend := hdrained ⟨topic, partition, offset + n⟩ (by simp [h.feeds])
      exact List.getElem?_eq_none_iff.mp hend
  · have hi : i = 0 := by
      have hlt := (List.getElem?_eq_some_iff.mp hf).1
      rw [h.feeds] at hlt
      exact Nat.lt_one_iff.mp hlt
    subst hi
    rw [h.feeds] at hf
    cases hf
    have hnonempty : r.payload ≠ [] := hpayload r (List.mem_of_getElem? hr)
    refine ⟨n + 1, ?_, ?_, fun hout => ?_⟩
    · rw [hfeeds, h.feeds]
      rfl
    · rw [hgiven, h.given, readable_message hnonempty, expected_take_succ hr]
      rfl
    · -- a feed with a next record has not been drained
      obtain ⟨hlength, -⟩ := h.timedOut (htimedOut ▸ hout)
      have hlt := (List.getElem?_eq_some_iff.mp hr).1
      exact absurd hlength (Nat.not_le.mpr hlt)

theorem Follows.replays {topic : String} {partition : Int32} {offset n : Nat}
    (h : Follows clock b topic partition offset n s) :
    s.Replays clock (b.log topic partition) offset := by
  have hgiven := s.delivered_prefix_given clock
  rw [h.given] at hgiven
  refine ⟨hgiven.trans (List.take_prefix n _), fun hout => ?_⟩
  obtain ⟨hlength, hall⟩ := h.timedOut hout
  rw [hall, h.given, List.take_of_length_le]
  simp only [expected, List.length_map, List.length_drop]
  omega

/-- `do_read` replays a partition that has been started on the queue. -/
theorem replays_of_feed {topic : String} {partition : Int32} {offset : Nat} {rb : RbCb}
    (hkind : w.bc.consumer.map Client.kind ≠ some .kafkaConsumer)
    (hpayload : ∀ r ∈ b.log topic partition, r.payload ≠ []) {as : List ReplayAction}
    (hrun : run (replayStep clock b w bkMs)
      ⟨[⟨topic, partition, offset⟩], rb, .head, [], false⟩ as = some s) :
    s.Replays clock (b.log topic partition) offset := by
  obtain ⟨n, h⟩ := run_invariant (Follows.step hkind hpayload) hrun
    ⟨0, rfl, by simp [Replay.given, ReaderPc.pending], by simp⟩
  exact h.replays

/-! ## The partitions that `start` starts -/

/-- The callback has been given nothing and will be given nothing. -/
structure Silent (clock : Clock) (s : Replay) : Prop where
  feeds : s.feeds = []
  given : s.given clock = []

theorem Silent.step (hkind : w.bc.consumer.map Client.kind ≠ some .kafkaConsumer) (s : Replay)
    (a : ReplayAction) (s' : Replay) (h : Silent clock s)
    (hstep : replayStep clock b w bkMs s a = some s') : Silent clock s' := by
  obtain ⟨-, ⟨hfeeds, hgiven, -⟩ | ⟨i, f, r, hf, -⟩⟩ := replayStep_cases hstep hkind
  · exact ⟨hfeeds ▸ h.feeds, hgiven ▸ h.given⟩
  · rw [h.feeds] at hf
    cases hf

/-- A reader that is told to stop from its first test on consumes nothing. -/
structure Halted (s : Replay) : Prop where
  reader : s.reader = .head ∨ s.reader = .notify ∨ s.reader = .done
  timedOut : s.timedOut = false

theorem Halted.step (hkind : w.bc.consumer.map Client.kind ≠ some .kafkaConsumer)
    (hstop : w.bc.stop = true) (s : Replay) (a : ReplayAction) (s' : Replay) (h : Halted s)
    (hstep : replayStep clock b w bkMs s a = some s') : Halted s' := by
  have hpc : s.reader ≠ .consume := by
    rcases h.reader with hpc | hpc | hpc <;> simp [hpc]
  cases a with
  | reader stop =>
    simp only [replayStep, hpc, false_or, hstop, true_and] at hstep
    cases stop with
    | false => cases hstep
    | true =>
      rw [if_neg (by simp)] at hstep
      obtain ⟨pc, hnext, rfl⟩ := Option.map_eq_some_iff.mp hstep
      refine ⟨?_, h.timedOut⟩
      rcases h.reader with hpc | hpc | hpc <;> rw [hpc] at hnext <;> cases hnext
      · exact .inr (.inl rfl)
      · exact .inr (.inr rfl)
  | consume answer =>
    rw [replayStep, if_neg hpc] at hstep
    cases hstep
  | rebalance err partitions =>
    rw [replayStep, if_neg hkind] at hstep
    cases hstep

/-- No call of the object is a `Consumer::start`, and its client is not group-aware. -/
theorem start_feeds_nothing (clock : Clock) (b : Broker) {rb : RbCb} {h : List Op} {v : World}
    {env : StartEnv} {sa : ConsumerStartArgs} {errstr errstr' : String}
    (hexec : exec (World.fresh rb) h = .ok v)
    (hstart : start env v sa errstr = .ok (true, w, errstr')) :
    Silent clock (b.replay w) ∧ w.bc.consumer.map Client.kind ≠ some .kafkaConsumer := by
  have hexec' : exec (World.fresh rb) (h ++ [.start env sa errstr]) = .ok w := by
    rw [exec_concat_ok]
    exact ⟨v, hexec, by rw [Op.exec, hstart]; rfl⟩
  have hfeeds : b.startedOn w.bc.queue w.log = [] := by
    apply List.filterMap_eq_nil_iff.mpr
    intro call hcall
    cases call with
    | consumerStart topic partition offset queue =>
      exact absurd hcall (exec_no_consumerStart hexec' topic partition offset queue)
    | _ => rfl
  obtain ⟨gconf, rfl⟩ := start_ok_true hstart
  refine ⟨⟨hfeeds, rfl⟩, ?_⟩
  intro hkind
  cases hkind

/-- After any history of calls, a consumer whose `start` returned true replays the partition from
`start_offset` on exactly when there is nothing to replay, because the offset is the end of the
log, or when `stop` had been called before and the reader consumes nothing. -/
theorem replays_iff_at_end (clock : Clock) (b : Broker) (rb : RbCb) (h : List Op) (v : World)
    (hexec : exec (World.fresh rb) h = .ok v) (env : StartEnv) (sa : ConsumerStartArgs)
    (errstr errstr' : String) (w : World)
    (hstart : start env v sa errstr = .ok (true, w, errstr')) (partition : Int32)
    (hlow : 0 ≤ sa.startOffset)
    (hhigh : sa.startOffset.toInt ≤ (b.log sa.topic partition).length) :
    (∀ as s, run (replayStep clock b w sa.consumeBlockTimeMs) (b.replay w) as = some s →
      s.Replays clock (b.log sa.topic partition) sa.startOffset.toInt.toNat) ↔
      sa.startOffset.toInt = (b.log sa.topic partition).length ∨ Op.stop ∈ h := by
  obtain ⟨hsilent, hkind⟩ := start_feeds_nothing clock b hexec hstart
  have hlow : 0 ≤ sa.startOffset.toInt := Int64.le_iff_toInt_le.mp hlow
  have hstop : w.bc.stop = true ↔ Op.stop ∈ h := by
    obtain ⟨gconf, rfl⟩ := start_ok_true hstart
    exact (exec_tracks hexec).stop
  constructor
  · intro hall
    by_cases hmem : Op.stop ∈ h
    · exact .inr hmem
    · have hrunning : w.bc.stop = false := by
        rw [Bool.eq_false_iff, ne_eq, hstop]
        exact hmem
      -- the first `consume` times out
      have hrun : run (replayStep clock b w sa.consumeBlockTimeMs) (b.replay w)
          [.reader false, .consume (.timeout none)] =
          some { b.replay w with reader := .got none, timedOut := true } := by
        have hfeeds := hsilent.feeds
        simp only [Broker.replay] at hfeeds
        simp [run, replayStep, Broker.replay, ReaderPc.next, ReaderPc.event, Replay.consumed,
          isTimeout, hfeeds, hrunning]
      have hempty := (hall _ _ hrun).2 rfl
      have hdrop : (b.log sa.topic partition).length ≤ sa.startOffset.toInt.toNat := by
        rw [← List.drop_eq_nil_iff, ← List.map_eq_nil_iff]
        exact hempty.symm
      omega
  · intro hcond as s hrun
    have hs := run_invariant (Silent.step hkind) hrun hsilent
    have hdelivered : s.delivered = [] :=
      List.prefix_nil.mp (hs.given ▸ s.delivered_prefix_given clock)
    rw [Replay.Replays, hdelivered]
    refine ⟨by simp, fun hout => ?_⟩
    rcases hcond with hend | hmem
    · simp [expected, hend]
    · have hhalted := run_invariant (Halted.step hkind (hstop.mpr hmem)) hrun ⟨.inl rfl, rfl⟩
      rw [hhalted.timedOut] at hout
      cases hout

end Steps

/-- A broker that has the records `log` in partition 0 of the topic `test`. -/
def Broker.single (log : List Record) : Broker where
  log topic partition := if topic = "test" ∧ partition = 0 then log else []
  position _ _ offset := offset.toInt.toNat
  position_nonneg _ _ _ _ := rfl

/-- The one record of the log is never given to a consumer that starts at offset 0. -/
theorem record_not_replayed :
    ∃ w, start .accepting (World.fresh ⟨0, 0⟩) .fromBeginning "" = .ok (true, w, "") ∧
      ¬ ∀ as s, run (replayStep .hundredNanoseconds (.single [⟨[1], 5⟩]) w 1000)
        ((Broker.single [⟨[1], 5⟩]).replay w) as = some s →
          s.Replays .hundredNanoseconds [⟨[1], 5⟩] 0 := by
  refine ⟨_, rfl, fun hall => ?_⟩
  have hempty := (hall [.reader false, .consume (.timeout none)] _ rfl).2 rfl
  cases hempty

/-- The condition at a consumer that starts behind the one record. -/
theorem replays_iff_at_end_single :
    ∃ w, start .accepting (World.fresh ⟨0, 0⟩) { ConsumerStartArgs.fromBeginning with
        startOffset := 1 } "" = .ok (true, w, "") ∧
      ∀ as s, run (replayStep .hundredNanoseconds (.single [⟨[1], 5⟩]) w 1000)
        ((Broker.single [⟨[1], 5⟩]).replay w) as = some s →
          s.Replays .hundredNanoseconds [⟨[1], 5⟩] 1 :=
  ⟨_, rfl, (replays_iff_at_end .hundredNanoseconds (.single [⟨[1], 5⟩]) ⟨0, 0⟩ [] _ rfl .accepting
    { ConsumerStartArgs.fromBeginning with startOffset := 1 } "" "" _ rfl 0 (by decide)
    (by decide)).mpr (.inl rfl)⟩

end TsKafka.BasicConsumer
