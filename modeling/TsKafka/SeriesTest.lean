import TsKafka.Pipeline
import TsKafka.Library.LittleEndian

/-!
# The program of `_ts-kafka-test` (`_ts-kafka-test/main.cpp`)

One thread pushes numbered records with their time in the payload. The callback of a consumer
compares number and time of every record with those it expects and ends the program at the first
that differs.
-/

namespace TsKafka.SeriesTest
open RdKafka PartialRun WriterLog PartitionedLog BasicProducer BasicConsumer LittleEndian

/-! ## `mydata_t` -/

/-- `mydata_t` (lines 18-22). -/
structure MydataT where
  time : Int64
  counter : UInt64
  deriving DecidableEq, Repr

/-- The object in memory: two little-endian numbers of 8 bytes. -/
def MydataT.bytes (d : MydataT) : List UInt8 :=
  toBytes 8 d.time.toUInt64.toNat ++ toBytes 8 d.counter.toNat

/-- The object that `(mydata_t*)buf` points to, when `buf` has its 16 bytes. -/
def MydataT.read (buf : List UInt8) : Option MydataT :=
  if 16 ≤ buf.length then
    some ⟨(UInt64.ofNat (ofBytes (buf.take 8))).toInt64,
      UInt64.ofNat (ofBytes ((buf.drop 8).take 8))⟩
  else none

@[simp] theorem MydataT.length_bytes (d : MydataT) : d.bytes.length = 16 := by
  simp [MydataT.bytes]

@[simp] theorem MydataT.read_bytes (d : MydataT) : MydataT.read d.bytes = some d := by
  have htime : ofBytes (d.bytes.take 8) = d.time.toUInt64.toNat :=
    ofBytes_field d.time.toUInt64.toNat_lt [] (toBytes 8 d.counter.toNat)
  have hcounter : ofBytes ((d.bytes.drop 8).take 8) = d.counter.toNat := by
    have hlt : d.counter.toNat < 256 ^ 8 := d.counter.toNat_lt
    have hfield := ofBytes_field hlt (toBytes 8 d.time.toUInt64.toNat) []
    rwa [length_toBytes, List.append_nil] at hfield
  rw [MydataT.read, if_pos (by simp), htime, hcounter, UInt64.ofNat_toNat, UInt64.ofNat_toNat,
    Int64.toInt64_toUInt64]

/-! ## The two threads -/

/-- What ends the program before the end of `main`. -/
inductive Ended where
  /-- `report_error(s, x)`. -/
  | report (s : String) (x : Int32)
  /-- The callback reads behind the end of `buf`. -/
  | outOfBounds
  deriving DecidableEq, Repr

/-- What one round of the producing loop meets: the time in its condition, the time `n` that it
gives the record, and the result of `push`. -/
structure Round where
  now : Tp
  n : Tp
  e : ProducerStatus
  deriving DecidableEq, Repr

/-- The record number `counter` of the time `n`. -/
def timedData (clock : Clock) (counter : UInt64) (n : Tp) : TimedDataRaw :=
  ⟨n, MydataT.bytes ⟨clock.toKafkaTs n, counter⟩⟩

/-- The loop of `produce_th` (lines 52-70) from `mydata->counter` on: the records that it pushes,
and what ends the program. -/
def produceLoop (clock : Clock) (finish : Tp) (counter : UInt64) :
    List Round → List TimedDataRaw × Option Ended
  | [] => ([], none)
  | r :: rest =>
    if r.now < finish + clock.ofMilliseconds 2000 then
      if r.e = .error then
        ([timedData clock counter r.n], some (.report "connect/internal error, exiting" 11))
      else
        let next := produceLoop clock finish (counter + 1) rest
        (timedData clock counter r.n :: next.1, next.2)
    else ([], none)

/-- The callback (lines 83-112): the new value of `counter`. -/
def callback (clock : Clock) (start finish : Tp) (counter : UInt64) :
    Tp × List UInt8 × Nat → Except Ended UInt64
  | (ts, buf, _) =>
    match MydataT.read buf with
    | none => .error .outOfBounds
    | some t =>
      if counter = 0 ∨ t.counter = counter + 1 then
        if ts ≠ clock.ofMilliseconds t.time then .error (.report "times are not sync" 14)
        else if ts < start then .error (.report "data before start" 15)
        else if finish < ts then .error (.report "data after end " 16)
        else .ok t.counter
      else .error (.report "missed data" 13)

/-- The callback for one record after the other. -/
def check (clock : Clock) (start finish : Tp) (counter : UInt64)
    (given : List (Tp × List UInt8 × Nat)) : Except Ended UInt64 :=
  given.foldlM (callback clock start finish) counter

/-! ## What is pushed -/

/-- The series of the records of `times`, numbered from `k` on. -/
def series (clock : Clock) (k : Nat) (times : List Tp) : List TimedDataRaw :=
  (times.zipIdx k).map fun item => timedData clock (UInt64.ofNat item.2) item.1

/-- The loop pushes a numbered series. -/
theorem produceLoop_series (clock : Clock) (finish : Tp) (k : Nat) (rounds : List Round) :
    ∃ times, times.length ≤ rounds.length ∧
      (produceLoop clock finish (UInt64.ofNat k) rounds).1 = series clock k times := by
  induction rounds generalizing k with
  | nil => exact ⟨[], Nat.le_refl _, rfl⟩
  | cons r rest ih =>
    rw [produceLoop]
    split
    · split
      · exact ⟨[r.n], by simp, rfl⟩
      · obtain ⟨times, hlength, hrest⟩ := ih (k + 1)
        rw [UInt64.ofNat_add] at hrest
        refine ⟨r.n :: times, by simpa using hlength, ?_⟩
        have hnext : (produceLoop clock finish (UInt64.ofNat k + 1) rest).1 =
          series clock (k + 1) times := hrest
        simp only [hnext, series, List.zipIdx_cons, List.map_cons]
    · exact ⟨[], Nat.zero_le _, rfl⟩

/-! ## What the callback notices -/

/-- After number `c` the callback lets `k` pass as the next number. -/
def Follows (c k : Nat) : Prop := c = 0 ∨ k = c + 1

instance (c k : Nat) : Decidable (Follows c k) := inferInstanceAs (Decidable (_ ∨ _))

/-- A record of the series, as the callback is given it. -/
def given (clock : Clock) (item : Tp × Nat) : Tp × List UInt8 × Nat :=
  asRead clock (timedData clock (UInt64.ofNat item.2) item.1)

variable {clock : Clock} {start finish : Tp}

theorem ofNat_eq_zero {c : Nat} (hc : c < 2 ^ 64) : UInt64.ofNat c = 0 ↔ c = 0 := by
  rw [← UInt64.toNat_inj, UInt64.toNat_ofNat_of_lt' hc]
  rfl

theorem ofNat_eq_ofNat_add_one {c k : Nat} (hc : c + 1 < 2 ^ 64) (hk : k < 2 ^ 64) :
    UInt64.ofNat k = UInt64.ofNat c + 1 ↔ k = c + 1 := by
  have hone : UInt64.ofNat c + 1 = UInt64.ofNat (c + 1) := (UInt64.ofNat_add c 1).symm
  rw [hone, ← UInt64.toNat_inj, UInt64.toNat_ofNat_of_lt' hk, UInt64.toNat_ofNat_of_lt' hc]

/-- The callback for a record of the series: its time is always the one in the payload. -/
theorem callback_given {c : Nat} {item : Tp × Nat} (hc : c + 1 < 2 ^ 64) (hk : item.2 < 2 ^ 64) :
    callback clock start finish (UInt64.ofNat c) (given clock item) =
      if Follows c item.2 then
        if (given clock item).1 < start then .error (.report "data before start" 15)
        else if finish < (given clock item).1 then .error (.report "data after end " 16)
        else .ok (UInt64.ofNat item.2)
      else .error (.report "missed data" 13) := by
  have hfollows : (UInt64.ofNat c = 0 ∨ UInt64.ofNat item.2 = UInt64.ofNat c + 1) ↔
      Follows c item.2 := by
    rw [ofNat_eq_zero (Nat.lt_of_succ_lt hc), ofNat_eq_ofNat_add_one hc hk, Follows]
  simp only [callback, given, asRead, timedData, MydataT.read_bytes, hfollows, ne_eq,
    not_true_eq_false, if_false]

/-- The time of a record is one that the program accepts. -/
def InWindow (start finish : Tp) (g : Tp × List UInt8 × Nat) : Prop := start ≤ g.1 ∧ g.1 ≤ finish

/-- The texts and exit codes with which the callback can end the program. -/
def Ended.ofCheck (e : Ended) : Prop :=
  e = .report "missed data" 13 ∨ e = .report "data before start" 15 ∨
    e = .report "data after end " 16

theorem callback_given_ok {c : Nat} {item : Tp × Nat} (hc : c + 1 < 2 ^ 64) (hk : item.2 < 2 ^ 64)
    (hfollows : Follows c item.2) (hwindow : InWindow start finish (given clock item)) :
    callback clock start finish (UInt64.ofNat c) (given clock item) =
      .ok (UInt64.ofNat item.2) := by
  rw [callback_given hc hk, if_pos hfollows, if_neg (Int64.not_lt.mpr hwindow.1),
    if_neg (Int64.not_lt.mpr hwindow.2)]

theorem callback_given_error {c : Nat} {item : Tp × Nat} (hc : c + 1 < 2 ^ 64)
    (hk : item.2 < 2 ^ 64)
    (hbad : ¬ (Follows c item.2 ∧ InWindow start finish (given clock item))) :
    ∃ e, callback clock start finish (UInt64.ofNat c) (given clock item) = .error e ∧
      e.ofCheck := by
  rw [callback_given hc hk]
  by_cases hfollows : Follows c item.2
  · rw [if_pos hfollows]
    by_cases hstart : (given clock item).1 < start
    · rw [if_pos hstart]
      exact ⟨_, rfl, .inr (.inl rfl)⟩
    · rw [if_neg hstart]
      have hfinish : finish < (given clock item).1 := by
        apply Int64.not_le.mp
        intro hle
        exact hbad ⟨hfollows, Int64.not_lt.mp hstart, hle⟩
      rw [if_pos hfinish]
      exact ⟨_, rfl, .inr (.inr rfl)⟩
  · rw [if_neg hfollows]
    exact ⟨_, rfl, .inl rfl⟩

variable (clock start finish) in
/-- The callbacks for records of the series with ascending numbers: all of them return exactly when
every number follows the one before and every time is in the window. -/
theorem check_given {c : Nat} {items : List (Tp × Nat)} (hc : c + 1 < 2 ^ 64)
    (hbound : ∀ item ∈ items, item.2 < 2 ^ 64)
    (hascending : items.Pairwise fun a b => a.2 < b.2) :
    ((∃ counter, check clock start finish (UInt64.ofNat c) (items.map (given clock)) =
        .ok counter) ↔
      (c :: items.map Prod.snd).IsChain Follows ∧
        ∀ item ∈ items, InWindow start finish (given clock item)) ∧
    ∀ e, check clock start finish (UInt64.ofNat c) (items.map (given clock)) = .error e →
      e.ofCheck := by
  induction items generalizing c with
  | nil =>
    refine ⟨iff_of_true ⟨_, rfl⟩ ⟨.singleton c, by simp⟩, ?_⟩
    rintro e ⟨⟩
  | cons item rest ih =>
    obtain ⟨hk, hrest⟩ := List.forall_mem_cons.mp hbound
    obtain ⟨hless, hpairwise⟩ := List.pairwise_cons.mp hascending
    rw [List.map_cons, List.map_cons, List.isChain_cons_cons, List.forall_mem_cons]
    by_cases hgood : Follows c item.2 ∧ InWindow start finish (given clock item)
    · have hcons : check clock start finish (UInt64.ofNat c)
          (given clock item :: rest.map (given clock)) =
            check clock start finish (UInt64.ofNat item.2) (rest.map (given clock)) := by
        rw [check, List.foldlM_cons, callback_given_ok hc hk hgood.1 hgood.2]
        rfl
      rw [hcons]
      rcases rest with _ | ⟨next, rest⟩
      · refine ⟨iff_of_true ⟨_, rfl⟩ ⟨⟨hgood.1, .singleton _⟩, hgood.2, by simp⟩, ?_⟩
        rintro e ⟨⟩
      · have hnext : item.2 + 1 < 2 ^ 64 := by
          have hlt := hless next (by simp)
          have hle := hrest next (by simp)
          omega
        obtain ⟨hpasses, hfails⟩ := ih hnext hrest hpairwise
        refine ⟨?_, hfails⟩
        rw [hpasses]
        constructor
        · rintro ⟨hchain, hwindow⟩
          exact ⟨⟨hgood.1, hchain⟩, hgood.2, hwindow⟩
        · rintro ⟨⟨-, hchain⟩, -, hwindow⟩
          exact ⟨hchain, hwindow⟩
    · obtain ⟨e, hcallback, he⟩ := callback_given_error hc hk hgood
      have hcons : check clock start finish (UInt64.ofNat c)
          (given clock item :: rest.map (given clock)) = .error e := by
        rw [check, List.foldlM_cons, hcallback]
        rfl
      rw [hcons]
      constructor
      · refine iff_of_false (by rintro ⟨counter, ⟨⟩⟩) ?_
        rintro ⟨⟨hfollows, -⟩, hwindow, -⟩
        exact hgood ⟨hfollows, hwindow⟩
      · rintro e' ⟨⟩
        exact he

theorem isChain_range' (a n : Nat) : (a :: List.range' (a + 1) n).IsChain Follows := by
  induction n generalizing a with
  | zero => exact .singleton a
  | succ n ih =>
    rw [List.range'_succ]
    exact .cons_cons (.inr rfl) (ih (a + 1))

theorem eq_range'_of_isChain {a : Nat} {numbers : List Nat} (ha : a ≠ 0)
    (h : (a :: numbers).IsChain Follows) : numbers = List.range' (a + 1) numbers.length := by
  induction numbers generalizing a with
  | nil => rfl
  | cons b rest ih =>
    obtain ⟨hfollows, hrest⟩ := List.isChain_cons_cons.mp h
    obtain rfl : b = a + 1 := hfollows.resolve_left ha
    rw [List.length_cons, List.range'_succ, ← ih (by omega) hrest]

/-- A stretch without a gap, at most with one directly after number 0. -/
def Uninterrupted (numbers : List Nat) : Prop :=
  ∃ first count, numbers = List.range' first count ∨ numbers = 0 :: List.range' first count

theorem isChain_iff_uninterrupted {numbers : List Nat} (h : numbers.Pairwise (· < ·)) :
    (0 :: numbers).IsChain Follows ↔ Uninterrupted numbers := by
  have hstretch : ∀ first count, (0 :: List.range' first count).IsChain Follows := by
    intro first count
    cases count with
    | zero => exact .singleton 0
    | succ n =>
      rw [List.range'_succ]
      exact .cons_cons (.inl rfl) (isChain_range' first n)
  constructor
  · intro hchain
    cases numbers with
    | nil => exact ⟨0, 0, .inl rfl⟩
    | cons a rest =>
      obtain ⟨-, hrest⟩ := List.isChain_cons_cons.mp hchain
      by_cases ha : a = 0
      · subst ha
        cases rest with
        | nil => exact ⟨0, 0, .inr rfl⟩
        | cons b rest =>
          have hb : b ≠ 0 := Nat.ne_of_gt (List.rel_of_pairwise_cons h (by simp))
          have hlast := eq_range'_of_isChain hb (List.isChain_cons_cons.mp hrest).2
          refine ⟨b, rest.length + 1, .inr ?_⟩
          rw [List.range'_succ, ← hlast]
      · refine ⟨a, rest.length + 1, .inl ?_⟩
        rw [List.range'_succ, ← eq_range'_of_isChain ha hrest]
  · rintro ⟨first, count, rfl | rfl⟩
    · exact hstretch first count
    · exact .cons_cons (.inl rfl) (hstretch first count)

/-! ## Together -/

/-- What the program's check says when `read` are the callbacks and `pushed` the records pushed. -/
structure Noticed (clock : Clock) (start finish : Tp) (pushed : List TimedDataRaw)
    (read : List (Tp × List UInt8 × Nat)) (numbers : List Nat) : Prop where
  /-- The callbacks are those of the records with these numbers, in ascending order. -/
  ascending : numbers.Sublist (List.range pushed.length)
  ofPushed : read = numbers.filterMap fun k => (pushed[k]?).map (asRead clock)
  /-- The program goes on exactly when no record between two of them is missing, but directly after
  the first of all, and their times are in the window. -/
  passes : (∃ counter, check clock start finish 0 read = .ok counter) ↔
    Uninterrupted numbers ∧ ∀ g ∈ read, InWindow start finish g
  /-- It never finds that payload and time differ, and never reads behind the end of a record. -/
  fails : ∀ e, check clock start finish 0 read = .error e → e.ofCheck

/-- A part of the series, in its order. -/
theorem noticed_of_sublist {times : List Tp} (hfew : times.length ≤ 2 ^ 64)
    {read : List (Tp × List UInt8 × Nat)}
    (hread : read.Sublist ((series clock 0 times).map (asRead clock))) :
    ∃ numbers, Noticed clock start finish (series clock 0 times) read numbers := by
  rw [series, List.map_map] at hread
  obtain ⟨items, hitems, hnumbers, hread⟩ := sublist_numbered _ hread
  have hascending : (items.map Prod.snd).Pairwise (· < ·) := List.pairwise_lt_range.sublist hnumbers
  have hbound : ∀ item ∈ items, item.2 < 2 ^ 64 := by
    intro item hitem
    have hlt := List.mem_range.mp (hnumbers.subset (List.mem_map_of_mem hitem))
    omega
  obtain ⟨hpasses, hfails⟩ := check_given clock start finish (c := 0) (by decide) hbound
    (List.pairwise_map.mp hascending)
  refine ⟨items.map Prod.snd, ?_, ?_, ?_, ?_⟩
  · simpa [series] using hnumbers
  · rw [hread, series]
    simp only [← List.map_map, List.getElem?_map]
  · rw [← isChain_iff_uninterrupted hascending, hitems, List.forall_mem_map]
    exact hpasses
  · rw [hitems]
    exact hfails

variable {τ : Type} [DecidableEq τ]

/-- All that is taken are records of one thread from one partition. -/
theorem given_of_own {s : Pipeline τ} {t : τ} {p : Int32}
    (hown : ∀ e ∈ s.broker.taken, e.1 = p ∧ e.2.writtenBy s.producer.accepted t = true) :
    (s.broker.taken.filterMap fun e => readable (some e.2.record.message)).map
      (callbackArgs clock) = s.given clock t p := by
  rw [List.map_filterMap, Pipeline.given_eq_filterMap]
  apply List.filterMap_congr
  intro e he
  rw [if_pos (hown e he)]

/-- While the program runs, in every interleaving of its two threads, librdkafka and the broker. -/
theorem check_notices [Fintype τ] (clock : Clock) (bkMs : Int32) (topic : String) (stop : Bool)
    (offset : Int32 → Nat) (as : List (PipelineAction τ)) (s : Pipeline τ)
    (hrun : run (pipelineStep clock bkMs) (Pipeline.connected τ topic stop offset) as = some s)
    (start finish : Tp) (t : τ) (rounds : List Round) (hfew : rounds.length ≤ 2 ^ 64)
    (hpushes : byWriter t s.producer.called = (produceLoop clock finish 0 rounds).1) (p : Int32)
    (hown : ∀ e ∈ s.broker.taken, e.1 = p ∧ e.2.writtenBy s.producer.accepted t = true) :
    ∃ numbers, Noticed clock start finish (byWriter t s.producer.called)
      (callbacks s.consumer.events) numbers := by
  have h := Pipeline.kept_of_run hrun
  obtain ⟨bs, hproducer⟩ := producer_run hrun
  obtain ⟨cs, hconsumer⟩ := consumer_run hrun
  obtain ⟨times, hlength, hseries⟩ := produceLoop_series clock finish 0 rounds
  have hcalled : byWriter t s.producer.called = series clock 0 times := hpushes.trans hseries
  have hgiven : (callbacks s.consumer.events).Sublist (s.given clock t p) := by
    rw [← given_of_own hown, ← h.callbacks_eq (Loop.inRounds_of_run hconsumer)]
    exact List.sublist_append_left _ _
  have hread := hgiven.trans (h.given_sublist_called hproducer t p)
  rw [hcalled] at hread ⊢
  exact noticed_of_sublist (Nat.le_trans hlength hfew) hread

/-- A round of the producing loop, as steps. -/
def pushRound (counter : UInt64) (n : Tp) : List (PipelineAction Unit) :=
  [.producer (.call () (timedData .hundredNanoseconds counter n) false),
    .producer (.produce () .ERR_NO_ERROR), .producer (.switch () false), .producer (.poll () 0)]

/-- Three records are pushed, the second of which is not stored. -/
def lostAfterFirst : List (PipelineAction Unit) :=
  pushRound 0 20000 ++ pushRound 1 40000 ++ [.store 0 3, .read, .fetch 3, .read] ++
    pushRound 2 60000 ++ [.store 2 3, .read, .read, .read, .fetch 3, .read, .read]

theorem check_notices_lostAfterFirst :
    ∃ s, run (pipelineStep .hundredNanoseconds 1000)
        (Pipeline.connected Unit "" false fun _ => 0) lostAfterFirst = some s ∧
      (∃ numbers, Noticed .hundredNanoseconds 0 60000 (byWriter () s.producer.called)
        (callbacks s.consumer.events) numbers) ∧
      check .hundredNanoseconds 0 60000 0 (callbacks s.consumer.events) = .ok 2 :=
  ⟨_, rfl, check_notices .hundredNanoseconds 1000 "" false (fun _ => 0) lostAfterFirst _ rfl 0 60000
    () [⟨0, 20000, .ok⟩, ⟨20000, 40000, .ok⟩, ⟨40000, 60000, .ok⟩] (by decide) (by decide) 3
    (by decide), by rfl⟩

end TsKafka.SeriesTest
