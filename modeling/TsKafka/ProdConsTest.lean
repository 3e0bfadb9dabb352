import TsKafka.SeriesTest

/-!
# The test `prod_cons.basic` (`ts-kafka-test/main.cpp`)

One thread pushes `nb_expected` numbered records under a key, a consumer counts those with the key
that its callback is given. A failed expectation is counted and the test goes on.
-/

namespace TsKafka.ProdConsTest
open RdKafka PartialRun WriterLog PartitionedLog BasicProducer BasicConsumer LittleEndian

/-! ## `int_2` -/

/-- `int_2` (lines 40-44). -/
structure Int2 where
  key : Int32
  ix : Int32
  deriving DecidableEq, Repr

/-- The object in memory: two little-endian numbers of 4 bytes. -/
def Int2.bytes (d : Int2) : List UInt8 :=
  toBytes 4 d.key.toUInt32.toNat ++ toBytes 4 d.ix.toUInt32.toNat

/-- The `int` at `offset`, when `d` has its bytes. -/
def readInt (d : List UInt8) (offset : Nat) : Option Int32 :=
  if offset + 4 ≤ d.length then
    some (UInt32.ofNat (ofBytes ((d.drop offset).take 4))).toInt32
  else none

@[simp] theorem Int2.length_bytes (d : Int2) : d.bytes.length = 8 := by
  simp [Int2.bytes]

@[simp] theorem Int2.readInt_key (d : Int2) : readInt d.bytes 0 = some d.key := by
  have hkey : ofBytes ((d.bytes.drop 0).take 4) = d.key.toUInt32.toNat :=
    ofBytes_field d.key.toUInt32.toNat_lt [] (toBytes 4 d.ix.toUInt32.toNat)
  rw [readInt, if_pos (by simp), hkey, UInt32.ofNat_toNat, Int32.toInt32_toUInt32]

@[simp] theorem Int2.readInt_ix (d : Int2) : readInt d.bytes 4 = some d.ix := by
  have hix : ofBytes ((d.bytes.drop 4).take 4) = d.ix.toUInt32.toNat := by
    have hlt : d.ix.toUInt32.toNat < 256 ^ 4 := d.ix.toUInt32.toNat_lt
    have hfield := ofBytes_field hlt (toBytes 4 d.key.toUInt32.toNat) []
    rwa [length_toBytes, List.append_nil] at hfield
  rw [readInt, if_pos (by simp), hix, UInt32.ofNat_toNat, Int32.toInt32_toUInt32]

/-! ## The two threads -/

/-- What one round of the producing loop meets: `now()` and the result of `push`. -/
structure Round where
  now : Tp
  status : ProducerStatus
  deriving DecidableEq, Repr

/-- The record with this key and number. -/
def rd (key ix : Int32) (now : Tp) : TimedDataRaw := ⟨now, Int2.bytes ⟨key, ix⟩⟩

/-- What `start_basic_prod_thread` has done: the records it has pushed, the number of its failed
expectations, and whether it has come to its end. -/
structure ProdThread where
  pushed : List TimedDataRaw
  failures : Nat
  ended : Bool
  deriving DecidableEq, Repr

/-- `EXPECT_EQ(a, b)`: a failure or none. -/
def expectEq {α : Type} [DecidableEq α] (a b : α) : Nat := if a = b then 0 else 1

/-- `start_basic_prod_thread` (lines 82-126) from the test `i++ < nb_expected` on, after a `connect`
that has returned true. -/
def prodThread (key nbExpected : Int32) (i : Int32) : List Round → ProdThread
  | [] =>
    if i < nbExpected then ⟨[], 0, false⟩ else ⟨[], expectEq (i + 1) nbExpected, true⟩
  | r :: rest =>
    if i < nbExpected then
      let next := prodThread key nbExpected (i + 1) rest
      { next with
        pushed := rd key i r.now :: next.pushed
        failures := expectEq r.status .ok + next.failures }
    else ⟨[], expectEq (i + 1) nbExpected, true⟩

/-- The variables of `start_basic_cons_thread`: `ix`, and the number of failed expectations. -/
structure ConsThread where
  ix : Int32
  failures : Nat
  deriving DecidableEq, Repr

/-- The callback of `start_basic_cons_thread` (lines 61-73), if it does not read behind the end of
`d`. -/
def consCallback (key : Int32) (c : ConsThread) : Tp × List UInt8 × Nat → Option ConsThread
  | (_, d, _) =>
    match readInt d 0 with
    | none => none
    | some k =>
      if k ≠ key then some c
      else
        match readInt d 4 with
        | none => none
        | some ix => some ⟨c.ix + 1, c.failures + expectEq ix c.ix⟩

/-- The callback for one record after the other. -/
def consThread (key : Int32) (given : List (Tp × List UInt8 × Nat)) : Option ConsThread :=
  given.foldlM (consCallback key) ⟨0, 0⟩

/-! ## The producing thread -/

/-- The record number `item.2` of the time `item.1`. -/
def numbered (key : Int32) (item : Tp × Nat) : TimedDataRaw :=
  rd key (Int32.ofNat item.2) item.1

theorem toInt_ofNat {nbExpected : Int32} {k : Nat} (hk : k ≤ nbExpected.toInt.toNat) :
    (Int32.ofNat k).toInt = k := by
  have hlt := nbExpected.toInt_lt
  apply Int32.toInt_ofNat_of_lt
  omega

theorem ofNat_lt_iff {nbExpected : Int32} {k : Nat} (hk : k ≤ nbExpected.toInt.toNat) :
    Int32.ofNat k < nbExpected ↔ k < nbExpected.toInt.toNat := by
  rw [Int32.lt_iff_toInt_lt, toInt_ofNat hk]
  omega

/-- `i++` has counted the test that fails, also if the count overflows. -/
theorem expectEq_last {nbExpected : Int32} {k : Nat} (hk : k ≤ nbExpected.toInt.toNat)
    (h : ¬ Int32.ofNat k < nbExpected) : expectEq (Int32.ofNat k + 1) nbExpected = 1 := by
  rw [ofNat_lt_iff hk] at h
  have hlow := nbExpected.le_toInt
  have hhigh := nbExpected.toInt_lt
  refine if_neg fun heq => ?_
  have hvalue := congrArg Int32.toInt heq
  rw [Int32.toInt_add, toInt_ofNat hk, Int32.toInt_one, Int.bmod_def] at hvalue
  split at hvalue <;> omega

/-- The loop ends behind the last record. -/
theorem prodThread_last (key : Int32) {nbExpected : Int32} {k : Nat}
    (hk : k ≤ nbExpected.toInt.toNat) (h : ¬ Int32.ofNat k < nbExpected) (rounds : List Round) :
    k = nbExpected.toInt.toNat ∧
      prodThread key nbExpected (Int32.ofNat k) rounds = ⟨[], 1, true⟩ := by
  constructor
  · rw [ofNat_lt_iff hk] at h
    exact Nat.le_antisymm hk (Nat.not_lt.mp h)
  · cases rounds <;> rw [prodThread, if_neg h, expectEq_last hk h]

/-- What the loop leaves when it has come to number `k`. -/
theorem prodThread_numbered (key nbExpected : Int32) {k : Nat} (hk : k ≤ nbExpected.toInt.toNat)
    (rounds : List Round) :
    ∃ times : List Tp, (prodThread key nbExpected (Int32.ofNat k) rounds).pushed =
        (times.zipIdx k).map (numbered key) ∧
      times.length + k ≤ nbExpected.toInt.toNat ∧
      ((prodThread key nbExpected (Int32.ofNat k) rounds).ended = true →
        times.length + k = nbExpected.toInt.toNat ∧
        (prodThread key nbExpected (Int32.ofNat k) rounds).failures =
          (rounds.take times.length).countP (fun r => r.status ≠ .ok) + 1) := by
  induction rounds generalizing k with
  | nil =>
    by_cases h : Int32.ofNat k < nbExpected
    · rw [prodThread, if_pos h]
      exact ⟨[], rfl, by simpa using hk, by rintro ⟨⟩⟩
    · obtain ⟨hlast, hthread⟩ := prodThread_last key hk h []
      rw [hthread]
      exact ⟨[], rfl, by simpa using hk, fun _ => ⟨by simpa using hlast, rfl⟩⟩
  | cons r rest ih =>
    by_cases h : Int32.ofNat k < nbExpected
    · rw [prodThread, if_pos h]
      obtain ⟨times, hpushed, hlength, hended⟩ := ih ((ofNat_lt_iff hk).mp h)
      have hnext : Int32.ofNat (k + 1) = Int32.ofNat k + 1 := Int32.ofNat_add k 1
      rw [hnext] at hpushed hended
      refine ⟨r.now :: times, ?_, ?_, ?_⟩
      · rw [List.zipIdx_cons, List.map_cons, ← hpushed]
        rfl
      · rw [List.length_cons]
        omega
      · intro hend
        obtain ⟨hlast, hfailures⟩ := hended hend
        rw [List.length_cons, List.take_succ_cons, List.countP_cons]
        refine ⟨by omega, ?_⟩
        have hstatus : expectEq r.status .ok = if decide (r.status ≠ .ok) = true then 1 else 0 := by
          by_cases hok : r.status = .ok <;> simp [expectEq, hok]
        dsimp only
        rw [hfailures, hstatus]
        omega
    · obtain ⟨hlast, hthread⟩ := prodThread_last key hk h (r :: rest)
      rw [hthread]
      exact ⟨[], rfl, by simpa using hk, fun _ => ⟨by simpa using hlast, rfl⟩⟩

/-! ## The callback -/

/-- The record has this key. -/
def hasKey (key : Int32) (g : Tp × List UInt8 × Nat) : Bool := readInt g.2.1 0 = some key

/-- Records with another key change nothing. -/
theorem foldlM_hasKey (key : Int32) {read : List (Tp × List UInt8 × Nat)}
    (h : ∀ g ∈ read, ∃ k, readInt g.2.1 0 = some k) (c : ConsThread) :
    read.foldlM (consCallback key) c = (read.filter (hasKey key)).foldlM (consCallback key) c := by
  induction read generalizing c with
  | nil => rfl
  | cons g rest ih =>
    obtain ⟨⟨k, hk⟩, hrest⟩ := List.forall_mem_cons.mp h
    by_cases hkey : k = key
    · subst hkey
      rw [List.filter_cons_of_pos (by simp [hasKey, hk]), List.foldlM_cons, List.foldlM_cons]
      congr 1
      funext c'
      exact ih hrest c'
    · rw [List.filter_cons_of_neg (by simp [hasKey, hk, hkey]), ← ih hrest, List.foldlM_cons]
      simp [consCallback, hk, hkey]

/-- The number of records with another number than the next expected one, `m` the first. -/
def misses : Nat → List Nat → Nat
  | _, [] => 0
  | m, k :: rest => expectEq k m + misses (m + 1) rest

theorem misses_eq_zero {m : Nat} {numbers : List Nat} :
    misses m numbers = 0 ↔ numbers = List.range' m numbers.length := by
  induction numbers generalizing m with
  | nil => simp [misses]
  | cons k rest ih =>
    rw [misses, List.length_cons, List.range'_succ, List.cons.injEq, Nat.add_eq_zero_iff, ih]
    simp [expectEq]

variable {clock : Clock} {key : Int32}

/-- The callback for a record of the series. -/
theorem consCallback_numbered (c : ConsThread) (item : Tp × Nat) :
    consCallback key c (asRead clock (numbered key item)) =
      some ⟨c.ix + 1, c.failures + expectEq (Int32.ofNat item.2) c.ix⟩ := by
  simp [consCallback, asRead, numbered, rd]

theorem expectEq_ofNat {k m : Nat} (hk : k < 2 ^ 31) (hm : m < 2 ^ 31) :
    expectEq (Int32.ofNat k) (Int32.ofNat m) = expectEq k m := by
  have hvalue : Int32.ofNat k = Int32.ofNat m ↔ k = m := by
    rw [← Int32.toInt_inj, Int32.toInt_ofNat_of_lt hk, Int32.toInt_ofNat_of_lt hm, Int.natCast_inj]
  simp [expectEq, hvalue]

/-- The callbacks for records of the series: all are counted, and those that are not the next one.
-/
theorem foldlM_numbered (clock : Clock) (key : Int32) {items : List (Tp × Nat)} {m : Nat}
    (hlength : m + items.length < 2 ^ 31)
    (hbound : ∀ k ∈ items.map Prod.snd, k < 2 ^ 31) (failures : Nat) :
    (items.map (asRead clock ∘ numbered key)).foldlM (consCallback key)
        ⟨Int32.ofNat m, failures⟩ =
      some ⟨Int32.ofNat (m + items.length), failures + misses m (items.map Prod.snd)⟩ := by
  induction items generalizing m failures with
  | nil => rfl
  | cons item rest ih =>
    rw [List.length_cons] at hlength ⊢
    rw [List.map_cons] at hbound ⊢
    obtain ⟨hk, hrest⟩ := List.forall_mem_cons.mp hbound
    have hnext : Int32.ofNat m + 1 = Int32.ofNat (m + 1) := (Int32.ofNat_add m 1).symm
    rw [List.foldlM_cons, Function.comp_apply, consCallback_numbered,
      expectEq_ofNat hk (by omega), hnext]
    refine (ih (by omega) hrest _).trans ?_
    rw [List.map_cons, misses, Nat.add_right_comm m 1, Nat.add_assoc m, Nat.add_assoc failures]

/-! ## Together -/

/-- The numbers of the records with this key. -/
def numbersRead (key : Int32) (read : List (Tp × List UInt8 × Nat)) : List Nat :=
  (read.filter (hasKey key)).filterMap fun g => (readInt g.2.1 4).map Int32.toNatClampNeg

/-- What the two threads of the test find. -/
structure Found (clock : Clock) (key nbExpected : Int32) (rounds : List Round) (prod : ProdThread)
    (read : List (Tp × List UInt8 × Nat)) (cons : ConsThread) (numbers : List Nat) : Prop where
  /-- The callbacks with the key are those of the pushed records with these numbers, and none of
  them comes twice. -/
  once : numbers.Subperm (List.range prod.pushed.length)
  ofPushed : read.filter (hasKey key) =
    numbers.filterMap fun k => (prod.pushed[k]?).map (asRead clock)
  counted : cons.ix = Int32.ofNat numbers.length
  /-- The consumer's expectations hold as long as every record is the next one. -/
  inOrder : cons.failures = 0 ↔ numbers = List.range numbers.length
  /-- When all records are pushed, its last expectation holds exactly when all have been read. -/
  complete : prod.ended = true → 0 ≤ nbExpected →
    (cons.ix = nbExpected ↔ numbers.Perm (List.range prod.pushed.length))
  /-- One expectation of the producing thread fails even if every `push` returns `ok`. -/
  producing : prod.ended = true → prod.failures =
    (rounds.take prod.pushed.length).countP (fun r => r.status ≠ .ok) + 1

/-- The numbers are those of the items that have been read. -/
theorem numbersRead_of_items {read : List (Tp × List UInt8 × Nat)} {items : List (Tp × Nat)}
    (hitems : read.filter (hasKey key) = items.map (asRead clock ∘ numbered key))
    (hbound : ∀ item ∈ items, item.2 < 2 ^ 31) : numbersRead key read = items.map Prod.snd := by
  rw [numbersRead, hitems, List.filterMap_map, ← List.filterMap_eq_map]
  apply List.filterMap_congr
  intro item hitem
  have hvalue : (Int32.ofNat item.2).toNatClampNeg = item.2 := by
    rw [Int32.toNatClampNeg, Int32.toInt_ofNat_of_lt (hbound item hitem), Int.toNat_natCast]
  simp [asRead, numbered, rd, hvalue]

/-- Some of the pushed records, each at most once, among records with other keys. -/
theorem found_of_subperm (nbExpected : Int32) (rounds : List Round)
    {read : List (Tp × List UInt8 × Nat)} (hreadable : ∀ g ∈ read, ∃ k, readInt g.2.1 0 = some k)
    (hread : (read.filter (hasKey key)).Subperm
      ((prodThread key nbExpected 0 rounds).pushed.map (asRead clock))) :
    ∃ cons, consThread key read = some cons ∧
      Found clock key nbExpected rounds (prodThread key nbExpected 0 rounds) read cons
        (numbersRead key read) := by
  obtain ⟨times, hpushed, hlength, hended⟩ :=
    prodThread_numbered key nbExpected (Nat.zero_le _) rounds
  have hzero : Int32.ofNat 0 = 0 := rfl
  rw [hzero] at hpushed hended
  rw [hpushed, List.map_map] at hread
  obtain ⟨items, hitems, hsubset, hnumbers⟩ := subperm_numbered _ hread
  have hnb := nbExpected.toInt_lt
  have hcount : items.length ≤ times.length := by simpa using hnumbers.length_le
  have hbound : ∀ k ∈ items.map Prod.snd, k < 2 ^ 31 := by
    intro k hk
    have hlt := List.mem_range.mp (hnumbers.subset hk)
    omega
  have hcons := foldlM_numbered clock key (m := 0) (by omega) hbound 0
  rw [Nat.zero_add, Nat.zero_add] at hcons
  have htotal : (prodThread key nbExpected 0 rounds).pushed.length = times.length := by
    simp [hpushed]
  have hcallbacks : consThread key read =
      some ⟨Int32.ofNat items.length, misses 0 (items.map Prod.snd)⟩ := by
    rw [consThread, foldlM_hasKey key hreadable, hitems]
    exact hcons
  rw [numbersRead_of_items hitems (List.forall_mem_map.mp hbound)]
  refine ⟨_, hcallbacks, ?_, ?_, ?_, ?_, ?_, ?_⟩
  · rwa [htotal]
  · rw [hitems, map_eq_filterMap_getElem? _ hsubset, hpushed]
    simp only [← List.map_map, List.getElem?_map]
  · rw [List.length_map]
  · rw [misses_eq_zero, List.range_eq_range']
  · intro hend hnonneg
    obtain ⟨hlast, -⟩ := hended hend
    rw [Int32.le_iff_toInt_le, Int32.toInt_zero] at hnonneg
    rw [htotal, ← Int32.toInt_inj, Int32.toInt_ofNat_of_lt (by omega)]
    constructor
    · intro hix
      exact hnumbers.perm_of_length_le (by simp; omega)
    · intro hall
      have hlengths := hall.length_eq
      rw [List.length_map, List.length_range] at hlengths
      omega
  · intro hend
    rw [htotal]
    exact (hended hend).2

/-- In their order, their numbers ascend. -/
theorem numbersRead_sublist (nbExpected : Int32) (rounds : List Round)
    {read : List (Tp × List UInt8 × Nat)}
    (hread : (read.filter (hasKey key)).Sublist
      ((prodThread key nbExpected 0 rounds).pushed.map (asRead clock))) :
    (numbersRead key read).Sublist
      (List.range (prodThread key nbExpected 0 rounds).pushed.length) := by
  obtain ⟨times, hpushed, hlength, -⟩ :=
    prodThread_numbered key nbExpected (Nat.zero_le _) rounds
  have hzero : Int32.ofNat 0 = 0 := rfl
  rw [hzero] at hpushed
  rw [hpushed, List.map_map] at hread
  obtain ⟨items, hitems, hnumbers, -⟩ := sublist_numbered _ hread
  have hnb := nbExpected.toInt_lt
  have hbound : ∀ item ∈ items, item.2 < 2 ^ 31 := by
    intro item hitem
    have hlt := List.mem_range.mp (hnumbers.subset (List.mem_map_of_mem hitem))
    omega
  rw [numbersRead_of_items hitems hbound]
  simpa [hpushed] using hnumbers

/-- The record belongs to another run of the test: it has another key. -/
def Foreign (key : Int32) (e : Entry) : Prop := ∃ k ∈ readInt e.record.payload 0, k ≠ key

instance (key : Int32) (e : Entry) : Decidable (Foreign key e) :=
  inferInstanceAs (Decidable (∃ k ∈ readInt e.record.payload 0, k ≠ key))

variable {τ : Type} [DecidableEq τ] {s : Pipeline τ} {t : τ}

/-- The callback's arguments for an entry, if `do_read` does not reject it. -/
def entryArgs (clock : Clock) (e : Entry) : Option (Tp × List UInt8 × Nat) :=
  (readable (some e.record.message)).map (callbackArgs clock)

/-- They have the payload of the entry. -/
theorem payload_of_entryArgs {e : Entry} {g : Tp × List UInt8 × Nat}
    (h : entryArgs clock e = some g) : g.2.1 = e.record.payload := by
  obtain ⟨msg, hmsg, rfl⟩ := Option.map_eq_some_iff.mp h
  obtain ⟨heq, -⟩ := readable_eq_some.mp hmsg
  cases heq
  rfl

theorem filterMap_sublist {α β : Type} {f g : α → Option β} {xs : List α}
    (h : ∀ x ∈ xs, ∀ y, f x = some y → g x = some y) :
    (xs.filterMap f).Sublist (xs.filterMap g) := by
  induction xs with
  | nil => exact .slnil
  | cons x rest ih =>
    obtain ⟨hx, hrest⟩ := List.forall_mem_cons.mp h
    cases hf : f x with
    | none =>
      rw [List.filterMap_cons_none hf]
      cases hg : g x with
      | none =>
        rw [List.filterMap_cons_none hg]
        exact ih hrest
      | some y =>
        rw [List.filterMap_cons_some hg]
        exact (ih hrest).cons y
    | some y =>
      rw [List.filterMap_cons_some hf, List.filterMap_cons_some (hx y hf)]
      exact (ih hrest).cons_cons y

omit [DecidableEq τ] in
/-- What the callback is given with the key are the records of the thread, when those of others have
other keys. -/
theorem filter_hasKey_sublist (clock : Clock) {own : Int32 × Entry → Prop} [DecidablePred own]
    (hother : ∀ e ∈ s.broker.taken, own e ∨ Foreign key e.2) :
    ((s.broker.taken.filterMap fun e => entryArgs clock e.2).filter (hasKey key)).Sublist
      (s.broker.taken.filterMap fun e => if own e then entryArgs clock e.2 else none) := by
  rw [List.filter_filterMap]
  apply filterMap_sublist
  intro e he g hg
  obtain ⟨hargs, hkey⟩ := Option.filter_eq_some_iff.mp hg
  rcases hother e he with hown | ⟨k, hk, hne⟩
  · rw [if_pos hown]
    exact hargs
  · rw [hasKey, payload_of_entryArgs hargs, hk] at hkey
    exact absurd (by simpa using hkey) hne

/-- The callback finds a key in each of these records. -/
theorem exists_key {nbExpected : Int32} {rounds : List Round}
    (hgiven : (s.givenOf clock t).Subperm
      ((prodThread key nbExpected 0 rounds).pushed.map (asRead clock)))
    (hother : ∀ e ∈ s.broker.taken,
      e.2.writtenBy s.producer.accepted t = true ∨ Foreign key e.2)
    {e : Int32 × Entry} (he : e ∈ s.broker.taken) {g : Tp × List UInt8 × Nat}
    (hargs : entryArgs clock e.2 = some g) : ∃ k, readInt g.2.1 0 = some k := by
  rcases hother e he with hown | ⟨k, hk, -⟩
  · have hmem : g ∈ s.givenOf clock t := by
      rw [Pipeline.givenOf_eq_filterMap]
      exact List.mem_filterMap.mpr ⟨e, he, by rw [if_pos hown]; exact hargs⟩
    obtain ⟨times, hpushed, -⟩ := prodThread_numbered key nbExpected (Nat.zero_le _) rounds
    obtain ⟨data, hdata, rfl⟩ := List.mem_map.mp (hgiven.subset hmem)
    obtain ⟨item, -, rfl⟩ := List.mem_map.mp (hpushed ▸ hdata)
    exact ⟨key, Int2.readInt_key _⟩
  · exact ⟨k, by rw [payload_of_entryArgs hargs, hk]⟩

/-- In every interleaving of the two threads, librdkafka and the broker, among runs of the test with
other keys: each record is read at most once, and those of one partition in order. -/
theorem prod_cons_basic [Fintype τ] (clock : Clock) (bkMs : Int32) (topic : String) (stop : Bool)
    (offset : Int32 → Nat) (as : List (PipelineAction τ)) (s : Pipeline τ)
    (hrun : run (pipelineStep clock bkMs) (Pipeline.connected τ topic stop offset) as = some s)
    (key nbExpected : Int32) (t : τ) (rounds : List Round)
    (hpushes : byWriter t s.producer.called = (prodThread key nbExpected 0 rounds).pushed)
    (hother : ∀ e ∈ s.broker.taken,
      e.2.writtenBy s.producer.accepted t = true ∨ Foreign key e.2) :
    (∃ cons, consThread key (callbacks s.consumer.events) = some cons ∧
      Found clock key nbExpected rounds (prodThread key nbExpected 0 rounds)
        (callbacks s.consumer.events) cons (numbersRead key (callbacks s.consumer.events))) ∧
    ∀ p, (∀ e ∈ s.broker.taken, e.2.writtenBy s.producer.accepted t = true → e.1 = p) →
      (numbersRead key (callbacks s.consumer.events)).Sublist
        (List.range (prodThread key nbExpected 0 rounds).pushed.length) := by
  have h := Pipeline.kept_of_run hrun
  obtain ⟨bs, hproducer⟩ := producer_run hrun
  obtain ⟨cs, hconsumer⟩ := consumer_run hrun
  have hgiven := h.givenOf_subperm_called hproducer t
  rw [hpushes] at hgiven
  have hcallbacks : (callbacks s.consumer.events).Sublist
      (s.broker.taken.filterMap fun e => entryArgs clock e.2) := by
    have htaken := h.callbacks_eq (Loop.inRounds_of_run hconsumer)
    rw [List.map_filterMap] at htaken
    exact htaken ▸ List.sublist_append_left _ _
  constructor
  · apply found_of_subperm
    · intro g hg
      obtain ⟨e, he, hargs⟩ := List.mem_filterMap.mp (hcallbacks.subset hg)
      exact exists_key hgiven hother he hargs
    · have hown := filter_hasKey_sublist clock hother
      rw [Pipeline.givenOf_eq_filterMap] at hgiven
      exact ((hcallbacks.filter _).trans hown).subperm.trans hgiven
  · intro p honly
    have hsame : ∀ e ∈ s.broker.taken,
        (e.1 = p ∧ e.2.writtenBy s.producer.accepted t = true) ∨ Foreign key e.2 := by
      intro e he
      exact (hother e he).imp_left fun hown => ⟨honly e he hown, hown⟩
    have hordered := h.given_sublist_called hproducer t p
    rw [hpushes, Pipeline.given_eq_filterMap] at hordered
    have hown := filter_hasKey_sublist clock hsame
    exact numbersRead_sublist nbExpected rounds
      (((hcallbacks.filter _).trans hown).trans hordered)

/-- Two records are pushed and stored in two partitions. The second is read first, and one of
another run of the test between them. -/
def readAcrossPartitions : List (PipelineAction Unit) :=
  [.producer (.call () (rd 5 0 20000) false), .producer (.produce () .ERR_NO_ERROR),
    .producer (.switch () false), .producer (.poll () 0),
    .producer (.call () (rd 5 1 40000) false), .producer (.produce () .ERR_NO_ERROR),
    .storeOther 0 ⟨Int2.bytes ⟨6, 9⟩, 4⟩, .store 0 0, .store 1 1, .read, .fetch 1, .read, .read,
    .read, .read, .fetch 0, .read, .read, .read, .read, .fetch 0, .read, .read]

theorem prod_cons_basic_readAcrossPartitions :
    ∃ s, run (pipelineStep .hundredNanoseconds 1000)
        (Pipeline.connected Unit "" false fun _ => 0) readAcrossPartitions = some s ∧
      numbersRead 5 (callbacks s.consumer.events) = [1, 0] ∧
      (∃ cons, consThread 5 (callbacks s.consumer.events) = some cons ∧
        Found .hundredNanoseconds 5 2 [⟨20000, .ok⟩, ⟨40000, .ok⟩]
          (prodThread 5 2 0 [⟨20000, .ok⟩, ⟨40000, .ok⟩]) (callbacks s.consumer.events) cons
          (numbersRead 5 (callbacks s.consumer.events))) ∧
      ∀ p, (∀ e ∈ s.broker.taken, e.2.writtenBy s.producer.accepted () = true → e.1 = p) →
        (numbersRead 5 (callbacks s.consumer.events)).Sublist
          (List.range (prodThread 5 2 0 [⟨20000, .ok⟩, ⟨40000, .ok⟩]).pushed.length) :=
  ⟨_, rfl, by decide, prod_cons_basic .hundredNanoseconds 1000 "" false (fun _ => 0)
    readAcrossPartitions _ rfl 5 2 () [⟨20000, .ok⟩, ⟨40000, .ok⟩] (by decide) (by decide)⟩

end TsKafka.ProdConsTest
