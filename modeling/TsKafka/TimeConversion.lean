import TsKafka.BasicConsumer.DoRead
import TsKafka.Library.Coarsening
import Mathlib.Algebra.Order.Group.Abs
import Mathlib.Algebra.Order.Group.Int

/-!
# Timestamps there and back

The producer writes the time of a record in milliseconds (`to_kafka_ts`), the consumer makes a time
point of the milliseconds of a message (`tp() + milliseconds(m)` in `do_read`). The results say what
the two conversions do to the time points of a series, and which timestamps of a message reach the
callback as they are.
-/

namespace TsKafka
open RdKafka BasicConsumer

/-! ## The conversions -/

theorem Clock.den_ne_zero (c : Clock) : c.den.toInt ≠ 0 := Int.ne_of_gt c.den_pos

theorem Clock.toKafkaTs_mono (c : Clock) {t u : Tp} (h : t ≤ u) :
    c.toKafkaTs t ≤ c.toKafkaTs u := by
  rw [Int64.le_iff_toInt_le] at h ⊢
  rw [c.toInt_toKafkaTs, c.toInt_toKafkaTs]
  exact Int.tdiv_le_tdiv c.den_pos h

theorem Clock.ofMilliseconds_mono (c : Clock) {m n : Int64} (hm : c.Fits m) (hn : c.Fits n)
    (h : m ≤ n) : c.ofMilliseconds m ≤ c.ofMilliseconds n := by
  rw [Int64.le_iff_toInt_le] at h ⊢
  rw [c.toInt_ofMilliseconds hm, c.toInt_ofMilliseconds hn]
  exact Int.mul_le_mul_of_nonneg_right h (Int.le_of_lt c.den_pos)

theorem Clock.toKafkaTs_ofMilliseconds (c : Clock) {m : Int64} (h : c.Fits m) :
    c.toKafkaTs (c.ofMilliseconds m) = m := by
  apply Int64.toInt_inj.mp
  rw [c.toInt_toKafkaTs, c.toInt_ofMilliseconds h, Int.mul_tdiv_cancel _ c.den_ne_zero]

/-- Ticks as the fine unit, milliseconds as the coarse one. -/
def Clock.coarsening (c : Clock) : Coarsening Tp Int64 where
  down := c.toKafkaTs
  up := c.ofMilliseconds
  Fits := c.Fits
  fits_down := c.fits_toKafkaTs
  down_mono := c.toKafkaTs_mono
  up_mono := c.ofMilliseconds_mono
  down_up := c.toKafkaTs_ofMilliseconds

/-- A time point and what becomes of it are less than a millisecond apart. -/
theorem Clock.coarsen_near (c : Clock) (t : Tp) :
    |(c.coarsening.coarsen t).toInt - t.toInt| < c.den.toInt := by
  have hvalue : (c.coarsening.coarsen t).toInt = t.toInt.tdiv c.den.toInt * c.den.toInt :=
    c.toInt_ofMilliseconds_toKafkaTs t
  have hsplit : t.toInt.tdiv c.den.toInt * c.den.toInt + t.toInt.tmod c.den.toInt = t.toInt :=
    Int.tdiv_mul_add_tmod _ _
  have hhigh := Int.tmod_lt_of_pos t.toInt c.den_pos
  have hlow := Int.lt_tmod_of_pos t.toInt c.den_pos
  rw [hvalue, abs_lt]
  omega

/-- It stays as it is exactly when it is a whole number of milliseconds. -/
theorem Clock.coarsen_eq_self (c : Clock) (t : Tp) :
    c.coarsening.coarsen t = t ↔ c.den.toInt ∣ t.toInt := by
  have hvalue : (c.coarsening.coarsen t).toInt = t.toInt.tdiv c.den.toInt * c.den.toInt :=
    c.toInt_ofMilliseconds_toKafkaTs t
  rw [← Int64.toInt_inj, hvalue]
  constructor
  · intro h
    exact ⟨t.toInt.tdiv c.den.toInt, by rw [Int.mul_comm, h]⟩
  · exact Int.tdiv_mul_cancel

/-- What the two conversions do, before and after the epoch. -/
structure TimeConversion (c : Clock) : Prop where
  mono : ∀ t u : Tp, t ≤ u → c.toKafkaTs t ≤ c.toKafkaTs u
  noOverflow : ∀ t, c.Fits (c.toKafkaTs t)
  near : ∀ t, |(c.ofMilliseconds (c.toKafkaTs t)).toInt - t.toInt| < c.den.toInt
  whole : ∀ t, c.ofMilliseconds (c.toKafkaTs t) = t ↔ c.den.toInt ∣ t.toInt
  back : ∀ m, c.Fits m → c.toKafkaTs (c.ofMilliseconds m) = m
  /-- The order of a series is the same when it is read back. -/
  order : ∀ t u : Tp, t ≤ u →
    c.ofMilliseconds (c.toKafkaTs t) ≤ c.ofMilliseconds (c.toKafkaTs u)
  idempotent : ∀ t, c.ofMilliseconds (c.toKafkaTs (c.ofMilliseconds (c.toKafkaTs t))) =
    c.ofMilliseconds (c.toKafkaTs t)

theorem time_conversion (c : Clock) : TimeConversion c where
  mono _ _ := c.toKafkaTs_mono
  noOverflow := c.fits_toKafkaTs
  near := c.coarsen_near
  whole := c.coarsen_eq_self
  back _ := c.toKafkaTs_ofMilliseconds
  order _ _ := c.coarsening.coarsen_mono
  idempotent := c.coarsening.coarsen_coarsen

/-! ## The time of a message -/

/-- The milliseconds whose ticks a 64-bit count covers. -/
def Clock.Covers (c : Clock) (m : Int64) : Prop :=
  -(2 ^ 63 / c.den.toInt) ≤ m.toInt ∧ m.toInt ≤ (2 ^ 63 - 1) / c.den.toInt

instance (c : Clock) (m : Int64) : Decidable (c.Covers m) :=
  inferInstanceAs (Decidable (_ ∧ _))

theorem Clock.fits_iff_covers (c : Clock) (m : Int64) : c.Fits m ↔ c.Covers m := by
  have hlow : -(2 ^ 63 / c.den.toInt) ≤ m.toInt ↔ -2 ^ 63 ≤ m.toInt * c.den.toInt := by
    have hdiv : -m.toInt ≤ 2 ^ 63 / c.den.toInt ↔ -m.toInt * c.den.toInt ≤ 2 ^ 63 :=
      Int.le_ediv_iff_mul_le c.den_pos
    rw [Int.neg_mul] at hdiv
    omega
  have hhigh : m.toInt ≤ (2 ^ 63 - 1) / c.den.toInt ↔ m.toInt * c.den.toInt < 2 ^ 63 := by
    rw [Int.le_ediv_iff_mul_le c.den_pos]
    omega
  rw [Clock.Fits, Clock.Covers, hlow, hhigh]

/-- What the callback is expected to get for a message: the time point whose timestamp is the one of
the message, computed without overflow. -/
structure TimeKept (clock : Clock) (bkMs : Int32) (msg : Message) : Prop where
  noOverflow : clock.Fits msg.timestamp
  given : ∃ t, callbacks (readRound clock bkMs (some msg)) = [(t, msg.payload, msg.len)] ∧
    clock.toKafkaTs t = msg.timestamp

/-- The time of a message that `do_read` does not reject reaches the callback exactly when a 64-bit
count covers its ticks. -/
theorem time_kept_iff_covers (clock : Clock) (bkMs : Int32) (msg : Message)
    (haccepted : rejected (some msg) = false) :
    TimeKept clock bkMs msg ↔ clock.Covers msg.timestamp := by
  have hcallback : callbacks (readRound clock bkMs (some msg)) =
      [(clock.ofMilliseconds msg.timestamp, msg.payload, msg.len)] := by
    rw [callbacks_readRound, readable_eq_some.mpr ⟨rfl, haccepted⟩]
    rfl
  rw [← clock.fits_iff_covers]
  constructor
  · exact TimeKept.noOverflow
  · intro hfits
    exact ⟨hfits, _, hcallback, clock.toKafkaTs_ofMilliseconds hfits⟩

/-- Outside of that range even a wrapped product would give another timestamp. -/
theorem Clock.covers_of_toKafkaTs_ofMilliseconds (c : Clock) {m : Int64}
    (h : c.toKafkaTs (c.ofMilliseconds m) = m) : c.Covers m := by
  have hback := congrArg Int64.toInt h
  rw [c.toInt_toKafkaTs] at hback
  obtain ⟨hpos, hneg⟩ := tdiv_mul_bounds (c.ofMilliseconds m).toInt c.den_pos
  rw [hback] at hpos hneg
  have hlow := (c.ofMilliseconds m).le_toInt
  have hhigh := (c.ofMilliseconds m).toInt_lt
  rw [← c.fits_iff_covers, Clock.Fits]
  rcases Int.le_total 0 (c.ofMilliseconds m).toInt with hsign | hsign
  · have hbound := hpos hsign
    omega
  · have hbound := hneg hsign
    omega

/-- A clock with ticks of 1 ns. -/
def Clock.nanoseconds : Clock := ⟨1000000, by decide⟩

/-- A message from a producer that writes microseconds where milliseconds are expected. -/
def inMicroseconds : Message := ⟨.ERR_NO_ERROR, [7], 1700000000000000⟩

/-- Its time does not fit, with ticks of 100 ns as with ticks of 1 ns. -/
theorem microseconds_not_kept :
    (¬ ∀ bkMs msg, rejected (some msg) = false → TimeKept .hundredNanoseconds bkMs msg) ∧
      ¬ ∀ bkMs msg, rejected (some msg) = false → TimeKept .nanoseconds bkMs msg := by
  constructor
  · intro hclaim
    exact absurd (hclaim 1000 inMicroseconds (by decide)).noOverflow (by decide)
  · intro hclaim
    exact absurd (hclaim 1000 inMicroseconds (by decide)).noOverflow (by decide)

/-- The condition at a message of the year 2023. -/
theorem time_kept_iff_covers_milliseconds :
    TimeKept .hundredNanoseconds 1000 ⟨.ERR_NO_ERROR, [7], 1700000000000⟩ :=
  (time_kept_iff_covers .hundredNanoseconds 1000 ⟨.ERR_NO_ERROR, [7], 1700000000000⟩
    (by decide)).mpr (by decide)

end TsKafka
