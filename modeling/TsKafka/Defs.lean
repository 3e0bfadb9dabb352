import Mathlib.Tactic.Common
import Mathlib.Algebra.Group.Int.Defs

/-!
# Common definitions (`defs.hpp`)

`def_arg`, the time point `tp`, `to_kafka_ts` and `timed_data`. A `tp` is a
`std::chrono::system_clock::time_point`: a signed 64-bit count of clock ticks since the epoch.
The tick is the library's choice (100 ns with the project's v142 toolset, 1 ns elsewhere), so
the clock is a parameter: the number `den` of ticks in a millisecond.
-/

namespace TsKafka

/-- `std::map<std::string, std::string>`: one entry for a key, in ascending key order. -/
structure StringMap where
  entries : List (String × String)
  sorted : (entries.map Prod.fst).Pairwise (· < ·)

/-- The empty map. -/
def StringMap.empty : StringMap := ⟨[], List.Pairwise.nil⟩

/-- `def_arg` (`defs.hpp:16-24`). -/
structure DefArg where
  endpoint : String
  topic : String
  user : String
  passwd : String
  params : StringMap

/-- A `system_clock` with `den` ticks in a millisecond. -/
structure Clock where
  den : Int64
  den_pos : 0 < den.toInt

/-- The clock of the project's toolset: ticks of 100 ns. -/
def Clock.hundredNanoseconds : Clock := ⟨10000, by decide⟩

/-- `tp` (`defs.hpp:26`): the tick count of a time point; `tp()` is `0`. -/
abbrev Tp := Int64

/-- `to_kafka_ts` (`defs.hpp:32-35`): `duration_cast<milliseconds>(t - tp()).count()`. The cast
is the truncating 64-bit division by the ticks of a millisecond. -/
def Clock.toKafkaTs (c : Clock) (t : Tp) : Int64 := (t - 0) / c.den

/-- `tp() + milliseconds(m)` (`basic_consumer.hpp:98`): the implicit conversion to ticks is a
64-bit multiplication. -/
def Clock.ofMilliseconds (c : Clock) (m : Int64) : Tp := 0 + m * c.den

/-- The multiplication in `tp() + milliseconds(m)` does not overflow. -/
def Clock.Fits (c : Clock) (m : Int64) : Prop :=
  -2 ^ 63 ≤ m.toInt * c.den.toInt ∧ m.toInt * c.den.toInt < 2 ^ 63

instance (c : Clock) (m : Int64) : Decidable (c.Fits m) :=
  inferInstanceAs (Decidable (_ ∧ _))

/-- `timed_data<T>` (`defs.hpp:37-42`). -/
structure TimedData (T : Type) where
  ts : Tp
  object : T
  deriving DecidableEq, Repr

/-- `timed_data_raw` (`defs.hpp:44`): the `std::vector<char>` payload as its bytes. -/
abbrev TimedDataRaw := TimedData (List UInt8)

/-! ## The two conversions in integers -/

theorem Clock.toInt_toKafkaTs (c : Clock) (t : Tp) :
    (c.toKafkaTs t).toInt = t.toInt.tdiv c.den.toInt := by
  have hden : c.den ≠ -1 := by
    intro h
    have := c.den_pos
    rw [h] at this
    exact absurd this (by decide)
  simp [Clock.toKafkaTs, Int64.toInt_div_of_ne_right _ _ hden]

theorem Clock.toInt_ofMilliseconds (c : Clock) {m : Int64} (h : c.Fits m) :
    (c.ofMilliseconds m).toInt = m.toInt * c.den.toInt := by
  simp only [Clock.ofMilliseconds, Int64.zero_add, Int64.toInt_mul]
  exact Int.bmod_eq_of_le (by simpa using h.1) (by simpa using h.2)

/-- A truncating division, multiplied back, does not leave the interval from `0` to `t`. -/
theorem tdiv_mul_bounds (t : Int) {d : Int} (hd : 0 < d) :
    (0 ≤ t → 0 ≤ t.tdiv d * d ∧ t.tdiv d * d ≤ t) ∧
      (t ≤ 0 → t ≤ t.tdiv d * d ∧ t.tdiv d * d ≤ 0) := by
  have hsplit : t.tdiv d * d + t.tmod d = t := Int.tdiv_mul_add_tmod t d
  have hd0 : 0 ≤ d := Int.le_of_lt hd
  constructor
  · intro ht
    have hq : 0 ≤ t.tdiv d * d := Int.mul_nonneg (Int.tdiv_nonneg ht hd0) hd0
    have hr : 0 ≤ t.tmod d := Int.tmod_nonneg d ht
    exact ⟨hq, by omega⟩
  · intro ht
    have hq : 0 ≤ (-t).tdiv d * d := Int.mul_nonneg (Int.tdiv_nonneg (by omega) hd0) hd0
    have hr : 0 ≤ (-t).tmod d := Int.tmod_nonneg d (by omega)
    rw [Int.neg_tdiv, Int.neg_mul] at hq
    rw [Int.neg_tmod] at hr
    exact ⟨by omega, by omega⟩

/-- The timestamp of a time point always converts back without overflow. -/
theorem Clock.fits_toKafkaTs (c : Clock) (t : Tp) : c.Fits (c.toKafkaTs t) := by
  have hlow := t.le_toInt
  have hhigh := t.toInt_lt
  obtain ⟨hpos, hneg⟩ := tdiv_mul_bounds t.toInt c.den_pos
  rw [Clock.Fits, c.toInt_toKafkaTs]
  rcases Int.le_total 0 t.toInt with h | h
  · have := hpos h
    omega
  · have := hneg h
    omega

/-- A time point written by the producer and read back by the consumer is the time point brought
to whole milliseconds towards the epoch. -/
theorem Clock.toInt_ofMilliseconds_toKafkaTs (c : Clock) (t : Tp) :
    (c.ofMilliseconds (c.toKafkaTs t)).toInt = t.toInt.tdiv c.den.toInt * c.den.toInt := by
  rw [c.toInt_ofMilliseconds (c.fits_toKafkaTs t), c.toInt_toKafkaTs]

end TsKafka
