import TsKafka.BasicProducer.Polling
import TsKafka.BasicConsumer.InitialOffsets

/-!
# Storage that nothing initialises

`basic_producer::_stop` (`basic_producer.hpp:40`) and the two atomics of `rb_cb`
(`basic_consumer.hpp:52-53`) have no initialiser, unlike `basic_consumer::_stop`. The same calls
and the same answers of librdkafka are run from two contents of this storage.
-/

namespace TsKafka
open RdKafka BasicProducer BasicConsumer

/-- What the storage happens to hold. -/
structure Storage where
  stop : Bool
  rbCb : RbCb
  deriving DecidableEq, Repr

/-- A producer with the calls `script` and a consumer with the history `h` do not show which of the
two contents they began with. -/
structure Unobservable (clock : Clock) (script : List BasicProducer.Op) (h : List Happening)
    (m m' : Storage) : Prop where
  polls : KeepsPolling clock m.stop script
  polls' : KeepsPolling clock m'.stop script
  assigns : callbackAssigns (.fresh m.rbCb) h = callbackAssigns (.fresh m'.rbCb) h

/-- The storage does not show exactly when `_stop` happens to be `false` in both runs or no polling
thread is started, and the contents of `rb_cb` lead to the same offsets. -/
theorem unobservable_iff (clock : Clock) (script : List BasicProducer.Op) (h : List Happening)
    (m m' : Storage) :
    Unobservable clock script h m m' ↔
      ((m.stop = false ∧ m'.stop = false) ∨ ¬ StartsPolling script) ∧
        SameOffsets m.rbCb m'.rbCb (delivered (.fresh m.rbCb) h) := by
  rw [← callbackAssigns_eq_iff, and_or_right, ← keepsPolling_iff clock, ← keepsPolling_iff clock]
  constructor
  · rintro ⟨hpolls, hpolls', hassigns⟩
    exact ⟨⟨hpolls, hpolls'⟩, hassigns⟩
  · rintro ⟨⟨hpolls, hpolls'⟩, hassigns⟩
    exact ⟨hpolls, hpolls', hassigns⟩

/-- One `connect` that succeeds. -/
def connectOnly : List BasicProducer.Op :=
  [.connect (.accepting none) (localArgs "test") ""]

/-- A start that succeeds, and then one ASSIGN event, with a partition at the offset 7. -/
def startAndAssign : List Happening :=
  [.call (.start .accepting .fromBeginning ""),
    .rebalance ⟨.ERR__ASSIGN_PARTITIONS, [testPartition 0 7]⟩]

/-- From one content the polling thread ends at its first test, and the callback assigns what the
storage held. -/
theorem storage_observable :
    ¬ KeepsPolling .hundredNanoseconds true connectOnly ∧
      callbackAssigns (.fresh ⟨5, 0⟩) startAndAssign ≠ callbackAssigns (.fresh ⟨-1, 0⟩) startAndAssign ∧
      ¬ ∀ clock script h m m', Unobservable clock script h m m' := by
  have hpolls : ¬ KeepsPolling .hundredNanoseconds true connectOnly := fun hkeeps =>
    hkeeps [.caller .ERR_NO_ERROR false, .caller .ERR_NO_ERROR false,
      .caller .ERR_NO_ERROR false, .poller] _ rfl rfl
  refine ⟨hpolls, by decide, fun hclaim => ?_⟩
  exact hpolls (hclaim .hundredNanoseconds connectOnly startAndAssign ⟨true, ⟨5, 0⟩⟩
    ⟨false, ⟨-1, 0⟩⟩).polls

end TsKafka
