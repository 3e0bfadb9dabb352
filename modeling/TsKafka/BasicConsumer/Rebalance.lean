import TsKafka.RdKafka

/-!
# `rb_cb::rebalance_cb` (`basic_consumer.cpp:9-32`)
-/

namespace TsKafka.BasicConsumer
open RdKafka

/-- `rb_cb` (`basic_consumer.hpp:44-51`). No constructor writes the two atomics. -/
structure RbCb where
  userRequestedOffset : Int64
  maxOffset : Int64
  deriving DecidableEq, Repr

/-- What a call of `rebalance_cb` leaves: its object, the partitions it was given, and the list
of each `consumer->assign` call. -/
structure Rebalanced where
  rb : RbCb
  partitions : List TopicPartition
  assigns : List (List TopicPartition)
  deriving DecidableEq, Repr

/-- The first loop of `rebalance_cb`. -/
def RbCb.raiseMaxOffset (rb : RbCb) (partitions : List TopicPartition) : Int64 :=
  partitions.foldl (fun maxOffset p => if maxOffset < p.offset then p.offset else maxOffset)
    rb.maxOffset

def RbCb.rebalanceCb (rb : RbCb) (err : ErrorCode) (partitions : List TopicPartition) :
    Rebalanced :=
  if err = .ERR__ASSIGN_PARTITIONS then
    let maxOffset := rb.raiseMaxOffset partitions
    let partitions :=
      if rb.userRequestedOffset < 0 then partitions.map fun p => p.setOffset maxOffset
      else partitions.map fun p => p.setOffset rb.userRequestedOffset
    ⟨{ rb with maxOffset := maxOffset }, partitions, [partitions]⟩
  else ⟨rb, partitions, []⟩

/-- The callback changes offsets only: topics, partition numbers and their order stay. -/
theorem RbCb.rebalanceCb_partitions (rb : RbCb) (err : ErrorCode)
    (partitions : List TopicPartition) :
    (rb.rebalanceCb err partitions).partitions.map (fun p => (p.topic, p.partition)) =
      partitions.map fun p => (p.topic, p.partition) := by
  unfold RbCb.rebalanceCb
  split
  · dsimp only
    split <;> rw [List.map_map] <;> rfl
  · rfl

end TsKafka.BasicConsumer
