import TsKafka.BasicConsumer.Assignment
import Mathlib.Order.Bounds.Defs

/-!
# `max_offset` over the calls of `rebalance_cb`

What one call does after any others: `max_offset` is a running maximum, and an ASSIGN event is
assigned back with one offset for all its partitions.
-/

namespace TsKafka.BasicConsumer
open RdKafka

/-- The offsets that ASSIGN events have reported, in order. -/
def reported (events : List RebalanceEvent) : List Int64 :=
  events.flatMap fun e =>
    if e.err = .ERR__ASSIGN_PARTITIONS then e.partitions.map TopicPartition.offset else []

theorem mem_reported {events : List RebalanceEvent} {x : Int64} :
    x ∈ reported events ↔
      ∃ e ∈ events, e.err = .ERR__ASSIGN_PARTITIONS ∧ ∃ p ∈ e.partitions, p.offset = x := by
  rw [reported, List.mem_flatMap]
  refine exists_congr fun e => and_congr_right fun _ => ?_
  by_cases h : e.err = .ERR__ASSIGN_PARTITIONS <;> simp [h]

/-! ## The running maximum -/

/-- The first loop keeps `max_offset` or takes an offset of the list. -/
theorem RbCb.raiseMaxOffset_mem (rb : RbCb) (partitions : List TopicPartition) :
    rb.raiseMaxOffset partitions = rb.maxOffset ∨
      ∃ p ∈ partitions, p.offset = rb.raiseMaxOffset partitions := by
  unfold RbCb.raiseMaxOffset
  generalize rb.maxOffset = maxOffset
  induction partitions generalizing maxOffset with
  | nil => exact .inl rfl
  | cons p rest ih =>
    rw [List.foldl_cons]
    rcases ih (if maxOffset < p.offset then p.offset else maxOffset) with h | ⟨q, hq, h⟩
    · rw [h]
      split
      · exact .inr ⟨p, List.mem_cons_self, rfl⟩
      · exact .inl rfl
    · exact .inr ⟨q, List.mem_cons_of_mem _ hq, h⟩

theorem Group.handle_maxOffset_mem (g : Group) (e : RebalanceEvent) :
    (g.handle e).rb.maxOffset = g.rb.maxOffset ∨ (g.handle e).rb.maxOffset ∈ reported [e] := by
  by_cases h : e.err = .ERR__ASSIGN_PARTITIONS
  · obtain ⟨err, partitions⟩ := e
    cases h
    rw [g.handle_assign, mem_reported]
    refine (g.rb.raiseMaxOffset_mem partitions).imp id ?_
    rintro ⟨p, hp, hoffset⟩
    exact ⟨_, List.mem_singleton.mpr rfl, rfl, p, hp, hoffset⟩
  · exact .inl (by rw [g.handle_other h])

theorem Group.handleAll_maxOffset_mem (g : Group) (events : List RebalanceEvent) :
    (g.handleAll events).rb.maxOffset ∈ g.rb.maxOffset :: reported events := by
  induction events generalizing g with
  | nil => exact List.mem_cons_self
  | cons e rest ih =>
    have hsplit : reported (e :: rest) = reported [e] ++ reported rest := by simp [reported]
    rw [hsplit]
    rcases List.mem_cons.mp (ih (g.handle e)) with h | h
    · have hall : (g.handleAll (e :: rest)).rb.maxOffset = (g.handle e).rb.maxOffset := h
      rw [hall]
      rcases g.handle_maxOffset_mem e with hsame | hnew
      · rw [hsame]
        exact List.mem_cons_self
      · exact List.mem_cons_of_mem _ (List.mem_append_left _ hnew)
    · exact List.mem_cons_of_mem _ (List.mem_append_right _ h)

/-- After any events `max_offset` is the greatest of what it was and of the offsets reported. -/
theorem Group.handleAll_maxOffset_isGreatest (g : Group) (events : List RebalanceEvent) :
    IsGreatest {x | x ∈ g.rb.maxOffset :: reported events} (g.handleAll events).rb.maxOffset := by
  refine ⟨g.handleAll_maxOffset_mem events, fun x hx => ?_⟩
  obtain ⟨hinitial, hreported⟩ :=
    (g.handleAll_maxOffset_le_iff events _).mp (Int64.le_refl _)
  rcases List.mem_cons.mp hx with rfl | hx
  · exact hinitial
  · obtain ⟨e, he, hassign, p, hp, rfl⟩ := mem_reported.mp hx
    exact hreported e he hassign p hp

/-! ## One call after any others -/

/-- A call of the callback object `rb` for the event `e`, after it has been called for the events
`before`. -/
def RbCb.callAfter (rb : RbCb) (before : List RebalanceEvent) (e : RebalanceEvent) : Rebalanced :=
  ((Group.unassigned rb).handleAll before).rb.rebalanceCb e.err e.partitions

/-- What that call does. -/
structure RebalanceCall (rb : RbCb) (before : List RebalanceEvent) (e : RebalanceEvent) :
    Prop where
  maximum : IsGreatest {x | x ∈ rb.maxOffset :: reported (before ++ [e])}
    (rb.callAfter before e).rb.maxOffset
  /-- It never decreases. -/
  grows : ((Group.unassigned rb).handleAll before).rb.maxOffset ≤
    (rb.callAfter before e).rb.maxOffset
  user : (rb.callAfter before e).rb.userRequestedOffset = rb.userRequestedOffset
  /-- No event changes the partitions, or their order. -/
  partitions : (rb.callAfter before e).partitions.map partitionKey = e.partitions.map partitionKey
  /-- An ASSIGN event is assigned once, with the partitions it lists, all at one offset. -/
  assign : e.err = .ERR__ASSIGN_PARTITIONS →
    (rb.callAfter before e).assigns = [(rb.callAfter before e).partitions] ∧
    (rb.callAfter before e).partitions = e.partitions.map fun p =>
      p.setOffset (if 0 ≤ rb.userRequestedOffset then rb.userRequestedOffset
        else (rb.callAfter before e).rb.maxOffset)
  /-- Every partition of an assigned list carries that offset. -/
  offsets : e.err = .ERR__ASSIGN_PARTITIONS → ∀ assigned ∈ (rb.callAfter before e).assigns,
    ∀ p ∈ assigned, p.offset = if 0 ≤ rb.userRequestedOffset then rb.userRequestedOffset
      else (rb.callAfter before e).rb.maxOffset
  /-- That offset skips nothing that the event reports unless the user has asked for it. -/
  above : e.err = .ERR__ASSIGN_PARTITIONS →
    ∀ p ∈ e.partitions, p.offset ≤ (rb.callAfter before e).rb.maxOffset
  other : e.err ≠ .ERR__ASSIGN_PARTITIONS →
    (rb.callAfter before e).assigns = [] ∧ (rb.callAfter before e).partitions = e.partitions ∧
    (rb.callAfter before e).rb = ((Group.unassigned rb).handleAll before).rb

/-- The object that the call leaves is the one that the next call finds. -/
theorem RbCb.callAfter_rb (rb : RbCb) (before : List RebalanceEvent) (e : RebalanceEvent) :
    (rb.callAfter before e).rb = ((Group.unassigned rb).handleAll (before ++ [e])).rb := by
  rw [Group.handleAll, List.foldl_append]
  rfl

theorem rebalance_call (rb : RbCb) (before : List RebalanceEvent) (e : RebalanceEvent) :
    RebalanceCall rb before e := by
  have huser : ((Group.unassigned rb).handleAll before).rb.userRequestedOffset =
      rb.userRequestedOffset := Group.handleAll_userRequestedOffset _ _
  have hmaximum := (Group.unassigned rb).handleAll_maxOffset_isGreatest (before ++ [e])
  rw [← rb.callAfter_rb] at hmaximum
  have hassigns : e.err = .ERR__ASSIGN_PARTITIONS →
      (rb.callAfter before e).assigns = [(rb.callAfter before e).partitions] ∧
      (rb.callAfter before e).partitions = e.partitions.map fun p =>
        p.setOffset (if 0 ≤ rb.userRequestedOffset then rb.userRequestedOffset
          else (rb.callAfter before e).rb.maxOffset) := by
    intro hassign
    simp only [RbCb.callAfter, RbCb.rebalanceCb, if_pos hassign, huser, true_and]
    by_cases hneg : rb.userRequestedOffset < 0
    · rw [if_pos hneg, if_neg (Int64.not_le.mpr hneg)]
    · rw [if_neg hneg, if_pos (Int64.not_lt.mp hneg)]
  refine ⟨hmaximum, ?_, ?_, RbCb.rebalanceCb_partitions _ _ _, hassigns, ?_, ?_, ?_⟩
  · exact ((((Group.unassigned rb).handleAll before).handle_maxOffset_le_iff e _).mp
      (Int64.le_refl _)).1
  · rw [rb.callAfter_rb]
    exact Group.handleAll_userRequestedOffset _ _
  · intro hassign assigned hassigned p hp
    obtain ⟨hlists, hpartitions⟩ := hassigns hassign
    rw [hlists, List.mem_singleton] at hassigned
    rw [hassigned, hpartitions] at hp
    obtain ⟨q, -, rfl⟩ := List.mem_map.mp hp
    rfl
  · intro hassign p hp
    apply hmaximum.2
    apply List.mem_cons_of_mem
    rw [mem_reported]
    exact ⟨e, List.mem_append_right _ (List.mem_singleton.mpr rfl), hassign, p, hp, rfl⟩
  · intro hother
    simp [RbCb.callAfter, RbCb.rebalanceCb, hother]

end TsKafka.BasicConsumer
