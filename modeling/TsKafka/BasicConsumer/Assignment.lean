import TsKafka.BasicConsumer.Rebalance
import Mathlib.Data.List.Chain

/-!
# The assignment that `rebalance_cb` leaves

Runs of `rebalance_cb` over any sequence of rebalance events. Registering the callback turns off
librdkafka's own handling of the assignment: the callback has to call `assign` or `unassign` on
every event (`rdkafkacpp.h:790-841`). Two questions are asked of a run: whether the assignment is
the one the last event requires, and whether the offset a partition is assigned is its own.
-/

namespace TsKafka.BasicConsumer
open RdKafka

/-- The arguments of one call of `rebalance_cb`. -/
structure RebalanceEvent where
  err : ErrorCode
  partitions : List TopicPartition
  deriving DecidableEq, Repr

/-- The callback object, and the assignment of the consumer it is registered with. -/
structure Group where
  rb : RbCb
  assigned : List TopicPartition
  deriving DecidableEq, Repr

/-- A consumer that has not been assigned anything; `rb` is what the atomics happen to hold. -/
def Group.unassigned (rb : RbCb) : Group := ⟨rb, []⟩

/-- One callback: every `consumer->assign` in it replaces the assignment. -/
def Group.handle (g : Group) (e : RebalanceEvent) : Group :=
  let r := g.rb.rebalanceCb e.err e.partitions
  ⟨r.rb, r.assigns.foldl (fun _ partitions => partitions) g.assigned⟩

def Group.handleAll (g : Group) (events : List RebalanceEvent) : Group :=
  events.foldl Group.handle g

/-- What makes a partition: its topic and number. -/
def partitionKey (p : TopicPartition) : String × Int32 := (p.topic, p.partition)

@[simp] theorem partitionKey_setOffset (p : TopicPartition) (offset : Int64) :
    partitionKey (p.setOffset offset) = partitionKey p := rfl

/-! ## One callback -/

/-- The offset that the callback gives every partition of an event. -/
def RbCb.offset (rb : RbCb) (partitions : List TopicPartition) : Int64 :=
  if rb.userRequestedOffset < 0 then rb.raiseMaxOffset partitions else rb.userRequestedOffset

theorem Group.handle_assign (g : Group) (partitions : List TopicPartition) :
    g.handle ⟨.ERR__ASSIGN_PARTITIONS, partitions⟩ =
      ⟨{ g.rb with maxOffset := g.rb.raiseMaxOffset partitions },
        partitions.map fun p => p.setOffset (g.rb.offset partitions)⟩ := by
  simp only [Group.handle, RbCb.rebalanceCb, RbCb.offset, if_true]
  split <;> rfl

/-- Any other event leaves the callback object and the assignment alone. -/
theorem Group.handle_other (g : Group) {e : RebalanceEvent}
    (h : e.err ≠ .ERR__ASSIGN_PARTITIONS) : g.handle e = g := by
  simp [Group.handle, RbCb.rebalanceCb, h]

/-! ## Whether the assignment is the required one -/

/-- The assignment that librdkafka requires after the event. -/
def RebalanceEvent.required (e : RebalanceEvent) : List (String × Int32) :=
  if e.err = .ERR__ASSIGN_PARTITIONS then e.partitions.map partitionKey else []

/-- After each callback the assignment is the one that its event requires. -/
def InSync (g : Group) : List RebalanceEvent → Prop
  | [] => True
  | e :: rest =>
    (g.handle e).assigned.map partitionKey = e.required ∧ InSync (g.handle e) rest

instance InSync.decidable : ∀ (g : Group) (events : List RebalanceEvent),
    Decidable (InSync g events)
  | _, [] => isTrue trivial
  | g, e :: rest =>
    have := InSync.decidable (g.handle e) rest
    inferInstanceAs (Decidable (_ ∧ _))

/-- `next` may follow `e`: an event that assigns partitions is followed by another ASSIGN. -/
def MayFollow (e next : RebalanceEvent) : Prop :=
  e.err = .ERR__ASSIGN_PARTITIONS → e.partitions ≠ [] → next.err = .ERR__ASSIGN_PARTITIONS

/-- One callback leaves the required assignment unless it forgets to unassign. -/
theorem Group.handle_required (g : Group) (e : RebalanceEvent) :
    (g.handle e).assigned.map partitionKey = e.required ↔
      (e.err ≠ .ERR__ASSIGN_PARTITIONS → g.assigned = []) := by
  by_cases h : e.err = .ERR__ASSIGN_PARTITIONS
  · obtain ⟨err, partitions⟩ := e
    cases h
    simp [Group.handle_assign, RebalanceEvent.required, Function.comp_def]
  · simp [g.handle_other h, RebalanceEvent.required, h]

/-- Nothing is assigned after a callback that left the required assignment, unless its event
assigned something. -/
theorem Group.handle_assigned_eq_nil (g : Group) {e : RebalanceEvent}
    (h : e.err ≠ .ERR__ASSIGN_PARTITIONS → g.assigned = []) :
    (g.handle e).assigned = [] ↔ (e.err = .ERR__ASSIGN_PARTITIONS → e.partitions = []) := by
  by_cases hassign : e.err = .ERR__ASSIGN_PARTITIONS
  · obtain ⟨err, partitions⟩ := e
    cases hassign
    simp [Group.handle_assign]
  · simp [g.handle_other hassign, h hassign, hassign]

theorem inSync_iff (g : Group) (events : List RebalanceEvent) :
    InSync g events ↔
      (∀ e ∈ events.head?, e.err ≠ .ERR__ASSIGN_PARTITIONS → g.assigned = []) ∧
        events.IsChain MayFollow := by
  induction events generalizing g with
  | nil => simp [InSync]
  | cons e rest ih =>
    simp only [InSync, ih, g.handle_required e, List.head?_cons, Option.mem_some_iff, forall_eq',
      List.isChain_cons]
    apply and_congr_right
    intro hfirst
    apply and_congr_left
    intro _
    refine forall₂_congr fun next _ => ?_
    rw [g.handle_assigned_eq_nil hfirst]
    by_cases hnext : next.err = .ERR__ASSIGN_PARTITIONS <;> simp [MayFollow, hnext]

/-- The assignment is the required one after every callback exactly when no ASSIGN event with
partitions is directly followed by an event of another kind. -/
theorem in_sync_iff_no_revoke (rb : RbCb) (events : List RebalanceEvent) :
    InSync (Group.unassigned rb) events ↔ events.IsChain MayFollow := by
  rw [inSync_iff, and_iff_right]
  intro e _ _
  rfl

/-- A partition of one topic, reported at an offset. -/
def testPartition (partition : Int32) (offset : Int64) : TopicPartition :=
  ⟨"test", partition, offset⟩

/-- A REVOKE leaves the partitions assigned. -/
theorem revoke_not_in_sync : ¬ ∀ rb events, InSync (Group.unassigned rb) events := by
  intro hclaim
  exact absurd (hclaim ⟨-1, 0⟩ [⟨.ERR__ASSIGN_PARTITIONS, [testPartition 0 5]⟩,
    ⟨.ERR__REVOKE_PARTITIONS, [testPartition 0 5]⟩]) (by decide)

/-! ## Whose offset a partition is assigned -/

/-- `max_offset` after the first loop is the least upper bound of what it was and the offsets. -/
theorem RbCb.raiseMaxOffset_le_iff (rb : RbCb) (partitions : List TopicPartition) (x : Int64) :
    rb.raiseMaxOffset partitions ≤ x ↔ rb.maxOffset ≤ x ∧ ∀ p ∈ partitions, p.offset ≤ x := by
  unfold RbCb.raiseMaxOffset
  generalize rb.maxOffset = maxOffset
  induction partitions generalizing maxOffset with
  | nil => simp
  | cons p rest ih =>
    rw [List.foldl_cons, ih, List.forall_mem_cons, ← and_assoc]
    apply and_congr_left
    intro _
    split
    · rename_i hlt
      exact ⟨fun h => ⟨Int64.le_trans (Int64.le_of_lt hlt) h, h⟩, And.right⟩
    · rename_i hlt
      exact ⟨fun h => ⟨h, Int64.le_trans (Int64.not_lt.mp hlt) h⟩, And.left⟩

theorem RbCb.le_raiseMaxOffset (rb : RbCb) {partitions : List TopicPartition}
    {p : TopicPartition} (hp : p ∈ partitions) : p.offset ≤ rb.raiseMaxOffset partitions :=
  ((rb.raiseMaxOffset_le_iff partitions _).mp (Int64.le_refl _)).2 p hp

theorem Group.handle_userRequestedOffset (g : Group) (e : RebalanceEvent) :
    (g.handle e).rb.userRequestedOffset = g.rb.userRequestedOffset := by
  simp only [Group.handle, RbCb.rebalanceCb]
  split <;> rfl

theorem Group.handle_maxOffset_le_iff (g : Group) (e : RebalanceEvent) (x : Int64) :
    (g.handle e).rb.maxOffset ≤ x ↔ g.rb.maxOffset ≤ x ∧
      (e.err = .ERR__ASSIGN_PARTITIONS → ∀ p ∈ e.partitions, p.offset ≤ x) := by
  by_cases h : e.err = .ERR__ASSIGN_PARTITIONS
  · obtain ⟨err, partitions⟩ := e
    cases h
    simp [Group.handle_assign, RbCb.raiseMaxOffset_le_iff]
  · simp [g.handle_other h, h]

theorem Group.handleAll_userRequestedOffset (g : Group) (events : List RebalanceEvent) :
    (g.handleAll events).rb.userRequestedOffset = g.rb.userRequestedOffset := by
  induction events generalizing g with
  | nil => rfl
  | cons e rest ih => exact (ih (g.handle e)).trans (g.handle_userRequestedOffset e)

/-- After any events `max_offset` is the least upper bound of what it was and of every offset
that an ASSIGN event has reported. -/
theorem Group.handleAll_maxOffset_le_iff (g : Group) (events : List RebalanceEvent)
    (x : Int64) :
    (g.handleAll events).rb.maxOffset ≤ x ↔ g.rb.maxOffset ≤ x ∧
      ∀ e ∈ events, e.err = .ERR__ASSIGN_PARTITIONS → ∀ p ∈ e.partitions, p.offset ≤ x := by
  induction events generalizing g with
  | nil => simp [Group.handleAll]
  | cons e rest ih =>
    rw [List.forall_mem_cons, ← and_assoc, ← g.handle_maxOffset_le_iff]
    exact ih (g.handle e)

/-- A run of the callback: any events, and then an ASSIGN event. -/
structure AssignRun where
  events : List RebalanceEvent
  last : List TopicPartition
  deriving DecidableEq, Repr

/-- What the last event of the run assigns. -/
def AssignRun.assigned (r : AssignRun) (rb : RbCb) : List TopicPartition :=
  ((Group.unassigned rb).handleAll (r.events ++ [⟨.ERR__ASSIGN_PARTITIONS, r.last⟩])).assigned

/-- No offset reported in the run, and not the initial `max_offset`, is above the offset that
`p` is reported with. -/
def AssignRun.Highest (r : AssignRun) (rb : RbCb) (p : TopicPartition) : Prop :=
  rb.maxOffset ≤ p.offset ∧
    (∀ e ∈ r.events, e.err = .ERR__ASSIGN_PARTITIONS → ∀ q ∈ e.partitions, q.offset ≤ p.offset) ∧
    ∀ q ∈ r.last, q.offset ≤ p.offset

/-- The offset that every partition of the last event is assigned. -/
def AssignRun.offset (r : AssignRun) (rb : RbCb) : Int64 :=
  ((Group.unassigned rb).handleAll r.events).rb.offset r.last

theorem AssignRun.assigned_eq (r : AssignRun) (rb : RbCb) :
    r.assigned rb = r.last.map fun p => p.setOffset (r.offset rb) := by
  simp [AssignRun.assigned, AssignRun.offset, Group.handleAll, Group.handle_assign]

theorem AssignRun.mem_assigned (r : AssignRun) (rb : RbCb) {p : TopicPartition}
    (hp : p ∈ r.last) : p.setOffset (r.offset rb) ∈ r.assigned rb := by
  rw [r.assigned_eq]
  exact List.mem_map.mpr ⟨p, hp, rfl⟩

theorem AssignRun.offset_of_mem (r : AssignRun) (rb : RbCb) {q : TopicPartition}
    (hq : q ∈ r.assigned rb) : q.offset = r.offset rb := by
  rw [r.assigned_eq] at hq
  obtain ⟨p, -, rfl⟩ := List.mem_map.mp hq
  rfl

theorem AssignRun.offset_of_user (r : AssignRun) (rb : RbCb)
    (h : ¬ rb.userRequestedOffset < 0) : r.offset rb = rb.userRequestedOffset := by
  rw [AssignRun.offset, RbCb.offset, Group.handleAll_userRequestedOffset]
  exact if_neg h

theorem AssignRun.offset_le_iff (r : AssignRun) (rb : RbCb) (h : rb.userRequestedOffset < 0)
    (p : TopicPartition) : r.offset rb ≤ p.offset ↔ r.Highest rb p := by
  rw [AssignRun.offset, RbCb.offset, Group.handleAll_userRequestedOffset]
  have hneg : (Group.unassigned rb).rb.userRequestedOffset < 0 := h
  rw [if_pos hneg, RbCb.raiseMaxOffset_le_iff, Group.handleAll_maxOffset_le_iff, and_assoc]
  rfl

theorem AssignRun.le_offset (r : AssignRun) (rb : RbCb) (h : rb.userRequestedOffset < 0)
    {p : TopicPartition} (hp : p ∈ r.last) : p.offset ≤ r.offset rb := by
  rw [AssignRun.offset, RbCb.offset, Group.handleAll_userRequestedOffset]
  have hneg : (Group.unassigned rb).rb.userRequestedOffset < 0 := h
  rw [if_pos hneg]
  exact RbCb.le_raiseMaxOffset _ hp

/-- The two runs assign `p` the same offset, and unless the user has asked for an offset, none
beyond the one it is reported with. -/
structure Independent (p : TopicPartition) (user : Int64)
    (assigned assigned' : List TopicPartition) : Prop where
  same : ∀ q ∈ assigned, ∀ q' ∈ assigned', partitionKey q = partitionKey p →
    partitionKey q' = partitionKey p → q.offset = q'.offset
  notBeyond : user < 0 → ∀ q, q ∈ assigned ∨ q ∈ assigned' → partitionKey q = partitionKey p →
    q.offset ≤ p.offset

/-- Two runs with the same `user_requested_offset` that end with a partition reported at the same
offset treat it alike exactly when the user has asked for an offset, or in both runs nothing
higher was reported. -/
theorem independent_iff (user maxOffset maxOffset' : Int64) (r r' : AssignRun)
    (p : TopicPartition) (hp : p ∈ r.last) (hp' : p ∈ r'.last) :
    Independent p user (r.assigned ⟨user, maxOffset⟩) (r'.assigned ⟨user, maxOffset'⟩) ↔
      0 ≤ user ∨ r.Highest ⟨user, maxOffset⟩ p ∧ r'.Highest ⟨user, maxOffset'⟩ p := by
  have hmem := r.mem_assigned ⟨user, maxOffset⟩ hp
  have hmem' := r'.mem_assigned ⟨user, maxOffset'⟩ hp'
  by_cases huser : user < 0
  · have hnot : ¬ 0 ≤ user := Int64.not_le.mpr huser
    rw [or_iff_right hnot, ← r.offset_le_iff ⟨user, maxOffset⟩ huser,
      ← r'.offset_le_iff ⟨user, maxOffset'⟩ huser]
    constructor
    · intro h
      exact ⟨h.notBeyond huser (p.setOffset _) (.inl hmem) (partitionKey_setOffset p _),
        h.notBeyond huser (p.setOffset _) (.inr hmem') (partitionKey_setOffset p _)⟩
    · rintro ⟨hle, hle'⟩
      have heq := Int64.le_antisymm hle (r.le_offset ⟨user, maxOffset⟩ huser hp)
      have heq' := Int64.le_antisymm hle' (r'.le_offset ⟨user, maxOffset'⟩ huser hp')
      constructor
      · intro q hq q' hq' _ _
        rw [r.offset_of_mem _ hq, r'.offset_of_mem _ hq', heq, heq']
      · rintro _ q (hq | hq) _
        · rw [r.offset_of_mem _ hq]
          exact hle
        · rw [r'.offset_of_mem _ hq]
          exact hle'
  · have hle : 0 ≤ user := Int64.not_lt.mp huser
    refine ⟨fun _ => .inl hle, fun _ => ⟨?_, fun h => absurd h huser⟩⟩
    intro q hq q' hq' _ _
    rw [r.offset_of_mem _ hq, r'.offset_of_mem _ hq', r.offset_of_user ⟨user, maxOffset⟩ huser,
      r'.offset_of_user ⟨user, maxOffset'⟩ huser]

/-- Two partitions of one event, and the second of them alone. -/
def twoAndOne : AssignRun × AssignRun :=
  (⟨[], [testPartition 0 500, testPartition 1 20]⟩, ⟨[], [testPartition 1 20]⟩)

/-- A partition is assigned the larger offset of another one. -/
theorem neighbour_not_independent :
    ¬ ∀ (user maxOffset maxOffset' : Int64) (r r' : AssignRun) (p : TopicPartition),
      p ∈ r.last → p ∈ r'.last → Independent p user (r.assigned ⟨user, maxOffset⟩)
        (r'.assigned ⟨user, maxOffset'⟩) := by
  intro hclaim
  have hsame := (hclaim (-1) 0 0 twoAndOne.1 twoAndOne.2 (testPartition 1 20) (by decide)
    (by decide)).same (testPartition 1 500) (by decide) (testPartition 1 20) (by decide) rfl rfl
  exact absurd hsame (by decide)

/-- The condition at the run with the larger of the two partitions. -/
theorem independent_iff_larger :
    Independent (testPartition 0 500) (-1) (twoAndOne.1.assigned ⟨-1, 0⟩)
      (AssignRun.assigned ⟨[], [testPartition 0 500]⟩ ⟨-1, 0⟩) := by
  apply (independent_iff (-1) 0 0 twoAndOne.1 ⟨[], [testPartition 0 500]⟩ (testPartition 0 500)
    (by decide) (by decide)).mpr
  right
  refine ⟨⟨by decide, ?_, by decide⟩, ⟨by decide, ?_, by decide⟩⟩
  · intro e he
    cases he
  · intro e he
    cases he

end TsKafka.BasicConsumer
