import TsKafka.BasicConsumer.Lifecycle
import TsKafka.BasicConsumer.MaxOffset

/-!
# What the initial contents of `rb_cb` decide

No constructor and no `start` writes the two atomics of `rb_cb` (`basic_consumer.hpp:52-53`); the
line of `pre_start` that would is a comment (`basic_consumer.cpp:163`). Two runs with the same
calls and the same rebalance events, from different contents of the atomics, are compared.
-/

namespace TsKafka.BasicConsumer
open RdKafka

/-- What happens to a consumer: its owner makes a call, or librdkafka calls the callback. -/
inductive Happening where
  | call (op : Op)
  | rebalance (e : RebalanceEvent)

/-- The object with other contents of `_rb_cb`. -/
def World.withRb (w : World) (rb : RbCb) : World := { w with bc := { w.bc with rbCb := rb } }

/-- What the callbacks of a history hand to `assign`: for each callback, the list of each of its
calls. Nothing happens after a fault. -/
def callbackAssigns (w : World) : List Happening → List (List (List TopicPartition))
  | [] => []
  | .call op :: rest =>
    match op.exec w with
    | .ok w => callbackAssigns w rest
    | .error _ => []
  | .rebalance e :: rest =>
    let r := w.bc.rbCb.rebalanceCb e.err e.partitions
    r.assigns :: callbackAssigns (w.withRb r.rb) rest

/-- The rebalance events of a history until the program ends in a fault, if it does. -/
def delivered (w : World) : List Happening → List RebalanceEvent
  | [] => []
  | .call op :: rest =>
    match op.exec w with
    | .ok w => delivered w rest
    | .error _ => []
  | .rebalance e :: rest => e :: delivered w rest

/-! ## The calls leave `_rb_cb` alone -/

theorem preStart_withRb (env : StartEnv) (w : World) (sa : ConsumerStartArgs) (errstr : String)
    (rb : RbCb) :
    preStart env (w.withRb rb) sa errstr =
      ((preStart env w sa errstr).1, (preStart env w sa errstr).2.1.withRb rb,
        (preStart env w sa errstr).2.2) := by
  unfold preStart
  rcases Conf.setAll env.api Conf.create errstr (preStartSettings env.rand sa) with
    ⟨_ | gconf, text⟩
  · rfl
  · cases env.consumerCreateFails with
    | some text => rfl
    | none => cases env.topicCreateFails <;> rfl

theorem start_withRb (env : StartEnv) (w : World) (sa : ConsumerStartArgs) (errstr : String)
    (rb : RbCb) :
    start env (w.withRb rb) sa errstr =
      (start env w sa errstr).map fun r => (r.1, r.2.1.withRb rb, r.2.2) := by
  rw [start, start, preStart_withRb]
  rcases preStart env w sa errstr with ⟨_ | _, w', text⟩
  · rfl
  · by_cases hth : w'.bc.th.isSome
    · have hth' : (w'.withRb rb).bc.th.isSome := hth
      simp only [if_pos hth, if_pos hth']
      rfl
    · have hth' : ¬ (w'.withRb rb).bc.th.isSome := hth
      simp only [if_neg hth, if_neg hth']
      rfl

theorem stop_withRb (w : World) (rb : RbCb) :
    stop (w.withRb rb) = (stop w).map fun r => (r.1.withRb rb, r.2) := by
  obtain ⟨⟨stopped, th, rb', consumer, topic, queue⟩, clients, readers, log⟩ := w
  cases stopped <;> cases consumer <;> cases th <;> rfl

theorem Op.exec_withRb (w : World) (rb : RbCb) (op : Op) :
    op.exec (w.withRb rb) = (op.exec w).map fun w => w.withRb rb := by
  cases op with
  | start env sa errstr =>
    rw [Op.exec, Op.exec, start_withRb]
    cases BasicConsumer.start env w sa errstr <;> rfl
  | stop =>
    rw [Op.exec, Op.exec, stop_withRb]
    cases BasicConsumer.stop w <;> rfl

/-- What the callback object assigns for a sequence of events. -/
def Group.assigns (g : Group) : List RebalanceEvent → List (List (List TopicPartition))
  | [] => []
  | e :: rest => (g.rb.rebalanceCb e.err e.partitions).assigns :: (g.handle e).assigns rest

/-- The calls of a history only decide which events there are. -/
theorem callbackAssigns_eq (w : World) (g : Group) (h : List Happening) :
    callbackAssigns (w.withRb g.rb) h = g.assigns (delivered w h) := by
  induction h generalizing w g with
  | nil => rfl
  | cons x rest ih =>
    cases x with
    | call op =>
      rw [callbackAssigns, delivered, op.exec_withRb]
      cases op.exec w with
      | ok w' => exact ih w' g
      | error fault => rfl
    | rebalance e => exact congrArg (List.cons _) (ih w (g.handle e))

/-! ## Where two runs assign the same -/

/-- The event assigns partitions. -/
def RebalanceEvent.Assigns (e : RebalanceEvent) : Prop :=
  e.err = .ERR__ASSIGN_PARTITIONS ∧ e.partitions ≠ []

instance (e : RebalanceEvent) : Decidable e.Assigns := inferInstanceAs (Decidable (_ ∧ _))

theorem map_setOffset_eq_iff {partitions : List TopicPartition} {x y : Int64} :
    partitions.map (fun p => p.setOffset x) = partitions.map (fun p => p.setOffset y) ↔
      (partitions ≠ [] → x = y) := by
  cases partitions with
  | nil => simp
  | cons p rest =>
    refine ⟨fun h _ => ?_, fun h => by rw [h (List.cons_ne_nil p rest)]⟩
    exact congrArg TopicPartition.offset (List.cons.inj h).1

/-- Two callbacks for one event assign the same iff they use the same offset for it. -/
theorem rebalanceCb_assigns_eq_iff (rb rb' : RbCb) (e : RebalanceEvent) :
    (rb.rebalanceCb e.err e.partitions).assigns = (rb'.rebalanceCb e.err e.partitions).assigns ↔
      (e.Assigns → rb.offset e.partitions = rb'.offset e.partitions) := by
  have hassigns : ∀ rb : RbCb, e.err = .ERR__ASSIGN_PARTITIONS →
      (rb.rebalanceCb e.err e.partitions).assigns =
        [e.partitions.map fun p => p.setOffset (rb.offset e.partitions)] := by
    intro rb herr
    simp only [RbCb.rebalanceCb, if_pos herr, RbCb.offset]
    split <;> rfl
  by_cases herr : e.err = .ERR__ASSIGN_PARTITIONS
  · rw [hassigns rb herr, hassigns rb' herr, List.singleton_inj, map_setOffset_eq_iff]
    exact ⟨fun h he => h he.2, fun h hne => h ⟨herr, hne⟩⟩
  · simp [RbCb.rebalanceCb, RebalanceEvent.Assigns, herr]

/-- The two sequences of callbacks use the same offset for every event that assigns partitions. -/
theorem Group.assigns_eq_iff (g g' : Group) (events : List RebalanceEvent) :
    g.assigns events = g'.assigns events ↔
      ∀ before e after, events = before ++ e :: after → e.Assigns →
        (g.handleAll before).rb.offset e.partitions =
          (g'.handleAll before).rb.offset e.partitions := by
  induction events generalizing g g' with
  | nil => simp [Group.assigns]
  | cons e rest ih =>
    rw [Group.assigns, Group.assigns, List.cons_eq_cons, rebalanceCb_assigns_eq_iff, ih]
    constructor
    · rintro ⟨hhead, htail⟩ before e' after hsplit
      cases before with
      | nil =>
        cases hsplit
        exact hhead
      | cons b before =>
        cases hsplit
        exact htail before e' after rfl
    · intro h
      exact ⟨h [] e rest rfl, fun before e' after hsplit => h (e :: before) e' after
        (by rw [hsplit]; rfl)⟩

/-! ## The condition on the initial contents -/

/-- The first event that assigns partitions. -/
def firstAssign (events : List RebalanceEvent) : Option RebalanceEvent :=
  events.find? fun e => e.Assigns

/-- The running maximum that begins at `maxOffset` is `x` from the first event that assigns
partitions on. -/
def ConstantMaximum (maxOffset x : Int64) (events : List RebalanceEvent) : Prop :=
  (∃ e, firstAssign events = some e ∧ IsGreatest {y | y ∈ maxOffset :: reported [e]} x) ∧
    ∀ y ∈ reported events, y ≤ x

/-- When the contents `rb` and `rb'` give every assigned partition the same offset. -/
inductive SameOffsets (rb rb' : RbCb) (events : List RebalanceEvent) : Prop
  | nothingAssigned (h : ∀ e ∈ events, ¬ e.Assigns)
  | sameRequest (huser : 0 ≤ rb.userRequestedOffset)
      (hsame : rb.userRequestedOffset = rb'.userRequestedOffset)
  | sameMaximum (huser : rb.userRequestedOffset < 0) (huser' : rb'.userRequestedOffset < 0)
      (hsame : rb.maxOffset = rb'.maxOffset)
  /-- The first event that assigns partitions reports an offset that neither content exceeds. -/
  | covered (huser : rb.userRequestedOffset < 0) (huser' : rb'.userRequestedOffset < 0)
      (first : RebalanceEvent) (hfirst : firstAssign events = some first) (x : Int64)
      (hx : x ∈ reported [first]) (hle : rb.maxOffset ≤ x) (hle' : rb'.maxOffset ≤ x)
  | constant (huser : 0 ≤ rb.userRequestedOffset) (huser' : rb'.userRequestedOffset < 0)
      (hconstant : ConstantMaximum rb'.maxOffset rb.userRequestedOffset events)
  | constant' (huser : rb.userRequestedOffset < 0) (huser' : 0 ≤ rb'.userRequestedOffset)
      (hconstant : ConstantMaximum rb.maxOffset rb'.userRequestedOffset events)

/-! ### The first event that assigns partitions -/

theorem reported_of_not_assigns {events : List RebalanceEvent} (h : ∀ e ∈ events, ¬ e.Assigns) :
    reported events = [] := by
  rw [List.eq_nil_iff_forall_not_mem]
  intro x hx
  obtain ⟨e, he, herr, p, hp, -⟩ := mem_reported.mp hx
  exact h e he ⟨herr, List.ne_nil_of_mem hp⟩

theorem exists_firstAssign {events : List RebalanceEvent} (h : ¬ ∀ e ∈ events, ¬ e.Assigns) :
    ∃ first, firstAssign events = some first := by
  rw [← Option.isSome_iff_exists, firstAssign, List.find?_isSome]
  simpa using h

/-- Nothing is reported before it. -/
theorem firstAssign_split {events : List RebalanceEvent} {first : RebalanceEvent}
    (hfirst : firstAssign events = some first) :
    ∃ before after, events = before ++ first :: after ∧ first.Assigns ∧
      reported (before ++ [first]) = reported [first] := by
  obtain ⟨hassigns, before, after, hsplit, hbefore⟩ := List.find?_eq_some_iff_append.mp hfirst
  refine ⟨before, after, hsplit, of_decide_eq_true hassigns, ?_⟩
  have hnone : reported before = [] := reported_of_not_assigns (by simpa using hbefore)
  rw [reported, List.flatMap_append, ← reported, ← reported, hnone, List.nil_append]

/-- Any event that assigns partitions is the first one or comes after it. -/
theorem firstAssign_mem {events before after : List RebalanceEvent} {first e : RebalanceEvent}
    (hfirst : firstAssign events = some first) (hsplit : events = before ++ e :: after)
    (he : e.Assigns) : first ∈ before ++ [e] := by
  have hparts : events = (before ++ [e]) ++ after := by simp [hsplit]
  rw [firstAssign, hparts, List.find?_append] at hfirst
  cases hfind : (before ++ [e]).find? fun e => e.Assigns with
  | none =>
    rw [List.find?_eq_none] at hfind
    exact absurd (decide_eq_true he) (hfind e (by simp))
  | some first' =>
    rw [hfind, Option.some_or, Option.some.injEq] at hfirst
    exact hfirst ▸ List.mem_of_find?_eq_some hfind

theorem reported_mono {events events' : List RebalanceEvent} (h : ∀ e ∈ events, e ∈ events')
    {x : Int64} (hx : x ∈ reported events) : x ∈ reported events' := by
  rw [mem_reported] at hx ⊢
  obtain ⟨e, he, hp⟩ := hx
  exact ⟨e, h e he, hp⟩

/-- What it reports is reported up to any event that assigns partitions. -/
theorem firstAssign_reported {events before after : List RebalanceEvent}
    {first e : RebalanceEvent} (hfirst : firstAssign events = some first)
    (hsplit : events = before ++ e :: after) (he : e.Assigns) {x : Int64}
    (hx : x ∈ reported [first]) : x ∈ reported (before ++ [e]) := by
  apply reported_mono _ hx
  simpa using firstAssign_mem hfirst hsplit he

/-! ### The offset of one event -/

variable {rb rb' : RbCb} {events : List RebalanceEvent} {e : RebalanceEvent}

/-- The offset that the callback gives the event `e` after the events `before`. -/
def RbCb.offsetAfter (rb : RbCb) (before : List RebalanceEvent) (e : RebalanceEvent) : Int64 :=
  ((Group.unassigned rb).handleAll before).rb.offset e.partitions

theorem RbCb.offsetAfter_of_user (h : 0 ≤ rb.userRequestedOffset)
    (before : List RebalanceEvent) (e : RebalanceEvent) :
    rb.offsetAfter before e = rb.userRequestedOffset :=
  AssignRun.offset_of_user ⟨before, e.partitions⟩ rb (Int64.not_lt.mpr h)

/-- Without a request it is the running maximum. -/
theorem RbCb.offsetAfter_isGreatest (h : rb.userRequestedOffset < 0)
    (before : List RebalanceEvent) (he : e.Assigns) :
    IsGreatest {x | x ∈ rb.maxOffset :: reported (before ++ [e])} (rb.offsetAfter before e) := by
  obtain ⟨err, partitions⟩ := e
  obtain rfl : err = .ERR__ASSIGN_PARTITIONS := he.1
  have hgreatest := (Group.unassigned rb).handleAll_maxOffset_isGreatest
    (before ++ [⟨.ERR__ASSIGN_PARTITIONS, partitions⟩])
  rw [Group.handleAll, List.foldl_append, List.foldl_cons, List.foldl_nil,
    Group.handle_assign] at hgreatest
  have hneg : ((Group.unassigned rb).handleAll before).rb.userRequestedOffset < 0 := by
    rw [Group.handleAll_userRequestedOffset]
    exact h
  rw [RbCb.offsetAfter, RbCb.offset, if_pos hneg]
  exact hgreatest

/-- A maximum that an offset of the list covers does not depend on where it began. -/
theorem isGreatest_le_of_covered {m m' x x' z : Int64} {offsets : List Int64}
    (h : IsGreatest {y | y ∈ m :: offsets} x) (h' : IsGreatest {y | y ∈ m' :: offsets} x')
    (hz : z ∈ offsets) (hm : m ≤ z) : x ≤ x' := by
  rcases List.mem_cons.mp h.1 with rfl | hx
  · exact Int64.le_trans hm (h'.2 (List.mem_cons_of_mem _ hz))
  · exact h'.2 (List.mem_cons_of_mem _ hx)

theorem isGreatest_unique {offsets : List Int64} {x x' : Int64}
    (h : IsGreatest {y | y ∈ offsets} x) (h' : IsGreatest {y | y ∈ offsets} x') : x = x' :=
  Int64.le_antisymm (h'.2 h.1) (h.2 h'.1)

/-! ### The condition is exact -/

/-- The two callback objects give the same offset to every event that assigns partitions. -/
def SameAfter (rb rb' : RbCb) (events : List RebalanceEvent) : Prop :=
  ∀ before e after, events = before ++ e :: after → e.Assigns →
    rb.offsetAfter before e = rb'.offsetAfter before e

theorem SameAfter.symm (h : SameAfter rb rb' events) : SameAfter rb' rb events :=
  fun before e after hsplit he => (h before e after hsplit he).symm

theorem sameAfter_of_sameMaximum (huser : rb.userRequestedOffset < 0)
    (huser' : rb'.userRequestedOffset < 0) (hsame : rb.maxOffset = rb'.maxOffset) :
    SameAfter rb rb' events := by
  intro before e after _ he
  have hgreatest := rb.offsetAfter_isGreatest huser before he
  rw [hsame] at hgreatest
  exact isGreatest_unique hgreatest (rb'.offsetAfter_isGreatest huser' before he)

theorem sameAfter_of_covered (huser : rb.userRequestedOffset < 0)
    (huser' : rb'.userRequestedOffset < 0) {first : RebalanceEvent}
    (hfirst : firstAssign events = some first) {x : Int64} (hx : x ∈ reported [first])
    (hle : rb.maxOffset ≤ x) (hle' : rb'.maxOffset ≤ x) : SameAfter rb rb' events := by
  intro before e after hsplit he
  have hgreatest := rb.offsetAfter_isGreatest huser before he
  have hgreatest' := rb'.offsetAfter_isGreatest huser' before he
  have hx' := firstAssign_reported hfirst hsplit he hx
  exact Int64.le_antisymm (isGreatest_le_of_covered hgreatest hgreatest' hx' hle)
    (isGreatest_le_of_covered hgreatest' hgreatest hx' hle')

/-- Two running maxima that agree at the first event: the common offset is what both began with,
or one that the event reports. -/
theorem sameMaximum_or_covered (huser : rb.userRequestedOffset < 0)
    (huser' : rb'.userRequestedOffset < 0) {first : RebalanceEvent}
    (hfirst : firstAssign events = some first) (h : SameAfter rb rb' events) :
    rb.maxOffset = rb'.maxOffset ∨
      ∃ x ∈ reported [first], rb.maxOffset ≤ x ∧ rb'.maxOffset ≤ x := by
  obtain ⟨before, after, hsplit, hassigns, hreported⟩ := firstAssign_split hfirst
  have hgreatest := rb.offsetAfter_isGreatest huser before hassigns
  have hgreatest' := rb'.offsetAfter_isGreatest huser' before hassigns
  rw [hreported] at hgreatest hgreatest'
  rw [← h before first after hsplit hassigns] at hgreatest'
  have hle := hgreatest.2 List.mem_cons_self
  have hle' := hgreatest'.2 List.mem_cons_self
  rcases List.mem_cons.mp hgreatest.1 with hinitial | hreport
  · rcases List.mem_cons.mp hgreatest'.1 with hinitial' | hreport'
    · exact .inl (hinitial.symm.trans hinitial')
    · exact .inr ⟨_, hreport', hle, hle'⟩
  · exact .inr ⟨_, hreport, hle, hle'⟩

/-- A request and a running maximum that agree: the maximum is the request throughout. -/
theorem constantMaximum_of_sameAfter (huser : 0 ≤ rb.userRequestedOffset)
    (huser' : rb'.userRequestedOffset < 0) {first : RebalanceEvent}
    (hfirst : firstAssign events = some first) (h : SameAfter rb rb' events) :
    ConstantMaximum rb'.maxOffset rb.userRequestedOffset events := by
  have hgreatest : ∀ before e after, events = before ++ e :: after → e.Assigns →
      IsGreatest {x | x ∈ rb'.maxOffset :: reported (before ++ [e])} rb.userRequestedOffset := by
    intro before e after hsplit he
    rw [← rb.offsetAfter_of_user huser before e, h before e after hsplit he]
    exact rb'.offsetAfter_isGreatest huser' before he
  refine ⟨⟨first, hfirst, ?_⟩, fun y hy => ?_⟩
  · obtain ⟨before, after, hsplit, hassigns, hreported⟩ := firstAssign_split hfirst
    rw [← hreported]
    exact hgreatest before first after hsplit hassigns
  · obtain ⟨e, he, herr, p, hp, rfl⟩ := mem_reported.mp hy
    obtain ⟨before, after, hsplit⟩ := List.append_of_mem he
    apply (hgreatest before e after hsplit ⟨herr, List.ne_nil_of_mem hp⟩).2
    apply List.mem_cons_of_mem
    rw [mem_reported]
    exact ⟨e, by simp, herr, p, hp, rfl⟩

theorem sameAfter_of_constantMaximum (huser : 0 ≤ rb.userRequestedOffset)
    (huser' : rb'.userRequestedOffset < 0)
    (h : ConstantMaximum rb'.maxOffset rb.userRequestedOffset events) :
    SameAfter rb rb' events := by
  obtain ⟨⟨first, hfirst, hmax⟩, hle⟩ := h
  intro before e after hsplit he
  rw [rb.offsetAfter_of_user huser]
  refine isGreatest_unique ⟨?_, fun y hy => ?_⟩ (rb'.offsetAfter_isGreatest huser' before he)
  · rcases List.mem_cons.mp hmax.1 with hinitial | hreport
    · exact List.mem_cons.mpr (.inl hinitial)
    · exact List.mem_cons_of_mem _ (firstAssign_reported hfirst hsplit he hreport)
  · rcases List.mem_cons.mp hy with rfl | hy
    · exact hmax.2 List.mem_cons_self
    · apply hle y
      apply reported_mono _ hy
      intro e' he'
      have hparts : events = (before ++ [e]) ++ after := by simp [hsplit]
      rw [hparts]
      exact List.mem_append_left _ he'

theorem sameOffsets_of_sameAfter (h : SameAfter rb rb' events) : SameOffsets rb rb' events := by
  by_cases hnone : ∀ e ∈ events, ¬ e.Assigns
  · exact .nothingAssigned hnone
  · obtain ⟨first, hfirst⟩ := exists_firstAssign hnone
    by_cases huser : rb.userRequestedOffset < 0
    · by_cases huser' : rb'.userRequestedOffset < 0
      · rcases sameMaximum_or_covered huser huser' hfirst h with hsame | ⟨x, hx, hle, hle'⟩
        · exact .sameMaximum huser huser' hsame
        · exact .covered huser huser' first hfirst x hx hle hle'
      · have hrequest' := Int64.not_lt.mp huser'
        exact .constant' huser hrequest'
          (constantMaximum_of_sameAfter hrequest' huser hfirst h.symm)
    · have hrequest := Int64.not_lt.mp huser
      by_cases huser' : rb'.userRequestedOffset < 0
      · exact .constant hrequest huser' (constantMaximum_of_sameAfter hrequest huser' hfirst h)
      · obtain ⟨before, after, hsplit, hassigns, -⟩ := firstAssign_split hfirst
        have hsame := h before first after hsplit hassigns
        rw [rb.offsetAfter_of_user hrequest,
          rb'.offsetAfter_of_user (Int64.not_lt.mp huser')] at hsame
        exact .sameRequest hrequest hsame

theorem sameAfter_of_sameOffsets (h : SameOffsets rb rb' events) : SameAfter rb rb' events := by
  cases h with
  | nothingAssigned h =>
    intro before e after hsplit he
    exact absurd he (h e (by simp [hsplit]))
  | sameRequest huser hsame =>
    intro before e after _ _
    rw [rb.offsetAfter_of_user huser, rb'.offsetAfter_of_user (hsame ▸ huser), hsame]
  | sameMaximum huser huser' hsame => exact sameAfter_of_sameMaximum huser huser' hsame
  | covered huser huser' first hfirst x hx hle hle' =>
    exact sameAfter_of_covered huser huser' hfirst hx hle hle'
  | constant huser huser' hconstant =>
    exact sameAfter_of_constantMaximum huser huser' hconstant
  | constant' huser huser' hconstant =>
    exact (sameAfter_of_constantMaximum huser' huser hconstant).symm

/-- For any history, two contents of `_rb_cb` assign the same offsets to the same partitions exactly
when they meet `SameOffsets` on its events. -/
theorem callbackAssigns_eq_iff (rb rb' : RbCb) (h : List Happening) :
    callbackAssigns (.fresh rb) h = callbackAssigns (.fresh rb') h ↔
      SameOffsets rb rb' (delivered (.fresh rb) h) := by
  have hrun : callbackAssigns (.fresh rb) h =
      (Group.unassigned rb).assigns (delivered (.fresh rb) h) :=
    callbackAssigns_eq (.fresh rb) (.unassigned rb) h
  have hrun' : callbackAssigns (.fresh rb') h =
      (Group.unassigned rb').assigns (delivered (.fresh rb) h) :=
    callbackAssigns_eq (.fresh rb) (.unassigned rb') h
  rw [hrun, hrun', Group.assigns_eq_iff]
  exact ⟨sameOffsets_of_sameAfter, sameAfter_of_sameOffsets⟩

end TsKafka.BasicConsumer
