import TsKafka.BasicConsumer.DoRead
import Mathlib.Data.List.Forall2

/-!
# Runs of `do_read`

`do_read` next to a thread that raises `_stop` at any moment. Two results about all its runs: which
callbacks it makes, in which order with the other things it does, and when it releases every message
object that `consume` has handed over.
-/

namespace TsKafka.BasicConsumer
open RdKafka PartialRun

/-- `do_read` and the flag it polls. Message objects are numbered in the order in which `consume`
hands them over; `msg` is the object the local variable `msg` points to, and `deleted` are the
objects that have been given to `delete`, in order. -/
structure Loop where
  stop : Bool
  pc : ReaderPc
  events : List ReadEvent
  handed : Nat
  msg : Option Nat
  deleted : List Nat

/-- The reader at the beginning of `do_read`. -/
def Loop.enter (stop : Bool) : Loop where
  stop := stop
  pc := .head
  events := []
  handed := 0
  msg := none
  deleted := []

inductive LoopAction where
  /-- Another thread executes `_stop = true`. -/
  | raiseStop
  /-- The reader goes on; `result` is what `consume` returns, if it is there. -/
  | read (result : Option Message)
  deriving DecidableEq, Repr

/-- What the reader's next step does to message objects. -/
def Loop.objects (s : Loop) (result : Option Message) : Loop :=
  match s.pc with
  | .consume =>
    match result with
    | none => { s with msg := none }
    | some _ => { s with handed := s.handed + 1, msg := some s.handed }
  | .delete _ => { s with deleted := s.deleted ++ s.msg.toList }
  | _ => s

def loopStep (clock : Clock) (bkMs : Int32) (s : Loop) : LoopAction → Option Loop
  | .raiseStop => some { s with stop := true }
  | .read result =>
    (readerStep clock bkMs (s.pc, s.events) (s.stop, result)).map fun next =>
      { s.objects result with pc := next.1, events := next.2 }

variable {clock : Clock} {bkMs : Int32} {s t : Loop}

theorem loopStep_read {result : Option Message}
    (h : loopStep clock bkMs s (.read result) = some t) :
    ∃ pc, s.pc.next s.stop result = some pc ∧
      t = { s.objects result with pc := pc, events := s.events ++ s.pc.event clock bkMs result } := by
  simp only [loopStep, readerStep, Option.map_map, Option.map_eq_some_iff] at h
  obtain ⟨pc, hpc, rfl⟩ := h
  exact ⟨pc, hpc, rfl⟩

/-! ## The events of a run -/

/-- The results of `consume` among the events, in order. -/
def consumed (events : List ReadEvent) : List (Option Message) :=
  events.filterMap fun
    | .consume _ result => some result
    | _ => none

@[simp] theorem consumed_append (xs ys : List ReadEvent) :
    consumed (xs ++ ys) = consumed xs ++ consumed ys := by
  simp [consumed]

@[simp] theorem consumed_consume (bkMs : Int32) (result : Option Message) :
    consumed [.consume bkMs result] = [result] := rfl

@[simp] theorem consumed_delete (msg : Message) : consumed [.delete msg] = [] := rfl

@[simp] theorem consumed_notifyAll : consumed [.notifyAll] = [] := rfl

@[simp] theorem readable_none : readable none = none := rfl

/-- What the reader still does in its round. -/
def ReaderPc.rest (clock : Clock) (bkMs : Int32) : ReaderPc → List ReadEvent
  | .got result => (readRound clock bkMs result).tail
  | .callback msg =>
    let (t, buf, len) := callbackArgs clock msg
    [.callback t buf len, .delete msg]
  | .delete msg => [.delete msg]
  | _ => []

theorem readRound_eq_cons (clock : Clock) (bkMs : Int32) (result : Option Message) :
    readRound clock bkMs result =
      .consume bkMs result :: (readRound clock bkMs result).tail := by
  rw [readRound_eq]
  rfl

/-- Only the `consume` call consumes a result. -/
theorem ReaderPc.consumed_event (clock : Clock) (bkMs : Int32) (result : Option Message)
    {pc : ReaderPc} (h : pc ≠ .consume) : consumed (pc.event clock bkMs result) = [] := by
  cases pc with
  | consume => exact absurd rfl h
  | _ => rfl

/-- A step that is neither `consume` nor the notification does the next thing of the round. -/
theorem ReaderPc.next_rest {stop : Bool} {result : Option Message} {pc pc' : ReaderPc}
    (h : pc.next stop result = some pc') (hconsume : pc ≠ .consume) (hnotify : pc ≠ .notify) :
    pc.event clock bkMs result ++ pc'.rest clock bkMs = pc.rest clock bkMs ∧ pc' ≠ .done := by
  cases pc with
  | consume => exact absurd rfl hconsume
  | notify => exact absurd rfl hnotify
  | head => cases stop <;> cases h <;> exact ⟨rfl, by simp⟩
  | got result =>
    rw [ReaderPc.next_got] at h
    cases h
    rw [ReaderPc.rest, readRound_eq]
    cases readable result <;> exact ⟨rfl, by simp⟩
  | callback msg =>
    cases h
    exact ⟨rfl, by simp⟩
  | delete msg =>
    cases h
    exact ⟨rfl, by simp⟩
  | done => cases h

/-- The events are whole rounds of the results consumed so far, but for what is left of the
present round; when `do_read` has returned, its notification follows. -/
def Loop.InRounds (clock : Clock) (bkMs : Int32) (s : Loop) : Prop :=
  s.events ++ s.pc.rest clock bkMs =
    (consumed s.events).flatMap (readRound clock bkMs) ++
      if s.pc = .done then [.notifyAll] else []

theorem Loop.InRounds.step {a : LoopAction} (hs : s.InRounds clock bkMs)
    (h : loopStep clock bkMs s a = some t) : t.InRounds clock bkMs := by
  cases a with
  | raiseStop =>
    cases h
    exact hs
  | read result =>
    obtain ⟨pc, hpc, rfl⟩ := loopStep_read h
    unfold Loop.InRounds at hs ⊢
    by_cases hconsume : s.pc = .consume
    · rw [hconsume] at hs hpc
      cases hpc
      simp only [ReaderPc.rest, List.append_nil, reduceCtorEq, if_false] at hs
      simp only [hconsume, ReaderPc.event, ReaderPc.rest, consumed_append, consumed_consume,
        List.flatMap_append, List.flatMap_singleton, reduceCtorEq, if_false, List.append_nil,
        List.append_assoc, List.singleton_append]
      rw [← readRound_eq_cons, ← hs]
    · by_cases hnotify : s.pc = .notify
      · rw [hnotify] at hs hpc
        cases hpc
        simp only [ReaderPc.rest, List.append_nil, reduceCtorEq, if_false] at hs
        simp only [hnotify, ReaderPc.event, ReaderPc.rest, consumed_append, consumed_notifyAll,
          List.append_nil, if_true]
        rw [← hs]
      · obtain ⟨hrest, hdone⟩ := ReaderPc.next_rest hpc hconsume hnotify
        have hnone := ReaderPc.consumed_event clock bkMs result hconsume
        have hnot : s.pc ≠ .done := by
          intro hdone
          rw [hdone] at hpc
          cases hpc
        rw [if_neg hnot, List.append_nil] at hs
        rw [if_neg hdone, consumed_append, hnone, List.append_nil, List.append_nil,
          List.append_assoc, hrest, hs]

theorem Loop.inRounds_of_run {stop : Bool} {as : List LoopAction}
    (hrun : run (loopStep clock bkMs) (Loop.enter stop) as = some s) : s.InRounds clock bkMs :=
  run_invariant (fun _ _ _ hs h => hs.step h) hrun rfl

/-! ## The callbacks -/

theorem ReaderPc.callbacks_rest (pc : ReaderPc) :
    callbacks (pc.rest clock bkMs) = (pc.pending.map (callbackArgs clock)).toList := by
  cases pc with
  | got result =>
    rw [ReaderPc.pending, ← callbacks_readRound clock bkMs, readRound_eq_cons clock bkMs result]
    rfl
  | _ => rfl

/-- The callbacks made and the one that is due are those of the results that are not rejected, in
the order in which `consume` returned them. -/
theorem Loop.InRounds.callbacks (h : s.InRounds clock bkMs) :
    callbacks s.events ++ (s.pc.pending.map (callbackArgs clock)).toList =
      ((consumed s.events).filterMap readable).map (callbackArgs clock) := by
  have hall := congrArg BasicConsumer.callbacks h
  rw [callbacks_append, callbacks_append, ReaderPc.callbacks_rest,
    callbacks_flatMap_readRound] at hall
  rw [hall]
  split <;> simp [BasicConsumer.callbacks]

theorem notifyAll_not_mem_rounds (clock : Clock) (bkMs : Int32)
    (results : List (Option Message)) :
    .notifyAll ∉ results.flatMap (readRound clock bkMs) := by
  intro hmem
  obtain ⟨result, -, hmem⟩ := List.mem_flatMap.mp hmem
  rw [readRound_eq] at hmem
  cases hread : readable result <;> simp [hread, ReaderPc.event] at hmem

/-! ## After the flag is raised -/

/-- The loop head does not let the reader out while the flag is down. -/
theorem ReaderPc.next_leaves {stop : Bool} {result : Option Message} {pc pc' : ReaderPc}
    (h : pc.next stop result = some pc') (hpc' : pc' = .notify ∨ pc' = .done) :
    stop = true ∨ pc = .notify ∨ pc = .done := by
  cases pc with
  | head => cases stop <;> cases h <;> simp_all
  | got result =>
    rw [ReaderPc.next_got] at h
    cases h
    cases hread : readable result <;> simp [hread] at hpc'
  | notify => simp
  | done => cases h
  | _ =>
    cases h
    simp at hpc'

/-- Only the loop head leads into `consume`, and only while the flag is down. -/
theorem ReaderPc.stop_of_next_consume {stop : Bool} {result : Option Message} {pc : ReaderPc}
    (h : pc.next stop result = some .consume) : stop = false := by
  cases pc with
  | head => cases stop <;> simp_all [ReaderPc.next]
  | got result =>
    rw [ReaderPc.next_got] at h
    cases hread : readable result <;> simp [hread] at h
  | _ => simp [ReaderPc.next] at h

theorem Loop.objects_stop (s : Loop) (result : Option Message) :
    (s.objects result).stop = s.stop := by
  unfold Loop.objects
  split
  · split <;> rfl
  · rfl
  · rfl

/-- A reader that has left the loop was told to stop. -/
theorem stop_of_left {stop : Bool} {as : List LoopAction}
    (hrun : run (loopStep clock bkMs) (Loop.enter stop) as = some s)
    (hleft : s.pc = .notify ∨ s.pc = .done) : s.stop = true := by
  have hinv : (s.pc = .notify ∨ s.pc = .done) → s.stop = true := by
    apply run_invariant (I := fun s : Loop => s.pc = .notify ∨ s.pc = .done → s.stop = true) ?_ hrun
    · rintro (h | h) <;> cases h
    · intro s a t hs h hpc
      cases a with
      | raiseStop =>
        cases h
        rfl
      | read result =>
        obtain ⟨pc, hnext, rfl⟩ := loopStep_read h
        show (s.objects result).stop = true
        rw [s.objects_stop]
        exact (ReaderPc.next_leaves hnext hpc).elim id hs
  exact hinv hleft

/-- With the flag up and no `consume` in progress, nothing more is consumed. -/
theorem consumed_of_stopped {as : List LoopAction}
    (hrun : run (loopStep clock bkMs) s as = some t) (hstop : s.stop = true)
    (hpc : s.pc ≠ .consume) : consumed t.events = consumed s.events := by
  have hinv : t.stop = true ∧ t.pc ≠ .consume ∧ consumed t.events = consumed s.events := by
    apply run_invariant (I := fun u : Loop => u.stop = true ∧ u.pc ≠ .consume ∧
      consumed u.events = consumed s.events) ?_ hrun ⟨hstop, hpc, rfl⟩
    rintro u a v ⟨hstop, hpc, heq⟩ h
    cases a with
    | raiseStop =>
      cases h
      exact ⟨rfl, hpc, heq⟩
    | read result =>
      obtain ⟨pc, hnext, rfl⟩ := loopStep_read h
      refine ⟨(u.objects_stop result).trans hstop, ?_, ?_⟩
      · rintro rfl
        have hdown := ReaderPc.stop_of_next_consume hnext
        rw [hstop] at hdown
        cases hdown
      · show consumed (u.events ++ _) = _
        rw [consumed_append, heq, ReaderPc.consumed_event clock bkMs result hpc, List.append_nil]
  exact hinv.2.2

/-- The events of a run stay. -/
theorem events_isPrefix {as : List LoopAction}
    (hrun : run (loopStep clock bkMs) s as = some t) : s.events <+: t.events := by
  apply run_invariant (I := fun u : Loop => s.events <+: u.events) ?_ hrun List.prefix_rfl
  intro u a v hu h
  cases a with
  | raiseStop =>
    cases h
    exact hu
  | read result =>
    obtain ⟨pc, -, rfl⟩ := loopStep_read h
    exact hu.trans (List.prefix_append _ _)

/-- A message that the reader holds for the callback is delivered before it returns. -/
theorem Loop.InRounds.delivered (hs : s.InRounds clock bkMs) {msg : Message}
    (hpending : s.pc.pending = some msg) {as : List LoopAction}
    (hrun : run (loopStep clock bkMs) s as = some t) (hdone : t.pc = .done) :
    callbackArgs clock msg ∈ BasicConsumer.callbacks t.events := by
  have ht : t.InRounds clock bkMs := run_invariant (fun _ _ _ hs h => hs.step h) hrun hs
  have hcallbacks := ht.callbacks
  have hnone : t.pc.pending = none := by rw [hdone]; rfl
  rw [hnone, Option.map_none, Option.toList_none, List.append_nil] at hcallbacks
  obtain ⟨later, hlater⟩ := events_isPrefix hrun
  rw [hcallbacks, ← hlater, consumed_append, List.filterMap_append, List.map_append,
    ← hs.callbacks, hpending]
  simp

/-- What `do_read` is to do in a round: delete a message that it has given to the callback, which it
gives the time, the bytes and the length of each message without an error and with bytes in it. -/
inductive IsRound (clock : Clock) (bkMs : Int32) : Option Message → List ReadEvent → Prop
  | null : IsRound clock bkMs none [.consume bkMs none]
  | rejects (msg : Message) (h : msg.err ≠ .ERR_NO_ERROR ∨ msg.payload = []) :
      IsRound clock bkMs (some msg) [.consume bkMs (some msg)]
  | delivers (msg : Message) (herr : msg.err = .ERR_NO_ERROR) (hpayload : msg.payload ≠ []) :
      IsRound clock bkMs (some msg) [.consume bkMs (some msg),
        .callback (clock.ofMilliseconds msg.timestamp) msg.payload msg.payload.length, .delete msg]

theorem isRound_readRound (clock : Clock) (bkMs : Int32) (result : Option Message) :
    IsRound clock bkMs result (readRound clock bkMs result) := by
  cases result with
  | none => exact .null
  | some msg =>
    cases hrejected : rejected (some msg) with
    | true =>
      rw [readRound, if_pos hrejected]
      refine .rejects msg (not_and_or.mp ?_ |>.imp id not_not.mp)
      rw [← rejected_eq_false, hrejected]
      decide
    | false =>
      obtain ⟨herr, hpayload⟩ := rejected_eq_false.mp hrejected
      rw [readRound, hrejected]
      exact .delivers msg herr hpayload

/-- The reader holds a message for the callback when it has just come from `consume` or is in the
callback. -/
theorem ReaderPc.place_of_pending {pc : ReaderPc} {msg : Message} (h : pc.pending = some msg) :
    pc = .got (some msg) ∨ pc = .callback msg := by
  cases pc with
  | got result => exact .inl (congrArg ReaderPc.got (readable_eq_some.mp h).1)
  | callback msg' => exact .inr (congrArg ReaderPc.callback (Option.some.inj h))
  | _ => cases h

/-- What a run of `do_read` that has come to `s` has done, and what it can still do. -/
structure ReadLoop (clock : Clock) (bkMs : Int32) (s : Loop) : Prop where
  /-- The callbacks, with the one that is due if the reader holds a message for it: those of the
  messages without an error and with bytes in them, in order and once each, whenever the flag was
  raised, each with its own time, bytes and length. -/
  callbacks : callbacks s.events ++ (s.pc.pending.map fun msg =>
      (clock.ofMilliseconds msg.timestamp, msg.payload, msg.payload.length)).toList =
    (((consumed s.events).filterMap id).filter fun msg =>
      msg.err = .ERR_NO_ERROR ∧ msg.payload ≠ []).map fun msg =>
        (clock.ofMilliseconds msg.timestamp, msg.payload, msg.payload.length)
  held : ∀ msg, s.pc.pending = some msg → s.pc = .got (some msg) ∨ s.pc = .callback msg
  /-- A message already obtained is delivered, also when the flag is raised meanwhile. -/
  delivered : ∀ msg, msg.err = .ERR_NO_ERROR → msg.payload ≠ [] →
    s.pc = .got (some msg) ∨ s.pc = .callback msg → ∀ as t,
    run (loopStep clock bkMs) s as = some t → t.pc = .done →
      (clock.ofMilliseconds msg.timestamp, msg.payload, msg.payload.length) ∈
        BasicConsumer.callbacks t.events
  /-- Each stands in the round of its message, after `consume` and before `delete`, and the rounds
  follow one another. -/
  order : ∃ rounds, List.Forall₂ (IsRound clock bkMs) (consumed s.events) rounds ∧
    s.events <+: rounds.flatten ++ [.notifyAll] ∧ (s.pc = .head → s.events = rounds.flatten)
  rounds : s.InRounds clock bkMs
  /-- `do_read` notifies once, at its end. -/
  notified : s.pc = .done → ∃ before, s.events = before ++ [.notifyAll] ∧ .notifyAll ∉ before
  notNotified : s.pc ≠ .done → .notifyAll ∉ s.events
  /-- The reader is out of its loop only when the head has read the flag as raised. -/
  left : s.pc = .notify ∨ s.pc = .done → s.stop = true
  /-- From then on, and with the flag raised at any other place but in `consume`, no result is
  consumed any more. -/
  stopped : s.stop = true → s.pc ≠ .consume → ∀ as t,
    run (loopStep clock bkMs) s as = some t → consumed t.events = consumed s.events
  /-- Until it has returned, the reader can go on. -/
  goesOn : s.pc ≠ .done → ∀ result, (loopStep clock bkMs s (.read result)).isSome

/-- The events are a beginning of the rounds of the results consumed so far. -/
theorem Loop.InRounds.order (h : s.InRounds clock bkMs) :
    ∃ rounds, List.Forall₂ (IsRound clock bkMs) (consumed s.events) rounds ∧
      s.events <+: rounds.flatten ++ [.notifyAll] ∧ (s.pc = .head → s.events = rounds.flatten) := by
  refine ⟨(consumed s.events).map (readRound clock bkMs), ?_, ?_, ?_⟩
  · rw [List.forall₂_map_right_iff, List.forall₂_same]
    exact fun result _ => isRound_readRound clock bkMs result
  · unfold Loop.InRounds at h
    rw [← List.flatMap_def]
    by_cases hdone : s.pc = .done
    · rw [if_pos hdone] at h
      exact ⟨_, h⟩
    · rw [if_neg hdone, List.append_nil] at h
      exact ⟨s.pc.rest clock bkMs ++ [.notifyAll], by rw [← List.append_assoc, h]⟩
  · intro hhead
    rw [Loop.InRounds, hhead, if_neg (by simp)] at h
    simpa [ReaderPc.rest, List.flatMap_def] using h

/-- Every run of `do_read`, whatever `consume` returns and whenever `_stop` is raised. -/
theorem do_read_loop (clock : Clock) (bkMs : Int32) (stop : Bool) (as : List LoopAction)
    (s : Loop) (hrun : run (loopStep clock bkMs) (Loop.enter stop) as = some s) :
    ReadLoop clock bkMs s := by
  have hrounds := Loop.inRounds_of_run hrun
  refine ⟨?_, fun _ => ReaderPc.place_of_pending, ?_, hrounds.order, hrounds, ?_, ?_,
    stop_of_left hrun, ?_, ?_⟩
  · rw [← filterMap_readable]
    exact hrounds.callbacks
  · intro msg herr hpayload hplace as' t hrun' hdone
    have hpending : s.pc.pending = some msg := by
      rcases hplace with hpc | hpc <;> rw [hpc]
      · exact readable_eq_some_iff.mpr ⟨rfl, herr, hpayload⟩
      · rfl
    exact hrounds.delivered hpending hrun' hdone
  · intro hdone
    refine ⟨(consumed s.events).flatMap (readRound clock bkMs), ?_,
      notifyAll_not_mem_rounds clock bkMs _⟩
    have hrest : s.pc.rest clock bkMs = [] := by rw [hdone]; rfl
    rwa [Loop.InRounds, if_pos hdone, hrest, List.append_nil] at hrounds
  · intro hnot hmem
    rw [Loop.InRounds, if_neg hnot, List.append_nil] at hrounds
    apply notifyAll_not_mem_rounds clock bkMs (consumed s.events)
    rw [← hrounds]
    exact List.mem_append_left _ hmem
  · intro hstop hpc as' t hrun'
    exact consumed_of_stopped hrun' hstop hpc
  · intro hnot result
    simp only [loopStep, readerStep, Option.isSome_map]
    cases hpc : s.pc with
    | got result => cases result <;> rfl
    | done => exact absurd hpc hnot
    | _ => rfl

/-- A message of one byte. -/
def oneByte : Message := ⟨.ERR_NO_ERROR, [7], 0⟩

/-- The event with which librdkafka ends a `consume` that has received nothing in time. -/
def idleTimeout : Message := ⟨.ERR__TIMED_OUT, [], 0⟩

/-- The reader gets a message, is told to stop in its callback, and returns. -/
def readOneByte : List LoopAction :=
  [.read none, .read (some oneByte), .read none, .raiseStop, .read none, .read none,
    .read none, .read none]

/-- The run with one message. -/
theorem do_read_loop_one_byte :
    ∃ s, run (loopStep .hundredNanoseconds 1000) (Loop.enter false) readOneByte = some s ∧
      s.pc = .done ∧ ReadLoop .hundredNanoseconds 1000 s :=
  ⟨_, rfl, rfl, do_read_loop .hundredNanoseconds 1000 false readOneByte _ rfl⟩

/-! ## The message objects -/

/-- Places at which the local variable `msg` points to an object that has not been deleted. -/
def ReaderPc.Holds : ReaderPc → Prop
  | .got (some _) | .callback _ | .delete _ => True
  | _ => False

/-- The number of objects that the reader will still delete in its round. -/
def ReaderPc.due : ReaderPc → Nat
  | .got result => (readable result).toList.length
  | .callback _ | .delete _ => 1
  | _ => 0

/-- What the numbers of the message objects say about the run. -/
structure Loop.Objects (s : Loop) : Prop where
  ascending : s.deleted.Pairwise (· < ·)
  old : ∀ i ∈ s.deleted, i < s.handed
  /-- The object in hand is the last one handed over. -/
  inHand : s.pc.Holds → ∃ i, s.msg = some i ∧ s.handed = i + 1 ∧ ∀ j ∈ s.deleted, j < i
  deleted : s.deleted.length + s.pc.due = ((consumed s.events).filterMap readable).length
  handed : s.handed = ((consumed s.events).filterMap id).length

theorem Loop.Objects.enter (stop : Bool) : (Loop.enter stop).Objects := by
  refine ⟨List.Pairwise.nil, ?_, ?_, rfl, rfl⟩
  · intro i hi
    cases hi
  · intro hholds
    exact hholds.elim

/-- Only `consume` and `delete` do something to message objects. -/
theorem Loop.objects_eq {result : Option Message} (hconsume : s.pc ≠ .consume)
    (hdelete : ∀ msg, s.pc ≠ .delete msg) : s.objects result = s := by
  unfold Loop.objects
  split
  · exact absurd ‹_› hconsume
  · exact absurd ‹_› (hdelete _)
  · rfl

/-- Any other step keeps the object in hand and what is due. -/
theorem ReaderPc.next_due {stop : Bool} {result : Option Message} {pc pc' : ReaderPc}
    (h : pc.next stop result = some pc') (hconsume : pc ≠ .consume)
    (hdelete : ∀ msg, pc ≠ .delete msg) : (pc'.Holds → pc.Holds) ∧ pc'.due = pc.due := by
  cases pc with
  | consume => exact absurd rfl hconsume
  | delete msg => exact absurd rfl (hdelete msg)
  | head => cases stop <;> cases h <;> exact ⟨False.elim, rfl⟩
  | got result' =>
    rw [ReaderPc.next_got] at h
    cases h
    rw [ReaderPc.due]
    cases hread : readable result' with
    | none => exact ⟨False.elim, rfl⟩
    | some msg =>
      rw [(readable_eq_some.mp hread).1]
      exact ⟨fun _ => trivial, rfl⟩
  | callback msg =>
    cases h
    exact ⟨fun _ => trivial, rfl⟩
  | notify =>
    cases h
    exact ⟨False.elim, rfl⟩
  | done => cases h

/-- A step that leaves objects and results alone. -/
theorem Loop.Objects.frame (hs : s.Objects) {pc : ReaderPc} {events : List ReadEvent}
    (hholds : pc.Holds → s.pc.Holds) (hdue : pc.due = s.pc.due) (hevents : consumed events = []) :
    ({ s with pc := pc, events := s.events ++ events } : Loop).Objects := by
  refine ⟨hs.ascending, hs.old, fun h => hs.inHand (hholds h), ?_, ?_⟩
  · show s.deleted.length + pc.due = _
    rw [hdue, hs.deleted, consumed_append, hevents, List.append_nil]
  · show s.handed = _
    rw [hs.handed, consumed_append, hevents, List.append_nil]

theorem Loop.Objects.consume (hs : s.Objects) (hpc : s.pc = .consume) (bkMs : Int32)
    (result : Option Message) :
    ({ s.objects result with
      pc := .got result, events := s.events ++ [.consume bkMs result] } : Loop).Objects := by
  have hdeleted := hs.deleted
  rw [hpc] at hdeleted
  cases result with
  | none =>
    simp only [Loop.objects, hpc]
    refine ⟨hs.ascending, hs.old, False.elim, ?_, ?_⟩
    · simpa [List.filterMap_cons, ReaderPc.due] using hdeleted
    · simpa using hs.handed
  | some msg =>
    simp only [Loop.objects, hpc]
    refine ⟨hs.ascending, ?_, ?_, ?_, ?_⟩
    · intro i hi
      exact Nat.lt_succ_of_lt (hs.old i hi)
    · intro _
      exact ⟨s.handed, rfl, rfl, hs.old⟩
    · show s.deleted.length + (readable (some msg)).toList.length = _
      rw [consumed_append, consumed_consume, List.filterMap_append, List.length_append,
        ← hdeleted]
      cases hread : readable (some msg) <;> simp [hread, ReaderPc.due]
    · simpa using hs.handed

theorem Loop.Objects.delete (hs : s.Objects) {msg : Message} (hpc : s.pc = .delete msg)
    (result : Option Message) :
    ({ s.objects result with
      pc := .head, events := s.events ++ [.delete msg] } : Loop).Objects := by
  have hholds : s.pc.Holds := by rw [hpc]; trivial
  obtain ⟨i, hmsg, hhanded, hbelow⟩ := hs.inHand hholds
  have hdeleted := hs.deleted
  rw [hpc] at hdeleted
  simp only [Loop.objects, hpc, hmsg, Option.toList_some]
  refine ⟨?_, ?_, False.elim, ?_, ?_⟩
  · rw [List.pairwise_append]
    refine ⟨hs.ascending, List.pairwise_singleton _ _, ?_⟩
    intro j hj k hk
    rw [List.mem_singleton.mp hk]
    exact hbelow j hj
  · intro j hj
    rcases List.mem_append.mp hj with hj | hj
    · exact hs.old j hj
    · rw [List.mem_singleton.mp hj]
      show i < s.handed
      omega
  · rw [consumed_append]
    simpa [ReaderPc.due] using hdeleted
  · rw [consumed_append]
    simpa using hs.handed

theorem Loop.Objects.step {a : LoopAction} (hs : s.Objects)
    (h : loopStep clock bkMs s a = some t) : t.Objects := by
  cases a with
  | raiseStop =>
    cases h
    exact ⟨hs.ascending, hs.old, hs.inHand, hs.deleted, hs.handed⟩
  | read result =>
    obtain ⟨pc, hnext, rfl⟩ := loopStep_read h
    by_cases hconsume : s.pc = .consume
    · rw [hconsume] at hnext ⊢
      cases hnext
      exact hs.consume hconsume bkMs result
    · by_cases hdelete : ∃ msg, s.pc = .delete msg
      · obtain ⟨msg, hdelete⟩ := hdelete
        rw [hdelete] at hnext ⊢
        cases hnext
        exact hs.delete hdelete result
      · have hkeep := not_exists.mp hdelete
        obtain ⟨hholds, hdue⟩ := ReaderPc.next_due hnext hconsume hkeep
        rw [Loop.objects_eq hconsume hkeep]
        exact hs.frame hholds hdue (ReaderPc.consumed_event clock bkMs result hconsume)

theorem Loop.objects_of_run {stop : Bool} {as : List LoopAction}
    (hrun : run (loopStep clock bkMs) (Loop.enter stop) as = some s) : s.Objects :=
  run_invariant (fun _ _ _ hs h => hs.step h) hrun (Loop.Objects.enter stop)

/-- As many results are readable as are messages exactly when no message is rejected. -/
theorem length_filterMap_readable (results : List (Option Message)) :
    (results.filterMap readable).length = (results.filterMap id).length ↔
      ∀ msg, some msg ∈ results → msg.err = .ERR_NO_ERROR ∧ msg.payload ≠ [] := by
  rw [filterMap_readable, List.length_filter_eq_length_iff]
  simp

/-! ## When every message is released -/

/-- Every object handed over has been deleted once, and nothing else has been. -/
def Loop.Released (s : Loop) : Prop :=
  s.deleted.length = s.handed ∧ s.deleted.Nodup ∧ ∀ i ∈ s.deleted, i < s.handed

instance (s : Loop) : Decidable s.Released :=
  inferInstanceAs (Decidable (_ ∧ _))

/-- The step does not hand over a message with an error or without bytes. -/
def KeepsMessage (s : Loop) (a : LoopAction) : Prop :=
  ∀ msg, s.pc = .consume → a = .read (some msg) → msg.err = .ERR_NO_ERROR ∧ msg.payload ≠ []

theorem forall_some_mem_append {P : Message → Prop} {xs ys : List (Option Message)} :
    (∀ msg, some msg ∈ xs ++ ys → P msg) ↔
      (∀ msg, some msg ∈ xs → P msg) ∧ ∀ msg, some msg ∈ ys → P msg := by
  simp only [List.mem_append, or_imp, forall_and]

theorem consumed_step {a : LoopAction} (h : loopStep clock bkMs s a = some t) :
    (∀ msg, some msg ∈ consumed t.events → msg.err = .ERR_NO_ERROR ∧ msg.payload ≠ []) ↔
      (∀ msg, some msg ∈ consumed s.events → msg.err = .ERR_NO_ERROR ∧ msg.payload ≠ []) ∧
        KeepsMessage s a := by
  cases a with
  | raiseStop =>
    cases h
    simp [KeepsMessage]
  | read result =>
    obtain ⟨pc, -, rfl⟩ := loopStep_read h
    rw [consumed_append, forall_some_mem_append]
    apply and_congr_right
    intro _
    by_cases hconsume : s.pc = .consume
    · simp only [hconsume, ReaderPc.event, consumed_consume, List.mem_singleton, KeepsMessage,
        LoopAction.read.injEq, true_implies]
      exact forall_congr' fun msg => imp_congr_left eq_comm
    · simp [ReaderPc.consumed_event clock bkMs result hconsume, KeepsMessage, hconsume]

/-- A run hands over rejected messages only in steps that break the guard. -/
theorem meets_keepsMessage_iff {as : List LoopAction}
    (hrun : run (loopStep clock bkMs) s as = some t) :
    (∀ msg, some msg ∈ consumed t.events → msg.err = .ERR_NO_ERROR ∧ msg.payload ≠ []) ↔
      (∀ msg, some msg ∈ consumed s.events → msg.err = .ERR_NO_ERROR ∧ msg.payload ≠ []) ∧
        Meets (loopStep clock bkMs) KeepsMessage s as := by
  induction as generalizing s with
  | nil =>
    cases hrun
    simp
  | cons a as ih =>
    obtain ⟨m, ha, hm⟩ := run_cons_eq_some.mp hrun
    rw [ih hm, consumed_step ha, and_assoc]
    apply and_congr_right
    intro _
    apply and_congr_right
    intro _
    constructor
    · intro hmeets u hu
      rw [ha] at hu
      cases hu
      exact hmeets
    · intro hmeets
      exact hmeets m ha

/-- Back at the loop head, or when it has returned, `do_read` has released every message object
exactly when it has never been handed one that it rejects. -/
theorem released_iff_none_rejected (clock : Clock) (bkMs : Int32) (stop : Bool)
    (as : List LoopAction) (s : Loop)
    (hrun : run (loopStep clock bkMs) (Loop.enter stop) as = some s)
    (hpc : s.pc = .head ∨ s.pc = .done) :
    s.Released ↔ Meets (loopStep clock bkMs) KeepsMessage (Loop.enter stop) as := by
  have hs := Loop.objects_of_run hrun
  have hdue : s.pc.due = 0 := by
    rcases hpc with hpc | hpc <;> rw [hpc] <;> rfl
  have hdeleted := hs.deleted
  rw [hdue, Nat.add_zero] at hdeleted
  have hmeets := meets_keepsMessage_iff hrun
  have hnil : ∀ msg, some msg ∈ consumed (Loop.enter stop).events →
      msg.err = .ERR_NO_ERROR ∧ msg.payload ≠ [] := fun msg hmsg => absurd hmsg List.not_mem_nil
  rw [and_iff_right hnil, ← length_filterMap_readable (consumed s.events), ← hdeleted,
    ← hs.handed] at hmeets
  rw [← hmeets, Loop.Released]
  refine ⟨And.left, fun h => ⟨h, hs.ascending.imp Nat.ne_of_lt, hs.old⟩⟩

/-- An idle timeout leaves an object behind. -/
theorem timed_out_not_released :
    ¬ ∀ clock bkMs stop as s, run (loopStep clock bkMs) (Loop.enter stop) as = some s →
      s.pc = .head ∨ s.pc = .done → s.Released := by
  intro hclaim
  have hreleased := hclaim .hundredNanoseconds 1000 false
    [.read none, .read (some idleTimeout), .read none] _ rfl (.inl rfl)
  exact absurd hreleased (by decide)

/-- The condition at the run with one message. -/
theorem released_iff_none_rejected_one_byte :
    ∃ s, run (loopStep .hundredNanoseconds 1000) (Loop.enter false) readOneByte = some s ∧
      (s.Released ↔ Meets (loopStep .hundredNanoseconds 1000) KeepsMessage (Loop.enter false)
        readOneByte) ∧ s.Released :=
  ⟨_, rfl, released_iff_none_rejected .hundredNanoseconds 1000 false readOneByte _ rfl (.inr rfl),
    by decide⟩

end TsKafka.BasicConsumer
