import TsKafka.BasicConsumer.Teardown
import TsKafka.BasicConsumer.ReadLoop
import TsKafka.Library.Observation

/-!
# The reader thread among the others

Whatever calls of `stop` and `wait` other threads and the callback make, and however they
interleave with the reader, the reader carries out `do_read`: it makes the steps of the loop of
`TsKafka.BasicConsumer.ReadLoop` and no others, and the only thing it sees of the others is the
moment at which `_stop` is raised.
-/

namespace TsKafka.BasicConsumer
open RdKafka PartialRun

variable {τ : Type}

/-- What `consume` returns in a step. -/
def State.consumeReturns (s : State τ) : Action τ → List (Option Message)
  | .reader result =>
    if s.reader = .consume ∧ s.bc.consumer.isSome ∧ s.bc.queue.isSome then [result] else []
  | _ => []

/-- The message that the callback is running for. -/
def ReaderPc.calledFor : ReaderPc → Option Message
  | .callback msg => some msg
  | _ => none

/-- The message of the callback that a step begins. -/
def State.callbackBegins [DecidableEq τ] (s : State τ) : Action τ → List Message
  | .reader result => ((s.readerStep result).bind fun t => t.reader.calledFor).toList
  | _ => []

/-- The reader is where `l` is in `do_read`, and has received `results` from `consume`. -/
structure State.ReadsAs (s : State τ) (results : List (Option Message)) (l : Loop) : Prop where
  pc : l.pc = s.reader
  stop : l.stop = s.bc.stop
  received : consumed l.events = results
  /-- The callbacks begun are those that the loop has made, and the one it is in. -/
  begun : s.begun = (callbacks l.events).length + if s.reader.inCallback then 1 else 0

theorem readsAs_launched (bc : Members) :
    (launched τ bc).ReadsAs [] (Loop.enter bc.stop) :=
  ⟨rfl, rfl, rfl, rfl⟩

theorem length_callbacks_event (clock : Clock) (bkMs : Int32) (result : Option Message)
    (pc : ReaderPc) :
    (callbacks (pc.event clock bkMs result)).length = if pc.inCallback then 1 else 0 := by
  cases pc <;> rfl

section Steps

variable [DecidableEq τ] {clock : Clock} {bkMs : Int32} {s t : State τ}
  {results : List (Option Message)} {l : Loop}

omit [DecidableEq τ] in
/-- A step that neither the reader nor the flag takes part in. -/
theorem State.ReadsAs.congr (h : s.ReadsAs results l) (hreader : t.reader = s.reader)
    (hstop : t.bc.stop = s.bc.stop) (hbegun : t.begun = s.begun) : t.ReadsAs results l := by
  refine ⟨h.pc.trans hreader.symm, h.stop.trans hstop.symm, h.received, ?_⟩
  rw [hbegun, h.begun, hreader]

omit [DecidableEq τ] in
theorem State.begun_readerAt (s : State τ) (pc : ReaderPc) :
    (s.readerAt pc).begun = s.begun + if pc.inCallback then 1 else 0 := by
  unfold State.readerAt
  split <;> split <;> rfl

omit [DecidableEq τ] in
/-- The reader's step is the loop's step. -/
theorem State.ReadsAs.reader (clock : Clock) (bkMs : Int32) (h : s.ReadsAs results l)
    {result : Option Message} {pc : ReaderPc}
    (hpc : s.reader.next s.bc.stop result = some pc) :
    ∃ l', loopStep clock bkMs l (.read result) = some l' ∧
      (s.readerAt pc).ReadsAs (results ++ if s.reader = .consume then [result] else []) l' := by
  have hnext : l.pc.next l.stop result = some pc := by rw [h.pc, h.stop, hpc]
  refine ⟨{ l.objects result with
    pc := pc, events := l.events ++ l.pc.event clock bkMs result }, ?_, ?_⟩
  · simp [loopStep, BasicConsumer.readerStep, hnext]
  have hbc : (s.readerAt pc).bc = s.bc := by
    unfold State.readerAt
    split <;> rfl
  refine ⟨rfl, ?_, ?_, ?_⟩
  · rw [hbc]
    exact (l.objects_stop result).trans h.stop
  · show consumed (l.events ++ _) = _
    rw [consumed_append, h.received, h.pc]
    congr 1
    split
    · rw [‹s.reader = .consume›]
      rfl
    · exact ReaderPc.consumed_event clock bkMs result ‹_›
  · show (s.readerAt pc).begun = (callbacks (l.events ++ _)).length + if pc.inCallback then 1 else 0
    rw [s.begun_readerAt, h.begun, callbacks_append, List.length_append, h.pc,
      length_callbacks_event]

/-- A step of a call of `stop` is no step of the reader's loop, or raises the flag for it. -/
theorem State.ReadsAs.stopStep (h : s.ReadsAs results l) {c : Caller τ} {pc : StopPc}
    (hstep : StopStep s c pc t) :
    ∃ bs l', run (loopStep clock bkMs) l bs = some l' ∧ t.ReadsAs results l' := by
  cases hstep with
  | store =>
    refine ⟨[.raiseStop], { l with stop := true }, run_singleton rfl, h.pc, rfl, h.received, ?_⟩
    exact h.begun
  | _ => exact ⟨[], l, rfl, h.congr rfl rfl rfl⟩

omit [DecidableEq τ] in
/-- Without a handle the reader receives nothing. -/
theorem consumeReturns_of_fault (result : Option Message)
    (hhandle : s.bc.consumer = none ∨ s.bc.queue = none) :
    s.consumeReturns (.reader result) = [] := by
  rw [State.consumeReturns, if_neg]
  rintro ⟨-, hconsumer, hqueue⟩
  rcases hhandle with hnone | hnone
  · rw [hnone] at hconsumer
    cases hconsumer
  · rw [hnone] at hqueue
    cases hqueue

omit [DecidableEq τ] in
/-- The reader lacks a handle for its call of `consume`, or goes on in `do_read`. -/
theorem readerStep_eq_some {result : Option Message} (h : s.readerStep result = some t) :
    ((s.bc.consumer = none ∨ s.bc.queue = none) ∧ s.reader = .consume ∧
      ∃ fault, t = { s with fault := some fault }) ∨
    ∃ pc, s.reader.next s.bc.stop result = some pc ∧ t = s.readerAt pc ∧
      s.consumeReturns (.reader result) = if s.reader = .consume then [result] else [] := by
  simp only [State.readerStep] at h
  split at h
  · rename_i hguard
    cases h
    exact .inl ⟨.inl (Option.isNone_iff_eq_none.mp hguard.2), hguard.1, _, rfl⟩
  · rename_i hconsumer
    split at h
    · rename_i hguard
      cases h
      exact .inl ⟨.inr (Option.isNone_iff_eq_none.mp hguard.2), hguard.1, _, rfl⟩
    · rename_i hqueue
      split at h
      · cases h
      · obtain ⟨pc, hpc, rfl⟩ := Option.map_eq_some_iff.mp h
        refine .inr ⟨pc, hpc, rfl, ?_⟩
        unfold State.consumeReturns
        refine if_congr ⟨And.left, fun hc => ⟨hc, ?_, ?_⟩⟩ rfl rfl
        · exact Option.isSome_iff_ne_none.mpr fun hnone => hconsumer ⟨hc, by simp [hnone]⟩
        · exact Option.isSome_iff_ne_none.mpr fun hnone => hqueue ⟨hc, by simp [hnone]⟩

omit [DecidableEq τ] in
theorem State.ReadsAs.readerStep (h : s.ReadsAs results l) {result : Option Message}
    (hstep : s.readerStep result = some t) :
    ∃ bs l', run (loopStep clock bkMs) l bs = some l' ∧
      t.ReadsAs (results ++ s.consumeReturns (.reader result)) l' := by
  rcases readerStep_eq_some hstep with ⟨hhandle, -, fault, rfl⟩ | ⟨pc, hpc, rfl, hreturns⟩
  · rw [consumeReturns_of_fault result hhandle, List.append_nil]
    exact ⟨[], l, rfl, h.congr rfl rfl rfl⟩
  · obtain ⟨l', hl', hreads⟩ := h.reader clock bkMs hpc
    rw [hreturns]
    exact ⟨[_], l', run_singleton hl', hreads⟩

theorem State.ReadsAs.step (h : s.ReadsAs results l) {a : Action τ}
    (hstep : BasicConsumer.step s a = some t) :
    ∃ bs l', run (loopStep clock bkMs) l bs = some l' ∧
      t.ReadsAs (results ++ s.consumeReturns a) l' := by
  obtain ⟨hfault, hcases⟩ := Step.of_step hstep
  cases a with
  | reader result =>
    rw [BasicConsumer.step, hfault] at hstep
    exact h.readerStep hstep
  | call c =>
    simp only [State.consumeReturns, List.append_nil]
    cases hcases with
    | stopCall c pc s' hpc hstep => exact h.stopStep hstep
    | waitCall c pc s' hpc hstep => cases hstep <;> exact ⟨[], l, rfl, h.congr rfl rfl rfl⟩
  | _ =>
    simp only [State.consumeReturns, List.append_nil]
    cases hcases
    exact ⟨[], l, rfl, h.congr rfl rfl rfl⟩

end Steps

/-! ## The messages of the callbacks -/

/-- The result that the reader has got and not looked at, if it is one for the callback. -/
def ReaderPc.untested : ReaderPc → List Message
  | .got result => (readable result).toList
  | _ => []

/-- The callbacks that have begun are for the results that are not rejected, in their order, but
for one that the reader has not looked at yet. -/
def State.CalledBack (s : State τ) (results : List (Option Message)) (begun : List Message) :
    Prop :=
  begun ++ s.reader.untested = results.filterMap readable ∧ s.begun = begun.length

theorem ReaderPc.next_untested {stop : Bool} {result : Option Message} {pc pc' : ReaderPc}
    (h : pc.next stop result = some pc') :
    pc'.calledFor.toList ++ pc'.untested =
      pc.untested ++ (if pc = .consume then [result] else []).filterMap readable := by
  cases pc with
  | head => cases stop <;> cases h <;> rfl
  | got result' =>
    rw [ReaderPc.next_got] at h
    cases h
    rw [ReaderPc.untested]
    cases readable result' <;> rfl
  | consume =>
    cases h
    simp only [if_true, ReaderPc.untested, ReaderPc.calledFor, List.filterMap_cons]
    cases readable result <;> rfl
  | done => cases h
  | _ =>
    cases h
    rfl

theorem length_calledFor (pc : ReaderPc) :
    pc.calledFor.toList.length = if pc.inCallback then 1 else 0 := by
  cases pc <;> rfl

section CalledBack

variable [DecidableEq τ] {s t : State τ} {results : List (Option Message)} {begun : List Message}

omit [DecidableEq τ] in
/-- A step that the reader takes no part in. -/
theorem State.CalledBack.congr (h : s.CalledBack results begun) (hreader : t.reader = s.reader)
    (hbegun : t.begun = s.begun) : t.CalledBack (results ++ []) (begun ++ []) := by
  rw [List.append_nil, List.append_nil, State.CalledBack, hreader, hbegun]
  exact h

theorem State.CalledBack.readerStep (h : s.CalledBack results begun) {result : Option Message}
    (hstep : s.readerStep result = some t) :
    t.CalledBack (results ++ s.consumeReturns (.reader result))
      (begun ++ s.callbackBegins (.reader result)) := by
  have hbegins : s.callbackBegins (.reader result) = t.reader.calledFor.toList := by
    rw [State.callbackBegins, hstep]
    rfl
  rw [hbegins]
  rcases readerStep_eq_some hstep with ⟨hhandle, hreader, fault, rfl⟩ | ⟨pc, hpc, rfl, hreturns⟩
  · have hnone : s.reader.calledFor = none := by rw [hreader]; rfl
    rw [consumeReturns_of_fault result hhandle]
    show State.CalledBack _ _ (begun ++ s.reader.calledFor.toList)
    rw [hnone]
    exact h.congr rfl rfl
  · have hreader : (s.readerAt pc).reader = pc := rfl
    rw [hreturns, hreader]
    refine ⟨?_, ?_⟩
    · rw [hreader, List.append_assoc, ReaderPc.next_untested hpc, ← List.append_assoc, h.1,
        List.filterMap_append]
    · rw [s.begun_readerAt, h.2, List.length_append, length_calledFor]

theorem State.CalledBack.step (h : s.CalledBack results begun) {a : Action τ}
    (hstep : BasicConsumer.step s a = some t) :
    t.CalledBack (results ++ s.consumeReturns a) (begun ++ s.callbackBegins a) := by
  obtain ⟨hfault, hcases⟩ := Step.of_step hstep
  cases a with
  | reader result =>
    rw [BasicConsumer.step, hfault] at hstep
    exact h.readerStep hstep
  | call c =>
    cases hcases with
    | stopCall c pc s' hpc hstep => cases hstep <;> exact h.congr rfl rfl
    | waitCall c pc s' hpc hstep => cases hstep <;> exact h.congr rfl rfl
  | _ =>
    cases hcases
    exact h.congr rfl rfl

end CalledBack

/-- What the reader of a consumer has done, told as a run of `do_read`. -/
structure IsDoRead (clock : Clock) (bkMs : Int32) (bc : Members) (s : State τ)
    (results : List (Option Message)) (begun : List Message) : Prop where
  /-- `do_read` next to a thread that raises the flag comes to the reader's place, having consumed
  the same results and made the same callbacks, the one it is in included. -/
  loop : ∃ bs l, run (loopStep clock bkMs) (Loop.enter bc.stop) bs = some l ∧
    s.ReadsAs results l ∧ begun.map (callbackArgs clock) =
      callbacks l.events ++ (s.reader.calledFor.map (callbackArgs clock)).toList
  /-- The callbacks begun are for the results that are not rejected, in their order, but for one
  that the reader holds and has not looked at yet. -/
  begun : s.CalledBack results begun

/-- In every interleaving of the reader with calls of `stop` and `wait`, made in any number by any
threads and by the callback itself, the reader carries out `do_read`. -/
theorem reader_is_do_read [DecidableEq τ] (clock : Clock) (bkMs : Int32) (bc : Members)
    (as : List (Action τ)) (s : State τ) (hrun : run step (launched τ bc) as = some s) :
    IsDoRead clock bkMs bc s (observed step State.consumeReturns (launched τ bc) as)
      (observed step State.callbackBegins (launched τ bc) as) := by
  have hboth : s.CalledBack ([] ++ observed step State.consumeReturns (launched τ bc) as)
      ([] ++ observed step State.callbackBegins (launched τ bc) as) ∧
      ∃ bs l, run (loopStep clock bkMs) (Loop.enter bc.stop) bs = some l ∧
        s.ReadsAs ([] ++ observed step State.consumeReturns (launched τ bc) as) l := by
    apply observed_invariant₂ (I := fun s results begun => State.CalledBack s results begun ∧
      ∃ bs l, run (loopStep clock bkMs) (Loop.enter bc.stop) bs = some l ∧ s.ReadsAs results l)
      ?_ hrun
    · exact ⟨⟨rfl, rfl⟩, [], _, rfl, readsAs_launched bc⟩
    · rintro s results begun a t ⟨hcalled, bs, l, hbs, h⟩ hstep
      obtain ⟨cs, l', hcs, h'⟩ := h.step hstep
      exact ⟨hcalled.step hstep, bs ++ cs, l', run_append_eq_some.mpr ⟨l, hbs, hcs⟩, h'⟩
  simp only [List.nil_append] at hboth
  obtain ⟨hcalled, bs, l, hbs, h⟩ := hboth
  refine ⟨⟨bs, l, hbs, h, ?_⟩, hcalled⟩
  have hcallbacks := (Loop.inRounds_of_run hbs).callbacks
  rw [h.received, ← hcalled.1, h.pc, List.map_append] at hcallbacks
  cases hpc : s.reader with
  | got result =>
    -- what the loop has still to call back for is what has not begun
    have hlast : (ReaderPc.got result).untested.map (callbackArgs clock) =
        ((readable result).map (callbackArgs clock)).toList := by
      rw [ReaderPc.untested]
      cases readable result <;> rfl
    rw [hpc, hlast] at hcallbacks
    simpa [ReaderPc.calledFor] using (List.append_cancel_right hcallbacks).symm
  | _ => simpa [hpc, ReaderPc.pending, ReaderPc.untested, ReaderPc.calledFor] using hcallbacks.symm

/-- A timeout, and then a message that arrives when another thread has already raised `_stop`. -/
def messageAfterStop : List (Action Bool) :=
  [.reader none, .reader none, .reader none, .wait (.thread false), .reader none,
    .call (.thread false), .stop (.thread true), .call (.thread true), .call (.thread true),
    .reader (some oneByte), .call (.thread true), .reader none]

theorem reader_is_do_read_messageAfterStop :
    ∃ s, twoThreads messageAfterStop = some s ∧ s.begun = 1 ∧
      IsDoRead .hundredNanoseconds 1000 startedOnce.bc s [none, some oneByte] [oneByte] :=
  ⟨_, rfl, rfl, reader_is_do_read .hundredNanoseconds 1000 startedOnce.bc messageAfterStop _ rfl⟩

end TsKafka.BasicConsumer
