import TsKafka.BasicProducer.Threads
import TsKafka.Library.WriterLog

/-!
# Concurrent pushes add to one log

Every interleaving of pushes is matched by a run of the abstract store of
`TsKafka.Library.WriterLog`, in which each push is one operation. A push takes effect there when
`produce` accepts its record, or else when its switch returns `busy` or `error`; between the
acceptance and the return the operation is performed and the call still in progress.
-/

namespace TsKafka.BasicProducer
open RdKafka PartialRun WriterLog

variable {τ : Type} [DecidableEq τ]

/-- The write that the call in progress of thread `t` has already performed. -/
def State.committed (s : State τ) (t : τ) : List (Write TimedDataRaw ProducerStatus) :=
  (((s.frame t).filter Frame.committed).map fun f => ⟨f.data, .ok⟩).toList

/-- A returned call as a write. -/
def Returned.write (r : Returned) : Write TimedDataRaw ProducerStatus := ⟨r.data, r.status⟩

/-- The record that an accepted, not yet returned call of thread `t` has added. -/
def State.pending (clock : Clock) (s : State τ) (t : τ) : List ProduceArgs :=
  (((s.frame t).filter Frame.committed).map fun f => produceArgs clock s.topic f.data).toList

abbrev PushStore (τ : Type) := Store τ TimedDataRaw ProduceArgs ProducerStatus

/-- Each push as one operation on the abstract store. -/
def atomicPush (clock : Clock) (topic : String) :
    PushStore τ → τ × Write TimedDataRaw ProducerStatus → Option (PushStore τ) :=
  Store.perform (produceArgs clock topic) (· = .ok)

/-- The store that a state of the threads stands for. -/
structure Refines (topic : String) (s : State τ) (store : PushStore τ) : Prop where
  topic : s.topic = topic
  entries : store.entries = s.accepted
  performed : ∀ t, byWriter t store.performed =
    (byWriter t s.returned).map Returned.write ++ s.committed t

theorem refines_connected (topic : String) (stop : Bool) :
    Refines topic (connected τ topic stop) Store.empty :=
  ⟨rfl, rfl, fun _ => rfl⟩

/-- A step that leaves the log, the returned calls and what the frames have committed. -/
theorem Refines.frame {topic : String} {s s' : State τ} {store : PushStore τ}
    (h : Refines topic s store) (htopic : s'.topic = s.topic) (haccepted : s'.accepted = s.accepted)
    (hreturned : s'.returned = s.returned) (hcommitted : ∀ t, s'.committed t = s.committed t) :
    Refines topic s' store where
  topic := htopic.trans h.topic
  entries := h.entries.trans haccepted.symm
  performed t := by rw [hreturned, hcommitted, h.performed]

/-- What a new frame of thread `t` does to the committed writes. -/
theorem committed_setFrame (s : State τ) (t u : τ) (f : Frame) :
    (s.setFrame t f).committed u =
      if u = t then (if f.committed then [⟨f.data, .ok⟩] else []) else s.committed u := by
  by_cases hu : u = t
  · subst hu
    cases hf : f.committed <;> simp [State.committed, State.setFrame, Option.filter, hf]
  · simp [State.committed, State.setFrame, hu]

omit [DecidableEq τ] in
theorem committed_of_frame {s : State τ} {t : τ} {f : Frame} (hframe : s.frame t = some f) :
    s.committed t = if f.committed then [⟨f.data, .ok⟩] else [] := by
  cases hf : f.committed <;> simp [State.committed, hframe, Option.filter, hf]

/-- A frame that changes without its push taking effect. -/
theorem Refines.setFrame {topic : String} {s : State τ} {store : PushStore τ}
    (h : Refines topic s store) {t : τ} {f f' : Frame} (hframe : s.frame t = some f)
    (hdata : f'.data = f.data) (hcommitted : f'.committed = f.committed) :
    Refines topic (s.setFrame t f') store := by
  refine h.frame rfl rfl rfl fun u => ?_
  rw [committed_setFrame, hdata, hcommitted]
  split
  · subst u
    rw [committed_of_frame hframe]
  · rfl

/-- The call of thread `t` returns a status that its store operation already has. -/
theorem Refines.ret_committed {topic : String} {s : State τ} {store : PushStore τ}
    (h : Refines topic s store) {t : τ} {f : Frame} (hframe : s.frame t = some f)
    (hf : f.committed = true) : Refines topic (s.ret t f .ok) store where
  topic := h.topic
  entries := h.entries
  performed u := by
    rw [h.performed]
    by_cases hu : u = t
    · subst hu
      rw [committed_of_frame hframe, if_pos hf]
      simp [State.ret, State.committed, Returned.write]
    · simp [State.ret, State.committed, Function.update_of_ne hu, Ne.symm hu]

/-- The call of thread `t` returns without having added its record: the store performs it. -/
theorem Refines.ret_refused (clock : Clock) {topic : String} {s : State τ} {store : PushStore τ}
    (h : Refines topic s store) {t : τ} {f : Frame} (hframe : s.frame t = some f)
    (hf : f.committed = false) {status : ProducerStatus} (hstatus : status ≠ .ok) :
    ∃ store', atomicPush clock topic store (t, ⟨f.data, status⟩) = some store' ∧
      Refines topic (s.ret t f status) store' := by
  refine ⟨_, rfl, h.topic, ?_, fun u => ?_⟩
  · simp [Write.entry, hstatus, State.ret, h.entries]
  · simp only [byWriter_append, byWriter_singleton, h.performed]
    by_cases hu : u = t
    · subst hu
      rw [committed_of_frame hframe, hf]
      simp [State.ret, State.committed, Returned.write]
    · simp [State.ret, State.committed, Function.update_of_ne hu, Ne.symm hu]

/-- `produce` accepts the record of thread `t`: the store performs the push. -/
theorem Refines.accept (clock : Clock) {topic : String} {s : State τ} {store : PushStore τ}
    (h : Refines topic s store) {t : τ} {f : Frame} (hframe : s.frame t = some f)
    (hpc : f.pc = .produce) :
    ∃ store', atomicPush clock topic store (t, ⟨f.data, .ok⟩) = some store' ∧
      Refines topic (s.produced clock t f .ERR_NO_ERROR) store' := by
  refine ⟨_, rfl, h.topic, ?_, fun u => ?_⟩
  · simp [Write.entry, State.produced, h.entries, h.topic]
  · simp only [byWriter_append, byWriter_singleton, h.performed]
    let g : Frame := { f with pc := .switch .ERR_NO_ERROR, msg := some s.accepted.length }
    change _ = (byWriter u s.returned).map Returned.write ++ (s.setFrame t g).committed u
    rw [committed_setFrame]
    by_cases hu : u = t
    · subst hu
      rw [committed_of_frame hframe]
      simp [Frame.committed, hpc, g]
    · simp [hu, Ne.symm hu]

/-- Every step of the threads is no step, or one operation, of the store. -/
theorem Refines.step [Fintype τ] (clock : Clock) {topic : String} (s : State τ) (a : Action τ)
    (s' : State τ) (store : PushStore τ) (h : Refines topic s store)
    (hstep : step clock s a = some s') :
    ∃ ops store', run (atomicPush clock topic) store ops = some store' ∧
      Refines topic s' store' := by
  cases Step.of_step hstep with
  | call t data hasToken _ hframe =>
    refine ⟨[], store, rfl, h.frame rfl rfl rfl fun u => ?_⟩
    change (s.setFrame t ⟨data, hasToken, .produce, none⟩).committed u = s.committed u
    rw [committed_setFrame]
    split
    · subst u
      simp [State.committed, hframe, Frame.committed]
    · rfl
  | produce t err f hframe hpc _ =>
    by_cases herr : err = .ERR_NO_ERROR
    · subst herr
      obtain ⟨store', hop, hrefines⟩ := h.accept clock hframe hpc
      exact ⟨[_], store', run_singleton hop, hrefines⟩
    · refine ⟨[], store, rfl, ?_⟩
      rw [State.produced, if_neg herr]
      exact h.setFrame hframe rfl (by simp [Frame.committed, hpc, herr])
  | switch t token f err hframe hpc =>
    cases hswitch : switchErr err (f.hasToken && token) with
    | pollOk =>
      have herr := switchErr_eq_pollOk.mp hswitch
      exact ⟨[], store, rfl, h.setFrame hframe rfl (by simp [Frame.committed, hpc, herr])⟩
    | pollContinue =>
      have herr := (switchErr_eq_pollContinue.mp hswitch).1
      exact ⟨[], store, rfl, h.setFrame hframe rfl (by simp [Frame.committed, hpc, herr])⟩
    | ret status =>
      obtain ⟨herr, hstatus⟩ := switchErr_eq_ret hswitch
      have hf : f.committed = false := by simp [Frame.committed, hpc, herr]
      obtain ⟨store', hop, hrefines⟩ := h.ret_refused clock hframe hf hstatus
      exact ⟨[_], store', run_singleton hop, hrefines⟩
  | pollOk t n f hframe hpc _ =>
    have hdispatch : Refines topic (s.dispatch n) store := h.frame rfl rfl rfl fun _ => rfl
    exact ⟨[], store, rfl, hdispatch.ret_committed hframe (by simp [Frame.committed, hpc])⟩
  | pollContinue t n f hframe hpc _ =>
    have hdispatch : Refines topic (s.dispatch n) store := h.frame rfl rfl rfl fun _ => rfl
    exact ⟨[], store, rfl, hdispatch.setFrame hframe rfl (by simp [Frame.committed, hpc])⟩
  | dtorMember n m left _ =>
    refine ⟨[], store, rfl, ?_⟩
    unfold State.destroyMember
    split <;> exact h.frame rfl rfl rfl fun _ => rfl
  | _ => exact ⟨[], store, rfl, h.frame rfl rfl rfl fun _ => rfl⟩

/-! ## Program order -/

/-- The calls of each thread are its returned calls and then the one in progress. -/
def InProgramOrder (s : State τ) : Prop :=
  ∀ t, byWriter t s.called =
    (byWriter t s.returned).map Returned.data ++ ((s.frame t).map Frame.data).toList

theorem InProgramOrder.frame {s s' : State τ} (h : InProgramOrder s)
    (hcalled : s'.called = s.called) (hreturned : s'.returned = s.returned)
    (hframe : ∀ t, (s'.frame t).map Frame.data = (s.frame t).map Frame.data) :
    InProgramOrder s' := by
  intro t
  rw [hcalled, hreturned, hframe, h t]

theorem InProgramOrder.setFrame {s : State τ} (h : InProgramOrder s) {t : τ} {f : Frame}
    (hframe : s.frame t = some f) (f' : Frame) (hdata : f'.data = f.data) :
    InProgramOrder (s.setFrame t f') := by
  refine h.frame rfl rfl fun u => ?_
  by_cases hu : u = t
  · subst hu
    simp [State.setFrame, hframe, hdata]
  · simp [State.setFrame, hu]

theorem InProgramOrder.enter {s : State τ} (h : InProgramOrder s) {t : τ}
    (hframe : s.frame t = none) (data : TimedDataRaw) (hasToken : Bool) :
    InProgramOrder (s.enter t data hasToken) := by
  intro u
  by_cases hu : u = t
  · subst hu
    simp [State.enter, State.setFrame, h u, hframe]
  · simp [State.enter, State.setFrame, h u, hu, Ne.symm hu]

theorem InProgramOrder.ret {s : State τ} (h : InProgramOrder s) {t : τ} {f : Frame}
    (hframe : s.frame t = some f) (status : ProducerStatus) :
    InProgramOrder (s.ret t f status) := by
  intro u
  by_cases hu : u = t
  · subst hu
    simp [State.ret, h u, hframe]
  · simp [State.ret, h u, hu, Ne.symm hu]

theorem InProgramOrder.step [Fintype τ] {clock : Clock} (s : State τ) (a : Action τ) (s' : State τ)
    (h : InProgramOrder s) (hstep : step clock s a = some s') : InProgramOrder s' := by
  cases Step.of_step hstep with
  | call t data hasToken _ hframe => exact h.enter hframe data hasToken
  | produce t err f hframe _ _ =>
    unfold State.produced
    split
    · have hset := h.setFrame hframe { f with pc := .switch err, msg := some s.accepted.length } rfl
      exact hset.frame rfl rfl fun _ => rfl
    · exact h.setFrame hframe { f with pc := .switch err } rfl
  | switch t token f err hframe _ =>
    cases switchErr err (f.hasToken && token) with
    | pollOk => exact h.setFrame hframe { f with pc := .pollOk } rfl
    | pollContinue => exact h.setFrame hframe { f with pc := .pollContinue } rfl
    | ret status => exact h.ret hframe status
  | pollOk t n f hframe _ _ =>
    have hdispatch : InProgramOrder (s.dispatch n) := h.frame rfl rfl fun _ => rfl
    exact hdispatch.ret hframe .ok
  | pollContinue t n f hframe _ _ =>
    have hdispatch : InProgramOrder (s.dispatch n) := h.frame rfl rfl fun _ => rfl
    exact hdispatch.setFrame hframe { f with pc := .produce } rfl
  | dtorMember n m left _ =>
    unfold State.destroyMember
    split <;> exact h.frame rfl rfl fun _ => rfl
  | _ => exact h.frame rfl rfl fun _ => rfl

/-! ## What each thread finds in the log -/

/-- The records of the returned calls of thread `t` that returned `ok`, as `produce` gets them. -/
def State.okRecords (clock : Clock) (s : State τ) (t : τ) : List ProduceArgs :=
  ((byWriter t s.returned).filter fun r => r.status = .ok).map fun r =>
    produceArgs clock s.topic r.data

theorem payload_produceArgs (clock : Clock) (topic : String) (data : TimedDataRaw) :
    ((produceArgs clock topic data).payload, (produceArgs clock topic data).timestamp) =
      (data.object, clock.toKafkaTs data.ts) := rfl

/-- In every interleaving, the accepted records of a thread are those of its pushes that returned
`ok`, in program order and once each, and then the record of a push that is accepted and has not
returned yet; each carries the bytes that were pushed and `to_kafka_ts` of their time. -/
theorem accepted_by_thread [Fintype τ] (clock : Clock) (topic : String) (stop : Bool)
    (as : List (Action τ)) (s : State τ)
    (hrun : run (step clock) (connected τ topic stop) as = some s) (t : τ) :
    byWriter t s.accepted = s.okRecords clock t ++ s.pending clock t ∧
      ((byWriter t s.accepted).map fun args => (args.payload, args.timestamp)) =
        (((byWriter t s.returned).filter fun r => r.status = .ok).map fun r =>
          (r.data.object, clock.toKafkaTs r.data.ts)) ++
        (((s.frame t).filter Frame.committed).map fun f =>
          (f.data.object, clock.toKafkaTs f.data.ts)).toList ∧
      byWriter t s.called =
        (byWriter t s.returned).map Returned.data ++ ((s.frame t).map Frame.data).toList := by
  obtain ⟨ops, store, hops, href⟩ :=
    run_simulation (Refines.step clock) hrun (refines_connected topic stop)
  have haccepted : byWriter t s.accepted = s.okRecords clock t ++ s.pending clock t := by
    have hentries := Store.byWriter_entries hops t
    rw [href.entries, href.performed, List.filterMap_append, ← href.topic] at hentries
    rw [hentries]
    congr 1
    · unfold State.okRecords
      induction byWriter t s.returned with
      | nil => rfl
      | cons r rest ih =>
        by_cases hr : r.status = .ok <;> simp [Returned.write, Write.entry, hr, ih]
    · unfold State.pending State.committed
      cases (s.frame t).filter Frame.committed <;> simp [Write.entry]
  refine ⟨haccepted, ?_, run_invariant InProgramOrder.step hrun (fun _ => rfl) t⟩
  rw [haccepted, List.map_append]
  congr 1
  · simp only [State.okRecords, List.map_map]
    exact List.map_congr_left fun r _ => payload_produceArgs clock s.topic r.data
  · unfold State.pending
    cases (s.frame t).filter Frame.committed with
    | none => rfl
    | some f => exact congrArg (fun record => [record]) (payload_produceArgs clock s.topic f.data)

/-- Thread `1` gets its record in while thread `0` goes round on a full queue. -/
def fullQueueRace : List (Action (Fin 2)) :=
  [.call 0 ⟨0, [1]⟩ true, .produce 0 .ERR__QUEUE_FULL, .call 1 ⟨0, [2]⟩ false, .switch 0 false,
    .produce 1 .ERR_NO_ERROR, .poll 0 0, .switch 1 false, .produce 0 .ERR_NO_ERROR, .poll 1 0]

theorem accepted_by_thread_fullQueueRace :
    ∃ s, run (step .hundredNanoseconds) (connected (Fin 2) "" false) fullQueueRace = some s ∧
      byWriter 1 s.accepted = s.okRecords .hundredNanoseconds 1 ∧
      byWriter 0 s.accepted = s.pending .hundredNanoseconds 0 ∧
      ((byWriter 0 s.accepted).map fun args => (args.payload, args.timestamp)) = [([1], 0)] := by
  refine ⟨_, rfl, ?_, ?_, ?_⟩
  · exact (accepted_by_thread .hundredNanoseconds "" false fullQueueRace _ rfl 1).1.trans
      (List.append_nil _)
  · exact (accepted_by_thread .hundredNanoseconds "" false fullQueueRace _ rfl 0).1.trans
      (List.nil_append _)
  · exact (accepted_by_thread .hundredNanoseconds "" false fullQueueRace _ rfl 0).2.1.trans
      (by decide)

end TsKafka.BasicProducer
