import TsKafka.BasicConsumer.StartStop
import Mathlib.Data.List.Induction

/-!
# Histories of `start` and `stop`

Any sequence of public calls that one thread makes on a `basic_consumer`. An exception of `stop`
leaves the object behind and the history goes on; a `Fault` ends it. `Tracks` says what the
members are after a history, and the two results of the file are read off it: when a `start` is
good, and when `stop` and the destructor are safe.
-/

namespace TsKafka.BasicConsumer
open RdKafka

/-- A public call. -/
inductive Op where
  | start (env : StartEnv) (sa : ConsumerStartArgs) (errstr : String)
  | stop

/-- A call of `start` that every exit of `pre_start` but the last lets through. -/
def Op.Succeeds : Op → Prop
  | .start env sa _ => env.Accepts sa
  | .stop => False

/-- A call of `start` that fails in `pre_start`. -/
def Op.Fails : Op → Prop
  | .start env sa _ => ¬ env.Accepts sa
  | .stop => False

/-- The object after a call, whether the call returned or threw. -/
def Op.exec (w : World) : Op → Except Fault World
  | .start env sa errstr => (BasicConsumer.start env w sa errstr).map fun r => r.2.1
  | .stop => (BasicConsumer.stop w).map Prod.fst

/-- The object after a history of calls. -/
def exec (w : World) : List Op → Except Fault World
  | [] => .ok w
  | op :: rest =>
    match op.exec w with
    | .ok w => exec w rest
    | .error fault => .error fault

theorem exec_concat_ok {w u : World} {h : List Op} {op : Op} :
    exec w (h ++ [op]) = .ok u ↔ ∃ v, exec w h = .ok v ∧ op.exec v = .ok u := by
  induction h generalizing w with
  | nil => cases hop : op.exec w <;> simp [exec, hop]
  | cons a rest ih =>
    simp only [List.cons_append, exec]
    cases a.exec w with
    | ok v => exact ih
    | error fault => simp

/-! ## Readers and the order of what is done to them -/

/-- The readers launched and not joined, one call later. -/
def Call.live (live : List Nat) : Call → List Nat
  | .launch reader => live ++ [reader]
  | .join reader => live.erase reader
  | _ => live

/-- The readers that were launched and have not been joined. -/
def liveReaders (log : List Call) : List Nat := log.foldl Call.live []

/-- The call replaces a handle that readers use, or assigns the thread object. -/
def Call.Replaces : Call → Prop
  | .resetConsumer _ | .resetTopic _ | .resetQueue _ | .launch _ => True
  | _ => False

/-- No handle was replaced and no thread assigned before every earlier reader was joined. -/
def JoinedFirst (log : List Call) : Prop :=
  ∀ before call after, log = before ++ call :: after → call.Replaces → liveReaders before = []

theorem liveReaders_concat (log : List Call) (call : Call) :
    liveReaders (log ++ [call]) = call.live (liveReaders log) := by
  simp [liveReaders]

theorem JoinedFirst.nil : JoinedFirst [] := by
  intro before call after h
  simp at h

theorem JoinedFirst.concat {log : List Call} (h : JoinedFirst log) {call : Call}
    (hcall : call.Replaces → liveReaders log = []) : JoinedFirst (log ++ [call]) := by
  intro before c after hlog hc
  rcases List.eq_nil_or_concat after with rfl | ⟨rest, last, rfl⟩
  · obtain ⟨rfl, hlast⟩ := List.append_inj' hlog rfl
    cases hlast
    exact hcall hc
  · rw [List.concat_eq_append, ← List.cons_append, ← List.append_assoc] at hlog
    obtain ⟨hlog, -⟩ := List.append_inj' hlog rfl
    exact h before c rest hlog hc

/-- No reader is left, and each was joined in time. -/
structure Quiet (w : World) : Prop where
  live : liveReaders w.log = []
  joined : JoinedFirst w.log

/-- A call that launches no reader keeps the object quiet. -/
theorem Quiet.concat {w w' : World} (h : Quiet w) {call : Call} (hlive : call.live [] = [])
    (hlog : w'.log = w.log ++ [call]) : Quiet w' := by
  constructor
  · rw [hlog, liveReaders_concat, h.live, hlive]
  · rw [hlog]
    exact h.joined.concat fun _ => h.live

theorem Quiet.started {w : World} (h : Quiet w) (gconf : Conf) (sa : ConsumerStartArgs) :
    Quiet (w.started gconf sa) := by
  have hconsumer : Quiet ({ w with clients := w.clients + 1 }.resetConsumer
      (some { id := w.clients, kind := .consumer, conf := gconf })) := h.concat rfl rfl
  have htopic : Quiet (World.resetTopic _ (some ⟨w.clients, sa.topic⟩)) := hconsumer.concat rfl rfl
  exact htopic.concat rfl rfl

/-! ## One call -/

/-- The object when its first `stop` comes to the join. -/
def World.toJoin (w : World) : World :=
  { w with
    bc := { w.bc with stop := true }
    log := w.log ++ [.notifyAll, .consumerStop w.bc.topic 0] }

/-- The ways in which a call ends, each with the object that it leaves. -/
inductive Op.Outcome (w : World) : Op → World → Prop
  | failed {op : Op} (hop : op.Fails) : Outcome w op w
  | failedAtTopic {op : Op} (hop : op.Fails) (gconf : Conf) :
      Outcome w op ({ w with clients := w.clients + 1 }.resetConsumer
        (some { id := w.clients, kind := .consumer, conf := gconf }))
  | succeeded {op : Op} (hop : op.Succeeds) (hth : w.bc.th = none) (gconf : Conf)
      (sa : ConsumerStartArgs) : Outcome w op (w.started gconf sa).launch
  | stoppedAgain (hstopped : w.bc.stop = true) : Outcome w .stop w
  | threw (hrunning : w.bc.stop = false) (hth : w.bc.th = none) : Outcome w .stop w.toJoin
  | stopped (hrunning : w.bc.stop = false) (reader : Nat) :
      Outcome w .stop
        ((((w.toJoin.join reader).resetQueue none).resetTopic none).resetConsumer none)

theorem Op.outcome {op : Op} {w w' : World} (h : op.exec w = .ok w') : op.Outcome w w' := by
  cases op with
  | start env sa errstr =>
    by_cases haccepts : env.Accepts sa
    · obtain ⟨gconf, errstr', hstart⟩ := start_of_accepts haccepts w errstr
      rw [Op.exec, hstart] at h
      cases hth : w.bc.th with
      | some reader => simp [hth, Except.map] at h
      | none =>
        simp only [hth, Option.isSome_none, Bool.false_eq_true, if_false, Except.map,
          Except.ok.injEq] at h
        subst h
        have hop : (Op.start env sa errstr).Succeeds := haccepts
        exact .succeeded hop hth gconf sa
    · have hop : (Op.start env sa errstr).Fails := haccepts
      obtain ⟨v, errstr', hstart, hv⟩ := start_of_not_accepts haccepts w errstr
      rw [Op.exec, hstart] at h
      cases h
      rcases hv with rfl | ⟨gconf, rfl⟩
      · exact .failed hop
      · exact .failedAtTopic hop gconf
  | stop =>
    simp only [Op.exec, BasicConsumer.stop, List.append_assoc] at h
    split at h
    · rename_i hstopped
      cases h
      exact .stoppedAgain hstopped
    · rename_i hrunning
      have hrunning : w.bc.stop = false := by simpa using hrunning
      split at h
      · cases h
      · split at h
        · rename_i hth
          cases h
          exact .threw hrunning hth
        · rename_i reader hth
          cases h
          exact .stopped hrunning reader

/-- What one call does to the members and to the readers. -/
inductive Op.Effect (op : Op) (w w' : World) : Prop
  /-- A `start` that fails: `_consumer` may be new. -/
  | failed (hop : op.Fails) (hstop : w'.bc.stop = w.bc.stop) (hth : w'.bc.th = w.bc.th)
      (hconsumer : w.bc.consumer.isSome → w'.bc.consumer.isSome) (hquiet : Quiet w → Quiet w')
  /-- A `start` that succeeds. -/
  | succeeded (hop : op.Succeeds) (hjoinable : w.bc.th = none) (hstop : w'.bc.stop = w.bc.stop)
      (hth : w'.bc.th.isSome) (hconsumer : w'.bc.consumer.isSome)
  /-- A `stop` after another one. -/
  | stoppedAgain (hop : op = .stop) (hstopped : w.bc.stop = true) (hsame : w' = w)
  /-- The first `stop`, whether it joined a reader or threw. -/
  | stopped (hop : op = .stop) (hrunning : w.bc.stop = false) (hstop : w'.bc.stop = true)
      (hth : w'.bc.th = none)

theorem Op.effect {op : Op} {w w' : World} (h : op.exec w = .ok w') : op.Effect w w' := by
  cases Op.outcome h with
  | failed hop => exact .failed hop rfl rfl id id
  | failedAtTopic hop gconf =>
    exact .failed hop rfl rfl (fun _ => rfl) fun hw => hw.concat rfl rfl
  | succeeded hop hth gconf sa => exact .succeeded hop hth rfl rfl rfl
  | stoppedAgain hstopped => exact .stoppedAgain rfl hstopped rfl
  | threw hrunning hth => exact .stopped rfl hrunning rfl hth
  | stopped hrunning reader => exact .stopped rfl hrunning rfl rfl

/-! ## A whole history -/

/-- No `start` after a `stop` succeeds. -/
def NotRestarted (h : List Op) : Prop :=
  h.Pairwise fun a b => a = .stop → ¬ b.Succeeds

theorem notRestarted_concat {h : List Op} {op : Op} :
    NotRestarted (h ++ [op]) ↔ NotRestarted h ∧ (.stop ∈ h → ¬ op.Succeeds) := by
  simp only [NotRestarted, List.pairwise_append, List.pairwise_singleton, true_and,
    List.mem_singleton, forall_eq]
  constructor
  · rintro ⟨hold, hnew⟩
    exact ⟨hold, fun hstop => hnew .stop hstop rfl⟩
  · rintro ⟨hold, hnew⟩
    refine ⟨hold, ?_⟩
    rintro a ha rfl
    exact hnew ha

theorem notRestarted_of_not_stopped {h : List Op} (hstop : Op.stop ∉ h) : NotRestarted h := by
  apply List.pairwise_of_forall_mem_list
  rintro a ha b - rfl
  exact absurd ha hstop

/-- What the members are after the history `h`. -/
structure Tracks (h : List Op) (w : World) : Prop where
  stop : w.bc.stop = true ↔ Op.stop ∈ h
  /-- Until the first `stop` there is a reader as soon as a `start` has succeeded. -/
  running : w.bc.stop = false → (w.bc.th.isSome ↔ ∃ op ∈ h, op.Succeeds)
  /-- From then on only if one has succeeded after a `stop`. -/
  stopped : w.bc.stop = true → (w.bc.th = none ↔ NotRestarted h)
  consumer : w.bc.stop = false → w.bc.th.isSome → w.bc.consumer.isSome
  quiet : w.bc.stop = false → w.bc.th = none → Quiet w

theorem Tracks.fresh (rb : RbCb) : Tracks [] (World.fresh rb) := by
  refine ⟨by simp [World.fresh], by simp [World.fresh], by simp [World.fresh],
    by simp [World.fresh], fun _ _ => ⟨rfl, JoinedFirst.nil⟩⟩

/-- With `_stop` raised only two facts matter. -/
theorem Tracks.of_stopped {h : List Op} {w : World} (hstop : w.bc.stop = true)
    (hmem : Op.stop ∈ h) (hth : w.bc.th = none ↔ NotRestarted h) : Tracks h w := by
  have hnot : w.bc.stop ≠ false := by simp [hstop]
  exact ⟨iff_of_true hstop hmem, fun hfalse => absurd hfalse hnot, fun _ => hth,
    fun hfalse => absurd hfalse hnot, fun hfalse => absurd hfalse hnot⟩

theorem Op.Fails.not_succeeds {op : Op} (h : op.Fails) : ¬ op.Succeeds := by
  cases op with
  | start env sa errstr => exact h
  | stop => exact h.elim

theorem Op.Fails.ne_stop {op : Op} (h : op.Fails) : Op.stop ≠ op := by
  rintro rfl
  exact h

theorem Op.not_succeeds_stop : ¬ Op.stop.Succeeds := id

theorem Op.Succeeds.ne_stop {op : Op} (h : op.Succeeds) : Op.stop ≠ op := by
  rintro rfl
  exact h

theorem Tracks.concat {h : List Op} {w w' : World} {op : Op} (ht : Tracks h w)
    (heffect : op.Effect w w') : Tracks (h ++ [op]) w' := by
  have hmem : Op.stop ∈ h ++ [op] ↔ Op.stop ∈ h ∨ Op.stop = op := by simp
  have hany : (∃ o ∈ h ++ [op], o.Succeeds) ↔ (∃ o ∈ h, o.Succeeds) ∨ op.Succeeds := by
    simp [or_and_right, exists_or]
  cases heffect with
  | failed hop hstop hth hconsumer hquiet =>
    have hne := hop.ne_stop
    have hnot := hop.not_succeeds
    refine ⟨?_, ?_, ?_, ?_, ?_⟩
    · rw [hstop, ht.stop, hmem, or_iff_left hne]
    · intro hrunning
      rw [hth, ht.running (hstop ▸ hrunning), hany, or_iff_left hnot]
    · intro hstopped
      rw [hth, ht.stopped (hstop ▸ hstopped), notRestarted_concat, and_iff_left fun _ => hnot]
    · intro hrunning hjoinable
      exact hconsumer (ht.consumer (hstop ▸ hrunning) (hth ▸ hjoinable))
    · intro hrunning hidle
      exact hquiet (ht.quiet (hstop ▸ hrunning) (hth ▸ hidle))
  | succeeded hop hjoinable hstop hth hconsumer =>
    refine ⟨?_, ?_, ?_, fun _ _ => hconsumer, ?_⟩
    · rw [hstop, ht.stop, hmem, or_iff_left hop.ne_stop]
    · intro _
      exact ⟨fun _ => hany.mpr (.inr hop), fun _ => hth⟩
    · intro hstopped
      have hstop_mem : Op.stop ∈ h := ht.stop.mp (hstop ▸ hstopped)
      constructor
      · intro hnone
        rw [hnone] at hth
        cases hth
      · intro hnot
        exact absurd hop ((notRestarted_concat.mp hnot).2 hstop_mem)
    · intro _ hnone
      rw [hnone] at hth
      cases hth
  | stoppedAgain hop hstopped hsame =>
    subst hop hsame
    apply Tracks.of_stopped hstopped (hmem.mpr (.inr rfl))
    rw [ht.stopped hstopped, notRestarted_concat, and_iff_left fun _ => Op.not_succeeds_stop]
  | stopped hop hrunning hstop hth =>
    subst hop
    have hfirst : Op.stop ∉ h := by
      rw [← ht.stop, hrunning]
      exact Bool.false_ne_true
    have hnot : NotRestarted (h ++ [Op.stop]) :=
      notRestarted_concat.mpr ⟨notRestarted_of_not_stopped hfirst, fun _ => Op.not_succeeds_stop⟩
    exact .of_stopped hstop (hmem.mpr (.inr rfl)) (iff_of_true hth hnot)

theorem exec_tracks {rb : RbCb} {h : List Op} {w : World}
    (hexec : exec (World.fresh rb) h = .ok w) : Tracks h w := by
  induction h using List.reverseRecOn generalizing w with
  | nil =>
    cases hexec
    exact Tracks.fresh rb
  | append_singleton h op ih =>
    obtain ⟨v, hv, hop⟩ := exec_concat_ok.mp hexec
    exact (ih hv).concat (Op.effect hop)

/-! ## What is never called -/

/-- The calls that a call of the object makes: none of them is a `Consumer::start`. -/
theorem Op.exec_log {op : Op} {w w' : World} (h : op.exec w = .ok w') :
    ∃ calls, w'.log = w.log ++ calls ∧
      ∀ topic partition offset queue, Call.consumerStart topic partition offset queue ∉ calls := by
  cases Op.outcome h with
  | failed hop => exact ⟨[], by simp, by simp⟩
  | failedAtTopic hop gconf => exact ⟨[.resetConsumer (some w.clients)], rfl, by simp⟩
  | succeeded hop hth gconf sa =>
    refine ⟨[.resetConsumer (some w.clients), .resetTopic (some w.clients),
      .resetQueue (some w.clients), .launch w.readers], ?_, by simp⟩
    simp [World.started, World.launch, World.resetQueue, World.resetTopic, World.resetConsumer]
  | stoppedAgain hstopped => exact ⟨[], by simp, by simp⟩
  | threw hrunning hth => exact ⟨[.notifyAll, .consumerStop w.bc.topic 0], rfl, by simp⟩
  | stopped hrunning reader =>
    refine ⟨[.notifyAll, .consumerStop w.bc.topic 0, .join reader, .resetQueue none,
      .resetTopic none, .resetConsumer none], ?_, by simp⟩
    simp [World.toJoin, World.join, World.resetQueue, World.resetTopic, World.resetConsumer]

/-- No history of calls starts a partition. -/
theorem exec_no_consumerStart {rb : RbCb} {h : List Op} {w : World}
    (hexec : exec (World.fresh rb) h = .ok w) (topic : Topic) (partition : Int32) (offset : Int64)
    (queue : Queue) : Call.consumerStart topic partition offset queue ∉ w.log := by
  induction h using List.reverseRecOn generalizing w with
  | nil =>
    cases hexec
    exact List.not_mem_nil
  | append_singleton h op ih =>
    obtain ⟨v, hv, hop⟩ := exec_concat_ok.mp hexec
    obtain ⟨calls, hlog, hcalls⟩ := Op.exec_log hop
    rw [hlog, List.mem_append, not_or]
    exact ⟨ih hv, hcalls topic partition offset queue⟩

/-! ## When a `start` is good -/

/-- What is expected of a `start` that returns true on `before` and leaves `after`: the object
has exactly one reader, its own, which is not told to stop and uses its handles, and every earlier
reader was joined before its handles were replaced and before `_th` was assigned. -/
structure GoodStart (before : World) (sa : ConsumerStartArgs) (after : World) : Prop where
  stop : after.bc.stop = false
  th : after.bc.th = some before.readers
  live : liveReaders after.log = [before.readers]
  consumer : after.bc.consumer.map Client.id = some before.clients
  topic : after.bc.topic = some ⟨before.clients, sa.topic⟩
  queue : after.bc.queue = some ⟨before.clients⟩
  joined : JoinedFirst after.log

/-- A `start` that `pre_start` lets through returns true in a good state exactly when the calls
before it are `start` calls that failed. -/
theorem good_start_iff_all_failed (rb : RbCb) (h : List Op) (w : World)
    (hexec : exec (World.fresh rb) h = .ok w) (env : StartEnv) (sa : ConsumerStartArgs)
    (errstr : String) (haccepts : env.Accepts sa) :
    (∃ after errstr', start env w sa errstr = .ok (true, after, errstr') ∧
      GoodStart w sa after) ↔ ∀ op ∈ h, op.Fails := by
  have ht := exec_tracks hexec
  obtain ⟨gconf, errstr', hstart⟩ := start_of_accepts haccepts w errstr
  rw [hstart]
  constructor
  · rintro ⟨after, errstr'', hok, hgood⟩ op hop
    have hnone : w.bc.th = none := by
      cases hth : w.bc.th with
      | none => rfl
      | some reader => simp [hth] at hok
    simp only [hnone, Option.isSome_none, Bool.false_eq_true, if_false, Except.ok.injEq,
      Prod.mk.injEq, true_and] at hok
    obtain ⟨rfl, -⟩ := hok
    have hrunning : w.bc.stop = false := hgood.stop
    cases op with
    | start env' sa' text =>
      intro hsucceeds
      have := (ht.running hrunning).mpr ⟨_, hop, hsucceeds⟩
      rw [hnone] at this
      cases this
    | stop =>
      rw [ht.stop.mpr hop] at hrunning
      cases hrunning
  · intro hfails
    have hrunning : w.bc.stop = false := by
      rw [Bool.eq_false_iff, ne_eq, ht.stop]
      intro hstop
      exact hfails .stop hstop
    have hnone : w.bc.th = none := by
      rw [← Option.not_isSome_iff_eq_none, ht.running hrunning]
      rintro ⟨op, hop, hsucceeds⟩
      exact (hfails op hop).not_succeeds hsucceeds
    refine ⟨(w.started gconf sa).launch, errstr', by simp [hnone], ?_⟩
    have hquiet := (ht.quiet hrunning hnone).started gconf sa
    refine ⟨hrunning, rfl, ?_, rfl, rfl, rfl, ?_⟩
    · show liveReaders ((w.started gconf sa).log ++ [Call.launch w.readers]) = [w.readers]
      rw [liveReaders_concat, hquiet.live]
      rfl
    · show JoinedFirst ((w.started gconf sa).log ++ [Call.launch w.readers])
      exact hquiet.joined.concat fun _ => hquiet.live

/-- An environment in which every `pre_start` succeeds. -/
def StartEnv.accepting : StartEnv where
  rand := 41
  api := { check := fun _ _ => (.CONF_OK, ""), setting := id }
  consumerCreateFails := none
  topicCreateFails := none

/-- An environment in which `Consumer::create` fails. -/
def StartEnv.refusing : StartEnv :=
  { StartEnv.accepting with consumerCreateFails := some "No provider" }

/-- Arguments for one topic of a local broker, from its first record on. -/
def ConsumerStartArgs.fromBeginning : ConsumerStartArgs where
  endpoint := "localhost:9092"
  topic := "test"
  user := ""
  passwd := ""
  params := .empty
  startOffset := 0

theorem StartEnv.accepting_accepts (sa : ConsumerStartArgs) : StartEnv.accepting.Accepts sa :=
  ⟨fun _ _ => rfl, rfl, rfl⟩

/-- A consumer that is started, stopped and started again has a reader that is told to stop. -/
theorem restart_not_good :
    ¬ ∀ h w env sa errstr after errstr', exec (World.fresh ⟨0, 0⟩) h = .ok w →
      start env w sa errstr = .ok (true, after, errstr') → GoodStart w sa after := by
  intro hclaim
  have hgood := hclaim [.start .accepting .fromBeginning "", .stop] _ .accepting .fromBeginning ""
    _ _ rfl rfl
  exact absurd hgood.stop (by decide)

/-- The condition at a history with a failed `start`. -/
theorem good_start_iff_all_failed_retry :
    ∃ w after errstr',
      exec (World.fresh ⟨0, 0⟩) [.start .refusing .fromBeginning ""] = .ok w ∧
        start .accepting w .fromBeginning "No provider" = .ok (true, after, errstr') ∧
        GoodStart w .fromBeginning after := by
  have hexec : exec (World.fresh ⟨0, 0⟩) [.start .refusing .fromBeginning ""] =
    .ok (World.fresh ⟨0, 0⟩) := rfl
  obtain ⟨after, errstr', hstart, hgood⟩ := (good_start_iff_all_failed ⟨0, 0⟩
    [.start .refusing .fromBeginning ""] _ hexec .accepting .fromBeginning "No provider"
    (StartEnv.accepting_accepts _)).mpr (by simp [Op.Fails, StartEnv.Accepts, StartEnv.refusing])
  exact ⟨_, after, errstr', hexec, hstart, hgood⟩

/-! ## When `stop` and the destructor are safe -/

/-- `stop` returns: it neither calls through a null `_consumer` nor joins a thread that is not
joinable. -/
def StopSafe (w : World) : Prop := ∃ w', stop w = .ok (w', none)

/-- The destructor returns: its `stop` is safe, and it leaves no joinable `_th`. -/
def DestructorSafe (w : World) : Prop := ∃ w', destructor w = .ok w'

/-- Both are safe exactly when `_th` is joinable and `stop` has not been called, or the
reverse. -/
theorem safe_iff_members (w : World)
    (hconsumer : w.bc.stop = false → w.bc.th.isSome → w.bc.consumer.isSome) :
    StopSafe w ∧ DestructorSafe w ↔ (w.bc.th.isSome ↔ w.bc.stop = false) := by
  unfold StopSafe DestructorSafe destructor
  cases hstop : w.bc.stop with
  | true => cases hth : w.bc.th <;> simp [stop, hstop, hth]
  | false =>
    cases hth : w.bc.th with
    | none => cases hc : w.bc.consumer <;> simp [stop, hstop, hth, hc]
    | some reader =>
      obtain ⟨c, hc⟩ := Option.isSome_iff_exists.mp (hconsumer hstop (by simp [hth]))
      simp [stop, hstop, hth, hc, World.join, World.resetQueue, World.resetTopic,
        World.resetConsumer]

/-- After a history of calls, `stop` and the destructor are safe exactly when a `start` has
succeeded or `stop` has been called, and no `start` after a `stop` has succeeded. -/
theorem safe_iff_stopped_or_running (rb : RbCb) (h : List Op) (w : World)
    (hexec : exec (World.fresh rb) h = .ok w) :
    StopSafe w ∧ DestructorSafe w ↔
      (∃ op ∈ h, op = .stop ∨ op.Succeeds) ∧ NotRestarted h := by
  have ht := exec_tracks hexec
  rw [safe_iff_members w ht.consumer]
  cases hstop : w.bc.stop with
  | true =>
    have hmem := ht.stop.mp hstop
    have hany : ∃ op ∈ h, op = .stop ∨ op.Succeeds := ⟨.stop, hmem, .inl rfl⟩
    rw [and_iff_right hany, ← ht.stopped hstop]
    cases w.bc.th <;> simp
  | false =>
    have hmem : Op.stop ∉ h := by
      rw [← ht.stop, hstop]
      exact Bool.false_ne_true
    have hnot : NotRestarted h := notRestarted_of_not_stopped hmem
    rw [and_iff_left hnot, ht.running hstop]
    constructor
    · intro hiff
      obtain ⟨op, hop, hsucceeds⟩ := hiff.mpr rfl
      exact ⟨op, hop, .inr hsucceeds⟩
    · rintro ⟨op, hop, rfl | hsucceeds⟩
      · exact absurd hop hmem
      · exact ⟨fun _ => rfl, fun _ => ⟨op, hop, hsucceeds⟩⟩

/-- A consumer whose only `start` failed cannot be destroyed. -/
theorem failed_start_not_safe :
    ¬ ∀ h w, exec (World.fresh ⟨0, 0⟩) h = .ok w → StopSafe w ∧ DestructorSafe w := by
  intro hclaim
  obtain ⟨⟨w, hstop⟩, -⟩ := hclaim [.start .refusing .fromBeginning ""] (World.fresh ⟨0, 0⟩) rfl
  have hnull : stop (World.fresh ⟨0, 0⟩) = .error .nullConsumer := rfl
  rw [hnull] at hstop
  cases hstop

/-- The condition at a consumer that was started and stopped. -/
theorem safe_iff_stopped_or_running_once :
    ∃ w, exec (World.fresh ⟨0, 0⟩) [.start .accepting .fromBeginning "", .stop] = .ok w ∧
      StopSafe w ∧ DestructorSafe w := by
  refine ⟨_, rfl, (safe_iff_stopped_or_running ⟨0, 0⟩
    [.start .accepting .fromBeginning "", .stop] _ rfl).mpr ⟨?_, ?_⟩⟩
  · exact ⟨.stop, by simp, .inl rfl⟩
  · simp [NotRestarted, Op.Succeeds]

/-! ## When a failed `start` changes nothing -/

/-- The client of `_consumer` has a number that was given out. -/
def World.ConsumerKnown (w : World) : Prop := ∀ c, w.bc.consumer = some c → c.id < w.clients

theorem World.consumerKnown_reset (w : World) (gconf : Conf) :
    ({ w with clients := w.clients + 1 }.resetConsumer
      (some { id := w.clients, kind := .consumer, conf := gconf })).ConsumerKnown := by
  intro c hc
  cases hc
  exact Nat.lt_succ_self w.clients

theorem Op.exec_consumerKnown {op : Op} {w w' : World} (hw : w.ConsumerKnown)
    (h : op.exec w = .ok w') : w'.ConsumerKnown := by
  cases Op.outcome h with
  | failedAtTopic hop gconf => exact w.consumerKnown_reset gconf
  | succeeded hop hth gconf sa => exact w.consumerKnown_reset gconf
  | stopped hrunning reader =>
    intro c hc
    cases hc
  | _ => exact hw

theorem exec_consumerKnown {rb : RbCb} {h : List Op} {w : World}
    (hexec : exec (World.fresh rb) h = .ok w) : w.ConsumerKnown := by
  induction h using List.reverseRecOn generalizing w with
  | nil =>
    cases hexec
    intro c hc
    cases hc
  | append_singleton h op ih =>
    obtain ⟨v, hv, hop⟩ := exec_concat_ok.mp hexec
    exact Op.exec_consumerKnown (ih hv) hop

/-- What is expected of a `start` on `w`. -/
structure AtomicStart (w : World) (env : StartEnv) (sa : ConsumerStartArgs) (errstr : String) :
    Prop where
  /-- When some exit is taken it returns false, with every member as it was. -/
  failed : ¬ env.Accepts sa →
    ∃ w' errstr', start env w sa errstr = .ok (false, w', errstr') ∧ w'.bc = w.bc
  /-- It returns true only when no exit was taken; its handles then belong to one new client. -/
  succeeded : ∀ w' errstr', start env w sa errstr = .ok (true, w', errstr') →
    env.Accepts sa ∧ ∃ c, w'.bc.consumer = some c ∧ w'.bc.topic = some ⟨c.id, sa.topic⟩ ∧
      w'.bc.queue = some ⟨c.id⟩ ∧ ∀ old, w.bc.consumer = some old → old.id < c.id

/-- A `start` is atomic exactly when it does not fail in `Topic::create`, which comes after
`_consumer` has been given its new handle. -/
theorem atomic_start_iff (rb : RbCb) (h : List Op) (w : World)
    (hexec : exec (World.fresh rb) h = .ok w) (env : StartEnv) (sa : ConsumerStartArgs)
    (errstr : String) : AtomicStart w env sa errstr ↔ ¬ env.FailsAtTopic sa := by
  have hknown := exec_consumerKnown hexec
  constructor
  · intro hatomic htopic
    obtain ⟨w', errstr', hstart, hsame⟩ := hatomic.failed htopic.not_accepts
    obtain ⟨gconf, text, hpre⟩ := preStart_of_failsAtTopic htopic w errstr
    rw [start, hpre] at hstart
    cases hstart
    have hconsumer := congrArg Members.consumer hsame
    exact absurd (hknown _ hconsumer.symm) (Nat.lt_irrefl _)
  · intro htopic
    constructor
    · intro haccepts
      obtain ⟨text, hpre⟩ := preStart_of_fails_earlier haccepts htopic w errstr
      exact ⟨w, text, by rw [start, hpre], rfl⟩
    · intro w' errstr' hstart
      have haccepts : env.Accepts sa := by
        by_contra hnot
        obtain ⟨v, text, hfalse, -⟩ := start_of_not_accepts hnot w errstr
        rw [hstart] at hfalse
        cases hfalse
      obtain ⟨gconf, rfl⟩ := start_ok_true hstart
      exact ⟨haccepts, _, rfl, rfl, rfl, hknown⟩

/-- An environment in which `Topic::create` fails. -/
def StartEnv.withoutTopic : StartEnv :=
  { StartEnv.accepting with topicCreateFails := some "Invalid argument" }

/-- A `start` that fails in `Topic::create` leaves a new `_consumer` behind. -/
theorem failed_start_not_atomic :
    ¬ ∀ h w env sa errstr, (∀ op ∈ h, Op.Fails op) → exec (World.fresh ⟨0, 0⟩) h = .ok w →
      AtomicStart w env sa errstr := by
  intro hclaim
  have hatomic := hclaim [] (World.fresh ⟨0, 0⟩) .withoutTopic .fromBeginning "" (by simp) rfl
  obtain ⟨w', errstr', hstart, hsame⟩ := hatomic.failed (by simp [StartEnv.Accepts,
    StartEnv.withoutTopic])
  cases hstart
  have hconsumer := congrArg Members.consumer hsame
  cases hconsumer

/-- The condition after a failed `start`. -/
theorem atomic_start_iff_retry :
    exec (World.fresh ⟨0, 0⟩) [.start .refusing .fromBeginning ""] = .ok (World.fresh ⟨0, 0⟩) ∧
      AtomicStart (World.fresh ⟨0, 0⟩) .refusing .fromBeginning "" := by
  refine ⟨rfl, (atomic_start_iff ⟨0, 0⟩ [.start .refusing .fromBeginning ""] _ rfl .refusing
    .fromBeginning "").mpr ?_⟩
  rintro ⟨-, hconsumer, -⟩
  cases hconsumer

end TsKafka.BasicConsumer
