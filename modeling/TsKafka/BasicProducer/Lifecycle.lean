import TsKafka.BasicProducer.Connect
import TsKafka.BasicProducer.Threads

/-!
# The life of a `basic_producer`

One thread constructs a producer, makes any public calls, and destroys it, interleaved with the
polling thread (`bg_pool`). A step is one access to what the two share: the handle `_producer`, the
thread `_poll_th`, the flag `_stop`. A step that the program does not survive records a `Fault`,
and nothing happens after it. Neither `push`, `connect` nor the destructor checks anything: the
question is which sequences of calls can lead to a fault.
-/

namespace TsKafka.BasicProducer
open RdKafka PartialRun

/-- A public call. -/
inductive Op where
  | connect (env : ConnectEnv) (sa : DefArg) (errstr : String)
  | push (data : TimedDataRaw) (hasToken : Bool)

/-- A `connect` that takes none of its exits. -/
def Op.Succeeds : Op → Prop
  | .connect env sa _ => env.Accepts sa
  | .push _ _ => False

/-- A `connect` that returns false. -/
def Op.Fails : Op → Prop
  | .connect env sa _ => ¬ env.Accepts sa
  | .push _ _ => False

/-- Where the caller is. -/
inductive CallerPc where
  /-- Between two calls. -/
  | idle
  /-- In `connect`, at `_producer.reset(p)`. -/
  | reset (sa : DefArg) (p : Client)
  /-- In `connect`, at `_poll_th = std::thread(...)`. -/
  | assign (sa : DefArg)
  | push (data : TimedDataRaw) (hasToken : Bool) (pc : PushPc)
  /-- In the destructor, at `_poll_th.join()`. -/
  | join
  | destroyed

/-- Where `bg_pool` is. -/
inductive PollPc where
  /-- At the test `!_stop`. -/
  | test
  /-- At the call `_producer->poll(500)`, before it reads `_producer`. -/
  | call
  /-- In the `poll(500)` of the client `handle`. -/
  | poll (handle : Nat)
  | done
  deriving DecidableEq, Repr

/-- A producer, its caller with the calls it has still to make, and its polling thread, if one has
been started. `destroyed` are the clients that have been destroyed. `connectedTo`, the argument of
the last `connect` that returned true, and `accepted`, the records that librdkafka has accepted
with what `connectedTo` was then, are history. -/
structure Life where
  world : World
  caller : CallerPc
  todo : List Op
  poller : Option PollPc
  destroyed : List Nat
  connectedTo : Option DefArg
  accepted : List (Option DefArg × ProduceArgs)
  fault : Option Fault

/-- A newly constructed producer whose caller is going to make the calls `script` and then to
destroy it. -/
def Life.begin (stop : Bool) (script : List Op) : Life where
  world := .constructed stop
  caller := .idle
  todo := script
  poller := none
  destroyed := []
  connectedTo := none
  accepted := []
  fault := none

inductive LifeAction where
  /-- The caller goes on. `err` is what `produce` returns and `token` what `*cancel_token` shows,
  if they are there. -/
  | caller (err : ErrorCode) (token : Bool)
  /-- The polling thread goes on. -/
  | poller
  deriving DecidableEq, Repr

namespace Life

def fail (s : Life) (fault : Fault) : Life := { s with fault := some fault }

def goto (s : Life) (pc : CallerPc) : Life := { s with caller := pc }

/-- The caller begins its next call. -/
def begins (s : Life) (rest : List Op) (pc : CallerPc) : Life :=
  { s with todo := rest, caller := pc }

/-- `_producer.reset(p)`: the client that it held is destroyed. -/
def resetProducer (s : Life) (sa : DefArg) (p : Client) : Life :=
  { s with
    world := s.world.resetProducer p
    caller := .assign sa
    destroyed := s.destroyed ++ (s.world.bp.producer.map Client.id).toList }

/-- `_poll_th` is given a new thread, and `connect` returns true. -/
def launch (s : Life) (sa : DefArg) : Life :=
  { s with world := s.world.launch, caller := .idle, poller := some .test, connectedTo := some sa }

/-- The `produce` call of a `push` returns `err`. -/
def produced (clock : Clock) (s : Life) (data : TimedDataRaw) (hasToken : Bool)
    (err : ErrorCode) : Life :=
  { s with
    caller := .push data hasToken (.switch err)
    accepted :=
      if err = .ERR_NO_ERROR then
        s.accepted ++ [(s.connectedTo, produceArgs clock s.world.bp.topic data)]
      else s.accepted }

/-- A `push` goes through its switch. -/
def switched (s : Life) (data : TimedDataRaw) (hasToken : Bool) : AfterSwitch → Life
  | .pollOk => s.goto (.push data hasToken .pollOk)
  | .pollContinue => s.goto (.push data hasToken .pollContinue)
  | .ret _ => s.goto .idle

/-- The destructor executes `_stop = true`. -/
def raiseStop (s : Life) : Life :=
  { s with world := { s.world with bp := { s.world.bp with stop := true } }, caller := .join }

/-- `_poll_th.join()` returns and the members are destroyed. -/
def joined (s : Life) : Life :=
  { s with
    world := { s.world with bp := { s.world.bp with producer := none, pollTh := none } }
    caller := .destroyed
    destroyed := s.destroyed ++ (s.world.bp.producer.map Client.id).toList }

/-- A step of the caller inside `push`. -/
def pushStep (clock : Clock) (s : Life) (data : TimedDataRaw) (hasToken : Bool)
    (err : ErrorCode) (token : Bool) : PushPc → Life
  | .switch err' => s.switched data hasToken (switchErr err' (hasToken && token))
  | pc =>
    match s.world.bp.producer with
    | none => s.fail .nullProducer
    | some _ =>
      match pc with
      | .pollOk => s.goto .idle
      | .pollContinue => s.goto (.push data hasToken .produce)
      | _ => s.produced clock data hasToken err

/-- The caller begins its next call, or the destructor when there is none. -/
def nextCall (s : Life) : Life :=
  match s.todo with
  | [] => s.raiseStop
  | .push data hasToken :: rest => s.begins rest (.push data hasToken .produce)
  | .connect env sa errstr :: rest =>
    match createProducer env s.world.clients sa errstr with
    | (none, _) => s.begins rest .idle
    | (some p, _) => s.begins rest (.reset sa p)

def callerStep (clock : Clock) (s : Life) (err : ErrorCode) (token : Bool) : Option Life :=
  match s.caller with
  | .idle => some s.nextCall
  | .reset sa p => some (s.resetProducer sa p)
  | .assign sa =>
    some (if s.world.bp.pollTh.isSome then s.fail .assignJoinable else s.launch sa)
  | .push data hasToken pc => some (s.pushStep clock data hasToken err token pc)
  | .join =>
    match s.world.bp.pollTh with
    | none => some (s.fail .joinNotJoinable)
    | some _ => if s.poller = some .done then some s.joined else none
  | .destroyed => none

def pollerStep (s : Life) : Option Life :=
  match s.poller with
  | some .test => some { s with poller := some (if s.world.bp.stop then .done else .call) }
  | some .call =>
    match s.world.bp.producer with
    | none => some (s.fail .nullProducer)
    | some p => some { s with poller := some (.poll p.id) }
  | some (.poll handle) =>
    some (if handle ∈ s.destroyed then s.fail .destroyedProducer
      else { s with poller := some .test })
  | _ => none

end Life

/-- One step of the caller or of the polling thread. -/
def lifeStep (clock : Clock) (s : Life) : LifeAction → Option Life
  | .caller err token => if s.fault = none then s.callerStep clock err token else none
  | .poller => if s.fault = none then s.pollerStep else none

variable {clock : Clock} {s t : Life}

theorem lifeStep_caller (hfault : s.fault = none) (err : ErrorCode) (token : Bool) :
    lifeStep clock s (.caller err token) = s.callerStep clock err token := if_pos hfault

theorem callerStep_idle (hcaller : s.caller = .idle) (err : ErrorCode) (token : Bool) :
    s.callerStep clock err token = some s.nextCall := by
  rw [Life.callerStep, hcaller]

/-- The caller takes a step, with a `produce` that succeeds if it is there. -/
theorem run_caller {as : List LifeAction} {u : Life} (hfault : s.fault = none)
    (h : s.callerStep clock .ERR_NO_ERROR false = some t)
    (hrun : run (lifeStep clock) t as = some u) :
    run (lifeStep clock) s (.caller .ERR_NO_ERROR false :: as) = some u :=
  run_cons_eq_some.mpr ⟨t, (lifeStep_caller hfault _ _).trans h, hrun⟩

/-- The end of a `connect` that has created a handle. -/
theorem run_reset (clock : Clock) {sa : DefArg} {p : Client} (hcaller : s.caller = .reset sa p)
    (hfault : s.fault = none) :
    ∃ as t, run (lifeStep clock) s as = some t ∧
      if s.world.bp.pollTh.isSome then t.fault = some .assignJoinable
      else t.world = (s.world.resetProducer p).launch ∧ t.caller = .idle ∧ t.todo = s.todo ∧
        t.fault = none := by
  have hreset : s.callerStep clock .ERR_NO_ERROR false = some (s.resetProducer sa p) := by
    rw [Life.callerStep, hcaller]
  have hassign : (s.resetProducer sa p).callerStep clock .ERR_NO_ERROR false =
      some (if s.world.bp.pollTh.isSome then (s.resetProducer sa p).fail .assignJoinable
        else (s.resetProducer sa p).launch sa) := rfl
  refine ⟨_, _, run_caller hfault hreset (run_caller hfault hassign run_nil), ?_⟩
  split
  · rfl
  · exact ⟨rfl, rfl, rfl, hfault⟩

/-- A `connect` that the polling thread does not interrupt does what `connect` does as a
function. -/
theorem run_connect (clock : Clock) {env : ConnectEnv} {sa : DefArg} {errstr : String}
    {rest : List Op} (htodo : s.todo = .connect env sa errstr :: rest) (hcaller : s.caller = .idle)
    (hfault : s.fault = none) :
    ∃ as t, run (lifeStep clock) s as = some t ∧
      match connect env s.world sa errstr with
      | .ok (_, w, _) => t.world = w ∧ t.caller = .idle ∧ t.todo = rest ∧ t.fault = none
      | .error fault => t.fault = some fault := by
  have hbegin : s.callerStep clock .ERR_NO_ERROR false = some s.nextCall :=
    callerStep_idle hcaller _ _
  rcases hcreate : createProducer env s.world.clients sa errstr with ⟨_ | p, text⟩
  · have hnext : s.nextCall = s.begins rest .idle := by simp only [Life.nextCall, htodo, hcreate]
    rw [hnext] at hbegin
    refine ⟨_, _, run_caller hfault hbegin run_nil, ?_⟩
    simp only [connect, hcreate]
    exact ⟨rfl, rfl, rfl, hfault⟩
  · have hnext : s.nextCall = s.begins rest (.reset sa p) := by
      simp only [Life.nextCall, htodo, hcreate]
    rw [hnext] at hbegin
    have hatReset : (s.begins rest (.reset sa p)).caller = .reset sa p := rfl
    obtain ⟨as, t, hrun, ht⟩ := run_reset clock hatReset hfault
    refine ⟨_, t, run_caller hfault hbegin hrun, ?_⟩
    have hsame : (s.begins rest (.reset sa p)).world = s.world := rfl
    rw [hsame] at ht
    rw [connect_of_created hcreate]
    by_cases hjoinable : s.world.bp.pollTh.isSome
    · rw [if_pos hjoinable] at ht ⊢
      exact ht
    · rw [if_neg hjoinable] at ht ⊢
      exact ht

theorem nextCall_connect_of_accepts {env : ConnectEnv} {sa : DefArg} {errstr : String}
    {rest : List Op} (htodo : s.todo = .connect env sa errstr :: rest) (h : env.Accepts sa) :
    ∃ p, s.nextCall = s.begins rest (.reset sa p) := by
  obtain ⟨conf, errstr', hcreate⟩ := createProducer_of_accepts h s.world.clients errstr
  exact ⟨_, by simp only [Life.nextCall, htodo, hcreate]; rfl⟩

theorem nextCall_connect_of_not_accepts {env : ConnectEnv} {sa : DefArg} {errstr : String}
    {rest : List Op} (htodo : s.todo = .connect env sa errstr :: rest) (h : ¬ env.Accepts sa) :
    s.nextCall = s.begins rest .idle := by
  obtain ⟨errstr', hcreate⟩ := createProducer_of_not_accepts h s.world.clients errstr
  simp only [Life.nextCall, htodo, hcreate]

/-! ## The steps as a relation

`Life.Step` names the ways in which `lifeStep` succeeds, with the guard of each; the invariants are
proved by cases on it. -/

inductive Life.Step (clock : Clock) (s : Life) : Life → Prop
  | raiseStop (hcaller : s.caller = .idle) (htodo : s.todo = []) : Step clock s s.raiseStop
  | beginPush (data : TimedDataRaw) (hasToken : Bool) (rest : List Op) (hcaller : s.caller = .idle)
      (htodo : s.todo = .push data hasToken :: rest) :
      Step clock s (s.begins rest (.push data hasToken .produce))
  | connectFails (env : ConnectEnv) (sa : DefArg) (errstr : String) (rest : List Op)
      (hcaller : s.caller = .idle) (htodo : s.todo = .connect env sa errstr :: rest)
      (hfails : ¬ env.Accepts sa) : Step clock s (s.begins rest .idle)
  | connectSucceeds (env : ConnectEnv) (sa : DefArg) (errstr : String) (rest : List Op) (p : Client)
      (hcaller : s.caller = .idle) (htodo : s.todo = .connect env sa errstr :: rest)
      (haccepts : env.Accepts sa) : Step clock s (s.begins rest (.reset sa p))
  | reset (sa : DefArg) (p : Client) (hcaller : s.caller = .reset sa p) :
      Step clock s (s.resetProducer sa p)
  | assignJoinable (sa : DefArg) (hcaller : s.caller = .assign sa)
      (hpollTh : s.world.bp.pollTh.isSome) : Step clock s (s.fail .assignJoinable)
  | launch (sa : DefArg) (hcaller : s.caller = .assign sa) (hpollTh : s.world.bp.pollTh = none) :
      Step clock s (s.launch sa)
  | pushNull (data : TimedDataRaw) (hasToken : Bool) (pc : PushPc)
      (hcaller : s.caller = .push data hasToken pc) (hproducer : s.world.bp.producer = none) :
      Step clock s (s.fail .nullProducer)
  | produced (data : TimedDataRaw) (hasToken : Bool) (err : ErrorCode)
      (hcaller : s.caller = .push data hasToken .produce)
      (hproducer : s.world.bp.producer.isSome) :
      Step clock s (s.produced clock data hasToken err)
  | pushGoesOn (data : TimedDataRaw) (hasToken : Bool) (pc pc' : PushPc)
      (hcaller : s.caller = .push data hasToken pc) (hpc : pc ≠ .produce) :
      Step clock s (s.goto (.push data hasToken pc'))
  | pushReturns (data : TimedDataRaw) (hasToken : Bool) (pc : PushPc)
      (hcaller : s.caller = .push data hasToken pc) (hpc : pc ≠ .produce) :
      Step clock s (s.goto .idle)
  | joinNotJoinable (hcaller : s.caller = .join) (hpollTh : s.world.bp.pollTh = none) :
      Step clock s (s.fail .joinNotJoinable)
  | joined (hcaller : s.caller = .join) (hpoller : s.poller = some .done) : Step clock s s.joined
  | pollerTests (hpoller : s.poller = some .test) :
      Step clock s { s with poller := some (if s.world.bp.stop then .done else .call) }
  | pollerNull (hpoller : s.poller = some .call) (hproducer : s.world.bp.producer = none) :
      Step clock s (s.fail .nullProducer)
  | pollerCalls (p : Client) (hpoller : s.poller = some .call)
      (hproducer : s.world.bp.producer = some p) :
      Step clock s { s with poller := some (.poll p.id) }
  | pollerDestroyed (handle : Nat) (hpoller : s.poller = some (.poll handle))
      (hdestroyed : handle ∈ s.destroyed) : Step clock s (s.fail .destroyedProducer)
  | pollerReturns (handle : Nat) (hpoller : s.poller = some (.poll handle)) :
      Step clock s { s with poller := some .test }

theorem Life.Step.of_nextCall (hcaller : s.caller = .idle) : s.Step clock s.nextCall := by
  cases htodo : s.todo with
  | nil =>
    have hnext : s.nextCall = s.raiseStop := by simp only [Life.nextCall, htodo]
    rw [hnext]
    exact .raiseStop hcaller htodo
  | cons op rest =>
    cases op with
    | push data hasToken =>
      have hnext : s.nextCall = s.begins rest (.push data hasToken .produce) := by
        simp only [Life.nextCall, htodo]
      rw [hnext]
      exact .beginPush data hasToken rest hcaller htodo
    | connect env sa errstr =>
      by_cases haccepts : env.Accepts sa
      · obtain ⟨p, hnext⟩ := nextCall_connect_of_accepts htodo haccepts
        rw [hnext]
        exact .connectSucceeds env sa errstr rest p hcaller htodo haccepts
      · rw [nextCall_connect_of_not_accepts htodo haccepts]
        exact .connectFails env sa errstr rest hcaller htodo haccepts

theorem Life.Step.of_pushStep {data : TimedDataRaw} {hasToken : Bool} {pc : PushPc}
    (hcaller : s.caller = .push data hasToken pc) (err : ErrorCode) (token : Bool) :
    s.Step clock (s.pushStep clock data hasToken err token pc) := by
  cases pc with
  | switch err' =>
    simp only [Life.pushStep]
    cases switchErr err' (hasToken && token) with
    | pollOk => exact .pushGoesOn data hasToken _ .pollOk hcaller (by simp)
    | pollContinue => exact .pushGoesOn data hasToken _ .pollContinue hcaller (by simp)
    | ret status => exact .pushReturns data hasToken _ hcaller (by simp)
  | produce =>
    cases hproducer : s.world.bp.producer with
    | none =>
      simp only [Life.pushStep, hproducer]
      exact .pushNull data hasToken .produce hcaller hproducer
    | some p =>
      simp only [Life.pushStep, hproducer]
      exact .produced data hasToken err hcaller (by simp [hproducer])
  | pollOk =>
    cases hproducer : s.world.bp.producer with
    | none =>
      simp only [Life.pushStep, hproducer]
      exact .pushNull data hasToken .pollOk hcaller hproducer
    | some p =>
      simp only [Life.pushStep, hproducer]
      exact .pushReturns data hasToken .pollOk hcaller (by simp)
  | pollContinue =>
    cases hproducer : s.world.bp.producer with
    | none =>
      simp only [Life.pushStep, hproducer]
      exact .pushNull data hasToken .pollContinue hcaller hproducer
    | some p =>
      simp only [Life.pushStep, hproducer]
      exact .pushGoesOn data hasToken .pollContinue .produce hcaller (by simp)

theorem Life.Step.of_callerStep {err : ErrorCode} {token : Bool}
    (h : s.callerStep clock err token = some t) : s.Step clock t := by
  unfold Life.callerStep at h
  cases hcaller : s.caller with
  | idle =>
    rw [hcaller] at h
    cases h
    exact .of_nextCall hcaller
  | reset sa p =>
    rw [hcaller] at h
    cases h
    exact .reset sa p hcaller
  | assign sa =>
    rw [hcaller] at h
    cases h
    split
    · rename_i hpollTh
      exact .assignJoinable sa hcaller hpollTh
    · rename_i hpollTh
      exact .launch sa hcaller (Option.not_isSome_iff_eq_none.mp hpollTh)
  | push data hasToken pc =>
    rw [hcaller] at h
    cases h
    exact .of_pushStep hcaller err token
  | join =>
    rw [hcaller] at h
    cases hpollTh : s.world.bp.pollTh with
    | none =>
      simp only [hpollTh, Option.some.injEq] at h
      subst h
      exact .joinNotJoinable hcaller hpollTh
    | some th =>
      simp only [hpollTh] at h
      obtain ⟨hpoller, h⟩ := Option.ite_none_right_eq_some.mp h
      cases h
      exact .joined hcaller hpoller
  | destroyed =>
    rw [hcaller] at h
    cases h

theorem Life.Step.of_pollerStep (h : s.pollerStep = some t) : s.Step clock t := by
  unfold Life.pollerStep at h
  split at h
  · rename_i hpoller
    cases h
    exact .pollerTests hpoller
  · rename_i hpoller
    split at h
    · rename_i hproducer
      cases h
      exact .pollerNull hpoller hproducer
    · rename_i p hproducer
      cases h
      exact .pollerCalls p hpoller hproducer
  · rename_i handle hpoller
    cases h
    split
    · rename_i hdestroyed
      exact .pollerDestroyed handle hpoller hdestroyed
    · exact .pollerReturns handle hpoller
  · cases h

/-- Before a step nothing has ended the program. -/
theorem Life.Step.of_lifeStep {a : LifeAction} (h : lifeStep clock s a = some t) :
    s.fault = none ∧ s.Step clock t := by
  cases a with
  | caller err token =>
    obtain ⟨hfault, h⟩ := Option.ite_none_right_eq_some.mp h
    exact ⟨hfault, .of_callerStep h⟩
  | poller =>
    obtain ⟨hfault, h⟩ := Option.ite_none_right_eq_some.mp h
    exact ⟨hfault, .of_pollerStep h⟩

/-! ## Sequences of calls that are safe -/

/-- One `connect` succeeds and no other does, and no `push` comes before it. -/
def ConnectsOnce : List Op → Prop
  | [] => False
  | op :: rest =>
    op.Succeeds ∧ (∀ later ∈ rest, ¬ later.Succeeds) ∨ op.Fails ∧ ConnectsOnce rest

/-- Neither a handle nor a thread. -/
structure Life.Unconnected (s : Life) : Prop where
  producer : s.world.bp.producer = none
  pollTh : s.world.bp.pollTh = none
  poller : s.poller = none
  destroyed : s.destroyed = []

/-- A handle and a thread that polls it. -/
structure Life.Connected (s : Life) : Prop where
  producer : s.world.bp.producer.isSome
  pollTh : s.world.bp.pollTh.isSome
  destroyed : s.destroyed = []

/-- The caller is neither in `connect` nor through with the destructor. -/
def CallerPc.Outside : CallerPc → Prop
  | .idle | .push _ _ _ | .join => True
  | _ => False

/-- Where a producer can be whose calls are safe. -/
inductive Life.Safe (s : Life) : Prop
  | unconnected (hcaller : s.caller = .idle) (hs : s.Unconnected) (htodo : ConnectsOnce s.todo)
  | reset (sa : DefArg) (p : Client) (hcaller : s.caller = .reset sa p) (hs : s.Unconnected)
      (htodo : ∀ op ∈ s.todo, ¬ op.Succeeds)
  | assign (sa : DefArg) (hcaller : s.caller = .assign sa)
      (hproducer : s.world.bp.producer.isSome) (hpollTh : s.world.bp.pollTh = none)
      (hpoller : s.poller = none) (hdestroyed : s.destroyed = [])
      (htodo : ∀ op ∈ s.todo, ¬ op.Succeeds)
  | connected (hcaller : s.caller.Outside) (hs : s.Connected)
      (htodo : ∀ op ∈ s.todo, ¬ op.Succeeds)
  | destroyed (hcaller : s.caller = .destroyed) (hpoller : s.poller = some .done)

/-! ### Where a safe producer is -/

theorem Life.Safe.of_idle (hs : s.Safe) (h : s.caller = .idle) :
    s.Unconnected ∧ ConnectsOnce s.todo ∨ s.Connected ∧ ∀ op ∈ s.todo, ¬ op.Succeeds := by
  cases hs with
  | unconnected hcaller hs htodo => exact .inl ⟨hs, htodo⟩
  | connected hcaller hs htodo => exact .inr ⟨hs, htodo⟩
  | reset sa p hcaller => cases h.symm.trans hcaller
  | assign sa hcaller => cases h.symm.trans hcaller
  | destroyed hcaller => cases h.symm.trans hcaller

theorem Life.Safe.of_reset (hs : s.Safe) {sa : DefArg} {p : Client}
    (h : s.caller = .reset sa p) : s.Unconnected ∧ ∀ op ∈ s.todo, ¬ op.Succeeds := by
  cases hs with
  | reset sa p hcaller hs htodo => exact ⟨hs, htodo⟩
  | connected hcaller =>
    rw [h] at hcaller
    exact hcaller.elim
  | unconnected hcaller => cases h.symm.trans hcaller
  | assign sa hcaller => cases h.symm.trans hcaller
  | destroyed hcaller => cases h.symm.trans hcaller

/-- At the assignment of the thread there is a handle and no thread. -/
theorem Life.Safe.of_assign (hs : s.Safe) {sa : DefArg} (h : s.caller = .assign sa) :
    s.world.bp.producer.isSome ∧ s.world.bp.pollTh = none ∧ s.destroyed = [] ∧
      ∀ op ∈ s.todo, ¬ op.Succeeds := by
  cases hs with
  | assign sa hcaller hproducer hpollTh hpoller hdestroyed htodo =>
    exact ⟨hproducer, hpollTh, hdestroyed, htodo⟩
  | connected hcaller =>
    rw [h] at hcaller
    exact hcaller.elim
  | unconnected hcaller => cases h.symm.trans hcaller
  | reset sa p hcaller => cases h.symm.trans hcaller
  | destroyed hcaller => cases h.symm.trans hcaller

/-- In `push` and at the join it is connected. -/
theorem Life.Safe.of_outside (hs : s.Safe) (houtside : s.caller.Outside)
    (hidle : s.caller ≠ .idle) : s.Connected ∧ ∀ op ∈ s.todo, ¬ op.Succeeds := by
  cases hs with
  | connected hcaller hs htodo => exact ⟨hs, htodo⟩
  | unconnected hcaller => exact absurd hcaller hidle
  | reset sa p hcaller =>
    rw [hcaller] at houtside
    exact houtside.elim
  | assign sa hcaller =>
    rw [hcaller] at houtside
    exact houtside.elim
  | destroyed hcaller =>
    rw [hcaller] at houtside
    exact houtside.elim

theorem Life.Safe.of_push (hs : s.Safe) {data : TimedDataRaw} {hasToken : Bool} {pc : PushPc}
    (h : s.caller = .push data hasToken pc) : s.Connected ∧ ∀ op ∈ s.todo, ¬ op.Succeeds :=
  hs.of_outside (by rw [h]; trivial) (by rw [h]; simp)

theorem Life.Safe.of_join (hs : s.Safe) (h : s.caller = .join) :
    s.Connected ∧ ∀ op ∈ s.todo, ¬ op.Succeeds :=
  hs.of_outside (by rw [h]; trivial) (by rw [h]; simp)

/-- As long as the polling thread runs it is connected. -/
theorem Life.Safe.of_poller (hs : s.Safe) {pc : PollPc} (h : s.poller = some pc)
    (hpc : pc ≠ .done) :
    s.caller.Outside ∧ s.Connected ∧ ∀ op ∈ s.todo, ¬ op.Succeeds := by
  cases hs with
  | connected hcaller hs htodo => exact ⟨hcaller, hs, htodo⟩
  | unconnected hcaller hs => cases h.symm.trans hs.poller
  | reset sa p hcaller hs => cases h.symm.trans hs.poller
  | assign sa hcaller hproducer hpollTh hpoller => cases h.symm.trans hpoller
  | destroyed hcaller hpoller =>
    cases h.symm.trans hpoller
    exact absurd rfl hpc

/-! ### Every step keeps it safe -/

/-- A connected producer stays connected while the handle and the threads stay. -/
theorem Life.Connected.safe (hs : s.Connected) (htodo : ∀ op ∈ t.todo, ¬ op.Succeeds)
    (hcaller : t.caller.Outside) (hworld : t.world.bp.producer = s.world.bp.producer ∧
      t.world.bp.pollTh = s.world.bp.pollTh) (hdestroyed : t.destroyed = s.destroyed) :
    t.Safe :=
  .connected hcaller ⟨hworld.1 ▸ hs.producer, hworld.2 ▸ hs.pollTh, hdestroyed ▸ hs.destroyed⟩
    htodo

theorem Life.Safe.of_step (hs : s.Safe) (hfault : s.fault = none) (h : s.Step clock t) :
    t.fault = none ∧ t.Safe := by
  cases h with
  | raiseStop hcaller htodo =>
    rcases hs.of_idle hcaller with ⟨-, hscript⟩ | ⟨hs, hscript⟩
    · rw [htodo] at hscript
      exact hscript.elim
    · exact ⟨hfault, hs.safe hscript trivial ⟨rfl, rfl⟩ rfl⟩
  | beginPush data hasToken rest hcaller htodo =>
    have hscript := hs.of_idle hcaller
    rw [htodo] at hscript
    rcases hscript with ⟨-, ⟨hop, -⟩ | ⟨hop, -⟩⟩ | ⟨hs, hscript⟩
    · exact hop.elim
    · exact hop.elim
    · exact ⟨hfault, hs.safe (List.forall_mem_cons.mp hscript).2 trivial ⟨rfl, rfl⟩ rfl⟩
  | connectFails env sa errstr rest hcaller htodo hfails =>
    have hscript := hs.of_idle hcaller
    rw [htodo] at hscript
    rcases hscript with ⟨hs, ⟨haccepts, -⟩ | ⟨-, hrest⟩⟩ | ⟨hs, hscript⟩
    · exact absurd haccepts hfails
    · exact ⟨hfault, .unconnected rfl ⟨hs.producer, hs.pollTh, hs.poller, hs.destroyed⟩ hrest⟩
    · exact ⟨hfault, hs.safe (List.forall_mem_cons.mp hscript).2 trivial ⟨rfl, rfl⟩ rfl⟩
  | connectSucceeds env sa errstr rest p hcaller htodo haccepts =>
    have hscript := hs.of_idle hcaller
    rw [htodo] at hscript
    rcases hscript with ⟨hs, ⟨-, hrest⟩ | ⟨hfails, -⟩⟩ | ⟨-, hscript⟩
    · exact ⟨hfault, .reset sa p rfl ⟨hs.producer, hs.pollTh, hs.poller, hs.destroyed⟩ hrest⟩
    · exact absurd haccepts hfails
    · exact absurd haccepts (List.forall_mem_cons.mp hscript).1
  | reset sa p hcaller =>
    obtain ⟨hs, hscript⟩ := hs.of_reset hcaller
    refine ⟨hfault, .assign sa rfl rfl hs.pollTh hs.poller ?_ hscript⟩
    simp [Life.resetProducer, hs.destroyed, hs.producer]
  | assignJoinable sa hcaller hpollTh =>
    obtain ⟨-, hnone, -⟩ := hs.of_assign hcaller
    simp [hnone] at hpollTh
  | launch sa hcaller hpollTh =>
    obtain ⟨hproducer, -, hdestroyed, hscript⟩ := hs.of_assign hcaller
    exact ⟨hfault, .connected trivial ⟨hproducer, rfl, hdestroyed⟩ hscript⟩
  | pushNull data hasToken pc hcaller hproducer =>
    obtain ⟨hs, -⟩ := hs.of_push hcaller
    simpa [hproducer] using hs.producer
  | produced data hasToken err hcaller hproducer =>
    obtain ⟨hs, hscript⟩ := hs.of_push hcaller
    exact ⟨hfault, hs.safe hscript trivial ⟨rfl, rfl⟩ rfl⟩
  | pushGoesOn data hasToken pc pc' hcaller hpc =>
    obtain ⟨hs, hscript⟩ := hs.of_push hcaller
    exact ⟨hfault, hs.safe hscript trivial ⟨rfl, rfl⟩ rfl⟩
  | pushReturns data hasToken pc hcaller hpc =>
    obtain ⟨hs, hscript⟩ := hs.of_push hcaller
    exact ⟨hfault, hs.safe hscript trivial ⟨rfl, rfl⟩ rfl⟩
  | joinNotJoinable hcaller hpollTh =>
    obtain ⟨hs, -⟩ := hs.of_join hcaller
    simpa [hpollTh] using hs.pollTh
  | joined hcaller hpoller => exact ⟨hfault, .destroyed rfl hpoller⟩
  | pollerTests hpoller =>
    obtain ⟨hcaller, hs, hscript⟩ := hs.of_poller hpoller (by decide)
    exact ⟨hfault, hs.safe hscript hcaller ⟨rfl, rfl⟩ rfl⟩
  | pollerNull hpoller hproducer =>
    obtain ⟨-, hs, -⟩ := hs.of_poller hpoller (by decide)
    simpa [hproducer] using hs.producer
  | pollerCalls p hpoller hproducer =>
    obtain ⟨hcaller, hs, hscript⟩ := hs.of_poller hpoller (by decide)
    exact ⟨hfault, hs.safe hscript hcaller ⟨rfl, rfl⟩ rfl⟩
  | pollerDestroyed handle hpoller hdestroyed =>
    -- the handle that it polls is not destroyed before it has ended
    obtain ⟨-, hs, -⟩ := hs.of_poller hpoller (by simp)
    simp [hs.destroyed] at hdestroyed
  | pollerReturns handle hpoller =>
    obtain ⟨hcaller, hs, hscript⟩ := hs.of_poller hpoller (by simp)
    exact ⟨hfault, hs.safe hscript hcaller ⟨rfl, rfl⟩ rfl⟩

/-- A producer with a safe sequence of calls never comes to a fault. -/
theorem fault_eq_none_of_connectsOnce {stop : Bool} {script : List Op}
    (hscript : ConnectsOnce script) {as : List LifeAction}
    (hrun : run (lifeStep clock) (Life.begin stop script) as = some s) : s.fault = none := by
  have hinv : s.fault = none ∧ s.Safe := by
    apply run_invariant (I := fun s : Life => s.fault = none ∧ s.Safe) ?_ hrun
    · exact ⟨rfl, .unconnected rfl ⟨rfl, rfl, rfl, rfl⟩ hscript⟩
    · rintro s a t ⟨-, hs⟩ h
      obtain ⟨hfault, hstep⟩ := Life.Step.of_lifeStep h
      exact hs.of_step hfault hstep
  exact hinv.1

/-! ## Sequences of calls that are not -/

/-- Some interleaving leads to a fault. -/
def Life.CanFault (clock : Clock) (s : Life) : Prop :=
  ∃ as t, run (lifeStep clock) s as = some t ∧ t.fault ≠ none

theorem Life.CanFault.of_fault (h : s.fault ≠ none) : s.CanFault clock := ⟨[], s, rfl, h⟩

theorem Life.CanFault.of_caller (hfault : s.fault = none)
    (h : s.callerStep clock .ERR_NO_ERROR false = some t) (ht : t.CanFault clock) :
    s.CanFault clock := by
  obtain ⟨as, u, hrun, hu⟩ := ht
  exact ⟨_, u, run_caller hfault h hrun, hu⟩

/-- A `push` that succeeds at once gets back to its caller. -/
theorem canFault_of_push {data : TimedDataRaw} {hasToken : Bool} {p : Client}
    (hcaller : s.caller = .push data hasToken .produce) (hfault : s.fault = none)
    (hproducer : s.world.bp.producer = some p)
    (hnext : ∀ accepted, Life.CanFault clock { s with caller := .idle, accepted := accepted }) :
    s.CanFault clock := by
  refine .of_caller (t := s.produced clock data hasToken .ERR_NO_ERROR) hfault ?_ ?_
  · simp only [Life.callerStep, hcaller, Life.pushStep, hproducer]
  · refine .of_caller (t := (s.produced clock data hasToken .ERR_NO_ERROR).goto
      (.push data hasToken .pollOk)) hfault rfl ?_
    refine .of_caller (t := (s.produced clock data hasToken .ERR_NO_ERROR).goto .idle) hfault ?_ ?_
    · simp only [Life.callerStep, Life.goto, Life.pushStep, Life.produced, hproducer]
    · exact hnext _

/-- A `connect` either comes to a fault or leaves what `connect` returns. -/
theorem Life.CanFault.of_connect {env : ConnectEnv} {sa : DefArg} {errstr : String}
    {rest : List Op} (htodo : s.todo = .connect env sa errstr :: rest) (hcaller : s.caller = .idle)
    (hfault : s.fault = none)
    (hnext : ∀ t r, connect env s.world sa errstr = .ok r → t.world = r.2.1 → t.caller = .idle →
      t.todo = rest → t.fault = none → Life.CanFault clock t) : s.CanFault clock := by
  obtain ⟨as, t, hrun, ht⟩ := run_connect clock htodo hcaller hfault
  cases hconnect : connect env s.world sa errstr with
  | error fault =>
    rw [hconnect] at ht
    exact ⟨as, t, hrun, by simp [ht]⟩
  | ok r =>
    rw [hconnect] at ht
    obtain ⟨hworld, hidle, hrest, hnone⟩ := ht
    obtain ⟨bs, u, hrun', hu⟩ := hnext t r hconnect hworld hidle hrest hnone
    exact ⟨as ++ bs, u, run_append_eq_some.mpr ⟨t, hrun, hrun'⟩, hu⟩

/-- A second `connect` that succeeds assigns to the thread of the first. -/
theorem canFault_of_reconnect {ops : List Op} (hops : s.todo = ops) (hcaller : s.caller = .idle)
    (hfault : s.fault = none) (hproducer : s.world.bp.producer.isSome)
    (hpollTh : s.world.bp.pollTh.isSome) (hagain : ∃ op ∈ ops, op.Succeeds) :
    s.CanFault clock := by
  induction ops generalizing s with
  | nil =>
    obtain ⟨op, hop, -⟩ := hagain
    cases hop
  | cons op rest ih =>
    cases op with
    | push data hasToken =>
      have hrest : ∃ op ∈ rest, op.Succeeds := by simpa [Op.Succeeds] using hagain
      have hnext : s.nextCall = s.begins rest (.push data hasToken .produce) := by
        simp only [Life.nextCall, hops]
      obtain ⟨p, hp⟩ := Option.isSome_iff_exists.mp hproducer
      refine .of_caller hfault (callerStep_idle hcaller _ _) ?_
      rw [hnext]
      apply canFault_of_push (s := s.begins rest (.push data hasToken .produce)) rfl hfault hp
      intro accepted
      exact ih rfl rfl hfault hproducer hpollTh hrest
    | connect env sa errstr =>
      apply Life.CanFault.of_connect hops hcaller hfault
      rintro t r hok hworld hidle hrest hnone
      by_cases haccepts : env.Accepts sa
      · obtain ⟨conf, text, hcreate⟩ := createProducer_of_accepts haccepts s.world.clients errstr
        rw [connect_of_created hcreate, if_pos hpollTh] at hok
        cases hok
      · obtain ⟨text, hconnect⟩ := connect_of_not_accepts haccepts s.world errstr
        rw [hconnect] at hok
        cases hok
        have hagain' : ∃ op ∈ rest, op.Succeeds := by simpa [Op.Succeeds, haccepts] using hagain
        exact ih hrest hidle hnone (hworld ▸ hproducer) (hworld ▸ hpollTh) hagain'

/-- Every sequence of calls that is not safe can lead to a fault. -/
theorem canFault_of_not_connectsOnce {ops : List Op} (hops : s.todo = ops)
    (hcaller : s.caller = .idle) (hfault : s.fault = none)
    (hproducer : s.world.bp.producer = none) (hpollTh : s.world.bp.pollTh = none)
    (hnot : ¬ ConnectsOnce ops) : s.CanFault clock := by
  induction ops generalizing s with
  | nil =>
    have hnext : s.nextCall = s.raiseStop := by simp only [Life.nextCall, hops]
    refine .of_caller hfault (callerStep_idle hcaller _ _) ?_
    rw [hnext]
    refine .of_caller (t := s.raiseStop.fail .joinNotJoinable) hfault ?_
      (.of_fault (by simp [Life.fail]))
    simp only [Life.callerStep, Life.raiseStop, hpollTh]
  | cons op rest ih =>
    cases op with
    | push data hasToken =>
      have hnext : s.nextCall = s.begins rest (.push data hasToken .produce) := by
        simp only [Life.nextCall, hops]
      refine .of_caller hfault (callerStep_idle hcaller _ _) ?_
      rw [hnext]
      refine .of_caller (t := (s.begins rest (.push data hasToken .produce)).fail .nullProducer)
        hfault ?_ (.of_fault (by simp [Life.fail]))
      simp only [Life.callerStep, Life.begins, Life.pushStep, hproducer]
    | connect env sa errstr =>
      apply Life.CanFault.of_connect hops hcaller hfault
      rintro t r hok hworld hidle hrest hnone
      by_cases haccepts : env.Accepts sa
      · obtain ⟨conf, text, hcreate⟩ := createProducer_of_accepts haccepts s.world.clients errstr
        rw [connect_of_created hcreate, if_neg (by simp [hpollTh])] at hok
        cases hok
        -- the condition allows no further `connect` to succeed
        have hagain : ∃ op ∈ rest, op.Succeeds := by
          by_contra hnone
          refine hnot (.inl ⟨haccepts, fun later hlater hsucceeds => ?_⟩)
          exact hnone ⟨later, hlater, hsucceeds⟩
        exact canFault_of_reconnect hrest hidle hnone (by rw [hworld]; rfl) (by rw [hworld]; rfl)
          hagain
      · obtain ⟨text, hconnect⟩ := connect_of_not_accepts haccepts s.world errstr
        rw [hconnect] at hok
        cases hok
        have hnot' : ¬ ConnectsOnce rest := fun hrest => hnot (.inr ⟨haccepts, hrest⟩)
        exact ih hrest hidle hnone (hworld ▸ hproducer) (hworld ▸ hpollTh) hnot'

/-- A producer is safe, in every interleaving with its polling thread, exactly when one `connect`
of its life succeeds and no other does, and no `push` comes before it. -/
theorem never_faults_iff_connects_once (clock : Clock) (stop : Bool) (script : List Op) :
    (∀ as s, run (lifeStep clock) (Life.begin stop script) as = some s → s.fault = none) ↔
      ConnectsOnce script := by
  constructor
  · intro hsafe
    by_contra hnot
    obtain ⟨as, s, hrun, hfault⟩ : (Life.begin stop script).CanFault clock :=
      canFault_of_not_connectsOnce rfl rfl rfl rfl rfl hnot
    exact hfault (hsafe as s hrun)
  · intro hscript as s hrun
    exact fault_eq_none_of_connectsOnce hscript hrun

/-- A `push` after a `connect` that returned false goes through a null `_producer`. -/
theorem push_after_failed_connect_faults :
    ¬ ∀ clock stop script as s, run (lifeStep clock) (Life.begin stop script) as = some s →
      s.fault = none := by
  intro hclaim
  have hnone := hclaim .hundredNanoseconds false
    [.connect (.accepting (some "No provider")) (localArgs "test") "", .push ⟨0, [7]⟩ false]
    [.caller .ERR_NO_ERROR false, .caller .ERR_NO_ERROR false, .caller .ERR_NO_ERROR false] _ rfl
  cases hnone

/-! ## The topic of the records -/

/-- Between `s` and `t` the topic has stayed, and records accepted meanwhile are addressed to
it. -/
def Life.KeepsTopic (s t : Life) : Prop :=
  t.world.bp.topic = s.world.bp.topic ∧
    ∀ r ∈ t.accepted, r ∈ s.accepted ∨ r.2.topicName = s.world.bp.topic

theorem Life.keepsTopic_of_eq (htopic : t.world.bp.topic = s.world.bp.topic)
    (haccepted : t.accepted = s.accepted) : s.KeepsTopic t :=
  ⟨htopic, fun _ hr => .inl (haccepted ▸ hr)⟩

theorem Life.Step.keepsTopic (h : s.Step clock t) : s.KeepsTopic t := by
  cases h with
  | produced data hasToken err hcaller hproducer =>
    refine ⟨rfl, fun r hr => ?_⟩
    simp only [Life.produced] at hr
    split at hr
    · rcases List.mem_append.mp hr with hr | hr
      · exact .inl hr
      · rw [List.mem_singleton.mp hr]
        exact .inr rfl
    · exact .inl hr
  | _ => exact keepsTopic_of_eq rfl rfl

/-- Nothing ever writes `_topic`: every record is addressed to the empty topic name. -/
theorem topicName_eq_empty {stop : Bool} {script : List Op} {as : List LifeAction}
    (hrun : run (lifeStep clock) (Life.begin stop script) as = some s) :
    ∀ r ∈ s.accepted, r.2.topicName = "" := by
  have hinv : s.world.bp.topic = "" ∧ ∀ r ∈ s.accepted, r.2.topicName = "" := by
    apply run_invariant (I := fun s : Life => s.world.bp.topic = "" ∧
      ∀ r ∈ s.accepted, r.2.topicName = "") ?_ hrun
    · refine ⟨rfl, fun r hr => ?_⟩
      cases hr
    · rintro s a t ⟨htopic, haccepted⟩ h
      obtain ⟨hsame, hnew⟩ := (Life.Step.of_lifeStep h).2.keepsTopic
      refine ⟨hsame.trans htopic, fun r hr => ?_⟩
      rcases hnew r hr with hold | hto
      · exact haccepted r hold
      · exact hto.trans htopic
  exact hinv.2

end TsKafka.BasicProducer
