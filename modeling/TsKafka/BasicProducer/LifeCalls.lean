import TsKafka.BasicProducer.Lifecycle
import TsKafka.BasicProducer.PushThreads

/-!
# A producer's life, call by call

`Life` goes through `connect` and `push` in steps, next to `bg_pool`. Between two calls it is what
the functions `connect` and `push` make of the calls so far, one after the other and each `push`
with what its attempts have met; and whatever the functions make of them, some life comes to.
-/

namespace TsKafka.BasicProducer
open RdKafka PartialRun

/-! ## The calls as functions -/

/-- What a sequence of calls has done. -/
structure Effects where
  world : World
  connectedTo : Option DefArg
  accepted : List (Option DefArg × ProduceArgs)

def Effects.constructed (stop : Bool) : Effects where
  world := .constructed stop
  connectedTo := none
  accepted := []

/-- The calls `calls` on the producer handle have been made. -/
def Effects.made (e : Effects) (calls : List ProducerCall) : Effects :=
  { e with
    accepted := e.accepted ++ (BasicProducer.accepted calls).map fun args => (e.connectedTo, args) }

/-- A public call, with the attempts that it meets if it is a `push`. It has no effects when it
ends the program or does not return. -/
def Op.exec (clock : Clock) (e : Effects) (attempts : List Attempt) : Op → Option Effects
  | .connect env sa errstr =>
    match BasicProducer.connect env e.world sa errstr with
    | .ok (connected, w, _) =>
      some { e with world := w, connectedTo := if connected then some sa else e.connectedTo }
    | .error _ => none
  | .push data hasToken =>
    let r := BasicProducer.push (produceArgs clock e.world.bp.topic data) hasToken attempts
    if e.world.bp.producer.isSome ∧ r.status.isSome then some (e.made r.calls) else none

/-- The next of the calls that are still to be made. -/
def callStep (clock : Clock) (s : Effects × List Op) (attempts : List Attempt) :
    Option (Effects × List Op) :=
  match s.2 with
  | [] => none
  | op :: rest => (op.exec clock s.1 attempts).map fun e => (e, rest)

variable {clock : Clock} {s t : Life} {e e' : Effects} {ops rest : List Op}

@[simp] theorem Effects.made_nil (e : Effects) : e.made [] = e := by
  simp [Effects.made]

theorem Effects.made_append (e : Effects) (calls more : List ProducerCall) :
    e.made (calls ++ more) = (e.made calls).made more := by
  simp [Effects.made, BasicProducer.accepted]

theorem Effects.made_cons (e : Effects) (call : ProducerCall) (calls : List ProducerCall) :
    e.made (call :: calls) = (e.made [call]).made calls :=
  e.made_append [call] calls

@[simp] theorem Effects.made_poll (e : Effects) (timeoutMs : Nat) :
    e.made [.poll timeoutMs] = e := by
  simp [Effects.made]

theorem exec_connect_of_created {env : ConnectEnv} {sa : DefArg} {errstr text : String} {p : Client}
    (h : createProducer env e.world.clients sa errstr = (some p, text)) (attempts : List Attempt) :
    (Op.connect env sa errstr).exec clock e attempts =
      if e.world.bp.pollTh.isSome then none
      else some { e with world := (e.world.resetProducer p).launch, connectedTo := some sa } := by
  simp only [Op.exec, connect_of_created h]
  cases e.world.bp.pollTh <;> rfl

theorem exec_connect_of_not_accepts {env : ConnectEnv} {sa : DefArg} (h : ¬ env.Accepts sa)
    (e : Effects) (errstr : String) (attempts : List Attempt) :
    (Op.connect env sa errstr).exec clock e attempts = some e := by
  obtain ⟨text, hconnect⟩ := connect_of_not_accepts h e.world errstr
  simp only [Op.exec, hconnect]
  rfl

theorem callStep_cons {op : Op} {attempts : List Attempt}
    (h : op.exec clock e attempts = some e') :
    callStep clock (e, op :: rest) attempts = some (e', rest) := by
  simp only [callStep, h, Option.map_some]

/-! ## Where a life is in its calls -/

def Life.effects (s : Life) : Effects := ⟨s.world, s.connectedTo, s.accepted⟩

theorem Life.effects_produced (clock : Clock) (s : Life) (data : TimedDataRaw) (hasToken : Bool)
    (err : ErrorCode) :
    (s.produced clock data hasToken err).effects =
      s.effects.made [.produce (produceArgs clock s.world.bp.topic data) err] := by
  unfold Life.produced Effects.made
  by_cases herr : err = .ERR_NO_ERROR <;> simp [Life.effects, accepted_produce, herr]

/-- The caller is between two calls and is going to make the calls `ops`. -/
structure Life.Between (s : Life) (ops : List Op) : Prop where
  caller : s.caller = .idle
  fault : s.fault = none
  todo : s.todo = ops

/-- The calls that have returned have had the effects `e`; `ops` are the one that the caller is in
and those after it. -/
inductive Life.Within (clock : Clock) (s : Life) (e : Effects) (ops : List Op) : Prop
  | idle (hcaller : s.caller = .idle) (hops : ops = s.todo) (heffects : s.effects = e)
  | reset (env : ConnectEnv) (sa : DefArg) (errstr text : String) (p : Client)
      (hcaller : s.caller = .reset sa p) (hops : ops = .connect env sa errstr :: s.todo)
      (hcreate : createProducer env e.world.clients sa errstr = (some p, text))
      (heffects : s.effects = e)
  | assign (env : ConnectEnv) (sa : DefArg) (errstr text : String) (p : Client)
      (hcaller : s.caller = .assign sa) (hops : ops = .connect env sa errstr :: s.todo)
      (hcreate : createProducer env e.world.clients sa errstr = (some p, text))
      (heffects : s.effects = { e with world := e.world.resetProducer p })
  | push (data : TimedDataRaw) (hasToken : Bool) (pc : PushPc) (calls : List ProducerCall)
      (hcaller : s.caller = .push data hasToken pc) (hops : ops = .push data hasToken :: s.todo)
      (hproducer : pc = .produce ∨ e.world.bp.producer.isSome)
      (hgoing : Frame.Going clock e.world.bp.topic ⟨data, hasToken, pc, none⟩ calls)
      (heffects : s.effects = e.made calls)
  | destructor (hcaller : s.caller = .join ∨ s.caller = .destroyed) (hops : ops = [])
      (hpollTh : s.caller = .join → s.world.bp.pollTh = e.world.bp.pollTh)

/-- Unless a fault has ended it, the life is where `p` says: the effects so far, the calls left. -/
def Life.At (clock : Clock) (s : Life) (p : Effects × List Op) : Prop :=
  s.fault = none → s.Within clock p.1 p.2

/-- The calls that have returned, as functions, get from `p` to where the life is. -/
def Life.Follows (clock : Clock) (s : Life) (p : Effects × List Op) : Prop :=
  ∃ met p', run (callStep clock) p met = some p' ∧ s.At clock p'

theorem Life.Follows.of_fault (h : s.fault ≠ none) (p : Effects × List Op) :
    s.Follows clock p := by
  refine ⟨[], p, rfl, ?_⟩
  intro hfault
  exact absurd hfault h

theorem Life.Within.follows (h : s.Within clock e ops) : s.Follows clock (e, ops) :=
  ⟨[], (e, ops), rfl, fun _ => h⟩

/-- A call has returned. -/
theorem Life.Within.follows_of_exec {op : Op} {attempts : List Attempt}
    (h : s.Within clock e' rest) (hexec : op.exec clock e attempts = some e') :
    s.Follows clock (e, op :: rest) :=
  ⟨[attempts], (e', rest), run_singleton (callStep_cons hexec), fun _ => h⟩

/-- A step of the polling thread. -/
theorem Life.Within.congr (h : s.Within clock e ops) (hcaller : t.caller = s.caller)
    (htodo : t.todo = s.todo) (heffects : t.effects = s.effects) : t.Within clock e ops := by
  cases h with
  | idle h hops he => exact .idle (hcaller.trans h) (htodo ▸ hops) (heffects.trans he)
  | reset env sa errstr text p h hops hcreate he =>
    exact .reset env sa errstr text p (hcaller.trans h) (htodo ▸ hops) hcreate (heffects.trans he)
  | assign env sa errstr text p h hops hcreate he =>
    exact .assign env sa errstr text p (hcaller.trans h) (htodo ▸ hops) hcreate
      (heffects.trans he)
  | push data hasToken pc calls h hops hproducer hgoing he =>
    exact .push data hasToken pc calls (hcaller.trans h) (htodo ▸ hops) hproducer hgoing
      (heffects.trans he)
  | destructor h hops hpollTh =>
    have hworld : t.world = s.world := congrArg Effects.world heffects
    exact .destructor (hcaller ▸ h) hops (by rw [hcaller, hworld]; exact hpollTh)

/-! ## Every step keeps to the functions -/

theorem nextCall_connect_of_created {env : ConnectEnv} {sa : DefArg} {errstr text : String}
    {p : Client} (htodo : s.todo = .connect env sa errstr :: rest)
    (hcreate : createProducer env s.world.clients sa errstr = (some p, text)) :
    s.nextCall = s.begins rest (.reset sa p) := by
  simp only [Life.nextCall, htodo, hcreate]

theorem Life.follows_nextCall (clock : Clock) (s : Life) :
    s.nextCall.Follows clock (s.effects, s.todo) := by
  cases htodo : s.todo with
  | nil =>
    have hnext : s.nextCall = s.raiseStop := by simp only [Life.nextCall, htodo]
    rw [hnext]
    exact Life.Within.follows (.destructor (.inl rfl) rfl fun _ => rfl)
  | cons op rest =>
    cases op with
    | push data hasToken =>
      have hnext : s.nextCall = s.begins rest (.push data hasToken .produce) := by
        simp only [Life.nextCall, htodo]
      rw [hnext]
      exact Life.Within.follows (.push data hasToken .produce [] rfl rfl (.inl rfl)
        ⟨[], [], rfl, rfl⟩ (Effects.made_nil _).symm)
    | connect env sa errstr =>
      by_cases haccepts : env.Accepts sa
      · obtain ⟨conf, text, hcreate⟩ := createProducer_of_accepts haccepts s.world.clients errstr
        have hnext := nextCall_connect_of_created htodo hcreate
        rw [hnext]
        exact Life.Within.follows (.reset env sa errstr text _ rfl rfl hcreate rfl)
      · rw [nextCall_connect_of_not_accepts htodo haccepts]
        exact Life.Within.follows_of_exec (.idle rfl rfl rfl)
          (exec_connect_of_not_accepts haccepts s.effects errstr [])

/-- The assignment of the thread is the end of `connect`. -/
theorem Life.follows_assign {env : ConnectEnv} {sa : DefArg} {errstr text : String} {p : Client}
    (hcreate : createProducer env e.world.clients sa errstr = (some p, text))
    (heffects : s.effects = { e with world := e.world.resetProducer p }) :
    (if s.world.bp.pollTh.isSome then s.fail .assignJoinable else s.launch sa).Follows clock
      (e, .connect env sa errstr :: s.todo) := by
  have hworld : s.world = e.world.resetProducer p := congrArg Effects.world heffects
  have haccepted : s.accepted = e.accepted := congrArg Effects.accepted heffects
  have hpollTh : s.world.bp.pollTh = e.world.bp.pollTh := by rw [hworld]; rfl
  split
  · exact .of_fault (by simp [Life.fail]) _
  · rename_i hnone
    have hexec : (Op.connect env sa errstr).exec clock e [] = some (s.launch sa).effects := by
      rw [exec_connect_of_created hcreate, if_neg (hpollTh ▸ hnone)]
      simp [Life.effects, Life.launch, hworld, haccepted]
    exact Life.Within.follows_of_exec (.idle rfl rfl rfl) hexec

/-- `push` returns. -/
theorem Life.follows_returns {data : TimedDataRaw} {hasToken : Bool} {calls : List ProducerCall}
    {status : ProducerStatus} (hproducer : e.world.bp.producer.isSome)
    (hpush : ∃ attempts, push (produceArgs clock e.world.bp.topic data) hasToken attempts =
      ⟨calls, some status⟩)
    (hcaller : t.caller = .idle) (heffects : t.effects = e.made calls) :
    t.Follows clock (e, .push data hasToken :: t.todo) := by
  obtain ⟨attempts, hpush⟩ := hpush
  have hexec : (Op.push data hasToken).exec clock e attempts = some t.effects := by
    simp [Op.exec, hpush, hproducer, heffects]
  exact Life.Within.follows_of_exec (.idle hcaller rfl rfl) hexec

theorem Life.follows_pushStep {data : TimedDataRaw} {hasToken : Bool} {pc : PushPc}
    {calls : List ProducerCall} (hproducer : pc = .produce ∨ e.world.bp.producer.isSome)
    (hgoing : Frame.Going clock e.world.bp.topic ⟨data, hasToken, pc, none⟩ calls)
    (heffects : s.effects = e.made calls) (err : ErrorCode) (token : Bool) :
    (s.pushStep clock data hasToken err token pc).Follows clock
      (e, .push data hasToken :: s.todo) := by
  have hworld : s.world = e.world := congrArg Effects.world heffects
  cases pc with
  | switch err' =>
    have hsome : e.world.bp.producer.isSome := by simpa using hproducer
    simp only [Life.pushStep]
    cases hswitch : switchErr err' (hasToken && token) with
    | pollOk =>
      exact Life.Within.follows (.push data hasToken .pollOk calls rfl rfl (.inr hsome)
        (hgoing.toPollOk rfl hswitch) heffects)
    | pollContinue =>
      exact Life.Within.follows (.push data hasToken .pollContinue calls rfl rfl (.inr hsome)
        (hgoing.toPollContinue rfl hswitch) heffects)
    | ret status => exact Life.follows_returns hsome (hgoing.ret rfl hswitch) rfl heffects
  | produce =>
    cases hhandle : s.world.bp.producer with
    | none =>
      simp only [Life.pushStep, hhandle]
      exact .of_fault (by simp [Life.fail]) _
    | some p =>
      have hsome : e.world.bp.producer.isSome := by rw [← hworld, hhandle]; rfl
      simp only [Life.pushStep, hhandle]
      refine Life.Within.follows (.push data hasToken (.switch err) _ rfl rfl (.inr hsome)
        (hgoing.produced rfl err none) ?_)
      rw [Effects.made_append, ← heffects, ← hworld]
      exact s.effects_produced clock data hasToken err
  | pollOk =>
    have hsome : e.world.bp.producer.isSome := by simpa using hproducer
    obtain ⟨p, hhandle⟩ := Option.isSome_iff_exists.mp (hworld ▸ hsome)
    simp only [Life.pushStep, hhandle]
    refine Life.follows_returns hsome (hgoing.pollOk rfl) rfl ?_
    rw [Effects.made_append, Effects.made_poll]
    exact heffects
  | pollContinue =>
    have hsome : e.world.bp.producer.isSome := by simpa using hproducer
    obtain ⟨p, hhandle⟩ := Option.isSome_iff_exists.mp (hworld ▸ hsome)
    simp only [Life.pushStep, hhandle]
    refine Life.Within.follows (.push data hasToken .produce _ rfl rfl (.inl rfl)
      (hgoing.nextRound rfl) ?_)
    rw [Effects.made_append, Effects.made_poll]
    exact heffects

theorem Life.Within.of_callerStep {err : ErrorCode} {token : Bool} (h : s.Within clock e ops)
    (hstep : s.callerStep clock err token = some t) : t.Follows clock (e, ops) := by
  cases h with
  | idle hcaller hops heffects =>
    rw [callerStep_idle hcaller] at hstep
    cases hstep
    rw [hops, ← heffects]
    exact Life.follows_nextCall clock s
  | reset env sa errstr text p hcaller hops hcreate heffects =>
    rw [Life.callerStep, hcaller] at hstep
    cases hstep
    refine Life.Within.follows (.assign env sa errstr text p rfl hops hcreate ?_)
    rw [← heffects]
    rfl
  | assign env sa errstr text p hcaller hops hcreate heffects =>
    rw [Life.callerStep, hcaller] at hstep
    cases hstep
    rw [hops]
    exact Life.follows_assign hcreate heffects
  | push data hasToken pc calls hcaller hops hproducer hgoing heffects =>
    rw [Life.callerStep, hcaller] at hstep
    cases hstep
    rw [hops]
    exact Life.follows_pushStep hproducer hgoing heffects err token
  | destructor hcaller hops =>
    rcases hcaller with hcaller | hcaller
    · rw [Life.callerStep, hcaller] at hstep
      dsimp only at hstep
      split at hstep
      · cases hstep
        exact .of_fault (by simp [Life.fail]) _
      · obtain ⟨-, hstep⟩ := Option.ite_none_right_eq_some.mp hstep
        cases hstep
        refine Life.Within.follows (.destructor (.inr rfl) hops ?_)
        intro hjoin
        cases hjoin
    · rw [Life.callerStep, hcaller] at hstep
      cases hstep

theorem Life.Within.of_pollerStep (h : s.Within clock e ops) (hstep : s.pollerStep = some t) :
    t.Follows clock (e, ops) := by
  unfold Life.pollerStep at hstep
  split at hstep
  · cases hstep
    exact Life.Within.follows (h.congr rfl rfl rfl)
  · split at hstep
    · cases hstep
      exact .of_fault (by simp [Life.fail]) _
    · cases hstep
      exact Life.Within.follows (h.congr rfl rfl rfl)
  · cases hstep
    split
    · exact .of_fault (by simp [Life.fail]) _
    · exact Life.Within.follows (h.congr rfl rfl rfl)
  · cases hstep

theorem Life.Within.of_lifeStep {a : LifeAction} (h : s.Within clock e ops)
    (hstep : lifeStep clock s a = some t) : t.Follows clock (e, ops) := by
  cases a with
  | caller err token => exact h.of_callerStep (Option.ite_none_right_eq_some.mp hstep).2
  | poller => exact h.of_pollerStep (Option.ite_none_right_eq_some.mp hstep).2

/-- What the calls that have returned do as functions, in every interleaving. -/
theorem Life.follows_run {stop : Bool} {script : List Op} {as : List LifeAction}
    (hrun : run (lifeStep clock) (Life.begin stop script) as = some s) :
    s.Follows clock (.constructed stop, script) := by
  have hbegin : (Life.begin stop script).At clock (.constructed stop, script) :=
    fun _ => .idle rfl rfl rfl
  apply run_simulation ?_ hrun hbegin
  rintro s a t ⟨e, ops⟩ hs h
  exact (hs (Life.Step.of_lifeStep h).1).of_lifeStep h

/-! ## What the functions do, some life does -/

theorem Life.Between.run_connect {env : ConnectEnv} {sa : DefArg} {errstr : String}
    (h : s.Between (.connect env sa errstr :: rest)) {attempts : List Attempt}
    (hexec : (Op.connect env sa errstr).exec clock s.effects attempts = some e) :
    ∃ as t, run (lifeStep clock) s as = some t ∧ t.Between rest ∧ t.effects = e ∧
      t.poller = if env.Accepts sa then some .test else s.poller := by
  have hbegin : s.callerStep clock .ERR_NO_ERROR false = some s.nextCall :=
    callerStep_idle h.caller _ _
  by_cases haccepts : env.Accepts sa
  · obtain ⟨conf, text, hcreate⟩ := createProducer_of_accepts haccepts s.world.clients errstr
    rw [nextCall_connect_of_created h.todo hcreate] at hbegin
    have hcreate' : createProducer env s.effects.world.clients sa errstr = _ := hcreate
    rw [exec_connect_of_created hcreate'] at hexec
    obtain ⟨hpollTh, he⟩ := Option.ite_none_left_eq_some.mp hexec
    have hassign : ∀ u : Life, u.caller = .assign sa → u.world.bp.pollTh = s.world.bp.pollTh →
        u.callerStep clock .ERR_NO_ERROR false = some (u.launch sa) := by
      intro u hcaller hsame
      rw [Life.callerStep, hcaller]
      exact congrArg some (if_neg (hsame ▸ hpollTh))
    refine ⟨_, _, run_caller h.fault hbegin (run_caller h.fault rfl (run_caller h.fault
      (hassign _ rfl rfl) run_nil)), ⟨rfl, h.fault, rfl⟩, Option.some.inj he, ?_⟩
    rw [if_pos haccepts]
    rfl
  · rw [nextCall_connect_of_not_accepts h.todo haccepts] at hbegin
    rw [exec_connect_of_not_accepts haccepts] at hexec
    refine ⟨_, _, run_caller h.fault hbegin run_nil, ⟨rfl, h.fault, rfl⟩, Option.some.inj hexec, ?_⟩
    rw [if_neg haccepts]
    rfl

theorem lifeStep_push {data : TimedDataRaw} {hasToken : Bool} {pc : PushPc}
    (hcaller : s.caller = .push data hasToken pc) (hfault : s.fault = none) (err : ErrorCode)
    (token : Bool) :
    lifeStep clock s (.caller err token) = some (s.pushStep clock data hasToken err token pc) := by
  rw [lifeStep_caller hfault, Life.callerStep, hcaller]

/-- A `push` whose attempts are those of the function. -/
theorem Life.run_push {data : TimedDataRaw} {hasToken : Bool} {p : Client}
    {attempts : List Attempt} (hcaller : s.caller = .push data hasToken .produce)
    (hfault : s.fault = none) (hproducer : s.world.bp.producer = some p)
    (hreturns : (push (produceArgs clock s.world.bp.topic data) hasToken attempts).status.isSome) :
    ∃ as t, run (lifeStep clock) s as = some t ∧ t.Between s.todo ∧ t.poller = s.poller ∧
      t.effects = s.effects.made
        (push (produceArgs clock s.world.bp.topic data) hasToken attempts).calls := by
  induction attempts generalizing s with
  | nil => cases hreturns
  | cons attempt rest ih =>
    obtain ⟨err, token⟩ := attempt
    let u := s.produced clock data hasToken err
    have hufault : u.fault = none := hfault
    have hgoes : ∀ pc, (u.goto pc).fault = none := fun _ => hfault
    have hproduce : lifeStep clock s (.caller err token) = some u := by
      rw [lifeStep_push hcaller hfault]
      simp only [Life.pushStep, hproducer]
      rfl
    have hswitched : lifeStep clock u (.caller err token) =
        some (u.switched data hasToken (switchErr err (hasToken && token))) :=
      lifeStep_push rfl hufault err token
    have hmade := s.effects_produced clock data hasToken err
    rw [push] at hreturns ⊢
    cases hswitch : switchErr err (hasToken && token) with
    | ret status =>
      rw [hswitch] at hswitched
      exact ⟨_, _, run_cons_eq_some.mpr ⟨u, hproduce, run_singleton hswitched⟩, ⟨rfl, hfault, rfl⟩,
        rfl, hmade⟩
    | pollOk =>
      rw [hswitch] at hswitched
      have hpoll : lifeStep clock (u.goto (.push data hasToken .pollOk)) (.caller err token) =
          some (u.goto .idle) := by
        rw [lifeStep_push rfl (hgoes _)]
        simp only [Life.pushStep, Life.goto, u, Life.produced, hproducer]
      refine ⟨_, _, run_cons_eq_some.mpr ⟨u, hproduce, run_cons_eq_some.mpr ⟨_, hswitched,
        run_singleton hpoll⟩⟩, ⟨rfl, hfault, rfl⟩, rfl, ?_⟩
      rw [Effects.made_cons, Effects.made_poll]
      exact hmade
    | pollContinue =>
      rw [hswitch] at hswitched hreturns
      have hpoll : lifeStep clock (u.goto (.push data hasToken .pollContinue))
          (.caller err token) = some (u.goto (.push data hasToken .produce)) := by
        rw [lifeStep_push rfl (hgoes _)]
        simp only [Life.pushStep, Life.goto, u, Life.produced, hproducer]
      obtain ⟨as, t, hrun, hbetween, hpoller, heffects⟩ :=
        ih (s := u.goto (.push data hasToken .produce)) rfl hfault hproducer hreturns
      refine ⟨_, t, run_cons_eq_some.mpr ⟨u, hproduce, run_cons_eq_some.mpr ⟨_, hswitched,
        run_cons_eq_some.mpr ⟨_, hpoll, hrun⟩⟩⟩, hbetween, hpoller, ?_⟩
      rw [heffects, Effects.made_cons, Effects.made_cons _ (.poll 1), Effects.made_poll, ← hmade]
      rfl

theorem Life.Between.run_push {data : TimedDataRaw} {hasToken : Bool}
    (h : s.Between (.push data hasToken :: rest)) {attempts : List Attempt}
    (hexec : (Op.push data hasToken).exec clock s.effects attempts = some e) :
    ∃ as t, run (lifeStep clock) s as = some t ∧ t.Between rest ∧ t.effects = e ∧
      t.poller = s.poller := by
  have hbegin : s.callerStep clock .ERR_NO_ERROR false =
      some (s.begins rest (.push data hasToken .produce)) := by
    rw [callerStep_idle h.caller, Life.nextCall, h.todo]
  obtain ⟨⟨hproducer, hreturns⟩, he⟩ := Option.ite_none_right_eq_some.mp hexec
  obtain ⟨p, hp⟩ := Option.isSome_iff_exists.mp hproducer
  obtain ⟨as, t, hrun, hbetween, hpoller, heffects⟩ :=
    Life.run_push (s := s.begins rest (.push data hasToken .produce)) rfl h.fault hp hreturns
  refine ⟨_, t, run_caller h.fault hbegin hrun, hbetween, ?_, hpoller⟩
  rw [heffects]
  exact Option.some.inj he

/-- A call as a function is one that a life can go through. -/
theorem Life.Between.run_call (h : s.Between ops) {attempts : List Attempt}
    {p : Effects × List Op} (hcall : callStep clock (s.effects, ops) attempts = some p) :
    ∃ as t, run (lifeStep clock) s as = some t ∧ t.Between p.2 ∧ t.effects = p.1 := by
  cases ops with
  | nil => cases hcall
  | cons op rest =>
    obtain ⟨e, hexec, rfl⟩ := Option.map_eq_some_iff.mp hcall
    cases op with
    | connect env sa errstr =>
      obtain ⟨as, t, hrun, hbetween, heffects, -⟩ := h.run_connect hexec
      exact ⟨as, t, hrun, hbetween, heffects⟩
    | push data hasToken =>
      obtain ⟨as, t, hrun, hbetween, heffects, -⟩ := h.run_push hexec
      exact ⟨as, t, hrun, hbetween, heffects⟩

/-- Between two calls the life of a producer, in any interleaving with `bg_pool`, is what `connect`
and `push` as functions make of the calls so far, and they make nothing of them that no
interleaving comes to. -/
theorem calls_as_functions (clock : Clock) (stop : Bool) (script rest : List Op) (e : Effects) :
    (∃ as s, run (lifeStep clock) (Life.begin stop script) as = some s ∧ s.Between rest ∧
        s.effects = e) ↔
      ∃ met, run (callStep clock) (.constructed stop, script) met = some (e, rest) := by
  constructor
  · rintro ⟨as, s, hrun, hbetween, rfl⟩
    obtain ⟨met, ⟨e, ops⟩, hcalls, hat⟩ := Life.follows_run hrun
    have hwithin : s.Within clock e ops := hat hbetween.fault
    cases hwithin with
    | idle hcaller hops heffects =>
      refine ⟨met, ?_⟩
      rw [hcalls, hops, hbetween.todo, heffects]
    | reset env sa errstr text p hcaller => cases hbetween.caller.symm.trans hcaller
    | assign env sa errstr text p hcaller => cases hbetween.caller.symm.trans hcaller
    | push data hasToken pc calls hcaller => cases hbetween.caller.symm.trans hcaller
    | destructor hcaller =>
      rcases hcaller with hcaller | hcaller <;> cases hbetween.caller.symm.trans hcaller
  · rintro ⟨met, hcalls⟩
    have hbegin : (Life.begin stop script).Between script ∧
        (Life.begin stop script).effects = .constructed stop := ⟨⟨rfl, rfl, rfl⟩, rfl⟩
    obtain ⟨as, s, hrun, hbetween, heffects⟩ := run_simulation
      (R := fun p (s : Life) => s.Between p.2 ∧ s.effects = p.1)
      (fun p attempts q s hs hcall => by
        obtain ⟨hbetween, heffects⟩ := hs
        have hcall' : callStep clock (s.effects, p.2) attempts = some q := by
          rw [heffects]
          exact hcall
        exact hbetween.run_call hcall') hcalls hbegin
    exact ⟨as, s, hrun, hbetween, heffects⟩

end TsKafka.BasicProducer
