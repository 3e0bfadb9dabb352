import TsKafka.BasicConsumer.Life

/-!
# A consumer's life, call by call

`exec` and `destructor` have the calls as functions, `Life` goes through them in steps next to the
readers. At each place of the caller the rest of its call is a function of the object, and a step
keeps what it gives: between two calls the object is what the functions make of the calls so far,
and what a fault ends is either such a call or a reader that has lost its handles. The faults are
those of `TsKafka.BasicConsumer.Life`, with what is assumed of librdkafka there.
-/

namespace TsKafka.BasicConsumer
open RdKafka PartialRun

/-! ## The rest of a call -/

/-- `start` from the assignment of `_th` on. -/
def World.restAssign (w : World) : Except Fault World :=
  if w.bc.th.isSome then .error .assignJoinable else .ok w.launch

/-- `start` from `Topic::create` on. -/
def World.restTopic (w : World) (env : StartEnv) (sa : ConsumerStartArgs) (p : Client) :
    Except Fault World :=
  match env.topicCreateFails with
  | some _ => .ok w
  | none => ((w.resetTopic (some ⟨p.id, sa.topic⟩)).resetQueue (some ⟨p.id⟩)).restAssign

/-- `stop` from the join on. -/
def World.restJoin (w : World) : Except Fault (World × Option JoinError) :=
  match w.bc.th with
  | none => .ok (w, some .notJoinable)
  | some reader =>
    .ok ((((w.join reader).resetQueue none).resetTopic none).resetConsumer none, none)

/-- `stop` from the call of `_consumer->stop` on. -/
def World.restHalt (w : World) : Except Fault (World × Option JoinError) :=
  match w.bc.consumer with
  | none => .error .nullConsumer
  | some _ => World.restJoin { w with log := w.log ++ [.consumerStop w.bc.topic 0] }

def StopPc.rest (w : World) : StopPc → Except Fault (World × Option JoinError)
  | .test => stop w
  | .store =>
    World.restHalt { w with
      bc := { w.bc with stop := true }, log := w.log ++ [.notifyAll] }
  | .notify => World.restHalt { w with log := w.log ++ [.notifyAll] }
  | .halt => w.restHalt
  | .join => w.restJoin
  | .resetQueue => .ok (((w.resetQueue none).resetTopic none).resetConsumer none, none)
  | .resetTopic => .ok ((w.resetTopic none).resetConsumer none, none)
  | .resetConsumer => .ok (w.resetConsumer none, none)

/-- The object without its handles. -/
def World.emptied (w : World) : World :=
  { w with bc := { w.bc with consumer := none, topic := none, queue := none } }

/-- The destructor after its call of `stop`. -/
def World.restMembers (w : World) : Except Fault World :=
  if w.bc.th.isSome then .error .destroyJoinable else .ok w.emptied

/-- What comes after `stop`, in the destructor or not. -/
def restAfterStop (dtor : Bool) : Except Fault (World × Option JoinError) → Except Fault World
  | .error fault => .error fault
  | .ok (w, none) => if dtor then w.restMembers else .ok w
  | .ok (w, some _) => if dtor then .error .leavesDestructor else .ok w

def CallerPc.rest (w : World) : CallerPc → Except Fault World
  | .idle => .ok w
  | .resetConsumer env sa p => (w.resetConsumer (some p)).restTopic env sa p
  | .resetTopic env sa p => w.restTopic env sa p
  | .resetQueue p => (w.resetQueue (some ⟨p.id⟩)).restAssign
  | .assign => w.restAssign
  | .stop dtor pc => restAfterStop dtor (pc.rest w)
  | .members => w.restMembers
  | .destroyed => .ok w

/-- What the rest of the call that the caller is in makes of the object. -/
def Life.rest (s : Life) : Except Fault World := s.caller.rest s.world

/-- A whole life as a function: the calls, the destructor, the destruction of the members. -/
def execLife (rb : RbCb) (script : List Op) : Except Fault World :=
  match exec (World.fresh rb) script with
  | .error fault => .error fault
  | .ok w => (destructor w).map World.emptied

variable {s t : Life} {w v : World} {rb : RbCb} {script done : List Op} {fault : Fault}

theorem exec_append (w : World) (done rest : List Op) :
    exec w (done ++ rest) =
      match exec w done with
      | .ok v => exec v rest
      | .error fault => .error fault := by
  induction done generalizing w with
  | nil => rfl
  | cons op done ih =>
    rw [List.cons_append, exec, exec]
    cases op.exec w with
    | ok u => exact ih u
    | error fault => rfl

theorem exec_concat (h : exec w done = .ok v) (op : Op) : exec w (done ++ [op]) = op.exec v := by
  rw [exec_append, h]
  simp only [exec]
  cases op.exec v <;> rfl

theorem execLife_of_error (h : exec (World.fresh rb) done = .error fault) (rest : List Op) :
    execLife rb (done ++ rest) = .error fault := by
  rw [execLife, exec_append, h]

/-! ### At the beginning of a call -/

theorem rest_stop (w : World) : CallerPc.rest w (.stop false .test) = Op.stop.exec w := by
  simp only [CallerPc.rest, StopPc.rest, Op.exec]
  rcases stop w with fault | ⟨w, _ | e⟩ <;> rfl

theorem rest_destructor (h : exec (World.fresh rb) script = .ok w) :
    CallerPc.rest w (.stop true .test) = execLife rb script := by
  rw [execLife, h]
  simp only [CallerPc.rest, StopPc.rest, destructor]
  rcases stop w with fault | ⟨w, _ | e⟩
  · rfl
  · simp only [restAfterStop, World.restMembers, if_true]
    split <;> rfl
  · rfl

theorem rest_start {env : StartEnv} {sa : ConsumerStartArgs} {errstr text : String} {p : Client}
    (h : createConsumer env w.clients sa errstr = (some p, text)) :
    CallerPc.rest { w with clients := w.clients + 1 } (.resetConsumer env sa p) =
      (Op.start env sa errstr).exec w := by
  rw [Op.exec, start, preStart_eq, h]
  simp only [CallerPc.rest, World.restTopic, World.restAssign]
  cases env.topicCreateFails with
  | some text => rfl
  | none =>
    dsimp only
    split <;> rfl

theorem exec_start_of_none {env : StartEnv} {sa : ConsumerStartArgs} {errstr text : String}
    (h : createConsumer env w.clients sa errstr = (none, text)) :
    (Op.start env sa errstr).exec w = .ok w := by
  rw [Op.exec, start, preStart_eq, h]
  rfl

/-! ## What a step does -/

/-- The caller is in the destructor, or through with it. -/
def CallerPc.inDestructor : CallerPc → Bool
  | .stop dtor _ => dtor
  | .members | .destroyed => true
  | _ => false

/-- The reader is at a `consume` without a handle, or in one on a client that is destroyed. -/
def Life.Stranded (s : Life) (fault : LifeFault) : Prop :=
  ∃ r, s.reader = some r ∧
    (r.place = .outside .consume ∧
        (fault = .call .nullConsumer ∧ s.world.bc.consumer = none ∨
          fault = .call .nullQueue ∧ s.world.bc.queue = none) ∨
      ∃ client queue, r.place = .inside client queue ∧ fault = .destroyedConsumer ∧
        client ∈ s.destroyed)

/-- A step inside a call, or of the reader. -/
inductive Life.Moves (s t : Life) : Prop
  | goes (hfault : t.fault = s.fault) (htodo : t.todo = s.todo) (hrest : t.rest = s.rest)
      (hdtor : t.caller.inDestructor = s.caller.inDestructor)
  | fails (fault : Fault) (hfault : t.fault = some (.call fault)) (hrest : s.rest = .error fault)
  | strands (fault : LifeFault) (hfault : t.fault = some fault) (hstranded : t.Stranded fault)

theorem Life.rest_of {pc : CallerPc} (h : s.caller = pc) : s.rest = pc.rest s.world := by
  rw [Life.rest, h]

/-- The caller goes on in its call. -/
theorem Life.Moves.caller {pc : CallerPc} (hcaller : s.caller = pc) (hfault : t.fault = s.fault)
    (htodo : t.todo = s.todo) (hrest : t.rest = pc.rest s.world)
    (hdtor : t.caller.inDestructor = pc.inDestructor) : s.Moves t :=
  .goes hfault htodo (hrest.trans (Life.rest_of hcaller).symm) (hcaller ▸ hdtor)

theorem Life.inDestructor_afterStop (dtor : Bool) :
    (Life.afterStop dtor).inDestructor = dtor := by
  cases dtor <;> rfl

theorem Life.rest_afterStop (dtor : Bool) (w : World) :
    (Life.afterStop dtor).rest w = restAfterStop dtor (.ok (w, none)) := by
  cases dtor <;> rfl

theorem Life.moves_of_stopStep {dtor : Bool} {pc : StopPc} (hpc : s.caller = .stop dtor pc)
    (h : s.stopStep dtor pc = some t) : s.Moves t := by
  cases pc with
  | test =>
    cases h
    split
    · rename_i hstop
      refine .caller hpc rfl rfl ?_ (Life.inDestructor_afterStop dtor)
      simp only [CallerPc.rest, StopPc.rest, stop, if_pos hstop]
      exact Life.rest_afterStop dtor s.world
    · rename_i hstop
      refine .caller hpc rfl rfl ?_ rfl
      simp only [CallerPc.rest, StopPc.rest, stop, if_neg hstop]
      rfl
  | halt =>
    simp only [Life.stopStep] at h
    split at h
    · rename_i hconsumer
      cases h
      refine .fails .nullConsumer rfl ?_
      simp only [Life.rest_of hpc, CallerPc.rest, StopPc.rest, World.restHalt, hconsumer,
        restAfterStop]
    · rename_i c hconsumer
      cases h
      refine .caller hpc rfl rfl ?_ rfl
      simp only [CallerPc.rest, StopPc.rest, World.restHalt, hconsumer]
      rfl
  | join =>
    simp only [Life.stopStep] at h
    split at h
    · rename_i hth
      cases h
      cases dtor with
      | false =>
        refine .caller hpc rfl rfl ?_ rfl
        simp only [CallerPc.rest, StopPc.rest, World.restJoin, hth]
        rfl
      | true =>
        refine .fails .leavesDestructor rfl ?_
        simp only [Life.rest_of hpc, CallerPc.rest, StopPc.rest, World.restJoin, hth,
          restAfterStop, if_true]
    · rename_i reader hth
      obtain ⟨-, h⟩ := Option.ite_none_right_eq_some.mp h
      cases h
      refine .caller hpc rfl rfl ?_ rfl
      simp only [CallerPc.rest, StopPc.rest, World.restJoin, hth]
      rfl
  | resetConsumer =>
    cases h
    exact .caller hpc rfl rfl (Life.rest_afterStop dtor _) (Life.inDestructor_afterStop dtor)
  | store | notify | resetQueue | resetTopic =>
    cases h
    exact .caller hpc rfl rfl rfl rfl

theorem Life.moves_of_callerStep (hcaller : s.caller ≠ .idle) (h : s.callerStep = some t) :
    s.Moves t := by
  unfold Life.callerStep at h
  split at h
  · rename_i hidle
    exact absurd hidle hcaller
  · rename_i env sa p hpc
    cases h
    exact .caller hpc rfl rfl rfl rfl
  · rename_i env sa p hpc
    split at h
    · rename_i text htopic
      cases h
      refine .caller hpc rfl rfl ?_ rfl
      simp only [CallerPc.rest, World.restTopic, htopic]
      rfl
    · rename_i htopic
      cases h
      refine .caller hpc rfl rfl ?_ rfl
      simp only [CallerPc.rest, World.restTopic, htopic]
      rfl
  · rename_i p hpc
    cases h
    exact .caller hpc rfl rfl rfl rfl
  · rename_i hpc
    cases h
    split
    · rename_i hth
      exact .fails .assignJoinable rfl ((Life.rest_of hpc).trans (if_pos hth))
    · rename_i hth
      exact .caller hpc rfl rfl (if_neg hth).symm rfl
  · rename_i dtor pc hpc
    exact Life.moves_of_stopStep hpc h
  · rename_i hpc
    cases h
    split
    · rename_i hth
      exact .fails .destroyJoinable rfl ((Life.rest_of hpc).trans (if_pos hth))
    · rename_i hth
      exact .caller hpc rfl rfl (if_neg hth).symm rfl
  · cases h

theorem Life.moves_of_readerStep {result : Option Message} (h : s.readerStep result = some t) :
    s.Moves t := by
  unfold Life.readerStep at h
  split at h
  · cases h
  · rename_i r hreader
    split at h
    · rename_i client queue hplace
      cases h
      split
      · rename_i hdestroyed
        exact .strands .destroyedConsumer rfl
          ⟨r, hreader, .inr ⟨client, queue, hplace, rfl, hdestroyed⟩⟩
      · exact .goes rfl rfl rfl rfl
    · rename_i pc hplace
      split at h
      · rename_i hconsume
        cases h
        subst hconsume
        unfold Life.beginConsume
        split
        · rename_i hnone
          exact .strands (.call .nullConsumer) rfl ⟨r, hreader, .inl ⟨hplace, .inl ⟨rfl, hnone⟩⟩⟩
        · rename_i hnone
          exact .strands (.call .nullQueue) rfl ⟨r, hreader, .inl ⟨hplace, .inr ⟨rfl, hnone⟩⟩⟩
        · exact .goes rfl rfl rfl rfl
      · obtain ⟨pc', hpc, rfl⟩ := Option.map_eq_some_iff.mp h
        exact .goes rfl rfl rfl rfl

/-! ## Whole lives -/

/-- The calls begun so far, the rest of the present one among them, have done what the functions
do. -/
inductive Life.Turn (rb : RbCb) (script : List Op) (s : Life) : Prop
  | call (done : List Op) (hdone : done ++ s.todo = script)
      (hdtor : s.caller.inDestructor = false) (hrest : exec (World.fresh rb) done = s.rest)
  | destructor (hdtor : s.caller.inDestructor = true) (hrest : execLife rb script = s.rest)

theorem Life.turn_nextCall (hdone : done ++ s.todo = script)
    (hexec : exec (World.fresh rb) done = .ok s.world) : s.nextCall.Turn rb script := by
  cases htodo : s.todo with
  | nil =>
    have hnext : s.nextCall = s.goto (.stop true .test) := by simp only [Life.nextCall, htodo]
    rw [htodo, List.append_nil] at hdone
    subst hdone
    rw [hnext]
    exact .destructor rfl (rest_destructor hexec).symm
  | cons op rest =>
    have hbegun : (done ++ [op]) ++ rest = script := by rw [← hdone, htodo]; simp
    cases op with
    | stop =>
      have hnext : s.nextCall = s.begins rest (.stop false .test) := by
        simp only [Life.nextCall, htodo]
      rw [hnext]
      exact .call (done ++ [.stop]) hbegun rfl ((exec_concat hexec _).trans (rest_stop _).symm)
    | start env sa errstr =>
      rcases hcreate : createConsumer env s.world.clients sa errstr with ⟨_ | p, text⟩
      · have hnext : s.nextCall = s.begins rest .idle := by
          simp only [Life.nextCall, htodo, hcreate]
        rw [hnext]
        exact .call (done ++ [.start env sa errstr]) hbegun rfl
          ((exec_concat hexec _).trans (exec_start_of_none hcreate))
      · have hnext : s.nextCall = s.created rest env sa p := by
          simp only [Life.nextCall, htodo, hcreate]
        rw [hnext]
        exact .call (done ++ [.start env sa errstr]) hbegun rfl
          ((exec_concat hexec _).trans (rest_start hcreate).symm)

theorem Life.fault_nextCall (s : Life) : s.nextCall.fault = s.fault := by
  unfold Life.nextCall
  split
  · rfl
  · rfl
  · split <;> rfl

/-- What has ended a life is what its calls come to, or a reader without its handles. -/
def Life.Blamed (rb : RbCb) (script : List Op) (s : Life) (fault : LifeFault) : Prop :=
  (∃ f, fault = .call f ∧ execLife rb script = .error f) ∨ s.Stranded fault

/-- What the functions say of a life. -/
structure Life.Explained (rb : RbCb) (script : List Op) (s : Life) : Prop where
  turn : s.fault = none → s.Turn rb script
  blamed : ∀ fault, s.fault = some fault → s.Blamed rb script fault

theorem Life.Explained.of_turn (hfault : s.fault = none) (h : s.Turn rb script) :
    s.Explained rb script := by
  refine ⟨fun _ => h, ?_⟩
  intro fault hsome
  cases hfault.symm.trans hsome

theorem Life.Explained.of_fault {fault : LifeFault} (hfault : s.fault = some fault)
    (h : s.Blamed rb script fault) : s.Explained rb script := by
  constructor
  · intro hnone
    cases hnone.symm.trans hfault
  · intro fault' hsome
    cases hfault.symm.trans hsome
    exact h

theorem Life.Turn.of_moves (h : s.Turn rb script) (hfault : s.fault = none) (hmoves : s.Moves t) :
    t.Explained rb script := by
  cases hmoves with
  | goes hsame htodo hrest hdtor =>
    apply Life.Explained.of_turn (hsame.trans hfault)
    cases h with
    | call done hdone hs hexec =>
      exact .call done (htodo ▸ hdone) (hdtor.trans hs) (hexec.trans hrest.symm)
    | destructor hs hexec => exact .destructor (hdtor.trans hs) (hexec.trans hrest.symm)
  | fails f hfails hrest =>
    apply Life.Explained.of_fault hfails
    refine .inl ⟨f, rfl, ?_⟩
    cases h with
    | call done hdone hs hexec => exact hdone ▸ execLife_of_error (hexec.trans hrest) s.todo
    | destructor hs hexec => exact hexec.trans hrest
  | strands fault hfails hstranded => exact .of_fault hfails (.inr hstranded)

/-- Between two calls the object is what the functions make of the calls so far. -/
theorem Life.Explained.exec_of_idle (h : s.Explained rb script) (hfault : s.fault = none)
    (hcaller : s.caller = .idle) :
    ∃ done, done ++ s.todo = script ∧ exec (World.fresh rb) done = .ok s.world := by
  cases h.turn hfault with
  | call done hdone hdtor hexec => exact ⟨done, hdone, hexec.trans (Life.rest_of hcaller)⟩
  | destructor hdtor =>
    rw [hcaller] at hdtor
    cases hdtor

theorem Life.Explained.of_lifeStep {a : LifeAction} (h : s.Explained rb script)
    (hstep : lifeStep s a = some t) : t.Explained rb script := by
  cases a with
  | caller =>
    obtain ⟨hfault, hstep⟩ := Option.ite_none_right_eq_some.mp hstep
    by_cases hcaller : s.caller = .idle
    · rw [Life.callerStep, hcaller] at hstep
      cases hstep
      obtain ⟨done, hdone, hexec⟩ := h.exec_of_idle hfault hcaller
      exact .of_turn (s.fault_nextCall.trans hfault) (Life.turn_nextCall hdone hexec)
    · exact (h.turn hfault).of_moves hfault (Life.moves_of_callerStep hcaller hstep)
  | reader result =>
    obtain ⟨hfault, hstep⟩ := Option.ite_none_right_eq_some.mp hstep
    exact (h.turn hfault).of_moves hfault (Life.moves_of_readerStep hstep)

theorem Life.explained_begin (rb : RbCb) (script : List Op) :
    (Life.begin rb script).Explained rb script :=
  .of_turn rfl (.call [] rfl rfl rfl)

/-- What the calls, as functions and one after the other, say of a life. -/
structure Life.InTurn (rb : RbCb) (script : List Op) (s : Life) : Prop where
  /-- Between two calls the object is what the calls before them leave. -/
  between : ∀ rest, s.Between rest →
    ∃ done, done ++ rest = script ∧ exec (World.fresh rb) done = .ok s.world
  /-- When it has been destroyed it is what the calls and the destructor leave. -/
  destroyed : s.fault = none → s.caller = .destroyed → execLife rb script = .ok s.world
  /-- The readers add nothing to the ways in which the calls go wrong but their own. -/
  blamed : ∀ fault, s.fault = some fault → s.Blamed rb script fault

/-- In every interleaving of any calls with the readers, the calls do what they do as functions,
and what a fault ends is what they come to as functions, or a reader that has lost its handles. -/
theorem calls_in_turn (rb : RbCb) (script : List Op) (as : List LifeAction) (s : Life)
    (hrun : run lifeStep (Life.begin rb script) as = some s) : s.InTurn rb script := by
  have hexplained : s.Explained rb script :=
    run_invariant (fun _ _ _ h hstep => h.of_lifeStep hstep) hrun (Life.explained_begin rb script)
  refine ⟨?_, ?_, hexplained.blamed⟩
  · intro rest hbetween
    obtain ⟨done, hdone, hexec⟩ := hexplained.exec_of_idle hbetween.fault hbetween.caller
    exact ⟨done, hbetween.todo ▸ hdone, hexec⟩
  · intro hfault hcaller
    cases hexplained.turn hfault with
    | call done hdone hdtor hexec =>
      rw [hcaller] at hdtor
      cases hdtor
    | destructor hdtor hexec => exact hexec.trans (Life.rest_of hcaller)

/-- The second `start` fails and leaves an object that `stop` and the destructor can deal with, but
it has destroyed the client in which the reader is. -/
theorem calls_in_turn_underConsume :
    ∃ w s, execLife ⟨0, 0⟩ [.start .accepting .fromBeginning "",
          .start .withoutTopic .fromBeginning ""] = .ok w ∧
      run lifeStep (Life.begin ⟨0, 0⟩ [.start .accepting .fromBeginning "",
          .start .withoutTopic .fromBeginning ""])
        (List.replicate 5 .caller ++ List.replicate 2 (.reader none) ++ List.replicate 2 .caller ++
          [.reader none]) = some s ∧
      s.fault = some .destroyedConsumer ∧
      s.InTurn ⟨0, 0⟩ [.start .accepting .fromBeginning "",
        .start .withoutTopic .fromBeginning ""] :=
  ⟨_, _, rfl, rfl, rfl, calls_in_turn ⟨0, 0⟩ [.start .accepting .fromBeginning "",
    .start .withoutTopic .fromBeginning ""] (List.replicate 5 .caller ++
      List.replicate 2 (.reader none) ++ List.replicate 2 .caller ++ [.reader none]) _ rfl⟩

end TsKafka.BasicConsumer
