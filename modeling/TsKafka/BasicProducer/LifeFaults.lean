import TsKafka.BasicProducer.LifeCalls

/-!
# The faults a producer's life comes to

Which faults some interleaving of a sequence of calls with `bg_pool` comes to is read off the
sequence: off the first call that is not a `connect` that fails, and the `connect`s that succeed
after it. What a fault needs of the object is what the calls before it, as functions, have left.
-/

namespace TsKafka.BasicProducer
open RdKafka PartialRun

/-! ## The faults of a sequence of calls -/

instance (op : Op) : Decidable op.Succeeds :=
  match op with
  | .connect env sa _ => inferInstanceAs (Decidable (env.Accepts sa))
  | .push _ _ => inferInstanceAs (Decidable False)

/-- The faults that are ahead of a producer that is connected. A second `connect` destroys the
handle that `bg_pool` polls and assigns to its thread; a `bg_pool` that has found `_stop` true at
its start polls nothing. -/
def faultsConnected (stop : Bool) (ops : List Op) : List Fault :=
  if ∃ op ∈ ops, op.Succeeds then .assignJoinable :: if stop then [] else [.destroyedProducer]
  else []

/-- The faults of a life that begins with `_stop` at `stop` and makes the calls. -/
def faultsOf (stop : Bool) : List Op → List Fault
  | [] => [.joinNotJoinable]
  | .push _ _ :: _ => [.nullProducer]
  | .connect env sa _ :: rest =>
    if env.Accepts sa then faultsConnected stop rest else faultsOf stop rest

variable {clock : Clock} {s t : Life} {e e' : Effects} {ops rest : List Op} {stop : Bool}
  {fault : Fault} {faults : List Fault}

theorem faultsConnected_cons_of_not {op : Op} (h : ¬ op.Succeeds) :
    faultsConnected stop (op :: rest) = faultsConnected stop rest := by
  simp [faultsConnected, h]

theorem faultsConnected_cons_of_succeeds {op : Op} (h : op.Succeeds) :
    faultsConnected stop (op :: rest) =
      .assignJoinable :: if stop then [] else [.destroyedProducer] :=
  if_pos ⟨op, List.mem_cons_self, h⟩

/-- The calls so far have left `e`, and `faults` are ahead of those that follow. -/
inductive Ahead (stop : Bool) (faults : List Fault) (e : Effects) (ops : List Op) : Prop
  | unconnected (hproducer : e.world.bp.producer = none) (hpollTh : e.world.bp.pollTh = none)
      (hfaults : faultsOf stop ops = faults)
  | connected (hproducer : e.world.bp.producer.isSome) (hpollTh : e.world.bp.pollTh.isSome)
      (hfaults : faultsConnected stop ops = faults)

theorem Ahead.of_exec {op : Op} {attempts : List Attempt} (h : Ahead stop faults e (op :: rest))
    (hexec : op.exec clock e attempts = some e') : Ahead stop faults e' rest := by
  cases op with
  | push data hasToken =>
    obtain ⟨⟨hsome, -⟩, he⟩ := Option.ite_none_right_eq_some.mp hexec
    cases Option.some.inj he
    cases h with
    | unconnected hproducer =>
      rw [hproducer] at hsome
      cases hsome
    | connected hproducer hpollTh hfaults =>
      exact .connected hproducer hpollTh ((faultsConnected_cons_of_not id).symm.trans hfaults)
  | connect env sa errstr =>
    by_cases haccepts : env.Accepts sa
    · obtain ⟨conf, text, hcreate⟩ := createProducer_of_accepts haccepts e.world.clients errstr
      rw [exec_connect_of_created hcreate] at hexec
      obtain ⟨hnone, he⟩ := Option.ite_none_left_eq_some.mp hexec
      cases Option.some.inj he
      cases h with
      | unconnected hproducer hpollTh hfaults =>
        exact .connected rfl rfl ((if_pos haccepts).symm.trans hfaults)
      | connected hproducer hpollTh => exact absurd hpollTh hnone
    · rw [exec_connect_of_not_accepts haccepts] at hexec
      cases Option.some.inj hexec
      cases h with
      | unconnected hproducer hpollTh hfaults =>
        exact .unconnected hproducer hpollTh ((if_neg haccepts).symm.trans hfaults)
      | connected hproducer hpollTh hfaults =>
        have hfails : ¬ (Op.connect env sa errstr).Succeeds := haccepts
        exact .connected hproducer hpollTh
          ((faultsConnected_cons_of_not hfails).symm.trans hfaults)

theorem Ahead.of_run {met : List (List Attempt)} {p p' : Effects × List Op}
    (h : Ahead stop faults p.1 p.2) (hrun : run (callStep clock) p met = some p') :
    Ahead stop faults p'.1 p'.2 := by
  apply run_invariant (I := fun p : Effects × List Op => Ahead stop faults p.1 p.2) ?_ hrun h
  rintro ⟨e, ops⟩ attempts q hs hcall
  cases ops with
  | nil => cases hcall
  | cons op rest =>
    obtain ⟨e', hexec, rfl⟩ := Option.map_eq_some_iff.mp hcall
    exact hs.of_exec hexec

/-! ## The polling thread and the handles -/

/-- What `bg_pool` relies on, up to a fault. -/
structure Life.Polls (stop : Bool) (s : Life) : Prop where
  handle : s.poller ≠ none → s.poller ≠ some .done → s.world.bp.producer.isSome
  assign : ∀ sa, s.caller = .assign sa → s.world.bp.producer.isSome
  /-- Outside `connect` a handle has a thread. -/
  thread : s.world.bp.producer.isSome → s.world.bp.pollTh = none → ∃ sa, s.caller = .assign sa
  /-- A handle is destroyed by a second `connect`, just before it comes to a fault, or at the end
  of the destructor. -/
  stale : s.destroyed ≠ [] →
    (∃ sa, s.caller = .assign sa) ∧ s.world.bp.pollTh.isSome ∨ s.caller = .destroyed
  ended : s.caller = .destroyed → s.poller = some .done
  quiet : stop = true → s.world.bp.stop = true ∧
    (s.poller = none ∨ s.poller = some .test ∨ s.poller = some .done)

theorem Life.polls_begin (stop : Bool) (script : List Op) : (Life.begin stop script).Polls stop where
  handle := fun h => absurd rfl h
  assign := nofun
  thread := nofun
  stale := fun h => absurd rfl h
  ended := nofun
  quiet := fun h => ⟨h, .inl rfl⟩

/-- The caller goes on outside the two places that matter. -/
theorem Life.Polls.goes (h : s.Polls stop) (hassign : ∀ sa, s.caller ≠ .assign sa)
    (hdestroyed : s.caller ≠ .destroyed) (hassign' : ∀ sa, t.caller ≠ .assign sa)
    (hdestroyed' : t.caller ≠ .destroyed)
    (hworld : t.world.bp.producer = s.world.bp.producer ∧ t.world.bp.pollTh = s.world.bp.pollTh)
    (hstop : s.world.bp.stop = true → t.world.bp.stop = true) (hpoller : t.poller = s.poller)
    (hlost : t.destroyed = s.destroyed) : t.Polls stop where
  handle := by
    rw [hpoller, hworld.1]
    exact h.handle
  assign := fun sa hcaller => absurd hcaller (hassign' sa)
  thread := by
    rw [hworld.1, hworld.2]
    intro hproducer hpollTh
    obtain ⟨sa, hcaller⟩ := h.thread hproducer hpollTh
    exact absurd hcaller (hassign sa)
  stale := by
    rw [hlost]
    intro hne
    rcases h.stale hne with ⟨⟨sa, hcaller⟩, -⟩ | hcaller
    · exact absurd hcaller (hassign sa)
    · exact absurd hcaller hdestroyed
  ended := fun hcaller => absurd hcaller hdestroyed'
  quiet := by
    rw [hpoller]
    intro hs
    exact ⟨hstop (h.quiet hs).1, (h.quiet hs).2⟩

/-- The polling thread goes on. -/
theorem Life.Polls.polls (h : s.Polls stop) {pc : PollPc} (hpoller : s.poller = some pc)
    (hpc : pc ≠ .done) {pc' : PollPc} (hquiet : stop = true → pc' = .test ∨ pc' = .done) :
    Life.Polls stop { s with poller := some pc' } where
  handle := fun _ _ => h.handle (by simp [hpoller]) (by simpa [hpoller] using hpc)
  assign := h.assign
  thread := h.thread
  stale := h.stale
  ended := by
    intro hcaller
    have hended := h.ended hcaller
    rw [hpoller, Option.some.injEq] at hended
    exact absurd hended hpc
  quiet := by
    intro hs
    refine ⟨(h.quiet hs).1, .inr ?_⟩
    simpa using hquiet hs

/-- `_producer.reset(p)`. -/
theorem Life.Polls.reset (h : s.Polls stop) {sa : DefArg} {p : Client}
    (hcaller : s.caller = .reset sa p) : (s.resetProducer sa p).Polls stop where
  handle := fun _ _ => rfl
  assign := fun _ _ => rfl
  thread := fun _ _ => ⟨sa, rfl⟩
  stale := by
    intro hne
    refine .inl ⟨⟨sa, rfl⟩, ?_⟩
    have hlive : s.destroyed = [] := by
      by_contra hlost
      rcases h.stale hlost with ⟨⟨sa', hassign⟩, -⟩ | hdestroyed
      · cases hcaller.symm.trans hassign
      · cases hcaller.symm.trans hdestroyed
    have hproducer : s.world.bp.producer.isSome := by
      by_contra hnone
      simp [Life.resetProducer, hlive, Option.not_isSome_iff_eq_none.mp hnone] at hne
    by_contra hpollTh
    obtain ⟨sa', hassign⟩ := h.thread hproducer (Option.not_isSome_iff_eq_none.mp hpollTh)
    cases hcaller.symm.trans hassign
  ended := nofun
  quiet := h.quiet

theorem Life.Polls.launch (h : s.Polls stop) {sa : DefArg} (hcaller : s.caller = .assign sa)
    (hpollTh : s.world.bp.pollTh = none) : (s.launch sa).Polls stop where
  handle := fun _ _ => h.assign sa hcaller
  assign := nofun
  thread := nofun
  stale := by
    intro hne
    rcases h.stale hne with ⟨-, hsome⟩ | hdestroyed
    · rw [hpollTh] at hsome
      cases hsome
    · cases hcaller.symm.trans hdestroyed
  ended := nofun
  quiet := fun hs => ⟨(h.quiet hs).1, .inr (.inl rfl)⟩

theorem Life.Polls.joined (h : s.Polls stop) (hpoller : s.poller = some .done) :
    s.joined.Polls stop where
  handle := fun _ hne => absurd hpoller hne
  assign := nofun
  thread := nofun
  stale := fun _ => .inr rfl
  ended := fun _ => hpoller
  quiet := h.quiet

theorem Life.Polls.of_step (h : s.Polls stop) (hstep : s.Step clock t) : t.Polls stop := by
  cases hstep with
  | raiseStop hcaller =>
    exact h.goes (by simp [hcaller]) (by simp [hcaller]) nofun nofun ⟨rfl, rfl⟩ (fun _ => rfl) rfl
      rfl
  | beginPush _ _ _ hcaller | connectFails _ _ _ _ hcaller | connectSucceeds _ _ _ _ _ hcaller
  | produced _ _ _ hcaller | pushGoesOn _ _ _ _ hcaller | pushReturns _ _ _ hcaller =>
    exact h.goes (by simp [hcaller]) (by simp [hcaller]) nofun nofun ⟨rfl, rfl⟩ id rfl rfl
  | reset sa p hcaller => exact h.reset hcaller
  | launch sa hcaller hpollTh => exact h.launch hcaller hpollTh
  | joined hcaller hpoller => exact h.joined hpoller
  | pollerTests hpoller =>
    refine h.polls hpoller nofun ?_
    intro hs
    exact .inr (if_pos (h.quiet hs).1)
  | pollerCalls p hpoller hproducer =>
    refine h.polls hpoller nofun ?_
    intro hs
    simpa [hpoller] using (h.quiet hs).2
  | pollerReturns handle hpoller => exact h.polls hpoller nofun fun _ => .inl rfl
  | assignJoinable | pushNull | joinNotJoinable | pollerNull | pollerDestroyed =>
    exact ⟨h.handle, h.assign, h.thread, h.stale, h.ended, h.quiet⟩

/-! ## A fault is one of those ahead -/

/-- At the assignment to a thread that runs. -/
theorem Life.Within.faults_of_assign (h : s.Within clock e ops) (hahead : Ahead stop faults e ops)
    {sa : DefArg} (hcaller : s.caller = .assign sa) (hpollTh : s.world.bp.pollTh.isSome) :
    faults = .assignJoinable :: if stop then [] else [.destroyedProducer] := by
  cases h with
  | assign env sa errstr text p _ hops hcreate heffects =>
    have hworld : s.world = e.world.resetProducer p := congrArg Effects.world heffects
    have hsome : e.world.bp.pollTh.isSome := by
      rw [hworld] at hpollTh
      exact hpollTh
    have haccepts : (Op.connect env sa errstr).Succeeds := by
      by_contra hnot
      obtain ⟨text', hnone⟩ := createProducer_of_not_accepts hnot e.world.clients errstr
      cases hcreate.symm.trans hnone
    subst hops
    cases hahead with
    | unconnected _ hnone =>
      rw [hnone] at hsome
      cases hsome
    | connected _ _ hfaults => exact hfaults.symm.trans (faultsConnected_cons_of_succeeds haccepts)
  | idle h => cases hcaller.symm.trans h
  | reset _ _ _ _ _ h => cases hcaller.symm.trans h
  | push _ _ _ _ h => cases hcaller.symm.trans h
  | destructor h => rcases h with h | h <;> cases hcaller.symm.trans h

/-- At a `push` without a handle. -/
theorem Life.Within.fault_mem_of_pushNull (h : s.Within clock e ops)
    (hahead : Ahead stop faults e ops) {data : TimedDataRaw} {hasToken : Bool} {pc : PushPc}
    (hcaller : s.caller = .push data hasToken pc) (hproducer : s.world.bp.producer = none) :
    Fault.nullProducer ∈ faults := by
  cases h with
  | push data' hasToken' _ _ _ hops _ _ heffects =>
    have hworld : s.world = e.world := congrArg Effects.world heffects
    subst hops
    cases hahead with
    | unconnected _ _ hfaults =>
      rw [← hfaults]
      exact List.mem_singleton_self _
    | connected hsome => simp [← hworld, hproducer] at hsome
  | idle h => cases hcaller.symm.trans h
  | reset _ _ _ _ _ h => cases hcaller.symm.trans h
  | assign _ _ _ _ _ h => cases hcaller.symm.trans h
  | destructor h => rcases h with h | h <;> cases hcaller.symm.trans h

/-- In the destructor of a producer without a thread. -/
theorem Life.Within.fault_mem_of_joinNotJoinable (h : s.Within clock e ops)
    (hahead : Ahead stop faults e ops) (hcaller : s.caller = .join)
    (hpollTh : s.world.bp.pollTh = none) : Fault.joinNotJoinable ∈ faults := by
  cases h with
  | destructor _ hops hsame =>
    subst hops
    cases hahead with
    | unconnected _ _ hfaults =>
      rw [← hfaults]
      exact List.mem_singleton_self _
    | connected _ hsome => simp [← hsame hcaller, hpollTh] at hsome
  | idle h => cases hcaller.symm.trans h
  | reset _ _ _ _ _ h => cases hcaller.symm.trans h
  | assign _ _ _ _ _ h => cases hcaller.symm.trans h
  | push _ _ _ _ h => cases hcaller.symm.trans h

theorem Life.Within.fault_mem (h : s.Within clock e ops) (hahead : Ahead stop faults e ops)
    (hpolls : s.Polls stop) (hnone : s.fault = none) (hstep : s.Step clock t)
    (hfault : t.fault = some fault) : fault ∈ faults := by
  cases hstep with
  | assignJoinable sa hcaller hpollTh =>
    cases hfault
    rw [h.faults_of_assign hahead hcaller hpollTh]
    exact List.mem_cons_self
  | pushNull data hasToken pc hcaller hproducer =>
    cases hfault
    exact h.fault_mem_of_pushNull hahead hcaller hproducer
  | joinNotJoinable hcaller hpollTh =>
    cases hfault
    exact h.fault_mem_of_joinNotJoinable hahead hcaller hpollTh
  | pollerNull hpoller hproducer =>
    have hsome := hpolls.handle (by simp [hpoller]) (by simp [hpoller])
    simp [hproducer] at hsome
  | pollerDestroyed handle hpoller hdestroyed =>
    cases hfault
    have hrunning : stop = false := by
      by_contra hs
      simpa [hpoller] using (hpolls.quiet (by simpa using hs)).2
    rcases hpolls.stale (List.ne_nil_of_mem hdestroyed) with ⟨⟨sa, hcaller⟩, hpollTh⟩ | hcaller
    · rw [h.faults_of_assign hahead hcaller hpollTh, hrunning]
      simp
    · cases hpoller.symm.trans (hpolls.ended hcaller)
  | _ => cases hnone.symm.trans hfault

/-- What is known of a life that has come this far. -/
structure Life.Foreseen (clock : Clock) (stop : Bool) (faults : List Fault) (s : Life) : Prop where
  within : s.fault = none → ∃ p : Effects × List Op, s.Within clock p.1 p.2 ∧
    Ahead stop faults p.1 p.2
  polls : s.Polls stop
  fault : ∀ fault, s.fault = some fault → fault ∈ faults

theorem Life.Foreseen.of_lifeStep {a : LifeAction} (h : s.Foreseen clock stop faults)
    (hstep : lifeStep clock s a = some t) : t.Foreseen clock stop faults := by
  obtain ⟨hnone, hs⟩ := Life.Step.of_lifeStep hstep
  obtain ⟨⟨e, ops⟩, hwithin, hahead⟩ := h.within hnone
  refine ⟨?_, h.polls.of_step hs, fun fault => hwithin.fault_mem hahead h.polls hnone hs⟩
  intro hfault
  obtain ⟨met, p, hcalls, hat⟩ := hwithin.of_lifeStep hstep
  exact ⟨p, hat hfault, hahead.of_run hcalls⟩

theorem Life.foreseen_begin (clock : Clock) (stop : Bool) (script : List Op) :
    (Life.begin stop script).Foreseen clock stop (faultsOf stop script) where
  within := fun _ => ⟨(.constructed stop, script), .idle rfl rfl rfl, .unconnected rfl rfl rfl⟩
  polls := Life.polls_begin stop script
  fault := nofun

/-! ## Each of them comes -/

/-- Some interleaving comes to the fault. -/
def Life.Reaches (clock : Clock) (s : Life) (fault : Fault) : Prop :=
  PartialRun.Reaches (lifeStep clock) (fun t => t.fault = some fault) s

theorem Life.Reaches.of_run {as : List LifeAction} (hrun : run (lifeStep clock) s as = some t)
    (h : t.Reaches clock fault) : s.Reaches clock fault :=
  PartialRun.Reaches.of_run hrun h

theorem Life.Reaches.of_caller (hfault : s.fault = none)
    (hstep : s.callerStep clock .ERR_NO_ERROR false = some t) (h : t.Reaches clock fault) :
    s.Reaches clock fault :=
  .of_run (run_caller hfault hstep run_nil) h

theorem Life.Reaches.of_poller (hfault : s.fault = none) (hstep : s.pollerStep = some t)
    (h : t.Reaches clock fault) : s.Reaches clock fault := by
  have hlife : lifeStep clock s .poller = some t := (if_pos hfault).trans hstep
  exact PartialRun.Reaches.of_step hlife h

theorem Life.Reaches.of_fault (h : s.fault = some fault) : s.Reaches clock fault :=
  PartialRun.Reaches.here h

theorem Life.reaches_assignJoinable {sa : DefArg} (hcaller : s.caller = .assign sa)
    (hfault : s.fault = none) (hpollTh : s.world.bp.pollTh.isSome) :
    s.Reaches clock .assignJoinable := by
  refine .of_caller (t := s.fail .assignJoinable) hfault ?_ (.of_fault rfl)
  rw [Life.callerStep, hcaller]
  exact congrArg some (if_pos hpollTh)

theorem Life.reaches_destroyedProducer {handle : Nat} (hpoller : s.poller = some (.poll handle))
    (hfault : s.fault = none) (hdestroyed : handle ∈ s.destroyed) :
    s.Reaches clock .destroyedProducer := by
  refine .of_poller (t := s.fail .destroyedProducer) hfault ?_ (.of_fault rfl)
  rw [Life.pollerStep, hpoller]
  exact congrArg some (if_pos hdestroyed)

/-- A `connect` of a connected producer that succeeds. -/
theorem Life.Between.reaches_reconnect {env : ConnectEnv} {sa : DefArg} {errstr : String}
    (h : s.Between (.connect env sa errstr :: rest)) (haccepts : env.Accepts sa)
    (hproducer : s.world.bp.producer.isSome) (hpollTh : s.world.bp.pollTh.isSome)
    (hpoller : s.poller = some .test)
    (hfault : fault ∈ Fault.assignJoinable ::
      if s.world.bp.stop then [] else [Fault.destroyedProducer]) :
    s.Reaches clock fault := by
  obtain ⟨conf, text, hcreate⟩ := createProducer_of_accepts haccepts s.world.clients errstr
  rcases List.mem_cons.mp hfault with rfl | hfault
  · have hnext := nextCall_connect_of_created h.todo hcreate
    refine .of_caller h.fault ((callerStep_idle h.caller _ _).trans (congrArg some hnext)) ?_
    exact .of_caller h.fault rfl (Life.reaches_assignJoinable rfl h.fault hpollTh)
  · cases hstop : s.world.bp.stop with
    | true => simp [hstop] at hfault
    | false =>
      obtain rfl : fault = .destroyedProducer := by simpa [hstop] using hfault
      obtain ⟨q, hq⟩ := Option.isSome_iff_exists.mp hproducer
      -- `bg_pool` is in the `poll` of the first handle when the second `connect` destroys it
      let u : Life := { s with poller := some (.poll q.id) }
      have htest : s.pollerStep = some { s with poller := some .call } := by
        simp [Life.pollerStep, hpoller, hstop]
      have hcall : Life.pollerStep { s with poller := some .call } = some u := by
        simp [Life.pollerStep, hq, u]
      have hbegin : u.nextCall = u.begins rest (.reset sa _) :=
        nextCall_connect_of_created h.todo hcreate
      have hcaller : u.caller = .idle := h.caller
      refine .of_poller h.fault htest (.of_poller h.fault hcall ?_)
      refine .of_caller h.fault ((callerStep_idle hcaller _ _).trans (congrArg some hbegin)) ?_
      refine .of_caller h.fault rfl (Life.reaches_destroyedProducer rfl h.fault ?_)
      simp [Life.resetProducer, Life.begins, u, hq]

theorem Life.Between.reaches_connected (h : s.Between ops) (hproducer : s.world.bp.producer.isSome)
    (hpollTh : s.world.bp.pollTh.isSome) (hpoller : s.poller = some .test)
    (hfault : fault ∈ faultsConnected s.world.bp.stop ops) : s.Reaches clock fault := by
  induction ops generalizing s with
  | nil => simp [faultsConnected] at hfault
  | cons op rest ih =>
    cases op with
    | push data hasToken =>
      rw [faultsConnected_cons_of_not id] at hfault
      have hexec : (Op.push data hasToken).exec clock s.effects [⟨.ERR_NO_ERROR, false⟩] =
          some (s.effects.made (push (produceArgs clock s.world.bp.topic data) hasToken
            [⟨.ERR_NO_ERROR, false⟩]).calls) := if_pos ⟨hproducer, rfl⟩
      obtain ⟨as, t, hrun, hbetween, heffects, hsame⟩ := h.run_push hexec
      have hworld : t.world = s.world := congrArg Effects.world heffects
      refine .of_run hrun (ih hbetween ?_ ?_ (hsame.trans hpoller) ?_)
      · rwa [hworld]
      · rwa [hworld]
      · rwa [hworld]
    | connect env sa errstr =>
      by_cases haccepts : env.Accepts sa
      · have hsucceeds : (Op.connect env sa errstr).Succeeds := haccepts
        rw [faultsConnected_cons_of_succeeds hsucceeds] at hfault
        exact h.reaches_reconnect haccepts hproducer hpollTh hpoller hfault
      · have hfails : ¬ (Op.connect env sa errstr).Succeeds := haccepts
        rw [faultsConnected_cons_of_not hfails] at hfault
        obtain ⟨as, t, hrun, hbetween, heffects, hsame⟩ :=
          h.run_connect (exec_connect_of_not_accepts haccepts s.effects errstr [])
        have hworld : t.world = s.world := congrArg Effects.world heffects
        rw [if_neg haccepts] at hsame
        refine .of_run hrun (ih hbetween ?_ ?_ (hsame.trans hpoller) ?_)
        · rwa [hworld]
        · rwa [hworld]
        · rwa [hworld]

theorem Life.Between.reaches (h : s.Between ops) (hproducer : s.world.bp.producer = none)
    (hpollTh : s.world.bp.pollTh = none) (hfault : fault ∈ faultsOf s.world.bp.stop ops) :
    s.Reaches clock fault := by
  induction ops generalizing s with
  | nil =>
    obtain rfl := List.mem_singleton.mp hfault
    have hnext : s.nextCall = s.raiseStop := by simp only [Life.nextCall, h.todo]
    refine .of_caller h.fault ((callerStep_idle h.caller _ _).trans (congrArg some hnext)) ?_
    refine .of_caller (t := s.raiseStop.fail .joinNotJoinable) h.fault ?_ (.of_fault rfl)
    simp only [Life.callerStep, Life.raiseStop, hpollTh]
  | cons op rest ih =>
    cases op with
    | push data hasToken =>
      obtain rfl := List.mem_singleton.mp hfault
      have hnext : s.nextCall = s.begins rest (.push data hasToken .produce) := by
        simp only [Life.nextCall, h.todo]
      refine .of_caller h.fault ((callerStep_idle h.caller _ _).trans (congrArg some hnext)) ?_
      refine .of_caller (t := (s.begins rest (.push data hasToken .produce)).fail .nullProducer)
        h.fault ?_ (.of_fault rfl)
      simp only [Life.callerStep, Life.begins, Life.pushStep, hproducer]
    | connect env sa errstr =>
      by_cases haccepts : env.Accepts sa
      · obtain ⟨conf, text, hcreate⟩ := createProducer_of_accepts haccepts s.world.clients errstr
        have hexec : (Op.connect env sa errstr).exec clock s.effects [] = _ :=
          exec_connect_of_created hcreate []
        rw [if_neg (by simp [Life.effects, hpollTh])] at hexec
        obtain ⟨as, t, hrun, hbetween, heffects, htest⟩ := h.run_connect hexec
        have hworld : t.world = (s.world.resetProducer _).launch := congrArg Effects.world heffects
        rw [if_pos haccepts] at htest
        refine .of_run hrun (hbetween.reaches_connected ?_ ?_ htest ?_)
        · rw [hworld]
          rfl
        · rw [hworld]
          rfl
        · rw [hworld]
          rwa [faultsOf, if_pos haccepts] at hfault
      · obtain ⟨as, t, hrun, hbetween, heffects, -⟩ :=
          h.run_connect (exec_connect_of_not_accepts haccepts s.effects errstr [])
        have hworld : t.world = s.world := congrArg Effects.world heffects
        refine .of_run hrun (ih hbetween (hworld ▸ hproducer) (hworld ▸ hpollTh) ?_)
        rw [hworld]
        rwa [faultsOf, if_neg haccepts] at hfault

/-- The faults that a life comes to in some interleaving are exactly those of its calls. -/
theorem comes_to_fault_iff (clock : Clock) (stop : Bool) (script : List Op) (fault : Fault) :
    (∃ as s, run (lifeStep clock) (Life.begin stop script) as = some s ∧ s.fault = some fault) ↔
      fault ∈ faultsOf stop script := by
  constructor
  · rintro ⟨as, s, hrun, hfault⟩
    have hforeseen : s.Foreseen clock stop (faultsOf stop script) :=
      run_invariant (fun _ _ _ h hstep => h.of_lifeStep hstep) hrun
        (Life.foreseen_begin clock stop script)
    exact hforeseen.fault fault hfault
  · intro hfault
    have hbegin : (Life.begin stop script).Between script := ⟨rfl, rfl, rfl⟩
    exact hbegin.reaches rfl rfl hfault

end TsKafka.BasicProducer
