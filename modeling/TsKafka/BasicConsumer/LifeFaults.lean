import TsKafka.BasicConsumer.LifeCalls
import TsKafka.BasicConsumer.LifeHistory

/-!
# The faults a consumer's life comes to

The faults of a life in some interleaving with its readers are those that its calls come to as
functions, and one more: a `start` that creates a client while a reader runs destroys the client
in which the reader may be. A reader never finds a null handle, however the calls follow each
other.

Two calls are no faults here, though librdkafka gets stale handles in them: `_consumer->stop`
with no topic or that of a client that is gone, and `consume` with the queue of a client that is
gone. What librdkafka makes of these is left open; which lives come to them is determined too.
-/

namespace TsKafka.BasicConsumer
open RdKafka PartialRun

variable {s t : Life} {w : World} {rb : RbCb} {script : List Op}

/-! ## What a reader can rely on -/

/-- The caller is in `stop`, after its store of `_stop`. -/
def CallerPc.Stored : CallerPc → Prop
  | .stop _ pc => pc.stored = true
  | _ => False

/-- What the caller has done before it comes to a place. -/
def CallerPc.Prepared (bc : Members) : CallerPc → Prop
  | .resetTopic _ _ p | .resetQueue p => bc.consumer = some p
  | .assign => ∃ c, bc.consumer = some c ∧ bc.queue = some ⟨c.id⟩
  | .stop _ pc => pc.joined = true → bc.th = none
  | _ => True

/-- What holds of the reader in any life. -/
structure Life.Served (s : Life) : Prop where
  prepared : s.caller.Prepared s.world.bc
  joined : s.world.bc.th = none → ∀ r, s.reader = some r → r.place = .outside .done
  handles : ∀ r, s.reader = some r → r.place ≠ .outside .done →
    s.world.bc.consumer.isSome ∧ s.world.bc.queue.isSome
  leaving : s.world.bc.stop = true → s.caller.Stored ∨ ∀ r, s.reader = some r → r.place.Leaving

theorem Life.served_begin (rb : RbCb) (script : List Op) : (Life.begin rb script).Served where
  prepared := trivial
  joined := nofun
  handles := nofun
  leaving := nofun

namespace Life.Served

theorem prepared_at (h : s.Served) {pc : CallerPc} (hcaller : s.caller = pc) :
    pc.Prepared s.world.bc :=
  hcaller ▸ h.prepared

/-- A step of the caller that leaves `_stop`, `_th` and the reader. -/
theorem goes (h : s.Served) (hreader : t.reader = s.reader)
    (hth : t.world.bc.th = s.world.bc.th) (hstop : t.world.bc.stop = s.world.bc.stop)
    (hconsumer : s.world.bc.consumer.isSome → t.world.bc.consumer.isSome)
    (hqueue : s.world.bc.queue.isSome → t.world.bc.queue.isSome)
    (hprepared : t.caller.Prepared t.world.bc)
    (hstored : s.caller.Stored → t.caller.Stored) : t.Served where
  prepared := hprepared
  joined := by
    rw [hth, hreader]
    exact h.joined
  handles := by
    rw [hreader]
    intro r hr hplace
    obtain ⟨hc, hq⟩ := h.handles r hr hplace
    exact ⟨hconsumer hc, hqueue hq⟩
  leaving := by
    rw [hstop, hreader]
    exact fun hs => (h.leaving hs).imp_left hstored

/-- A step of the caller when the reader has ended. -/
theorem of_done (hdone : ∀ r, s.reader = some r → r.place = .outside .done)
    (hreader : t.reader = s.reader) (hprepared : t.caller.Prepared t.world.bc) : t.Served where
  prepared := hprepared
  joined := by
    rw [hreader]
    exact fun _ => hdone
  handles := by
    rw [hreader]
    exact fun r hr hplace => absurd (hdone r hr) hplace
  leaving := by
    rw [hreader]
    intro _
    refine .inr fun r hr => ?_
    exact .inr (.inr (hdone r hr))

/-- The store of `_stop`. -/
theorem raiseStop (h : s.Served) (dtor : Bool) : (s.raiseStop (.stop dtor .notify)).Served where
  prepared := by
    intro hpc
    cases hpc
  joined := h.joined
  handles := h.handles
  leaving := fun _ => .inl rfl

/-- The step of `stop` that drops a handle comes after the join. -/
theorem th_of_dropping (h : s.Served) {dtor : Bool} {pc : StopPc}
    (hcaller : s.caller = .stop dtor pc) (hpc : pc.joined = true) : s.world.bc.th = none :=
  h.prepared_at hcaller hpc

/-- The reader goes on. -/
theorem reads (h : s.Served) {r : Reader} {place : ReaderPlace} (hr : s.reader = some r)
    (hplace : r.place ≠ .outside .done) (ht : t.reader = some { r with place := place })
    (hworld : t.world = s.world) (hcaller : t.caller = s.caller)
    (hleaving : s.world.bc.stop = true → r.place.Leaving → place.Leaving) : t.Served where
  prepared := by
    rw [hworld, hcaller]
    exact h.prepared
  joined := by
    rw [hworld]
    intro hth
    exact absurd (h.joined hth r hr) hplace
  handles := by
    rw [hworld]
    exact fun _ _ _ => h.handles r hr hplace
  leaving := by
    rw [hworld, hcaller, ht]
    intro hs
    refine (h.leaving hs).imp_right ?_
    rintro hall r' hr'
    cases hr'
    exact hleaving hs (hall r hr)

theorem launch (h : s.Served) (hcaller : s.caller = .assign) : s.launch.Served where
  prepared := trivial
  joined := nofun
  handles := by
    obtain ⟨c, hconsumer, hqueue⟩ := h.prepared_at hcaller
    intro _ _ _
    exact ⟨Option.isSome_of_eq_some hconsumer, Option.isSome_of_eq_some hqueue⟩
  leaving := by
    intro _
    refine .inr fun r hr => ?_
    cases hr
    exact .inl rfl

end Life.Served

theorem Life.prepared_afterStop (dtor : Bool) (bc : Members) :
    (Life.afterStop dtor).Prepared bc := by
  cases dtor <;> trivial

theorem Life.done_of_readerDone (h : s.readerDone = true) :
    ∀ r, s.reader = some r → r.place = .outside .done := by
  intro r hr
  simpa [Life.readerDone, hr] using h

theorem Life.Served.of_step (h : s.Served) (hstep : s.Step t) : t.Served := by
  have hleaves : ∀ {pc : CallerPc}, s.caller = pc → ¬ pc.Stored → s.caller.Stored →
      t.caller.Stored := by
    rintro pc hcaller hnot hstored
    rw [hcaller] at hstored
    exact absurd hstored hnot
  cases hstep with
  | beginDestructor hcaller | beginStop _ hcaller =>
    refine h.goes rfl rfl rfl id id ?_ (hleaves hcaller id)
    intro hpc
    cases hpc
  | startFails _ _ _ _ hcaller | startCreates _ _ _ _ _ hcaller =>
    exact h.goes rfl rfl rfl id id trivial (hleaves hcaller id)
  | resetConsumer env sa p hcaller =>
    exact h.goes rfl rfl rfl (fun _ => rfl) id rfl (hleaves hcaller id)
  | topicFails env sa p hcaller htopic =>
    exact h.goes rfl rfl rfl id id trivial (hleaves hcaller id)
  | resetTopic env sa p hcaller htopic =>
    exact h.goes rfl rfl rfl id id (h.prepared_at hcaller) (hleaves hcaller id)
  | resetQueue p hcaller =>
    exact h.goes rfl rfl rfl id (fun _ => rfl) ⟨p, h.prepared_at hcaller, rfl⟩ (hleaves hcaller id)
  | launch hcaller hth => exact h.launch hcaller
  | stopReturns dtor hcaller hstop =>
    exact h.goes rfl rfl rfl id id (Life.prepared_afterStop dtor _) (hleaves hcaller nofun)
  | stopProceeds dtor hcaller hstop =>
    refine h.goes rfl rfl rfl id id ?_ (hleaves hcaller nofun)
    intro hpc
    cases hpc
  | store dtor hcaller => exact h.raiseStop dtor
  | notify dtor hcaller | halt dtor hcaller _ =>
    refine h.goes rfl rfl rfl id id ?_ fun _ => rfl
    intro hpc
    cases hpc
  | joinThrows hcaller hth => exact .of_done (h.joined hth) rfl trivial
  | join dtor reader hcaller hth hdone =>
    exact .of_done (Life.done_of_readerDone hdone) rfl fun _ => rfl
  | dropQueue dtor hcaller | dropTopic dtor hcaller =>
    have hth := h.th_of_dropping hcaller rfl
    exact .of_done (h.joined hth) rfl fun _ => hth
  | dropConsumer dtor hcaller =>
    have hth := h.th_of_dropping hcaller rfl
    exact .of_done (h.joined hth) rfl (Life.prepared_afterStop dtor _)
  | destroy hcaller hth => exact .of_done (h.joined hth) rfl trivial
  | readerNext r result pc pc' hreader hplace hconsume hpc =>
    obtain ⟨hgoes, hleaving⟩ := ReaderPlace.of_next hplace hpc
    exact h.reads hreader hgoes rfl rfl rfl hleaving
  | readerCalls r c q hreader hplace hconsumer hqueue =>
    refine h.reads hreader (by simp [hplace]) rfl rfl rfl ?_
    intro _ hleaving
    simp [hplace, ReaderPlace.Leaving] at hleaving
  | readerReturns r result client queue hreader hplace hlive =>
    refine h.reads hreader (by simp [hplace]) rfl rfl rfl ?_
    intro _ hleaving
    simp [hplace, ReaderPlace.Leaving] at hleaving
  | assignJoinable | haltNull | joinTerminates | destroyJoinable | readerNull | readerDestroyed =>
    exact ⟨h.prepared, h.joined, h.handles, h.leaving⟩

/-! ## The fault that the readers add -/

/-- A `start` creates a client while a reader runs that no `stop` has ended. -/
def Restarts (rb : RbCb) (script : List Op) : Prop :=
  ∃ before env sa errstr after w, script = before ++ .start env sa errstr :: after ∧
    exec (World.fresh rb) before = .ok w ∧ w.bc.th.isSome ∧ w.bc.stop = false ∧ env.Creates sa

/-- At `_consumer.reset(p)`: the call that has created the client. -/
def Life.CreatedFor (rb : RbCb) (script : List Op) (s : Life) : Prop :=
  ∀ env sa p, s.caller = .resetConsumer env sa p →
    ∃ before errstr w, script = before ++ .start env sa errstr :: s.todo ∧
      exec (World.fresh rb) before = .ok w ∧ w.bc.th = s.world.bc.th ∧
        w.bc.stop = s.world.bc.stop ∧ env.Creates sa

/-- Clients that are destroyed while a reader has still to do with them. -/
structure Life.Stale (rb : RbCb) (script : List Op) (s : Life) : Prop where
  inside : ∀ r client queue, s.reader = some r → r.place = .inside client queue →
    client ∈ s.destroyed ∨ queue ∈ s.destroyed → Restarts rb script
  /-- The queue that `consume` would be called with. -/
  queue : ∀ r q, s.reader = some r → r.place ≠ .outside .done → s.world.bc.queue = some q →
    q.client ∈ s.destroyed → Restarts rb script ∨ s.world.bc.stop = true ∧ r.place.Leaving

theorem Life.CreatedFor.of_step (h : s.CreatedFor rb script)
    (hidle : s.caller = .idle →
      ∃ done, done ++ s.todo = script ∧ exec (World.fresh rb) done = .ok s.world)
    (hstep : s.Step t) : t.CreatedFor rb script := by
  cases hstep with
  | startCreates env sa errstr rest p hcaller htodo hcreates hid =>
    intro env' sa' p' hcaller'
    cases hcaller'
    obtain ⟨done, hdone, hexec⟩ := hidle hcaller
    exact ⟨done, errstr, s.world, by rw [← hdone, htodo]; rfl, hexec, rfl, rfl, hcreates⟩
  | readerNext | readerCalls | readerReturns => exact h
  | assignJoinable | haltNull | joinTerminates | destroyJoinable | readerNull | readerDestroyed =>
    exact h
  | stopReturns dtor | dropConsumer dtor =>
    intro env sa p hcaller
    cases dtor <;> cases hcaller
  | _ =>
    intro env sa p hcaller
    cases hcaller

/-- The `start` that is at `_consumer.reset(p)` next to a reader that has not ended. -/
theorem Life.Served.restarts_or_leaving (h : s.Served) (hcreated : s.CreatedFor rb script)
    {env : StartEnv} {sa : ConsumerStartArgs} {p : Client}
    (hcaller : s.caller = .resetConsumer env sa p) {r : Reader} (hr : s.reader = some r)
    (hplace : r.place ≠ .outside .done) :
    Restarts rb script ∨ s.world.bc.stop = true ∧ r.place.Leaving := by
  obtain ⟨before, errstr, w, hscript, hexec, hth, hstop, hcreates⟩ := hcreated env sa p hcaller
  cases hraised : s.world.bc.stop with
  | false =>
    refine .inl ⟨before, env, sa, errstr, s.todo, w, hscript, hexec, ?_, ?_, hcreates⟩
    · rw [hth]
      by_contra hnone
      exact hplace (h.joined (Option.not_isSome_iff_eq_none.mp hnone) r hr)
    · rw [hstop, hraised]
  | true =>
    rcases h.leaving hraised with hstored | hleaving
    · rw [hcaller] at hstored
      exact hstored.elim
    · exact .inr ⟨rfl, hleaving r hr⟩

/-- A step of the caller that destroys no client, with a reader that keeps its place. -/
theorem Life.Stale.goes (h : s.Stale rb script) (hreader : t.reader = s.reader)
    (hdestroyed : t.destroyed = s.destroyed)
    (hqueue : ∀ q, t.world.bc.queue = some q → q.client ∈ s.destroyed →
      s.world.bc.queue = some q)
    (hstop : s.world.bc.stop = true → t.world.bc.stop = true) : t.Stale rb script where
  inside := by
    rw [hreader, hdestroyed]
    exact h.inside
  queue := by
    rw [hreader, hdestroyed]
    intro r q hr hplace hq hmem
    refine (h.queue r q hr hplace (hqueue q hq hmem) hmem).imp_right ?_
    exact fun hleaving => ⟨hstop hleaving.1, hleaving.2⟩

/-- When the reader has ended. -/
theorem Life.Stale.of_done (h : ∀ r, s.reader = some r → r.place = .outside .done) :
    s.Stale rb script where
  inside := by
    intro r client queue hr hplace _
    cases (h r hr).symm.trans hplace
  queue := fun r q hr hplace _ _ => absurd (h r hr) hplace

/-- The reader goes on in the loop. -/
theorem Life.Stale.reads (h : s.Stale rb script) {r : Reader} {pc : ReaderPc}
    (hr : s.reader = some r) (hplace : r.place ≠ .outside .done)
    (hleaving : s.world.bc.stop = true → r.place.Leaving → (ReaderPlace.outside pc).Leaving) :
    (s.readerAt r pc).Stale rb script where
  inside := by
    intro r' client queue hr' hplace' _
    cases hr'
    cases hplace'
  queue := by
    intro r' q hr' _ hq hmem
    cases hr'
    refine (h.queue r q hr hplace hq hmem).imp_right ?_
    exact fun hstop => ⟨hstop.1, hleaving hstop.1 hstop.2⟩

theorem Life.Stale.of_step (h : s.Stale rb script) (howned : s.Owned) (hserved : s.Served)
    (hcreated : s.CreatedFor rb script) (hstep : s.Step t) : t.Stale rb script := by
  cases hstep with
  | resetConsumer env sa p hcaller =>
    constructor
    · intro r client queue hr hplace _
      have hrestarts := hserved.restarts_or_leaving hcreated hcaller hr (by simp [hplace])
      simpa [hplace, ReaderPlace.Leaving] using hrestarts
    · intro r q hr hplace _ _
      exact hserved.restarts_or_leaving hcreated hcaller hr hplace
  | dropQueue dtor hcaller | dropTopic dtor hcaller | dropConsumer dtor hcaller =>
    exact .of_done (hserved.joined (hserved.th_of_dropping hcaller rfl))
  | destroy hcaller hth => exact .of_done (hserved.joined hth)
  | resetQueue p hcaller =>
    have hlive := howned.live (hserved.prepared_at hcaller)
    refine h.goes rfl rfl ?_ id
    intro q hq hmem
    cases hq
    exact absurd hmem hlive
  | launch hcaller hth =>
    obtain ⟨c, hconsumer, hqueue⟩ := hserved.prepared_at hcaller
    constructor
    · intro r client queue hr hplace
      cases hr
      cases hplace
    · intro r q hr _ hq hmem
      cases hqueue.symm.trans hq
      exact absurd hmem (howned.live hconsumer)
  | store dtor hcaller => exact h.goes rfl rfl (fun _ hq _ => hq) fun _ => rfl
  | readerNext r result pc pc' hreader hplace hconsume hpc =>
    obtain ⟨hgoes, hleaving⟩ := ReaderPlace.of_next hplace hpc
    exact h.reads hreader hgoes hleaving
  | readerReturns r result client queue hreader hplace hlive =>
    refine h.reads hreader (by simp [hplace]) ?_
    intro _ hleaving
    simp [hplace, ReaderPlace.Leaving] at hleaving
  | readerCalls r c q hreader hplace hconsumer hqueue =>
    -- a reader that is going to call `consume` is not leaving
    have hrestarts : q.client ∈ s.destroyed → Restarts rb script := by
      intro hmem
      have hstale := h.queue r q hreader (by simp [hplace]) hqueue hmem
      simpa [hplace, ReaderPlace.Leaving] using hstale
    constructor
    · intro r' client queue hr hplace' hmem
      cases hr
      cases hplace'
      exact hmem.elim (fun hgone => absurd hgone (howned.live hconsumer)) hrestarts
    · intro r' q' _ _ hq hmem
      cases hqueue.symm.trans hq
      exact .inl (hrestarts hmem)
  | _ => exact h.goes rfl rfl (fun _ hq _ => hq) id

/-! ## Whose the handles are -/

/-- The topic and the queue are of clients that `_consumer` holds or has held. -/
structure Life.Issued (s : Life) : Prop where
  topic : ∀ t, s.world.bc.topic = some t → t.client ∈ s.destroyed ++ s.held
  queue : ∀ q, s.world.bc.queue = some q → q.client ∈ s.destroyed ++ s.held

/-- A step that leaves the two handles. -/
theorem Life.Issued.goes (h : s.Issued) (htopic : t.world.bc.topic = s.world.bc.topic)
    (hqueue : t.world.bc.queue = s.world.bc.queue)
    (hheld : s.destroyed ++ s.held ⊆ t.destroyed ++ t.held) : t.Issued where
  topic := by
    rw [htopic]
    exact fun top htop => hheld (h.topic top htop)
  queue := by
    rw [hqueue]
    exact fun q hq => hheld (h.queue q hq)

theorem Life.held_of {c : Client} (h : s.world.bc.consumer = some c) : s.held = [c.id] := by
  simp [Life.held, h]

theorem Life.Issued.of_step (h : s.Issued) (hserved : s.Served) (hstep : s.Step t) :
    t.Issued := by
  cases hstep with
  | resetConsumer | dropConsumer => exact h.goes rfl rfl (List.subset_append_left _ _)
  | resetTopic env sa p hcaller =>
    have hheld := Life.held_of (hserved.prepared_at hcaller)
    refine ⟨?_, h.queue⟩
    intro top htop
    cases htop
    show p.id ∈ s.destroyed ++ s.held
    simp [hheld]
  | resetQueue p hcaller =>
    have hheld := Life.held_of (hserved.prepared_at hcaller)
    refine ⟨h.topic, ?_⟩
    intro q hq
    cases hq
    show p.id ∈ s.destroyed ++ s.held
    simp [hheld]
  | dropQueue => exact ⟨h.topic, nofun⟩
  | dropTopic => exact ⟨nofun, h.queue⟩
  | destroy => exact ⟨nofun, nofun⟩
  | _ => exact h.goes rfl rfl fun _ => id

/-! ## What a `stop` has found -/

/-- A call of `stop`, the destructor's too, on an object whose client is not that of its topic. -/
def StopsTopicless (rb : RbCb) (script : List Op) : Prop :=
  ∃ before rest w c, script = before ++ rest ∧ (∀ op ∈ rest.head?, op = .stop) ∧
    exec (World.fresh rb) before = .ok w ∧ w.bc.stop = false ∧ w.bc.consumer = some c ∧
      ∀ top, w.bc.topic = some top → top.client ≠ c.id

/-- In `stop`, before the join: the calls that have come before it. -/
def Life.StopFound (rb : RbCb) (script : List Op) (s : Life) : Prop :=
  ∀ dtor pc, s.caller = .stop dtor pc → pc.joined = false →
    ∃ before rest w, script = before ++ rest ∧ (∀ op ∈ rest.head?, op = .stop) ∧
      exec (World.fresh rb) before = .ok w ∧ w.bc.consumer = s.world.bc.consumer ∧
        w.bc.topic = s.world.bc.topic ∧
          w.bc.stop = if pc = .test then s.world.bc.stop else false

/-- The call goes on before the join. -/
theorem Life.StopFound.goes (h : s.StopFound rb script) {dtor : Bool} {pc pc' : StopPc}
    (hcaller : s.caller = .stop dtor pc) (hpc : pc.joined = false)
    (ht : t.caller = .stop dtor pc') (hpc' : pc' ≠ .test)
    (hconsumer : t.world.bc.consumer = s.world.bc.consumer)
    (htopic : t.world.bc.topic = s.world.bc.topic)
    (htest : pc = .test → s.world.bc.stop = false) : t.StopFound rb script := by
  intro dtor' pc'' hcaller' _
  cases ht.symm.trans hcaller'
  obtain ⟨before, rest, w, hscript, hrest, hexec, hc, htop, hstop⟩ := h dtor pc hcaller hpc
  refine ⟨before, rest, w, hscript, hrest, hexec, hc.trans hconsumer.symm,
    htop.trans htopic.symm, ?_⟩
  rw [if_neg hpc', hstop]
  split
  · rename_i hpc
    exact htest hpc
  · rfl

theorem Life.StopFound.of_step (h : s.StopFound rb script)
    (hidle : s.caller = .idle →
      ∃ done, done ++ s.todo = script ∧ exec (World.fresh rb) done = .ok s.world)
    (hstep : s.Step t) : t.StopFound rb script := by
  cases hstep with
  | beginDestructor hcaller htodo =>
    intro dtor pc hpc _
    cases hpc
    obtain ⟨done, hdone, hexec⟩ := hidle hcaller
    exact ⟨done, [], s.world, by rw [← hdone, htodo], by simp, hexec, rfl, rfl, rfl⟩
  | beginStop rest hcaller htodo =>
    intro dtor pc hpc _
    cases hpc
    obtain ⟨done, hdone, hexec⟩ := hidle hcaller
    exact ⟨done, .stop :: rest, s.world, by rw [← hdone, htodo], by simp, hexec, rfl, rfl, rfl⟩
  | stopProceeds dtor hcaller hstop =>
    exact h.goes hcaller rfl rfl (by simp) rfl rfl fun _ => hstop
  | store dtor hcaller | notify dtor hcaller | halt dtor hcaller =>
    exact h.goes hcaller rfl rfl (by simp) rfl rfl (by simp)
  | stopReturns dtor | dropConsumer dtor =>
    intro dtor' pc hcaller
    cases dtor <;> cases hcaller
  | join | dropQueue | dropTopic =>
    intro dtor' pc hcaller hpc
    cases hcaller
    cases hpc
  | readerNext | readerCalls | readerReturns => exact h
  | assignJoinable | haltNull | joinTerminates | destroyJoinable | readerNull | readerDestroyed =>
    exact h
  | _ =>
    intro dtor pc hcaller
    cases hcaller

/-! ## A life that has come this far -/

/-- What is known of a life that has come this far. -/
structure Life.Followed (rb : RbCb) (script : List Op) (s : Life) : Prop where
  owned : s.Owned
  served : s.Served
  explained : s.Explained rb script
  created : s.CreatedFor rb script
  stale : s.Stale rb script
  issued : s.Issued
  found : s.StopFound rb script

theorem Life.Followed.of_lifeStep {a : LifeAction} (h : s.Followed rb script)
    (hstep : lifeStep s a = some t) : t.Followed rb script := by
  obtain ⟨hfault, hs⟩ := Life.Step.of_lifeStep hstep
  exact {
    owned := h.owned.of_step hs
    served := h.served.of_step hs
    explained := h.explained.of_lifeStep hstep
    created := h.created.of_step (h.explained.exec_of_idle hfault) hs
    stale := h.stale.of_step h.owned h.served h.created hs
    issued := h.issued.of_step h.served hs
    found := h.found.of_step (h.explained.exec_of_idle hfault) hs }

theorem Life.followed_of_run {as : List LifeAction}
    (hrun : run lifeStep (Life.begin rb script) as = some s) : s.Followed rb script := by
  apply run_invariant (fun _ _ _ h hstep => h.of_lifeStep hstep) hrun
  exact {
    owned := Life.owned_begin rb script
    served := Life.served_begin rb script
    explained := Life.explained_begin rb script
    created := nofun
    stale := .of_done nofun
    issued := ⟨nofun, nofun⟩
    found := nofun }

/-- No other fault comes. -/
theorem Life.Followed.fault (h : s.Followed rb script) {fault : LifeFault}
    (hfault : s.fault = some fault) :
    (∃ f, fault = .call f ∧ execLife rb script = .error f) ∨
      fault = .destroyedConsumer ∧ Restarts rb script := by
  rcases h.explained.blamed fault hfault with hcalls | ⟨r, hr, hstranded⟩
  · exact .inl hcalls
  rcases hstranded with ⟨hplace, hnone⟩ | ⟨client, queue, hplace, hstale, hmem⟩
  · -- a reader in its loop has its handles
    obtain ⟨hconsumer, hqueue⟩ := h.served.handles r hr (by simp [hplace])
    rcases hnone with ⟨-, hnone⟩ | ⟨-, hnone⟩
    · simp [hnone] at hconsumer
    · simp [hnone] at hqueue
  · exact .inr ⟨hstale, h.stale.inside r client queue hr hplace (.inl hmem)⟩

/-! ## Each of them comes -/

/-- Some interleaving comes to the fault. -/
def Life.Reaches (s : Life) (fault : LifeFault) : Prop :=
  PartialRun.Reaches lifeStep (fun t => t.fault = some fault) s

theorem Life.Reaches.of_run {fault : LifeFault} {as : List LifeAction}
    (hrun : run lifeStep s as = some t) (h : t.Reaches fault) : s.Reaches fault :=
  PartialRun.Reaches.of_run hrun h

theorem Life.Reaches.of_fault {fault : LifeFault} (h : s.fault = some fault) : s.Reaches fault :=
  PartialRun.Reaches.here h

/-- In the destructor. -/
theorem Life.Between.reaches_destructor (h : s.Between []) (hs : s.Waiting) {fault : Fault}
    (hdestructor : destructor s.world = .error fault) : s.Reaches (.call fault) := by
  have hnext : s.callerStep = some (s.goto (.stop true .test)) := by
    rw [h.callerStep, Life.nextCall, h.todo]
  have hwaiting : (s.goto (.stop true .test)).Waiting := hs
  obtain ⟨as, t, hrun, ht⟩ := hwaiting.run_stop rfl h.fault
  refine .of_run (run_lifeCaller h.fault hnext hrun) ?_
  have hworld : (s.goto (.stop true .test)).world = s.world := rfl
  rw [hworld] at ht
  unfold destructor at hdestructor
  rcases hstop : stop s.world with fault' | ⟨w, _ | e⟩
  · rw [hstop] at ht hdestructor
    cases hdestructor
    exact .of_fault ht
  · rw [hstop] at ht hdestructor
    obtain ⟨rfl, hcaller, -, hfault, -, -⟩ := ht
    dsimp only at hdestructor
    split at hdestructor
    · rename_i hth
      cases hdestructor
      have hfails : t.callerStep = some (t.fail (.call .destroyJoinable)) := by
        rw [Life.callerStep, hcaller]
        exact congrArg some (if_pos hth)
      exact .of_run (run_lifeCaller hfault hfails run_nil) (.of_fault rfl)
    · cases hdestructor
  · rw [hstop] at ht hdestructor
    cases hdestructor
    exact .of_fault ht

theorem Life.reaches_of_execLife {fault : Fault} (h : execLife rb script = .error fault) :
    (Life.begin rb script).Reaches (.call fault) := by
  obtain ⟨as, t, hrun, ht⟩ := Life.run_begin rb script []
  rw [List.append_nil] at hrun
  refine .of_run hrun ?_
  cases hexec : exec (World.fresh rb) script with
  | error fault' =>
    rw [hexec] at ht
    rw [execLife, hexec] at h
    cases h
    exact .of_fault ht
  | ok w =>
    rw [hexec] at ht
    obtain ⟨hbetween, hwaiting, rfl⟩ := ht
    rw [execLife, hexec] at h
    refine hbetween.reaches_destructor hwaiting ?_
    cases hdestructor : destructor t.world with
    | error fault' =>
      simp only [hdestructor, Except.map] at h
      exact h
    | ok w =>
      simp only [hdestructor, Except.map] at h
      cases h

/-- A reader at its loop head goes into `consume`, and the `start` destroys the client there. -/
theorem Life.Between.reaches_destroyed {env : StartEnv} {sa : ConsumerStartArgs} {errstr : String}
    {after : List Op} (h : s.Between (.start env sa errstr :: after)) (hcreates : env.Creates sa)
    (hs : s.Followed rb script) {reader : Nat}
    (hreader : s.reader = some ⟨reader, .outside .head⟩) (hstop : s.world.bc.stop = false) :
    s.Reaches .destroyedConsumer := by
  obtain ⟨hconsumer, hqueue⟩ := hs.served.handles _ hreader (by simp)
  obtain ⟨c, hc⟩ := Option.isSome_iff_exists.mp hconsumer
  obtain ⟨q, hq⟩ := Option.isSome_iff_exists.mp hqueue
  obtain ⟨p, text, hcreate⟩ := createConsumer_of_creates hcreates s.world.clients errstr
  have hrun : ∃ t, run lifeStep s
      [.reader none, .reader none, .caller, .caller, .reader none] = some t ∧
        t.fault = some .destroyedConsumer := by
    simp [run, lifeStep, Life.readerStep, Life.readerAt, Life.beginConsume, Life.callerStep,
      Life.nextCall, Life.created, Life.resetConsumer, Life.held, Life.fail, ReaderPc.next,
      ReaderPc.inCallback, h.caller, h.fault, h.todo, hreader, hstop, hc, hq, hcreate]
  obtain ⟨t, hrun, ht⟩ := hrun
  exact .of_run hrun (.of_fault ht)

/-! ## What librdkafka gets -/

/-- `stop` is about to call `_consumer->stop` without a topic, or with that of a client that has
been destroyed. -/
def Life.HaltsTopicless (s : Life) : Prop :=
  s.fault = none ∧ (∃ dtor, s.caller = .stop dtor .halt) ∧ s.world.bc.consumer.isSome ∧
    ∀ top, s.world.bc.topic = some top → top.client ∈ s.destroyed

/-- The reader is in `consume` on a client that has not been destroyed, with the queue of one that
has. -/
def Life.ReadsGoneQueue (s : Life) : Prop :=
  s.fault = none ∧ ∃ r client queue, s.reader = some r ∧ r.place = .inside client queue ∧
    client ∉ s.destroyed ∧ queue ∈ s.destroyed

theorem Life.Followed.topicless (h : s.Followed rb script) (hs : s.HaltsTopicless) :
    StopsTopicless rb script := by
  obtain ⟨-, ⟨dtor, hcaller⟩, hconsumer, htopic⟩ := hs
  obtain ⟨c, hc⟩ := Option.isSome_iff_exists.mp hconsumer
  obtain ⟨before, rest, w, hscript, hrest, hexec, hsame, htop, hstop⟩ :=
    h.found dtor .halt hcaller rfl
  refine ⟨before, rest, w, c, hscript, hrest, hexec, hstop, hsame.trans hc, ?_⟩
  intro top hfound hclient
  have hgone : top.client ∈ s.destroyed := htopic top (htop ▸ hfound)
  rw [hclient] at hgone
  exact h.owned.live hc hgone

theorem Life.Followed.restarts (h : s.Followed rb script) (hs : s.ReadsGoneQueue) :
    Restarts rb script := by
  obtain ⟨-, r, client, queue, hr, hplace, -, hgone⟩ := hs
  exact h.stale.inside r client queue hr hplace (.inr hgone)

/-- A `stop` that comes next, or the destructor, goes as far as `_consumer->stop`. -/
theorem Life.Between.run_halt {rest : List Op} (h : s.Between rest)
    (hrest : ∀ op ∈ rest.head?, op = .stop) (hstop : s.world.bc.stop = false) :
    ∃ as t dtor, run lifeStep s as = some t ∧ t.fault = none ∧ t.caller = .stop dtor .halt ∧
      t.world.bc = { s.world.bc with stop := true } ∧ t.destroyed = s.destroyed := by
  refine ⟨List.replicate 4 .caller, ?_⟩
  cases rest with
  | nil =>
    simp [run, lifeStep, Life.callerStep, Life.nextCall, Life.stopStep, Life.goto, Life.raiseStop,
      Life.calls, h.caller, h.fault, h.todo, hstop]
  | cons op rest =>
    have hop : op = .stop := hrest op rfl
    simp [run, lifeStep, Life.callerStep, Life.nextCall, Life.stopStep, Life.goto, Life.begins,
      Life.raiseStop, Life.calls, h.caller, h.fault, h.todo, hstop, hop]

theorem Life.reaches_of_topicless (h : StopsTopicless rb script) :
    PartialRun.Reaches lifeStep Life.HaltsTopicless (Life.begin rb script) := by
  obtain ⟨before, rest, w, c, rfl, hrest, hexec, hstop, hconsumer, htopic⟩ := h
  obtain ⟨as, s, hrun, hs⟩ := Life.run_begin rb before rest
  rw [hexec] at hs
  obtain ⟨hbetween, -, rfl⟩ := hs
  have hissued := (Life.followed_of_run hrun).issued
  obtain ⟨bs, t, dtor, hrun', hfault, hcaller, hbc, hdestroyed⟩ :=
    hbetween.run_halt hrest hstop
  refine .of_run hrun ⟨bs, t, hrun', hfault, ⟨dtor, hcaller⟩, ?_, ?_⟩
  · simp [hbc, hconsumer]
  · intro top htop
    rw [hbc] at htop
    have hmem := hissued.topic top htop
    rw [Life.held_of hconsumer, List.mem_append, List.mem_singleton] at hmem
    rw [hdestroyed]
    exact hmem.resolve_right (htopic top htop)

/-- A `start` destroys the client while the reader is at its loop head, and the reader goes into
`consume` before `_queue` is reset. -/
theorem Life.Between.reaches_goneQueue {env : StartEnv} {sa : ConsumerStartArgs} {errstr : String}
    {after : List Op} (h : s.Between (.start env sa errstr :: after)) (hcreates : env.Creates sa)
    (hs : s.Followed rb script) {reader : Nat}
    (hreader : s.reader = some ⟨reader, .outside .head⟩) (hstop : s.world.bc.stop = false) :
    PartialRun.Reaches lifeStep Life.ReadsGoneQueue s := by
  obtain ⟨hconsumer, hqueue⟩ := hs.served.handles _ hreader (by simp)
  obtain ⟨c, hc⟩ := Option.isSome_iff_exists.mp hconsumer
  obtain ⟨q, hq⟩ := Option.isSome_iff_exists.mp hqueue
  obtain ⟨p, text, hcreate⟩ := createConsumer_of_creates hcreates s.world.clients errstr
  have hrun : ∃ t, run lifeStep s [.caller, .caller, .reader none, .reader none] = some t ∧
      t.fault = none ∧ t.reader = some ⟨reader, .inside p.id q.client⟩ ∧
        t.world.bc.consumer = some p ∧ t.destroyed = s.destroyed ++ s.held := by
    simp [run, lifeStep, Life.readerStep, Life.readerAt, Life.beginConsume, Life.callerStep,
      Life.nextCall, Life.created, Life.resetConsumer, World.resetConsumer, ReaderPc.next,
      ReaderPc.inCallback, Life.held, h.caller, h.fault, h.todo, hreader, hstop, hc, hq, hcreate]
  obtain ⟨t, hrun, hfault, hplace, hp, hdestroyed⟩ := hrun
  have howned : t.Owned :=
    run_invariant (fun _ _ _ h hstep => h.of_step (Life.Step.of_lifeStep hstep).2) hrun hs.owned
  refine ⟨_, t, hrun, hfault, _, _, _, hplace, rfl, howned.live hp, ?_⟩
  rw [hdestroyed]
  exact hs.issued.queue q hq

/-- A run up to the `start`, with a reader that has done nothing yet. -/
theorem Restarts.exists_run (h : Restarts rb script) :
    ∃ as s env sa errstr after reader, run lifeStep (Life.begin rb script) as = some s ∧
      s.Between (.start env sa errstr :: after) ∧ env.Creates sa ∧ s.Followed rb script ∧
        s.reader = some ⟨reader, .outside .head⟩ ∧ s.world.bc.stop = false := by
  obtain ⟨before, env, sa, errstr, after, w, rfl, hexec, hth, hstop, hcreates⟩ := h
  obtain ⟨as, t, hrun, ht⟩ := Life.run_begin rb before (.start env sa errstr :: after)
  rw [hexec] at ht
  obtain ⟨hbetween, hwaiting, rfl⟩ := ht
  obtain ⟨reader, hreader⟩ := hwaiting (Option.isSome_iff_ne_none.mp hth)
  exact ⟨as, t, env, sa, errstr, after, reader, hrun, hbetween, hcreates,
    Life.followed_of_run hrun, hreader, hstop⟩

theorem Life.reaches_of_restarts (h : Restarts rb script) :
    (Life.begin rb script).Reaches .destroyedConsumer ∧
      PartialRun.Reaches lifeStep Life.ReadsGoneQueue (Life.begin rb script) := by
  obtain ⟨as, s, env, sa, errstr, after, reader, hrun, hbetween, hcreates, hs, hreader, hstop⟩ :=
    h.exists_run
  exact ⟨.of_run hrun (hbetween.reaches_destroyed hcreates hs hreader hstop),
    .of_run hrun (hbetween.reaches_goneQueue hcreates hs hreader hstop)⟩

/-- The faults that a life comes to in some interleaving are those of its calls and, when a client
is created while a reader runs, that of the reader. Some interleaving comes to `_consumer->stop`
without the topic of a live client when a `stop` is called on such an object, and to `consume`
with the queue of a client that is gone when a client is created while a reader runs. -/
theorem fault_iff_calls_or_restart (rb : RbCb) (script : List Op) :
    (∀ fault, (∃ as s, run lifeStep (Life.begin rb script) as = some s ∧ s.fault = some fault) ↔
      (∃ f, fault = .call f ∧ execLife rb script = .error f) ∨
        fault = .destroyedConsumer ∧ Restarts rb script) ∧
    ((∃ as s, run lifeStep (Life.begin rb script) as = some s ∧ s.HaltsTopicless) ↔
      StopsTopicless rb script) ∧
    ((∃ as s, run lifeStep (Life.begin rb script) as = some s ∧ s.ReadsGoneQueue) ↔
      Restarts rb script) := by
  refine ⟨?_, ⟨?_, Life.reaches_of_topicless⟩, ?_, ?_⟩
  · intro fault
    constructor
    · rintro ⟨as, s, hrun, hfault⟩
      exact (Life.followed_of_run hrun).fault hfault
    · rintro (⟨f, rfl, hcalls⟩ | ⟨rfl, hrestarts⟩)
      · exact Life.reaches_of_execLife hcalls
      · exact (Life.reaches_of_restarts hrestarts).1
  · rintro ⟨as, s, hrun, hs⟩
    exact (Life.followed_of_run hrun).topicless hs
  · rintro ⟨as, s, hrun, hs⟩
    exact (Life.followed_of_run hrun).restarts hs
  · exact fun h => (Life.reaches_of_restarts h).2

end TsKafka.BasicConsumer
