import TsKafka.BasicConsumer.Life
import TsKafka.BasicConsumer.Teardown
import TsKafka.Library.Termination

/-!
# What holds in every life of a `basic_consumer`

Results about all sequences of calls, also those that end in a fault: what becomes of the clients
that `pre_start` creates, which readers consume, and that a consumer whose `_stop` is raised comes
to its end under every schedule.
-/

namespace TsKafka.BasicConsumer
open RdKafka PartialRun

variable {s t : Life}

/-! ## The clients -/

/-- The client that `Consumer::create` has returned and `_consumer` does not hold yet. -/
def Life.unowned (s : Life) : List Nat :=
  match s.caller with
  | .resetConsumer _ _ p => [p.id]
  | _ => []

/-- The clients destroyed, the one that `_consumer` holds and the one that it is going to hold are
those that have been created, in the order of their creation. -/
def Life.Owned (s : Life) : Prop :=
  s.destroyed ++ s.held ++ s.unowned = List.range s.world.clients

/-- A step that leaves the clients alone. -/
theorem Life.Owned.congr (h : s.Owned) (hunowned : t.unowned = s.unowned)
    (hdestroyed : t.destroyed = s.destroyed) (hheld : t.held = s.held)
    (hclients : t.world.clients = s.world.clients) : t.Owned := by
  unfold Life.Owned at h ⊢
  rw [hunowned, hdestroyed, hheld, hclients, h]

/-- The client that `_consumer` held is destroyed, and it holds the unowned one, if there is one. -/
theorem Life.Owned.replace (h : s.Owned) (hunowned : t.unowned = [])
    (hdestroyed : t.destroyed = s.destroyed ++ s.held) (hheld : t.held = s.unowned)
    (hclients : t.world.clients = s.world.clients) : t.Owned := by
  unfold Life.Owned at h ⊢
  rw [hunowned, hdestroyed, hheld, hclients, ← h, List.append_nil]

theorem Life.unowned_afterStop (dtor : Bool) (h : s.caller = Life.afterStop dtor) :
    s.unowned = [] := by
  cases dtor <;> simp [Life.unowned, h, Life.afterStop]

theorem Life.Owned.of_step (h : s.Owned) (hstep : s.Step t) : t.Owned := by
  cases hstep with
  | startCreates env sa errstr rest p hcaller htodo hcreates hid =>
    -- the new client is the next in the order of creation
    have hold : s.unowned = [] := by simp [Life.unowned, hcaller]
    have hnew : (s.created rest env sa p).unowned = [s.world.clients] := by
      simp [Life.unowned, Life.created, hid]
    unfold Life.Owned at h ⊢
    rw [hold, List.append_nil] at h
    rw [hnew]
    show s.destroyed ++ s.held ++ [s.world.clients] = List.range (s.world.clients + 1)
    rw [h, List.range_succ]
  | resetConsumer env sa p hcaller =>
    have hold : s.unowned = [p.id] := by simp [Life.unowned, hcaller]
    exact h.replace rfl rfl hold.symm rfl
  | dropConsumer dtor hcaller =>
    have hold : s.unowned = [] := by simp [Life.unowned, hcaller]
    exact h.replace (Life.unowned_afterStop dtor rfl) rfl hold.symm rfl
  | destroy hcaller hth =>
    have hold : s.unowned = [] := by simp [Life.unowned, hcaller]
    exact h.replace rfl rfl hold.symm rfl
  | stopReturns dtor hcaller hstop =>
    have hold : s.unowned = [] := by simp [Life.unowned, hcaller]
    exact h.congr ((Life.unowned_afterStop dtor rfl).trans hold.symm) rfl rfl rfl
  | readerNext | readerCalls | readerNull | readerReturns | readerDestroyed =>
    exact h.congr rfl rfl rfl rfl
  | assignJoinable | haltNull | joinTerminates | destroyJoinable => exact h.congr rfl rfl rfl rfl
  | _ =>
    refine h.congr ?_ rfl rfl rfl
    simp [Life.unowned, Life.goto, Life.begins, Life.resetTopic, Life.resetQueue, Life.launch,
      Life.raiseStop, Life.calls, Life.joined, Life.threw, *]

theorem Life.owned_begin (rb : RbCb) (script : List Op) : (Life.begin rb script).Owned := rfl

theorem Life.owned_of_run {rb : RbCb} {script : List Op} {as : List LifeAction}
    (hrun : run lifeStep (Life.begin rb script) as = some s) : s.Owned :=
  run_invariant (fun _ _ _ h hstep => h.of_step (Life.Step.of_lifeStep hstep).2) hrun
    (Life.owned_begin rb script)

theorem Life.Owned.nodup_held (h : s.Owned) : (s.destroyed ++ s.held).Nodup := by
  have hnodup : (s.destroyed ++ s.held ++ s.unowned).Nodup := h ▸ List.nodup_range
  exact (List.nodup_append.mp hnodup).1

theorem Life.Owned.nodup (h : s.Owned) : s.destroyed.Nodup :=
  (List.nodup_append.mp h.nodup_held).1

/-- The client that `_consumer` holds has not been destroyed. -/
theorem Life.Owned.live (h : s.Owned) {c : Client} (hc : s.world.bc.consumer = some c) :
    c.id ∉ s.destroyed := by
  have hheld : s.held = [c.id] := by simp [Life.held, hc]
  intro hmem
  have hdisjoint := (List.nodup_append.mp h.nodup_held).2.2
  exact hdisjoint c.id hmem c.id (by simp [hheld]) rfl

/-- A destroyed consumer holds no client. -/
def Life.Emptied (s : Life) : Prop := s.caller = .destroyed → s.world.bc.consumer = none

theorem Life.Emptied.of_step (h : s.Emptied) (hstep : s.Step t) : t.Emptied := by
  cases hstep with
  | destroy => exact fun _ => rfl
  | stopReturns dtor | dropConsumer dtor =>
    intro hcaller
    cases dtor <;> cases hcaller
  | assignJoinable | haltNull | joinTerminates | destroyJoinable => exact h
  | readerNext | readerCalls | readerNull | readerReturns | readerDestroyed => exact h
  | _ =>
    intro hcaller
    cases hcaller

/-- What becomes of the clients that the starts of a life create. -/
structure Life.ClientsOnce (s : Life) : Prop where
  /-- In the order in which they were created: those destroyed, the one that `_consumer` holds, and
  the one that `pre_start` has created and not given to `_consumer` yet. -/
  created : s.destroyed ++ s.held ++ s.unowned = List.range s.world.clients
  /-- The destruction of the consumer leaves none behind. -/
  ended : s.caller = .destroyed → s.destroyed = List.range s.world.clients

/-- Every client ever created is destroyed exactly once, in the order of creation, whatever calls
are made and wherever they fail. -/
theorem clients_destroyed_once (rb : RbCb) (script : List Op) (as : List LifeAction) (s : Life)
    (hrun : run lifeStep (Life.begin rb script) as = some s) : s.ClientsOnce := by
  have howned := Life.owned_of_run hrun
  have hempty : s.Emptied := by
    apply run_invariant (fun _ _ _ h hstep => h.of_step (Life.Step.of_lifeStep hstep).2) hrun
    intro hcaller
    cases hcaller
  refine ⟨howned, ?_⟩
  intro hcaller
  have hheld : s.held = [] := by simp [Life.held, hempty hcaller]
  have hunowned : s.unowned = [] := by simp [Life.unowned, hcaller]
  have hall : s.destroyed ++ s.held ++ s.unowned = List.range s.world.clients := howned
  rwa [hheld, hunowned, List.append_nil, List.append_nil] at hall

/-- A client that `Topic::create` refuses, and one that is used and stopped. -/
theorem clients_destroyed_once_two :
    ∃ s, run lifeStep (Life.begin ⟨0, 0⟩ [.start .withoutTopic .fromBeginning "",
        .start .accepting .fromBeginning ""])
          (List.replicate 13 .caller ++ List.replicate 2 (.reader none) ++
            List.replicate 5 .caller) = some s ∧
      s.caller = .destroyed ∧ s.world.clients = 2 ∧ s.ClientsOnce :=
  ⟨_, rfl, rfl, rfl, clients_destroyed_once ⟨0, 0⟩ [.start .withoutTopic .fromBeginning "",
    .start .accepting .fromBeginning ""] (List.replicate 13 .caller ++
      List.replicate 2 (.reader none) ++ List.replicate 5 .caller) _ rfl⟩

/-! ## The first reader -/

/-- A reader that has found `_stop` raised, or is going to. -/
def ReaderPlace.Leaving (place : ReaderPlace) : Prop :=
  place = .outside .head ∨ place = .outside .notify ∨ place = .outside .done

/-- No reader but the first one launched gets past its loop head. -/
structure Life.FirstReader (s : Life) : Prop where
  stored : ∀ dtor pc, s.caller = .stop dtor pc → pc.stored = true → s.world.bc.stop = true
  /-- A second launch needs a join before it, and `stop` raises the flag before it joins. -/
  unlaunched : s.world.bc.stop = false → s.world.bc.th = none → s.world.readers = 0
  later : ∀ r, s.reader = some r → r.id ≠ 0 → s.world.bc.stop = true ∧ r.place.Leaving
  first : ∀ i ∈ s.consumed ++ s.called, i = 0

namespace Life.FirstReader

/-- A step of the caller that neither launches nor joins a reader. -/
theorem congr (h : s.FirstReader) (hstop : t.world.bc.stop = s.world.bc.stop)
    (hth : t.world.bc.th = s.world.bc.th) (hreaders : t.world.readers = s.world.readers)
    (hreader : t.reader = s.reader) (hhistory : t.consumed ++ t.called = s.consumed ++ s.called)
    (hstored : ∀ dtor pc, t.caller = .stop dtor pc → pc.stored = true →
      s.world.bc.stop = true) : t.FirstReader := by
  refine ⟨?_, ?_, ?_, ?_⟩
  · intro dtor pc hcaller hpc
    rw [hstop]
    exact hstored dtor pc hcaller hpc
  · rw [hstop, hth, hreaders]
    exact h.unlaunched
  · rw [hstop, hreader]
    exact h.later
  · rw [hhistory]
    exact h.first

/-- The same when the caller comes to a place before the store of `_stop`. -/
theorem moves (h : s.FirstReader) (hstop : t.world.bc.stop = s.world.bc.stop)
    (hth : t.world.bc.th = s.world.bc.th) (hreaders : t.world.readers = s.world.readers)
    (hreader : t.reader = s.reader) (hhistory : t.consumed ++ t.called = s.consumed ++ s.called)
    (hcaller : ∀ dtor pc, t.caller = .stop dtor pc → pc.stored = false) : t.FirstReader := by
  refine h.congr hstop hth hreaders hreader hhistory ?_
  intro dtor pc hpc hstored
  rw [hcaller dtor pc hpc] at hstored
  cases hstored

/-- The same when it is in `stop` after that store. -/
theorem inStop (h : s.FirstReader) {dtor : Bool} {pc : StopPc} (hcaller : s.caller = .stop dtor pc)
    (hpc : pc.stored = true) (hstop : t.world.bc.stop = s.world.bc.stop)
    (hth : t.world.bc.th = s.world.bc.th) (hreaders : t.world.readers = s.world.readers)
    (hreader : t.reader = s.reader) (hhistory : t.consumed ++ t.called = s.consumed ++ s.called) :
    t.FirstReader :=
  h.congr hstop hth hreaders hreader hhistory fun _ _ _ _ => h.stored dtor pc hcaller hpc

theorem launch (h : s.FirstReader) (hth : s.world.bc.th = none) : s.launch.FirstReader := by
  refine ⟨?_, ?_, ?_, h.first⟩
  · intro dtor pc hcaller
    cases hcaller
  · intro _ hnone
    cases hnone
  · intro r hr hid
    cases hr
    refine ⟨?_, .inl rfl⟩
    by_contra hrunning
    exact hid (h.unlaunched (Bool.eq_false_iff.mpr hrunning) hth)

theorem raiseStop (h : s.FirstReader) (pc : CallerPc) : (s.raiseStop pc).FirstReader := by
  refine ⟨fun _ _ _ _ => rfl, ?_, ?_, h.first⟩
  · intro hstop
    cases hstop
  · intro r hr hid
    exact ⟨rfl, (h.later r hr hid).2⟩

theorem joined (h : s.FirstReader) {dtor : Bool} (hcaller : s.caller = .stop dtor .join)
    (reader : Nat) (pc : CallerPc) : (s.joined reader pc).FirstReader := by
  have hstop : s.world.bc.stop = true := h.stored dtor .join hcaller rfl
  refine ⟨fun _ _ _ _ => hstop, ?_, h.later, h.first⟩
  intro hrunning
  cases hstop.symm.trans hrunning

/-- The reader goes on to the place `place`. -/
theorem readerMoves (h : s.FirstReader) {r : Reader} {place : ReaderPlace}
    (hr : s.reader = some r) (ht : t.reader = some { r with place := place })
    (hworld : t.world = s.world) (hcaller : t.caller = s.caller)
    (hleaving : r.id ≠ 0 → s.world.bc.stop = true → r.place.Leaving → place.Leaving)
    (hhistory : ∀ i ∈ t.consumed ++ t.called, i ∈ s.consumed ++ s.called ∨
      i = r.id ∧ ¬ r.place.Leaving) : t.FirstReader := by
  refine ⟨?_, ?_, ?_, ?_⟩
  · rw [hworld, hcaller]
    exact h.stored
  · rw [hworld]
    exact h.unlaunched
  · intro r' hr' hid
    rw [ht] at hr'
    cases hr'
    obtain ⟨hstop, hplace⟩ := h.later r hr hid
    rw [hworld]
    exact ⟨hstop, hleaving hid hstop hplace⟩
  · intro i hi
    rcases hhistory i hi with hold | ⟨rfl, hplace⟩
    · exact h.first i hold
    · by_contra hid
      exact hplace (h.later r hr hid).2

end Life.FirstReader

/-- With `_stop` raised a leaving reader goes from the loop head to the notification and ends. -/
theorem ReaderPlace.leaving_next {pc pc' : ReaderPc} {result : Option Message}
    (hplace : (ReaderPlace.outside pc).Leaving) (h : pc.next true result = some pc') :
    (ReaderPlace.outside pc').Leaving ∧ pc'.inCallback = false := by
  rcases hplace with hplace | hplace | hplace <;> cases hplace <;> cases h
  · exact ⟨.inr (.inl rfl), rfl⟩
  · exact ⟨.inr (.inr rfl), rfl⟩

/-- A reader that goes on has not ended, and a leaving one goes on leaving. -/
theorem ReaderPlace.of_next {place : ReaderPlace} {pc pc' : ReaderPc} {stop : Bool}
    {result : Option Message} (hplace : place = .outside pc)
    (h : pc.next stop result = some pc') : place ≠ .outside .done ∧
      (stop = true → place.Leaving → (ReaderPlace.outside pc').Leaving) := by
  subst hplace
  constructor
  · rintro hdone
    cases hdone
    cases h
  · rintro rfl hleaving
    exact (ReaderPlace.leaving_next hleaving h).1

theorem Life.FirstReader.of_step (h : s.FirstReader) (hstep : s.Step t) : t.FirstReader := by
  cases hstep with
  | launch hcaller hth => exact h.launch hth
  | store dtor hcaller => exact h.raiseStop _
  | join dtor reader hcaller hth hdone => exact h.joined hcaller reader _
  | stopReturns dtor hcaller hstop =>
    exact h.moves rfl rfl rfl rfl rfl (by cases dtor <;> simp [Life.goto, Life.afterStop])
  | dropConsumer dtor hcaller =>
    exact h.moves rfl rfl rfl rfl rfl (by cases dtor <;> simp [Life.resetConsumer, Life.afterStop])
  | notify dtor hcaller => exact h.inStop hcaller rfl rfl rfl rfl rfl rfl
  | halt dtor hcaller hconsumer => exact h.inStop hcaller rfl rfl rfl rfl rfl rfl
  | dropQueue dtor hcaller => exact h.inStop hcaller rfl rfl rfl rfl rfl rfl
  | dropTopic dtor hcaller => exact h.inStop hcaller rfl rfl rfl rfl rfl rfl
  | assignJoinable | haltNull | joinTerminates | destroyJoinable | readerNull | readerDestroyed =>
    exact h.congr rfl rfl rfl rfl rfl h.stored
  | readerNext r result pc pc' hreader hplace hconsume hpc =>
    refine h.readerMoves hreader rfl rfl rfl ?_ ?_
    · exact fun _ => (ReaderPlace.of_next hplace hpc).2
    · intro i hi
      by_cases hcallback : pc'.inCallback = true
      · simp only [Life.readerAt, if_pos hcallback, ← List.append_assoc] at hi
        rcases List.mem_append.mp hi with hold | hnew
        · exact .inl hold
        · refine .inr ⟨List.mem_singleton.mp hnew, fun hleaving => ?_⟩
          -- a callback begins at the test of a message
          rw [hplace] at hleaving
          rcases hleaving with hhead | hhead | hhead <;> cases hhead
          · cases hstop : s.world.bc.stop <;> rw [hstop] at hpc <;> cases hpc <;> cases hcallback
          · cases hpc
            cases hcallback
          · cases hpc
      · simp only [Life.readerAt, if_neg hcallback] at hi
        exact .inl hi
  | readerCalls r c q hreader hplace hconsumer hqueue =>
    have hnot : ¬ r.place.Leaving := by
      rw [hplace]
      rintro (hhead | hhead | hhead) <;> cases hhead
    refine h.readerMoves hreader rfl rfl rfl (fun _ _ hleaving => absurd hleaving hnot) ?_
    intro i hi
    simp only [List.mem_append, List.mem_singleton] at hi ⊢
    tauto
  | readerReturns r result client queue hreader hplace hlive =>
    have hnot : ¬ r.place.Leaving := by
      rw [hplace]
      rintro (hhead | hhead | hhead) <;> cases hhead
    exact h.readerMoves hreader rfl rfl rfl (fun _ _ hleaving => absurd hleaving hnot)
      fun i hi => .inl hi
  | _ =>
    refine h.moves rfl rfl rfl rfl rfl ?_
    simp [Life.goto, Life.begins, Life.created, Life.resetConsumer, Life.resetTopic,
      Life.resetQueue, Life.threw, Life.destroy, StopPc.stored]

theorem Life.firstReader_of_run {rb : RbCb} {script : List Op} {as : List LifeAction}
    (hrun : run lifeStep (Life.begin rb script) as = some s) : s.FirstReader := by
  apply run_invariant (fun _ _ _ h hstep => h.of_step (Life.Step.of_lifeStep hstep).2) hrun
  refine ⟨?_, fun _ _ => rfl, ?_, ?_⟩
  · intro dtor pc hcaller
    cases hcaller
  · intro r hr
    cases hr
  · intro i hi
    cases hi

/-! ## After `_stop` is raised -/

/-- The calls of `consume` that a reader can still make when `_stop` is raised. -/
def ReaderPlace.consumesLeft : ReaderPlace → ℕ
  | .outside .consume => 1
  | _ => 0

/-- The callbacks that it can still begin. -/
def ReaderPlace.callsLeft : ReaderPlace → ℕ
  | .outside .consume | .outside (.got _) | .inside _ _ => 1
  | _ => 0

def Life.consumesLeft (s : Life) : ℕ := (s.reader.map fun r => r.place.consumesLeft).getD 0

def Life.callsLeft (s : Life) : ℕ := (s.reader.map fun r => r.place.callsLeft).getD 0

/-- The calls of `consume` made, and those that can still come. -/
def Life.consumesInAll (s : Life) : ℕ := s.consumed.length + s.consumesLeft

/-- The callbacks begun, and those that can still come. -/
def Life.callsInAll (s : Life) : ℕ := s.called.length + s.callsLeft

theorem Life.Step.stop_mono (h : s.Step t) (hstop : s.world.bc.stop = true) :
    t.world.bc.stop = true := by
  cases h <;> first | exact hstop | rfl

/-- With `_stop` raised a reader outside `consume` is no further from its end. -/
theorem ReaderPlace.left_next {pc pc' : ReaderPc} {result : Option Message}
    (hconsume : pc ≠ .consume)
    (h : pc.next true result = some pc') :
    (ReaderPlace.outside pc').consumesLeft = 0 ∧
      (ReaderPlace.outside pc').callsLeft + (if pc'.inCallback then 1 else 0) ≤
        (ReaderPlace.outside pc).callsLeft := by
  cases pc with
  | consume => exact absurd rfl hconsume
  | got result' =>
    rw [ReaderPc.next_got] at h
    cases h
    cases readable result' <;>
      exact ⟨rfl, by simp [ReaderPlace.callsLeft, ReaderPc.inCallback]⟩
  | done => cases h
  | _ =>
    cases h
    exact ⟨rfl, by simp [ReaderPlace.callsLeft, ReaderPc.inCallback]⟩

theorem Life.Step.inAll_le (h : s.Step t) (hstop : s.world.bc.stop = true) :
    t.consumesInAll ≤ s.consumesInAll ∧ t.callsInAll ≤ s.callsInAll := by
  cases h with
  | launch hcaller hth =>
    exact ⟨Nat.le_add_right _ _, Nat.le_add_right _ _⟩
  | readerNext r result pc pc' hreader hplace hconsume hpc =>
    rw [hstop] at hpc
    obtain ⟨hconsumes, hcalls⟩ := ReaderPlace.left_next hconsume hpc
    have hs : s.callsLeft = (ReaderPlace.outside pc).callsLeft := by
      simp [Life.callsLeft, hreader, hplace]
    have ht : (s.readerAt r pc').callsLeft = (ReaderPlace.outside pc').callsLeft := rfl
    have ht' : (s.readerAt r pc').consumesLeft = 0 := hconsumes
    unfold Life.consumesInAll Life.callsInAll
    rw [hs, ht, ht']
    refine ⟨Nat.le_add_right _ _, ?_⟩
    simp only [Life.readerAt]
    split at hcalls <;> rename_i hcallback <;> simp only [hcallback, if_true] <;> simp <;> omega
  | readerCalls r c q hreader hplace hconsumer hqueue =>
    simp [Life.consumesInAll, Life.callsInAll, Life.consumesLeft, Life.callsLeft, hreader, hplace,
      ReaderPlace.consumesLeft, ReaderPlace.callsLeft]
  | readerReturns r result client queue hreader hplace hlive =>
    simp [Life.consumesInAll, Life.callsInAll, Life.consumesLeft, Life.callsLeft, hreader, hplace,
      ReaderPlace.consumesLeft, ReaderPlace.callsLeft, Life.readerAt, ReaderPc.inCallback]
  | _ => exact ⟨Nat.le_refl _, Nat.le_refl _⟩

/-- A consumer that is started again after it has been stopped. -/
def restart : List Op :=
  [.start .accepting .fromBeginning "", .stop, .start .accepting .fromBeginning ""]

/-- `_stop` is raised while the first reader is in the callback for one byte. -/
def stopInCallback : List LifeAction :=
  List.replicate 5 .caller ++ [.reader none, .reader none, .reader (some ⟨.ERR_NO_ERROR, [7], 0⟩),
    .reader none] ++ List.replicate 3 .caller

/-! ## A stopped consumer comes to its end -/

/-- How many steps a reader still makes when `_stop` is raised. -/
def ReaderPlace.rank : ReaderPlace → ℕ
  | .outside .consume => 7
  | .inside _ _ => 6
  | .outside (.got _) => 5
  | .outside (.callback _) => 4
  | .outside (.delete _) => 3
  | .outside .head => 2
  | .outside .notify => 1
  | .outside .done => 0

/-- How many steps `stop` still makes. -/
def StopPc.rank : StopPc → ℕ
  | .test => 8
  | .store => 7
  | .notify => 6
  | .halt => 5
  | .join => 4
  | .resetQueue => 3
  | .resetTopic => 2
  | .resetConsumer => 1

/-- How many steps the caller still makes, without its further calls; a launch brings the two steps
of a new reader. -/
def CallerPc.rank : CallerPc → ℕ
  | .destroyed => 0
  | .members => 1
  | .stop true pc => 1 + pc.rank
  | .idle => 10
  | .assign => 13
  | .resetQueue _ => 14
  | .resetTopic _ _ _ => 15
  | .resetConsumer _ _ _ => 16
  | .stop false pc => 10 + pc.rank

/-- A bound on the steps of a life with `_stop` raised. -/
def Life.rank (s : Life) : ℕ :=
  9 * s.todo.length + s.caller.rank + (s.reader.map fun r => r.place.rank).getD 0 +
    if s.fault = none then 1 else 0

theorem StopPc.rank_le (pc : StopPc) : pc.rank ≤ 8 := by
  cases pc <;> decide

theorem CallerPc.rank_le (pc : CallerPc) : pc.rank ≤ 18 := by
  cases pc with
  | stop dtor pc =>
    have hpc := pc.rank_le
    cases dtor <;> simp only [CallerPc.rank] <;> omega
  | _ => simp [CallerPc.rank]

theorem ReaderPlace.rank_le (place : ReaderPlace) : place.rank ≤ 7 := by
  unfold ReaderPlace.rank
  split <;> simp

theorem Life.rank_le (s : Life) : s.rank ≤ 9 * s.todo.length + 26 := by
  have hcaller := s.caller.rank_le
  have hreader : (s.reader.map fun r => r.place.rank).getD 0 ≤ 7 := by
    rcases s.reader with _ | r
    · exact Nat.zero_le 7
    · exact r.place.rank_le
  unfold Life.rank
  split <;> omega

theorem CallerPc.rank_afterStop (dtor : Bool) :
    (Life.afterStop dtor).rank < (CallerPc.stop dtor .resetConsumer).rank := by
  cases dtor <;> decide

/-- A step in which only the caller moves. -/
theorem Life.rank_lt_of_caller (hfault : t.fault = s.fault) (hreader : t.reader = s.reader)
    (hrank : 9 * t.todo.length + t.caller.rank < 9 * s.todo.length + s.caller.rank) :
    t.rank < s.rank := by
  unfold Life.rank
  rw [hfault, hreader]
  omega

/-- A step in which only the reader moves. -/
theorem Life.rank_lt_of_reader {r : Reader} {place : ReaderPlace} (hfault : t.fault = s.fault)
    (hcaller : t.caller = s.caller) (htodo : t.todo = s.todo) (hs : s.reader = some r)
    (ht : t.reader = some { r with place := place }) (hrank : place.rank < r.place.rank) :
    t.rank < s.rank := by
  unfold Life.rank
  rw [hfault, hcaller, htodo, hs, ht]
  simp only [Option.map_some, Option.getD_some]
  omega

theorem Life.rank_fail (hfault : s.fault = none) (fault : LifeFault) :
    (s.fail fault).rank < s.rank := by
  simp [Life.rank, Life.fail, hfault]

theorem ReaderPlace.rank_next {pc pc' : ReaderPc} {result : Option Message}
    (hconsume : pc ≠ .consume) (h : pc.next true result = some pc') :
    (ReaderPlace.outside pc').rank < (ReaderPlace.outside pc).rank := by
  cases pc with
  | consume => exact absurd rfl hconsume
  | got result' =>
    rw [ReaderPc.next_got] at h
    cases h
    cases readable result' <;> simp [ReaderPlace.rank]
  | done => cases h
  | _ =>
    cases h
    simp [ReaderPlace.rank]

theorem Life.Step.rank_lt (h : s.Step t) (hfault : s.fault = none)
    (hstop : s.world.bc.stop = true) : t.rank < s.rank := by
  cases h with
  | assignJoinable | haltNull | joinTerminates | destroyJoinable | readerNull | readerDestroyed =>
    exact Life.rank_fail hfault _
  | readerNext r result pc pc' hreader hplace hconsume hpc =>
    rw [hstop] at hpc
    refine Life.rank_lt_of_reader rfl rfl rfl hreader rfl ?_
    rw [hplace]
    exact ReaderPlace.rank_next hconsume hpc
  | readerCalls r c q hreader hplace hconsumer hqueue =>
    refine Life.rank_lt_of_reader rfl rfl rfl hreader rfl ?_
    rw [hplace]
    simp [ReaderPlace.rank]
  | readerReturns r result client queue hreader hplace hlive =>
    refine Life.rank_lt_of_reader rfl rfl rfl hreader rfl ?_
    rw [hplace]
    simp [ReaderPlace.rank]
  | launch hcaller hth =>
    have hnew : (s.launch.reader.map fun r => r.place.rank).getD 0 = 2 := rfl
    have hrank : s.caller.rank = 13 := by rw [hcaller]; rfl
    have hrank' : s.launch.caller.rank = 10 := rfl
    unfold Life.rank
    rw [hnew, hrank, hrank', show s.launch.todo = s.todo from rfl,
      show s.launch.fault = s.fault from rfl]
    omega
  | stopReturns dtor hcaller _ =>
    refine Life.rank_lt_of_caller rfl rfl ?_
    simp only [Life.goto, hcaller]
    have hlast := CallerPc.rank_afterStop dtor
    cases dtor <;> simp only [CallerPc.rank, StopPc.rank] at hlast ⊢ <;> omega
  | dropConsumer dtor hcaller =>
    refine Life.rank_lt_of_caller rfl rfl ?_
    simp only [Life.resetConsumer, hcaller]
    have hlast := CallerPc.rank_afterStop dtor
    omega
  | stopProceeds dtor hcaller hrunning =>
    rw [hstop] at hrunning
    cases hrunning
  | store dtor hcaller | notify dtor hcaller | halt dtor hcaller _ | join dtor reader hcaller _ _
  | dropQueue dtor hcaller | dropTopic dtor hcaller =>
    refine Life.rank_lt_of_caller rfl rfl ?_
    cases dtor <;> simp [Life.raiseStop, Life.calls, Life.joined, Life.resetQueue, Life.resetTopic,
      hcaller, CallerPc.rank, StopPc.rank]
  | beginStop rest hcaller htodo | startFails env sa errstr rest hcaller htodo _
  | startCreates env sa errstr rest p hcaller htodo _ _ =>
    refine Life.rank_lt_of_caller rfl rfl ?_
    simp only [Life.begins, Life.created, hcaller, htodo, CallerPc.rank, StopPc.rank,
      List.length_cons]
    omega
  | beginDestructor hcaller _ | resetConsumer env sa p hcaller | topicFails env sa p hcaller _
  | resetTopic env sa p hcaller _ | resetQueue p hcaller | joinThrows hcaller _
  | destroy hcaller _ =>
    refine Life.rank_lt_of_caller rfl rfl ?_
    simp [Life.goto, Life.resetConsumer, Life.resetTopic, Life.resetQueue, Life.threw, Life.destroy,
      hcaller, CallerPc.rank, StopPc.rank]

/-- A joinable `_th` is a reader. -/
def Life.Tracked (s : Life) : Prop := s.world.bc.th ≠ none → s.reader ≠ none

theorem Life.Tracked.of_step (h : s.Tracked) (hstep : s.Step t) : t.Tracked := by
  cases hstep with
  | launch hcaller hth =>
    intro _ hnone
    cases hnone
  | join dtor reader hcaller hth hdone =>
    intro hjoinable
    exact absurd rfl hjoinable
  | readerNext | readerCalls | readerReturns =>
    intro _ hnone
    cases hnone
  | _ => exact h

/-- A reader that has not ended can go on. -/
theorem Life.readerStep_isSome {r : Reader} (hr : s.reader = some r)
    (hplace : r.place ≠ .outside .done) (result : Option Message) :
    (s.readerStep result).isSome := by
  unfold Life.readerStep
  rw [hr]
  dsimp only
  split
  · rfl
  · rename_i pc hpc
    split
    · rfl
    · rw [Option.isSome_map]
      cases pc with
      | got result' => rw [ReaderPc.next_got]; rfl
      | done => exact absurd hpc hplace
      | _ => rfl

/-- Until it is destroyed or has come to a fault, a life goes on: at the join the reader does. -/
theorem Life.Tracked.goes_on (h : s.Tracked) (hfault : s.fault = none)
    (hcaller : s.caller ≠ .destroyed) : ∃ a, (lifeStep s a).isSome := by
  have hcalls : s.callerStep.isSome → ∃ a, (lifeStep s a).isSome := by
    intro hsome
    refine ⟨.caller, ?_⟩
    rw [lifeStep, if_pos hfault]
    exact hsome
  cases hpc : s.caller with
  | destroyed => exact absurd hpc hcaller
  | resetTopic env sa p =>
    apply hcalls
    cases htopic : env.topicCreateFails <;> simp [Life.callerStep, hpc, htopic]
  | stop dtor pc =>
    cases pc with
    | join =>
      cases hth : s.world.bc.th with
      | none =>
        apply hcalls
        simp [Life.callerStep, hpc, Life.stopStep, hth]
      | some reader =>
        obtain ⟨r, hr⟩ := Option.ne_none_iff_exists'.mp (h (by simp [hth]))
        by_cases hplace : r.place = .outside .done
        · apply hcalls
          simp [Life.callerStep, hpc, Life.stopStep, hth, Life.readerDone, hr, hplace]
        · refine ⟨.reader none, ?_⟩
          rw [lifeStep, if_pos hfault]
          exact Life.readerStep_isSome hr hplace none
    | halt =>
      apply hcalls
      cases hconsumer : s.world.bc.consumer <;>
        simp [Life.callerStep, hpc, Life.stopStep, hconsumer]
    | _ =>
      apply hcalls
      simp [Life.callerStep, hpc, Life.stopStep]
  | _ =>
    apply hcalls
    simp [Life.callerStep, hpc]

/-- The program has ended, by a fault or with the destruction of the consumer. -/
def Life.Ended (s : Life) : Prop := s.fault ≠ none ∨ s.caller = .destroyed

/-- Once `_stop` is raised, every schedule of the caller and the reader comes to the end of the
life, with a bounded number of steps and without getting stuck, whatever calls are still to be
made. -/
theorem ends_after_stop (rb : RbCb) (script : List Op) (as : List LifeAction) (s : Life)
    (hrun : run lifeStep (Life.begin rb script) as = some s) (hstop : s.world.bc.stop = true) :
    EndsWithin lifeStep (9 * s.todo.length + 26) Life.Ended s := by
  have htracked : s.Tracked := by
    apply run_invariant (fun _ _ _ h hstep => h.of_step (Life.Step.of_lifeStep hstep).2) hrun
    intro hjoinable
    exact absurd rfl hjoinable
  apply EndsWithin.of_rank (I := fun s : Life => s.world.bc.stop = true ∧ s.Tracked) Life.rank ?_ ?_
    ?_ ⟨hstop, htracked⟩ s.rank_le
  · rintro s a t ⟨hs, htracked⟩ h
    have hstep := (Life.Step.of_lifeStep h).2
    exact ⟨hstep.stop_mono hs, htracked.of_step hstep⟩
  · rintro s a t ⟨hs, -⟩ h
    obtain ⟨hfault, hstep⟩ := Life.Step.of_lifeStep h
    exact hstep.rank_lt hfault hs
  · rintro s ⟨-, htracked⟩
    by_cases hfault : s.fault = none
    · by_cases hcaller : s.caller = .destroyed
      · exact .inl (.inr hcaller)
      · exact .inr (htracked.goes_on hfault hcaller)
    · exact .inl (.inl hfault)

theorem ends_after_stop_restart :
    ∃ s, run lifeStep (Life.begin ⟨0, 0⟩ restart) stopInCallback = some s ∧
      EndsWithin lifeStep (9 * s.todo.length + 26) Life.Ended s :=
  ⟨_, rfl, ends_after_stop ⟨0, 0⟩ restart stopInCallback _ rfl rfl⟩

end TsKafka.BasicConsumer
