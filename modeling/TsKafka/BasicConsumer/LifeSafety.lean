import TsKafka.BasicConsumer.LifeHistory

/-!
# Which lives of a `basic_consumer` are safe

Neither `start` nor `stop` nor the destructor checks anything but `_stop`. The question is which
sequences of calls can lead to a fault, or to an exception that leaves `stop`, in some interleaving
with the reader.
-/

namespace TsKafka.BasicConsumer
open RdKafka PartialRun

variable {s t u : Life}

/-! ## Sequences of calls that are safe -/

/-- No `start` succeeds. -/
def NoneSucceeds (ops : List Op) : Prop := ∀ op ∈ ops, ¬ op.Succeeds

/-- What may follow a `start` that succeeded: starts that do not come to a new client, and then
nothing or a `stop`, after which no `start` succeeds. -/
def RunsOn : List Op → Prop
  | [] => True
  | .stop :: rest => NoneSucceeds rest
  | .start env sa _ :: rest => ¬ env.Creates sa ∧ RunsOn rest

/-- Starts that fail, one that succeeds, and what may follow it. -/
def StartsOnce : List Op → Prop
  | [] => False
  | op :: rest => op.Succeeds ∧ RunsOn rest ∨ op.Fails ∧ StartsOnce rest

/-- The calls that may follow when a client has been created for a `start`. -/
def AfterCreate (env : StartEnv) (rest : List Op) : Prop :=
  if env.topicCreateFails = none then RunsOn rest else StartsOnce rest

theorem NoneSucceeds.tail {op : Op} {rest : List Op} (h : NoneSucceeds (op :: rest)) :
    NoneSucceeds rest := fun later hlater => h later (List.mem_cons_of_mem _ hlater)

theorem StartsOnce.afterCreate {env : StartEnv} {sa : ConsumerStartArgs} {errstr : String}
    {rest : List Op} (h : StartsOnce (.start env sa errstr :: rest)) (hcreates : env.Creates sa) :
    AfterCreate env rest := by
  unfold AfterCreate
  rcases h with ⟨hsucceeds, hrest⟩ | ⟨hfails, hrest⟩
  · rw [if_pos (StartEnv.accepts_iff_creates.mp hsucceeds).2]
    exact hrest
  · rw [if_neg fun htopic => hfails (StartEnv.accepts_iff_creates.mpr ⟨hcreates, htopic⟩)]
    exact hrest

/-! ## Where a safe consumer is -/

/-- The handles belong to the client `c`. -/
structure Members.Own (bc : Members) (c : Client) : Prop where
  consumer : bc.consumer = some c
  topic : ∃ name, bc.topic = some ⟨c.id, name⟩
  queue : bc.queue = some ⟨c.id⟩

/-- Neither a reader nor a `stop` so far. -/
structure Life.Unstarted (s : Life) : Prop where
  stop : s.world.bc.stop = false
  th : s.world.bc.th = none
  topic : s.world.bc.topic = none
  queue : s.world.bc.queue = none
  reader : s.reader = none

/-- A reader on the handles of one client. -/
structure Life.Reading (s : Life) (c : Client) : Prop where
  th : s.world.bc.th ≠ none
  own : s.world.bc.Own c
  inside : ∀ r client queue, s.reader = some r → r.place = .inside client queue →
    client = c.id ∧ queue = c.id

/-- No reader any more, and no handle but `_consumer`. -/
structure Life.Over (s : Life) : Prop where
  stop : s.world.bc.stop = true
  th : s.world.bc.th = none
  topic : s.world.bc.topic = none
  queue : s.world.bc.queue = none
  reader : ∀ r, s.reader = some r → r.place = .outside .done

/-- A client has been created for a `start`. -/
def Life.HasCreated (s : Life) (env : StartEnv) : Prop :=
  s.Unstarted ∧ AfterCreate env s.todo ∨
    s.Over ∧ env.topicCreateFails ≠ none ∧ NoneSucceeds s.todo

/-- What holds of a safe consumer whose caller is at a place. -/
def Life.SafeAt (s : Life) : CallerPc → Prop
  | .idle =>
    s.Unstarted ∧ StartsOnce s.todo ∨
      ((∃ c, s.Reading c) ∧ s.world.bc.stop = false ∧ RunsOn s.todo) ∨
        s.Over ∧ NoneSucceeds s.todo
  | .resetConsumer env _ _ => s.HasCreated env
  | .resetTopic env _ p => s.world.bc.consumer = some p ∧ s.HasCreated env
  | .resetQueue p =>
    s.world.bc.stop = false ∧ s.world.bc.th = none ∧ s.reader = none ∧
      s.world.bc.consumer = some p ∧ (∃ name, s.world.bc.topic = some ⟨p.id, name⟩) ∧
        s.world.bc.queue = none ∧ RunsOn s.todo
  | .assign =>
    s.world.bc.stop = false ∧ s.world.bc.th = none ∧ s.reader = none ∧
      (∃ c, s.world.bc.Own c) ∧ RunsOn s.todo
  | .stop _ .test =>
    ((∃ c, s.Reading c) ∧ s.world.bc.stop = false ∨ s.Over) ∧ NoneSucceeds s.todo
  | .stop _ .store => (∃ c, s.Reading c) ∧ s.world.bc.stop = false ∧ NoneSucceeds s.todo
  | .stop _ .notify | .stop _ .halt | .stop _ .join =>
    (∃ c, s.Reading c) ∧ s.world.bc.stop = true ∧ NoneSucceeds s.todo
  | .stop _ .resetQueue =>
    s.world.bc.stop = true ∧ s.world.bc.th = none ∧ (∃ c, s.world.bc.Own c) ∧
      (∀ r, s.reader = some r → r.place = .outside .done) ∧ NoneSucceeds s.todo
  | .stop _ .resetTopic =>
    s.world.bc.stop = true ∧ s.world.bc.th = none ∧ s.world.bc.queue = none ∧
      (∃ c name, s.world.bc.consumer = some c ∧ s.world.bc.topic = some ⟨c.id, name⟩) ∧
        (∀ r, s.reader = some r → r.place = .outside .done) ∧ NoneSucceeds s.todo
  | .stop _ .resetConsumer => s.Over ∧ NoneSucceeds s.todo
  | .members | .destroyed => s.Over

def Life.Safe (s : Life) : Prop := s.SafeAt s.caller

theorem Life.Safe.at (hs : s.Safe) {pc : CallerPc} (h : s.caller = pc) : s.SafeAt pc := h ▸ hs

/-- A reader that has not ended is on the handles of one client. -/
theorem Life.SafeAt.reading {pc : CallerPc} (hs : s.SafeAt pc) {r : Reader}
    (hr : s.reader = some r) (hplace : r.place ≠ .outside .done) : ∃ c, s.Reading c := by
  have hunstarted : ¬ s.Unstarted := fun h => by cases h.reader.symm.trans hr
  have hover : ¬ s.Over := fun h => hplace (h.reader r hr)
  have hcreated : ∀ env, ¬ s.HasCreated env := by
    rintro env (⟨h, -⟩ | ⟨h, -⟩)
    · exact hunstarted h
    · exact hover h
  cases pc with
  | idle =>
    rcases hs with ⟨h, -⟩ | ⟨h, -⟩ | ⟨h, -⟩
    · exact absurd h hunstarted
    · exact h
    · exact absurd h hover
  | resetConsumer env sa p => exact absurd hs (hcreated env)
  | resetTopic env sa p => exact absurd hs.2 (hcreated env)
  | resetQueue p => cases hs.2.2.1.symm.trans hr
  | assign => cases hs.2.2.1.symm.trans hr
  | stop dtor pc =>
    cases pc with
    | test => exact hs.1.elim And.left fun h => absurd h hover
    | store | notify | halt | join => exact hs.1
    | resetQueue => exact absurd (hs.2.2.2.1 r hr) hplace
    | resetTopic => exact absurd (hs.2.2.2.2.1 r hr) hplace
    | resetConsumer => exact absurd hs.1 hover
  | members => exact absurd hs hover
  | destroyed => exact absurd hs hover

/-- Such a reader goes on. -/
theorem Life.SafeAt.reader_moves {pc : CallerPc} (hs : s.SafeAt pc) {r : Reader}
    (hr : s.reader = some r) (hplace : r.place ≠ .outside .done) (hworld : t.world = s.world)
    (htodo : t.todo = s.todo) (hreading : ∀ c, s.Reading c → t.Reading c) : t.SafeAt pc := by
  have hunstarted : ¬ s.Unstarted := fun h => by cases h.reader.symm.trans hr
  have hover : ¬ s.Over := fun h => hplace (h.reader r hr)
  have hcreated : ∀ env, ¬ s.HasCreated env := by
    rintro env (⟨h, -⟩ | ⟨h, -⟩)
    · exact hunstarted h
    · exact hover h
  have hexists : (∃ c, s.Reading c) → ∃ c, t.Reading c := fun ⟨c, h⟩ => ⟨c, hreading c h⟩
  cases pc with
  | idle =>
    rcases hs with ⟨h, -⟩ | ⟨h, hstop, hscript⟩ | ⟨h, -⟩
    · exact absurd h hunstarted
    · exact .inr (.inl ⟨hexists h, hworld ▸ hstop, htodo ▸ hscript⟩)
    · exact absurd h hover
  | resetConsumer env sa p => exact absurd hs (hcreated env)
  | resetTopic env sa p => exact absurd hs.2 (hcreated env)
  | resetQueue p => cases hs.2.2.1.symm.trans hr
  | assign => cases hs.2.2.1.symm.trans hr
  | stop dtor pc =>
    cases pc with
    | test =>
      obtain ⟨h | h, hscript⟩ := hs
      · exact ⟨.inl ⟨hexists h.1, hworld ▸ h.2⟩, htodo ▸ hscript⟩
      · exact absurd h hover
    | store | notify | halt | join =>
      obtain ⟨h, hstop, hscript⟩ := hs
      exact ⟨hexists h, hworld ▸ hstop, htodo ▸ hscript⟩
    | resetQueue => exact absurd (hs.2.2.2.1 r hr) hplace
    | resetTopic => exact absurd (hs.2.2.2.2.1 r hr) hplace
    | resetConsumer => exact absurd hs.1 hover
  | members => exact absurd hs hover
  | destroyed => exact absurd hs hover

/-! ## Every step keeps it safe -/

theorem Life.Safe.startCreates (hs : s.Safe) {env : StartEnv} {sa : ConsumerStartArgs}
    {errstr : String} {rest : List Op} (hcaller : s.caller = .idle)
    (htodo : s.todo = .start env sa errstr :: rest) (hcreates : env.Creates sa) (p : Client) :
    (s.created rest env sa p).Safe := by
  have hidle := hs.at hcaller
  simp only [Life.SafeAt, htodo] at hidle
  rcases hidle with ⟨h, hscript⟩ | ⟨-, -, hscript, -⟩ | ⟨h, hscript⟩
  · exact .inl ⟨⟨h.stop, h.th, h.topic, h.queue, h.reader⟩, hscript.afterCreate hcreates⟩
  · exact absurd hcreates hscript
  · refine .inr ⟨⟨h.stop, h.th, h.topic, h.queue, h.reader⟩, ?_, hscript.tail⟩
    intro htopic
    exact hscript _ List.mem_cons_self (StartEnv.accepts_iff_creates.mpr ⟨hcreates, htopic⟩)

theorem Life.Safe.startFails (hs : s.Safe) {env : StartEnv} {sa : ConsumerStartArgs}
    {errstr : String} {rest : List Op} (hcaller : s.caller = .idle)
    (htodo : s.todo = .start env sa errstr :: rest) (hfails : ¬ env.Creates sa) :
    (s.begins rest .idle).Safe := by
  have hidle := hs.at hcaller
  simp only [Life.SafeAt, htodo] at hidle
  rcases hidle with ⟨h, ⟨haccepts, -⟩ | ⟨-, hscript⟩⟩ | ⟨⟨c, h⟩, hstop, -, hscript⟩ | ⟨h, hscript⟩
  · exact absurd (StartEnv.accepts_iff_creates.mp haccepts).1 hfails
  · exact .inl ⟨⟨h.stop, h.th, h.topic, h.queue, h.reader⟩, hscript⟩
  · exact .inr (.inl ⟨⟨c, h.th, h.own, h.inside⟩, hstop, hscript⟩)
  · exact .inr (.inr ⟨⟨h.stop, h.th, h.topic, h.queue, h.reader⟩, hscript.tail⟩)

theorem Life.Safe.beginStop (hs : s.Safe) {rest : List Op} (hcaller : s.caller = .idle)
    (htodo : s.todo = .stop :: rest) : (s.begins rest (.stop false .test)).Safe := by
  have hidle := hs.at hcaller
  simp only [Life.SafeAt, htodo] at hidle
  rcases hidle with ⟨-, ⟨hop, -⟩ | ⟨hop, -⟩⟩ | ⟨⟨c, h⟩, hstop, hscript⟩ | ⟨h, hscript⟩
  · exact hop.elim
  · exact hop.elim
  · exact ⟨.inl ⟨⟨c, h.th, h.own, h.inside⟩, hstop⟩, hscript⟩
  · exact ⟨.inr ⟨h.stop, h.th, h.topic, h.queue, h.reader⟩, hscript.tail⟩

theorem Life.Safe.beginDestructor (hs : s.Safe) (hcaller : s.caller = .idle)
    (htodo : s.todo = []) : (s.goto (.stop true .test)).Safe := by
  have hnone : NoneSucceeds (s.goto (.stop true .test)).todo := by
    intro op hop
    rw [show (s.goto (.stop true .test)).todo = [] from htodo] at hop
    cases hop
  have hidle := hs.at hcaller
  simp only [Life.SafeAt, htodo] at hidle
  rcases hidle with ⟨-, hscript⟩ | ⟨⟨c, h⟩, hstop, -⟩ | ⟨h, -⟩
  · exact hscript.elim
  · exact ⟨.inl ⟨⟨c, h.th, h.own, h.inside⟩, hstop⟩, hnone⟩
  · exact ⟨.inr ⟨h.stop, h.th, h.topic, h.queue, h.reader⟩, hnone⟩

/-- Back at the caller, or on to the members, when `stop` has left no reader. -/
theorem Life.Over.safe_afterStop (h : s.Over) (hscript : NoneSucceeds s.todo) {dtor : Bool}
    (hcaller : s.caller = Life.afterStop dtor) : s.Safe := by
  unfold Life.Safe
  rw [hcaller]
  cases dtor with
  | false => exact .inr (.inr ⟨h, hscript⟩)
  | true => exact h

theorem Life.Safe.of_callerStart (hs : s.Safe) {env : StartEnv} {sa : ConsumerStartArgs}
    {p : Client} (hcaller : s.caller = .resetTopic env sa p) :
    (env.topicCreateFails ≠ none → (s.goto .idle).Safe) ∧
      (env.topicCreateFails = none →
        (s.resetTopic (some ⟨p.id, sa.topic⟩) (.resetQueue p)).Safe) := by
  obtain ⟨hconsumer, h⟩ := hs.at hcaller
  constructor
  · intro htopic
    rcases h with ⟨h, hscript⟩ | ⟨h, -, hscript⟩
    · rw [AfterCreate, if_neg htopic] at hscript
      exact .inl ⟨⟨h.stop, h.th, h.topic, h.queue, h.reader⟩, hscript⟩
    · exact .inr (.inr ⟨⟨h.stop, h.th, h.topic, h.queue, h.reader⟩, hscript⟩)
  · intro htopic
    rcases h with ⟨h, hscript⟩ | ⟨-, hnot, -⟩
    · rw [AfterCreate, if_pos htopic] at hscript
      exact ⟨h.stop, h.th, h.reader, hconsumer, ⟨sa.topic, rfl⟩, h.queue, hscript⟩
    · exact absurd htopic hnot

theorem Life.Safe.launch (hs : s.Safe) (hcaller : s.caller = .assign) : s.launch.Safe := by
  obtain ⟨hstop, -, -, ⟨c, hown⟩, hscript⟩ := hs.at hcaller
  refine .inr (.inl ⟨⟨c, Option.some_ne_none _, ⟨hown.consumer, hown.topic, hown.queue⟩, ?_⟩, hstop,
    hscript⟩)
  intro r client queue hr hplace
  cases hr
  cases hplace

/-- A step of the reader of a safe consumer. -/
theorem Life.Safe.of_reader (hs : s.Safe) {r : Reader} (hr : s.reader = some r)
    (hplace : r.place ≠ .outside .done) (hcaller : t.caller = s.caller) (hworld : t.world = s.world)
    (htodo : t.todo = s.todo)
    (hinside : ∀ c, s.Reading c → ∀ r client queue, t.reader = some r →
      r.place = .inside client queue → client = c.id ∧ queue = c.id) : t.Safe := by
  unfold Life.Safe
  rw [hcaller]
  refine hs.reader_moves hr hplace hworld htodo ?_
  intro c h
  exact ⟨hworld ▸ h.th, hworld ▸ h.own, hinside c h⟩

/-- No fault and no exception. -/
structure Life.Fine (s : Life) : Prop where
  fault : s.fault = none
  thrown : s.thrown = []

theorem Life.Safe.of_step (hs : s.Safe) (howned : s.Owned) (hfine : s.Fine) (h : s.Step t) :
    t.Safe ∧ t.Fine := by
  cases h with
  | beginDestructor hcaller htodo => exact ⟨hs.beginDestructor hcaller htodo, hfine.1, hfine.2⟩
  | beginStop rest hcaller htodo => exact ⟨hs.beginStop hcaller htodo, hfine.1, hfine.2⟩
  | startFails env sa errstr rest hcaller htodo hfails =>
    exact ⟨hs.startFails hcaller htodo hfails, hfine.1, hfine.2⟩
  | startCreates env sa errstr rest p hcaller htodo hcreates hid =>
    exact ⟨hs.startCreates hcaller htodo hcreates p, hfine.1, hfine.2⟩
  | resetConsumer env sa p hcaller =>
    refine ⟨⟨rfl, ?_⟩, hfine.1, hfine.2⟩
    rcases hs.at hcaller with ⟨h, hscript⟩ | ⟨h, htopic, hscript⟩
    · exact .inl ⟨⟨h.stop, h.th, h.topic, h.queue, h.reader⟩, hscript⟩
    · exact .inr ⟨⟨h.stop, h.th, h.topic, h.queue, h.reader⟩, htopic, hscript⟩
  | topicFails env sa p hcaller htopic =>
    exact ⟨(hs.of_callerStart hcaller).1 htopic, hfine.1, hfine.2⟩
  | resetTopic env sa p hcaller htopic =>
    exact ⟨(hs.of_callerStart hcaller).2 htopic, hfine.1, hfine.2⟩
  | resetQueue p hcaller =>
    obtain ⟨hstop, hth, hreader, hconsumer, htopic, -, hscript⟩ := hs.at hcaller
    exact ⟨⟨hstop, hth, hreader, ⟨p, hconsumer, htopic, rfl⟩, hscript⟩, hfine.1, hfine.2⟩
  | assignJoinable hcaller hth => exact absurd (hs.at hcaller).2.1 hth
  | launch hcaller hth => exact ⟨hs.launch hcaller, hfine.1, hfine.2⟩
  | stopReturns dtor hcaller hstop =>
    obtain ⟨⟨-, hrunning⟩ | h, hscript⟩ := hs.at hcaller
    · cases hrunning.symm.trans hstop
    · have hover : (s.goto (Life.afterStop dtor)).Over :=
        ⟨h.stop, h.th, h.topic, h.queue, h.reader⟩
      exact ⟨hover.safe_afterStop hscript rfl, hfine.1, hfine.2⟩
  | stopProceeds dtor hcaller hstop =>
    obtain ⟨⟨⟨c, h⟩, -⟩ | h, hscript⟩ := hs.at hcaller
    · exact ⟨⟨⟨c, h.th, h.own, h.inside⟩, hstop, hscript⟩, hfine.1, hfine.2⟩
    · cases hstop.symm.trans h.stop
  | store dtor hcaller =>
    obtain ⟨⟨c, h⟩, -, hscript⟩ := hs.at hcaller
    exact ⟨⟨⟨c, h.th, ⟨h.own.consumer, h.own.topic, h.own.queue⟩, h.inside⟩, rfl, hscript⟩, hfine.1,
      hfine.2⟩
  | notify dtor hcaller =>
    obtain ⟨⟨c, h⟩, hstop, hscript⟩ := hs.at hcaller
    exact ⟨⟨⟨c, h.th, h.own, h.inside⟩, hstop, hscript⟩, hfine.1, hfine.2⟩
  | halt dtor hcaller hconsumer =>
    obtain ⟨⟨c, h⟩, hstop, hscript⟩ := hs.at hcaller
    exact ⟨⟨⟨c, h.th, h.own, h.inside⟩, hstop, hscript⟩, hfine.1, hfine.2⟩
  | haltNull dtor hcaller hconsumer =>
    obtain ⟨⟨c, h⟩, -⟩ := hs.at hcaller
    cases hconsumer.symm.trans h.own.consumer
  | joinThrows hcaller hth =>
    obtain ⟨⟨c, h⟩, -⟩ := hs.at hcaller
    exact absurd hth h.th
  | joinTerminates hcaller hth =>
    obtain ⟨⟨c, h⟩, -⟩ := hs.at hcaller
    exact absurd hth h.th
  | join dtor reader hcaller hth hdone =>
    obtain ⟨⟨c, h⟩, hstop, hscript⟩ := hs.at hcaller
    refine ⟨⟨hstop, rfl, ⟨c, h.own.consumer, h.own.topic, h.own.queue⟩, ?_, hscript⟩, hfine.1,
      hfine.2⟩
    intro r hr
    have hr' : s.reader = some r := hr
    simpa [Life.readerDone, hr'] using hdone
  | dropQueue dtor hcaller =>
    obtain ⟨hstop, hth, ⟨c, hown⟩, hreader, hscript⟩ := hs.at hcaller
    obtain ⟨name, htopic⟩ := hown.topic
    exact ⟨⟨hstop, hth, rfl, ⟨c, name, hown.consumer, htopic⟩, hreader, hscript⟩, hfine.1, hfine.2⟩
  | dropTopic dtor hcaller =>
    obtain ⟨hstop, hth, hqueue, -, hreader, hscript⟩ := hs.at hcaller
    exact ⟨⟨⟨hstop, hth, rfl, hqueue, hreader⟩, hscript⟩, hfine.1, hfine.2⟩
  | dropConsumer dtor hcaller =>
    obtain ⟨h, hscript⟩ := hs.at hcaller
    have hover : (s.resetConsumer none (Life.afterStop dtor)).Over :=
      ⟨h.stop, h.th, h.topic, h.queue, h.reader⟩
    exact ⟨hover.safe_afterStop hscript rfl, hfine.1, hfine.2⟩
  | destroyJoinable hcaller hth => exact absurd (hs.at hcaller).th hth
  | destroy hcaller hth =>
    have h : s.Over := hs.at hcaller
    exact ⟨⟨h.stop, h.th, rfl, rfl, h.reader⟩, hfine.1, hfine.2⟩
  | readerNext r result pc pc' hreader hplace hconsume hpc =>
    have hgoes : r.place ≠ .outside .done := by
      intro hdone
      cases hplace.symm.trans hdone
      cases hpc
    refine ⟨hs.of_reader hreader hgoes rfl rfl rfl ?_, hfine.1, hfine.2⟩
    intro c h r' client queue hr' hin
    cases hr'
    cases hin
  | readerCalls r c q hreader hplace hconsumer hqueue =>
    refine ⟨hs.of_reader hreader (by simp [hplace]) rfl rfl rfl ?_, hfine.1, hfine.2⟩
    intro c' h r' client queue hr' hin
    cases hr'
    cases hin
    cases hconsumer.symm.trans h.own.consumer
    cases hqueue.symm.trans h.own.queue
    exact ⟨rfl, rfl⟩
  | readerNull r fault hreader hplace hhandle =>
    obtain ⟨c, h⟩ := Life.SafeAt.reading hs hreader (by simp [hplace])
    rcases hhandle with hnone | hnone
    · cases hnone.symm.trans h.own.consumer
    · cases hnone.symm.trans h.own.queue
  | readerReturns r result client queue hreader hplace hlive =>
    refine ⟨hs.of_reader hreader (by simp [hplace]) rfl rfl rfl ?_, hfine.1, hfine.2⟩
    intro c h r' client queue hr' hin
    cases hr'
    cases hin
  | readerDestroyed r client queue hreader hplace hdestroyed =>
    -- the client that the reader is in is the one that `_consumer` holds
    obtain ⟨c, h⟩ := Life.SafeAt.reading hs hreader (by simp [hplace])
    obtain ⟨rfl, -⟩ := h.inside r client queue hreader hplace
    exact absurd hdestroyed (howned.live h.own.consumer)

/-! ## Sequences of calls that are not -/

/-- Some interleaving leads to a fault or to an exception. -/
def Life.CanGoWrong (s : Life) : Prop := PartialRun.Reaches lifeStep (fun t => ¬ t.Fine) s

theorem Life.CanGoWrong.of_fault (h : s.fault ≠ none) : s.CanGoWrong :=
  PartialRun.Reaches.here fun hfine => h hfine.fault

theorem Life.CanGoWrong.of_run {as : List LifeAction} (hrun : run lifeStep s as = some t)
    (h : t.CanGoWrong) : s.CanGoWrong :=
  PartialRun.Reaches.of_run hrun h

theorem Life.CanGoWrong.of_caller (hfault : s.fault = none) (hstep : s.callerStep = some t)
    (h : t.CanGoWrong) : s.CanGoWrong := by
  have hlife : lifeStep s .caller = some t := (if_pos hfault).trans hstep
  exact PartialRun.Reaches.of_step hlife h

theorem Life.Between.stop {rest : List Op} (h : s.Between (.stop :: rest))
    (hnext : (s.begins rest (.stop false .test)).CanGoWrong) : s.CanGoWrong := by
  refine .of_caller h.fault (h.callerStep.trans ?_) hnext
  simp only [Life.nextCall, h.todo]

theorem Life.Between.destructor (h : s.Between [])
    (hnext : (s.goto (.stop true .test)).CanGoWrong) : s.CanGoWrong := by
  refine .of_caller h.fault (h.callerStep.trans ?_) hnext
  simp only [Life.nextCall, h.todo]

theorem Life.Between.start_fails {env : StartEnv} {sa : ConsumerStartArgs} {errstr : String}
    {rest : List Op} (h : s.Between (.start env sa errstr :: rest)) (hfails : ¬ env.Creates sa)
    (hnext : (s.begins rest .idle).CanGoWrong) : s.CanGoWrong := by
  obtain ⟨text, hcreate⟩ := createConsumer_of_not_creates hfails s.world.clients errstr
  refine .of_caller h.fault (h.callerStep.trans ?_) hnext
  simp only [Life.nextCall, h.todo, hcreate]

theorem Life.Between.start_creates {env : StartEnv} {sa : ConsumerStartArgs} {errstr : String}
    {rest : List Op} (h : s.Between (.start env sa errstr :: rest)) (hcreates : env.Creates sa)
    (hnext : ∀ p, (s.created rest env sa p).CanGoWrong) : s.CanGoWrong := by
  obtain ⟨p, text, hcreate⟩ := createConsumer_of_creates hcreates s.world.clients errstr
  refine .of_caller h.fault (h.callerStep.trans ?_) (hnext p)
  simp only [Life.nextCall, h.todo, hcreate]

/-- After a `start` that the reader does not interrupt: when it has failed, `_stop` and `_th` are
as they were; when it has succeeded, there is a new reader at its loop head. -/
theorem Life.Between.start {env : StartEnv} {sa : ConsumerStartArgs} {errstr : String}
    {rest : List Op} (h : s.Between (.start env sa errstr :: rest))
    (hfails : ¬ env.Accepts sa → ∀ t : Life, t.Between rest →
      t.world.bc.stop = s.world.bc.stop → t.world.bc.th = s.world.bc.th → t.CanGoWrong)
    (hsucceeds : env.Accepts sa → ∀ (t : Life) (c : Client) (q : Queue) (reader : Nat),
      t.Between rest → t.world.bc.stop = s.world.bc.stop → t.world.bc.th ≠ none →
        t.world.bc.consumer = some c → t.world.bc.queue = some q →
          t.reader = some ⟨reader, .outside .head⟩ → t.CanGoWrong) : s.CanGoWrong := by
  obtain ⟨as, t, hrun, ht⟩ := h.run_start
  refine .of_run hrun ?_
  by_cases haccepts : env.Accepts sa
  · obtain ⟨gconf, text, hstart⟩ := start_of_accepts haccepts s.world errstr
    rw [hstart] at ht
    by_cases hth : s.world.bc.th.isSome
    · rw [if_pos hth] at ht
      exact .of_fault (by simp [ht])
    · rw [if_neg hth] at ht
      obtain ⟨hbetween, hworld, hreader⟩ := ht
      refine hsucceeds haccepts t ⟨s.world.clients, .consumer, gconf⟩ ⟨s.world.clients⟩
        s.world.readers hbetween ?_ ?_ ?_ ?_ hreader <;> rw [hworld]
      · rfl
      · exact Option.some_ne_none _
      · rfl
      · rfl
  · obtain ⟨w, text, hstart, hw⟩ := start_of_not_accepts haccepts s.world errstr
    rw [hstart] at ht
    obtain ⟨hbetween, hworld, -⟩ := ht
    refine hfails haccepts t hbetween ?_ ?_ <;> rw [hworld] <;>
      rcases hw with rfl | ⟨gconf, rfl⟩ <;> rfl

/-- A stopped consumer with a thread that nobody joins. -/
theorem canGoWrong_of_unjoined {ops : List Op} (h : s.Between ops)
    (hstop : s.world.bc.stop = true) (hth : s.world.bc.th ≠ none) : s.CanGoWrong := by
  induction ops generalizing s with
  | nil =>
    refine h.destructor (.of_caller (t := s.goto .members) h.fault ?_
      (.of_caller (t := (s.goto .members).fail (.call .destroyJoinable)) h.fault ?_
        (.of_fault (Option.some_ne_none _))))
    · simp [Life.callerStep, Life.goto, Life.stopStep, Life.afterStop, hstop]
    · have hsome : s.world.bc.th.isSome = true := Option.isSome_iff_ne_none.mpr hth
      simp [Life.callerStep, Life.goto, hsome]
  | cons op rest ih =>
    cases op with
    | stop =>
      refine h.stop (.of_caller (t := s.begins rest .idle) h.fault ?_ ?_)
      · simp [Life.callerStep, Life.begins, Life.goto, Life.stopStep, Life.afterStop, hstop]
      · exact ih ⟨rfl, h.fault, rfl⟩ hstop hth
    | start env sa errstr =>
      refine h.start ?_ ?_
      · intro _ t ht hstop' hth'
        exact ih ht (hstop'.trans hstop) (hth' ▸ hth)
      · intro _ t c q reader ht hstop' hth' _ _ _
        exact ih ht (hstop'.trans hstop) hth'

/-- A `start` that succeeds after a `stop` leaves such a thread. -/
theorem canGoWrong_of_restart {ops : List Op} (h : s.Between ops)
    (hstop : s.world.bc.stop = true) (hagain : ¬ NoneSucceeds ops) : s.CanGoWrong := by
  induction ops generalizing s with
  | nil => exact absurd (fun op hop => by cases hop) hagain
  | cons op rest ih =>
    have hrest : ¬ op.Succeeds → ¬ NoneSucceeds rest := by
      intro hop hnone
      exact hagain (List.forall_mem_cons.mpr ⟨hop, hnone⟩)
    cases op with
    | stop =>
      refine h.stop (.of_caller (t := s.begins rest .idle) h.fault ?_ ?_)
      · simp [Life.callerStep, Life.begins, Life.goto, Life.stopStep, Life.afterStop, hstop]
      · exact ih ⟨rfl, h.fault, rfl⟩ hstop (hrest id)
    | start env sa errstr =>
      refine h.start ?_ ?_
      · intro hfails t ht hstop' _
        exact ih ht (hstop'.trans hstop) (hrest hfails)
      · intro _ t c q reader ht hstop' hth _ _ _
        exact canGoWrong_of_unjoined ht (hstop'.trans hstop) hth

/-- A `stop` without a reader goes through a null `_consumer`, or throws. -/
theorem canGoWrong_of_stop_unstarted (dtor : Bool) (hcaller : s.caller = .stop dtor .test)
    (hfault : s.fault = none) (hstop : s.world.bc.stop = false) (hth : s.world.bc.th = none) :
    s.CanGoWrong := by
  cases hconsumer : s.world.bc.consumer with
  | none =>
    have hrun : ∃ t, run lifeStep s (List.replicate 4 .caller) = some t ∧ t.fault ≠ none := by
      simp [run, lifeStep, Life.callerStep, Life.stopStep, Life.goto, Life.raiseStop, Life.calls,
        Life.fail, hcaller, hfault, hstop, hconsumer]
    obtain ⟨t, hrun, ht⟩ := hrun
    exact .of_run hrun (.of_fault ht)
  | some c =>
    have hrun : ∃ t, run lifeStep s (List.replicate 5 .caller) = some t ∧
        (t.fault ≠ none ∨ t.thrown ≠ []) := by
      cases dtor <;>
        simp [run, lifeStep, Life.callerStep, Life.stopStep, Life.goto, Life.raiseStop, Life.calls,
          Life.fail, Life.threw, hcaller, hfault, hstop, hconsumer, hth]
    obtain ⟨t, hrun, ht⟩ := hrun
    exact ⟨_, t, hrun, fun hfine => ht.elim (· hfine.fault) (· hfine.thrown)⟩

/-- A running consumer whose reader is at its loop head. -/
structure Life.AtHead (s : Life) (c : Client) (q : Queue) (reader : Nat) : Prop where
  stop : s.world.bc.stop = false
  th : s.world.bc.th ≠ none
  consumer : s.world.bc.consumer = some c
  queue : s.world.bc.queue = some q
  reader : s.reader = some ⟨reader, .outside .head⟩

/-- A `stop` on such a consumer ends. -/
theorem Life.AtHead.run_stop {c : Client} {q : Queue} {reader : Nat} {rest : List Op}
    (h : s.AtHead c q reader) (hs : s.Between (.stop :: rest)) :
    ∃ as t, run lifeStep s as = some t ∧ t.Between rest ∧ t.world.bc.stop = true := by
  obtain ⟨th, hth⟩ := Option.ne_none_iff_exists'.mp h.th
  obtain ⟨as, t, hrun, ht⟩ := hs.run_stop_waiting fun _ => ⟨reader, h.reader⟩
  simp only [Op.exec, BasicConsumer.stop, h.stop, h.consumer, hth, Bool.false_eq_true, if_false,
    Except.map] at ht
  obtain ⟨hbetween, -, hworld⟩ := ht
  exact ⟨as, t, hrun, hbetween, by rw [hworld]; rfl⟩

/-- A `start` that comes to a new client destroys the one that the reader may be in. -/
theorem Life.AtHead.canGoWrong_of_created {c : Client} {q : Queue} {reader : Nat} {env : StartEnv}
    {sa : ConsumerStartArgs} {rest : List Op} {p : Client} (h : s.AtHead c q reader)
    (hfault : s.fault = none) : (s.created rest env sa p).CanGoWrong := by
  have hrun : ∃ t, run lifeStep (s.created rest env sa p)
      [.reader none, .reader none, .caller, .reader none] = some t ∧ t.fault ≠ none := by
    simp [run, lifeStep, Life.created, Life.callerStep, Life.readerStep, Life.readerAt,
      Life.beginConsume, Life.resetConsumer, Life.held, Life.fail, World.resetConsumer,
      ReaderPc.next, ReaderPc.inCallback, hfault, h.stop, h.consumer, h.queue, h.reader]
  obtain ⟨t, hrun, ht⟩ := hrun
  exact .of_run hrun (.of_fault ht)

theorem canGoWrong_of_not_runsOn {ops : List Op} {c : Client} {q : Queue} {reader : Nat}
    (h : s.AtHead c q reader) (hs : s.Between ops) (hnot : ¬ RunsOn ops) : s.CanGoWrong := by
  induction ops generalizing s with
  | nil => exact absurd trivial hnot
  | cons op rest ih =>
    cases op with
    | stop =>
      obtain ⟨as, t, hrun, ht, hstop⟩ := h.run_stop hs
      exact .of_run hrun (canGoWrong_of_restart ht hstop hnot)
    | start env sa errstr =>
      by_cases hcreates : env.Creates sa
      · exact hs.start_creates hcreates fun p => h.canGoWrong_of_created hs.fault
      · refine hs.start_fails hcreates (ih ?_ ⟨rfl, hs.fault, rfl⟩ ?_)
        · exact ⟨h.stop, h.th, h.consumer, h.queue, h.reader⟩
        · exact fun hrest => hnot ⟨hcreates, hrest⟩

/-- Every sequence of calls that is not safe can go wrong. -/
theorem canGoWrong_of_not_startsOnce {ops : List Op} (hs : s.Between ops)
    (hstop : s.world.bc.stop = false) (hth : s.world.bc.th = none) (hnot : ¬ StartsOnce ops) :
    s.CanGoWrong := by
  induction ops generalizing s with
  | nil =>
    exact hs.destructor (canGoWrong_of_stop_unstarted true rfl hs.fault hstop hth)
  | cons op rest ih =>
    cases op with
    | stop => exact hs.stop (canGoWrong_of_stop_unstarted false rfl hs.fault hstop hth)
    | start env sa errstr =>
      refine hs.start ?_ ?_
      · intro hfails t ht hstop' hth'
        exact ih ht (hstop'.trans hstop) (hth'.trans hth) fun hrest =>
          hnot (.inr ⟨hfails, hrest⟩)
      · intro haccepts t c q reader ht hstop' hth' hconsumer hqueue hreader
        exact canGoWrong_of_not_runsOn ⟨hstop'.trans hstop, hth', hconsumer, hqueue, hreader⟩ ht
          fun hrest => hnot (.inl ⟨haccepts, hrest⟩)

/-! ## The two directions together -/

/-- `_topic` and `_queue` belong to the client that `_consumer` holds. -/
structure Members.Belonging (bc : Members) : Prop where
  topic : ∀ topic, bc.topic = some topic → ∃ c, bc.consumer = some c ∧ topic.client = c.id
  queue : ∀ queue, bc.queue = some queue → ∃ c, bc.consumer = some c ∧ queue.client = c.id

theorem Members.Own.belonging {bc : Members} {c : Client} (h : bc.Own c) : bc.Belonging := by
  obtain ⟨name, htopic⟩ := h.topic
  constructor
  · intro topic hsome
    cases htopic.symm.trans hsome
    exact ⟨c, h.consumer, rfl⟩
  · intro queue hsome
    cases h.queue.symm.trans hsome
    exact ⟨c, h.consumer, rfl⟩

theorem Members.belonging_of_none (bc : Members) (htopic : bc.topic = none)
    (hqueue : bc.queue = none) : bc.Belonging := by
  constructor
  · intro topic hsome
    cases htopic.symm.trans hsome
  · intro queue hsome
    cases hqueue.symm.trans hsome

theorem Life.SafeAt.belonging {pc : CallerPc} (h : s.SafeAt pc) : s.world.bc.Belonging := by
  have hunstarted : s.Unstarted → s.world.bc.Belonging :=
    fun h => Members.belonging_of_none _ h.topic h.queue
  have hover : s.Over → s.world.bc.Belonging := fun h => Members.belonging_of_none _ h.topic h.queue
  have hreading : (∃ c, s.Reading c) → s.world.bc.Belonging := fun ⟨_, h⟩ => h.own.belonging
  have hcreated : ∀ env, s.HasCreated env → s.world.bc.Belonging := by
    rintro env (⟨h, -⟩ | ⟨h, -⟩)
    · exact hunstarted h
    · exact hover h
  have htopic : ∀ c : Client, s.world.bc.consumer = some c →
      (∃ name, s.world.bc.topic = some ⟨c.id, name⟩) → s.world.bc.queue = none →
        s.world.bc.Belonging := by
    rintro c hconsumer ⟨name, htopic⟩ hqueue
    refine ⟨?_, (Members.belonging_of_none { s.world.bc with topic := none } rfl hqueue).2⟩
    intro topic hsome
    cases htopic.symm.trans hsome
    exact ⟨c, hconsumer, rfl⟩
  cases pc with
  | idle =>
    rcases h with ⟨h, -⟩ | ⟨h, -⟩ | ⟨h, -⟩
    · exact hunstarted h
    · exact hreading h
    · exact hover h
  | resetConsumer env sa p => exact hcreated env h
  | resetTopic env sa p => exact hcreated env h.2
  | resetQueue p => exact htopic p h.2.2.2.1 h.2.2.2.2.1 h.2.2.2.2.2.1
  | assign =>
    obtain ⟨-, -, -, ⟨c, hown⟩, -⟩ := h
    exact hown.belonging
  | stop dtor pc =>
    cases pc with
    | test => exact h.1.elim (fun h => hreading h.1) hover
    | store | notify | halt | join => exact hreading h.1
    | resetQueue =>
      obtain ⟨-, -, ⟨c, hown⟩, -⟩ := h
      exact hown.belonging
    | resetTopic =>
      obtain ⟨-, -, hqueue, ⟨c, name, hconsumer, hname⟩, -⟩ := h
      exact htopic c hconsumer ⟨name, hname⟩ hqueue
    | resetConsumer => exact hover h.1
  | members => exact hover h
  | destroyed => exact hover h

theorem Life.safe_of_run {rb : RbCb} {script : List Op} (hscript : StartsOnce script)
    {as : List LifeAction} (hrun : run lifeStep (Life.begin rb script) as = some s) :
    s.Safe ∧ s.Owned ∧ s.Fine := by
  apply run_invariant (I := fun s : Life => s.Safe ∧ s.Owned ∧ s.Fine) ?_ hrun
  · exact ⟨.inl ⟨⟨rfl, rfl, rfl, rfl, rfl⟩, hscript⟩, Life.owned_begin rb script, rfl, rfl⟩
  · rintro s a t ⟨hs, howned, hfine⟩ h
    have hstep := (Life.Step.of_lifeStep h).2
    obtain ⟨ht, hfine'⟩ := hs.of_step howned hfine hstep
    exact ⟨ht, howned.of_step hstep, hfine'⟩

/-- A consumer comes to no fault and to no exception, in every interleaving with its readers,
exactly when its life is: starts that fail, one that succeeds, starts that fail before a client is
created, and then at most a `stop`, after which no `start` succeeds. -/
theorem fine_iff_starts_once (rb : RbCb) (script : List Op) :
    (∀ as s, run lifeStep (Life.begin rb script) as = some s → s.Fine) ↔ StartsOnce script := by
  constructor
  · intro hsafe
    by_contra hnot
    obtain ⟨as, s, hrun, hbad⟩ : (Life.begin rb script).CanGoWrong :=
      canGoWrong_of_not_startsOnce ⟨rfl, rfl, rfl⟩ rfl rfl hnot
    exact hbad (hsafe as s hrun)
  · intro hscript as s hrun
    exact (Life.safe_of_run hscript hrun).2.2

/-- What becomes of the handles in a safe life. -/
structure Life.HandlesKept (s : Life) : Prop where
  /-- No topic and no queue outlives its client. -/
  belonging : s.world.bc.Belonging
  /-- `consume` is only ever in the client that `_consumer` holds, with a queue of that client. -/
  inUse : ∀ r client queue, s.reader = some r → r.place = .inside client queue →
    s.held = [client] ∧ queue = client ∧ client ∉ s.destroyed
  /-- When the consumer is destroyed no thread is left. -/
  ended : s.caller = .destroyed →
    s.world.bc.th = none ∧ ∀ r, s.reader = some r → r.place = .outside .done

theorem handles_kept (rb : RbCb) (script : List Op) (hscript : StartsOnce script)
    (as : List LifeAction) (s : Life) (hrun : run lifeStep (Life.begin rb script) as = some s) :
    s.HandlesKept := by
  obtain ⟨hs, howned, -⟩ := Life.safe_of_run hscript hrun
  refine ⟨Life.SafeAt.belonging hs, ?_, ?_⟩
  · intro r client queue hr hplace
    obtain ⟨c, h⟩ := Life.SafeAt.reading hs hr (by simp [hplace])
    obtain ⟨rfl, rfl⟩ := h.inside r client queue hr hplace
    exact ⟨by simp [Life.held, h.own.consumer], rfl, howned.live h.own.consumer⟩
  · intro hcaller
    have hover : s.Over := hs.at hcaller
    exact ⟨hover.th, hover.reader⟩

/-- One `start` that is refused, one that succeeds and one `stop`. -/
def retryAndStop : List Op :=
  [.start .refusing .fromBeginning "", .start .accepting .fromBeginning "", .stop]

theorem startsOnce_retryAndStop : StartsOnce retryAndStop := by
  refine .inr ⟨?_, .inl ⟨StartEnv.accepting_accepts _, ?_⟩⟩
  · intro haccepts
    cases haccepts.2.1
  · intro op hop
    cases hop

/-- The reader is asked to stop before its first `consume`, and the consumer is destroyed. -/
def retryAndStopAlone : List LifeAction :=
  List.replicate 11 .caller ++ List.replicate 2 (.reader none) ++ List.replicate 7 .caller

theorem handles_kept_retryAndStop :
    ∃ s, run lifeStep (Life.begin ⟨0, 0⟩ retryAndStop) retryAndStopAlone = some s ∧
      s.caller = .destroyed ∧ s.HandlesKept :=
  ⟨_, rfl, rfl, handles_kept ⟨0, 0⟩ retryAndStop startsOnce_retryAndStop retryAndStopAlone _ rfl⟩

end TsKafka.BasicConsumer
