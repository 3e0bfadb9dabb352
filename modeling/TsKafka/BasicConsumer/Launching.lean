import TsKafka.BasicConsumer.LifeHistory

/-!
# The thread that `start` launches (`basic_consumer.hpp:74-82`)

`_th = std::thread(...)` launches a reader and then assigns it. When `_th` is joinable the
assignment ends the program, but the new reader may run before it does: `TsKafka.BasicConsumer.Life`
leaves that reader out, and here it is a thread of its own next to the caller and the first reader.
Where `_th` is not joinable the assignment changes nothing that the new reader looks at, and the
life has the launch and the assignment in one step.
-/

namespace TsKafka.BasicConsumer
open RdKafka PartialRun

/-- A life and the reader whose assignment to a joinable `_th` is still to come. `consumed` and
`called` are its part of the history. -/
structure Launching where
  life : Life
  second : Option Reader
  consumed : List Nat
  called : List Nat

def Launching.begin (rb : RbCb) (script : List Op) : Launching where
  life := .begin rb script
  second := none
  consumed := []
  called := []

inductive LaunchAction where
  /-- A step of the caller or of the first reader. -/
  | life (a : LifeAction)
  /-- `std::thread(...)` launches a reader for a joinable `_th`. -/
  | launch
  /-- That reader goes on; `result` is what `consume` returns, if it is there. -/
  | second (result : Option Message)
  deriving DecidableEq, Repr

/-- The caller is at the assignment of a new thread to a joinable `_th`. -/
def Life.Overwrites (s : Life) : Prop := s.caller = .assign ∧ s.world.bc.th ≠ none

/-- The thread for the assignment has still to be launched. -/
def Launching.toLaunch (s : Launching) : Bool :=
  match s.life.caller, s.second with
  | .assign, none => s.life.world.bc.th.isSome
  | _, _ => false

/-- The second reader is where it is in `t`, which came from the life with it for the first. -/
def Launching.moved (s : Launching) (t : Life) : Launching where
  life := { s.life with fault := t.fault }
  second := t.reader
  consumed := s.consumed ++ t.consumed.drop s.life.consumed.length
  called := s.called ++ t.called.drop s.life.called.length

def launchStep (s : Launching) : LaunchAction → Option Launching
  | .life a =>
    if a = .caller ∧ s.toLaunch then none
    else (lifeStep s.life a).map fun t => { s with life := t }
  | .launch =>
    if s.life.fault = none ∧ s.toLaunch then
      some { s with second := some ⟨s.life.world.readers, .outside .head⟩ }
    else none
  | .second result =>
    match s.second with
    | none => none
    | some r => (lifeStep { s.life with reader := some r } (.reader result)).map s.moved

theorem Launching.toLaunch_iff {s : Launching} :
    s.toLaunch = true ↔ s.life.Overwrites ∧ s.second = none := by
  unfold Launching.toLaunch Life.Overwrites
  rw [← Option.isSome_iff_ne_none]
  split
  · rename_i hcaller hsecond
    simp [hcaller, hsecond]
  · rename_i hnot
    refine iff_of_false Bool.false_ne_true ?_
    rintro ⟨⟨hcaller, -⟩, hsecond⟩
    exact hnot hcaller hsecond

/-! ## The first reader -/

variable {s t : Launching}

/-- At that assignment the caller's next step ends the program, and the first reader leaves the
members alone. -/
theorem Life.Overwrites.of_step {s t : Life} (h : s.Overwrites) (hstep : s.Step t) :
    t.Overwrites ∧ t.world = s.world := by
  obtain ⟨hcaller, hth⟩ := h
  have hreader : t.caller = s.caller → t.world = s.world → t.Overwrites ∧ t.world = s.world := by
    intro hsame hworld
    exact ⟨⟨hsame.trans hcaller, hworld ▸ hth⟩, hworld⟩
  cases hstep with
  | assignJoinable | readerNext | readerCalls | readerNull | readerReturns | readerDestroyed =>
    exact hreader rfl rfl
  | launch hat hnone => exact absurd hnone hth
  | beginDestructor hat | beginStop _ hat | startFails _ _ _ _ hat | startCreates _ _ _ _ _ hat
  | resetConsumer _ _ _ hat | topicFails _ _ _ hat | resetTopic _ _ _ hat | resetQueue _ hat
  | stopReturns _ hat | stopProceeds _ hat | store _ hat | notify _ hat | halt _ hat
  | haltNull _ hat | joinThrows hat | joinTerminates hat | join _ _ hat | dropQueue _ hat
  | dropTopic _ hat | dropConsumer _ hat | destroyJoinable hat | destroy hat =>
    cases hcaller.symm.trans hat

/-- Only the first reader of a life gets past its loop head, but for one that is launched over it
while `_stop` is down. -/
structure Launching.First (s : Launching) : Prop where
  life : s.life.FirstReader
  overwrites : s.second ≠ none → s.life.Overwrites
  unlaunched : s.second = none → s.consumed = [] ∧ s.called = []
  stopped : s.life.world.bc.stop = true →
    (∀ r, s.second = some r → r.place.Leaving) ∧ s.consumed = [] ∧ s.called = []

theorem Launching.first_begin (rb : RbCb) (script : List Op) : (Launching.begin rb script).First where
  life := Life.firstReader_of_run (run_nil (s := Life.begin rb script))
  overwrites := absurd rfl
  unlaunched := fun _ => ⟨rfl, rfl⟩
  stopped := fun h => by cases h

/-- The caller's next step is the one that ends the program. -/
theorem Life.Overwrites.caller {s t : Life} (h : s.Overwrites)
    (hstep : lifeStep s .caller = some t) : t.fault = some (.call .assignJoinable) := by
  obtain ⟨hcaller, hth⟩ := h
  obtain ⟨-, hstep⟩ := Option.ite_none_right_eq_some.mp hstep
  rw [Life.callerStep, hcaller, if_pos (Option.isSome_iff_ne_none.mpr hth)] at hstep
  cases hstep
  rfl

/-- A reader next to that assignment that is leaving `do_read` goes on leaving it. -/
theorem Life.Overwrites.reader {s t : Life} (h : s.Overwrites) {r : Reader}
    (hr : s.reader = some r) (hstep : s.Step t) :
    ∃ r', t.reader = some r' ∧ (s.world.bc.stop = true → r.place.Leaving →
      r'.place.Leaving ∧ t.consumed = s.consumed ∧ t.called = s.called) := by
  obtain ⟨hcaller, hth⟩ := h
  cases hstep with
  | assignJoinable | readerNull | readerDestroyed =>
    exact ⟨r, hr, fun _ hleaving => ⟨hleaving, rfl, rfl⟩⟩
  | readerNext r' result pc pc' hreader hplace hconsume hpc =>
    cases hreader.symm.trans hr
    refine ⟨_, rfl, fun hstop hleaving => ?_⟩
    rw [hstop] at hpc
    obtain ⟨hleaving', hcallback⟩ := ReaderPlace.leaving_next (hplace ▸ hleaving) hpc
    exact ⟨hleaving', rfl, if_neg (by simp [hcallback])⟩
  | readerCalls r' c q hreader hplace hconsumer hqueue =>
    cases hreader.symm.trans hr
    refine ⟨_, rfl, fun _ hleaving => ?_⟩
    simp [hplace, ReaderPlace.Leaving] at hleaving
  | readerReturns r' result client queue hreader hplace hlive =>
    cases hreader.symm.trans hr
    refine ⟨_, rfl, fun _ hleaving => ?_⟩
    simp [hplace, ReaderPlace.Leaving] at hleaving
  | launch hat hnone => exact absurd hnone hth
  | beginDestructor hat | beginStop _ hat | startFails _ _ _ _ hat | startCreates _ _ _ _ _ hat
  | resetConsumer _ _ _ hat | topicFails _ _ _ hat | resetTopic _ _ _ hat | resetQueue _ hat
  | stopReturns _ hat | stopProceeds _ hat | store _ hat | notify _ hat | halt _ hat
  | haltNull _ hat | joinThrows hat | joinTerminates hat | join _ _ hat | dropQueue _ hat
  | dropTopic _ hat | dropConsumer _ hat | destroyJoinable hat | destroy hat =>
    cases hcaller.symm.trans hat

theorem Launching.First.second (h : s.First) {r : Reader} (hr : s.second = some r)
    {result : Option Message} {u : Life}
    (hstep : lifeStep { s.life with reader := some r } (.reader result) = some u) :
    (s.moved u).First := by
  have hover : s.life.Overwrites := h.overwrites (by simp [hr])
  have hover' : Life.Overwrites { s.life with reader := some r } := hover
  obtain ⟨r', hr', hleaving⟩ := hover'.reader rfl (Life.Step.of_lifeStep hstep).2
  refine ⟨h.life.congr rfl rfl rfl rfl rfl h.life.stored, fun _ => hover, ?_, ?_⟩
  · intro hnone
    cases hr'.symm.trans hnone
  · intro hstop
    obtain ⟨hsecond, hconsumed, hcalled⟩ := h.stopped hstop
    obtain ⟨hplace, hconsumed', hcalled'⟩ := hleaving hstop (hsecond r hr)
    refine ⟨?_, ?_, ?_⟩
    · intro r'' hr''
      cases hr'.symm.trans hr''
      exact hplace
    · simp [Launching.moved, hconsumed, hconsumed']
    · simp [Launching.moved, hcalled, hcalled']

theorem Launching.First.step (h : s.First) {a : LaunchAction} (hstep : launchStep s a = some t) :
    t.First := by
  cases a with
  | life a =>
    obtain ⟨-, hmap⟩ := Option.ite_none_left_eq_some.mp hstep
    obtain ⟨u, hu, rfl⟩ := Option.map_eq_some_iff.mp hmap
    have hu := (Life.Step.of_lifeStep hu).2
    refine ⟨h.life.of_step hu, fun hsecond => ((h.overwrites hsecond).of_step hu).1,
      h.unlaunched, fun hstop => ?_⟩
    by_cases hsecond : s.second = none
    · refine ⟨fun r hr => ?_, h.unlaunched hsecond⟩
      cases hsecond.symm.trans hr
    · have hworld := ((h.overwrites hsecond).of_step hu).2
      exact h.stopped (hworld ▸ hstop)
  | launch =>
    obtain ⟨⟨-, hlaunch⟩, h'⟩ := Option.ite_none_right_eq_some.mp hstep
    cases h'
    obtain ⟨hover, hnone⟩ := Launching.toLaunch_iff.mp hlaunch
    refine ⟨h.life, fun _ => hover, fun hsecond => ?_, fun _ => ⟨fun r hr => ?_, h.unlaunched hnone⟩⟩
    · cases hsecond
    · cases hr
      exact .inl rfl
  | second result =>
    simp only [launchStep] at hstep
    split at hstep
    · cases hstep
    · rename_i r hr
      obtain ⟨u, hu, rfl⟩ := Option.map_eq_some_iff.mp hstep
      exact h.second hr hu

theorem Launching.first_of_run {rb : RbCb} {script : List Op} {as : List LaunchAction}
    (hrun : run launchStep (Launching.begin rb script) as = some s) : s.First :=
  run_invariant (fun _ _ _ h hstep => h.step hstep) hrun (Launching.first_begin rb script)

/-- A step of this system is one of the life, or leaves it but for its fault. -/
theorem life_of_launchStep {a : LaunchAction} (hstep : launchStep s a = some t) :
    s.life.Step t.life ∨ ∃ fault, t.life = { s.life with fault := fault } := by
  cases a with
  | life a =>
    obtain ⟨-, hmap⟩ := Option.ite_none_left_eq_some.mp hstep
    obtain ⟨u, hu, rfl⟩ := Option.map_eq_some_iff.mp hmap
    exact .inl (Life.Step.of_lifeStep hu).2
  | launch =>
    obtain ⟨-, h'⟩ := Option.ite_none_right_eq_some.mp hstep
    cases h'
    exact .inr ⟨_, rfl⟩
  | second result =>
    simp only [launchStep] at hstep
    split at hstep
    · cases hstep
    · obtain ⟨u, hu, rfl⟩ := Option.map_eq_some_iff.mp hstep
      exact .inr ⟨u.fault, rfl⟩

/-- Every life is one in which such a reader has not begun to run. -/
theorem launching_carries_out {rb : RbCb} {script : List Op} {as : List LifeAction} {s : Life}
    (hrun : run lifeStep (Life.begin rb script) as = some s) :
    ∃ bs u, run launchStep (Launching.begin rb script) bs = some u ∧ u.life = s ∧
      u.consumed = [] ∧ u.called = [] := by
  have hsim : ∃ bs u, run launchStep (Launching.begin rb script) bs = some u ∧
      u.life = s ∧ u.consumed = [] ∧ u.called = [] ∧ (u.life.fault = none → u.second = none) := by
    apply run_simulation (R := fun (s : Life) (u : Launching) => u.life = s ∧ u.consumed = [] ∧
      u.called = [] ∧ (u.life.fault = none → u.second = none)) ?_ hrun ⟨rfl, rfl, rfl, fun _ => rfl⟩
    rintro v a w u ⟨rfl, hconsumed, hcalled, hsecond⟩ hstep
    have hnone := hsecond (Life.Step.of_lifeStep hstep).1
    by_cases hlaunch : a = .caller ∧ u.toLaunch
    · obtain ⟨rfl, hlaunch⟩ := hlaunch
      have hfault := (Life.Step.of_lifeStep hstep).1
      let v : Launching := { u with second := some ⟨u.life.world.readers, .outside .head⟩ }
      have hv : launchStep u .launch = some v := if_pos ⟨hfault, hlaunch⟩
      have hnot : ¬ (LifeAction.caller = .caller ∧ v.toLaunch) := by
        rw [Launching.toLaunch_iff]
        rintro ⟨-, -, hsome⟩
        cases hsome
      have hw : launchStep v (.life .caller) = some { v with life := w } := by
        rw [launchStep, if_neg hnot]
        exact congrArg _ hstep
      refine ⟨_, _, run_cons_eq_some.mpr ⟨v, hv, run_singleton hw⟩, rfl, hconsumed, hcalled, ?_⟩
      intro hnone'
      cases ((Launching.toLaunch_iff.mp hlaunch).1.caller hstep).symm.trans hnone'
    · have hw : launchStep u (.life a) = some { u with life := w } := by
        rw [launchStep, if_neg hlaunch]
        exact congrArg _ hstep
      exact ⟨_, _, run_singleton hw, rfl, hconsumed, hcalled, fun _ => hnone⟩
  obtain ⟨bs, u, hbs, hlife, hconsumed, hcalled, -⟩ := hsim
  exact ⟨bs, u, hbs, hlife, hconsumed, hcalled⟩

/-- With `_stop` raised, a step brings the first reader no further `consume` or callback. -/
theorem Launching.stopped_step {s t : Launching} {a : LaunchAction}
    (hstep : launchStep s a = some t) (hstop : s.life.world.bc.stop = true) :
    t.life.world.bc.stop = true ∧ t.life.consumesInAll ≤ s.life.consumesInAll ∧
      t.life.callsInAll ≤ s.life.callsInAll := by
  rcases life_of_launchStep hstep with hlife | ⟨fault, hlife⟩
  · exact ⟨hlife.stop_mono hstop, hlife.inAll_le hstop⟩
  · rw [hlife]
    exact ⟨hstop, Nat.le_refl _, Nat.le_refl _⟩

/-- What every life of a consumer has in common, whatever calls are made on it. -/
structure OneReader (s : Launching) : Prop where
  /-- But for a reader that is launched over another, only the first reader ever consumes or calls
  back. -/
  first : ∀ reader ∈ s.life.consumed ++ s.life.called, reader = 0
  /-- That one does it only with `_stop` down, and next to an assignment that ends the program. -/
  second : s.consumed ≠ [] ∨ s.called ≠ [] → s.life.world.bc.stop = false ∧
    ∀ t, launchStep s (.life .caller) = some t → t.life.fault = some (.call .assignJoinable)
  /-- Once `_stop` is raised at most one `consume` and at most one callback begin, those of the
  round that the first reader is in. -/
  stopped : s.life.world.bc.stop = true → ∀ as t, run launchStep s as = some t →
    t.life.consumed.length ≤ s.life.consumed.length + s.life.consumesLeft ∧
      t.life.called.length ≤ s.life.called.length + s.life.callsLeft ∧
      t.consumed = [] ∧ t.called = []

/-- Of all the readers that the starts of a life launch, only the first consumes or calls back, but
for one that a `start` launches over it just before it ends the program; and no reader goes on for
long when `_stop` is raised. -/
theorem one_reader (rb : RbCb) (script : List Op) (as : List LaunchAction) (s : Launching)
    (hrun : run launchStep (Launching.begin rb script) as = some s) : OneReader s := by
  have hfirst := Launching.first_of_run hrun
  refine ⟨hfirst.life.first, ?_, ?_⟩
  · intro hacts
    have hsecond : s.second ≠ none := by
      intro hnone
      obtain ⟨hconsumed, hcalled⟩ := hfirst.unlaunched hnone
      exact hacts.elim (absurd hconsumed) (absurd hcalled)
    refine ⟨?_, fun t hstep => ?_⟩
    · by_contra hstop
      obtain ⟨-, hconsumed, hcalled⟩ := hfirst.stopped (by simpa using hstop)
      exact hacts.elim (absurd hconsumed) (absurd hcalled)
    · obtain ⟨-, hmap⟩ := Option.ite_none_left_eq_some.mp hstep
      obtain ⟨u, hu, rfl⟩ := Option.map_eq_some_iff.mp hmap
      exact (hfirst.overwrites hsecond).caller hu
  · intro hstop as' t hrun'
    have hkeeps : ∀ (u : Launching) a v, u.life.world.bc.stop = true ∧ u.First →
        launchStep u a = some v → v.life.world.bc.stop = true ∧ v.First :=
      fun u a v hu hstep => ⟨(Launching.stopped_step hstep hu.1).1, hu.2.step hstep⟩
    have hconsumes : t.life.consumesInAll ≤ s.life.consumesInAll :=
      run_le (fun u : Launching => u.life.consumesInAll) hkeeps
        (fun _ _ _ hu hstep => (Launching.stopped_step hstep hu.1).2.1) hrun' ⟨hstop, hfirst⟩
    have hcalls : t.life.callsInAll ≤ s.life.callsInAll :=
      run_le (fun u : Launching => u.life.callsInAll) hkeeps
        (fun _ _ _ hu hstep => (Launching.stopped_step hstep hu.1).2.2) hrun' ⟨hstop, hfirst⟩
    obtain ⟨hstop', hfirst'⟩ := run_invariant hkeeps hrun' ⟨hstop, hfirst⟩
    obtain ⟨-, hnone⟩ := hfirst'.stopped hstop'
    exact ⟨Nat.le_trans (Nat.le_add_right _ _) hconsumes,
      Nat.le_trans (Nat.le_add_right _ _) hcalls, hnone⟩

/-- A consumer is started while its reader runs, and the second reader is in the callback for one
byte when the program ends. -/
def startOverReader : List LaunchAction :=
  List.replicate 9 (.life .caller) ++ [.launch, .second none, .second none,
    .second (some ⟨.ERR_NO_ERROR, [7], 0⟩), .second none, .life .caller]

theorem one_reader_startOverReader :
    ∃ s, run launchStep (Launching.begin ⟨0, 0⟩ [.start .accepting .fromBeginning "",
        .start .accepting .fromBeginning ""]) startOverReader = some s ∧
      s.called = [1] ∧ s.life.fault = some (.call .assignJoinable) ∧ OneReader s :=
  ⟨_, rfl, rfl, rfl, one_reader ⟨0, 0⟩ [.start .accepting .fromBeginning "",
    .start .accepting .fromBeginning ""] startOverReader _ rfl⟩

end TsKafka.BasicConsumer
