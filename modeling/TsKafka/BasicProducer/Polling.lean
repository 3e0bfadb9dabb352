import TsKafka.BasicProducer.Lifecycle

/-!
# Whether `bg_pool` keeps polling

`_stop` is not written before the destructor raises it (`basic_producer.cpp:12-15`), so the first
test of the polling thread reads what the storage happened to hold.
-/

namespace TsKafka.BasicProducer
open RdKafka PartialRun

/-- The destructor has begun. -/
def CallerPc.InDestructor : CallerPc → Prop
  | .join | .destroyed => True
  | _ => False

/-- The polling thread does not end before the destructor has begun, whatever the interleaving. -/
def KeepsPolling (clock : Clock) (stop : Bool) (script : List Op) : Prop :=
  ∀ as s, run (lifeStep clock) (Life.begin stop script) as = some s → s.poller = some .done →
    s.caller.InDestructor

/-- A polling thread is started: a `connect` succeeds after others that failed. -/
def StartsPolling : List Op → Prop
  | [] => False
  | op :: rest => op.Succeeds ∨ op.Fails ∧ StartsPolling rest

variable {clock : Clock} {s t : Life}

/-! ## A flag that is lowered at the start -/

/-- The flag is up, and the thread has ended, only when the destructor has begun. -/
structure Life.StopsLate (s : Life) : Prop where
  raised : s.world.bp.stop = true → s.caller.InDestructor
  done : s.poller = some .done → s.caller.InDestructor

/-- Outside the destructor the flag is down and the thread goes on. -/
theorem Life.StopsLate.outside (hs : s.StopsLate) {pc : CallerPc} (hcaller : s.caller = pc)
    (hpc : ¬ pc.InDestructor) : ¬ s.world.bp.stop = true ∧ ¬ s.poller = some .done :=
  ⟨fun hraised => hpc (hcaller ▸ hs.raised hraised), fun hdone => hpc (hcaller ▸ hs.done hdone)⟩

/-- A step outside the destructor that leaves the flag and the thread alone. -/
theorem Life.StopsLate.of_eq (hs : s.StopsLate) {pc : CallerPc} (hcaller : s.caller = pc)
    (hpc : ¬ pc.InDestructor) (hstop : t.world.bp.stop = s.world.bp.stop)
    (hpoller : t.poller = s.poller) : t.StopsLate := by
  obtain ⟨hraised, hdone⟩ := hs.outside hcaller hpc
  exact ⟨fun ht => absurd (hstop ▸ ht) hraised, fun ht => absurd (hpoller ▸ ht) hdone⟩

theorem Life.StopsLate.of_step (hs : s.StopsLate) (h : s.Step clock t) : t.StopsLate := by
  cases h with
  | raiseStop hcaller htodo => exact ⟨fun _ => trivial, fun _ => trivial⟩
  | beginPush data hasToken rest hcaller htodo =>
    exact hs.of_eq hcaller id rfl rfl
  | connectFails env sa errstr rest hcaller htodo hfails =>
    exact hs.of_eq hcaller id rfl rfl
  | connectSucceeds env sa errstr rest p hcaller htodo haccepts =>
    exact hs.of_eq hcaller id rfl rfl
  | reset sa p hcaller => exact hs.of_eq hcaller id rfl rfl
  | assignJoinable sa hcaller hpollTh => exact ⟨hs.raised, hs.done⟩
  | launch sa hcaller hpollTh =>
    refine ⟨fun hraised => absurd hraised (hs.outside hcaller id).1, fun hdone => ?_⟩
    -- the new thread is at its first test
    cases hdone
  | pushNull data hasToken pc hcaller hproducer => exact ⟨hs.raised, hs.done⟩
  | produced data hasToken err hcaller hproducer =>
    exact hs.of_eq hcaller id rfl rfl
  | pushGoesOn data hasToken pc pc' hcaller hpc =>
    exact hs.of_eq hcaller id rfl rfl
  | pushReturns data hasToken pc hcaller hpc =>
    exact hs.of_eq hcaller id rfl rfl
  | joinNotJoinable hcaller hpollTh => exact ⟨hs.raised, hs.done⟩
  | joined hcaller hpoller => exact ⟨fun _ => trivial, fun _ => trivial⟩
  | pollerTests hpoller =>
    refine ⟨hs.raised, fun hdone => ?_⟩
    -- it ends only where it reads the flag as up
    by_cases hstop : s.world.bp.stop = true
    · exact hs.raised hstop
    · rw [if_neg hstop] at hdone
      cases hdone
  | pollerNull hpoller hproducer => exact ⟨hs.raised, hs.done⟩
  | pollerCalls p hpoller hproducer => exact ⟨hs.raised, fun hdone => by cases hdone⟩
  | pollerDestroyed handle hpoller hdestroyed => exact ⟨hs.raised, hs.done⟩
  | pollerReturns handle hpoller => exact ⟨hs.raised, fun hdone => by cases hdone⟩

theorem keepsPolling_of_lowered (clock : Clock) (script : List Op) :
    KeepsPolling clock false script := by
  intro as s hrun hdone
  have hinv : s.StopsLate := by
    apply run_invariant (I := Life.StopsLate) ?_ hrun
    · exact ⟨fun hraised => absurd hraised Bool.false_ne_true, fun hnone => by cases hnone⟩
    · intro s a t hs h
      exact hs.of_step (Life.Step.of_lifeStep h).2
  exact hinv.done hdone

/-! ## Calls that start no polling thread -/

/-- No polling thread has been started, and none will be. -/
structure Life.NeverPolls (s : Life) : Prop where
  unconnected : s.Unconnected
  caller : s.caller.Outside
  todo : s.caller = .idle → ¬ StartsPolling s.todo
  /-- A `push` ends at its first call, which goes through the null handle. -/
  push : ∀ data hasToken pc, s.caller = .push data hasToken pc → pc = .produce

/-- A step that ends the program changes nothing else. -/
theorem Life.NeverPolls.fail (hs : s.NeverPolls) (fault : Fault) : (s.fail fault).NeverPolls :=
  ⟨⟨hs.unconnected.producer, hs.unconnected.pollTh, hs.unconnected.poller,
    hs.unconnected.destroyed⟩, hs.caller, hs.todo, hs.push⟩

theorem Life.NeverPolls.of_step (hs : s.NeverPolls) (h : s.Step clock t) : t.NeverPolls := by
  obtain ⟨hproducer', hpollTh', hpoller', hdestroyed'⟩ := hs.unconnected
  cases h with
  | raiseStop hcaller htodo =>
    refine ⟨⟨hproducer', hpollTh', hpoller', hdestroyed'⟩, trivial, ?_, ?_⟩
    · rintro ⟨⟩
    · rintro data hasToken pc ⟨⟩
  | beginPush data hasToken rest hcaller htodo =>
    refine ⟨⟨hproducer', hpollTh', hpoller', hdestroyed'⟩, trivial, ?_, ?_⟩
    · rintro ⟨⟩
    · rintro data hasToken pc ⟨⟩
      rfl
  | connectFails env sa errstr rest hcaller htodo hfails =>
    refine ⟨⟨hproducer', hpollTh', hpoller', hdestroyed'⟩, trivial, fun _ hrest => ?_, ?_⟩
    · have hscript := hs.todo hcaller
      rw [htodo] at hscript
      exact hscript (.inr ⟨hfails, hrest⟩)
    · rintro data hasToken pc ⟨⟩
  | connectSucceeds env sa errstr rest p hcaller htodo haccepts =>
    have hscript := hs.todo hcaller
    rw [htodo] at hscript
    exact absurd (.inl haccepts) hscript
  | reset sa p hcaller =>
    have houtside := hs.caller
    rw [hcaller] at houtside
    exact houtside.elim
  | assignJoinable sa hcaller hpollTh => exact hs.fail _
  | launch sa hcaller hpollTh =>
    have houtside := hs.caller
    rw [hcaller] at houtside
    exact houtside.elim
  | pushNull data hasToken pc hcaller hproducer => exact hs.fail _
  | produced data hasToken err hcaller hproducer => simp [hproducer'] at hproducer
  | pushGoesOn data hasToken pc pc' hcaller hpc => exact absurd (hs.push _ _ _ hcaller) hpc
  | pushReturns data hasToken pc hcaller hpc => exact absurd (hs.push _ _ _ hcaller) hpc
  | joinNotJoinable hcaller hpollTh => exact hs.fail _
  | joined hcaller hpoller => cases hpoller'.symm.trans hpoller
  | pollerTests hpoller => cases hpoller'.symm.trans hpoller
  | pollerNull hpoller hproducer => exact hs.fail _
  | pollerCalls p hpoller hproducer => cases hpoller'.symm.trans hpoller
  | pollerDestroyed handle hpoller hdestroyed => exact hs.fail _
  | pollerReturns handle hpoller => cases hpoller'.symm.trans hpoller

theorem keepsPolling_of_not_startsPolling (clock : Clock) (stop : Bool) {script : List Op}
    (h : ¬ StartsPolling script) : KeepsPolling clock stop script := by
  intro as s hrun hdone
  have hinv : s.NeverPolls := by
    apply run_invariant (I := Life.NeverPolls) ?_ hrun
    · refine ⟨⟨rfl, rfl, rfl, rfl⟩, trivial, fun _ => h, ?_⟩
      rintro data hasToken pc ⟨⟩
    · intro s a t hs hstep
      exact hs.of_step (Life.Step.of_lifeStep hstep).2
  rw [hinv.unconnected.poller] at hdone
  cases hdone

/-! ## A flag that is up when the thread starts -/

/-- Some interleaving ends the polling thread while the caller is between two calls. -/
def Life.CanStopEarly (clock : Clock) (s : Life) : Prop :=
  ∃ as t, run (lifeStep clock) s as = some t ∧ t.poller = some .done ∧ t.caller = .idle

theorem Life.CanStopEarly.of_caller (hfault : s.fault = none)
    (h : s.callerStep clock .ERR_NO_ERROR false = some t) (ht : t.CanStopEarly clock) :
    s.CanStopEarly clock := by
  obtain ⟨as, u, hrun, hu⟩ := ht
  exact ⟨_, u, run_caller hfault h hrun, hu⟩

/-- A new thread that finds the flag up ends at its first test. -/
theorem canStopEarly_of_test (hpoller : s.poller = some .test)
    (hstop : s.world.bp.stop = true) (hcaller : s.caller = .idle) (hfault : s.fault = none) :
    s.CanStopEarly clock := by
  have hstep : lifeStep clock s .poller = some { s with poller := some .done } := by
    simp [lifeStep, hfault, Life.pollerStep, hpoller, hstop]
  exact ⟨[.poller], _, run_singleton hstep, rfl, hcaller⟩

theorem canStopEarly_of_startsPolling {ops : List Op} (hops : s.todo = ops)
    (hcaller : s.caller = .idle) (hfault : s.fault = none) (hpollTh : s.world.bp.pollTh = none)
    (hstop : s.world.bp.stop = true) (hstarts : StartsPolling ops) : s.CanStopEarly clock := by
  induction ops generalizing s with
  | nil => exact hstarts.elim
  | cons op rest ih =>
    cases op with
    | push data hasToken => rcases hstarts with hop | ⟨hop, -⟩ <;> exact hop.elim
    | connect env sa errstr =>
      have hbegin : s.callerStep clock .ERR_NO_ERROR false = some s.nextCall :=
        callerStep_idle hcaller _ _
      by_cases haccepts : env.Accepts sa
      · obtain ⟨p, hnext⟩ := nextCall_connect_of_accepts hops haccepts
        rw [hnext] at hbegin
        let reset := (s.begins rest (.reset sa p)).resetProducer sa p
        have hreset : (s.begins rest (.reset sa p)).callerStep clock .ERR_NO_ERROR false =
            some reset := rfl
        have hassign : reset.callerStep clock .ERR_NO_ERROR false = some (reset.launch sa) :=
          congrArg some (if_neg (by simp [reset, Life.resetProducer, World.resetProducer,
            Life.begins, hpollTh]))
        exact .of_caller hfault hbegin (.of_caller hfault hreset (.of_caller hfault hassign
          (canStopEarly_of_test rfl hstop rfl hfault)))
      · rw [nextCall_connect_of_not_accepts hops haccepts] at hbegin
        obtain hsucceeds | ⟨-, hrest⟩ := hstarts
        · exact absurd hsucceeds haccepts
        · exact .of_caller hfault hbegin (ih rfl rfl hfault hpollTh hstop hrest)

/-- The polling thread polls until the destructor exactly when the storage of `_stop` happens to
hold `false`, or no polling thread is ever started. -/
theorem keepsPolling_iff (clock : Clock) (stop : Bool) (script : List Op) :
    KeepsPolling clock stop script ↔ stop = false ∨ ¬ StartsPolling script := by
  constructor
  · intro hkeeps
    by_contra hnot
    obtain ⟨hstop, hstarts⟩ := not_or.mp hnot
    obtain ⟨as, s, hrun, hdone, hcaller⟩ : (Life.begin stop script).CanStopEarly clock :=
      canStopEarly_of_startsPolling rfl rfl rfl rfl (Bool.not_eq_false _ |>.mp hstop)
        (not_not.mp hstarts)
    have hlate := hkeeps as s hrun hdone
    rw [hcaller] at hlate
    exact hlate
  · rintro (rfl | hstarts)
    · exact keepsPolling_of_lowered clock script
    · exact keepsPolling_of_not_startsPolling clock stop hstarts

end TsKafka.BasicProducer
