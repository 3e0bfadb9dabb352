import TsKafka.BasicProducer.Accounting
import TsKafka.Library.WriterLog

/-!
# The calls of `dr_cb` (`basic_producer.cpp:49-55`)

A `poll` takes reports off librdkafka's queue and hands them to `dr_cb` one after the other. Several
polls may be going on at once: those of the threads that push, that of `bg_pool`, and the
destruction of the handle. `TsKafka.BasicProducer.Threads` has a poll as one step; here it takes
its reports in that step, and its calls of `dr_cb` and the two writes of each to `std::cout` are
steps of their own, interleaved with those of every other thread.
-/

namespace TsKafka.BasicProducer
open RdKafka PartialRun WriterLog

/-- Who hands reports to `dr_cb`. -/
inductive Poller (τ : Type) where
  | push (t : τ)
  | bgPool
  /-- The destructor, while it destroys the handle. -/
  | destructor
  deriving DecidableEq

/-- `dr::dr_cb`: what it writes to `std::cout`. -/
def drCb (report : Report) : List String :=
  if report.err ≠ .ERR_NO_ERROR then [report.errstr, "\n"] else []

/-- A poll that has taken its reports: those it has still to hand to `dr_cb`, and what the call of
`dr_cb` that it is in has still to write. -/
structure InPoll where
  reports : List Report
  texts : List String
  deriving DecidableEq

/-- In no poll, or at its end. -/
def InPoll.none : InPoll := ⟨[], []⟩

/-- The threads of a producer with the polls in progress. The last three fields are history: the
reports that each poll has taken, the calls of `dr_cb`, and what they have written. -/
structure Reporting (τ : Type) where
  threads : State τ
  inPoll : Poller τ → InPoll
  taken : List (Poller τ × Report)
  called : List (Poller τ × Report)
  written : List (Poller τ × String)

/-- A producer whose `connect` has just returned true. -/
def Reporting.connected (τ : Type) (topic : String) (stop : Bool) : Reporting τ where
  threads := BasicProducer.connected τ topic stop
  inPoll := fun _ => .none
  taken := []
  called := []
  written := []

inductive ReportAction (τ : Type) where
  /-- A step of the threads; when it is a `poll`, the poll takes its reports. -/
  | thread (a : Action τ)
  /-- The poll of `p` hands its next report to `dr_cb`. -/
  | drCb (p : Poller τ)
  /-- The `dr_cb` that the poll of `p` is in writes its next string. -/
  | write (p : Poller τ)
  deriving DecidableEq

/-- Whose step it is; librdkafka settles messages. -/
def Action.poller {τ : Type} : Action τ → Option (Poller τ)
  | .call t _ _ | .produce t _ | .switch t _ | .poll t _ => some (.push t)
  | .bgTest | .bgPoll _ => some .bgPool
  | .dtorStop | .dtorJoin | .dtorMember _ => some .destructor
  | .settle _ _ _ => none

namespace Reporting

variable {τ : Type} [DecidableEq τ]

/-- The threads have come to `t` by a step of `p`, which has taken the reports that are new. -/
def took (s : Reporting τ) (p : Poller τ) (t : State τ) : Reporting τ :=
  let reports := t.reported.drop s.threads.reported.length
  { s with
    threads := t
    inPoll := Function.update s.inPoll p ⟨reports, []⟩
    taken := s.taken ++ reports.map fun report => (p, report) }

/-- The poll of `p` hands `report` to `dr_cb` and has `rest` left. -/
def calls (s : Reporting τ) (p : Poller τ) (report : Report) (rest : List Report) : Reporting τ :=
  { s with
    inPoll := Function.update s.inPoll p ⟨rest, BasicProducer.drCb report⟩
    called := s.called ++ [(p, report)] }

/-- The `dr_cb` in the poll of `p` writes `text` and has `texts` left. -/
def writes (s : Reporting τ) (p : Poller τ) (text : String) (texts : List String) : Reporting τ :=
  { s with
    inPoll := Function.update s.inPoll p ⟨(s.inPoll p).reports, texts⟩
    written := s.written ++ [(p, text)] }

end Reporting

variable {τ : Type} [DecidableEq τ]

/-- One step of the threads and of the polls they are in. -/
def reportStep [Fintype τ] (clock : Clock) (s : Reporting τ) : ReportAction τ → Option (Reporting τ)
  | .thread a =>
    match a.poller with
    | none => (step clock s.threads a).map fun t => { s with threads := t }
    | some p =>
      -- a thread goes on when its poll has returned, and no `push` is left in one when the
      -- producer is destroyed
      if s.inPoll p = .none ∧ (a = .dtorStop → ∀ t, s.inPoll (.push t) = .none) then
        (step clock s.threads a).map (s.took p)
      else none
  | .drCb p =>
    match s.inPoll p with
    | ⟨report :: rest, []⟩ => some (s.calls p report rest)
    | _ => none
  | .write p =>
    match s.inPoll p with
    | ⟨_, text :: texts⟩ => some (s.writes p text texts)
    | _ => none

/-! ## The steps as a relation -/

inductive Reporting.Step [Fintype τ] (clock : Clock) (s : Reporting τ) : Reporting τ → Prop
  | settle (i : Nat) (err : ErrorCode) (errstr : String) (t : State τ)
      (hstep : step clock s.threads (.settle i err errstr) = some t) :
      Step clock s { s with threads := t }
  | thread (a : Action τ) (p : Poller τ) (t : State τ) (hp : a.poller = some p)
      (hfree : s.inPoll p = .none) (hpushes : a = .dtorStop → ∀ t, s.inPoll (.push t) = .none)
      (hstep : step clock s.threads a = some t) : Step clock s (s.took p t)
  | drCb (p : Poller τ) (report : Report) (rest : List Report)
      (hp : s.inPoll p = ⟨report :: rest, []⟩) : Step clock s (s.calls p report rest)
  | write (p : Poller τ) (text : String) (texts : List String) (reports : List Report)
      (hp : s.inPoll p = ⟨reports, text :: texts⟩) : Step clock s (s.writes p text texts)

theorem Reporting.Step.of_reportStep [Fintype τ] {clock : Clock} {s t : Reporting τ}
    {a : ReportAction τ} (h : reportStep clock s a = some t) : s.Step clock t := by
  cases a with
  | thread a =>
    simp only [reportStep] at h
    split at h
    · rename_i hnone
      obtain ⟨u, hu, rfl⟩ := Option.map_eq_some_iff.mp h
      cases a with
      | settle i err errstr => exact .settle i err errstr u hu
      | _ => cases hnone
    · rename_i p hp
      obtain ⟨hguard, h⟩ := Option.ite_none_right_eq_some.mp h
      obtain ⟨u, hu, rfl⟩ := Option.map_eq_some_iff.mp h
      exact .thread a p u hp hguard.1 hguard.2 hu
  | drCb p =>
    simp only [reportStep] at h
    split at h
    · rename_i report rest hp
      cases h
      exact .drCb p report rest hp
    · cases h
  | write p =>
    simp only [reportStep] at h
    split at h
    · rename_i reports text texts hp
      cases h
      exact .write p text texts reports hp
    · cases h

/-- Without the calls of `dr_cb` a run is one of the threads. -/
theorem threads_of_run [Fintype τ] {clock : Clock} {s t : Reporting τ} {as : List (ReportAction τ)}
    (hrun : run (reportStep clock) s as = some t) :
    ∃ bs, run (step clock) s.threads bs = some t.threads := by
  have hsim : ∃ bs u, run (step clock) s.threads bs = some u ∧ u = t.threads := by
    apply run_simulation (R := fun (s : Reporting τ) u => u = s.threads) ?_ hrun rfl
    rintro u a v _ rfl h
    cases Reporting.Step.of_reportStep h with
    | settle i err errstr w hw => exact ⟨[_], w, run_singleton hw, rfl⟩
    | thread a p w hp hfree hpushes hw => exact ⟨[a], w, run_singleton hw, rfl⟩
    | drCb p report rest hp => exact ⟨[], _, rfl, rfl⟩
    | write p text texts reports hp => exact ⟨[], _, rfl, rfl⟩
  obtain ⟨bs, u, hbs, rfl⟩ := hsim
  exact ⟨bs, hbs⟩

/-! ## When a poll can be in progress -/

/-- The threads are where `p` can have reports in its hands. -/
def State.MayPoll {τ : Type} (s : State τ) : Poller τ → Prop
  | .push _ => s.dtor = .notCalled
  | .bgPool => s.bg ≠ .done
  | .destructor => s.dtor = .members [.ev, .drCb, .topic]

section Threads

variable {clock : Clock} {s t : State τ} {a : Action τ}

/-- A step that takes reports. -/
theorem Step.mayPoll_of_taken (halive : Alive s) (hstep : Step clock s a t) {p : Poller τ}
    (hp : a.poller = some p) (htaken : t.reported ≠ s.reported) : t.MayPoll p := by
  cases hstep with
  | produce u err f hframe hpc hhandle =>
    refine absurd ?_ htaken
    unfold State.produced
    split <;> rfl
  | switch u token f err hframe hpc =>
    refine absurd ?_ htaken
    cases switchErr err (f.hasToken && token) <;> rfl
  | pollOk u n f hframe hpc hhandle =>
    cases hp
    exact halive.notCalled hframe
  | pollContinue u n f hframe hpc hhandle =>
    cases hp
    exact halive.notCalled hframe
  | bgPoll n hbg hhandle =>
    cases hp
    exact BgPc.noConfusion
  | dtorMember n m left hdtor =>
    cases hp
    by_cases hm : m = .producer
    · subst hm
      have horder : ∀ members ∈ membersInDestructionOrder.tails, members.head? = some .producer →
          members.tail = [.ev, .drCb, .topic] := by decide
      have hleft := horder _ ((List.mem_tails _ _).mpr (halive.order _ hdtor)) rfl
      exact congrArg DtorPc.members hleft
    · rw [s.destroyMember_of_ne hm] at htaken
      exact absurd rfl htaken
  | _ => exact absurd rfl htaken

/-- A step of another thread. -/
theorem Step.mayPoll_of_other (hstep : Step clock s a t) {p : Poller τ} (hp : a.poller ≠ some p)
    (hstop : a = .dtorStop → ∀ u, p ≠ .push u) (hmay : s.MayPoll p) : t.MayPoll p := by
  have hsame : t.dtor = s.dtor → t.bg = s.bg → t.MayPoll p := by
    intro hdtor hbg
    cases p <;> simpa only [State.MayPoll, hdtor, hbg] using hmay
  cases hstep with
  | produce u err f hframe hpc hhandle =>
    apply hsame <;> unfold State.produced <;> split <;> rfl
  | switch u token f err hframe hpc =>
    apply hsame <;> cases switchErr err (f.hasToken && token) <;> rfl
  | bgTest hbg =>
    cases p with
    | bgPool => exact absurd rfl hp
    | _ => exact hmay
  | bgPoll n hbg hhandle =>
    cases p with
    | bgPool => exact absurd rfl hp
    | _ => exact hmay
  | dtorStop hdtor hframe =>
    cases p with
    | push u => exact absurd rfl (hstop rfl u)
    | bgPool => exact hmay
    | destructor => exact absurd rfl hp
  | dtorJoin hdtor hbg =>
    cases p with
    | push u => exact absurd (hmay.symm.trans hdtor) (by simp)
    | bgPool => exact hmay
    | destructor => exact absurd rfl hp
  | dtorMember n m left hdtor =>
    cases p with
    | push u => exact absurd (hmay.symm.trans hdtor) (by simp)
    | bgPool => simpa only [State.MayPoll, State.destroyMember_bg] using hmay
    | destructor => exact absurd rfl hp
  | _ => exact hsame rfl rfl

end Threads

/-! ## The books -/

/-- What the polls have done with the reports. -/
structure Reporting.Kept (s : Reporting τ) : Prop where
  alive : Alive s.threads
  accounted : s.threads.Accounted
  /-- The polls have taken the reports that have left librdkafka's queue. -/
  taken : s.taken.map Prod.snd = s.threads.reported
  handed : ∀ p, byWriter p s.taken = byWriter p s.called ++ (s.inPoll p).reports
  printed : ∀ p, (byWriter p s.called).flatMap drCb = byWriter p s.written ++ (s.inPoll p).texts
  inPoll : ∀ p, s.inPoll p ≠ .none → s.threads.MayPoll p

theorem kept_connected (topic : String) (stop : Bool) : (Reporting.connected τ topic stop).Kept :=
  ⟨alive_connected topic stop, accounted_connected topic stop, rfl, fun _ => rfl, fun _ => rfl,
    fun _ h => absurd rfl h⟩

namespace Reporting.Kept

variable {clock : Clock} {s t : Reporting τ}

theorem took (h : s.Kept) {a : Action τ} {p : Poller τ} {u : State τ} (hp : a.poller = some p)
    (hfree : s.inPoll p = .none) (hpushes : a = .dtorStop → ∀ t, s.inPoll (.push t) = .none)
    (hstep : BasicProducer.Step clock s.threads a u) : (s.took p u).Kept := by
  obtain ⟨haccounted, hextends⟩ := hstep.books h.accounted
  obtain ⟨reports, hreports⟩ := hextends.reported
  have hnew : u.reported.drop s.threads.reported.length = reports := by
    rw [← hreports, List.drop_left]
  unfold Reporting.took
  rw [hnew]
  refine ⟨h.alive.step hstep, haccounted, ?_, ?_, ?_, ?_⟩
  · simp [h.taken, hreports, Function.comp_def]
  · intro q
    rw [byWriter_append, byWriter_map_pair, h.handed]
    by_cases hq : q = p
    · subst hq
      simp [hfree, InPoll.none]
    · simp [hq, Ne.symm hq]
  · intro q
    by_cases hq : q = p
    · subst hq
      simpa [hfree, InPoll.none] using h.printed q
    · simpa [hq] using h.printed q
  · intro q hq
    by_cases hqp : q = p
    · subst hqp
      apply hstep.mayPoll_of_taken h.alive hp
      intro hsame
      have hnone : reports = [] := by simpa [hsame] using hreports
      simp [hnone, InPoll.none] at hq
    · have hin : s.inPoll q ≠ .none := by simpa [hqp] using hq
      apply hstep.mayPoll_of_other ?_ ?_ (h.inPoll q hin)
      · rw [hp]
        exact fun heq => hqp (Option.some.inj heq).symm
      · rintro hstop v rfl
        exact hin (hpushes hstop v)

theorem settle (h : s.Kept) {i : Nat} {err : ErrorCode} {errstr : String} {u : State τ}
    (hstep : BasicProducer.Step clock s.threads (.settle i err errstr) u) :
    ({ s with threads := u } : Reporting τ).Kept := by
  have haccounted := (hstep.books h.accounted).1
  have halive := h.alive.step hstep
  cases hstep
  exact ⟨halive, haccounted, h.taken, h.handed, h.printed, fun p hp => by
    cases p <;> exact h.inPoll _ hp⟩

/-- A poll in progress goes on: what it has left and what it has done change for it alone. -/
theorem goesOn (h : s.Kept) {p : Poller τ} (left : InPoll) (called : List Report)
    (written : List String) (hp : s.inPoll p ≠ .none)
    (hhanded : (s.inPoll p).reports = called ++ left.reports)
    (hprinted : (s.inPoll p).texts ++ called.flatMap drCb = written ++ left.texts) :
    ({ s with
      inPoll := Function.update s.inPoll p left
      called := s.called ++ called.map fun report => (p, report)
      written := s.written ++ written.map fun text => (p, text) } : Reporting τ).Kept := by
  refine ⟨h.alive, h.accounted, h.taken, ?_, ?_, ?_⟩
  · intro q
    rw [byWriter_append, byWriter_map_pair, h.handed]
    by_cases hq : q = p
    · subst hq
      simp [hhanded]
    · simp [hq, Ne.symm hq]
  · intro q
    rw [byWriter_append, byWriter_append, byWriter_map_pair, byWriter_map_pair, List.flatMap_append,
      h.printed]
    by_cases hq : q = p
    · subst hq
      simp [hprinted]
    · simp [hq, Ne.symm hq]
  · intro q hq
    by_cases hqp : q = p
    · subst hqp
      exact h.inPoll q hp
    · exact h.inPoll q (by simpa [hqp] using hq)

theorem step [Fintype τ] (h : s.Kept) (hstep : s.Step clock t) : t.Kept := by
  cases hstep with
  | settle i err errstr u hu => exact h.settle (Step.of_step hu)
  | thread a p u hp hfree hpushes hu => exact h.took hp hfree hpushes (Step.of_step hu)
  | drCb p report rest hp =>
    have hgoes := h.goesOn (p := p) ⟨rest, BasicProducer.drCb report⟩ [report] []
      (by simp [hp, InPoll.none]) (by simp [hp]) (by simp [hp])
    simpa [Reporting.calls] using hgoes
  | write p text texts reports hp =>
    have hgoes := h.goesOn (p := p) ⟨reports, texts⟩ [] [text] (by simp [hp, InPoll.none])
      (by simp [hp]) (by simp [hp])
    simpa [Reporting.writes, hp] using hgoes

theorem of_run [Fintype τ] {topic : String} {stop : Bool} {as : List (ReportAction τ)}
    (hrun : run (reportStep clock) (Reporting.connected τ topic stop) as = some s) : s.Kept :=
  run_invariant (fun _ _ _ h hstep => h.step (.of_reportStep hstep)) hrun
    (kept_connected topic stop)

/-- `dr_cb` gets a report about each message at most once. -/
theorem once (h : s.Kept) : (s.called.map fun call => call.2.msg).Nodup := by
  have hsub : s.called.Subperm s.taken := by
    apply subperm_of_byWriter
    intro p
    rw [h.handed p]
    exact List.sublist_append_left _ _
  obtain ⟨called, hperm, hsublist⟩ := hsub
  have htaken : (s.taken.map fun call => call.2.msg).Nodup := by
    have hsplit : (s.taken.map fun call => call.2.msg) = s.threads.reported.map Report.msg := by
      rw [← h.taken, List.map_map]
      rfl
    have hnodup := h.accounted.nodup_iff.mpr List.nodup_range
    rw [hsplit]
    rw [State.settled, List.map_append] at hnodup
    exact (List.nodup_append.mp (List.nodup_append.mp hnodup).2.1).1
  exact (hperm.map _).nodup_iff.mp (htaken.sublist (hsublist.map _))

/-- When `_dr_cb` is destroyed no poll is in progress. -/
theorem none_of_gone (h : s.Kept) (hgone : s.threads.Gone .drCb) (p : Poller τ) :
    s.inPoll p = .none := by
  by_contra hp
  obtain ⟨left, hleft, hnot⟩ := hgone
  have hmay := h.inPoll p hp
  cases p with
  | push u => exact absurd (hmay.symm.trans hleft) (by simp)
  | bgPool => exact hmay (h.alive.joined left hleft)
  | destructor =>
    cases hmay.symm.trans hleft
    exact hnot (by simp)

/-- When the handle is destroyed, only its destruction hands over reports. -/
theorem none_of_closed (h : s.Kept) (hhandle : s.threads.handle = false) {p : Poller τ}
    (hp : p ≠ .destructor) : s.inPoll p = .none := by
  by_contra hin
  have hgone := h.alive.handle.not.mp (by simp [hhandle])
  rw [not_not] at hgone
  obtain ⟨left, hleft, -⟩ := hgone
  have hmay := h.inPoll p hin
  cases p with
  | push u => exact absurd (hmay.symm.trans hleft) (by simp)
  | bgPool => exact hmay (h.alive.joined left hleft)
  | destructor => exact hp rfl

end Reporting.Kept

/-- What one step adds to the history, it adds at the end. -/
structure Reporting.Extends (s t : Reporting τ) : Prop where
  settled : s.threads.settled <+: t.threads.settled
  taken : s.taken <+: t.taken
  called : s.called <+: t.called
  written : s.written <+: t.written

theorem Reporting.Step.extends [Fintype τ] {clock : Clock} {s t : Reporting τ} (h : s.Kept)
    (hstep : s.Step clock t) : Reporting.Extends s t := by
  cases hstep with
  | settle i err errstr u hu =>
    have hsettled := ((Step.of_step hu).books h.accounted).2.settled
    exact ⟨hsettled, List.prefix_rfl, List.prefix_rfl, List.prefix_rfl⟩
  | thread a p u hp hfree hpushes hu =>
    have hsettled := ((Step.of_step hu).books h.accounted).2.settled
    exact ⟨hsettled, List.prefix_append _ _, List.prefix_rfl, List.prefix_rfl⟩
  | drCb p report rest hp =>
    exact ⟨List.prefix_rfl, List.prefix_rfl, List.prefix_append _ _, List.prefix_rfl⟩
  | write p text texts reports hp =>
    exact ⟨List.prefix_rfl, List.prefix_rfl, List.prefix_rfl, List.prefix_append _ _⟩

theorem Reporting.Kept.extends [Fintype τ] {clock : Clock} {s t : Reporting τ}
    {as : List (ReportAction τ)} (h : s.Kept) (hrun : run (reportStep clock) s as = some t) :
    Reporting.Extends s t := by
  have hinv : t.Kept ∧ Reporting.Extends s t := by
    apply run_invariant (I := fun u : Reporting τ => u.Kept ∧ Reporting.Extends s u) ?_ hrun
      ⟨h, List.prefix_rfl, List.prefix_rfl, List.prefix_rfl, List.prefix_rfl⟩
    rintro u a v ⟨hu, hsu⟩ hstep
    have huv := (Reporting.Step.of_reportStep hstep).extends hu
    exact ⟨hu.step (.of_reportStep hstep), hsu.settled.trans huv.settled,
      hsu.taken.trans huv.taken, hsu.called.trans huv.called, hsu.written.trans huv.written⟩
  exact hinv.2

/-- No `dr_cb` is called any more when `_dr_cb` is destroyed. -/
theorem Reporting.Kept.called_of_gone [Fintype τ] {clock : Clock} {s t : Reporting τ}
    {as : List (ReportAction τ)} (h : s.Kept) (hgone : s.threads.Gone .drCb)
    (hrun : run (reportStep clock) s as = some t) : t.called = s.called := by
  have hinv : t.Kept ∧ t.threads.Gone .drCb ∧ t.called = s.called := by
    apply run_invariant (I := fun u : Reporting τ => u.Kept ∧ u.threads.Gone .drCb ∧
      u.called = s.called) ?_ hrun ⟨h, hgone, rfl⟩
    rintro u a v ⟨hu, hgone, hcalled⟩ hstep
    have hstep := Reporting.Step.of_reportStep hstep
    refine ⟨hu.step hstep, ?_⟩
    cases hstep with
    | settle i err errstr w hw =>
      exact ⟨(step_of_drCb_gone hu.alive hgone (.of_step hw)).1, hcalled⟩
    | thread a p w hp hfree hpushes hw =>
      exact ⟨(step_of_drCb_gone hu.alive hgone (.of_step hw)).1, hcalled⟩
    | drCb p report rest hp =>
      rw [hu.none_of_gone hgone p] at hp
      cases hp
    | write p text texts reports hp => exact ⟨hgone, hcalled⟩
  exact hinv.2.2

/-- What becomes of the messages that librdkafka has accepted and of the reports about them. -/
structure Books [Fintype τ] (clock : Clock) (s : Reporting τ) : Prop where
  /-- Each message is waiting in librdkafka's queue, or has been settled once; a poll has taken its
  report, or it waits for one. -/
  accounted : (s.threads.outq ++ (s.taken.map Prod.snd ++ s.threads.drq).map Report.msg).Perm
    (List.range s.threads.accepted.length)
  /-- Each poll hands the reports that it takes to `dr_cb`, in the order of their settling. -/
  handed : ∀ p, byWriter p s.taken = byWriter p s.called ++ (s.inPoll p).reports
  /-- `dr_cb` is told of each message at most once. -/
  once : (s.called.map fun call => call.2.msg).Nodup
  /-- It writes the text of each report with an error and the end of the line, and nothing else. -/
  printed : ∀ p, ((byWriter p s.called).flatMap fun report =>
      if report.err ≠ .ERR_NO_ERROR then [report.errstr, "\n"] else []) =
    byWriter p s.written ++ (s.inPoll p).texts
  /-- Reports are taken in the order of settling, and all this is extended at the end only. -/
  extended : ∀ as t, run (reportStep clock) s as = some t →
    s.taken.map Prod.snd ++ s.threads.drq <+: t.taken.map Prod.snd ++ t.threads.drq ∧
      s.taken <+: t.taken ∧ s.called <+: t.called ∧ s.written <+: t.written
  /-- When the handle is destroyed no other poll is in progress, and what is waiting, or settled and
  not taken, stays so for good. -/
  dropped : s.threads.handle = false → (∀ p, p ≠ .destructor → s.inPoll p = .none) ∧
    ∀ as t, run (reportStep clock) s as = some t → t.threads.outq = s.threads.outq ∧
      t.threads.drq = s.threads.drq ∧ t.threads.accepted = s.threads.accepted
  /-- When `_dr_cb` is destroyed its last call is over. -/
  gone : s.threads.Gone .drCb → (∀ p, s.inPoll p = .none) ∧
    ∀ as t, run (reportStep clock) s as = some t → t.called = s.called

/-- The books of a connected producer are right in every run, whatever librdkafka answers and
however the calls of `dr_cb` interleave. -/
theorem books_kept [Fintype τ] (clock : Clock) (topic : String) (stop : Bool)
    (as : List (ReportAction τ)) (s : Reporting τ)
    (hrun : run (reportStep clock) (Reporting.connected τ topic stop) as = some s) :
    Books clock s := by
  have h := Reporting.Kept.of_run hrun
  have hsettled : ∀ {u : Reporting τ}, u.Kept →
      u.taken.map Prod.snd ++ u.threads.drq = u.threads.settled := fun hu =>
    congrArg (· ++ _) hu.taken
  refine ⟨?_, h.handed, h.once, h.printed, ?_, ?_, ?_⟩
  · rw [hsettled h]
    exact h.accounted
  · intro bs t hbs
    have ht : t.Kept := run_invariant (fun _ _ _ h hstep => h.step (.of_reportStep hstep)) hbs h
    have hextends := h.extends hbs
    rw [hsettled h, hsettled ht]
    exact ⟨hextends.settled, hextends.taken, hextends.called, hextends.written⟩
  · intro hhandle
    refine ⟨fun p hp => h.none_of_closed hhandle hp, fun bs t hbs => ?_⟩
    obtain ⟨cs, hcs⟩ := threads_of_run hbs
    exact closed_of_run h.alive hhandle hcs
  · intro hgone
    exact ⟨h.none_of_gone hgone, fun bs t hbs => h.called_of_gone hgone hbs⟩

/-- Two messages fail. A `push` takes the report of the first and `bg_pool` that of the second, whose
`dr_cb` runs before the other and next to it; a third message is still queued when the producer is
destroyed. -/
def overlappingPolls : List (ReportAction Unit) :=
  ([.call () ⟨0, [1]⟩ false, .produce () .ERR_NO_ERROR, .switch () false, .poll () 0,
    .call () ⟨0, [2]⟩ false, .produce () .ERR_NO_ERROR, .switch () false, .poll () 0,
    .call () ⟨0, [3]⟩ false, .produce () .ERR_NO_ERROR, .switch () false,
    .settle 0 .ERR__MSG_TIMED_OUT "Local: Message timed out",
    .settle 0 .ERR__QUEUE_FULL "Local: Queue full", .poll () 1, .bgTest,
    .bgPoll 1] : List (Action Unit)).map .thread ++
  [.drCb .bgPool, .write .bgPool, .drCb (.push ()), .write (.push ()), .write .bgPool,
    .write (.push ())] ++
  ([.dtorStop, .bgTest, .dtorJoin, .dtorMember 0, .dtorMember 0, .dtorMember 0] :
    List (Action Unit)).map .thread

theorem books_kept_overlappingPolls :
    ∃ s, run (reportStep .hundredNanoseconds) (Reporting.connected Unit "" false)
        overlappingPolls = some s ∧
      s.threads.handle = false ∧ s.threads.outq = [2] ∧ s.called.map (fun c => c.2.msg) = [1, 0] ∧
      s.written.map Prod.snd =
        ["Local: Queue full", "Local: Message timed out", "\n", "\n"] ∧
      Books .hundredNanoseconds s :=
  ⟨_, rfl, rfl, rfl, rfl, rfl, books_kept .hundredNanoseconds "" false overlappingPolls _ rfl⟩

end TsKafka.BasicProducer
