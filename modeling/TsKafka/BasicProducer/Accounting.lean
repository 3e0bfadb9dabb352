import TsKafka.BasicProducer.Destruction
import TsKafka.Library.Termination
import Mathlib.Data.List.Perm.Basic

/-!
# What becomes of every accepted message, and the end of a producer

Two results about all runs of a connected `basic_producer` and its destruction. The first follows
the messages that librdkafka has accepted: each is waiting in its queue or settled once, and stays
where it is when the handle is destroyed. The second says that the destructor comes to its end under
every schedule.
-/

namespace TsKafka.BasicProducer
open RdKafka PartialRun

variable {τ : Type} {s s' t : State τ}

/-! ## The places of a message -/

/-- The reports that librdkafka has settled, in order, whether `dr_cb` has got them or not. -/
def State.settled (s : State τ) : List Report := s.reported ++ s.drq

/-- Each accepted message is in one place, and there once. -/
def State.Accounted (s : State τ) : Prop :=
  (s.outq ++ s.settled.map Report.msg).Perm (List.range s.accepted.length)

theorem settled_dispatch (s : State τ) (n : Nat) : (s.dispatch n).settled = s.settled := by
  simp [State.settled, State.dispatch, List.append_assoc]

theorem State.Accounted.congr (h : s.Accounted) (houtq : t.outq = s.outq)
    (hsettled : t.settled = s.settled) (haccepted : t.accepted = s.accepted) : t.Accounted := by
  unfold State.Accounted at h ⊢
  rwa [houtq, hsettled, haccepted]

theorem State.Accounted.dispatch (h : s.Accounted) (n : Nat) : (s.dispatch n).Accounted :=
  h.congr rfl (settled_dispatch s n) rfl

/-- A settled message moves from the queue to the reports. -/
theorem State.Accounted.settle (h : s.Accounted) {i msg : Nat} (hmsg : s.outq[i]? = some msg)
    (err : ErrorCode) (errstr : String) : (s.settle i msg err errstr).Accounted := by
  obtain ⟨hi, rfl⟩ := List.getElem?_eq_some_iff.mp hmsg
  have hqueue : (s.outq[i] :: s.outq.eraseIdx i).Perm s.outq := List.getElem_cons_eraseIdx_perm hi
  have hsettled : (s.settle i s.outq[i] err errstr).settled.map Report.msg =
      s.settled.map Report.msg ++ [s.outq[i]] := by
    simp [State.settled, State.settle]
  unfold State.Accounted at h ⊢
  rw [hsettled]
  show (s.outq.eraseIdx i ++ (s.settled.map Report.msg ++ [s.outq[i]])).Perm
    (List.range s.accepted.length)
  rw [← List.append_assoc]
  refine (List.perm_append_singleton _ _).trans ?_
  rw [← List.cons_append]
  exact (hqueue.append_right _).trans h

/-- What one step does to the reports: they are extended at the end. -/
structure Extends (s t : State τ) : Prop where
  settled : s.settled <+: t.settled
  reported : s.reported <+: t.reported

theorem extends_of_eq (hsettled : t.settled = s.settled) (hreported : t.reported = s.reported) :
    Extends s t :=
  ⟨hsettled ▸ List.prefix_rfl, hreported ▸ List.prefix_rfl⟩

/-- A step that dispatches `n` reports. -/
theorem extends_of_dispatch {n : Nat} (hsettled : t.settled = (s.dispatch n).settled)
    (hreported : t.reported = (s.dispatch n).reported) : Extends s t := by
  constructor
  · rw [hsettled, settled_dispatch]
  · rw [hreported]
    exact List.prefix_append _ _

theorem accounted_connected (topic : String) (stop : Bool) :
    (connected τ topic stop).Accounted := List.Perm.refl _

variable [DecidableEq τ]

/-- An accepted message is queued under the next number. -/
theorem State.Accounted.produced (h : s.Accounted) (clock : Clock) (t : τ) (f : Frame)
    (err : ErrorCode) : (s.produced clock t f err).Accounted := by
  unfold State.produced
  split
  · unfold State.Accounted at h ⊢
    simp only [List.length_append, List.length_singleton, List.range_succ]
    show (s.outq ++ [s.accepted.length] ++ s.settled.map Report.msg).Perm _
    rw [List.append_assoc]
    refine List.Perm.trans ?_ (h.append_right [s.accepted.length])
    rw [List.append_assoc]
    exact List.perm_append_comm.append_left _
  · exact h.congr rfl rfl rfl

/-- One step keeps the books. -/
theorem Step.books {clock : Clock} {a : Action τ} (hstep : Step clock s a t)
    (haccounted : s.Accounted) : t.Accounted ∧ Extends s t := by
  cases hstep with
  | produce u err f hframe hpc hhandle =>
    refine ⟨haccounted.produced clock u f err, ?_⟩
    unfold State.produced
    split <;> exact extends_of_eq rfl rfl
  | switch u token f err hframe hpc =>
    cases switchErr err (f.hasToken && token) <;>
      exact ⟨haccounted.congr rfl rfl rfl, extends_of_eq rfl rfl⟩
  | pollOk u n f hframe hpc hhandle =>
    exact ⟨(haccounted.dispatch n).congr rfl rfl rfl, extends_of_dispatch rfl rfl⟩
  | pollContinue u n f hframe hpc hhandle =>
    exact ⟨(haccounted.dispatch n).congr rfl rfl rfl, extends_of_dispatch rfl rfl⟩
  | bgPoll n hbg hhandle =>
    exact ⟨(haccounted.dispatch n).congr rfl rfl rfl, extends_of_dispatch rfl rfl⟩
  | settle i msg err errstr hmsg hhandle =>
    refine ⟨haccounted.settle hmsg err errstr, ?_, List.prefix_rfl⟩
    exact ⟨[⟨msg, err, errstr⟩], by simp [State.settled, State.settle]⟩
  | dtorMember n m left hdtor =>
    unfold State.destroyMember
    split
    · exact ⟨(haccounted.dispatch n).congr rfl rfl rfl, extends_of_dispatch rfl rfl⟩
    · exact ⟨haccounted.congr rfl rfl rfl, extends_of_eq rfl rfl⟩
  | _ => exact ⟨haccounted.congr rfl rfl rfl, extends_of_eq rfl rfl⟩

/-- Accepted messages keep their numbers. -/
theorem Step.accepted_prefix {clock : Clock} {a : Action τ} (hstep : Step clock s a t) :
    s.accepted <+: t.accepted := by
  cases hstep with
  | produce u err f hframe hpc hhandle =>
    unfold State.produced
    split
    · exact List.prefix_append _ _
    · exact List.prefix_rfl
  | switch u token f err hframe hpc =>
    cases switchErr err (f.hasToken && token) <;> exact List.prefix_rfl
  | dtorMember n m left hdtor =>
    unfold State.destroyMember
    split <;> exact List.prefix_rfl
  | _ => exact List.prefix_rfl

/-- Only librdkafka settles a message, and it settles one of its queue. -/
theorem Step.mem_settled {clock : Clock} {a : Action τ} (hstep : Step clock s a t) {r : Report}
    (hr : r ∈ t.settled) :
    r ∈ s.settled ∨ ∃ i, a = .settle i r.err r.errstr ∧ s.outq[i]? = some r.msg := by
  have hsame : t.settled = s.settled →
      r ∈ s.settled ∨ ∃ i, a = .settle i r.err r.errstr ∧ s.outq[i]? = some r.msg :=
    fun h => .inl (h ▸ hr)
  cases hstep with
  | produce u err f hframe hpc hhandle =>
    apply hsame
    unfold State.produced
    split <;> rfl
  | switch u token f err hframe hpc =>
    apply hsame
    cases switchErr err (f.hasToken && token) <;> rfl
  | pollOk u n f hframe hpc hhandle => exact hsame (settled_dispatch s n)
  | pollContinue u n f hframe hpc hhandle => exact hsame (settled_dispatch s n)
  | bgPoll n hbg hhandle => exact hsame (settled_dispatch s n)
  | settle i msg err errstr hmsg hhandle =>
    have hsettled : (s.settle i msg err errstr).settled = s.settled ++ [⟨msg, err, errstr⟩] := by
      simp [State.settled, State.settle]
    rw [hsettled, List.mem_append, List.mem_singleton] at hr
    rcases hr with hold | rfl
    · exact .inl hold
    · exact .inr ⟨i, rfl, hmsg⟩
  | dtorMember n m left hdtor =>
    apply hsame
    unfold State.destroyMember
    split
    · exact settled_dispatch s n
    · rfl
  | _ => exact hsame rfl

/-- Once the handle is destroyed a step leaves the messages where they are. -/
theorem Step.closed {clock : Clock} {a : Action τ} (hstep : Step clock s a t) (halive : Alive s)
    (hhandle : s.handle = false) :
    t.handle = false ∧ t.outq = s.outq ∧ t.drq = s.drq ∧ t.accepted = s.accepted := by
  have hgone : s.Gone .producer := by
    have hnot := halive.handle.not.mp (by simp [hhandle])
    rwa [not_not] at hnot
  obtain ⟨left, hleft, hnot⟩ := hgone
  have hframes := halive.frames (by simp [hleft])
  cases hstep with
  | produce u err f hframe hpc hlive => exact absurd ((hframes u).symm.trans hframe) (by simp)
  | switch u token f err hframe hpc => exact absurd ((hframes u).symm.trans hframe) (by simp)
  | pollOk u n f hframe hpc hlive => exact absurd ((hframes u).symm.trans hframe) (by simp)
  | pollContinue u n f hframe hpc hlive => exact absurd ((hframes u).symm.trans hframe) (by simp)
  | bgPoll n hpc hlive => exact absurd (hhandle.symm.trans hlive) (by decide)
  | settle i msg err errstr hmsg hlive => exact absurd (hhandle.symm.trans hlive) (by decide)
  | dtorMember n m rest hdtor =>
    cases hleft.symm.trans hdtor
    have hm : m ≠ .producer := by
      rintro rfl
      exact hnot List.mem_cons_self
    rw [s.destroyMember_of_ne hm]
    exact ⟨hhandle, rfl, rfl, rfl⟩
  | _ => exact ⟨hhandle, rfl, rfl, rfl⟩

/-- What is waiting or settled and not taken by a `poll` when the handle is destroyed stays so. -/
theorem closed_of_run [Fintype τ] {clock : Clock} {as : List (Action τ)} (halive : Alive s)
    (hhandle : s.handle = false) (hrun : run (step clock) s as = some t) :
    t.outq = s.outq ∧ t.drq = s.drq ∧ t.accepted = s.accepted := by
  have hinv : Alive t ∧ t.handle = false ∧ t.outq = s.outq ∧ t.drq = s.drq ∧
      t.accepted = s.accepted := by
    apply run_invariant (I := fun u : State τ => Alive u ∧ u.handle = false ∧ u.outq = s.outq ∧
      u.drq = s.drq ∧ u.accepted = s.accepted) ?_ hrun ⟨halive, hhandle, rfl, rfl, rfl⟩
    rintro u a v ⟨hu, hclosed, houtq, hdrq, haccepted⟩ h
    have hstep := Step.of_step h
    obtain ⟨hclosed', houtq', hdrq', haccepted'⟩ := hstep.closed hu hclosed
    exact ⟨hu.step hstep, hclosed', houtq'.trans houtq, hdrq'.trans hdrq,
      haccepted'.trans haccepted⟩
  exact hinv.2.2

/-! ## The destructor comes to its end -/

/-- How many steps the polling thread still makes when `_stop` is raised. -/
def BgPc.rank : BgPc → ℕ
  | .poll => 2
  | .test => 1
  | .done => 0

/-- How many steps the destructor still makes. -/
def DtorPc.rank : DtorPc → ℕ
  | .notCalled => 0
  | .join => 7
  | .members left => left.length

/-- A bound on the steps of a producer whose destructor has been called. -/
def State.rank (s : State τ) : ℕ := s.outq.length + s.bg.rank + s.dtor.rank

/-- Only the destructor raises `_stop`, and nothing takes it back. -/
theorem Step.raised {clock : Clock} {a : Action τ} (hstep : Step clock s a t)
    (h : s.dtor ≠ .notCalled → s.stop = true) : t.dtor ≠ .notCalled → t.stop = true := by
  cases hstep with
  | produce u err f hframe hpc hhandle =>
    unfold State.produced
    split <;> exact h
  | switch u token f err hframe hpc => cases switchErr err (f.hasToken && token) <;> exact h
  | dtorStop hdtor hframe => exact fun _ => rfl
  | dtorJoin hdtor hbg => exact fun _ => h (by simp [hdtor])
  | dtorMember n m left hdtor =>
    intro _
    unfold State.destroyMember
    split <;> exact h (by simp [hdtor])
  | _ => exact h

/-- The destructor has been called. -/
structure Closing (s : State τ) : Prop where
  alive : Alive s
  called : s.dtor ≠ .notCalled
  stop : s.stop = true

theorem Closing.step {clock : Clock} {a : Action τ} (h : Closing s) (hstep : Step clock s a t) :
    Closing t ∧ t.rank < s.rank := by
  have halive := h.alive.step hstep
  have hframes := h.alive.frames h.called
  cases hstep with
  | call u data hasToken hdtor hframe => exact absurd hdtor h.called
  | produce u err f hframe hpc hlive => exact absurd ((hframes u).symm.trans hframe) (by simp)
  | switch u token f err hframe hpc => exact absurd ((hframes u).symm.trans hframe) (by simp)
  | pollOk u n f hframe hpc hlive => exact absurd ((hframes u).symm.trans hframe) (by simp)
  | pollContinue u n f hframe hpc hlive => exact absurd ((hframes u).symm.trans hframe) (by simp)
  | bgTest hbg =>
    refine ⟨⟨halive, h.called, h.stop⟩, ?_⟩
    simp [State.rank, hbg, h.stop, BgPc.rank]
  | bgPoll n hbg hhandle =>
    refine ⟨⟨halive, h.called, h.stop⟩, ?_⟩
    simp [State.rank, State.dispatch, hbg, BgPc.rank]
  | settle i msg err errstr hmsg hhandle =>
    refine ⟨⟨halive, h.called, h.stop⟩, ?_⟩
    obtain ⟨hi, -⟩ := List.getElem?_eq_some_iff.mp hmsg
    simp only [State.rank, State.settle, List.length_eraseIdx_of_lt hi]
    omega
  | dtorStop hdtor hframe => exact absurd hdtor h.called
  | dtorJoin hdtor hbg =>
    refine ⟨⟨halive, by simp, h.stop⟩, ?_⟩
    simp [State.rank, hdtor, DtorPc.rank, membersInDestructionOrder]
  | dtorMember n m left hdtor =>
    have hstop : (s.destroyMember m left n).stop = s.stop := by
      unfold State.destroyMember
      split <;> rfl
    have houtq : (s.destroyMember m left n).outq = s.outq := by
      unfold State.destroyMember
      split <;> rfl
    have hleft : (s.destroyMember m left n).dtor = .members left := rfl
    refine ⟨⟨halive, by simp [hleft], hstop.trans h.stop⟩, ?_⟩
    simp [State.rank, houtq, hleft, hdtor, DtorPc.rank]

/-- The destructor of a producer goes on until every member is destroyed. -/
theorem Closing.goes_on [Fintype τ] {clock : Clock} (h : Closing s) :
    s.dtor = .members [] ∨ ∃ a, (BasicProducer.step clock s a).isSome := by
  cases hdtor : s.dtor with
  | notCalled => exact absurd hdtor h.called
  | members left =>
    cases left with
    | nil => exact .inl rfl
    | cons m left =>
      refine .inr ⟨.dtorMember 0, ?_⟩
      simp [BasicProducer.step, hdtor]
  | join =>
    right
    cases hbg : s.bg with
    | test => exact ⟨.bgTest, by simp [BasicProducer.step, hbg]⟩
    | done => exact ⟨.dtorJoin, by simp [BasicProducer.step, hdtor, hbg]⟩
    | poll =>
      -- the handle is destroyed only after the join
      have hhandle : s.handle = true := by
        rw [h.alive.handle]
        rintro ⟨left, hleft, -⟩
        cases hdtor.symm.trans hleft
      exact ⟨.bgPoll 0, by simp [BasicProducer.step, hbg, hhandle]⟩

omit [DecidableEq τ] in
theorem State.rank_le (h : Alive s) : s.rank ≤ s.outq.length + 9 := by
  have hbg : s.bg.rank ≤ 2 := by cases s.bg <;> decide
  have hdtor : s.dtor.rank ≤ 7 := by
    cases hdtor : s.dtor with
    | notCalled => exact Nat.zero_le 7
    | join => exact le_rfl
    | members left =>
      exact (h.order left hdtor).length_le.trans (by decide)
  unfold State.rank
  omega

/-- Once its destructor is called, a connected producer is destroyed under every schedule of the
destructor, the polling thread and librdkafka, within a bounded number of steps and without getting
stuck. -/
theorem destructor_ends [Fintype τ] (clock : Clock) (topic : String) (stop : Bool)
    (as : List (Action τ)) (s : State τ)
    (hrun : run (step clock) (connected τ topic stop) as = some s) (hcalled : s.dtor ≠ .notCalled) :
    EndsWithin (step clock) (s.outq.length + 9) (fun t => t.dtor = .members []) s := by
  have halive : Alive s := (alive_connected topic stop).of_run hrun
  have hstop : s.dtor ≠ .notCalled → s.stop = true :=
    run_invariant (I := fun u : State τ => u.dtor ≠ .notCalled → u.stop = true)
      (fun u a v hu h => (Step.of_step h).raised hu) hrun (absurd rfl)
  apply EndsWithin.of_rank (I := Closing) State.rank ?_ ?_ ?_ ⟨halive, hcalled, hstop hcalled⟩
    (State.rank_le halive)
  · exact fun s a t hs h => (hs.step (Step.of_step h)).1
  · exact fun s a t hs h => (hs.step (Step.of_step h)).2
  · exact fun s hs => hs.goes_on

/-- A producer whose destructor is called while a record is queued and a report waits. -/
def destroyedWithQueue : List (Action Unit) :=
  [.call () ⟨0, [1]⟩ false, .produce () .ERR_NO_ERROR, .switch () false, .poll () 0,
    .call () ⟨0, [2]⟩ false, .produce () .ERR_NO_ERROR, .switch () false, .poll () 0,
    .settle 0 .ERR_NO_ERROR "", .bgTest, .dtorStop]

theorem destructor_ends_withQueue :
    ∃ s, run (step .hundredNanoseconds) (connected Unit "" false) destroyedWithQueue = some s ∧
      EndsWithin (step .hundredNanoseconds) 10 (fun t => t.dtor = .members []) s :=
  ⟨_, rfl, destructor_ends .hundredNanoseconds "" false destroyedWithQueue _ rfl (by decide)⟩

end TsKafka.BasicProducer
