import TsKafka.BasicProducer.Threads
import TsKafka.BasicProducer.Connect
import Mathlib.Data.List.Infix

/-!
# The destruction of a connected `basic_producer`

After a `connect` that returned true, the polling thread and the threads that push share the
handle without a lock. The destructor (`basic_producer.cpp:12-16`) raises `_stop`, joins the polling
thread, and the members are destroyed in the reverse order of their declarations
(`basic_producer.hpp:35-40`). The question is whether anything of it can be used too late.
-/

namespace TsKafka.BasicProducer
open RdKafka PartialRun

variable {τ : Type} [DecidableEq τ]

/-- The members as the threads see them: no call is in progress, and a polling thread is at the
beginning of `bg_pool`. -/
def World.running (τ : Type) (w : World) : State τ :=
  { connected τ w.bp.topic w.bp.stop with
    handle := w.bp.producer.isSome
    bg := if w.bp.pollTh.isSome then .test else .done }

omit [DecidableEq τ] in
/-- A `connect` that returns true leaves a handle and a thread that polls it. -/
theorem running_of_connect {env : ConnectEnv} {w w' : World} {sa : DefArg}
    {errstr errstr' : String} (h : connect env w sa errstr = .ok (true, w', errstr')) :
    w'.running τ = connected τ w'.bp.topic w'.bp.stop := by
  obtain ⟨p, _, -, rfl⟩ := connect_ok_true h
  rfl

/-! ## How far the destructor is -/

/-- The destructor has destroyed the member `m`. -/
def State.Gone (s : State τ) (m : Member) : Prop := ∃ left, s.dtor = .members left ∧ m ∉ left

/-- What holds at every moment of the life of a connected producer. -/
structure Alive (s : State τ) : Prop where
  /-- The destructor destroys the members in order. -/
  order : ∀ left, s.dtor = .members left → left <:+ membersInDestructionOrder
  /-- The handle is there until its member is destroyed. -/
  handle : s.handle = true ↔ ¬ s.Gone .producer
  /-- Its body is over only when the polling thread is. -/
  joined : ∀ left, s.dtor = .members left → s.bg = .done
  /-- It does not begin while a `push` is in progress. -/
  frames : s.dtor ≠ .notCalled → ∀ t, s.frame t = none

omit [DecidableEq τ] in
theorem alive_connected (topic : String) (stop : Bool) : Alive (connected τ topic stop) := by
  refine ⟨?_, ?_, ?_, ?_⟩
  · rintro left h
    cases h
  · refine iff_of_true rfl ?_
    rintro ⟨left, h, -⟩
    cases h
  · rintro left h
    cases h
  · intro h
    exact absurd rfl h

namespace Alive

variable {s s' : State τ}

omit [DecidableEq τ] in
/-- A step in which the destructor and the handle stay where they are. -/
theorem congr (h : Alive s) (hdtor : s'.dtor = s.dtor) (hhandle : s'.handle = s.handle)
    (hbg : s.bg = .done → s'.bg = .done)
    (hframe : s.dtor ≠ .notCalled → (∀ t, s.frame t = none) → ∀ t, s'.frame t = none) :
    Alive s' := by
  refine ⟨?_, ?_, ?_, ?_⟩
  · intro left hleft
    exact h.order left (hdtor ▸ hleft)
  · rw [hhandle, h.handle, State.Gone, State.Gone, hdtor]
  · intro left hleft
    exact hbg (h.joined left (hdtor ▸ hleft))
  · intro hcalled
    rw [hdtor] at hcalled
    exact hframe hcalled (h.frames hcalled)

omit [DecidableEq τ] in
/-- No `push` is in progress once the destructor is called. -/
theorem notCalled (h : Alive s) {t : τ} {f : Frame} (hf : s.frame t = some f) :
    s.dtor = .notCalled := by
  by_contra hcalled
  rw [h.frames hcalled t] at hf
  cases hf

omit [DecidableEq τ] in
/-- A step of a thread that is in `push`. -/
theorem inPush (h : Alive s) {t : τ} {f : Frame} (hf : s.frame t = some f)
    (hdtor : s'.dtor = s.dtor) (hhandle : s'.handle = s.handle) (hbg : s'.bg = s.bg) :
    Alive s' :=
  h.congr hdtor hhandle (fun hdone => hbg.trans hdone) fun hcalled =>
    absurd (h.notCalled hf) hcalled

omit [DecidableEq τ] in
/-- The destruction of the next member: the handle goes with `_producer`. -/
theorem destroyMember (h : Alive s) {m : Member} {left : List Member}
    (hdtor : s.dtor = .members (m :: left)) (n : Nat) : Alive (s.destroyMember m left n) := by
  have hsuffix := h.order _ hdtor
  have hnodup : (m :: left).Nodup := hsuffix.sublist.nodup (by decide)
  refine ⟨?_, ?_, ?_, ?_⟩
  · intro rest hrest
    cases hrest
    exact (List.suffix_cons m left).trans hsuffix
  · by_cases hm : m = .producer
    · subst hm
      refine iff_of_false (by simp [State.destroyMember]) ?_
      intro hnot
      exact hnot ⟨left, rfl, (List.nodup_cons.mp hnodup).1⟩
    · rw [s.destroyMember_of_ne hm, h.handle]
      simp [State.Gone, hdtor, Ne.symm hm]
  · intro _ _
    rw [State.destroyMember_bg]
    exact h.joined _ hdtor
  · intro _
    rw [State.destroyMember_frame]
    exact h.frames (by simp [hdtor])

theorem step {clock : Clock} {a : Action τ} (h : Alive s) (hstep : Step clock s a s') :
    Alive s' := by
  cases hstep with
  | call t data hasToken hdtor hframe =>
    exact h.congr rfl rfl id fun hcalled => absurd hdtor hcalled
  | produce t err f hframe hpc hhandle =>
    apply h.inPush hframe <;> unfold State.produced <;> split <;> rfl
  | switch t token f err hframe hpc =>
    apply h.inPush hframe <;> cases switchErr err (f.hasToken && token) <;> rfl
  | pollOk t n f hframe hpc hhandle => exact h.inPush hframe rfl rfl rfl
  | pollContinue t n f hframe hpc hhandle => exact h.inPush hframe rfl rfl rfl
  | bgTest hbg =>
    exact h.congr rfl rfl (fun hdone => absurd (hbg.symm.trans hdone) (by decide)) fun _ => id
  | bgPoll n hbg hhandle =>
    exact h.congr rfl rfl (fun hdone => absurd (hbg.symm.trans hdone) (by decide)) fun _ => id
  | settle i msg err errstr hmsg hhandle => exact h.congr rfl rfl id fun _ => id
  | dtorStop hdtor hframe =>
    refine ⟨?_, ?_, ?_, fun _ => hframe⟩
    · rintro left hleft
      cases hleft
    · rw [show ({ s with stop := true, dtor := .join } : State τ).handle = s.handle from rfl,
        h.handle]
      simp [State.Gone, hdtor]
    · rintro left hleft
      cases hleft
  | dtorJoin hdtor hbg =>
    refine ⟨?_, ?_, fun _ _ => hbg, fun _ => h.frames (by simp [hdtor])⟩
    · rintro left hleft
      cases hleft
      exact List.suffix_rfl
    · have hnot : ¬ s.Gone .producer := by simp [State.Gone, hdtor]
      refine iff_of_true (h.handle.mpr hnot) ?_
      rintro ⟨left, hleft, hgone⟩
      cases hleft
      exact hgone (by decide)
  | dtorMember n m left hdtor => exact h.destroyMember hdtor n

theorem of_run [Fintype τ] {clock : Clock} {as : List (Action τ)} (h : Alive s)
    (hrun : run (BasicProducer.step clock) s as = some s') : Alive s' :=
  run_invariant (fun _ _ _ hs hstep => hs.step (Step.of_step hstep)) hrun h

end Alive

/-! ## After the join -/

section Joined
variable [Fintype τ] {clock : Clock} {s t : State τ}

omit [Fintype τ] in
/-- A polling thread that has ended takes no step. -/
theorem step_of_bg_done {a : Action τ} (hbg : s.bg = .done) (hstep : Step clock s a t) :
    (∀ n, a ≠ .bgPoll n) ∧ t.bg = .done := by
  cases hstep with
  | bgTest hpc => exact absurd (hbg.symm.trans hpc) (by decide)
  | bgPoll n hpc hhandle => exact absurd (hbg.symm.trans hpc) (by decide)
  | produce u err f hframe hpc hhandle =>
    refine ⟨by simp, ?_⟩
    unfold State.produced
    split <;> exact hbg
  | switch u token f err hframe hpc =>
    refine ⟨by simp, ?_⟩
    cases switchErr err (f.hasToken && token) <;> exact hbg
  | dtorMember n member left hdtor =>
    refine ⟨by simp, ?_⟩
    rw [State.destroyMember_bg]
    exact hbg
  | _ => exact ⟨by simp, hbg⟩

theorem not_bgPoll_of_done {as : List (Action τ)} (hbg : s.bg = .done)
    (hrun : run (step clock) s as = some t) (n : Nat) : .bgPoll n ∉ as := by
  induction as generalizing s with
  | nil => exact List.not_mem_nil
  | cons a as ih =>
    obtain ⟨m, ha, hm⟩ := run_cons_eq_some.mp hrun
    obtain ⟨hnot, hdone⟩ := step_of_bg_done hbg (Step.of_step ha)
    rw [List.mem_cons, not_or]
    exact ⟨(hnot n).symm, ih hdone hm⟩

omit [DecidableEq τ] [Fintype τ] in
/-- `_dr_cb` is declared before `_producer`, so it is destroyed after it. -/
theorem producer_gone_of_drCb_gone (h : Alive s) (hgone : s.Gone .drCb) : s.Gone .producer := by
  obtain ⟨left, hleft, hnot⟩ := hgone
  have horder : ∀ left ∈ membersInDestructionOrder.tails, .drCb ∉ left → .producer ∉ left := by
    decide
  exact ⟨left, hleft, horder left ((List.mem_tails _ _).mpr (h.order left hleft)) hnot⟩

omit [Fintype τ] in
/-- Once `_dr_cb` is destroyed a step dispatches no report. -/
theorem step_of_drCb_gone {a : Action τ} (h : Alive s) (hgone : s.Gone .drCb)
    (hstep : Step clock s a t) : t.Gone .drCb ∧ t.reported = s.reported := by
  obtain ⟨left, hleft, hnot⟩ := hgone
  have hhandle : s.handle = false := by
    rw [Bool.eq_false_iff, ne_eq, h.handle, not_not]
    exact producer_gone_of_drCb_gone h ⟨left, hleft, hnot⟩
  have hframes := h.frames (by simp [hleft])
  have hbg := h.joined left hleft
  cases hstep with
  | call u data hasToken hdtor hframe => exact absurd (hleft.symm.trans hdtor) (by simp)
  | produce u err f hframe hpc hlive => exact absurd ((hframes u).symm.trans hframe) (by simp)
  | switch u token f err hframe hpc => exact absurd ((hframes u).symm.trans hframe) (by simp)
  | pollOk u n f hframe hpc hlive => exact absurd ((hframes u).symm.trans hframe) (by simp)
  | pollContinue u n f hframe hpc hlive => exact absurd ((hframes u).symm.trans hframe) (by simp)
  | bgTest hpc => exact absurd (hbg.symm.trans hpc) (by decide)
  | bgPoll n hpc hlive => exact absurd (hbg.symm.trans hpc) (by decide)
  | settle i msg err errstr hmsg hlive => exact absurd (hhandle.symm.trans hlive) (by decide)
  | dtorStop hdtor hframe => exact absurd (hleft.symm.trans hdtor) (by simp)
  | dtorJoin hdtor hbg => exact absurd (hleft.symm.trans hdtor) (by simp)
  | dtorMember n member rest hdtor =>
    cases hleft.symm.trans hdtor
    have hmember : member ≠ .producer := by
      rintro rfl
      have hproducer := h.handle.not.mp (by simp [hhandle])
      rw [not_not] at hproducer
      obtain ⟨left', hleft', hgone'⟩ := hproducer
      cases hleft.symm.trans hleft'
      exact hgone' List.mem_cons_self
    rw [s.destroyMember_of_ne hmember]
    exact ⟨⟨rest, rfl, fun hmem => hnot (List.mem_cons_of_mem _ hmem)⟩, rfl⟩

/-- What holds at every moment of the life of a connected producer and of its destruction. -/
structure Teardown (clock : Clock) (s : State τ) : Prop where
  /-- `bg_pool` is in a `poll` only while the handle has not been destroyed. -/
  polls : s.bg = .poll → s.handle = true
  /-- So is every `push`. -/
  pushes : ∀ t f, s.frame t = some f → s.handle = true
  /-- When the join has returned, `bg_pool` has ended and never polls again. -/
  joined : ∀ left, s.dtor = .members left → s.bg = .done ∧
    ∀ as t, run (step clock) s as = some t → ∀ n, .bgPoll n ∉ as
  /-- When `_dr_cb` is destroyed the handle has been destroyed before, and no report is handed to
  `_dr_cb` any more. -/
  drCb : s.Gone .drCb → s.handle = false ∧
    ∀ as t, run (step clock) s as = some t → t.reported = s.reported

theorem Alive.teardown (h : Alive s) : Teardown clock s := by
  have hlive : (∀ left, s.dtor ≠ .members left) → s.handle = true := by
    intro hdtor
    rw [h.handle]
    rintro ⟨left, hleft, -⟩
    exact hdtor left hleft
  refine ⟨?_, ?_, ?_, ?_⟩
  · intro hbg
    apply hlive
    intro left hleft
    exact absurd ((h.joined left hleft).symm.trans hbg) (by decide)
  · intro u f hf
    apply hlive
    intro left hleft
    exact absurd ((h.notCalled hf).symm.trans hleft) (by simp)
  · intro left hleft
    have hbg := h.joined left hleft
    exact ⟨hbg, fun as t hrun n => not_bgPoll_of_done hbg hrun n⟩
  · intro hgone
    refine ⟨?_, fun as t hrun => ?_⟩
    · rw [Bool.eq_false_iff, ne_eq, h.handle, not_not]
      exact producer_gone_of_drCb_gone h hgone
    · have hinv : Alive t ∧ t.Gone .drCb ∧ t.reported = s.reported := by
        apply run_invariant (I := fun u : State τ => Alive u ∧ u.Gone .drCb ∧
          u.reported = s.reported) ?_ hrun ⟨h, hgone, rfl⟩
        rintro u a v ⟨hu, hgone, hreported⟩ ha
        have hstep := Step.of_step ha
        obtain ⟨hgone', hsame⟩ := step_of_drCb_gone hu hgone hstep
        exact ⟨hu.step hstep, hgone', hsame.trans hreported⟩
      exact hinv.2.2

end Joined

/-- After a `connect` that returned true, whatever is pushed and whenever the producer is destroyed,
nothing of it is used too late. -/
theorem teardown_of_connect (τ : Type) [DecidableEq τ] [Fintype τ] (clock : Clock)
    (env : ConnectEnv) (w w' : World) (sa : DefArg) (errstr errstr' : String)
    (hconnect : connect env w sa errstr = .ok (true, w', errstr'))
    (as : List (Action τ)) (s : State τ)
    (hrun : run (step clock) (w'.running τ) as = some s) : Teardown clock s := by
  rw [running_of_connect hconnect] at hrun
  exact ((alive_connected w'.bp.topic w'.bp.stop).of_run hrun).teardown

/-- One record is pushed and polled, and the producer is destroyed. -/
def pushAndDestroy : List (Action Unit) :=
  [.call () ⟨0, [7]⟩ false, .produce () .ERR_NO_ERROR, .switch () false, .settle 0 .ERR_NO_ERROR "",
    .poll () 1, .bgTest, .bgPoll 0, .dtorStop, .bgTest, .dtorJoin] ++
    membersInDestructionOrder.map fun _ => .dtorMember 0

/-- The life of a producer with one record. -/
theorem teardown_of_connect_once :
    ∃ w' errstr' s,
      connect (.accepting none) (.constructed false) (localArgs "test") "" =
        .ok (true, w', errstr') ∧
      run (step .hundredNanoseconds) (w'.running Unit) pushAndDestroy = some s ∧
      s.dtor = .members [] ∧ Teardown .hundredNanoseconds s :=
  ⟨_, _, _, rfl, rfl, rfl, teardown_of_connect Unit .hundredNanoseconds (.accepting none)
    (.constructed false) _ (localArgs "test") "" _ rfl pushAndDestroy _ rfl⟩

end TsKafka.BasicProducer
