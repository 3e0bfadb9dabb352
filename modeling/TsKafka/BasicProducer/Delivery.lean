import TsKafka.BasicProducer.Threads

/-!
# What becomes of the records whose `push` returned `ok`

The header promises that `producer_status::ok` "always means the data has been correctly sent"
(`basic_producer.hpp:54`). `push` returns it when `produce` has enqueued the record; the report
that `dr_cb` gets later only goes to `std::cout`, and the destructor neither waits for reports nor
flushes. This file follows each accepted message to its end.
-/

namespace TsKafka.BasicProducer
open RdKafka PartialRun

variable {τ : Type}

/-- The message `id` is lost: its report carries an error, or it was still in librdkafka's queue
when the handle was destroyed. -/
def State.Lost (s : State τ) (id : Nat) : Prop :=
  (∃ report ∈ s.drq ++ s.reported, report.msg = id ∧ report.err ≠ .ERR_NO_ERROR) ∨
    (s.handle = false ∧ id ∈ s.outq)

/-- The message `id` is the record that thread `t` pushed as `data`. -/
def State.Carries (clock : Clock) (s : State τ) (id : Nat) (t : τ) (data : TimedDataRaw) : Prop :=
  s.accepted[id]? = some (t, produceArgs clock s.topic data)

/-- `ok` means sent: every push that returned `ok` has its record as a message of librdkafka, and
that message is not lost. -/
def State.OkMeansSent (clock : Clock) (s : State τ) : Prop :=
  ∀ t r, (t, r) ∈ s.returned → r.status = .ok →
    ∃ id, r.msg = some id ∧ s.Carries clock id t r.data ∧ ¬ s.Lost id

/-- The condition on a step: librdkafka settles a message with success, and the handle is
destroyed only when librdkafka's queue is empty. -/
def Lossless (s : State τ) : Action τ → Prop
  | .settle _ err _ => err = .ERR_NO_ERROR
  | .dtorMember _ => (∃ left, s.dtor = .members (.producer :: left)) → s.outq = []
  | _ => True

/-! ## Each message belongs to one push -/

/-- Accepted messages and the calls that produced them. -/
structure Messages (clock : Clock) (s : State τ) : Prop where
  frame : ∀ t f, s.frame t = some f →
    if f.committed then ∃ id, f.msg = some id ∧ s.Carries clock id t f.data else f.msg = none
  returned : ∀ t r, (t, r) ∈ s.returned → r.status = .ok →
    ∃ id, r.msg = some id ∧ s.Carries clock id t r.data
  covered : ∀ id < s.accepted.length, (∃ t f, s.frame t = some f ∧ f.msg = some id) ∨
    ∃ t r, (t, r) ∈ s.returned ∧ r.status = .ok ∧ r.msg = some id
  outq : ∀ id ∈ s.outq, id < s.accepted.length
  reports : ∀ report ∈ s.drq ++ s.reported, report.msg < s.accepted.length

theorem messages_connected (clock : Clock) (topic : String) (stop : Bool) :
    Messages clock (connected τ topic stop) := by
  constructor <;> simp [connected]

namespace Messages

variable {clock : Clock} {s s' : State τ}

/-- A step that changes neither the calls nor the messages. -/
theorem congr (h : Messages clock s) (htopic : s'.topic = s.topic)
    (haccepted : s'.accepted = s.accepted) (hframe : s'.frame = s.frame)
    (hreturned : s'.returned = s.returned) (houtq : ∀ id ∈ s'.outq, id ∈ s.outq)
    (hreports : ∀ report ∈ s'.drq ++ s'.reported,
      report ∈ s.drq ++ s.reported ∨ report.msg ∈ s.outq) : Messages clock s' := by
  constructor
  · simpa only [hframe, State.Carries, haccepted, htopic] using h.frame
  · simpa only [hreturned, State.Carries, haccepted, htopic] using h.returned
  · simpa only [haccepted, hframe, hreturned] using h.covered
  · intro id hid
    rw [haccepted]
    exact h.outq id (houtq id hid)
  · intro report hreport
    rw [haccepted]
    rcases hreports report hreport with hold | hnew
    · exact h.reports report hold
    · exact h.outq _ hnew

theorem dispatch (h : Messages clock s) (n : Nat) : Messages clock (s.dispatch n) := by
  refine h.congr rfl rfl rfl rfl (fun _ hid => hid) fun report hreport => .inl ?_
  simp only [State.dispatch, List.mem_append] at hreport ⊢
  rcases hreport with hdrop | hold | htake
  · exact .inl (List.mem_of_mem_drop hdrop)
  · exact .inr hold
  · exact .inl (List.mem_of_mem_take htake)

theorem settle (h : Messages clock s) {i msg : Nat} (hmsg : s.outq[i]? = some msg)
    (err : ErrorCode) (errstr : String) : Messages clock (s.settle i msg err errstr) := by
  refine h.congr rfl rfl rfl rfl (fun _ hid => List.mem_of_mem_eraseIdx hid)
    fun report hreport => ?_
  simp only [State.settle, List.mem_append, List.mem_singleton] at hreport ⊢
  rcases hreport with (hold | rfl) | hold
  · exact .inl (.inl hold)
  · exact .inr (List.mem_of_getElem? hmsg)
  · exact .inl (.inr hold)

/-- What was carried before one more message is accepted is carried after. -/
theorem carries_append {id : Nat} {t u : τ} {data : TimedDataRaw} {args : ProduceArgs}
    (h : s.accepted[id]? = some (t, produceArgs clock s.topic data)) :
    (s.accepted ++ [(u, args)])[id]? = some (t, produceArgs clock s.topic data) := by
  rw [List.getElem?_append_left (List.getElem?_eq_some_iff.mp h).1]
  exact h

variable [DecidableEq τ]

/-- A call whose place changes while its message stays as it is. -/
theorem setFrame (h : Messages clock s) {t : τ} {f f' : Frame} (hframe : s.frame t = some f)
    (hdata : f'.data = f.data) (hmsg : f'.msg = f.msg) (hcommitted : f'.committed = f.committed) :
    Messages clock (s.setFrame t f') := by
  refine ⟨fun u g hg => ?_, h.returned, fun id hid => ?_, h.outq, h.reports⟩
  · by_cases hu : u = t
    · subst hu
      simp only [State.setFrame, Function.update_self, Option.some.injEq] at hg
      subst hg
      rw [hcommitted, hmsg, hdata]
      exact h.frame u f hframe
    · simp only [State.setFrame, Function.update_of_ne hu] at hg
      exact h.frame u g hg
  · rcases h.covered id hid with ⟨u, g, hg, hid⟩ | hret
    · left
      by_cases hu : u = t
      · subst hu
        rw [hframe] at hg
        cases hg
        exact ⟨u, f', by simp [State.setFrame], hmsg.trans hid⟩
      · exact ⟨u, g, by simpa [State.setFrame, hu] using hg, hid⟩
    · exact .inr hret

theorem enter (h : Messages clock s) {t : τ} (hframe : s.frame t = none) (data : TimedDataRaw)
    (hasToken : Bool) : Messages clock (s.enter t data hasToken) := by
  refine ⟨fun u g hg => ?_, h.returned, fun id hid => ?_, h.outq, h.reports⟩
  · by_cases hu : u = t
    · subst hu
      simp only [State.enter, State.setFrame, Function.update_self, Option.some.injEq] at hg
      subst hg
      simp [Frame.committed]
    · simp only [State.enter, State.setFrame, Function.update_of_ne hu] at hg
      exact h.frame u g hg
  · rcases h.covered id hid with ⟨u, g, hg, hid⟩ | hret
    · have hu : u ≠ t := by
        rintro rfl
        rw [hframe] at hg
        cases hg
      exact .inl ⟨u, g, by simpa [State.enter, State.setFrame, hu] using hg, hid⟩
    · exact .inr hret

theorem accept (h : Messages clock s) {t : τ} {f : Frame} (hframe : s.frame t = some f)
    (hpc : f.pc = .produce) : Messages clock (s.produced clock t f .ERR_NO_ERROR) := by
  have hnone : f.msg = none := by
    have := h.frame t f hframe
    simpa [Frame.committed, hpc] using this
  refine ⟨fun u g hg => ?_, fun u r hr hok => ?_, fun id hid => ?_, fun id hid => ?_,
    fun report hreport => ?_⟩
  · by_cases hu : u = t
    · subst hu
      simp only [State.produced, State.setFrame, if_true, Function.update_self,
        Option.some.injEq] at hg
      subst hg
      simp [Frame.committed, State.Carries, State.produced, State.setFrame]
    · simp only [State.produced, State.setFrame, if_true, Function.update_of_ne hu] at hg
      have hold := h.frame u g hg
      split at hold
      · obtain ⟨id, hid, hcarries⟩ := hold
        simp only [*, if_true]
        exact ⟨id, rfl, carries_append hcarries⟩
      · simp [*]
  · obtain ⟨id, hid, hcarries⟩ := h.returned u r hr hok
    exact ⟨id, hid, carries_append hcarries⟩
  · simp only [State.produced, State.setFrame, if_true, List.length_append, List.length_singleton,
      Nat.lt_succ_iff_lt_or_eq] at hid
    rcases hid with hid | rfl
    · rcases h.covered id hid with ⟨u, g, hg, hgid⟩ | hret
      · have hu : u ≠ t := by
          rintro rfl
          rw [hframe] at hg
          cases hg
          rw [hnone] at hgid
          cases hgid
        exact .inl ⟨u, g, by simpa [State.produced, State.setFrame, hu] using hg, hgid⟩
      · exact .inr hret
    · exact .inl ⟨t, { f with pc := .switch .ERR_NO_ERROR, msg := some s.accepted.length },
        by simp [State.produced, State.setFrame], rfl⟩
  · simp only [State.produced, State.setFrame, if_true, List.mem_append, List.mem_singleton,
      List.length_append, List.length_singleton] at hid ⊢
    rcases hid with hid | rfl
    · exact Nat.lt_succ_of_lt (h.outq id hid)
    · exact Nat.lt_succ_self _
  · have := h.reports report hreport
    simp only [State.produced, State.setFrame, if_true, List.length_append, List.length_singleton]
    omega

/-- A call returns `ok` exactly when it has its record accepted. -/
theorem ret (h : Messages clock s) {t : τ} {f : Frame} (hframe : s.frame t = some f)
    {status : ProducerStatus} (hstatus : status = .ok ↔ f.committed = true) :
    Messages clock (s.ret t f status) := by
  have hf := h.frame t f hframe
  refine ⟨fun u g hg => ?_, fun u r hr hok => ?_, fun id hid => ?_, h.outq, h.reports⟩
  · by_cases hu : u = t
    · subst hu
      simp [State.ret] at hg
    · simp only [State.ret, Function.update_of_ne hu] at hg
      exact h.frame u g hg
  · simp only [State.ret, List.mem_append, List.mem_singleton, Prod.mk.injEq] at hr
    rcases hr with hr | ⟨rfl, rfl⟩
    · exact h.returned u r hr hok
    · rw [if_pos (hstatus.mp hok)] at hf
      exact hf
  · rcases h.covered id hid with ⟨u, g, hg, hgid⟩ | ⟨u, r, hr, hok, hrid⟩
    · by_cases hu : u = t
      · subst hu
        rw [hframe] at hg
        cases hg
        have hcommitted : f.committed = true := by
          by_contra hnot
          rw [if_neg hnot, hgid] at hf
          cases hf
        exact .inr ⟨u, ⟨f.data, status, f.msg⟩, by simp [State.ret], hstatus.mpr hcommitted, hgid⟩
      · exact .inl ⟨u, g, by simpa [State.ret, hu] using hg, hgid⟩
    · exact .inr ⟨u, r, by simp [State.ret, hr], hok, hrid⟩

theorem step [Fintype τ] (s : State τ) (a : Action τ) (s' : State τ) (h : Messages clock s)
    (hstep : step clock s a = some s') : Messages clock s' := by
  cases Step.of_step hstep with
  | call t data hasToken _ hframe => exact h.enter hframe data hasToken
  | produce t err f hframe hpc _ =>
    by_cases herr : err = .ERR_NO_ERROR
    · subst herr
      exact h.accept hframe hpc
    · rw [State.produced, if_neg herr]
      exact h.setFrame hframe rfl rfl (by simp [Frame.committed, hpc, herr])
  | switch t token f err hframe hpc =>
    cases hswitch : switchErr err (f.hasToken && token) with
    | pollOk =>
      have herr := switchErr_eq_pollOk.mp hswitch
      exact h.setFrame hframe rfl rfl (by simp [Frame.committed, hpc, herr])
    | pollContinue =>
      have herr := (switchErr_eq_pollContinue.mp hswitch).1
      exact h.setFrame hframe rfl rfl (by simp [Frame.committed, hpc, herr])
    | ret status =>
      obtain ⟨herr, hstatus⟩ := switchErr_eq_ret hswitch
      exact h.ret hframe (by simp [Frame.committed, hpc, herr, hstatus])
  | pollOk t n f hframe hpc _ =>
    exact (h.dispatch n).ret hframe (by simp [Frame.committed, hpc])
  | pollContinue t n f hframe hpc _ =>
    exact (h.dispatch n).setFrame hframe rfl rfl (by simp [Frame.committed, hpc])
  | bgPoll n _ _ => exact (h.dispatch n).congr rfl rfl rfl rfl (fun _ => id) fun _ => .inl
  | settle i msg err errstr hmsg _ => exact h.settle hmsg err errstr
  | dtorMember n m left _ =>
    unfold State.destroyMember
    split
    · exact (h.dispatch n).congr rfl rfl rfl rfl (fun _ => id) fun _ => .inl
    · exact h.congr rfl rfl rfl rfl (fun _ => id) fun _ => .inl
  | _ => exact h.congr rfl rfl rfl rfl (fun _ => id) fun _ => .inl

end Messages

/-! ## Lost messages stay lost -/

/-- The parts of the state in which a message can be lost are changed by few steps. -/
theorem lost_congr {s s' : State τ} (hhandle : s'.handle = s.handle) (houtq : s'.outq = s.outq)
    (hdrq : s'.drq = s.drq) (hreported : s'.reported = s.reported) (id : Nat) :
    s'.Lost id ↔ s.Lost id := by
  simp only [State.Lost, hhandle, houtq, hdrq, hreported]

theorem mem_reports_dispatch {s : State τ} {n : Nat} {report : Report} :
    report ∈ (s.dispatch n).drq ++ (s.dispatch n).reported ↔
      report ∈ s.drq ++ s.reported := by
  have hsplit : report ∈ s.drq ↔ report ∈ s.drq.take n ∨ report ∈ s.drq.drop n := by
    rw [← List.mem_append, List.take_append_drop]
  simp only [State.dispatch, List.mem_append, hsplit]
  tauto

theorem lost_dispatch {s : State τ} {n id : Nat} : (s.dispatch n).Lost id ↔ s.Lost id := by
  unfold State.Lost
  simp only [mem_reports_dispatch]
  exact Iff.rfl

/-- Nothing is lost so far. -/
structure NothingLost (s : State τ) : Prop where
  reports : ∀ report ∈ s.drq ++ s.reported, report.err = .ERR_NO_ERROR
  outq : s.handle = false → s.outq = []

theorem NothingLost.not_lost {s : State τ} (h : NothingLost s) (id : Nat) : ¬ s.Lost id := by
  rintro (⟨report, hreport, -, herr⟩ | ⟨hhandle, hid⟩)
  · exact herr (h.reports report hreport)
  · rw [h.outq hhandle] at hid
    cases hid

theorem NothingLost.dispatch {s : State τ} (h : NothingLost s) (n : Nat) :
    NothingLost (s.dispatch n) :=
  ⟨fun report hreport => h.reports report (mem_reports_dispatch.mp hreport), h.outq⟩

variable [DecidableEq τ] {clock : Clock}

theorem Lost.step [Fintype τ] (s : State τ) (a : Action τ) (s' : State τ) (id : Nat)
    (h : s.Lost id) (hstep : step clock s a = some s') : s'.Lost id := by
  cases Step.of_step hstep with
  | produce t err f _ _ hhandle =>
    unfold State.produced
    split
    · rcases h with hreport | ⟨hclosed, -⟩
      · exact .inl hreport
      · rw [hhandle] at hclosed
        cases hclosed
    · exact (lost_congr rfl rfl rfl rfl id).mpr h
  | switch t token f err _ _ =>
    cases switchErr err (f.hasToken && token) <;> exact (lost_congr rfl rfl rfl rfl id).mpr h
  | pollOk t n f _ _ _ =>
    exact (lost_congr (s := s.dispatch n) rfl rfl rfl rfl id).mpr (lost_dispatch.mpr h)
  | pollContinue t n f _ _ _ =>
    exact (lost_congr (s := s.dispatch n) rfl rfl rfl rfl id).mpr (lost_dispatch.mpr h)
  | bgPoll n _ _ =>
    exact (lost_congr (s := s.dispatch n) rfl rfl rfl rfl id).mpr (lost_dispatch.mpr h)
  | settle i msg err errstr _ hhandle =>
    rcases h with ⟨report, hreport, hid⟩ | ⟨hclosed, -⟩
    · refine .inl ⟨report, ?_, hid⟩
      simp only [State.settle, List.mem_append] at hreport ⊢
      tauto
    · rw [hhandle] at hclosed
      cases hclosed
  | dtorMember n m left _ =>
    unfold State.destroyMember
    split
    · rcases lost_dispatch (n := n).mpr h with hreport | ⟨-, houtq⟩
      · exact .inl hreport
      · exact .inr ⟨rfl, houtq⟩
    · exact (lost_congr rfl rfl rfl rfl id).mpr h
  | _ => exact (lost_congr rfl rfl rfl rfl id).mpr h

/-- Accepted messages are never forgotten. -/
theorem accepted_length_le [Fintype τ] {s s' : State τ} {a : Action τ}
    (hstep : step clock s a = some s') : s.accepted.length ≤ s'.accepted.length := by
  cases Step.of_step hstep with
  | produce t err f _ _ _ =>
    unfold State.produced
    split
    · simp
    · exact le_refl _
  | switch t token f err _ _ =>
    cases switchErr err (f.hasToken && token) <;> exact le_refl _
  | dtorMember n m left _ =>
    unfold State.destroyMember
    split <;> exact le_refl _
  | _ => exact le_refl _

/-- A step that breaks the condition loses a message that librdkafka had accepted. -/
theorem exists_lost_of_not_lossless [Fintype τ] {s s' : State τ} {a : Action τ}
    (h : Messages clock s) (hbreak : ¬ Lossless s a) (hstep : step clock s a = some s') :
    ∃ id < s'.accepted.length, s'.Lost id := by
  cases Step.of_step hstep with
  | settle i msg err errstr hmsg _ =>
    refine ⟨msg, h.outq msg (List.mem_of_getElem? hmsg), .inl ⟨⟨msg, err, errstr⟩, ?_, rfl, hbreak⟩⟩
    simp [State.settle]
  | dtorMember n m left hdtor =>
    simp only [Lossless, Classical.not_imp] at hbreak
    obtain ⟨⟨left', hnext⟩, houtq⟩ := hbreak
    rw [hdtor] at hnext
    cases hnext
    obtain ⟨id, hid⟩ := List.exists_mem_of_ne_nil s.outq houtq
    exact ⟨id, h.outq id hid, .inr ⟨rfl, hid⟩⟩
  | _ => exact absurd trivial hbreak

/-! ## When `ok` means sent -/

theorem NothingLost.step [Fintype τ] (s : State τ) (a : Action τ) (s' : State τ)
    (h : NothingLost s) (hguard : Lossless s a) (hstep : step clock s a = some s') :
    NothingLost s' := by
  cases Step.of_step hstep with
  | produce t err f _ _ hhandle =>
    unfold State.produced
    split
    · refine ⟨h.reports, fun hclosed => ?_⟩
      change s.handle = false at hclosed
      rw [hhandle] at hclosed
      cases hclosed
    · exact ⟨h.reports, h.outq⟩
  | switch t token f err _ _ =>
    cases switchErr err (f.hasToken && token) <;> exact ⟨h.reports, h.outq⟩
  | pollOk t n f _ _ _ => exact ⟨(h.dispatch n).reports, h.outq⟩
  | pollContinue t n f _ _ _ => exact ⟨(h.dispatch n).reports, h.outq⟩
  | bgPoll n _ _ => exact ⟨(h.dispatch n).reports, h.outq⟩
  | settle i msg err errstr _ hhandle =>
    refine ⟨fun report hreport => ?_, fun hclosed => ?_⟩
    · simp only [State.settle, List.mem_append, List.mem_singleton] at hreport
      rcases hreport with (hold | rfl) | hold
      · exact h.reports report (List.mem_append_left _ hold)
      · exact hguard
      · exact h.reports report (List.mem_append_right _ hold)
    · change s.handle = false at hclosed
      rw [hhandle] at hclosed
      cases hclosed
  | dtorMember n m left hdtor =>
    unfold State.destroyMember
    split
    · subst m
      exact ⟨(h.dispatch n).reports, fun _ => hguard ⟨left, hdtor⟩⟩
    · exact ⟨h.reports, h.outq⟩
  | _ => exact ⟨h.reports, h.outq⟩

/-- A run loses no record whose push returned `ok` when all its steps meet the condition; and at a
moment with no push in progress, it has lost none only when all its steps did. -/
theorem ok_means_sent_iff_lossless [Fintype τ] (clock : Clock) (topic : String) (stop : Bool)
    (as : List (Action τ)) (s : State τ)
    (hrun : run (step clock) (connected τ topic stop) as = some s) :
    (Meets (step clock) Lossless (connected τ topic stop) as → s.OkMeansSent clock) ∧
      ((∀ t, s.frame t = none) → s.OkMeansSent clock →
        Meets (step clock) Lossless (connected τ topic stop) as) := by
  have hmessages : Messages clock s :=
    run_invariant Messages.step hrun (messages_connected clock topic stop)
  constructor
  · intro hmeets t r hr hok
    have hnothing : NothingLost s := run_invariant_of_meets NothingLost.step hmeets hrun
      ⟨by simp [connected], fun _ => rfl⟩
    obtain ⟨id, hid, hcarries⟩ := hmessages.returned t r hr hok
    exact ⟨id, hid, hcarries, hnothing.not_lost id⟩
  · intro hidle hsent
    by_contra hbreak
    obtain ⟨before, a, after, u, v, -, -, hu, hunguarded, hv, hafter⟩ :=
      exists_first_break hrun hbreak
    have hu' : Messages clock u :=
      run_invariant Messages.step hu (messages_connected clock topic stop)
    obtain ⟨id, hid, hlost⟩ := exists_lost_of_not_lossless hu' hunguarded hv
    -- the message is still lost at the end, and by then its push has returned `ok`
    have hend : s.Lost id ∧ id < s.accepted.length :=
      run_invariant (I := fun s => s.Lost id ∧ id < s.accepted.length)
        (fun w a w' hw hstep => ⟨Lost.step w a w' id hw.1 hstep,
          Nat.lt_of_lt_of_le hw.2 (accepted_length_le hstep)⟩) hafter ⟨hlost, hid⟩
    rcases hmessages.covered id hend.2 with ⟨t, f, hf, -⟩ | ⟨t, r, hr, hok, hrid⟩
    · rw [hidle t] at hf
      cases hf
    · obtain ⟨id', hid', -, hnot⟩ := hsent t r hr hok
      rw [hrid] at hid'
      cases hid'
      exact hnot hend.1

/-- The run `as` of a producer with one caller. -/
abbrev soloRun (as : List (Action Unit)) : Option (State Unit) :=
  run (step .hundredNanoseconds) (connected Unit "" false) as

/-- A push that returns `ok` while its record is on the way. -/
def pushOk (data : TimedDataRaw) : List (Action Unit) :=
  [.call () data false, .produce () .ERR_NO_ERROR, .switch () false, .poll () 0]

/-- A push returns `ok`, the message times out in librdkafka, `bg_pool` hands the report to
`dr_cb`. -/
theorem ok_not_sent_after_timeout :
    ¬ ∀ as s, soloRun as = some s → s.OkMeansSent .hundredNanoseconds := by
  intro h
  have hsent := h (pushOk ⟨0, [1]⟩ ++
    [.settle 0 .ERR__MSG_TIMED_OUT "Local: Message timed out", .bgTest, .bgPoll 1]) _ rfl
  obtain ⟨id, hid, -, hnot⟩ := hsent () ⟨⟨0, [1]⟩, .ok, some 0⟩ (List.mem_singleton_self _) rfl
  cases hid
  exact hnot (.inl ⟨⟨0, .ERR__MSG_TIMED_OUT, "Local: Message timed out"⟩,
    List.mem_singleton_self _, rfl, by decide⟩)

/-- A push whose record is sent before the producer is destroyed, up to the destruction of the
handle. -/
def sentThenDestroyed : List (Action Unit) :=
  pushOk ⟨0, [1]⟩ ++ [.settle 0 .ERR_NO_ERROR "", .bgTest, .bgPoll 1, .dtorStop, .bgTest,
    .dtorJoin, .dtorMember 0, .dtorMember 0, .dtorMember 0]

/-- The condition at that run. -/
theorem ok_means_sent_iff_lossless_settled :
    ∃ s, soloRun sentThenDestroyed = some s ∧ s.handle = false ∧
      s.OkMeansSent .hundredNanoseconds := by
  refine ⟨_, rfl, rfl, (ok_means_sent_iff_lossless .hundredNanoseconds "" false
    sentThenDestroyed _ rfl).1 ?_⟩
  simp [sentThenDestroyed, pushOk, Meets, Lossless, step, connected, State.enter, State.setFrame,
    State.produced, State.switched, State.polled, State.ret, State.settle, State.dispatch,
    switchErr, State.destroyMember, membersInDestructionOrder]

end TsKafka.BasicProducer
