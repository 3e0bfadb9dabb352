import TsKafka.BasicProducer.Push
import TsKafka.Library.FirstWith

/-!
# Where the loop of `push` ends

`push` against a finite or infinite sequence of attempts: when it returns, with which status, and
which calls it has made until then. Two attempts matter, the first that is not refused for a full
queue and the first that is while the cancel token reads true; `push` returns at the earlier one.
-/

namespace TsKafka.BasicProducer
open RdKafka FirstWith
open Stream' (Seq)

/-- The result is not `ERR__QUEUE_FULL`. -/
def Attempt.NotFull (attempt : Attempt) : Prop := attempt.err ≠ .ERR__QUEUE_FULL

/-- The queue is full while a token is given and reads true. -/
def Attempt.Cancelled (hasToken : Bool) (attempt : Attempt) : Prop :=
  attempt.err = .ERR__QUEUE_FULL ∧ hasToken = true ∧ attempt.token = true

/-- After the attempt `push` returns. -/
def Attempt.Last (hasToken : Bool) (attempt : Attempt) : Prop :=
  attempt.NotFull ∨ attempt.Cancelled hasToken

instance (hasToken : Bool) (attempt : Attempt) : Decidable (attempt.Cancelled hasToken) :=
  inferInstanceAs (Decidable (_ ∧ _))

instance (attempt : Attempt) : Decidable attempt.NotFull :=
  inferInstanceAs (Decidable (_ ≠ _))

instance (hasToken : Bool) (attempt : Attempt) : Decidable (attempt.Last hasToken) :=
  inferInstanceAs (Decidable (_ ∨ _))

/-- What `push` returns after its last attempt. -/
def Attempt.status (attempt : Attempt) : ProducerStatus :=
  if attempt.err = .ERR_NO_ERROR then .ok
  else if attempt.err = .ERR__QUEUE_FULL then .busy
  else .error

/-- The calls of one attempt: `produce`, and a `poll` after a success and after a full queue
without cancellation. -/
def Attempt.calls (args : ProduceArgs) (hasToken : Bool) (attempt : Attempt) :
    List ProducerCall :=
  .produce args attempt.err ::
    if attempt.err = .ERR_NO_ERROR ∨
        attempt.err = .ERR__QUEUE_FULL ∧ ¬ attempt.Cancelled hasToken then [.poll 1]
    else []

/-! ## A finite list of attempts -/

theorem push_cons (args : ProduceArgs) (hasToken : Bool) (attempt : Attempt)
    (rest : List Attempt) :
    push args hasToken (attempt :: rest) =
      if attempt.Last hasToken then ⟨attempt.calls args hasToken, some attempt.status⟩
      else
        ⟨attempt.calls args hasToken ++ (push args hasToken rest).calls,
          (push args hasToken rest).status⟩ := by
  obtain ⟨err, token⟩ := attempt
  cases err with
  | ERR__QUEUE_FULL =>
    cases hasToken <;> cases token <;>
      simp [push, switchErr, Attempt.Last, Attempt.NotFull, Attempt.Cancelled, Attempt.calls,
        Attempt.status]
  | _ =>
    simp [push, switchErr, Attempt.Last, Attempt.NotFull, Attempt.Cancelled, Attempt.calls,
      Attempt.status]

/-- Attempts that are not the last one leave `push` in its loop. -/
theorem push_append (args : ProduceArgs) (hasToken : Bool) {before : List Attempt}
    (hbefore : ∀ attempt ∈ before, ¬ attempt.Last hasToken) (rest : List Attempt) :
    push args hasToken (before ++ rest) =
      ⟨before.flatMap (Attempt.calls args hasToken) ++ (push args hasToken rest).calls,
        (push args hasToken rest).status⟩ := by
  induction before with
  | nil => rfl
  | cons attempt before ih =>
    obtain ⟨hhead, htail⟩ := List.forall_mem_cons.mp hbefore
    rw [List.cons_append, push_cons, if_neg hhead, ih htail]
    simp

/-- The run of a `push` that has only seen attempts that are not the last one. -/
theorem push_of_not_last (args : ProduceArgs) (hasToken : Bool) {attempts : List Attempt}
    (h : ∀ attempt ∈ attempts, ¬ attempt.Last hasToken) :
    push args hasToken attempts = ⟨attempts.flatMap (Attempt.calls args hasToken), none⟩ := by
  have happend := push_append args hasToken h []
  simpa [push] using happend

/-! ## A sequence of attempts -/

/-- On the sequence `attempts`, `push` returns after the run `r`. -/
def PushReturns (args : ProduceArgs) (hasToken : Bool) (attempts : Seq Attempt)
    (r : PushRun) : Prop :=
  r.status ≠ none ∧ ∃ seen, push args hasToken (attempts.take seen) = r

/-- `push` on a part of the sequence that reaches beyond the first last attempt. -/
theorem push_take_of_isFirst (args : ProduceArgs) (hasToken : Bool) {attempts : Seq Attempt}
    {m seen : Nat} (hfirst : IsFirst (Attempt.Last hasToken) attempts m) (hlt : m < seen) :
    ∃ attempt, attempts.get? m = some attempt ∧ attempt.Last hasToken ∧
      push args hasToken (attempts.take seen) =
        ⟨(attempts.take (m + 1)).flatMap (Attempt.calls args hasToken), some attempt.status⟩ := by
  obtain ⟨attempt, hget, hlast⟩ := hfirst.1
  refine ⟨attempt, hget, hlast, ?_⟩
  rw [take_eq_of_get? hget hlt, push_append args hasToken hfirst.not_mem_take, push_cons,
    if_pos hlast, take_succ_of_get? hget]
  simp

/-- `push` returns exactly at the first attempt that is the last one. -/
theorem pushReturns_iff {args : ProduceArgs} {hasToken : Bool} {attempts : Seq Attempt}
    {r : PushRun} :
    PushReturns args hasToken attempts r ↔
      ∃ m attempt, IsFirst (Attempt.Last hasToken) attempts m ∧
        attempts.get? m = some attempt ∧
        r = ⟨(attempts.take (m + 1)).flatMap (Attempt.calls args hasToken),
          some attempt.status⟩ := by
  constructor
  · rintro ⟨hstatus, seen, hrun⟩
    by_cases hex : ∃ m, m < seen ∧ IsFirst (Attempt.Last hasToken) attempts m
    · obtain ⟨m, hlt, hfirst⟩ := hex
      obtain ⟨attempt, hget, -, hpush⟩ := push_take_of_isFirst args hasToken hfirst hlt
      exact ⟨m, attempt, hfirst, hget, hrun ▸ hpush⟩
    · have hnone := push_of_not_last args hasToken
        (forall_mem_take fun m hm hfirst => hex ⟨m, hm, hfirst⟩)
      rw [hrun] at hnone
      exact absurd (congrArg PushRun.status hnone) hstatus
  · rintro ⟨m, attempt, hfirst, hget, rfl⟩
    obtain ⟨attempt', hget', -, hpush⟩ :=
      push_take_of_isFirst args hasToken hfirst (Nat.lt_succ_self m)
    obtain rfl : attempt = attempt' := Option.some.inj (hget.symm.trans hget')
    exact ⟨by simp, m + 1, hpush⟩

/-! ## The two attempts that matter -/

/-- The first attempt that is not refused for a full queue is number `n`, and no cancelled one
comes before it. -/
def EndsNotFull (hasToken : Bool) (attempts : Seq Attempt) (n : Nat) : Prop :=
  IsFirst Attempt.NotFull attempts n ∧
    ∀ k, IsFirst (Attempt.Cancelled hasToken) attempts k → n < k

/-- The first cancelled attempt is number `k`, and every attempt before it is refused for a full
queue. -/
def EndsCancelled (hasToken : Bool) (attempts : Seq Attempt) (k : Nat) : Prop :=
  IsFirst (Attempt.Cancelled hasToken) attempts k ∧
    ∀ n, IsFirst Attempt.NotFull attempts n → k < n

theorem isFirst_last_iff {hasToken : Bool} {attempts : Seq Attempt} {m : Nat} :
    IsFirst (Attempt.Last hasToken) attempts m ↔
      EndsNotFull hasToken attempts m ∨ EndsCancelled hasToken attempts m := by
  -- no attempt is both, so the two first ones are never the same
  have hne : ∀ {n k}, IsFirst Attempt.NotFull attempts n →
      IsFirst (Attempt.Cancelled hasToken) attempts k → n ≠ k := by
    rintro n k ⟨⟨a, ha, hnot⟩, -⟩ ⟨⟨b, hb, hfull, -⟩, -⟩ rfl
    rw [ha] at hb
    cases hb
    exact hnot hfull
  refine isFirst_or.trans (or_congr (and_congr_right fun hm => ?_) (and_congr_right fun hm => ?_))
  · refine forall₂_congr fun k hk => ?_
    have := hne hm hk
    omega
  · refine forall₂_congr fun n hn => ?_
    have := hne hn hm
    omega

theorem EndsCancelled.status {hasToken : Bool} {attempts : Seq Attempt} {k : Nat}
    (h : EndsCancelled hasToken attempts k) {attempt : Attempt}
    (hget : attempts.get? k = some attempt) : attempt.status = .busy := by
  obtain ⟨⟨a, ha, hfull, -⟩, -⟩ := h.1
  rw [hget] at ha
  cases ha
  simp [Attempt.status, hfull]

theorem EndsNotFull.status {hasToken : Bool} {attempts : Seq Attempt} {n : Nat}
    (h : EndsNotFull hasToken attempts n) {attempt : Attempt}
    (hget : attempts.get? n = some attempt) :
    attempt.status = if attempt.err = .ERR_NO_ERROR then .ok else .error := by
  obtain ⟨⟨a, ha, hnot⟩, -⟩ := h.1
  rw [hget] at ha
  cases ha
  simp only [Attempt.status, if_neg hnot]

/-- `push` returns at the earlier of the two, with the status that goes with it. -/
theorem pushReturns_iff_ends {args : ProduceArgs} {hasToken : Bool} {attempts : Seq Attempt}
    {r : PushRun} :
    PushReturns args hasToken attempts r ↔
      ∃ m attempt, attempts.get? m = some attempt ∧
        r.calls = (attempts.take (m + 1)).flatMap (Attempt.calls args hasToken) ∧
        (EndsNotFull hasToken attempts m ∧
            r.status = some (if attempt.err = .ERR_NO_ERROR then .ok else .error) ∨
          EndsCancelled hasToken attempts m ∧ r.status = some .busy) := by
  rw [pushReturns_iff]
  constructor
  · rintro ⟨m, attempt, hfirst, hget, rfl⟩
    refine ⟨m, attempt, hget, rfl, ?_⟩
    rcases isFirst_last_iff.mp hfirst with hends | hends
    · exact .inl ⟨hends, congrArg some (hends.status hget)⟩
    · exact .inr ⟨hends, congrArg some (hends.status hget)⟩
  · obtain ⟨calls, status⟩ := r
    rintro ⟨m, attempt, hget, rfl, ⟨hends, rfl⟩ | ⟨hends, rfl⟩⟩
    · exact ⟨m, attempt, isFirst_last_iff.mpr (.inl hends), hget, by rw [hends.status hget]⟩
    · exact ⟨m, attempt, isFirst_last_iff.mpr (.inr hends), hget, by rw [hends.status hget]⟩

/-! ## The loop -/

/-- The arguments of a `produce` call. -/
def ProducerCall.args? : ProducerCall → Option ProduceArgs
  | .produce args _ => some args
  | .poll _ => none

/-- The calls of an attempt contain one `produce`. -/
theorem filterMap_args_flatMap (args : ProduceArgs) (hasToken : Bool)
    (attempts : List Attempt) :
    (attempts.flatMap (Attempt.calls args hasToken)).filterMap ProducerCall.args? =
      List.replicate attempts.length args := by
  induction attempts with
  | nil => rfl
  | cons attempt rest ih =>
    rw [List.flatMap_cons, List.filterMap_append, ih, List.length_cons, List.replicate_succ,
      Attempt.calls]
    split <;> simp [ProducerCall.args?]

/-- How `push` behaves on a sequence of attempts. -/
structure PushLoop (args : ProduceArgs) (hasToken : Bool) (attempts : Seq Attempt) : Prop where
  /-- It returns iff one of the two attempts exists. -/
  terminates : (∃ r, PushReturns args hasToken attempts r) ↔
    (∃ n, IsFirst Attempt.NotFull attempts n) ∨
      ∃ k, IsFirst (Attempt.Cancelled hasToken) attempts k
  /-- It returns at the earlier of the two and has made every attempt until then, all with the
  same arguments; each attempt polls as `Attempt.calls` says. -/
  calls : ∀ r, PushReturns args hasToken attempts r →
    ∃ m, (EndsNotFull hasToken attempts m ∨ EndsCancelled hasToken attempts m) ∧
      r.calls.filterMap ProducerCall.args? = List.replicate (m + 1) args ∧
      r.calls = (attempts.take (m + 1)).flatMap (Attempt.calls args hasToken)
  busy : (∃ r, PushReturns args hasToken attempts r ∧ r.status = some .busy) ↔
    ∃ k, EndsCancelled hasToken attempts k
  ok : (∃ r, PushReturns args hasToken attempts r ∧ r.status = some .ok) ↔
    ∃ n attempt, EndsNotFull hasToken attempts n ∧ attempts.get? n = some attempt ∧
      attempt.err = .ERR_NO_ERROR
  error : (∃ r, PushReturns args hasToken attempts r ∧ r.status = some .error) ↔
    ∃ n attempt, EndsNotFull hasToken attempts n ∧ attempts.get? n = some attempt ∧
      attempt.err ≠ .ERR_NO_ERROR
  noToken : hasToken = false →
    ∀ r, PushReturns args hasToken attempts r → r.status ≠ some .busy
  /-- As long as it has not returned, it has made and polled after every attempt. -/
  running : ∀ seen, (push args hasToken (attempts.take seen)).status = none →
    (push args hasToken (attempts.take seen)).calls =
      (attempts.take seen).flatMap (Attempt.calls args hasToken)
  /-- It returns once. -/
  single : ∀ r r', PushReturns args hasToken attempts r →
    PushReturns args hasToken attempts r' → r = r'

theorem pushReturns_status_busy {args : ProduceArgs} {hasToken : Bool} {attempts : Seq Attempt} :
    (∃ r, PushReturns args hasToken attempts r ∧ r.status = some .busy) ↔
      ∃ k, EndsCancelled hasToken attempts k := by
  constructor
  · rintro ⟨r, hr, hbusy⟩
    obtain ⟨m, attempt, -, -, ⟨-, hstatus⟩ | ⟨hends, -⟩⟩ := pushReturns_iff_ends.mp hr
    · rw [hbusy] at hstatus
      split at hstatus <;> cases hstatus
    · exact ⟨m, hends⟩
  · rintro ⟨k, hends⟩
    obtain ⟨⟨attempt, hget, -⟩, -⟩ := hends.1
    have hfirst := isFirst_last_iff.mpr (.inr hends)
    exact ⟨_, pushReturns_iff.mpr ⟨k, attempt, hfirst, hget, rfl⟩,
      congrArg some (hends.status hget)⟩

/-- A status other than `busy` comes from the first attempt that is not refused for a full
queue. -/
theorem pushReturns_status_notFull {args : ProduceArgs} {hasToken : Bool}
    {attempts : Seq Attempt} {status : ProducerStatus} (hstatus : status ≠ .busy) :
    (∃ r, PushReturns args hasToken attempts r ∧ r.status = some status) ↔
      ∃ n attempt, EndsNotFull hasToken attempts n ∧ attempts.get? n = some attempt ∧
        (if attempt.err = .ERR_NO_ERROR then .ok else .error) = status := by
  constructor
  · rintro ⟨r, hr, hr'⟩
    obtain ⟨m, attempt, hget, -, ⟨hends, heq⟩ | ⟨-, heq⟩⟩ := pushReturns_iff_ends.mp hr
    · rw [hr'] at heq
      exact ⟨m, attempt, hends, hget, (Option.some.inj heq).symm⟩
    · rw [hr'] at heq
      exact absurd (Option.some.inj heq) hstatus
  · rintro ⟨n, attempt, hends, hget, rfl⟩
    have hfirst := isFirst_last_iff.mpr (.inl hends)
    exact ⟨_, pushReturns_iff.mpr ⟨n, attempt, hfirst, hget, rfl⟩,
      congrArg some (hends.status hget)⟩

theorem exists_pushReturns_iff {args : ProduceArgs} {hasToken : Bool} {attempts : Seq Attempt} :
    (∃ r, PushReturns args hasToken attempts r) ↔
      (∃ n, IsFirst Attempt.NotFull attempts n) ∨
        ∃ k, IsFirst (Attempt.Cancelled hasToken) attempts k := by
  constructor
  · rintro ⟨r, hr⟩
    obtain ⟨m, -, -, -, ⟨hends, -⟩ | ⟨hends, -⟩⟩ := pushReturns_iff_ends.mp hr
    · exact .inl ⟨m, hends.1⟩
    · exact .inr ⟨m, hends.1⟩
  · intro hex
    have hlast : ∃ n attempt, attempts.get? n = some attempt ∧ attempt.Last hasToken := by
      rcases hex with ⟨n, ⟨attempt, hget, h⟩, -⟩ | ⟨n, ⟨attempt, hget, h⟩, -⟩
      · exact ⟨n, attempt, hget, .inl h⟩
      · exact ⟨n, attempt, hget, .inr h⟩
    obtain ⟨n, attempt, hget, h⟩ := hlast
    obtain ⟨m, -, hfirst⟩ := exists_isFirst hget h
    obtain ⟨last, hlast, -⟩ := hfirst.1
    exact ⟨_, pushReturns_iff.mpr ⟨m, last, hfirst, hlast, rfl⟩⟩

/-- The sequence of attempts determines the run that returns. -/
theorem PushReturns.unique {args : ProduceArgs} {hasToken : Bool} {attempts : Seq Attempt}
    {r r' : PushRun} (hr : PushReturns args hasToken attempts r)
    (hr' : PushReturns args hasToken attempts r') : r = r' := by
  obtain ⟨m, attempt, hfirst, hget, rfl⟩ := pushReturns_iff.mp hr
  obtain ⟨m', attempt', hfirst', hget', rfl⟩ := pushReturns_iff.mp hr'
  obtain ⟨⟨a, ha, hlast⟩, -⟩ := id hfirst
  obtain ⟨⟨b, hb, hlast'⟩, -⟩ := id hfirst'
  obtain rfl : m = m' := Nat.le_antisymm (hfirst.le hb hlast') (hfirst'.le ha hlast)
  obtain rfl : attempt = attempt' := Option.some.inj (hget.symm.trans hget')
  rfl

/-- A `push` that is still in its loop has seen no last attempt. -/
theorem push_calls_of_running {args : ProduceArgs} {hasToken : Bool} {attempts : Seq Attempt}
    {seen : Nat} (hrunning : (push args hasToken (attempts.take seen)).status = none) :
    (push args hasToken (attempts.take seen)).calls =
      (attempts.take seen).flatMap (Attempt.calls args hasToken) := by
  by_cases hex : ∃ m, m < seen ∧ IsFirst (Attempt.Last hasToken) attempts m
  · obtain ⟨m, hlt, hfirst⟩ := hex
    obtain ⟨attempt, -, -, hpush⟩ := push_take_of_isFirst args hasToken hfirst hlt
    rw [hpush] at hrunning
    cases hrunning
  · rw [push_of_not_last args hasToken
      (forall_mem_take fun m hm hfirst => hex ⟨m, hm, hfirst⟩)]

/-- `push` behaves as described on every finite or infinite sequence of attempts. -/
theorem push_loop (clock : Clock) (topic : String) (data : TimedDataRaw) (hasToken : Bool)
    (attempts : Seq Attempt) : PushLoop (produceArgs clock topic data) hasToken attempts := by
  refine ⟨exists_pushReturns_iff, ?_, pushReturns_status_busy, ?_, ?_, ?_,
    fun seen => push_calls_of_running, fun r r' => PushReturns.unique⟩
  · intro r hr
    obtain ⟨m, attempt, hfirst, hget, rfl⟩ := pushReturns_iff.mp hr
    refine ⟨m, isFirst_last_iff.mp hfirst, ?_, rfl⟩
    rw [filterMap_args_flatMap, length_take_of_get? hget]
  · rw [pushReturns_status_notFull (by decide)]
    refine exists₂_congr fun n attempt => and_congr_right fun _ => and_congr_right fun _ => ?_
    split <;> simp_all
  · rw [pushReturns_status_notFull (by decide)]
    refine exists₂_congr fun n attempt => and_congr_right fun _ => and_congr_right fun _ => ?_
    split <;> simp_all
  · intro htoken r hr hbusy
    obtain ⟨k, hends⟩ := pushReturns_status_busy.mp ⟨r, hr, hbusy⟩
    obtain ⟨⟨attempt, -, -, hgiven, -⟩, -⟩ := hends.1
    rw [htoken] at hgiven
    cases hgiven

end TsKafka.BasicProducer
