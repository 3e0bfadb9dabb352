import TsKafka.BasicProducer.PushLoop

/-!
# The cancel token of `push` (`basic_producer.hpp:51-55`)

The header has the caller switch the token to `false` to give up on a full queue;
`basic_producer.cpp:38` gives up while it reads `true`. The two only agree where `push` never
reads the token.
-/

namespace TsKafka.BasicProducer
open RdKafka FirstWith
open Stream' (Seq)

/-- The token is switched to `false` at most once: where a round reads `true`, every round before
it does. -/
def SwitchedOnce (attempts : Seq Attempt) : Prop :=
  ∀ i j a b, i ≤ j → attempts.get? i = some a → attempts.get? j = some b →
    b.token = true → a.token = true

/-- A `push` with a token makes attempt number `i`, which comes out as `a`. -/
def Makes (args : ProduceArgs) (attempts : Seq Attempt) (i : Nat) (a : Attempt) : Prop :=
  (push args true (attempts.take i)).status = none ∧ attempts.get? i = some a

/-- What a `push` with a token has returned after attempt number `i`; `none` when it goes on. -/
def statusAfter (args : ProduceArgs) (attempts : Seq Attempt) (i : Nat) :
    Option ProducerStatus :=
  (push args true (attempts.take (i + 1))).status

/-- A full queue is tried again while the token reads `true`, and given up only when it reads
`false`. -/
structure HeedsToken (args : ProduceArgs) (attempts : Seq Attempt) : Prop where
  retries : ∀ i a, Makes args attempts i a → a.err = .ERR__QUEUE_FULL → a.token = true →
    statusAfter args attempts i = none
  busyOnly : ∀ i a, Makes args attempts i a → statusAfter args attempts i = some .busy →
    a.err = .ERR__QUEUE_FULL ∧ a.token = false
  /-- A token that is never switched gives no `busy`. -/
  neverSwitched : (∀ i a, attempts.get? i = some a → a.token = true) →
    ∀ r, PushReturns args true attempts r → r.status ≠ some .busy

/-- The token works as the header states: "if queue is full and cancel_token value is switched to
false, it returns producer_status::busy". -/
structure TokenWorks (args : ProduceArgs) (attempts : Seq Attempt) : Prop
    extends HeedsToken args attempts where
  givesUp : ∀ i a, Makes args attempts i a → a.err = .ERR__QUEUE_FULL → a.token = false →
    statusAfter args attempts i = some .busy

/-! ## What one round does with the token -/

/-- `push` is in its loop iff no attempt was the last one. -/
theorem push_status_eq_none {args : ProduceArgs} {hasToken : Bool} {attempts : List Attempt} :
    (push args hasToken attempts).status = none ↔
      ∀ attempt ∈ attempts, ¬ attempt.Last hasToken := by
  induction attempts with
  | nil => simp [push]
  | cons attempt rest ih =>
    rw [push_cons, List.forall_mem_cons]
    by_cases hlast : attempt.Last hasToken
    · simp [hlast]
    · simp [hlast, ih]

/-- The status after an attempt that `push` makes. -/
theorem Makes.statusAfter_eq {args : ProduceArgs} {attempts : Seq Attempt} {i : Nat}
    {a : Attempt} (h : Makes args attempts i a) :
    statusAfter args attempts i = if a.Last true then some a.status else none := by
  rw [statusAfter, take_succ_of_get? h.2,
    push_append args true (push_status_eq_none.mp h.1), push_cons]
  split <;> rfl

/-- A full queue: `busy` when the token reads `true`, another round when it reads `false`. -/
theorem Makes.statusAfter_of_full {args : ProduceArgs} {attempts : Seq Attempt} {i : Nat}
    {a : Attempt} (h : Makes args attempts i a) (hfull : a.err = .ERR__QUEUE_FULL) :
    statusAfter args attempts i = if a.token = true then some .busy else none := by
  rw [h.statusAfter_eq]
  cases htoken : a.token <;>
    simp [Attempt.Last, Attempt.NotFull, Attempt.Cancelled, Attempt.status, hfull, htoken]

/-- `busy` only answers a full queue. -/
theorem Makes.full_of_busy {args : ProduceArgs} {attempts : Seq Attempt} {i : Nat} {a : Attempt}
    (h : Makes args attempts i a) (hbusy : statusAfter args attempts i = some .busy) :
    a.err = .ERR__QUEUE_FULL := by
  by_contra hnot
  rw [h.statusAfter_eq, if_pos (.inl hnot), Attempt.status, if_neg hnot] at hbusy
  split at hbusy <;> cases hbusy

theorem makes_zero {args : ProduceArgs} {attempts : Seq Attempt} {a : Attempt}
    (hget : attempts.get? 0 = some a) : Makes args attempts 0 a :=
  ⟨rfl, hget⟩

/-- Every attempt behind the first is made only when the first one was not the last. -/
theorem Makes.first_not_last {args : ProduceArgs} {attempts : Seq Attempt} {i : Nat}
    {a first : Attempt} (h : Makes args attempts i a) (hget : attempts.get? 0 = some first)
    (hi : i ≠ 0) : ¬ first.Last true := by
  apply push_status_eq_none.mp h.1
  apply List.mem_of_getElem? (i := 0)
  rw [Seq.getElem?_take, if_pos (by omega), hget]

/-- A `push` whose first attempt is not refused for a full queue makes no other and reads no
token. -/
theorem Makes.notFull {args : ProduceArgs} {attempts : Seq Attempt} {i : Nat} {a : Attempt}
    (h : Makes args attempts i a) (hfirst : ∀ a, attempts.get? 0 = some a → a.NotFull) :
    a.NotFull := by
  obtain rfl | hi := eq_or_ne i 0
  · exact hfirst a h.2
  · obtain ⟨first, hget⟩ := attempts.ge_stable (Nat.zero_le i) h.2
    exact absurd (.inl (hfirst first hget)) (h.first_not_last hget hi)

/-- `busy` comes from a made attempt at which the token read `true`. -/
theorem exists_makes_of_busy {args : ProduceArgs} {attempts : Seq Attempt} {r : PushRun}
    (hr : PushReturns args true attempts r) (hbusy : r.status = some .busy) :
    ∃ i a, Makes args attempts i a ∧ a.err = .ERR__QUEUE_FULL ∧ a.token = true := by
  obtain ⟨k, hends⟩ := pushReturns_status_busy.mp ⟨r, hr, hbusy⟩
  have hfirst := isFirst_last_iff.mpr (.inr hends)
  obtain ⟨⟨a, hget, hfull, -, htoken⟩, -⟩ := hends.1
  exact ⟨k, a, ⟨push_status_eq_none.mpr hfirst.not_mem_take, hget⟩, hfull, htoken⟩

/-! ## The token against the header -/

/-- A first attempt that is not refused for a full queue keeps every promise, as no token is
read. -/
theorem tokenWorks_of_notFull {args : ProduceArgs} {attempts : Seq Attempt}
    (hfirst : ∀ a, attempts.get? 0 = some a → a.NotFull) : TokenWorks args attempts where
  retries i a h hfull _ := absurd hfull (h.notFull hfirst)
  busyOnly i a h hbusy := absurd (h.full_of_busy hbusy) (h.notFull hfirst)
  neverSwitched _ r hr hbusy := by
    obtain ⟨i, a, h, hfull, -⟩ := exists_makes_of_busy hr hbusy
    exact h.notFull hfirst hfull
  givesUp i a h hfull _ := absurd hfull (h.notFull hfirst)

/-- A token that reads `false` at every attempt keeps `push` in its loop on a full queue. -/
theorem heedsToken_of_false {args : ProduceArgs} {attempts : Seq Attempt}
    (hfalse : ∀ i a, attempts.get? i = some a → a.token = false) : HeedsToken args attempts where
  retries i a h _ htoken := by
    rw [hfalse i a h.2] at htoken
    cases htoken
  busyOnly i a h hbusy := by
    refine ⟨?_, hfalse i a h.2⟩
    rw [h.statusAfter_eq] at hbusy
    by_contra hnot
    rw [if_pos (.inl hnot), Attempt.status, if_neg hnot] at hbusy
    split at hbusy <;> cases hbusy
  neverSwitched _ r hr hbusy := by
    obtain ⟨i, a, h, -, htoken⟩ := exists_makes_of_busy hr hbusy
    rw [hfalse i a h.2] at htoken
    cases htoken

/-- Retrying at the first attempt already excludes a full queue with a token that reads `true`. -/
theorem HeedsToken.first {args : ProduceArgs} {attempts : Seq Attempt}
    (h : HeedsToken args attempts) {a : Attempt} (hget : attempts.get? 0 = some a)
    (hfull : a.err = .ERR__QUEUE_FULL) : a.token = false := by
  by_contra htoken
  rw [Bool.not_eq_false] at htoken
  have hretries := h.retries 0 a (makes_zero hget) hfull htoken
  rw [(makes_zero hget).statusAfter_of_full hfull, if_pos htoken] at hretries
  cases hretries

/-- The token works as the header states exactly where the first attempt is not refused for a full
queue. Without the header's own sentence, the retries and the reason for `busy` are also right for
a token that was switched before the first attempt, where `push` cannot be cancelled at all. -/
theorem token_works_iff (args : ProduceArgs) (attempts : Seq Attempt)
    (hswitched : SwitchedOnce attempts) :
    (TokenWorks args attempts ↔ ∀ a, attempts.get? 0 = some a → a.NotFull) ∧
      (HeedsToken args attempts ↔
        ∀ a, attempts.get? 0 = some a → a.NotFull ∨ a.token = false) := by
  refine ⟨⟨fun h a hget hfull => ?_, tokenWorks_of_notFull⟩, ⟨fun h a hget => ?_, fun h => ?_⟩⟩
  · have htoken := h.toHeedsToken.first hget hfull
    have hgivesUp := h.givesUp 0 a (makes_zero hget) hfull htoken
    rw [(makes_zero hget).statusAfter_of_full hfull, htoken] at hgivesUp
    cases hgivesUp
  · by_cases hfull : a.err = .ERR__QUEUE_FULL
    · exact .inr (h.first hget hfull)
    · exact .inl hfull
  · by_cases hfirst : ∀ a, attempts.get? 0 = some a → a.NotFull
    · exact (tokenWorks_of_notFull hfirst).toHeedsToken
    · simp only [not_forall, exists_prop] at hfirst
      obtain ⟨first, hget, hfull⟩ := hfirst
      have hoff : first.token = false := (h first hget).resolve_left hfull
      apply heedsToken_of_false
      intro i a hi
      by_contra htoken
      rw [Bool.not_eq_false] at htoken
      rw [hswitched 0 i first a (Nat.zero_le i) hget hi htoken] at hoff
      cases hoff

/-- A first attempt that is accepted, before the token is switched. -/
theorem token_works_iff_accepted :
    TokenWorks (produceArgs .hundredNanoseconds "topic" ⟨0, [1]⟩)
      (Seq.ofList [⟨.ERR_NO_ERROR, true⟩, ⟨.ERR__QUEUE_FULL, false⟩]) := by
  have hswitched : SwitchedOnce
      (Seq.ofList [⟨.ERR_NO_ERROR, true⟩, ⟨.ERR__QUEUE_FULL, false⟩]) := by
    intro i j a b hij hi hj htoken
    match i, j with
    | 0, _ => cases hi; rfl
    | 1, 1 => cases hi; cases hj; exact htoken
    | i + 2, _ => cases hi
    | 1, j + 2 => cases hj
  apply (token_works_iff _ _ hswitched).1.mpr
  intro a hget
  cases hget
  decide

/-- A full queue that never drains, with a token that nobody switches. -/
def fullForever : Seq Attempt := Seq.ofStream fun _ => ⟨.ERR__QUEUE_FULL, true⟩

theorem get?_fullForever (i : Nat) : fullForever.get? i = some ⟨.ERR__QUEUE_FULL, true⟩ := rfl

/-- `push` gives up at once although the token was never switched. -/
theorem busy_without_switch :
    SwitchedOnce fullForever ∧
      PushReturns (produceArgs .hundredNanoseconds "topic" ⟨0, [1]⟩) true fullForever
        ⟨[.produce (produceArgs .hundredNanoseconds "topic" ⟨0, [1]⟩) .ERR__QUEUE_FULL],
          some .busy⟩ ∧
      ¬ HeedsToken (produceArgs .hundredNanoseconds "topic" ⟨0, [1]⟩) fullForever := by
  have hreturns : PushReturns (produceArgs .hundredNanoseconds "topic" ⟨0, [1]⟩) true fullForever
      ⟨[.produce (produceArgs .hundredNanoseconds "topic" ⟨0, [1]⟩) .ERR__QUEUE_FULL],
        some .busy⟩ := ⟨by simp, 1, rfl⟩
  refine ⟨fun i j a b _ hi _ _ => ?_, hreturns, fun h => ?_⟩
  · rw [get?_fullForever] at hi
    cases hi
    rfl
  · refine h.neverSwitched (fun i a hi => ?_) _ hreturns rfl
    rw [get?_fullForever] at hi
    cases hi
    rfl

end TsKafka.BasicProducer
