import TsKafka.RdKafka

/-!
# `basic_producer::connect` (`basic_producer.cpp:66-113`)

The members of a `basic_producer` and the one call that gives it a handle and a polling thread.
librdkafka's answers are the argument `ConnectEnv`.
-/

namespace TsKafka
open RdKafka

/-- The settings of the loop over `params`. -/
def DefArg.paramSettings (a : DefArg) : List (String × ConfValue) :=
  a.params.entries.map fun kv => (kv.1, .text kv.2)

end TsKafka

namespace TsKafka.BasicProducer
open RdKafka Overwrite

/-- The members of `basic_producer` (`basic_producer.hpp:35-40`) but its two callback objects,
which have no state. A thread is its number; `_poll_th` is joinable when it has one. -/
structure Members where
  topic : String
  producer : Option Client
  pollTh : Option Nat
  stop : Bool

/-- A producer object and its history: `clients` and `threads` number the librdkafka clients and
the polling threads that have been created. -/
structure World where
  bp : Members
  clients : Nat
  threads : Nat

/-- A newly constructed producer. No constructor writes `_stop`: `stop` is what it happens to
hold. -/
def World.constructed (stop : Bool) : World where
  bp := { topic := "", producer := none, pollTh := none, stop := stop }
  clients := 0
  threads := 0

/-- `_producer.reset(p)` of the client that was created last. -/
def World.resetProducer (w : World) (p : Client) : World :=
  { w with bp := { w.bp with producer := some p }, clients := w.clients + 1 }

/-- `_poll_th = std::thread(&basic_producer::bg_pool, this)`. -/
def World.launch (w : World) : World :=
  { w with bp := { w.bp with pollTh := some w.threads }, threads := w.threads + 1 }

/-- What librdkafka answers to one `connect`. A `create` that fails returns null and leaves a text
in `errstr`. -/
structure ConnectEnv where
  api : ConfApi
  createFails : Option String

/-- The settings that `connect` makes for every `def_arg` (lines 70-96). -/
def connectFixedSettings (sa : DefArg) : List (String × ConfValue) :=
  [("security.protocol", .text "sasl_plaintext"), ("debug", .text "all"),
    ("metadata.broker.list", .text sa.endpoint), ("event_cb", .eventCb),
    ("message.timeout.ms", .text "1000"), ("sasl.mechanism", .text "PLAIN"),
    ("sasl.username", .text "dev1"), ("sasl.password", .text "dev1_"), ("dr_cb", .drCb)]

/-- The settings of `connect` in the order in which it makes them. -/
def connectSettings (sa : DefArg) : List (String × ConfValue) :=
  connectFixedSettings sa ++ sa.params.entries.map fun kv => (kv.1, .text kv.2)

/-- `connect` up to the handle it creates (lines 68-106), which gets the number `id`, and
`errstr`. It returns false when there is none. -/
def createProducer (env : ConnectEnv) (id : Nat) (sa : DefArg) (errstr : String) :
    Option Client × String :=
  match Conf.setAll env.api Conf.create errstr (connectSettings sa) with
  | (none, errstr) => (none, errstr)
  | (some conf, errstr) =>
    match env.createFails with
    | some text => (none, text)
    | none => (some { id := id, kind := .producer, conf := conf }, errstr)

/-- What ends the program. -/
inductive Fault where
  /-- A call through a null `_producer`. -/
  | nullProducer
  /-- A call on a producer that has been destroyed. -/
  | destroyedProducer
  /-- A thread assigned to a joinable `std::thread`: `std::terminate`. -/
  | assignJoinable
  /-- The `std::system_error` of joining a thread that is not joinable leaves the destructor:
  `std::terminate`. -/
  | joinNotJoinable
  deriving DecidableEq, Repr

/-- `connect`: the result, the object, `errstr`. -/
def connect (env : ConnectEnv) (w : World) (sa : DefArg) (errstr : String) :
    Except Fault (Bool × World × String) :=
  match createProducer env w.clients sa errstr with
  | (none, errstr) => .ok (false, w, errstr)
  | (some p, errstr) =>
    let w := w.resetProducer p
    if w.bp.pollTh.isSome then .error .assignJoinable else .ok (true, w.launch, errstr)

/-! ## What the call does -/

/-- Every setting is accepted and `create` returns a handle. -/
def ConnectEnv.Accepts (env : ConnectEnv) (sa : DefArg) : Prop :=
  (∀ s ∈ connectSettings sa, (env.api.check s.1 s.2).1 = .CONF_OK) ∧ env.createFails = none

instance (env : ConnectEnv) (sa : DefArg) : Decidable (env.Accepts sa) :=
  inferInstanceAs (Decidable (_ ∧ _))

theorem createProducer_of_accepts {env : ConnectEnv} {sa : DefArg} (h : env.Accepts sa)
    (id : Nat) (errstr : String) :
    ∃ conf errstr', createProducer env id sa errstr =
      (some { id := id, kind := .producer, conf := conf }, errstr') := by
  obtain ⟨hset, hcreate⟩ := h
  rcases hconf : Conf.setAll env.api Conf.create errstr (connectSettings sa) with ⟨conf, errstr'⟩
  have hsome := (Conf.setAll_isSome env.api Conf.create errstr _).mpr hset
  rw [hconf] at hsome
  obtain ⟨conf, rfl⟩ := Option.isSome_iff_exists.mp hsome
  exact ⟨conf, errstr', by simp [createProducer, hconf, hcreate]⟩

theorem createProducer_of_not_accepts {env : ConnectEnv} {sa : DefArg} (h : ¬ env.Accepts sa)
    (id : Nat) (errstr : String) :
    ∃ errstr', createProducer env id sa errstr = (none, errstr') := by
  unfold createProducer
  rcases hconf : Conf.setAll env.api Conf.create errstr (connectSettings sa) with
    ⟨_ | conf, errstr'⟩
  · exact ⟨errstr', rfl⟩
  · cases hcreate : env.createFails with
    | some text => exact ⟨text, rfl⟩
    | none =>
      refine absurd ⟨?_, hcreate⟩ h
      apply (Conf.setAll_isSome env.api Conf.create errstr _).mp
      rw [hconf]
      rfl

/-- The configuration of a handle that `connect` has created. -/
theorem conf_of_createProducer {env : ConnectEnv} {id : Nat} {sa : DefArg}
    {errstr errstr' : String} {p : Client}
    (h : createProducer env id sa errstr = (some p, errstr')) :
    p.conf = writeAll Conf.create (env.api.writes (connectSettings sa)) := by
  unfold createProducer at h
  rcases hconf : Conf.setAll env.api Conf.create errstr (connectSettings sa) with
    ⟨_ | conf, text⟩
  · rw [hconf] at h
    cases h
  · rw [hconf] at h
    cases hcreate : env.createFails with
    | some text => simp [hcreate] at h
    | none =>
      simp only [hcreate, Prod.mk.injEq, Option.some.injEq] at h
      rw [← h.1]
      exact Conf.setAll_eq_writeAll hconf

/-- A `connect` that fails changes nothing. -/
theorem connect_of_not_accepts {env : ConnectEnv} {sa : DefArg} (h : ¬ env.Accepts sa)
    (w : World) (errstr : String) :
    ∃ errstr', connect env w sa errstr = .ok (false, w, errstr') := by
  obtain ⟨errstr', hcreate⟩ := createProducer_of_not_accepts h w.clients errstr
  exact ⟨errstr', by rw [connect, hcreate]⟩

/-- A `connect` that has created a handle. -/
theorem connect_of_created {env : ConnectEnv} {w : World} {sa : DefArg} {errstr errstr' : String}
    {p : Client} (h : createProducer env w.clients sa errstr = (some p, errstr')) :
    connect env w sa errstr =
      if w.bp.pollTh.isSome then .error .assignJoinable
      else .ok (true, (w.resetProducer p).launch, errstr') := by
  rw [connect, h]
  rfl

/-- What a `connect` that returned true leaves. -/
theorem connect_ok_true {env : ConnectEnv} {w w' : World} {sa : DefArg} {errstr errstr' : String}
    (h : connect env w sa errstr = .ok (true, w', errstr')) :
    ∃ p text, createProducer env w.clients sa errstr = (some p, text) ∧
      w' = (w.resetProducer p).launch := by
  rcases hcreate : createProducer env w.clients sa errstr with ⟨_ | p, text⟩
  · rw [connect, hcreate] at h
    cases h
  · rw [connect_of_created hcreate] at h
    split at h
    · cases h
    · cases h
      exact ⟨p, _, rfl, rfl⟩

/-- A librdkafka that accepts every setting; `create` fails or not. -/
def ConnectEnv.accepting (createFails : Option String) : ConnectEnv where
  api := { check := fun _ _ => (.CONF_OK, ""), setting := id }
  createFails := createFails

/-- Arguments for a topic of a local broker. -/
def localArgs (topic : String) : DefArg where
  endpoint := "localhost:9092"
  topic := topic
  user := ""
  passwd := ""
  params := .empty

end TsKafka.BasicProducer
