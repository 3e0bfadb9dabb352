import TsKafka.Defs
import TsKafka.Library.Overwrite

/-!
# The part of librdkafka's interface the sources use (`rdkafkacpp.h`)

Error codes, messages, the configuration object, the handles that `create` returns, topic
partitions, and the arguments of `Producer::produce`. What librdkafka answers is not decided
here: results come from the environment, as parameters of the functions that call it.
-/

namespace TsKafka.RdKafka
open Overwrite

/-- `RdKafka::ErrorCode`: the codes the sources name, and every other one by its number. -/
inductive ErrorCode where
  /-- Success (`0`). -/
  | ERR_NO_ERROR
  /-- Produced message timed out (`-192`). -/
  | ERR__MSG_TIMED_OUT
  /-- Operation timed out (`-185`). -/
  | ERR__TIMED_OUT
  /-- Queue is full (`-184`). -/
  | ERR__QUEUE_FULL
  /-- Assigned partitions (`-175`). -/
  | ERR__ASSIGN_PARTITIONS
  /-- Revoked partitions (`-174`). -/
  | ERR__REVOKE_PARTITIONS
  | other (code : Int)
  deriving DecidableEq, Repr

/-- The fields of a `RdKafka::Message` that the sources read: `err()`, the bytes between
`payload()` and `payload() + len()`, and `timestamp().timestamp`. -/
structure Message where
  err : ErrorCode
  payload : List UInt8
  timestamp : Int64
  deriving DecidableEq, Repr

/-- `len()`. -/
def Message.len (m : Message) : Nat := m.payload.length

/-! ## Configuration -/

/-- `Conf::ConfResult`. -/
inductive ConfResult where
  | CONF_UNKNOWN
  | CONF_INVALID
  | CONF_OK
  deriving DecidableEq, Repr

/-- The second argument of the `Conf::set` overloads in use: a text or a callback object. -/
inductive ConfValue where
  | text (value : String)
  | drCb
  | eventCb
  | rebalanceCb
  deriving DecidableEq, Repr

/-- The configuration object: the value of each setting that has been set. -/
abbrev Conf := String → Option ConfValue

/-- `Conf::create(CONF_GLOBAL)`. -/
def Conf.create : Conf := fun _ => none

/-- What librdkafka's `Conf::set` does with a name and a value: the result and the text it
leaves in `errstr` when it refuses, and the setting a name stands for (two names may stand for
one setting). -/
structure ConfApi where
  check : String → ConfValue → ConfResult × String
  setting : String → String

/-- One `conf->set(name, value, errstr)`: on success the setting is overwritten and nothing
else, on failure only `errstr` is written. -/
def Conf.set (api : ConfApi) (conf : Conf) (name : String) (value : ConfValue)
    (errstr : String) : ConfResult × Conf × String :=
  match api.check name value with
  | (.CONF_OK, _) => (.CONF_OK, Function.update conf (api.setting name) (some value), errstr)
  | (result, text) => (result, conf, text)

/-- A sequence of `if (conf->set(name, value, errstr) != CONF_OK) return false;`: `none` for the
configuration when one of them returned. -/
def Conf.setAll (api : ConfApi) (conf : Conf) (errstr : String) :
    List (String × ConfValue) → Option Conf × String
  | [] => (some conf, errstr)
  | (name, value) :: rest =>
    match Conf.set api conf name value errstr with
    | (.CONF_OK, conf', errstr') => Conf.setAll api conf' errstr' rest
    | (_, _, errstr') => (none, errstr')

/-! ## Handles -/

/-- The class a handle was created from: the legacy `Consumer`, the group-aware
`KafkaConsumer`, or `Producer`. -/
inductive ClientKind where
  | consumer
  | kafkaConsumer
  | producer
  deriving DecidableEq, Repr

/-- A client handle, told apart from the others by `id`. -/
structure Client where
  id : Nat
  kind : ClientKind
  conf : Conf

/-- A topic handle of the client `client`. -/
structure Topic where
  client : Nat
  name : String
  deriving DecidableEq, Repr

/-- A queue handle of the client `client`. -/
structure Queue where
  client : Nat
  deriving DecidableEq, Repr

/-- `Topic::PARTITION_UA`. -/
def Topic.PARTITION_UA : Int32 := -1

/-- `Producer::RK_MSG_COPY`. -/
def Producer.RK_MSG_COPY : Nat := 2

/-- `RdKafka::TopicPartition`: topic, partition and offset. -/
structure TopicPartition where
  topic : String
  partition : Int32
  offset : Int64
  deriving DecidableEq, Repr

/-- `set_offset`. -/
def TopicPartition.setOffset (p : TopicPartition) (offset : Int64) : TopicPartition :=
  { p with offset := offset }

/-- The arguments of the `produce` overload with a topic name and a timestamp
(`rdkafkacpp.h:2827-2831`); a null key and a null opaque are `none`. -/
structure ProduceArgs where
  topicName : String
  partition : Int32
  msgflags : Nat
  payload : List UInt8
  key : Option (List UInt8)
  timestamp : Int64
  msgOpaque : Option Nat
  deriving DecidableEq, Repr

/-! ## Lemmas about `setAll` -/

/-- `setAll` succeeds exactly when every single `set` is accepted. -/
theorem Conf.setAll_isSome (api : ConfApi) (conf : Conf) (errstr : String)
    (settings : List (String × ConfValue)) :
    (Conf.setAll api conf errstr settings).1.isSome ↔
      ∀ s ∈ settings, (api.check s.1 s.2).1 = .CONF_OK := by
  induction settings generalizing conf errstr with
  | nil => simp [Conf.setAll]
  | cons head rest ih =>
    obtain ⟨name, value⟩ := head
    simp only [Conf.setAll, Conf.set, List.forall_mem_cons]
    rcases hcheck : api.check name value with ⟨result, text⟩
    cases result with
    | CONF_OK => simp [ih]
    | CONF_UNKNOWN => simp
    | CONF_INVALID => simp

/-- Settings by name, as writes to the settings that the names stand for. -/
def ConfApi.writes (api : ConfApi) (settings : List (String × ConfValue)) :
    List (String × ConfValue) :=
  settings.map fun s => (api.setting s.1, s.2)

/-- A configuration that has been built holds, for each setting, the last value written to it. -/
theorem Conf.setAll_eq_writeAll {api : ConfApi} {conf conf' : Conf} {errstr errstr' : String}
    {settings : List (String × ConfValue)}
    (h : Conf.setAll api conf errstr settings = (some conf', errstr')) :
    conf' = writeAll conf (api.writes settings) := by
  induction settings generalizing conf errstr with
  | nil =>
    cases h
    rfl
  | cons s rest ih =>
    obtain ⟨name, value⟩ := s
    simp only [Conf.setAll, Conf.set] at h
    rcases hcheck : api.check name value with ⟨result, text⟩
    rw [hcheck] at h
    cases result with
    | CONF_OK => exact ih h
    | CONF_UNKNOWN => cases h
    | CONF_INVALID => cases h

end TsKafka.RdKafka
