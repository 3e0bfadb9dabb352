import TsKafka.BasicConsumer.Lifecycle
import TsKafka.BasicProducer.Connect
import TsKafka.Library.PartialRun

/-!
# Setting up with one `errstr`

A program makes its `connect` and `start` calls with one `std::string` for their errors and tries
again what has failed. The results say what it finds in the string: the text of the first thing
that was refused in the last call that failed.
-/

namespace TsKafka
open RdKafka PartialRun

namespace RdKafka

/-- The text with which `Conf::set` refuses a setting. -/
def ConfApi.refusal (api : ConfApi) (s : String × ConfValue) : Option String :=
  match api.check s.1 s.2 with
  | (.CONF_OK, _) => none
  | (_, text) => some text

/-- The settings up to the first refused one are made; its text is what `errstr` then holds. -/
theorem Conf.setAll_eq (api : ConfApi) (conf : Conf) (errstr : String)
    (settings : List (String × ConfValue)) :
    (settings.findSome? api.refusal = none →
      ∃ conf', Conf.setAll api conf errstr settings = (some conf', errstr)) ∧
    ∀ text, settings.findSome? api.refusal = some text →
      Conf.setAll api conf errstr settings = (none, text) := by
  induction settings generalizing conf with
  | nil => exact ⟨fun _ => ⟨conf, rfl⟩, by rintro text ⟨⟩⟩
  | cons s rest ih =>
    rw [Conf.setAll, Conf.set, List.findSome?_cons, ConfApi.refusal]
    rcases api.check s.1 s.2 with ⟨result, text⟩
    cases result with
    | CONF_OK => exact ih _
    | CONF_UNKNOWN => exact ⟨by rintro ⟨⟩, fun _ h => by cases h; rfl⟩
    | CONF_INVALID => exact ⟨by rintro ⟨⟩, fun _ h => by cases h; rfl⟩

end RdKafka

/-- The text with which a `connect` is refused: of the first setting that is, or else of
`Producer::create`. -/
def BasicProducer.ConnectEnv.refusal (env : BasicProducer.ConnectEnv) (sa : DefArg) :
    Option String :=
  ((BasicProducer.connectSettings sa).findSome? env.api.refusal).or env.createFails

/-- The text with which a `start` is refused: of the first setting that is, or else of
`Consumer::create`, or else of `Topic::create`. -/
def BasicConsumer.StartEnv.refusal (env : BasicConsumer.StartEnv)
    (sa : BasicConsumer.ConsumerStartArgs) : Option String :=
  (((BasicConsumer.preStartSettings env.rand sa).findSome? env.api.refusal).or
    env.consumerCreateFails).or env.topicCreateFails

/-- A `connect` that returns says whether it was refused, and why. -/
theorem BasicProducer.connect_refusal {env : BasicProducer.ConnectEnv} {w w' : BasicProducer.World}
    {sa : DefArg} {errstr errstr' : String} {ok : Bool}
    (h : BasicProducer.connect env w sa errstr = .ok (ok, w', errstr')) :
    ok = (env.refusal sa).isNone ∧ errstr' = (env.refusal sa).getD errstr := by
  obtain ⟨haccepted, hrefused⟩ :=
    Conf.setAll_eq env.api Conf.create errstr (BasicProducer.connectSettings sa)
  rw [BasicProducer.connect, BasicProducer.createProducer] at h
  rw [BasicProducer.ConnectEnv.refusal]
  cases hset : (BasicProducer.connectSettings sa).findSome? env.api.refusal with
  | some text =>
    rw [hrefused text hset] at h
    cases h
    exact ⟨rfl, rfl⟩
  | none =>
    obtain ⟨conf, hconf⟩ := haccepted hset
    rw [hconf] at h
    cases hcreate : env.createFails with
    | some text =>
      rw [hcreate] at h
      cases h
      exact ⟨rfl, rfl⟩
    | none =>
      rw [hcreate] at h
      dsimp only at h
      split at h
      · cases h
      · cases h
        exact ⟨rfl, rfl⟩

/-- A `start` that returns says whether it was refused, and why. -/
theorem BasicConsumer.start_refusal {env : BasicConsumer.StartEnv} {w w' : BasicConsumer.World}
    {sa : BasicConsumer.ConsumerStartArgs} {errstr errstr' : String} {ok : Bool}
    (h : BasicConsumer.start env w sa errstr = .ok (ok, w', errstr')) :
    ok = (env.refusal sa).isNone ∧ errstr' = (env.refusal sa).getD errstr := by
  obtain ⟨haccepted, hrefused⟩ :=
    Conf.setAll_eq env.api Conf.create errstr (BasicConsumer.preStartSettings env.rand sa)
  rw [BasicConsumer.start, BasicConsumer.preStart] at h
  rw [BasicConsumer.StartEnv.refusal]
  cases hset : (BasicConsumer.preStartSettings env.rand sa).findSome? env.api.refusal with
  | some text =>
    rw [hrefused text hset] at h
    cases h
    exact ⟨rfl, rfl⟩
  | none =>
    obtain ⟨conf, hconf⟩ := haccepted hset
    rw [hconf] at h
    cases hconsumer : env.consumerCreateFails with
    | some text =>
      rw [hconsumer] at h
      cases h
      exact ⟨rfl, rfl⟩
    | none =>
      rw [hconsumer] at h
      cases htopic : env.topicCreateFails with
      | some text =>
        rw [htopic] at h
        cases h
        exact ⟨rfl, rfl⟩
      | none =>
        rw [htopic] at h
        dsimp only at h
        split at h
        · cases h
        · cases h
          exact ⟨rfl, rfl⟩

/-! ## One call after the other -/

/-- A producer, a consumer, the string for errors and the results of the calls made so far. -/
structure Setup where
  producer : BasicProducer.World
  consumer : BasicConsumer.World
  errstr : String
  results : List Bool

/-- A call with the answers of librdkafka. -/
inductive SetupCall where
  | connect (env : BasicProducer.ConnectEnv) (sa : DefArg)
  | start (env : BasicConsumer.StartEnv) (sa : BasicConsumer.ConsumerStartArgs)

/-- The text with which the call is refused. -/
def SetupCall.refusal : SetupCall → Option String
  | .connect env sa => env.refusal sa
  | .start env sa => env.refusal sa

/-- A call that returns. -/
def setupStep (s : Setup) : SetupCall → Option Setup
  | .connect env sa =>
    match BasicProducer.connect env s.producer sa s.errstr with
    | .ok (ok, w, errstr) => some ⟨w, s.consumer, errstr, s.results ++ [ok]⟩
    | .error _ => none
  | .start env sa =>
    match BasicConsumer.start env s.consumer sa s.errstr with
    | .ok (ok, w, errstr) => some ⟨s.producer, w, errstr, s.results ++ [ok]⟩
    | .error _ => none

theorem setupStep_eq {s t : Setup} {c : SetupCall} (h : setupStep s c = some t) :
    t.errstr = c.refusal.getD s.errstr ∧ t.results = s.results ++ [c.refusal.isNone] := by
  cases c with
  | connect env sa =>
    simp only [setupStep] at h
    split at h
    · rename_i hconnect
      obtain ⟨hok, herrstr⟩ := BasicProducer.connect_refusal hconnect
      cases h
      exact ⟨herrstr, by rw [hok]; rfl⟩
    · cases h
  | start env sa =>
    simp only [setupStep] at h
    split at h
    · rename_i hstart
      obtain ⟨hok, herrstr⟩ := BasicConsumer.start_refusal hstart
      cases h
      exact ⟨herrstr, by rw [hok]; rfl⟩
    · cases h

/-- What the program finds after its calls, of which all have returned. -/
structure ErrorsTold (s : Setup) (calls : List SetupCall) (t : Setup) : Prop where
  results : t.results = s.results ++ calls.map fun c => c.refusal.isNone
  /-- The text of the last refusal: a call that succeeds does not clear it. -/
  errstr : t.errstr = (calls.reverse.findSome? SetupCall.refusal).getD s.errstr

theorem errors_told (s t : Setup) (calls : List SetupCall)
    (hrun : run setupStep s calls = some t) : ErrorsTold s calls t := by
  induction calls generalizing s with
  | nil =>
    cases hrun
    exact ⟨(List.append_nil _).symm, rfl⟩
  | cons c rest ih =>
    obtain ⟨m, hstep, hrest⟩ := run_cons_eq_some.mp hrun
    obtain ⟨herrstr, hresults⟩ := setupStep_eq hstep
    have h := ih m hrest
    constructor
    · rw [h.results, hresults, List.map_cons, List.append_assoc]
      rfl
    · rw [h.errstr, herrstr, List.reverse_cons, List.findSome?_append]
      cases rest.reverse.findSome? SetupCall.refusal <;> cases hc : c.refusal <;> simp [hc]

/-- A `start` is refused, then a `connect` and the `start` go through. -/
def retriedStart : List SetupCall :=
  [.start .refusing .fromBeginning, .connect (.accepting none) (BasicProducer.localArgs "topic"),
    .start .accepting .fromBeginning]

theorem errors_told_retriedStart :
    ∃ t, run setupStep ⟨.constructed false, .fresh ⟨0, 0⟩, "", []⟩ retriedStart = some t ∧
      ErrorsTold ⟨.constructed false, .fresh ⟨0, 0⟩, "", []⟩ retriedStart t ∧
      t.results = [false, true, true] ∧ t.errstr = "No provider" :=
  ⟨_, rfl, errors_told _ _ retriedStart rfl, rfl, rfl⟩

end TsKafka
