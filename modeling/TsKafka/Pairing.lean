import TsKafka.BasicProducer.Lifecycle
import TsKafka.BasicConsumer.StartStop
import Mathlib.Data.List.Nodup

/-!
# A producer and a consumer set up from one `def_arg`

`basic_producer::connect` and `basic_consumer::pre_start` are written separately. The questions here
are what the two have in common: the address of the broker and the way in which the client
authenticates, and the topic.
-/

namespace TsKafka
open RdKafka Overwrite PartialRun

/-! ## What a configuration holds -/

/-- The names of the settings that `connect` and `pre_start` make for every `def_arg`. -/
def fixedNames : List String :=
  ["security.protocol", "debug", "metadata.broker.list", "event_cb", "message.timeout.ms",
    "sasl.mechanism", "sasl.username", "sasl.password", "dr_cb", "group.id", "rebalance_cb"]

/-- The settings that say how the client authenticates. -/
def authNames : List String :=
  ["security.protocol", "sasl.mechanism", "sasl.username", "sasl.password"]

/-- A key of `params` stands for the setting `name`. -/
def DefArg.Sets (api : ConfApi) (a : DefArg) (name : String) : Prop :=
  ∃ kv ∈ a.params.entries, api.setting kv.1 = api.setting name

/-- The value that `params` gives the setting `name`. -/
def DefArg.override (api : ConfApi) (a : DefArg) (name : String) : Option ConfValue :=
  lastWrite (api.writes a.paramSettings) (api.setting name)

theorem DefArg.override_isSome {api : ConfApi} {a : DefArg} {name : String} :
    (a.override api name).isSome ↔ a.Sets api name := by
  rw [Option.isSome_iff_ne_none, ne_eq, DefArg.override, lastWrite_eq_none]
  simp [ConfApi.writes, DefArg.paramSettings, DefArg.Sets]

/-- The value of a setting in a configuration built from fixed settings and `params`. -/
theorem writeAll_settings (api : ConfApi) (a : DefArg) (fixed : List (String × ConfValue))
    (name : String) :
    writeAll Conf.create (api.writes (fixed ++ a.paramSettings)) (api.setting name) =
      (a.override api name).or (lastWrite (api.writes fixed) (api.setting name)) := by
  rw [writeAll_apply, ConfApi.writes, List.map_append, lastWrite_append]
  exact Option.or_none

/-- The settings that `pre_start` makes for every `consumer_start_args`. -/
def preStartFixedSettings (rand : Int32) (sa : BasicConsumer.ConsumerStartArgs) :
    List (String × ConfValue) :=
  [("metadata.broker.list", .text sa.endpoint), ("group.id", .text (toString rand.toInt)),
    ("rebalance_cb", .rebalanceCb)]

theorem preStart_names (rand : Int32) (sa : BasicConsumer.ConsumerStartArgs) :
    ((preStartFixedSettings rand sa).map Prod.fst).Sublist fixedNames := by
  show List.Sublist ["metadata.broker.list", "group.id", "rebalance_cb"] fixedNames
  decide

section Fixed
variable {api : ConfApi} (hdistinct : (fixedNames.map api.setting).Nodup)
include hdistinct

/-- The value of a fixed setting, when the names of the fixed settings stand for different
settings. -/
theorem lastWrite_fixed {fixed : List (String × ConfValue)}
    (hnames : (fixed.map Prod.fst).Sublist fixedNames) {name : String} {value : ConfValue}
    (hmem : (name, value) ∈ fixed) :
    lastWrite (api.writes fixed) (api.setting name) = some value := by
  have hnodup : ((api.writes fixed).map Prod.fst).Nodup := by
    have hsub := hdistinct.sublist (hnames.map api.setting)
    rw [List.map_map] at hsub
    rw [ConfApi.writes, List.map_map]
    exact hsub
  exact lastWrite_of_mem (w := (api.setting name, value)) hnodup
    (List.mem_map.mpr ⟨(name, value), hmem, rfl⟩)

/-- A setting that is not made is not written under another name. -/
theorem lastWrite_not_fixed {fixed : List (String × ConfValue)}
    (hnames : (fixed.map Prod.fst).Sublist fixedNames) {name : String} (hname : name ∈ fixedNames)
    (hnot : name ∉ fixed.map Prod.fst) :
    lastWrite (api.writes fixed) (api.setting name) = none := by
  rw [lastWrite_eq_none]
  intro w hw heq
  obtain ⟨s, hs, rfl⟩ := List.mem_map.mp hw
  have hkey : s.1 ∈ fixed.map Prod.fst := List.mem_map.mpr ⟨s, hs, rfl⟩
  have hsame := List.inj_on_of_nodup_map hdistinct (hnames.subset hkey) hname heq
  exact hnot (hsame ▸ hkey)

/-- The fixed settings of `connect` in its configuration. -/
theorem connect_conf {a : DefArg} {name : String} {value : ConfValue}
    (hmem : (name, value) ∈ BasicProducer.connectFixedSettings a) :
    writeAll Conf.create (api.writes (BasicProducer.connectSettings a)) (api.setting name) =
      some ((a.override api name).getD value) := by
  have hnames : ((BasicProducer.connectFixedSettings a).map Prod.fst).Sublist fixedNames := by
    show List.Sublist ["security.protocol", "debug", "metadata.broker.list", "event_cb",
      "message.timeout.ms", "sasl.mechanism", "sasl.username", "sasl.password", "dr_cb"] fixedNames
    decide
  have hvalue := writeAll_settings api a (BasicProducer.connectFixedSettings a) name
  rw [lastWrite_fixed hdistinct hnames hmem] at hvalue
  refine hvalue.trans ?_
  cases a.override api name <;> rfl

/-- The address in the configuration of `pre_start`. -/
theorem preStart_conf_endpoint (rand : Int32) (sa : BasicConsumer.ConsumerStartArgs) :
    writeAll Conf.create (api.writes (BasicConsumer.preStartSettings rand sa))
        (api.setting "metadata.broker.list") =
      some ((sa.override api "metadata.broker.list").getD (.text sa.endpoint)) := by
  have hvalue := writeAll_settings api sa.toDefArg (preStartFixedSettings rand sa)
    "metadata.broker.list"
  have hmem : ("metadata.broker.list", ConfValue.text sa.endpoint) ∈
      preStartFixedSettings rand sa := List.mem_cons_self
  rw [lastWrite_fixed hdistinct (preStart_names rand sa) hmem] at hvalue
  refine hvalue.trans ?_
  cases sa.override api "metadata.broker.list" <;> rfl

/-- `pre_start` makes no other setting of its own. -/
theorem preStart_conf_other (rand : Int32) (sa : BasicConsumer.ConsumerStartArgs) {name : String}
    (hname : name ∈ fixedNames)
    (hnot : name ∉ ["metadata.broker.list", "group.id", "rebalance_cb"]) :
    writeAll Conf.create (api.writes (BasicConsumer.preStartSettings rand sa))
      (api.setting name) = sa.override api name := by
  have hvalue := writeAll_settings api sa.toDefArg (preStartFixedSettings rand sa) name
  rw [lastWrite_not_fixed hdistinct (preStart_names rand sa) hname hnot] at hvalue
  exact hvalue.trans Option.or_none

end Fixed

/-! ## What the two have in common -/

/-- What is expected of the configurations of a producer and a consumer with the same `def_arg`:
they reach the same broker and authenticate in the same way, as the `def_arg` says. -/
structure SameAccess (api : ConfApi) (a : DefArg) (conf conf' : Conf) : Prop where
  same : ∀ name ∈ "metadata.broker.list" :: authNames,
    conf (api.setting name) = conf' (api.setting name)
  endpoint : conf (api.setting "metadata.broker.list") =
    some ((a.override api "metadata.broker.list").getD (.text a.endpoint))
  user : conf (api.setting "sasl.username") =
    some ((a.override api "sasl.username").getD (.text a.user))
  passwd : conf (api.setting "sasl.password") =
    some ((a.override api "sasl.password").getD (.text a.passwd))
  overridden : ∀ name ∈ "metadata.broker.list" :: authNames,
    ∀ value, a.override api name = some value → conf (api.setting name) = some value

/-- The settings for authentication that `connect` makes for every `def_arg`. -/
theorem mem_connectFixedSettings (a : DefArg) {name : String} (hname : name ∈ authNames) :
    ∃ value, (name, value) ∈ BasicProducer.connectFixedSettings a := by
  simp only [authNames, List.mem_cons, List.not_mem_nil, or_false] at hname
  rcases hname with rfl | rfl | rfl | rfl
  · exact ⟨.text "sasl_plaintext", by simp [BasicProducer.connectFixedSettings]⟩
  · exact ⟨.text "PLAIN", by simp [BasicProducer.connectFixedSettings]⟩
  · exact ⟨.text "dev1", by simp [BasicProducer.connectFixedSettings]⟩
  · exact ⟨.text "dev1_", by simp [BasicProducer.connectFixedSettings]⟩

section Common
variable {api : ConfApi} (hdistinct : (fixedNames.map api.setting).Nodup)
include hdistinct

/-- `pre_start` leaves the settings for authentication to `params`. -/
theorem preStart_conf_auth (rand : Int32) (sa : BasicConsumer.ConsumerStartArgs) {name : String}
    (hname : name ∈ authNames) :
    writeAll Conf.create (api.writes (BasicConsumer.preStartSettings rand sa))
      (api.setting name) = sa.override api name := by
  have hother : ∀ name ∈ authNames, name ∈ fixedNames ∧
      name ∉ ["metadata.broker.list", "group.id", "rebalance_cb"] := by
    decide
  exact preStart_conf_other hdistinct rand sa (hother name hname).1 (hother name hname).2

/-- In the configuration of `connect` a setting for authentication has the value of `params`
exactly when there is one. -/
theorem connect_conf_auth (a : DefArg) {name : String} (hname : name ∈ authNames) :
    writeAll Conf.create (api.writes (BasicProducer.connectSettings a)) (api.setting name) =
      a.override api name ↔ a.Sets api name := by
  obtain ⟨value, hvalue⟩ := mem_connectFixedSettings a hname
  rw [connect_conf hdistinct hvalue, ← DefArg.override_isSome]
  cases a.override api name <;> simp

/-- The two configurations agree exactly when `params` makes every setting for authentication. -/
theorem sameAccess_iff (rand : Int32) (sa : BasicConsumer.ConsumerStartArgs) :
    SameAccess api sa.toDefArg
        (writeAll Conf.create (api.writes (BasicProducer.connectSettings sa.toDefArg)))
        (writeAll Conf.create (api.writes (BasicConsumer.preStartSettings rand sa))) ↔
      ∀ name ∈ authNames, sa.Sets api name := by
  have hmem : ("metadata.broker.list", ConfValue.text sa.endpoint) ∈
      BasicProducer.connectFixedSettings sa.toDefArg := by simp [BasicProducer.connectFixedSettings]
  have hendpoint := connect_conf hdistinct hmem
  constructor
  · intro h name hname
    have hsame := h.same name (List.mem_cons_of_mem _ hname)
    rw [preStart_conf_auth hdistinct rand sa hname] at hsame
    exact (connect_conf_auth hdistinct sa.toDefArg hname).mp hsame
  · intro h
    have hauth : ∀ name ∈ authNames,
        writeAll Conf.create (api.writes (BasicProducer.connectSettings sa.toDefArg))
          (api.setting name) = sa.override api name := fun name hname =>
      (connect_conf_auth hdistinct sa.toDefArg hname).mpr (h name hname)
    -- a setting for authentication has the value that `params` gives it
    have hgiven : ∀ name ∈ authNames, ∀ value,
        writeAll Conf.create (api.writes (BasicProducer.connectSettings sa.toDefArg))
          (api.setting name) = some ((sa.override api name).getD value) := by
      intro name hname value
      obtain ⟨given, hoverride⟩ := Option.isSome_iff_exists.mp
        (DefArg.override_isSome.mpr (h name hname))
      rw [hauth name hname, hoverride]
      rfl
    refine ⟨?_, hendpoint, hgiven _ (by decide) _, hgiven _ (by decide) _, ?_⟩
    · intro name hname
      rcases List.mem_cons.mp hname with rfl | hname
      · rw [hendpoint, preStart_conf_endpoint hdistinct]
      · rw [hauth name hname, preStart_conf_auth hdistinct rand sa hname]
    · intro name hname value hoverride
      rcases List.mem_cons.mp hname with rfl | hname
      · rw [hendpoint, hoverride]
        rfl
      · rw [hauth name hname, hoverride]

end Common

/-- When `connect` and `pre_start` have both returned true for one `def_arg`, their two handles
reach the same broker and authenticate in the same way exactly when `params` has a key for each
setting for authentication. The names of the fixed settings are assumed to stand for different
settings. -/
theorem same_access_iff_params_set_auth (cenv : BasicProducer.ConnectEnv)
    (senv : BasicConsumer.StartEnv) (hapi : senv.api = cenv.api)
    (hdistinct : (fixedNames.map cenv.api.setting).Nodup) (sa : BasicConsumer.ConsumerStartArgs)
    (w w' : BasicProducer.World) (v v' : BasicConsumer.World)
    (errstr errstr' text text' : String)
    (hconnect : BasicProducer.connect cenv w sa.toDefArg errstr = .ok (true, w', errstr'))
    (hpre : BasicConsumer.preStart senv v sa text = (true, v', text')) :
    ∃ p c, w'.bp.producer = some p ∧ v'.bc.consumer = some c ∧
      (SameAccess cenv.api sa.toDefArg p.conf c.conf ↔
        ∀ name ∈ authNames, sa.Sets cenv.api name) := by
  obtain ⟨p, _, hcreate, rfl⟩ := BasicProducer.connect_ok_true hconnect
  obtain ⟨gconf, _, hconf, rfl⟩ := BasicConsumer.preStart_true hpre
  refine ⟨p, _, rfl, rfl, ?_⟩
  show SameAccess cenv.api sa.toDefArg p.conf gconf ↔ _
  rw [BasicProducer.conf_of_createProducer hcreate, Conf.setAll_eq_writeAll hconf, hapi]
  exact sameAccess_iff hdistinct senv.rand sa

/-- A librdkafka that accepts everything and knows each setting by one name. -/
def acceptingApi : ConfApi := ⟨fun _ _ => (.CONF_OK, ""), id⟩

/-- Credentials that are not the ones that `connect` sends. -/
def aliceArgs (params : StringMap) : BasicConsumer.ConsumerStartArgs where
  endpoint := "localhost:9092"
  topic := "test"
  user := "alice"
  passwd := "secret"
  params := params
  startOffset := 0

/-- Without `params` the producer authenticates as a fixed user and the consumer not at all. -/
theorem no_params_not_same_access :
    ¬ ∀ (cenv : BasicProducer.ConnectEnv) (senv : BasicConsumer.StartEnv)
      (sa : BasicConsumer.ConsumerStartArgs) (w w' : BasicProducer.World)
      (v v' : BasicConsumer.World) (errstr errstr' text text' : String) (p c : Client),
      senv.api = cenv.api → (fixedNames.map cenv.api.setting).Nodup →
      BasicProducer.connect cenv w sa.toDefArg errstr = .ok (true, w', errstr') →
      BasicConsumer.preStart senv v sa text = (true, v', text') →
      w'.bp.producer = some p → v'.bc.consumer = some c →
      SameAccess cenv.api sa.toDefArg p.conf c.conf := by
  intro hclaim
  have haccess := hclaim ⟨acceptingApi, none⟩ ⟨41, acceptingApi, none, none⟩ (aliceArgs .empty)
    (.constructed false) _ (.fresh ⟨0, 0⟩) _ "" _ "" _ _ _ rfl (by decide) rfl rfl rfl rfl
  exact absurd (haccess.same "sasl.username" (by decide)) (by decide)

/-- The four settings for authentication as `params`. -/
def authParams : StringMap where
  entries := [("sasl.mechanism", "PLAIN"), ("sasl.password", "secret"),
    ("sasl.username", "alice"), ("security.protocol", "sasl_plaintext")]
  sorted := by decide

/-- The condition with all four in `params`. -/
theorem same_access_iff_params_set_auth_alice :
    ∃ w' v' errstr' text' p c,
      BasicProducer.connect ⟨acceptingApi, none⟩ (.constructed false) (aliceArgs authParams).toDefArg
        "" = .ok (true, w', errstr') ∧
      BasicConsumer.preStart ⟨41, acceptingApi, none, none⟩ (.fresh ⟨0, 0⟩) (aliceArgs authParams)
        "" = (true, v', text') ∧
      w'.bp.producer = some p ∧ v'.bc.consumer = some c ∧
      SameAccess acceptingApi (aliceArgs authParams).toDefArg p.conf c.conf := by
  obtain ⟨p, c, hp, hc, hiff⟩ := same_access_iff_params_set_auth ⟨acceptingApi, none⟩
    ⟨41, acceptingApi, none, none⟩ rfl (by decide) (aliceArgs authParams) (.constructed false) _
    (.fresh ⟨0, 0⟩) _ "" _ "" _ rfl rfl
  refine ⟨_, _, _, _, p, c, rfl, rfl, hp, hc, hiff.mpr ?_⟩
  simp [authNames, DefArg.Sets, aliceArgs, authParams, acceptingApi]

/-! ## Whether they meet on one topic -/

/-- The record goes to the topic of the `def_arg`, the one for which `pre_start` creates its handle
when it is given the same `def_arg`. -/
structure Routed (a : DefArg) (args : ProduceArgs) : Prop where
  topicName : args.topicName = a.topic
  handle : ∀ (env : BasicConsumer.StartEnv) (v v' : BasicConsumer.World)
    (sa : BasicConsumer.ConsumerStartArgs) (errstr errstr' : String), sa.toDefArg = a →
    BasicConsumer.preStart env v sa errstr = (true, v', errstr') →
      v'.bc.topic.map Topic.name = some args.topicName

theorem routed_iff {a : DefArg} {args : ProduceArgs} :
    Routed a args ↔ args.topicName = a.topic := by
  refine ⟨Routed.topicName, fun h => ⟨h, ?_⟩⟩
  rintro env v v' sa errstr errstr' rfl hpre
  obtain ⟨gconf, _, -, rfl⟩ := BasicConsumer.preStart_true hpre
  rw [h]
  rfl

/-- In every history of `connect` and `push` calls, the accepted records all go to the topic of the
last `connect` that returned true exactly when each was accepted while that topic was the empty
one. -/
theorem routed_iff_topic_empty (clock : Clock) (stop : Bool) (script : List BasicProducer.Op)
    (as : List BasicProducer.LifeAction) (s : BasicProducer.Life)
    (hrun : run (BasicProducer.lifeStep clock) (.begin stop script) as = some s) :
    (∀ r ∈ s.accepted, ∃ a, r.1 = some a ∧ Routed a r.2) ↔
      ∀ r ∈ s.accepted, ∃ a, r.1 = some a ∧ a.topic = "" := by
  have hempty := BasicProducer.topicName_eq_empty hrun
  refine forall₂_congr fun r hr => exists_congr fun a => and_congr_right fun _ => ?_
  rw [routed_iff, hempty r hr]
  exact eq_comm

/-- One `connect` that succeeds, and one `push`. -/
def connectAndPush (topic : String) : List BasicProducer.Op :=
  [.connect (.accepting none) (BasicProducer.localArgs topic) "", .push ⟨0, [7]⟩ false]

/-- The caller goes on until its record is accepted. -/
def untilAccepted : List BasicProducer.LifeAction :=
  List.replicate 5 (.caller .ERR_NO_ERROR false)

/-- A record pushed after a `connect` for the topic "test" is not addressed to it. -/
theorem test_topic_not_routed :
    ¬ ∀ (clock : Clock) (stop : Bool) (script : List BasicProducer.Op)
      (as : List BasicProducer.LifeAction) (s : BasicProducer.Life),
      run (BasicProducer.lifeStep clock) (.begin stop script) as = some s →
      ∀ r ∈ s.accepted, ∃ a, r.1 = some a ∧ Routed a r.2 := by
  intro hclaim
  obtain ⟨a, ha, hrouted⟩ := hclaim .hundredNanoseconds false (connectAndPush "test")
    untilAccepted _ rfl _ (List.mem_singleton.mpr rfl)
  cases ha
  exact absurd hrouted.topicName (by decide)

/-- The condition at a history with the empty topic. -/
theorem routed_iff_topic_empty_once :
    ∃ s r, run (BasicProducer.lifeStep .hundredNanoseconds) (.begin false (connectAndPush ""))
      untilAccepted = some s ∧ s.accepted = [r] ∧ ∃ a, r.1 = some a ∧ Routed a r.2 := by
  refine ⟨_, _, rfl, rfl, (routed_iff_topic_empty .hundredNanoseconds false (connectAndPush "")
    untilAccepted _ rfl).mpr ?_ _ (List.mem_singleton.mpr rfl)⟩
  intro r hr
  rw [List.mem_singleton.mp hr]
  exact ⟨_, rfl, rfl⟩

end TsKafka
