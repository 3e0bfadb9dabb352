import TsKafka.BasicProducer.Connect

/-!
# What `connect` asks for, call by call (`basic_producer.cpp:66-113`)

`connect` with the list of its calls: the settings it attempts until the first one that is
refused, the configuration it hands to `create`, and the thread it launches.
-/

namespace TsKafka.BasicProducer
open RdKafka Overwrite

/-- A call of `connect`. -/
inductive ConnectCall where
  | set (name : String) (value : ConfValue)
  | create (conf : Conf)
  /-- `std::thread(&basic_producer::bg_pool, this)`. -/
  | launch

/-- The call that makes a setting. -/
def ConnectCall.ofSetting (s : String × ConfValue) : ConnectCall := .set s.1 s.2

/-- `Conf.setAll` with its calls. -/
def setAllCalls (api : ConfApi) (conf : Conf) (errstr : String) :
    List (String × ConfValue) → (Option Conf × String) × List ConnectCall
  | [] => ((some conf, errstr), [])
  | (name, value) :: rest =>
    match Conf.set api conf name value errstr with
    | (.CONF_OK, conf', errstr') =>
      let next := setAllCalls api conf' errstr' rest
      (next.1, .set name value :: next.2)
    | (_, _, errstr') => ((none, errstr'), [.set name value])

/-- `connect` with its calls. -/
def connectCalls (env : ConnectEnv) (w : World) (sa : DefArg) (errstr : String) :
    Except Fault (Bool × World × String) × List ConnectCall :=
  match setAllCalls env.api Conf.create errstr (connectSettings sa) with
  | ((none, errstr), calls) => (.ok (false, w, errstr), calls)
  | ((some conf, errstr), calls) =>
    match env.createFails with
    | some text => (.ok (false, w, text), calls ++ [.create conf])
    | none =>
      let w := w.resetProducer { id := w.clients, kind := .producer, conf := conf }
      -- the new thread runs before the assignment finds the old one joinable
      (if w.bp.pollTh.isSome then .error .assignJoinable else .ok (true, w.launch, errstr),
        calls ++ [.create conf, .launch])

/-! ## Without its calls it is `connect` -/

theorem setAllCalls_fst (api : ConfApi) (conf : Conf) (errstr : String)
    (settings : List (String × ConfValue)) :
    (setAllCalls api conf errstr settings).1 = Conf.setAll api conf errstr settings := by
  induction settings generalizing conf errstr with
  | nil => rfl
  | cons s rest ih =>
    rw [setAllCalls, Conf.setAll]
    rcases Conf.set api conf s.1 s.2 errstr with ⟨result, conf', errstr'⟩
    cases result with
    | CONF_OK => exact ih conf' errstr'
    | CONF_UNKNOWN => rfl
    | CONF_INVALID => rfl

theorem connectCalls_fst (env : ConnectEnv) (w : World) (sa : DefArg) (errstr : String) :
    (connectCalls env w sa errstr).1 = connect env w sa errstr := by
  rw [connectCalls, connect, createProducer, ← setAllCalls_fst]
  rcases setAllCalls env.api Conf.create errstr (connectSettings sa) with
    ⟨⟨_ | conf, errstr'⟩, calls⟩
  · rfl
  · cases env.createFails with
    | some text => rfl
    | none => rfl

/-! ## The attempted settings -/

/-- `Conf::set` accepts the setting. -/
def ConnectEnv.Takes (env : ConnectEnv) (s : String × ConfValue) : Prop :=
  (env.api.check s.1 s.2).1 = .CONF_OK

theorem setAllCalls_cons_of_takes {env : ConnectEnv} {s : String × ConfValue} (h : env.Takes s)
    (conf : Conf) (errstr : String) (rest : List (String × ConfValue)) :
    ∃ conf' errstr', setAllCalls env.api conf errstr (s :: rest) =
      ((setAllCalls env.api conf' errstr' rest).1,
        .ofSetting s :: (setAllCalls env.api conf' errstr' rest).2) := by
  refine ⟨Function.update conf (env.api.setting s.1) (some s.2), errstr, ?_⟩
  rw [setAllCalls, Conf.set]
  rcases hcheck : env.api.check s.1 s.2 with ⟨result, text⟩
  obtain rfl : result = .CONF_OK := by simpa [ConnectEnv.Takes, hcheck] using h
  rfl

theorem setAllCalls_cons_of_not_takes {env : ConnectEnv} {s : String × ConfValue}
    (h : ¬ env.Takes s) (conf : Conf) (errstr : String) (rest : List (String × ConfValue)) :
    ∃ text, setAllCalls env.api conf errstr (s :: rest) = ((none, text), [.ofSetting s]) := by
  rw [setAllCalls, Conf.set]
  rcases hcheck : env.api.check s.1 s.2 with ⟨result, text⟩
  rw [ConnectEnv.Takes, hcheck] at h
  cases result with
  | CONF_OK => exact absurd rfl h
  | CONF_UNKNOWN => exact ⟨text, rfl⟩
  | CONF_INVALID => exact ⟨text, rfl⟩

/-- The settings up to the first refused one are attempted, and no other. -/
theorem setAllCalls_of_refused {env : ConnectEnv} {before : List (String × ConfValue)}
    {s : String × ConfValue} (hbefore : ∀ b ∈ before, env.Takes b) (hs : ¬ env.Takes s)
    (conf : Conf) (errstr : String) (after : List (String × ConfValue)) :
    ∃ text, setAllCalls env.api conf errstr (before ++ s :: after) =
      ((none, text), (before ++ [s]).map .ofSetting) := by
  induction before generalizing conf errstr with
  | nil => exact setAllCalls_cons_of_not_takes hs conf errstr after
  | cons b before ih =>
    obtain ⟨hb, hbefore⟩ := List.forall_mem_cons.mp hbefore
    obtain ⟨conf', errstr', hcons⟩ :=
      setAllCalls_cons_of_takes hb conf errstr (before ++ s :: after)
    obtain ⟨text, hrest⟩ := ih hbefore conf' errstr'
    exact ⟨text, by rw [List.cons_append, hcons, hrest]; rfl⟩

/-- Where every setting is accepted, every one is attempted. -/
theorem setAllCalls_of_takes {env : ConnectEnv} {settings : List (String × ConfValue)}
    (h : ∀ s ∈ settings, env.Takes s) (conf : Conf) (errstr : String) :
    (setAllCalls env.api conf errstr settings).2 = settings.map .ofSetting := by
  induction settings generalizing conf errstr with
  | nil => rfl
  | cons s rest ih =>
    obtain ⟨hs, hrest⟩ := List.forall_mem_cons.mp h
    obtain ⟨conf', errstr', hcons⟩ := setAllCalls_cons_of_takes hs conf errstr rest
    rw [hcons, ih hrest, List.map_cons]

/-! ## The configuration -/

/-- The settings of `params` behind a key all have a larger key. -/
theorem entries_split {params : StringMap} {kv : String × String} (hkv : kv ∈ params.entries) :
    ∃ before after, params.entries = before ++ kv :: after ∧ ∀ kv' ∈ after, kv.1 < kv'.1 := by
  obtain ⟨before, after, hsplit⟩ := List.append_of_mem hkv
  refine ⟨before, after, hsplit, fun kv' hkv' => ?_⟩
  have hsorted := params.sorted
  rw [hsplit, List.map_append, List.map_cons] at hsorted
  have hbehind := (List.pairwise_append.mp hsorted).2.1
  exact List.rel_of_pairwise_cons hbehind (List.mem_map_of_mem hkv')

/-- The configuration of a handle: the fixed settings with `params` applied on top. -/
structure ConnectConf (env : ConnectEnv) (sa : DefArg) (conf : Conf) : Prop where
  onTop : conf = writeAll (writeAll Conf.create (env.api.writes (connectFixedSettings sa)))
    (env.api.writes sa.paramSettings)
  /-- A key has its value, unless a larger key names the same setting. -/
  ofParams : ∀ kv ∈ sa.params.entries,
    (∀ kv' ∈ sa.params.entries, kv.1 < kv'.1 →
      env.api.setting kv'.1 ≠ env.api.setting kv.1) →
    conf (env.api.setting kv.1) = some (.text kv.2)
  /-- A setting that no key names has its fixed value. -/
  ofFixed : ∀ name, (∀ kv ∈ sa.params.entries, env.api.setting kv.1 ≠ name) →
    conf name = lastWrite (env.api.writes (connectFixedSettings sa)) name
  /-- Where the nine fixed names stand for nine settings, each that no key names has its value. -/
  fixed : ((connectFixedSettings sa).map fun s => env.api.setting s.1).Nodup →
    ∀ s ∈ [("security.protocol", .text "sasl_plaintext"), ("debug", .text "all"),
      ("metadata.broker.list", .text sa.endpoint), ("event_cb", .eventCb),
      ("message.timeout.ms", .text "1000"), ("sasl.mechanism", .text "PLAIN"),
      ("sasl.username", .text "dev1"), ("sasl.password", .text "dev1_"), ("dr_cb", .drCb)],
    (∀ kv ∈ sa.params.entries, env.api.setting kv.1 ≠ env.api.setting s.1) →
      conf (env.api.setting s.1) = some s.2

theorem connectConf_writeAll (env : ConnectEnv) (sa : DefArg) :
    ConnectConf env sa (writeAll Conf.create (env.api.writes (connectSettings sa))) := by
  have honTop : writeAll Conf.create (env.api.writes (connectSettings sa)) =
      writeAll (writeAll Conf.create (env.api.writes (connectFixedSettings sa)))
        (env.api.writes sa.paramSettings) := by
    rw [← writeAll_append, ConfApi.writes, ConfApi.writes, ConfApi.writes, ← List.map_append]
    rfl
  have hofFixed : ∀ name, (∀ kv ∈ sa.params.entries, env.api.setting kv.1 ≠ name) →
      writeAll Conf.create (env.api.writes (connectSettings sa)) name =
        lastWrite (env.api.writes (connectFixedSettings sa)) name := by
    intro name hname
    have hnone : lastWrite (env.api.writes sa.paramSettings) name = none := by
      rw [lastWrite_eq_none, ConfApi.writes, DefArg.paramSettings, List.map_map,
        List.forall_mem_map]
      exact hname
    rw [honTop, writeAll_apply, hnone, Option.none_or, writeAll_apply]
    exact Option.or_none
  refine ⟨honTop, fun kv hkv hlarger => ?_, hofFixed, fun hnodup s hs hkeys => ?_⟩
  · obtain ⟨before, after, hsplit, hafter⟩ := entries_split hkv
    have hlast : lastWrite (env.api.writes sa.paramSettings) (env.api.setting kv.1) =
        some (.text kv.2) := by
      rw [DefArg.paramSettings, hsplit, ConfApi.writes, List.map_append, List.map_cons,
        List.map_append, List.map_cons]
      apply lastWrite_append_cons (env.api.setting kv.1, ConfValue.text kv.2)
      simp only [List.map_map, List.forall_mem_map]
      intro kv' hkv'
      apply hlarger kv' _ (hafter kv' hkv')
      simp [hsplit, hkv']
    rw [honTop, writeAll_apply, hlast, Option.some_or]
  · have hnames : ((env.api.writes (connectFixedSettings sa)).map Prod.fst).Nodup := by
      rwa [ConfApi.writes, List.map_map]
    change s ∈ connectFixedSettings sa at hs
    have hwrite : (env.api.setting s.1, s.2) ∈ env.api.writes (connectFixedSettings sa) := by
      rw [ConfApi.writes, List.mem_map]
      exact ⟨s, hs, rfl⟩
    rw [hofFixed _ hkeys]
    generalize env.api.writes (connectFixedSettings sa) = writes at hnames hwrite ⊢
    exact lastWrite_of_mem hnames hwrite

/-! ## The whole call -/

/-- What `connect` does to a producer `w` when it returns `ok`, leaves `w'` and has made
`calls`. -/
structure ConnectContract (env : ConnectEnv) (w : World) (sa : DefArg) (ok : Bool) (w' : World)
    (calls : List ConnectCall) : Prop where
  accepts : ok = true ↔ env.Accepts sa
  unchanged : ok = false → w' = w
  noThread : ok = false → .launch ∉ calls
  /-- No setting is attempted after the first one that is refused, and nothing else is done. -/
  refused : ∀ before s after, connectSettings sa = before ++ s :: after →
    (∀ b ∈ before, env.Takes b) → ¬ env.Takes s → calls = (before ++ [s]).map .ofSetting
  connected : ok = true → ∃ conf, ConnectConf env sa conf ∧
    calls = (connectSettings sa).map .ofSetting ++ [.create conf, .launch] ∧
    w'.bp = { w.bp with
      producer := some { id := w.clients, kind := .producer, conf := conf }
      pollTh := some w.threads }

/-- A list with a refused setting starts with accepted ones. -/
theorem exists_first_refused {env : ConnectEnv} {settings : List (String × ConfValue)}
    (h : ¬ ∀ s ∈ settings, env.Takes s) :
    ∃ before s after, settings = before ++ s :: after ∧ (∀ b ∈ before, env.Takes b) ∧
      ¬ env.Takes s := by
  induction settings with
  | nil => exact absurd (by simp) h
  | cons s rest ih =>
    by_cases hs : env.Takes s
    · have hrest : ¬ ∀ s ∈ rest, env.Takes s := fun hrest =>
        h (List.forall_mem_cons.mpr ⟨hs, hrest⟩)
      obtain ⟨before, r, after, rfl, hbefore, hr⟩ := ih hrest
      exact ⟨s :: before, r, after, rfl, List.forall_mem_cons.mpr ⟨hs, hbefore⟩, hr⟩
    · exact ⟨[], s, rest, rfl, by simp, hs⟩

/-- A `connect` with a refused setting. -/
theorem connectCalls_of_refused {env : ConnectEnv} {sa : DefArg}
    {before after : List (String × ConfValue)} {s : String × ConfValue}
    (hsplit : connectSettings sa = before ++ s :: after) (hbefore : ∀ b ∈ before, env.Takes b)
    (hs : ¬ env.Takes s) (w : World) (errstr : String) :
    ∃ text, connectCalls env w sa errstr =
      (.ok (false, w, text), (before ++ [s]).map .ofSetting) := by
  obtain ⟨text, hset⟩ := setAllCalls_of_refused hbefore hs Conf.create errstr after
  exact ⟨text, by rw [connectCalls, hsplit, hset]⟩

/-- The configuration and the calls of settings that are all accepted. -/
theorem setAllCalls_connectSettings {env : ConnectEnv} {sa : DefArg}
    (h : ∀ s ∈ connectSettings sa, env.Takes s) (errstr : String) :
    ∃ conf text, ConnectConf env sa conf ∧
      setAllCalls env.api Conf.create errstr (connectSettings sa) =
        ((some conf, text), (connectSettings sa).map .ofSetting) := by
  have hfst := setAllCalls_fst env.api Conf.create errstr (connectSettings sa)
  have hcalls := setAllCalls_of_takes h Conf.create errstr
  have hsome := (Conf.setAll_isSome env.api Conf.create errstr (connectSettings sa)).mpr h
  rcases hset : setAllCalls env.api Conf.create errstr (connectSettings sa) with
    ⟨⟨_ | conf, text⟩, calls⟩
  · rw [← hfst, hset] at hsome
    cases hsome
  · rw [hset] at hfst hcalls
    obtain rfl : calls = (connectSettings sa).map .ofSetting := hcalls
    have hconf := Conf.setAll_eq_writeAll hfst.symm
    exact ⟨conf, text, hconf ▸ connectConf_writeAll env sa, rfl⟩

/-- The contract of a `connect` that returns false after it has made `calls`. -/
theorem ConnectContract.of_false {env : ConnectEnv} {sa : DefArg} {calls : List ConnectCall}
    (haccepts : ¬ env.Accepts sa)
    (hlaunch : .launch ∉ calls)
    (hrefused : ∀ before s after, connectSettings sa = before ++ s :: after →
      (∀ b ∈ before, env.Takes b) → ¬ env.Takes s → calls = (before ++ [s]).map .ofSetting)
    (w : World) : ConnectContract env w sa false w calls where
  accepts := iff_of_false Bool.false_ne_true haccepts
  unchanged _ := rfl
  noThread _ := hlaunch
  refused := hrefused
  connected := by rintro ⟨⟩

theorem launch_not_mem_map (settings : List (String × ConfValue)) :
    ConnectCall.launch ∉ settings.map .ofSetting := by
  simp [ConnectCall.ofSetting]

/-- `connect` on a producer without a polling thread: all or nothing, and the configuration of the
handle. -/
theorem connect_contract (env : ConnectEnv) (w : World) (sa : DefArg) (errstr : String)
    (hthread : w.bp.pollTh = none) :
    ∃ ok w' text calls, connectCalls env w sa errstr = (.ok (ok, w', text), calls) ∧
      connect env w sa errstr = .ok (ok, w', text) ∧
      ConnectContract env w sa ok w' calls := by
  rw [← connectCalls_fst]
  by_cases htakes : ∀ s ∈ connectSettings sa, env.Takes s
  · have hnone : ∀ (calls : List ConnectCall) before s after,
        connectSettings sa = before ++ s :: after → (∀ b ∈ before, env.Takes b) →
        ¬ env.Takes s → calls = (before ++ [s]).map .ofSetting :=
      fun calls before s after hsplit _ hs => absurd (htakes s (by simp [hsplit])) hs
    obtain ⟨conf, text, hconf, hset⟩ := setAllCalls_connectSettings htakes errstr
    cases hcreate : env.createFails with
    | some text' =>
      have hcalls : connectCalls env w sa errstr = (.ok (false, w, text'),
          (connectSettings sa).map .ofSetting ++ [.create conf]) := by
        simp only [connectCalls, hset, hcreate]
      refine ⟨false, w, text', _, hcalls, congrArg Prod.fst hcalls, .of_false ?_ ?_ ?_ w⟩
      · intro haccepts
        cases hcreate.symm.trans haccepts.2
      · simpa using launch_not_mem_map (connectSettings sa)
      · exact hnone _
    | none =>
      have hcalls : connectCalls env w sa errstr = (.ok (true, (w.resetProducer
            { id := w.clients, kind := .producer, conf := conf }).launch, text),
          (connectSettings sa).map .ofSetting ++ [.create conf, .launch]) := by
        simp [connectCalls, hset, hcreate, World.resetProducer, hthread]
      refine ⟨true, _, text, _, hcalls, congrArg Prod.fst hcalls, ?_, ?_, ?_, hnone _,
        fun _ => ⟨conf, hconf, rfl, rfl⟩⟩
      · exact iff_of_true rfl ⟨htakes, hcreate⟩
      · rintro ⟨⟩
      · rintro ⟨⟩
  · obtain ⟨before, s, after, hsplit, hbefore, hs⟩ := exists_first_refused htakes
    obtain ⟨text, hcalls⟩ := connectCalls_of_refused hsplit hbefore hs w errstr
    refine ⟨false, w, text, _, hcalls, congrArg Prod.fst hcalls, .of_false ?_ ?_ ?_ w⟩
    · exact fun h => htakes h.1
    · exact launch_not_mem_map _
    · intro before' s' after' hsplit' hbefore' hs'
      obtain ⟨text', hcalls'⟩ := connectCalls_of_refused hsplit' hbefore' hs' w errstr
      exact congrArg Prod.snd (hcalls.symm.trans hcalls')

/-- A first `connect` to a local broker. -/
theorem connect_contract_local :
    ∃ ok w' text calls,
      connectCalls (.accepting none) (.constructed false) (localArgs "topic") "" =
        (.ok (ok, w', text), calls) ∧
      connect (.accepting none) (.constructed false) (localArgs "topic") "" =
        .ok (ok, w', text) ∧
      ConnectContract (.accepting none) (.constructed false) (localArgs "topic") ok w' calls :=
  connect_contract _ _ _ _ rfl

end TsKafka.BasicProducer
