import CryptoMarket.Lib.Pool
import CryptoMarket.Lib.Run
import CryptoMarket.Replay.Types

/-!
# Replay server: the dynamic configuration

`config/dynamic.rs`. The handler holds a task for each entry of the configuration. On a
change of the file it aborts the tasks of the entries that are gone and creates tasks for
the new ones. Both differences are computed from copies, so cleaning up does not change
what is registered.

* `mirrors_run`: along every run the keys are the entries of the last configuration that
  could be read, and the live tasks correspond to them one to one.
* `config_mirrored`: also, an entry that stays listed keeps its task and a failed update
  changes nothing.

Reading the file is an argument of an update: its content, if there is one. The
deserializer (`parse`) is not in the repository and stays a parameter.
-/

namespace CryptoMarket.Replay

/-- The task of an entry, created by `to_task` for the key. -/
def subTask : TaskKind MarketDataArg ℕ MarketDataArg where
  handle n := n
  task arg _ := arg
  key_eq _ _ _ _ h := h

/-- `all_sub_task`, and the tasks that `to_task` has created. -/
abbrev DynamicConfigHandler := Pool MarketDataArg ℕ MarketDataArg

/-- How `on_config_update` fails. -/
inductive ConfigError where
  /-- `read_to_string` fails. -/
  | io
  /-- `from_str` fails. -/
  | context (message : String)
  deriving DecidableEq, Repr

/-- The orders of the two sets that one update walks. -/
structure Orders where
  current : HashSet.Order MarketDataArg
  ipcs : HashSet.Order MarketDataArg

/-- `serde_json::from_str::<ConfigStructure>` -/
abbrev Parse := String → Option (List MarketDataArg)

namespace DynamicConfigHandler

/-- `cleanup` -/
def cleanup (tasksToCleanUp : List MarketDataArg) (h : DynamicConfigHandler) : DynamicConfigHandler :=
  tasksToCleanUp.foldl (fun h arg => h.stop subTask.handle arg) h

/-- `register` -/
def register (tasksToRegister : List MarketDataArg) (h : DynamicConfigHandler) : DynamicConfigHandler :=
  tasksToRegister.foldl (fun h arg => h.spawn arg id arg) h

/-- `on_config_update`, where the file has the given content. -/
def onConfigUpdate (parse : Parse) (o : Orders) (content : Option String) (h : DynamicConfigHandler) :
    Except ConfigError Unit × DynamicConfigHandler :=
  match content with
  | none => (.error .io, h)
  | some content =>
    match parse content with
    | none => (.error (.context "failed to deserialize the configuration file"), h)
    | some config =>
      let allSubTask := h.map.keys
      let ipcs := config.toFinset
      -- `HashSet::difference` walks the one set and leaves out what is in the other
      let added := (o.ipcs.walk ipcs).filter (· ∉ allSubTask)
      let removed := (o.current.walk allSubTask).filter (· ∉ ipcs)
      (.ok (), (h.cleanup removed).register added)

/-- `new`; no value if it panics. -/
def new (parse : Parse) (o : Orders) (content : Option String) : Option DynamicConfigHandler :=
  match onConfigUpdate parse o content Pool.empty with
  | (.ok (), h) => some h
  | (.error _, _) => none

end DynamicConfigHandler

/-- What the watcher reports. -/
inductive WatchEvent where
  | error
  | modify
  /-- An event of another kind. -/
  | other
  deriving DecidableEq, Repr

/-- A call of `handle_event` and the content of the file at that time. -/
structure Update where
  event : WatchEvent
  content : Option String

/-- The configuration that a call reads, if it reads one and can. -/
def Update.config (parse : Parse) (u : Update) : Option (List MarketDataArg) :=
  match u.event with
  | .modify => u.content.bind parse
  | _ => none

/-- `handle_event` -/
def DynamicConfigHandler.handleEvent (parse : Parse) (o : Orders) (u : Update)
    (h : DynamicConfigHandler) : DynamicConfigHandler :=
  match u.event with
  | .modify => (h.onConfigUpdate parse o u.content).2
  | _ => h

/-- A call of `handle_event`, in any orders. -/
def ConfigStep (parse : Parse) (h : DynamicConfigHandler) (u : Update) (h' : DynamicConfigHandler) :
    Prop :=
  ∃ o, h.handleEvent parse o u = h'

/-- The last configuration that was read and parsed, `first` by `new`. -/
def lastGood (parse : Parse) (first : List MarketDataArg) (us : List Update) : List MarketDataArg :=
  (us.filterMap (Update.config parse)).getLastD first

variable {parse : Parse} {o : Orders} {u : Update} {us : List Update} {h h₀ h' : DynamicConfigHandler}
  {config first : List MarketDataArg} {arg : MarketDataArg} {n : ℕ} {content : Option String}

/-! ## One update -/

/-- The handler after an update that reads `config`. -/
def DynamicConfigHandler.follow (o : Orders) (config : List MarketDataArg) (h : DynamicConfigHandler) :
    DynamicConfigHandler :=
  (h.cleanup ((o.current.walk h.map.keys).filter (· ∉ config.toFinset))).register
    ((o.ipcs.walk config.toFinset).filter (· ∉ h.map.keys))

/-- **What a call does**: nothing, if it reads no configuration. -/
theorem handleEvent_eq : h.handleEvent parse o u =
    match u.config parse with
    | none => h
    | some config => h.follow o config := by
  unfold DynamicConfigHandler.handleEvent Update.config DynamicConfigHandler.onConfigUpdate
  cases u.event with
  | error => rfl
  | other => rfl
  | modify =>
    cases u.content with
    | none => rfl
    | some content =>
      simp only [Option.bind_some]
      cases parse content with
      | none => rfl
      | some config => rfl

theorem new_eq_some (hnew : DynamicConfigHandler.new parse o content = some h) :
    ∃ config, content.bind parse = some config ∧
      h = DynamicConfigHandler.follow o config Pool.empty := by
  unfold DynamicConfigHandler.new DynamicConfigHandler.onConfigUpdate at hnew
  cases content with
  | none => cases hnew
  | some content =>
    simp only [Option.bind_some] at hnew ⊢
    cases hp : parse content with
    | none => rw [hp] at hnew; cases hnew
    | some config =>
      rw [hp] at hnew
      exact ⟨config, rfl, (Option.some.inj hnew).symm⟩

theorem mem_cleanup {l : List MarketDataArg} : arg ∈ (h.cleanup l).map ↔ arg ∈ h.map ∧ arg ∉ l := by
  have hmem : arg ∈ (h.cleanup l).map ↔ arg ∈ h.map ∧ arg ∉ l.map fun a => a :=
    Pool.mem_map_stopAll (K := subTask) l h
  rwa [List.map_id'] at hmem

theorem mem_register {l : List MarketDataArg} : arg ∈ (h.register l).map ↔ arg ∈ h.map ∨ arg ∈ l := by
  have hmem : arg ∈ (h.register l).map ↔ arg ∈ h.map ∨ arg ∈ l.map fun a => a :=
    Pool.mem_map_spawnAll (fun _ => id) id l h
  rwa [List.map_id'] at hmem

/-- **After an update the keys are the entries.** -/
theorem mem_follow : arg ∈ (h.follow o config).map ↔ arg ∈ config := by
  unfold DynamicConfigHandler.follow
  simp only [mem_register, mem_cleanup, List.mem_filter, HashSet.Order.mem_walk, Finmap.mem_keys,
    List.mem_toFinset, decide_eq_true_eq]
  constructor
  · rintro (⟨hm, hn⟩ | ⟨hc, -⟩)
    · by_contra hc
      exact hn ⟨hm, hc⟩
    · exact hc
  · intro hc
    by_cases hm : arg ∈ h.map
    · exact Or.inl ⟨hm, fun hn => hn.2 hc⟩
    · exact Or.inr ⟨hc, hm⟩

theorem held_register (hh : h.Held subTask) (l : List MarketDataArg) : (h.register l).Held subTask :=
  Pool.held_spawnAll (fun _ => id) id (fun _ _ => rfl) (fun _ _ => rfl) l h hh

theorem held_cleanup (hh : h.Held subTask) (l : List MarketDataArg) : (h.cleanup l).Held subTask :=
  Pool.held_stopAll l h hh

/-- **An update keeps the tasks and the entries in correspondence**: what it registers is
not in the map. -/
theorem matched_follow (hm : h.Matched subTask) : (h.follow o config).Matched subTask := by
  obtain ⟨hh, hno⟩ := hm
  unfold DynamicConfigHandler.follow
  set removed := (o.current.walk h.map.keys).filter (· ∉ config.toFinset) with hremoved
  set added := (o.ipcs.walk config.toFinset).filter (· ∉ h.map.keys) with hadded
  have hclean := held_cleanup hh removed
  refine ⟨held_register hclean added, ?_⟩
  have horphan : ((h.cleanup removed).register added).NoOrphan subTask ↔
      (h.cleanup removed).NoOrphan subTask ∧ (added.map fun a => a).Nodup ∧
        ∀ b ∈ added, b ∉ (h.cleanup removed).map :=
    Pool.noOrphan_spawnAll (fun _ => id) id (fun _ _ => rfl) (fun _ _ => rfl) added _ hclean
  refine horphan.2 ⟨(Pool.noOrphan_stopAll removed h).2 hno, ?_, fun b hb hbm => ?_⟩
  · rw [List.map_id', hadded]
    exact (o.ipcs.nodup_walk _).filter _
  · rw [hadded, List.mem_filter, decide_eq_true_eq, Finmap.mem_keys] at hb
    exact hb.2 (mem_cleanup.1 hbm).1

/-- **An entry that stays listed keeps its task.** -/
theorem lookup_follow (hl : h.map.lookup arg = some n) (hc : arg ∈ config) :
    (h.follow o config).map.lookup arg = some n := by
  unfold DynamicConfigHandler.follow
  set removed := (o.current.walk h.map.keys).filter (· ∉ config.toFinset) with hremoved
  set added := (o.ipcs.walk config.toFinset).filter (· ∉ h.map.keys) with hadded
  have hkeep : (h.cleanup removed).map.lookup arg = h.map.lookup arg := by
    refine Pool.lookup_map_stopAll (K := subTask) removed h ?_
    rw [List.map_id', hremoved, List.mem_filter, decide_eq_true_eq, List.mem_toFinset]
    exact fun hr => hr.2 hc
  obtain ⟨-, heq⟩ | ⟨b, hb, -, -, hba, -⟩ :
      (arg ∉ added.map (fun a => a) ∧ ((h.cleanup removed).register added).map.lookup arg =
        (h.cleanup removed).map.lookup arg) ∨
      ∃ b ∈ added, ∃ m, (h.cleanup removed).created ≤ m ∧ b = arg ∧
        ((h.cleanup removed).register added).map.lookup arg = some m :=
    Pool.lookup_map_spawnAll (fun _ => id) id added _
  · rw [heq, hkeep, hl]
  · -- what is registered was not in the map
    rw [hadded, List.mem_filter, decide_eq_true_eq, Finmap.mem_keys, hba] at hb
    exact absurd (Finmap.mem_of_lookup_eq_some hl) hb.2

/-! ## Runs -/

theorem lastGood_snoc : lastGood parse first (us ++ [u]) =
    (u.config parse).getD (lastGood parse first us) := by
  unfold lastGood
  rw [List.filterMap_append]
  cases hu : u.config parse <;> simp [hu]

/-- **The tasks mirror the last good configuration** along every run. -/
theorem mirrors_run (hm : h₀.Matched subTask) (hkeys : ∀ arg, arg ∈ h₀.map ↔ arg ∈ first)
    (hr : Run (ConfigStep parse) h₀ us h) :
    h.Matched subTask ∧ ∀ arg, arg ∈ h.map ↔ arg ∈ lastGood parse first us := by
  refine Run.hist_inv (P := fun us h => h.Matched subTask ∧
    ∀ arg, arg ∈ h.map ↔ arg ∈ lastGood parse first us) ⟨hm, hkeys⟩ ?_ hr
  rintro us h u h' - ⟨ih, ihk⟩ ⟨o, rfl⟩
  rw [handleEvent_eq, lastGood_snoc]
  cases u.config parse with
  | none => exact ⟨ih, ihk⟩
  | some config => exact ⟨matched_follow ih, fun arg => mem_follow⟩

/-- **The same from `new` on**, whose configuration is the first. -/
theorem mirrors_new (hnew : DynamicConfigHandler.new parse o content = some h₀)
    (hr : Run (ConfigStep parse) h₀ us h) :
    ∃ first, content.bind parse = some first ∧ h.Matched subTask ∧
      ∀ arg, arg ∈ h.map ↔ arg ∈ lastGood parse first us := by
  obtain ⟨first, hfirst, rfl⟩ := new_eq_some hnew
  have hm₀ : Pool.Matched subTask (DynamicConfigHandler.follow o first Pool.empty) :=
    matched_follow ⟨Pool.held_empty, Pool.noOrphan_empty⟩
  exact ⟨first, hfirst, mirrors_run hm₀ (fun arg => mem_follow) hr⟩

/-- An entry that every configuration of a run lists keeps its task. -/
theorem lookup_run (hl : h.map.lookup arg = some n)
    (hlist : ∀ u ∈ us, ∀ config, u.config parse = some config → arg ∈ config)
    (hr : Run (ConfigStep parse) h us h') : h'.map.lookup arg = some n := by
  revert hlist
  refine Run.hist_inv (P := fun us h' =>
    (∀ u ∈ us, ∀ config, u.config parse = some config → arg ∈ config) →
      h'.map.lookup arg = some n) (fun _ => hl) ?_ hr
  rintro us h u h' - ih ⟨o, rfl⟩ hlist
  have hold := ih fun v hv => hlist v (List.mem_append_left _ hv)
  rw [handleEvent_eq]
  cases hu : u.config parse with
  | none => exact hold
  | some config => exact lookup_follow hold (hlist u (by simp) config hu)

/-- **The tasks mirror the configuration.** After `new` and any calls of `handle_event`
the keys are the entries of the last configuration that could be read, and the live tasks
correspond to them one to one. From there on an entry that every configuration read lists
keeps its task, and a call that reads no configuration changes nothing. -/
theorem config_mirrored (hnew : DynamicConfigHandler.new parse o content = some h₀)
    (hr : Run (ConfigStep parse) h₀ us h) :
    ∃ first, content.bind parse = some first ∧
      (∀ arg, arg ∈ h.map ↔ arg ∈ lastGood parse first us) ∧
      h.Matched subTask ∧
      (∀ vs h', Run (ConfigStep parse) h vs h' → ∀ arg n, h.map.lookup arg = some n →
        (∀ v ∈ vs, ∀ config, v.config parse = some config → arg ∈ config) →
        h'.map.lookup arg = some n ∧ h'.live.lookup n = some arg) ∧
      ∀ v o', v.config parse = none → h.handleEvent parse o' v = h := by
  obtain ⟨first, hfirst, hm, hkeys⟩ := mirrors_new hnew hr
  refine ⟨first, hfirst, hkeys, hm, fun vs h' hr' arg n hl hlist => ?_, fun v o' hv => ?_⟩
  · have hl' := lookup_run hl hlist hr'
    have hm' := (mirrors_run hm hkeys hr').1
    exact ⟨hl', hm'.1.held arg n hl'⟩
  · rw [handleEvent_eq, hv]

/-- A configuration file with one entry twice. -/
def twiceText : String :=
  let entry := "\x7b\"exchange\":\"binance\",\"marketType\":\"spot\",\"symbol\":\"BTCUSDT\"," ++
    "\"messageType\":\"trade\"\x7d"
  "\x7b\"ipcs\":[" ++ entry ++ "," ++ entry ++ "]\x7d"

/-- The entry is listed twice, and then the file cannot be read. -/
theorem config_mirrored_twice : ∃ h₀ h,
    DynamicConfigHandler.new (fun _ => some [btcTrade, btcTrade]) ⟨default, default⟩ (some twiceText) =
        some h₀ ∧
      Run (ConfigStep fun _ => some [btcTrade, btcTrade]) h₀ [⟨.modify, none⟩] h ∧
      h.Matched subTask ∧ ∀ arg, arg ∈ h.map ↔ arg ∈ [btcTrade, btcTrade] := by
  have hnew : DynamicConfigHandler.new (fun _ => some [btcTrade, btcTrade]) ⟨default, default⟩
      (some twiceText) = some (DynamicConfigHandler.follow ⟨default, default⟩
        [btcTrade, btcTrade] Pool.empty) := rfl
  have hrun : Run (ConfigStep fun _ => some [btcTrade, btcTrade])
      (DynamicConfigHandler.follow ⟨default, default⟩ [btcTrade, btcTrade] Pool.empty)
      [⟨.modify, none⟩]
      (DynamicConfigHandler.follow ⟨default, default⟩ [btcTrade, btcTrade] Pool.empty) :=
    Run.single ⟨⟨default, default⟩, rfl⟩
  obtain ⟨first, hfirst, hkeys, hm, -⟩ := config_mirrored hnew hrun
  obtain rfl : [btcTrade, btcTrade] = first := Option.some.inj hfirst
  exact ⟨_, _, hnew, hrun, hm, hkeys⟩

end CryptoMarket.Replay
