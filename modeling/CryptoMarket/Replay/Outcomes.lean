import CryptoMarket.Replay.HandleSocket
import CryptoMarket.Replay.Subscriptions

/-!
# Replay hub: subscriptions and failures

`action_handle_subscribe` lets a known user subscribe only to a symbol that its entry
already has, and records a new user before it looks for the topic.

* `accepted_iff`: a subscription to a topic is accepted exactly when the session has no
  entry or the entry has the symbol; so of the topics that one request names, a session
  gets those of its entry, or the first one.
* `failed_unchanged_iff`: a failed action leaves the maps alone unless it is a subscription
  of a new user to a topic that does not exist.
-/

namespace CryptoMarket.Replay

variable {x : Crates} {ms : List HubMsg} {h : Hub} {id : ℕ} {s t : String} {log : List Answered}

/-! ## Accepted subscriptions -/

/-- A subscription of session `id` to `s` is answered with success on the session's own
channel; afterwards the session is in `s` and in the topics it was in, and its entry has
`s` and what it had. -/
structure Accepted (h : Hub) (id : ℕ) (s : String) : Prop where
  reply : (actionHandle id (.subscribe s ⟨id⟩) h).2 = some (⟨id⟩, success)
  topics : ∀ t, ((actionHandle id (.subscribe s ⟨id⟩) h).1.channel id t).isSome ↔
    t = s ∨ (h.channel id t).isSome
  entry : (actionHandle id (.subscribe s ⟨id⟩) h).1.userList.lookup id =
    some (⟨id⟩, insert s (((h.userList.lookup id).map Prod.snd).getD ∅))

theorem mem_user_iff : s ∈ (h.user id s ⟨id⟩).2 ↔ ∀ u, h.userList.lookup id = some u → s ∈ u.2 := by
  unfold Hub.user
  cases h.userList.lookup id with
  | none => simp
  | some u => simp

theorem reply_subscribe (hok : HubOK log h) (id : ℕ) (s : String) :
    (actionHandle id (.subscribe s ⟨id⟩) h).2 =
      some (⟨id⟩, if (actionHandleSubscribe id s ⟨id⟩ h).1.isSome then success else failure) := by
  have hown : (h.user id s ⟨id⟩).1 = ⟨id⟩ := by
    unfold Hub.user
    cases hu : h.userList.lookup id with
    | none => rfl
    | some u => exact hok.own id u hu
  simp only [actionHandle, lookup_userList_subscribe, if_true, Option.map_some, hown]

/-- **A known user without the symbol** is turned away, every other one accepted. -/
theorem accepted_of_known (hok : HubOK log h) (hs : s ∈ h.subList) :
    Accepted h id s ↔ ∀ u, h.userList.lookup id = some u → s ∈ u.2 := by
  rw [← mem_user_iff]
  have hsome : (actionHandleSubscribe id s ⟨id⟩ h).1.isSome ↔ s ∈ (h.user id s ⟨id⟩).2 := by
    rw [subscribe_isSome_iff, and_iff_left hs]
  constructor
  · intro hacc
    by_contra hm
    have hreply := hacc.reply
    rw [reply_subscribe hok, if_neg (mt hsome.1 hm)] at hreply
    exact success_ne_failure (congrArg Prod.snd (Option.some.inj hreply)).symm
  · intro hm
    refine ⟨by rw [reply_subscribe hok, if_pos (hsome.2 hm)], fun t => ?_, ?_⟩
    · show ((actionHandleSubscribe id s ⟨id⟩ h).2.channel id t).isSome ↔ _
      rw [channel_subscribe]
      by_cases ht : t = s
      · simp [hsome.2 hm, ht]
      · simp [ht]
    · show (actionHandleSubscribe id s ⟨id⟩ h).2.userList.lookup id = _
      rw [lookup_userList_subscribe, if_pos rfl]
      unfold Hub.user at hm ⊢
      cases hu : h.userList.lookup id with
      | none => simp
      | some u =>
        rw [hu, Option.getD_some] at hm
        obtain ⟨tx, symbols⟩ := u
        obtain rfl : tx = ⟨id⟩ := hok.own id (tx, symbols) hu
        simp [Finset.insert_eq_of_mem hm]

/-! ## One request -/

/-- The messages to the hub among what `json_handle` does. -/
def opMsgs (ops : List Op) : List HubMsg :=
  ops.filterMap fun
    | .send a => some (.action a)
    | _ => none

/-- The hub after it has processed the actions of a text of the session. -/
def Hub.afterText (x : Crates) (h : Hub) (json : String) (id : ℕ) : Hub :=
  (opMsgs (jsonHandle x json id).1).foldl (Hub.step x) h

/-- The subscriptions of a session, one after the other. -/
def Hub.subscribeAll (h : Hub) (id : ℕ) (names : List String) : Hub :=
  names.foldl (fun h s => (actionHandleSubscribe id s ⟨id⟩ h).2) h

theorem afterText_subscribe {json : String} {params : Action} (hparams : x.fromStr json = some params)
    (haction : (split '@' params.action).headD "" = "subscribe") :
    h.afterText x json id = h.subscribeAll id (params.args.map MarketDataArg.toString) := by
  have hops : opMsgs (jsonHandle x json id).1 =
      params.args.map fun arg => .action (.subscribe id arg.toString) := by
    simp only [jsonHandle, hparams, haction, opMsgs, List.filterMap_map, Function.comp_def]
    exact congrFun List.filterMap_eq_map params.args
  rw [Hub.afterText, hops, Hub.subscribeAll, List.foldl_map, List.foldl_map]
  rfl

/-- **The subscriptions of a known user**: it gets the topics that its entry has. -/
theorem subscribeAll_known {u : TxJSON × HashSet String} : ∀ (names : List String) (h : Hub),
    h.userList.lookup id = some u → (∀ s ∈ names, s ∈ h.subList) →
    (∀ t, (h.channel id t).isSome → t ∈ u.2) →
    ∀ t, ((h.subscribeAll id names).channel id t).isSome ↔
      (t ∈ names ∧ t ∈ u.2) ∨ (h.channel id t).isSome := by
  intro names
  induction names with
  | nil => intro h _ _ _ t; simp [Hub.subscribeAll]
  | cons s names ih =>
    intro h hu hnames hlisted t
    have huser : h.user id s ⟨id⟩ = u := by rw [Hub.user, hu]; rfl
    -- the entry stays, and the topics too
    have hu' : (actionHandleSubscribe id s ⟨id⟩ h).2.userList.lookup id = some u := by
      rw [lookup_userList_subscribe, if_pos rfl, huser]
    have hnames' : ∀ t ∈ names, t ∈ (actionHandleSubscribe id s ⟨id⟩ h).2.subList := fun t ht =>
      mem_subList_subscribe.2 (hnames t (List.mem_cons_of_mem _ ht))
    have hchannel : ∀ t, ((actionHandleSubscribe id s ⟨id⟩ h).2.channel id t).isSome ↔
        (t = s ∧ s ∈ u.2) ∨ (h.channel id t).isSome := by
      intro t
      rw [channel_subscribe, if_congr (and_congr_left' subscribe_isSome_iff) rfl rfl, huser]
      by_cases ht : t = s <;> by_cases hs : s ∈ u.2 <;> simp [ht, hs, hnames s List.mem_cons_self]
    have hlisted' : ∀ t, ((actionHandleSubscribe id s ⟨id⟩ h).2.channel id t).isSome → t ∈ u.2 := by
      intro t ht
      rcases (hchannel t).1 ht with ⟨rfl, hs⟩ | ht
      · exact hs
      · exact hlisted t ht
    have hrest := ih _ hu' hnames' hlisted' t
    rw [hchannel] at hrest
    refine hrest.trans ?_
    rw [List.mem_cons]
    constructor
    · rintro (⟨ht, hin⟩ | ⟨rfl, hin⟩ | hc)
      · exact Or.inl ⟨Or.inr ht, hin⟩
      · exact Or.inl ⟨Or.inl rfl, hin⟩
      · exact Or.inr hc
    · rintro (⟨rfl | ht, hin⟩ | hc)
      · exact Or.inr (Or.inl ⟨rfl, hin⟩)
      · exact Or.inl ⟨ht, hin⟩
      · exact Or.inr (Or.inr hc)

/-- **The subscriptions of one request**: the session gets all the topics exactly when its
entry has them, or, for a new user, all are the first one. -/
theorem subscribeAll_iff (hok : HubOK log h) (id : ℕ) (names : List String)
    (hnames : ∀ s ∈ names, s ∈ h.subList) :
    (∀ s ∈ names, ((h.subscribeAll id names).channel id s).isSome) ↔
      ∀ s ∈ names, s ∈ (h.user id (names.headD "") ⟨id⟩).2 := by
  cases names with
  | nil => simp
  | cons first names =>
    set u := h.user id first ⟨id⟩
    -- after the first subscription the user is known
    have hok' := hubOK_subscribe hok id first
    have hu : (actionHandleSubscribe id first ⟨id⟩ h).2.userList.lookup id = some u := by
      rw [lookup_userList_subscribe, if_pos rfl]
    have hlisted : ∀ t, ((actionHandleSubscribe id first ⟨id⟩ h).2.channel id t).isSome → t ∈ u.2 := by
      intro t ht
      obtain ⟨tx, htx⟩ := Option.isSome_iff_exists.1 ht
      obtain ⟨-, v, hv, hin⟩ := hok'.listed id t tx htx
      rw [hu] at hv
      exact Option.some.inj hv ▸ hin
    have hall : ∀ t, ((h.subscribeAll id (first :: names)).channel id t).isSome ↔
        (t ∈ names ∧ t ∈ u.2) ∨ ((actionHandleSubscribe id first ⟨id⟩ h).2.channel id t).isSome :=
      subscribeAll_known names _ hu
        (fun t ht => mem_subList_subscribe.2 (hnames t (List.mem_cons_of_mem _ ht))) hlisted
    simp only [List.headD_cons, hall]
    constructor
    · intro hsub s hs
      rcases hsub s hs with ⟨-, hin⟩ | hc
      · exact hin
      · exact hlisted s hc
    · intro hin s hs
      rcases List.mem_cons.1 hs with rfl | hs'
      · refine Or.inr ?_
        rw [channel_subscribe, if_pos]
        · rfl
        · exact ⟨subscribe_isSome_iff.2 ⟨hin s hs, hnames s hs⟩, rfl, rfl⟩
      · exact Or.inl ⟨hs', hin s hs⟩

/-- **Any number of subscriptions.** In every reachable state a subscription of a session
to an existing topic is accepted if and only if the session has no entry or its entry has
the topic; and a request for existing topics leaves the session in all of them if and only
if its entry, which for a new user is the first topic, has them all. -/
theorem accepted_iff (x : Crates) (ms : List HubMsg) (id : ℕ) :
    (∀ s ∈ (Hub.run x ms).subList, Accepted (Hub.run x ms) id s ↔
      ∀ u, (Hub.run x ms).userList.lookup id = some u → s ∈ u.2) ∧
    ∀ json params, x.fromStr json = some params → (split '@' params.action).headD "" = "subscribe" →
      (∀ arg ∈ params.args, arg.toString ∈ (Hub.run x ms).subList) →
      ((∀ arg ∈ params.args, (((Hub.run x ms).afterText x json id).channel id arg.toString).isSome) ↔
        ∀ arg ∈ params.args, arg.toString ∈
          ((Hub.run x ms).user id ((params.args.map MarketDataArg.toString).headD "") ⟨id⟩).2) := by
  refine ⟨fun s hs => accepted_of_known (hubOK_run x ms) hs, fun json params hparams haction hargs => ?_⟩
  rw [afterText_subscribe hparams haction]
  have hall := subscribeAll_iff (hubOK_run x ms) id (params.args.map MarketDataArg.toString)
  simpa using hall (by simpa using hargs)

/-- Two topics, and a session that has subscribed to one. -/
def secondTopic : List HubMsg :=
  [.data "binance_spot_trade_BTCUSDT" "trade" [], .data "binance_spot_trade_ETHUSDT" "trade" [],
    .action (.subscribe 1 "binance_spot_trade_BTCUSDT")]

/-- The trades of the second topic. -/
def ethTrade : MarketDataArg := ⟨"binance", "spot", "ETHUSDT", "trade"⟩

/-- Every text is a subscription to these topics. -/
def askCrates (args : List MarketDataArg) : Crates :=
  ⟨flatJson, fun _ => some ⟨"subscribe", args⟩, fun _ => "", fun _ _ => none⟩

/-- **Two topics in one request** of a new session: it gets the first one only. If it names this
one twice, it gets all it names. -/
theorem accepted_iff_twice :
    (∀ arg ∈ [btcTrade, ethTrade], arg.toString ∈ (Hub.run (askCrates [btcTrade, ethTrade]) secondTopic).subList) ∧
    (¬ ∀ arg ∈ [btcTrade, ethTrade], (((Hub.run (askCrates [btcTrade, ethTrade]) secondTopic).afterText
      (askCrates [btcTrade, ethTrade]) "" 2).channel 2 arg.toString).isSome) ∧
    ∀ arg ∈ [btcTrade, btcTrade], (((Hub.run (askCrates [btcTrade, btcTrade]) secondTopic).afterText
      (askCrates [btcTrade, btcTrade]) "" 2).channel 2 arg.toString).isSome := by
  have hargs : ∀ arg ∈ [btcTrade, ethTrade],
      arg.toString ∈ (Hub.run (askCrates [btcTrade, ethTrade]) secondTopic).subList := by decide
  have hboth := (accepted_iff (askCrates [btcTrade, ethTrade]) secondTopic 2).2 "" _ rfl (by decide) hargs
  have htwice := (accepted_iff (askCrates [btcTrade, btcTrade]) secondTopic 2).2 "" _ rfl (by decide)
    (by decide)
  refine ⟨hargs, fun hall => ?_, htwice.2 (by decide)⟩
  have hentry := hboth.1 hall ethTrade (by decide)
  revert hentry
  decide

/-- **A second subscription** is turned away. -/
theorem not_accepted_second :
    ¬ ∀ s ∈ (Hub.run blankCrates secondTopic).subList, Accepted (Hub.run blankCrates secondTopic) 1 s := by
  intro hall
  have hreply := (hall "binance_spot_trade_ETHUSDT" (by decide)).reply
  revert hreply
  decide

/-! ## Failed actions -/

/-- The decision of `action_handle` on an action, and the maps. -/
def handleAction (a : ChannelAction) (h : Hub) : Option Unit × Hub :=
  match a.action with
  | .subscribe signalName txJson => actionHandleSubscribe a.id signalName txJson h
  | .unsubscribe signalName => actionHandleUnsubscribe a.id signalName h

theorem actionHandle_eq (a : ChannelAction) (h : Hub) :
    (actionHandle a.id a.action h).1 = (handleAction a h).2 := by
  obtain ⟨id, action, own⟩ := a
  cases action <;> rfl

theorem insert_lookup_eq {u : TxJSON × HashSet String} (hu : h.userList.lookup id = some u) :
    h.userList.insert id u = h.userList := by
  refine Finmap.ext_lookup fun i => ?_
  rw [HashMap.lookup_insert_eq]
  split
  · rename_i hi
    rw [hi, hu]
  · rfl

/-- A subscription that fails leaves the maps alone, unless it records a new user. -/
theorem subscribe_failed (hfail : (actionHandleSubscribe id s ⟨id⟩ h).1 = none) :
    (actionHandleSubscribe id s ⟨id⟩ h).2 = h ↔ ¬ (id ∉ h.userList ∧ s ∉ h.subList) := by
  have hnone : ¬ (s ∈ (h.user id s ⟨id⟩).2 ∧ s ∈ h.subList) := by
    rw [← subscribe_isSome_iff, hfail]
    simp
  cases hu : h.userList.lookup id with
  | none =>
    have hnew : id ∉ h.userList := Finmap.lookup_eq_none.1 hu
    have hs : s ∉ h.subList := fun hs => hnone ⟨by simp [Hub.user, hu], hs⟩
    refine iff_of_false (fun heq => ?_) (not_not.2 ⟨hnew, hs⟩)
    -- the user is recorded all the same
    have hrecorded : (actionHandleSubscribe id s ⟨id⟩ h).2.userList.lookup id =
        if id = id then some (h.user id s ⟨id⟩) else h.userList.lookup id := lookup_userList_subscribe
    rw [heq, hu, if_pos rfl] at hrecorded
    cases hrecorded
  | some u =>
    have hknown : id ∈ h.userList := Finmap.mem_of_lookup_eq_some hu
    refine iff_of_true ?_ fun hn => hn.1 hknown
    rw [actionHandleSubscribe_eq]
    split
    · rfl
    · have huser : h.user id s ⟨id⟩ = u := by rw [Hub.user, hu]; rfl
      rename_i hm
      have hs : s ∉ h.subList := fun hs => hnone ⟨not_not.1 hm, hs⟩
      rw [huser, insert_lookup_eq hu, Hub.joinTopic, Finmap.lookup_eq_none.2 hs]

/-- An unsubscription that fails leaves the maps alone. -/
theorem unsubscribe_failed {n : Option String} (hfail : (actionHandleUnsubscribe id n h).1 = none) :
    (actionHandleUnsubscribe id n h).2 = h := by
  unfold actionHandleUnsubscribe at hfail ⊢
  cases n with
  | some s =>
    by_cases hs : s ∈ h.subList
    · simp [hs] at hfail
    · simp [hs]
  | none =>
    cases hu : h.userList.lookup id with
    | none => simp
    | some u => simp [hu] at hfail

/-- **Failed actions.** An action that the hub decides to be a failure leaves both maps as
they were, if and only if it is not the subscription of a user without an entry to a
topic that does not exist. -/
theorem failed_unchanged_iff (h : Hub) (a : ChannelAction) :
    ((handleAction a h).1 = none → (actionHandle a.id a.action h).1 = h) ↔
      ¬ ∃ s tx, a.action = .subscribe s tx ∧ a.id ∉ h.userList ∧ s ∉ h.subList := by
  rw [actionHandle_eq]
  rcases a.cases with ⟨id, s, rfl⟩ | ⟨id, n, rfl⟩
  · have hcond : (∃ s' tx, (ChannelAction.subscribe id s).action = .subscribe s' tx ∧
        (ChannelAction.subscribe id s).id ∉ h.userList ∧ s' ∉ h.subList) ↔
        id ∉ h.userList ∧ s ∉ h.subList := by
      simp [ChannelAction.subscribe]
    rw [hcond]
    constructor
    · rintro hkeep ⟨hnew, hs⟩
      have hfail : (actionHandleSubscribe id s ⟨id⟩ h).1 = none := by
        rw [← Option.not_isSome_iff_eq_none, subscribe_isSome_iff]
        exact fun hok => hs hok.2
      exact (subscribe_failed hfail).1 (hkeep hfail) ⟨hnew, hs⟩
    · intro hn hfail
      exact (subscribe_failed hfail).2 hn
  · refine iff_of_true (fun hfail => unsubscribe_failed hfail) ?_
    simp [ChannelAction.unsubscribe]

/-- **A failed subscription of a new user** records the user. -/
theorem failed_subscription_recorded :
    ¬ ∀ a, (handleAction a (Hub.run blankCrates [])).1 = none →
      (actionHandle a.id a.action (Hub.run blankCrates [])).1 = Hub.run blankCrates [] := by
  intro hall
  have hkeep := hall (.subscribe 1 "binance_spot_trade_BTCUSDT")
  have hsame := hkeep (by decide)
  revert hsame
  decide

end CryptoMarket.Replay
