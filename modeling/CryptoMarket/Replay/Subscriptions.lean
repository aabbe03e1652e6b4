import CryptoMarket.Lib.Log
import CryptoMarket.Replay.Handlers

/-!
# Subscriptions of the hub's sessions

What a session is owed is read off the log of answered actions: it is **subscribed** to
a topic from a subscription of its own that was answered with success until an
unsubscription of its own from the topic or from everything (`Subscribed`). No other
session's action appears in that definition.

* `HubOK`: along every run, who is in a topic is subscribed to it, with its own channel,
  and the user's entry lists the topic.
* `dataHander_complete_iff`: along a run every subscribed session gets every message of
  the topic, once, exactly when no unsubscription of the run takes away a topic that
  another session is in (`Hub.Spares`).
* `isolated_iff`: an action leaves the other sessions alone exactly when it takes away no
  topic at all.
-/

namespace CryptoMarket.Replay

/-- An action the hub has processed and its reply. -/
structure Answered where
  request : ChannelAction
  reply : Option (TxJSON × String)

/-- The actions of a run from `h`, each with its reply. -/
def answeredFrom (x : Crates) (h : Hub) : List HubMsg → List Answered
  | [] => []
  | .action a :: ms =>
    ⟨a, (actionHandle a.id a.action h).2⟩ :: answeredFrom x (h.step x (.action a)) ms
  | m :: ms => answeredFrom x (h.step x m) ms

/-- The actions of a run from empty maps, each with its reply. -/
def answered (x : Crates) (ms : List HubMsg) : List Answered := answeredFrom x Hub.init ms

/-- A subscription of `id` to `s` that was answered with success. -/
def Answered.Subscribes (id : ℕ) (s : String) (e : Answered) : Prop :=
  e.request.id = id ∧ (∃ tx, e.request.action = .subscribe s tx) ∧ ∃ tx, e.reply = some (tx, success)

/-- An unsubscription of `id` from `s` or from everything. -/
def Answered.Ends (id : ℕ) (s : String) (e : Answered) : Prop :=
  e.request.id = id ∧ (e.request.action = .unsubscribe (some s) ∨ e.request.action = .unsubscribe none)

/-- Session `id` is subscribed to `s`, going by its own answered actions. -/
def Subscribed (log : List Answered) (id : ℕ) (s : String) : Prop :=
  Since (Answered.Subscribes id s) (Answered.Ends id s) log

/-- The action takes no topic away that another session is in. -/
def Hub.Spares (h : Hub) (a : ChannelAction) : Prop :=
  ∀ s ∈ h.drops a, ∀ id, (h.channel id s).isSome → id = a.id

/-- Every subscribed session gets the next message of its topic, exactly once. -/
def Complete (x : Crates) (ms : List HubMsg) : Prop :=
  ∀ id s, Subscribed (answered x ms) id s → ∀ mt d,
    (dataHander x s mt d (Hub.run x ms)).2.filter (fun m => m.1 = ⟨id⟩) =
      {(⟨id⟩, x.marketMessage mt d)}

variable {x : Crates} {ms : List HubMsg} {a : ChannelAction} {h : Hub} {log : List Answered}

theorem answeredFrom_append (ms ms' : List HubMsg) : ∀ h, answeredFrom x h (ms ++ ms') =
    answeredFrom x h ms ++ answeredFrom x (ms.foldl (Hub.step x) h) ms' := by
  induction ms with
  | nil => intro h; rfl
  | cons m ms ih =>
    intro h
    cases m <;> simp [answeredFrom, ih]

theorem answered_snoc_action : answered x (ms ++ [.action a]) =
    answered x ms ++ [⟨a, (actionHandle a.id a.action (Hub.run x ms)).2⟩] := by
  simp [answered, answeredFrom_append, answeredFrom, Hub.run]

theorem answered_snoc_data {s mt : String} {d : Bytes} :
    answered x (ms ++ [.data s mt d]) = answered x ms := by
  simp [answered, answeredFrom_append, answeredFrom]

/-! ## Cases of an action -/

/-- An action is a subscription with the session's own channel or an unsubscription. -/
theorem ChannelAction.cases (a : ChannelAction) :
    (∃ id s, a = .subscribe id s) ∨ ∃ id n, a = .unsubscribe id n := by
  obtain ⟨id, action, own⟩ := a
  cases action with
  | subscribe s tx => obtain rfl := own s tx rfl; exact Or.inl ⟨id, s, rfl⟩
  | unsubscribe n => exact Or.inr ⟨id, n, rfl⟩

theorem success_ne_failure : success ≠ failure := by decide

/-- **A subscription is answered with success exactly when the handler succeeds.** -/
theorem subscribes_iff {id id' : ℕ} {s s' : String} :
    Answered.Subscribes id' s' ⟨.subscribe id s, (actionHandle id (.subscribe s ⟨id⟩) h).2⟩ ↔
      (actionHandleSubscribe id s ⟨id⟩ h).1.isSome ∧ id' = id ∧ s' = s := by
  unfold Answered.Subscribes actionHandle ChannelAction.subscribe
  simp only [lookup_userList_subscribe, if_true, Option.map_some, Option.some.injEq, Prod.mk.injEq,
    SocketAction.subscribe.injEq]
  cases hs : (actionHandleSubscribe id s ⟨id⟩ h).1 with
  | none => simp [success_ne_failure.symm]
  | some u => constructor <;> simp +contextual [eq_comm]

theorem not_ends_subscribe {id id' : ℕ} {s s' : String} {r : Option (TxJSON × String)} :
    ¬ Answered.Ends id' s' ⟨.subscribe id s, r⟩ := by
  simp [Answered.Ends, ChannelAction.subscribe]

theorem not_subscribes_unsubscribe {id id' : ℕ} {s' : String} {n : Option String}
    {r : Option (TxJSON × String)} : ¬ Answered.Subscribes id' s' ⟨.unsubscribe id n, r⟩ := by
  simp [Answered.Subscribes, ChannelAction.unsubscribe]

theorem ends_unsubscribe {id id' : ℕ} {s' : String} {n : Option String}
    {r : Option (TxJSON × String)} : Answered.Ends id' s' ⟨.unsubscribe id n, r⟩ ↔
      id = id' ∧ (n = some s' ∨ n = none) := by
  simp [Answered.Ends, ChannelAction.unsubscribe]

/-! ## The invariant -/

/-- The hub's maps agree with the log: who is in a topic is there with its own channel,
has the topic in its entry and is subscribed; every entry holds the session's own
channel. -/
structure HubOK (log : List Answered) (h : Hub) : Prop where
  own : ∀ id u, h.userList.lookup id = some u → u.1 = ⟨id⟩
  listed : ∀ id s tx, h.channel id s = some tx →
    tx = ⟨id⟩ ∧ ∃ u, h.userList.lookup id = some u ∧ s ∈ u.2
  sound : ∀ id s tx, h.channel id s = some tx → Subscribed log id s

theorem hubOK_init : HubOK [] Hub.init :=
  ⟨fun id u hu => by simp [Hub.init] at hu, fun id s tx hc => by simp [Hub.init, Hub.channel] at hc,
    fun id s tx hc => by simp [Hub.init, Hub.channel] at hc⟩

/-- A subscription keeps the invariant. -/
theorem hubOK_subscribe (hok : HubOK log h) (id : ℕ) (s : String) :
    HubOK (log ++ [⟨.subscribe id s, (actionHandle id (.subscribe s ⟨id⟩) h).2⟩])
      (actionHandleSubscribe id s ⟨id⟩ h).2 := by
  refine ⟨fun i u hu => ?_, fun i t tx hc => ?_, fun i t tx hc => ?_⟩
  · rw [lookup_userList_subscribe] at hu
    split at hu
    · rename_i heq; subst heq
      rw [← Option.some.inj hu, Hub.user]
      cases hl : h.userList.lookup i with
      | none => rfl
      | some v => exact hok.own i v hl
    · exact hok.own i u hu
  · rw [channel_subscribe] at hc
    split at hc
    · rename_i heq
      obtain ⟨hs, rfl, rfl⟩ := heq
      refine ⟨(Option.some.inj hc).symm, h.user i t ⟨i⟩, ?_, (subscribe_isSome_iff.1 hs).1⟩
      rw [lookup_userList_subscribe, if_pos rfl]
    · obtain ⟨htx, u, hu, ht⟩ := hok.listed i t tx hc
      refine ⟨htx, u, ?_, ht⟩
      rw [lookup_userList_subscribe]
      split
      · rename_i heq; subst heq; rw [Hub.user, hu]; rfl
      · exact hu
  · rw [channel_subscribe] at hc
    refine Since.snoc.2 ?_
    split at hc
    · rename_i heq; exact Or.inl (subscribes_iff.2 heq)
    · exact Or.inr ⟨hok.sound i t tx hc, not_ends_subscribe⟩

/-- An unsubscription keeps the invariant: the topics of a user who leaves go with it. -/
theorem hubOK_unsubscribe (hok : HubOK log h) (id : ℕ) (n : Option String)
    (r : Option (TxJSON × String)) :
    HubOK (log ++ [⟨.unsubscribe id n, r⟩]) (actionHandleUnsubscribe id n h).2 := by
  -- a session still in a topic did not end its own subscription
  have key : ∀ i t tx, (actionHandleUnsubscribe id n h).2.channel i t = some tx →
      h.channel i t = some tx ∧ ¬ (id = i ∧ (n = some t ∨ n = none)) := by
    intro i t tx hc
    rw [channel_unsubscribe] at hc
    split at hc
    · cases hc
    · rename_i hnd
      refine ⟨hc, ?_⟩
      rintro ⟨rfl, rfl | rfl⟩
      · exact hnd (by simp [Hub.drops, ChannelAction.unsubscribe])
      · obtain ⟨-, u, hu, ht⟩ := hok.listed id t tx hc
        exact hnd (by simpa [Hub.drops, ChannelAction.unsubscribe, hu] using ht)
  refine ⟨fun i u hu => ?_, fun i t tx hc => ?_, fun i t tx hc => ?_⟩
  · rw [lookup_userList_unsubscribe] at hu
    split at hu
    · cases hu
    · exact hok.own i u hu
  · obtain ⟨hc', hn⟩ := key i t tx hc
    obtain ⟨htx, u, hu, ht⟩ := hok.listed i t tx hc'
    refine ⟨htx, u, ?_, ht⟩
    rw [lookup_userList_unsubscribe, if_neg]
    · exact hu
    · rintro ⟨hn', hi⟩; exact hn ⟨hi.symm, Or.inr hn'⟩
  · obtain ⟨hc', hn⟩ := key i t tx hc
    exact Since.snoc.2 (Or.inr ⟨hok.sound i t tx hc', fun he => hn (ends_unsubscribe.1 he)⟩)

/-- **The invariant holds along every run.** -/
theorem hubOK_run (x : Crates) (ms : List HubMsg) : HubOK (answered x ms) (Hub.run x ms) := by
  induction ms using List.reverseRecOn with
  | nil => exact hubOK_init
  | append_singleton ms m ih =>
    rw [Hub.run_snoc]
    cases m with
    | action a =>
      rw [answered_snoc_action]
      rcases a.cases with ⟨id, s, rfl⟩ | ⟨id, n, rfl⟩
      · exact hubOK_subscribe ih id s
      · exact hubOK_unsubscribe ih id n _
    | data s mt d =>
      rw [answered_snoc_data]
      exact ⟨fun i u hu => ih.own i u (by rwa [Hub.step, userList_data] at hu),
        fun i t tx hc => by
          rw [Hub.step, channel_data] at hc
          rw [Hub.step, userList_data]; exact ih.listed i t tx hc,
        fun i t tx hc => ih.sound i t tx (by rwa [Hub.step, channel_data] at hc)⟩

/-! ## Delivery -/

/-- What `data_hander` sends to a session: one message if it is in the topic, else
nothing. -/
theorem filter_dataHander (hok : HubOK log h) (id : ℕ) (s mt : String) (d : Bytes) :
    (dataHander x s mt d h).2.filter (fun m => m.1 = ⟨id⟩) =
      if (h.channel id s).isSome then {(⟨id⟩, x.marketMessage mt d)} else 0 := by
  unfold dataHander Hub.channel
  cases hs : h.subList.lookup s with
  | none => simp
  | some sessions =>
    -- a session is in the topic with its own channel
    have hown : ∀ e ∈ sessions.entries, e.2 = ⟨e.1⟩ := by
      intro e he
      have hc : h.channel e.1 s = some e.2 := by
        rw [Hub.channel, hs]; exact Finmap.lookup_eq_some_iff.2 he
      exact (hok.listed _ _ _ hc).1
    have hkey : sessions.entries.filter (fun e => e.2 = ⟨id⟩) =
        sessions.entries.filter (fun e => e.1 = id) :=
      Multiset.filter_congr fun e he => by rw [hown e he, TxJSON.mk.injEq]
    simp only [Multiset.filter_map, Function.comp_def, hkey, HashMap.filter_entries_key,
      Option.bind_some]
    rcases Option.eq_none_or_eq_some (sessions.lookup id) with hl | ⟨tx, hl⟩
    · simp [hl]
    · have htx := hown ⟨id, tx⟩ (Finmap.lookup_eq_some_iff.1 hl)
      simp only at htx
      simp [hl, htx]

/-- Every subscribed session is in the topic. -/
def InTopics (log : List Answered) (h : Hub) : Prop :=
  ∀ id s, Subscribed log id s → (h.channel id s).isSome

theorem complete_iff : Complete x ms ↔ InTopics (answered x ms) (Hub.run x ms) := by
  have hf := fun id s mt d => filter_dataHander (x := x) (hubOK_run x ms) id s mt d
  constructor
  · intro hc id s hs
    have := hc id s hs "" []
    rw [hf] at this
    by_contra hn
    rw [if_neg hn] at this
    exact Multiset.zero_ne_singleton _ this
  · intro hi id s hs mt d
    rw [hf, if_pos (hi id s hs)]

/-- **One action.** It leaves every subscribed session in its topics exactly when it
takes away no topic that another session is in. -/
theorem inTopics_action (hok : HubOK log h) (hin : InTopics log h) :
    InTopics (log ++ [⟨a, (actionHandle a.id a.action h).2⟩]) (actionHandle a.id a.action h).1 ↔
      h.Spares a := by
  rcases a.cases with ⟨id, s, rfl⟩ | ⟨id, n, rfl⟩
  · have hsp : h.Spares (.subscribe id s) := by
      intro t ht; simp [Hub.drops, ChannelAction.subscribe] at ht
    refine iff_of_true (fun i t hsub => ?_) hsp
    show ((actionHandleSubscribe id s ⟨id⟩ h).2.channel i t).isSome
    rw [channel_subscribe]
    split
    · rfl
    · rename_i hne
      rcases Since.snoc.1 hsub with hset | ⟨hold, -⟩
      · exact absurd (subscribes_iff.1 hset) hne
      · exact hin i t hold
  · show InTopics _ (actionHandleUnsubscribe id n h).2 ↔ _
    constructor
    · intro hin' t ht i hc
      by_contra hne
      obtain ⟨tx, htx⟩ := Option.isSome_iff_exists.1 hc
      -- the other session is still subscribed, but the topic is gone
      have hsub := hin' i t (Since.snoc.2 (Or.inr ⟨hok.sound i t tx htx, fun he =>
        hne (ends_unsubscribe.1 he).1.symm⟩))
      rw [channel_unsubscribe, if_pos ht] at hsub
      cases hsub
    · intro hsp i t hsub
      rcases Since.snoc.1 hsub with hset | ⟨hold, hend⟩
      · exact absurd hset not_subscribes_unsubscribe
      · rw [channel_unsubscribe]
        split
        · rename_i ht
          obtain rfl := hsp t ht i (hin i t hold)
          refine absurd (ends_unsubscribe.2 ⟨rfl, ?_⟩) hend
          cases n with
          | none => exact Or.inr rfl
          | some s => exact Or.inl (by simpa [Hub.drops, ChannelAction.unsubscribe, eq_comm] using ht)
        · exact hin i t hold

theorem inTopics_data (hin : InTopics log h) {s mt : String} {d : Bytes} :
    InTopics log (dataHander x s mt d h).1 := by
  intro i t hsub; rw [channel_data]; exact hin i t hsub

/-- **Completeness of delivery.** Along a run, every subscribed session would get every
message of its topics exactly once at every point, if and only if no action of the run
takes away a topic that another session is in at that point. -/
theorem dataHander_complete_iff (x : Crates) (ms : List HubMsg) :
    (∀ p, p <+: ms → Complete x p) ↔
      ∀ p a, p ++ [.action a] <+: ms → (Hub.run x p).Spares a := by
  simp only [complete_iff]
  constructor
  · intro hall p a hp
    have h0 := hall p ((List.prefix_append p _).trans hp)
    have h1 := hall _ hp
    rw [answered_snoc_action, Hub.run_snoc] at h1
    exact (inTopics_action (hubOK_run x p) h0).1 h1
  · intro hsp p
    induction p using List.reverseRecOn with
    | nil => intro _ id s hsub; exact absurd hsub Since.nil
    | append_singleton p m ih =>
      intro hp
      have hin := ih ((List.prefix_append p _).trans hp)
      rw [Hub.run_snoc]
      cases m with
      | action a =>
        rw [answered_snoc_action]
        exact (inTopics_action (hubOK_run x p) hin).2 (hsp p a hp)
      | data s mt d => rw [answered_snoc_data]; exact inTopics_data hin

/-- The crates on runs in which no text is parsed and no data has a byte. -/
def blankCrates : Crates := ⟨flatJson, fun _ => none, fun _ => "", fun _ _ => none⟩

/-- Two sessions join a topic and the second leaves it. -/
def sharedTopic : List HubMsg :=
  [.data "binance_spot_trade_BTCUSDT" "trade" [],
    .action (.subscribe 1 "binance_spot_trade_BTCUSDT"),
    .action (.subscribe 2 "binance_spot_trade_BTCUSDT"),
    .action (.unsubscribe 2 (some "binance_spot_trade_BTCUSDT"))]

/-- **A subscriber misses its messages** once another session has left the topic. -/
theorem not_complete_sharedTopic :
    Subscribed (answered blankCrates sharedTopic) 1 "binance_spot_trade_BTCUSDT" ∧
      (dataHander blankCrates "binance_spot_trade_BTCUSDT" "trade" []
        (Hub.run blankCrates sharedTopic)).2 = 0 ∧
      ¬ Complete blankCrates sharedTopic := by
  have hsub : Subscribed (answered blankCrates sharedTopic) 1 "binance_spot_trade_BTCUSDT" := by
    refine ⟨[], ⟨.subscribe 1 _, some (⟨1⟩, success)⟩, [⟨.subscribe 2 _, some (⟨2⟩, success)⟩,
      ⟨.unsubscribe 2 _, some (⟨2⟩, success)⟩], rfl, ⟨rfl, ⟨_, rfl⟩, ⟨_, rfl⟩⟩, ?_⟩
    simp [Answered.Ends, ChannelAction.subscribe, ChannelAction.unsubscribe]
  have hnone : (dataHander blankCrates "binance_spot_trade_BTCUSDT" "trade" []
      (Hub.run blankCrates sharedTopic)).2 = 0 := by decide
  refine ⟨hsub, hnone, fun hc => ?_⟩
  have := hc 1 _ hsub "trade" []
  rw [hnone] at this
  exact Multiset.zero_ne_singleton _ this

/-! ## Isolation -/

/-- The action leaves every other session alone: its entry, its topics, and the set of
topics it can subscribe to. -/
structure Isolated (h : Hub) (a : ChannelAction) : Prop where
  user : ∀ id, id ≠ a.id → (actionHandle a.id a.action h).1.userList.lookup id = h.userList.lookup id
  member : ∀ id, id ≠ a.id → ∀ s,
    ((actionHandle a.id a.action h).1.channel id s).isSome = (h.channel id s).isSome
  topics : (actionHandle a.id a.action h).1.subList.keys = h.subList.keys

/-- **Isolation between sessions.** In every reachable state an action leaves the other
sessions alone if and only if it takes no existing topic away. -/
theorem isolated_iff (x : Crates) (ms : List HubMsg) (a : ChannelAction) :
    Isolated (Hub.run x ms) a ↔ ∀ s ∈ (Hub.run x ms).drops a, s ∉ (Hub.run x ms).subList := by
  set h := Hub.run x ms
  rcases a.cases with ⟨id, s, rfl⟩ | ⟨id, n, rfl⟩
  · refine iff_of_true ⟨fun i hi => ?_, fun i hi t => ?_, ?_⟩ ?_
    · exact lookup_userList_subscribe.trans (if_neg hi)
    · exact congrArg Option.isSome (channel_subscribe.trans (if_neg fun hc => hi hc.2.1))
    · ext t; rw [Finmap.mem_keys, Finmap.mem_keys]; exact mem_subList_subscribe
    · intro t ht; simp [Hub.drops, ChannelAction.subscribe] at ht
  · constructor
    · intro hiso t ht hm
      have hk : t ∈ (actionHandleUnsubscribe id n h).2.subList.keys := by
        have := hiso.topics
        rw [← Finmap.mem_keys, ← this] at hm; exact hm
      rw [Finmap.mem_keys, mem_subList_unsubscribe] at hk
      exact hk.2 ht
    · intro hd
      refine ⟨fun i hi => ?_, fun i _ t => ?_, ?_⟩
      · exact lookup_userList_unsubscribe.trans (if_neg fun hc => hi hc.2)
      · refine congrArg Option.isSome (channel_unsubscribe.trans ?_)
        split
        · rename_i ht
          cases hc : h.channel i t with
          | none => rfl
          | some tx => exact absurd (Hub.mem_subList_of_channel hc) (hd t ht)
        · rfl
      · ext t
        rw [Finmap.mem_keys, Finmap.mem_keys]
        exact mem_subList_unsubscribe.trans (and_iff_left_of_imp fun hm ht => hd t ht hm)

/-- **Another session is thrown out** of a topic both are in. -/
theorem not_isolated_sharedTopic :
    ¬ Isolated (Hub.run blankCrates (sharedTopic.take 3))
      (.unsubscribe 2 (some "binance_spot_trade_BTCUSDT")) := by
  intro hiso
  have := hiso.member 1 (by decide) "binance_spot_trade_BTCUSDT"
  revert this; decide

end CryptoMarket.Replay
