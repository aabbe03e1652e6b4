import CryptoMarket.Replay.HandleSocket
import CryptoMarket.Replay.Index

/-!
# Replies to a session's requests

`json_handle` sends the hub one action for each argument of a request, and the hub
replies to an action through the entry of the session in `user_list`, if there is one
after the action (`replyTo_isSome_iff`). `replies_iff` counts the replies to a request
in a run of the hub that processes its actions among those of other sessions: a
`subscribe` is always answered as often as it asks, an `unsubscribe` only when it names
topics and the session is a user.
-/

namespace CryptoMarket.Replay

/-- The requests the hub answers. -/
inductive RequestKind where
  | subscribe
  | unsubscribe
  deriving DecidableEq

/-- The word in the request. -/
def RequestKind.word : RequestKind → String
  | .subscribe => "subscribe"
  | .unsubscribe => "unsubscribe"

/-- The replies owed to a request with `n` arguments. -/
def RequestKind.owed (n : ℕ) : RequestKind → ℕ
  | .subscribe => n
  | .unsubscribe => max n 1

/-- The action that is sent, if the step is a send to the hub. -/
def Op.action : Op → Option ChannelAction
  | .send a => some a
  | .reply _ => none
  | .spawn _ _ _ => none

/-- The action of `id` the hub takes, if the message is one. -/
def HubMsg.ownAction (id : ℕ) : HubMsg → Option ChannelAction
  | .action a => if a.id = id then some a else none
  | .data _ _ _ => none

/-- The reply put on the channel of `id`, if there is one. -/
def Answered.replyTo (id : ℕ) (e : Answered) : Option String :=
  e.reply.bind fun r => if r.1 = ⟨id⟩ then some r.2 else none

/-- The replies of a run that are put on the channel of `id`, oldest first. -/
def repliesTo (x : Crates) (h : Hub) (ms : List HubMsg) (id : ℕ) : List String :=
  (answeredFrom x h ms).filterMap (Answered.replyTo id)

variable {x : Crates} {ms ms₂ : List HubMsg} {a : ChannelAction} {h : Hub} {log : List Answered}
  {id : ℕ}

/-! ## One action -/

/-- **An action is answered on the channel of `id`** exactly when it is one of `id` and
`id` is a user after it. -/
theorem replyTo_isSome_iff (hok : HubOK log (actionHandle a.id a.action h).1) :
    (Answered.replyTo id ⟨a, (actionHandle a.id a.action h).2⟩).isSome ↔
      a.id = id ∧ id ∈ (actionHandle a.id a.action h).1.userList := by
  have hreply : ∃ msg, (actionHandle a.id a.action h).2 =
      ((actionHandle a.id a.action h).1.userList.lookup a.id).map fun u => (u.1, msg) := ⟨_, rfl⟩
  obtain ⟨msg, hreply⟩ := hreply
  unfold Answered.replyTo
  simp only [hreply]
  cases hl : (actionHandle a.id a.action h).1.userList.lookup a.id with
  | none =>
    refine iff_of_false (by simp) ?_
    rintro ⟨rfl, hm⟩
    exact Finmap.lookup_eq_none.1 hl hm
  | some u =>
    have hown := hok.own a.id u hl
    by_cases hid : a.id = id
    · subst hid
      simp [hown, Finmap.mem_of_lookup_eq_some hl]
    · simp [hown, hid]

theorem repliesTo_snoc_action : repliesTo x (Hub.run x ms) (ms₂ ++ [.action a]) id =
    repliesTo x (Hub.run x ms) ms₂ id ++
      (Answered.replyTo id ⟨a, (actionHandle a.id a.action (Hub.run x (ms ++ ms₂))).2⟩).toList := by
  have hrun : ms₂.foldl (Hub.step x) (Hub.run x ms) = Hub.run x (ms ++ ms₂) := by
    simp [Hub.run, List.foldl_append]
  rw [repliesTo, repliesTo, answeredFrom_append, hrun, List.filterMap_append]
  cases hr : Answered.replyTo id ⟨a, (actionHandle a.id a.action (Hub.run x (ms ++ ms₂))).2⟩ <;>
    simp [answeredFrom, hr]

theorem repliesTo_snoc_data {s mt : String} {d : Bytes} :
    repliesTo x (Hub.run x ms) (ms₂ ++ [.data s mt d]) id = repliesTo x (Hub.run x ms) ms₂ id := by
  simp [repliesTo, answeredFrom_append, answeredFrom]

theorem filterMap_snoc_action : (ms₂ ++ [HubMsg.action a]).filterMap (HubMsg.ownAction id) =
    ms₂.filterMap (HubMsg.ownAction id) ++ if a.id = id then [a] else [] := by
  rw [List.filterMap_append]
  split <;> rename_i hid <;> simp [HubMsg.ownAction, hid]

theorem mem_ownActions {p : List HubMsg} (hp : p ++ [.action a] <+: ms₂) :
    a ∈ ms₂.filterMap (HubMsg.ownAction a.id) := by
  refine List.mem_filterMap.2 ⟨.action a, hp.subset (by simp), ?_⟩
  simp [HubMsg.ownAction]

/-- A user stays one through named actions. -/
theorem mem_step {m : HubMsg} (hm : ∀ a, m.ownAction id = some a → a.action ≠ .unsubscribe none)
    (hid : id ∈ h.userList) : id ∈ (h.step x m).userList := by
  cases m with
  | data s mt d => rw [Hub.step, userList_data]; exact hid
  | action a =>
    rw [← Finmap.lookup_isSome] at hid ⊢
    rcases a.cases with ⟨i, s, rfl⟩ | ⟨i, n, rfl⟩
    · show ((actionHandleSubscribe i s ⟨i⟩ h).2.userList.lookup id).isSome
      rw [lookup_userList_subscribe]
      split
      · rfl
      · exact hid
    · show ((actionHandleUnsubscribe i n h).2.userList.lookup id).isSome
      rw [lookup_userList_unsubscribe, if_neg]
      · exact hid
      · rintro ⟨rfl, rfl⟩
        exact hm (.unsubscribe id none) (if_pos rfl) rfl

theorem mem_run (hms : ∀ a ∈ ms₂.filterMap (HubMsg.ownAction id), a.action ≠ .unsubscribe none)
    (hid : id ∈ (Hub.run x ms).userList) : id ∈ (Hub.run x (ms ++ ms₂)).userList := by
  induction ms₂ using List.reverseRecOn with
  | nil => simpa using hid
  | append_singleton p m ih =>
    rw [← List.append_assoc, Hub.run_snoc]
    rw [List.filterMap_append] at hms
    refine mem_step (fun a ha => hms a (List.mem_append_right _ ?_)) (ih fun a ha =>
      hms a (List.mem_append_left _ ha))
    simp [ha]

/-! ## A run with the actions of a request -/

/-- Each own action after which the session is a user is answered. -/
theorem length_repliesTo (huser : ∀ p a, p ++ [.action a] <+: ms₂ → a.id = id →
      id ∈ (Hub.run x (ms ++ p ++ [.action a])).userList) :
    (repliesTo x (Hub.run x ms) ms₂ id).length = (ms₂.filterMap (HubMsg.ownAction id)).length := by
  induction ms₂ using List.reverseRecOn with
  | nil => rfl
  | append_singleton p m ih =>
    have hp := ih fun q a hq => huser q a (hq.trans (List.prefix_append p _))
    cases m with
    | data s mt d =>
      rw [repliesTo_snoc_data, hp, List.filterMap_append]
      simp [HubMsg.ownAction]
    | action a =>
      have hok := hubOK_run x (ms ++ p ++ [.action a])
      have hlast := huser p a (List.prefix_refl _)
      rw [Hub.run_snoc] at hok hlast
      have hiff : (Answered.replyTo id _).isSome ↔ _ := replyTo_isSome_iff hok
      rw [repliesTo_snoc_action, filterMap_snoc_action, List.length_append, List.length_append, hp]
      congr 1
      by_cases hid : a.id = id
      · obtain ⟨msg, hmsg⟩ := Option.isSome_iff_exists.1 (hiff.2 ⟨hid, hlast hid⟩)
        rw [hmsg, if_pos hid]; rfl
      · rw [Option.not_isSome_iff_eq_none.1 fun hs => hid (hiff.1 hs).1, if_neg hid]; rfl

/-- No own action is answered after which the session is not a user. -/
theorem repliesTo_eq_nil (hnot : ∀ p a, p ++ [.action a] <+: ms₂ → a.id = id →
      id ∉ (Hub.run x (ms ++ p ++ [.action a])).userList) :
    repliesTo x (Hub.run x ms) ms₂ id = [] := by
  induction ms₂ using List.reverseRecOn with
  | nil => rfl
  | append_singleton p m ih =>
    have hp := ih fun q a hq => hnot q a (hq.trans (List.prefix_append p _))
    cases m with
    | data s mt d => rw [repliesTo_snoc_data, hp]
    | action a =>
      have hok := hubOK_run x (ms ++ p ++ [.action a])
      have hlast := hnot p a (List.prefix_refl _)
      rw [Hub.run_snoc] at hok hlast
      have hnone := Option.not_isSome_iff_eq_none.1 fun hs =>
        have h' := (replyTo_isSome_iff hok).1 hs
        hlast h'.1 h'.2
      rw [repliesTo_snoc_action, hp, hnone]; rfl

theorem length_replies_subscribe
    (hsub : ∀ a ∈ ms₂.filterMap (HubMsg.ownAction id), ∃ s tx, a.action = .subscribe s tx) :
    (repliesTo x (Hub.run x ms) ms₂ id).length = (ms₂.filterMap (HubMsg.ownAction id)).length := by
  refine length_repliesTo fun p a hp hid => ?_
  subst hid
  obtain ⟨s, tx, ha⟩ := hsub a (mem_ownActions hp)
  rcases a.cases with ⟨i, t, rfl⟩ | ⟨i, n, rfl⟩
  · rw [Hub.run_snoc, ← Finmap.lookup_isSome]
    show ((actionHandleSubscribe i t ⟨i⟩ (Hub.run x (ms ++ p))).2.userList.lookup i).isSome
    rw [lookup_userList_subscribe, if_pos rfl]; rfl
  · simp [ChannelAction.unsubscribe] at ha

theorem length_replies_named
    (hnamed : ∀ a ∈ ms₂.filterMap (HubMsg.ownAction id), ∃ s, a.action = .unsubscribe (some s))
    (hid : id ∈ (Hub.run x ms).userList) :
    (repliesTo x (Hub.run x ms) ms₂ id).length = (ms₂.filterMap (HubMsg.ownAction id)).length := by
  refine length_repliesTo fun p a hp _ => ?_
  rw [List.append_assoc]
  refine mem_run (fun b hb => ?_) hid
  obtain ⟨s, hs⟩ := hnamed b ((hp.filterMap _).subset hb)
  simp [hs]

theorem replies_named_eq_nil
    (hnamed : ∀ a ∈ ms₂.filterMap (HubMsg.ownAction id), ∃ n, a.action = .unsubscribe n)
    (hid : id ∉ (Hub.run x ms).userList) : repliesTo x (Hub.run x ms) ms₂ id = [] := by
  refine repliesTo_eq_nil fun p a hp _ => ?_
  rw [List.append_assoc]
  refine not_mem_run _ hid fun m hm => ?_
  cases m with
  | data => trivial
  | action b =>
    intro hb
    exact hnamed b (List.mem_filterMap.2 ⟨_, hp.subset hm, if_pos hb⟩)

theorem replies_leave_eq_nil
    (hleave : ∀ a ∈ ms₂.filterMap (HubMsg.ownAction id), a.action = .unsubscribe none) :
    repliesTo x (Hub.run x ms) ms₂ id = [] := by
  refine repliesTo_eq_nil fun p a hp hid => ?_
  subst hid
  have ha := hleave a (mem_ownActions hp)
  rcases a.cases with ⟨i, t, rfl⟩ | ⟨i, n, rfl⟩
  · simp [ChannelAction.subscribe] at ha
  · obtain rfl : n = none := by simpa [ChannelAction.unsubscribe] using ha
    exact not_mem_unsubscribe

theorem filterMap_send {α : Type*} (f : α → ChannelAction) (l : List α) :
    (l.map fun arg => Op.send (f arg)).filterMap Op.action = l.map f := by
  rw [List.filterMap_map]
  exact congrFun (List.filterMap_eq_map (f := f)) l

/-- **Replies to a request.** The hub takes the actions of a request of session `id`,
among any messages that are not of this session. The session gets the replies it is owed
if and only if the request is a subscription, or names a topic and the session is a user
before it. -/
theorem replies_iff (x : Crates) (json : String) (params : Action) (kind : RequestKind) (id : ℕ)
    (ms ms₂ : List HubMsg) (hjson : x.fromStr json = some params)
    (hkind : (split '@' params.action).headD "" = kind.word)
    (hsent : ms₂.filterMap (HubMsg.ownAction id) = (jsonHandle x json id).1.filterMap Op.action) :
    (repliesTo x (Hub.run x ms) ms₂ id).length = kind.owed params.args.length ↔
      kind = .subscribe ∨ 0 < params.args.length ∧ id ∈ (Hub.run x ms).userList := by
  unfold jsonHandle at hsent
  simp only [hjson, hkind] at hsent
  cases kind with
  | subscribe =>
    simp only [RequestKind.word, filterMap_send] at hsent
    refine iff_of_true ?_ (Or.inl rfl)
    rw [length_replies_subscribe, hsent, List.length_map]
    · rfl
    · intro a ha
      rw [hsent] at ha
      obtain ⟨arg, -, rfl⟩ := List.mem_map.1 ha
      exact ⟨_, _, rfl⟩
  | unsubscribe =>
    simp only [RequestKind.word] at hsent
    simp only [RequestKind.owed, reduceCtorEq, false_or]
    by_cases hn : params.args.length = 0
    · -- an unsubscription from everything is never answered
      rw [if_pos hn] at hsent
      rw [replies_leave_eq_nil, hn]
      · simp
      · intro a ha
        rw [hsent] at ha
        obtain rfl : a = .unsubscribe id none := by simpa [Op.action] using ha
        rfl
    · rw [if_neg hn] at hsent
      rw [filterMap_send] at hsent
      have hnamed : ∀ a ∈ ms₂.filterMap (HubMsg.ownAction id),
          ∃ s, a.action = .unsubscribe (some s) := by
        intro a ha
        rw [hsent] at ha
        obtain ⟨arg, -, rfl⟩ := List.mem_map.1 ha
        exact ⟨_, rfl⟩
      by_cases hid : id ∈ (Hub.run x ms).userList
      · refine iff_of_true ?_ ⟨by omega, hid⟩
        rw [length_replies_named hnamed hid, hsent, List.length_map]
        omega
      · refine iff_of_false ?_ fun hc => hid hc.2
        rw [replies_named_eq_nil (fun a ha => (hnamed a ha).elim fun s hs => ⟨some s, hs⟩) hid]
        simp only [List.length_nil]
        omega

/-- The request to subscribe to the trades of one pair. -/
def subscribeText : String :=
  "\x7b\"action\":\"subscribe\",\"args\":[\x7b\"exchange\":\"binance\",\"marketType\":\"spot\"," ++
    "\"symbol\":\"BTCUSDT\",\"messageType\":\"trade\"\x7d]\x7d"

/-- The request to unsubscribe from everything. -/
def unsubscribeText : String := "\x7b\"action\":\"unsubscribe\",\"args\":[]\x7d"

/-- The crates on runs in which `text` is the only request. -/
def requestCrates (text : String) (params : Action) : Crates :=
  { blankCrates with fromStr := fun json => if json = text then some params else none }

theorem fromStr_requestCrates (text : String) (params : Action) :
    (requestCrates text params).fromStr text = some params := by
  simp [requestCrates]

/-- A first subscription is answered, with a failure. -/
theorem replies_subscribeText :
    let x := requestCrates subscribeText ⟨"subscribe", [btcTrade]⟩
    (repliesTo x (Hub.run x []) [.action (.subscribe 1 "binance_spot_trade_BTCUSDT")] 1).length = 1 :=
  (replies_iff _ subscribeText ⟨"subscribe", [btcTrade]⟩ .subscribe 1 []
    [.action (.subscribe 1 "binance_spot_trade_BTCUSDT")]
    (fromStr_requestCrates _ _) (by decide) rfl).2 (Or.inl rfl)

/-- **An unsubscription from everything is not answered**, not even to a subscriber. -/
theorem not_replied_unsubscribeText :
    let x := requestCrates unsubscribeText ⟨"unsubscribe", []⟩
    let ms := [HubMsg.data "binance_spot_trade_BTCUSDT" "trade" [],
      .action (.subscribe 1 "binance_spot_trade_BTCUSDT")]
    let ms₂ := [HubMsg.action (.unsubscribe 1 none)]
    x.fromStr unsubscribeText = some ⟨"unsubscribe", []⟩ ∧
      ms₂.filterMap (HubMsg.ownAction 1) =
        (jsonHandle x unsubscribeText 1).1.filterMap Op.action ∧
      (repliesTo x (Hub.run x ms) ms₂ 1).length ≠ RequestKind.unsubscribe.owed 0 :=
  ⟨fromStr_requestCrates _ _, rfl, by decide⟩

end CryptoMarket.Replay
