import CryptoMarket.Replay.Hub

/-!
# What the hub's handlers do to the maps

`Hub.channel h id s` is the channel that data of topic `s` is pushed to for session
`id`, if the session is in the topic. Every handler is described by its effect on
`channel`, on the users and on the set of topics:

* a subscription (`subscribe_isSome_iff`, `channel_subscribe`, `lookup_userList_subscribe`)
  succeeds when the topic exists and the user is new or already has the symbol, and then
  puts the session in the topic;
* an unsubscription (`channel_unsubscribe`, `mem_subList_unsubscribe`) takes whole topics
  away, those of `Hub.drops`;
* data (`channel_data`) only creates an empty topic.
-/

namespace CryptoMarket.Replay

/-- The channel that data of topic `s` is pushed to for session `id`. -/
def Hub.channel (h : Hub) (id : ℕ) (s : String) : Option TxJSON :=
  (h.subList.lookup s).bind fun sessions => sessions.lookup id

/-- The user as `action_handle_subscribe` leaves it: a known user stays as it is. -/
def Hub.user (h : Hub) (id : ℕ) (s : String) (txJson : TxJSON) : TxJSON × HashSet String :=
  (h.userList.lookup id).getD (txJson, {s})

/-- The topics that `action_handle_unsubscribe` removes. -/
def Hub.drops (h : Hub) (a : ChannelAction) : HashSet String :=
  match a.action with
  | .subscribe _ _ => ∅
  | .unsubscribe (some s) => {s}
  | .unsubscribe none => ((h.userList.lookup a.id).map Prod.snd).getD ∅

variable {h : Hub} {id id' : ℕ} {s s' : String} {tx : TxJSON} {n : Option String}

theorem Hub.mem_subList_of_channel (hc : h.channel id s = some tx) : s ∈ h.subList := by
  unfold Hub.channel at hc
  obtain ⟨sessions, hs, -⟩ := Option.bind_eq_some_iff.1 hc
  exact Finmap.mem_of_lookup_eq_some hs

/-! ## Subscribing -/

theorem Hub.joinTopic_isSome_iff : (h.joinTopic id s tx).1.isSome ↔ s ∈ h.subList := by
  unfold Hub.joinTopic
  cases hs : h.subList.lookup s with
  | none => simpa using Finmap.lookup_eq_none.1 hs
  | some sessions => simpa using Finmap.mem_of_lookup_eq_some hs

theorem Hub.userList_joinTopic : (h.joinTopic id s tx).2.userList = h.userList := by
  unfold Hub.joinTopic; split <;> rfl

theorem Hub.mem_subList_joinTopic : s' ∈ (h.joinTopic id s tx).2.subList ↔ s' ∈ h.subList := by
  unfold Hub.joinTopic
  cases hs : h.subList.lookup s with
  | none => rfl
  | some sessions =>
    simp only [Finmap.mem_insert, or_iff_right_iff_imp]
    rintro rfl; exact Finmap.mem_of_lookup_eq_some hs

theorem Hub.channel_joinTopic : (h.joinTopic id s tx).2.channel id' s' =
    if s ∈ h.subList ∧ id' = id ∧ s' = s then some tx else h.channel id' s' := by
  unfold Hub.joinTopic
  cases hs : h.subList.lookup s with
  | none => simp [Finmap.lookup_eq_none.1 hs]
  | some sessions =>
    simp only [Finmap.mem_of_lookup_eq_some hs, true_and, Hub.channel, HashMap.lookup_insert_eq]
    by_cases hs' : s' = s
    · subst hs'; by_cases hid : id' = id <;> simp [hs, hid, HashMap.lookup_insert_eq]
    · simp [hs']

/-- `action_handle_subscribe` as one line: nothing happens for a known user without the
symbol, otherwise the user is recorded and joins the topic. -/
theorem actionHandleSubscribe_eq : actionHandleSubscribe id s tx h =
    if s ∉ (h.user id s tx).2 then (none, h)
    else { h with userList := h.userList.insert id (h.user id s tx) }.joinTopic id s tx := by
  unfold actionHandleSubscribe Hub.user
  cases hu : h.userList.lookup id with
  | none => simp
  | some u =>
    by_cases hm : s ∈ u.2
    · simp [hm, Finset.insert_eq_of_mem]
    · simp [hm]

/-- **When a subscription succeeds.** -/
theorem subscribe_isSome_iff : (actionHandleSubscribe id s tx h).1.isSome ↔
    s ∈ (h.user id s tx).2 ∧ s ∈ h.subList := by
  rw [actionHandleSubscribe_eq]
  by_cases hm : s ∈ (h.user id s tx).2 <;> simp [hm, Hub.joinTopic_isSome_iff]

theorem channel_subscribe : (actionHandleSubscribe id s tx h).2.channel id' s' =
    if (actionHandleSubscribe id s tx h).1.isSome ∧ id' = id ∧ s' = s then some tx
    else h.channel id' s' := by
  rw [if_congr (and_congr_left' subscribe_isSome_iff) rfl rfl, actionHandleSubscribe_eq]
  by_cases hm : s ∈ (h.user id s tx).2
  · simp only [hm, not_true, if_false, Hub.channel_joinTopic, true_and]; rfl
  · simp [hm]

theorem lookup_userList_subscribe : (actionHandleSubscribe id s tx h).2.userList.lookup id' =
    if id' = id then some (h.user id s tx) else h.userList.lookup id' := by
  rw [actionHandleSubscribe_eq]
  by_cases hm : s ∈ (h.user id s tx).2
  · simp [hm, Hub.userList_joinTopic, HashMap.lookup_insert_eq]
  · rw [if_pos hm]
    by_cases hid : id' = id
    · subst hid
      rw [if_pos rfl]
      unfold Hub.user at hm ⊢
      cases hu : h.userList.lookup id' with
      | none => simp [hu] at hm
      | some u => simp
    · rw [if_neg hid]

theorem mem_subList_subscribe : s' ∈ (actionHandleSubscribe id s tx h).2.subList ↔ s' ∈ h.subList := by
  rw [actionHandleSubscribe_eq]
  split
  · rfl
  · exact Hub.mem_subList_joinTopic

/-! ## Unsubscribing -/

theorem channel_unsubscribe : (actionHandleUnsubscribe id n h).2.channel id' s' =
    if s' ∈ h.drops (.unsubscribe id n) then none else h.channel id' s' := by
  unfold actionHandleUnsubscribe Hub.drops ChannelAction.unsubscribe
  cases n with
  | some s =>
    by_cases hs : s ∈ h.subList
    · simp only [hs, if_true, Hub.channel, HashMap.lookup_erase_eq, Finset.mem_singleton]
      split <;> simp
    · simp only [hs, if_false, Finset.mem_singleton]
      split
      · rename_i heq; subst heq; simp [Hub.channel, Finmap.lookup_eq_none.2 hs]
      · rfl
  | none =>
    cases h.userList.lookup id with
    | none => simp
    | some u =>
      simp only [Hub.channel, HashMap.lookup_removeAll, Option.map_some, Option.getD_some]
      split <;> simp

theorem lookup_userList_unsubscribe : (actionHandleUnsubscribe id n h).2.userList.lookup id' =
    if n = none ∧ id' = id then none else h.userList.lookup id' := by
  unfold actionHandleUnsubscribe
  cases n with
  | some s => by_cases hs : s ∈ h.subList <;> simp [hs]
  | none =>
    cases hu : h.userList.lookup id with
    | none =>
      by_cases hid : id' = id
      · subst hid; simp [hu]
      · simp [hid]
    | some u => by_cases hid : id' = id <;> simp [hid, HashMap.lookup_erase_eq]

theorem mem_subList_unsubscribe : s' ∈ (actionHandleUnsubscribe id n h).2.subList ↔
    s' ∈ h.subList ∧ s' ∉ h.drops (.unsubscribe id n) := by
  unfold actionHandleUnsubscribe Hub.drops ChannelAction.unsubscribe
  cases n with
  | some s =>
    by_cases hs : s ∈ h.subList
    · simp [hs, and_comm]
    · simp only [hs, if_false, Finset.mem_singleton, iff_self_and]
      rintro h' rfl; exact hs h'
  | none => cases h.userList.lookup id <;> simp

/-! ## Data -/

variable {x : Crates} {mt : String} {d : Bytes}

theorem channel_data : (dataHander x s mt d h).1.channel id' s' = h.channel id' s' := by
  unfold dataHander
  cases hs : h.subList.lookup s with
  | some sessions => rfl
  | none =>
    simp only [Hub.channel, HashMap.lookup_insert_eq]
    split
    · rename_i heq; subst heq; simp [hs]
    · rfl

theorem userList_data : (dataHander x s mt d h).1.userList = h.userList := by
  unfold dataHander; split <;> rfl

end CryptoMarket.Replay
