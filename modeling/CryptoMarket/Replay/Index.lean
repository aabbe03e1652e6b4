import CryptoMarket.Replay.Subscriptions

/-!
# The hub's two indexes

`user_list` holds for each session the symbols it asked for, `sub_list` for each symbol
the sessions to push to. One half of their agreement always holds: who is in a topic has
the topic in its entry (`HubOK.listed`). The other half does not.

* `indexed_iff`: along a run the two agree at every point exactly when every action is
  one that updates both (`Hub.UpdatesBoth`).
* `delivered_subscribed`: only subscribed sessions get data, and nothing is left of a
  session that unsubscribed from everything and did not come back.
-/

namespace CryptoMarket.Replay

/-- The two indexes agree. -/
def Hub.Indexed (h : Hub) : Prop :=
  ∀ id s, (∃ sessions, h.subList.lookup s = some sessions ∧ id ∈ sessions) ↔
    ∃ u, h.userList.lookup id = some u ∧ s ∈ u.2

/-- The action changes both indexes or none: a new session subscribes to an existing
topic only, and a topic is taken away only when no session that keeps its entry is in
it. -/
def Hub.UpdatesBoth (h : Hub) (a : ChannelAction) : Prop :=
  match a.action with
  | .subscribe s _ => a.id ∈ h.userList ∨ s ∈ h.subList
  | .unsubscribe n =>
    ∀ s ∈ h.drops a, ∀ id, (h.channel id s).isSome → n = none ∧ id = a.id

variable {x : Crates} {ms : List HubMsg} {a : ChannelAction} {h : Hub} {log : List Answered}

theorem Hub.channel_isSome_iff {id : ℕ} {s : String} : (h.channel id s).isSome ↔
    ∃ sessions, h.subList.lookup s = some sessions ∧ id ∈ sessions := by
  unfold Hub.channel
  cases h.subList.lookup s with
  | none => simp
  | some sessions => simp [Finmap.lookup_isSome]

/-- With the half that always holds, the indexes agree when every listed symbol is one
the session gets. -/
theorem HubOK.indexed_iff_listed (hok : HubOK log h) : h.Indexed ↔
    ∀ id u, h.userList.lookup id = some u → ∀ s ∈ u.2, (h.channel id s).isSome := by
  unfold Hub.Indexed
  simp only [← Hub.channel_isSome_iff]
  constructor
  · intro hi id u hu s hs
    exact (hi id s).2 ⟨u, hu, hs⟩
  · intro hi id s
    constructor
    · intro hc
      obtain ⟨tx, htx⟩ := Option.isSome_iff_exists.1 hc
      exact (hok.listed id s tx htx).2
    · rintro ⟨u, hu, hs⟩
      exact hi id u hu s hs

/-! ## One action -/

theorem channel_subscribe_isSome {id id' : ℕ} {s s' : String} {tx : TxJSON}
    (hc : (h.channel id' s').isSome) :
    ((actionHandleSubscribe id s tx h).2.channel id' s').isSome := by
  rw [channel_subscribe]
  split
  · rfl
  · exact hc

theorem indexed_subscribe (hok : HubOK log h) (hin : h.Indexed) (id : ℕ) (s : String) :
    (actionHandleSubscribe id s ⟨id⟩ h).2.Indexed ↔ id ∈ h.userList ∨ s ∈ h.subList := by
  rw [hok.indexed_iff_listed] at hin
  rw [(hubOK_subscribe hok id s).indexed_iff_listed]
  constructor
  · intro hall
    by_contra hn
    obtain ⟨hid, hs⟩ := not_or.1 hn
    -- the new user is recorded with the symbol, but there is no topic to join
    have hu : h.user id s ⟨id⟩ = (⟨id⟩, {s}) := by
      rw [Hub.user, Finmap.lookup_eq_none.2 hid]; rfl
    have hc := hall id (⟨id⟩, {s}) (by rw [lookup_userList_subscribe, if_pos rfl, hu]) s
      (Finset.mem_singleton_self s)
    rw [channel_subscribe, if_neg fun h' => hs (subscribe_isSome_iff.1 h'.1).2] at hc
    obtain ⟨tx, htx⟩ := Option.isSome_iff_exists.1 hc
    exact hs (Hub.mem_subList_of_channel htx)
  · intro hcond i u hu t ht
    rw [lookup_userList_subscribe] at hu
    split at hu
    · rename_i heq
      subst heq
      obtain rfl := Option.some.inj hu
      unfold Hub.user at ht
      cases hl : h.userList.lookup i with
      | some v =>
        rw [hl] at ht
        exact channel_subscribe_isSome (hin i v hl t ht)
      | none =>
        rw [hl] at ht
        obtain rfl := Finset.mem_singleton.1 ht
        have hs : t ∈ h.subList := hcond.resolve_left (Finmap.lookup_eq_none.1 hl)
        have hsucc : (actionHandleSubscribe i t ⟨i⟩ h).1.isSome :=
          subscribe_isSome_iff.2 ⟨by rw [Hub.user, hl]; exact ht, hs⟩
        rw [channel_subscribe, if_pos ⟨hsucc, rfl, rfl⟩]
        rfl
    · exact channel_subscribe_isSome (hin i u hu t ht)

theorem indexed_unsubscribe (hok : HubOK log h) (hin : h.Indexed) (id : ℕ) (n : Option String) :
    (actionHandleUnsubscribe id n h).2.Indexed ↔
      ∀ s ∈ h.drops (.unsubscribe id n), ∀ i, (h.channel i s).isSome → n = none ∧ i = id := by
  rw [hok.indexed_iff_listed] at hin
  rw [(hubOK_unsubscribe hok id n none).indexed_iff_listed]
  constructor
  · intro hall t ht i hc
    by_contra hn
    -- the session keeps its entry, but the topic is gone
    obtain ⟨tx, htx⟩ := Option.isSome_iff_exists.1 hc
    obtain ⟨-, u, hu, htu⟩ := hok.listed i t tx htx
    have hc' := hall i u (by rw [lookup_userList_unsubscribe, if_neg hn, hu]) t htu
    rw [channel_unsubscribe, if_pos ht] at hc'
    cases hc'
  · intro hcond i u hu t ht
    rw [lookup_userList_unsubscribe] at hu
    split at hu
    · cases hu
    · rename_i hn
      have hc := hin i u hu t ht
      rw [channel_unsubscribe, if_neg fun hd => hn (hcond t hd i hc)]
      exact hc

/-- **One action** keeps the indexes in agreement exactly when it updates both. -/
theorem indexed_action (hok : HubOK log h) (hin : h.Indexed) :
    (actionHandle a.id a.action h).1.Indexed ↔ h.UpdatesBoth a := by
  rcases a.cases with ⟨id, s, rfl⟩ | ⟨id, n, rfl⟩
  · exact indexed_subscribe hok hin id s
  · exact indexed_unsubscribe hok hin id n

theorem indexed_data (hok : HubOK log h) {s mt : String} {d : Bytes}
    (hok' : HubOK log (dataHander x s mt d h).1) (hin : h.Indexed) :
    (dataHander x s mt d h).1.Indexed := by
  rw [hok.indexed_iff_listed] at hin
  rw [hok'.indexed_iff_listed]
  intro i u hu t ht
  rw [userList_data] at hu
  rw [channel_data]
  exact hin i u hu t ht

/-! ## Runs -/

/-- **The indexes of the hub.** Along a run they agree at every point if and only if
every action of the run, where it is processed, updates both. -/
theorem indexed_iff (x : Crates) (ms : List HubMsg) :
    (∀ p, p <+: ms → (Hub.run x p).Indexed) ↔
      ∀ p a, p ++ [.action a] <+: ms → (Hub.run x p).UpdatesBoth a := by
  constructor
  · intro hall p a hp
    have h0 := hall p ((List.prefix_append p _).trans hp)
    have h1 := hall _ hp
    rw [Hub.run_snoc] at h1
    exact (indexed_action (hubOK_run x p) h0).1 h1
  · intro hboth p
    induction p using List.reverseRecOn with
    | nil =>
      intro _
      rw [(hubOK_run x []).indexed_iff_listed]
      intro id u hu
      simp [Hub.run, Hub.init] at hu
    | append_singleton p m ih =>
      intro hp
      have hin := ih ((List.prefix_append p _).trans hp)
      cases m with
      | action a =>
        rw [Hub.run_snoc]
        exact (indexed_action (hubOK_run x p) hin).2 (hboth p a hp)
      | data s mt d =>
        have hok' := hubOK_run x (p ++ [.data s mt d])
        rw [answered_snoc_data, Hub.run_snoc] at hok'
        rw [Hub.run_snoc]
        exact indexed_data (hubOK_run x p) hok' hin

/-- **A new session that subscribes first** is recorded with a topic that does not exist. -/
theorem not_indexed_early :
    ¬ (Hub.run blankCrates [.action (.subscribe 1 "binance_spot_trade_BTCUSDT")]).Indexed := by
  intro hin
  obtain ⟨sessions, hs, -⟩ := (hin 1 "binance_spot_trade_BTCUSDT").2
    ⟨(⟨1⟩, {"binance_spot_trade_BTCUSDT"}), by decide, by decide⟩
  have hnone : (Hub.run blankCrates
      [.action (.subscribe 1 "binance_spot_trade_BTCUSDT")]).subList = ∅ := by decide
  rw [hnone] at hs
  simp at hs

/-! ## Sessions that left -/

/-- The message is not a subscription of `id`. -/
def HubMsg.NotSubscribe (id : ℕ) : HubMsg → Prop
  | .action a => a.id = id → ∃ n, a.action = .unsubscribe n
  | .data _ _ _ => True

/-- A session that is not a user stays none until it subscribes. -/
theorem not_mem_step {id : ℕ} {m : HubMsg} (hm : m.NotSubscribe id) (hid : id ∉ h.userList) :
    id ∉ (h.step x m).userList := by
  rw [← Finmap.lookup_eq_none] at hid ⊢
  cases m with
  | data s mt d => rw [Hub.step, userList_data]; exact hid
  | action a =>
    rcases a.cases with ⟨i, s, rfl⟩ | ⟨i, n, rfl⟩
    · show (actionHandleSubscribe i s ⟨i⟩ h).2.userList.lookup id = none
      rw [lookup_userList_subscribe, if_neg]
      · exact hid
      · rintro rfl
        obtain ⟨n, hn⟩ := hm rfl
        simp [ChannelAction.subscribe] at hn
    · show (actionHandleUnsubscribe i n h).2.userList.lookup id = none
      rw [lookup_userList_unsubscribe]
      split
      · rfl
      · exact hid

theorem not_mem_run {id : ℕ} (ms₂ : List HubMsg) (hid : id ∉ (Hub.run x ms).userList)
    (hms : ∀ m ∈ ms₂, m.NotSubscribe id) : id ∉ (Hub.run x (ms ++ ms₂)).userList := by
  induction ms₂ using List.reverseRecOn with
  | nil => simpa using hid
  | append_singleton p m ih =>
    rw [← List.append_assoc, Hub.run_snoc]
    exact not_mem_step (hms m (by simp)) (ih fun m' hm' => hms m' (by simp [hm']))

theorem not_mem_unsubscribe {id : ℕ} :
    id ∉ (Hub.run x (ms ++ [.action (.unsubscribe id none)])).userList := by
  rw [← Finmap.lookup_eq_none, Hub.run_snoc]
  show (actionHandleUnsubscribe id none (Hub.run x ms)).2.userList.lookup id = none
  rw [lookup_userList_unsubscribe, if_pos ⟨rfl, rfl⟩]

/-- A session that is not a user is in no topic. -/
theorem HubOK.channel_eq_none (hok : HubOK log h) {id : ℕ} (hid : id ∉ h.userList) (s : String) :
    h.channel id s = none := by
  rw [Option.eq_none_iff_forall_ne_some]
  intro tx htx
  obtain ⟨-, u, hu, -⟩ := hok.listed id s tx htx
  exact hid (Finmap.mem_of_lookup_eq_some hu)

/-- **Delivery is sound and cleanup complete.** Whoever gets a message of a topic is
subscribed to it. After an unsubscription from everything, and until the session
subscribes again, nothing is sent to its channel and neither map holds the channel. -/
theorem delivered_subscribed (x : Crates) (ms : List HubMsg) (id : ℕ) :
    (∀ s mt d, ∀ m ∈ (dataHander x s mt d (Hub.run x ms)).2, m.1 = ⟨id⟩ →
      Subscribed (answered x ms) id s) ∧
    ∀ ms₂ : List HubMsg, (∀ m ∈ ms₂, m.NotSubscribe id) →
      let h := Hub.run x (ms ++ .action (.unsubscribe id none) :: ms₂)
      (∀ s mt d, ∀ m ∈ (dataHander x s mt d h).2, m.1 ≠ ⟨id⟩) ∧
      (∀ i u, h.userList.lookup i = some u → u.1 ≠ ⟨id⟩) ∧
      ∀ i s tx, h.channel i s = some tx → tx ≠ ⟨id⟩ := by
  constructor
  · intro s mt d m hm hid
    have hok := hubOK_run x ms
    have hf := filter_dataHander (x := x) hok id s mt d
    by_cases hc : (Hub.run x ms |>.channel id s).isSome
    · obtain ⟨tx, htx⟩ := Option.isSome_iff_exists.1 hc
      exact hok.sound id s tx htx
    · rw [if_neg hc, Multiset.filter_eq_nil] at hf
      exact absurd hid (hf m hm)
  · intro ms₂ hms
    rw [List.append_cons]
    have hok := hubOK_run x (ms ++ [.action (.unsubscribe id none)] ++ ms₂)
    have hleft : id ∉ (Hub.run x (ms ++ [.action (.unsubscribe id none)])).userList :=
      not_mem_unsubscribe
    have hid := not_mem_run ms₂ hleft hms
    generalize Hub.run x (ms ++ [.action (.unsubscribe id none)] ++ ms₂) = h at hok hid
    refine ⟨fun s mt d m hm heq => ?_, fun i u hu heq => ?_, fun i s tx htx heq => ?_⟩
    · have hf := filter_dataHander (x := x) hok id s mt d
      rw [hok.channel_eq_none hid s] at hf
      exact Multiset.filter_eq_nil.1 hf m hm heq
    · -- an entry holds the session's own channel
      rw [hok.own i u hu, TxJSON.mk.injEq] at heq
      subst heq
      exact hid (Finmap.mem_of_lookup_eq_some hu)
    · rw [(hok.listed i s tx htx).1, TxJSON.mk.injEq] at heq
      subst heq
      rw [hok.channel_eq_none hid s] at htx
      cases htx

end CryptoMarket.Replay
