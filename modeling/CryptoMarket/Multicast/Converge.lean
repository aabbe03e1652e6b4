import CryptoMarket.Multicast.Tasks

/-!
# Multicast server: the map converges to the file

The pairs of type and url are compared but the map is keyed by url, so a changed type is
both a removal and an addition of its url. `Follows` says what an event that reads a
configuration makes of the map and of the tasks; `handleEvent_follows` is that every
event does this in every reachable state, whatever the orders of the sets it walks.
-/

namespace CryptoMarket.Multicast

/-- The configuration lists the url, with this type only: so does one that lists it
exactly once. -/
def ListedAs (config : List IpcBasicRepr) (typ : IpcType) (url : IpcUrl) : Prop :=
  (typ, url) ∈ config ∧ ∀ t, (t, url) ∈ config → t = typ

/-- From `h` to `h'` the handler follows the configuration. -/
structure Follows (config : List IpcBasicRepr) (h h' : DynamicConfigHandler) : Prop where
  keys : ∀ url, url ∈ h'.map ↔ ∃ typ, (typ, url) ∈ config
  listed : ∀ url task, h'.map.lookup url = some task → (task.ipcType, url) ∈ config
  /-- A url with the type it had keeps its task, alive. -/
  kept : ∀ url task, h.map.lookup url = some task → ListedAs config task.ipcType url →
    h'.map.lookup url = some task ∧ h'.live.lookup task.taskHandle = some (task.ipcType, url)
  /-- The task of a pair that is gone is aborted. -/
  aborted : ∀ url task, h.map.lookup url = some task → (task.ipcType, url) ∉ config →
    h'.live.lookup task.taskHandle = none
  /-- A url with a new or changed type has a task created by this event. -/
  created : ∀ url typ, ListedAs config typ url →
    (∀ task, h.map.lookup url = some task → task.ipcType ≠ typ) →
    ∃ task, h'.map.lookup url = some task ∧ task.ipcType = typ ∧ h.created ≤ task.taskHandle ∧
      h'.live.lookup task.taskHandle = some (typ, url)

variable {h h₀ : DynamicConfigHandler} {e : Notification} {o : Orders} {config : List IpcBasicRepr}
  {removed added : List IpcBasicRepr} {url : IpcUrl} {task : IpcTask}

/-! ## The two halves of an event -/

/-- What `cleanup` leaves: the entries whose pair is still listed. -/
theorem lookup_cleanup (hr : ∀ p, p ∈ removed ↔ p ∈ h.currentIpcs \ config.toFinset) :
    (h.cleanup removed).map.lookup url = some task ↔
      h.map.lookup url = some task ∧ (task.ipcType, url) ∈ config := by
  simp only [Finset.mem_sdiff, List.mem_toFinset] at hr
  -- the url of an entry is cleaned up exactly when its pair is not listed
  have hurl : ∀ t, h.map.lookup url = some t →
      (url ∈ removed.map Prod.snd ↔ (t.ipcType, url) ∉ config) := by
    intro t hl
    constructor
    · intro hm
      obtain ⟨⟨typ, url'⟩, hp, rfl⟩ := List.mem_map.1 hm
      obtain ⟨hc, hn⟩ := (hr _).1 hp
      obtain ⟨t', hl', rfl⟩ := mem_currentIpcs.1 hc
      rw [hl] at hl'
      rwa [Option.some.inj hl']
    · intro hn
      exact List.mem_map.2 ⟨_, (hr _).2 ⟨mem_currentIpcs.2 ⟨t, hl, rfl⟩, hn⟩, rfl⟩
  unfold DynamicConfigHandler.cleanup
  constructor
  · intro hl
    have hm := (Pool.mem_map_stopAll (K := ipcTask) removed h).1 (Finmap.mem_of_lookup_eq_some hl)
    rw [Pool.lookup_map_stopAll _ _ hm.2] at hl
    refine ⟨hl, ?_⟩
    by_contra hn
    exact hm.2 ((hurl task hl).2 hn)
  · rintro ⟨hl, hc⟩
    rw [Pool.lookup_map_stopAll _ _ fun hm => (hurl task hl).1 hm hc]
    exact hl

/-- What `register` makes of an entry: it stays, or it is a new one of a listed pair. -/
theorem lookup_register (l : List IpcBasicRepr) (h : DynamicConfigHandler) (url : IpcUrl) :
    (url ∉ l.map Prod.snd ∧ (h.register l).map.lookup url = h.map.lookup url) ∨
      ∃ typ, (typ, url) ∈ l ∧ ∃ n, h.created ≤ n ∧
        (h.register l).map.lookup url = some ⟨typ, n⟩ := by
  obtain hl | ⟨⟨typ, u⟩, hb, n, hn, hu, hl⟩ :
      (url ∉ l.map Prod.snd ∧ (h.register l).map.lookup url = h.map.lookup url) ∨
      ∃ b ∈ l, ∃ n, h.created ≤ n ∧ b.2 = url ∧
        (h.register l).map.lookup url = some (newTask b n) :=
    Pool.lookup_map_spawnAll newTask id l h
  · exact Or.inl hl
  · obtain rfl : u = url := hu
    exact Or.inr ⟨typ, hb, n, hn, hl⟩

/-- The two together: an entry stays if its pair is listed, or it is a new one of a listed pair
that was not there. -/
theorem lookup_cleanup_register (hr : ∀ p, p ∈ removed ↔ p ∈ h.currentIpcs \ config.toFinset)
    (ha : ∀ p, p ∈ added ↔ p ∈ config.toFinset \ h.currentIpcs) (url : IpcUrl) :
    (url ∉ added.map Prod.snd ∧ ∀ task,
      ((h.cleanup removed).register added).map.lookup url = some task ↔
        h.map.lookup url = some task ∧ (task.ipcType, url) ∈ config) ∨
    ∃ typ n, (typ, url) ∈ config ∧ (typ, url) ∉ h.currentIpcs ∧ h.created ≤ n ∧
      ((h.cleanup removed).register added).map.lookup url = some ⟨typ, n⟩ := by
  rcases lookup_register added (h.cleanup removed) url with ⟨hnot, heq⟩ | ⟨typ, htyp, n, hn, heq⟩
  · refine Or.inl ⟨hnot, fun task => ?_⟩
    rw [heq]
    exact lookup_cleanup hr
  · rw [ha, Finset.mem_sdiff, List.mem_toFinset] at htyp
    have hcreated : (h.cleanup removed).created = h.created := Pool.created_stopAll removed h
    exact Or.inr ⟨typ, n, htyp.1, htyp.2, hcreated ▸ hn, heq⟩

/-- The entries are of listed pairs. -/
theorem listed_cleanup_register (hr : ∀ p, p ∈ removed ↔ p ∈ h.currentIpcs \ config.toFinset)
    (ha : ∀ p, p ∈ added ↔ p ∈ config.toFinset \ h.currentIpcs)
    (hl : ((h.cleanup removed).register added).map.lookup url = some task) :
    (task.ipcType, url) ∈ config := by
  rcases lookup_cleanup_register hr ha url with ⟨-, hkept⟩ | ⟨typ, n, hc, -, -, heq⟩
  · exact ((hkept task).1 hl).2
  · rw [hl] at heq
    obtain rfl := Option.some.inj heq
    exact hc

/-- Every listed url has an entry. -/
theorem mem_cleanup_register (hr : ∀ p, p ∈ removed ↔ p ∈ h.currentIpcs \ config.toFinset)
    (ha : ∀ p, p ∈ added ↔ p ∈ config.toFinset \ h.currentIpcs) {typ : IpcType}
    (hc : (typ, url) ∈ config) : url ∈ ((h.cleanup removed).register added).map := by
  rcases lookup_cleanup_register hr ha url with ⟨hnot, hkept⟩ | ⟨t, n, -, -, -, heq⟩
  · -- the pair is not new, so its entry was there and is kept
    have hcur : (typ, url) ∈ h.currentIpcs := by
      by_contra hcur
      have hadd : (typ, url) ∈ added := (ha _).2 (by simp [hc, hcur])
      exact hnot (List.mem_map.2 ⟨_, hadd, rfl⟩)
    obtain ⟨task, hl, rfl⟩ := mem_currentIpcs.1 hcur
    exact Finmap.mem_of_lookup_eq_some ((hkept task).2 ⟨hl, hc⟩)
  · exact Finmap.mem_of_lookup_eq_some heq

/-- **An event that reads a configuration.** -/
theorem follows_cleanup_register (hh : h.Held ipcTask)
    (hr : ∀ p, p ∈ removed ↔ p ∈ h.currentIpcs \ config.toFinset)
    (ha : ∀ p, p ∈ added ↔ p ∈ config.toFinset \ h.currentIpcs) :
    Follows config h ((h.cleanup removed).register added) := by
  have hentry := lookup_cleanup_register hr ha
  have hlisted : ∀ url task, ((h.cleanup removed).register added).map.lookup url = some task →
      (task.ipcType, url) ∈ config := fun url task hl => listed_cleanup_register hr ha hl
  have hmem : ∀ url typ, (typ, url) ∈ config → url ∈ ((h.cleanup removed).register added).map :=
    fun url typ hc => mem_cleanup_register hr ha hc
  have hheld := held_register (held_cleanup hh removed) added
  simp only [Finset.mem_sdiff, List.mem_toFinset] at hr ha
  refine ⟨fun url => ?_, fun url task hl => ?_, fun url task hl hlist => ?_, fun url task hl hn => ?_,
    fun url typ hlist hnew => ?_⟩
  · constructor
    · intro hm
      obtain ⟨task, hl⟩ := Finmap.mem_iff.1 hm
      exact ⟨_, hlisted url task hl⟩
    · rintro ⟨typ, hc⟩
      exact hmem url typ hc
  · exact hlisted url task hl
  · -- the only listed type of the url is in the map, so no pair of the url is new
    have hl' : ((h.cleanup removed).register added).map.lookup url = some task := by
      rcases hentry url with ⟨-, hkept⟩ | ⟨typ, n, hc, hcur, -⟩
      · exact (hkept task).2 ⟨hl, hlist.1⟩
      · obtain rfl := hlist.2 typ hc
        exact absurd (mem_currentIpcs.2 ⟨task, hl, rfl⟩) hcur
    exact ⟨hl', hheld.held url task hl'⟩
  · -- the number of the aborted task is not given to another
    have hlt : task.taskHandle < (h.cleanup removed).created := by
      rw [DynamicConfigHandler.cleanup, Pool.created_stopAll]
      exact hh.fresh _ _ (hh.held url task hl)
    have hmem : url ∈ removed.map Prod.snd :=
      List.mem_map.2 ⟨_, (hr _).2 ⟨mem_currentIpcs.2 ⟨task, hl, rfl⟩, hn⟩, rfl⟩
    exact (Pool.live_spawnAll newTask id added _ hlt).trans
      (Pool.live_stopAll (K := ipcTask) removed h hmem hl)
  · have hadd : (typ, url) ∈ added := by
      refine (ha _).2 ⟨hlist.1, fun hcur => ?_⟩
      obtain ⟨task, hl, heq⟩ := mem_currentIpcs.1 hcur
      exact hnew task hl heq
    rcases hentry url with ⟨hnot, -⟩ | ⟨t, n, hc, -, hn, heq⟩
    · exact absurd (List.mem_map.2 ⟨_, hadd, rfl⟩) hnot
    · obtain rfl := hlist.2 t hc
      exact ⟨⟨t, n⟩, heq, rfl, hn, hheld.held url _ heq⟩

/-! ## Every reachable state -/

/-- **The handler converges to the file.** In every state reached from an empty map, with
or without a first configuration, by calls of `handle_event`, a call that reads a
configuration follows it and any other call changes nothing. -/
theorem handleEvent_follows {es : List Notification}
    (h0 : h₀ = .new ∨ ∃ first, DynamicConfigHandler.new.initiate (some first) = some h₀)
    (hrun : Run Step h₀ es h) (o : Orders) (e : Notification) :
    (e.config = none → (h.handleEvent o e).2 = h) ∧
      ∀ config, e.config = some config → Follows config h (h.handleEvent o e).2 := by
  have hnew : DynamicConfigHandler.new.Held ipcTask := Pool.held_empty
  have hh₀ : h₀.Held ipcTask := by
    rcases h0 with rfl | ⟨first, h0⟩
    · exact hnew
    · obtain rfl : DynamicConfigHandler.new.register first = h₀ := Option.some.inj h0
      exact held_register hnew first
  rw [handleEvent_snd]
  constructor
  · intro hnone
    rw [hnone]
  · intro config hconfig
    rw [hconfig]
    exact follows_cleanup_register (held_run hh₀ hrun) (fun p => o.removed.mem_walk)
      (fun p => o.added.mem_walk)

/-- A url that changes its type, and is listed twice. -/
theorem handleEvent_follows_change :
    Follows repeatedUrl
      (DynamicConfigHandler.new.register [(4, "ipc:///tmp/binance_spot_l2_topk_BTCUSDT.ipc")])
      ((DynamicConfigHandler.new.register [(4, "ipc:///tmp/binance_spot_l2_topk_BTCUSDT.ipc")]).handleEvent
        ⟨default, default, default⟩ (changeTo repeatedUrl)).2 :=
  (handleEvent_follows (Or.inr ⟨_, rfl⟩) Run.nil _ (changeTo repeatedUrl)).2 repeatedUrl rfl

end CryptoMarket.Multicast
