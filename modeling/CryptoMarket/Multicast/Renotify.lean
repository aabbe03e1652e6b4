import CryptoMarket.Multicast.Converge

/-!
# Multicast server: the same configuration again

A file watcher reports one save several times, so `handle_event` reads one configuration
again and again. The map has one entry for a url, the configuration may list it with
several types, and then one of its pairs is always missing from the map.

* `currentIpcs_of_singleTyped`: an event makes the map the configuration, if that gives
  each url one type.
* `renotified_iff`: exactly then the events after it that read the same change nothing.
-/

namespace CryptoMarket.Multicast

variable {h h' : DynamicConfigHandler} {o : Orders} {e : Notification} {config : List IpcBasicRepr}
  {removed added : List IpcBasicRepr}

/-- **The map after an event** has the pairs of the configuration. -/
theorem currentIpcs_of_singleTyped (hst : SingleTyped config) (hc : e.config = some config) :
    (h.handleEvent o e).2.currentIpcs = config.toFinset := by
  rw [handleEvent_snd, hc]
  dsimp only
  have hr : ∀ p, p ∈ o.removed.walk (h.currentIpcs \ config.toFinset) ↔
      p ∈ h.currentIpcs \ config.toFinset := fun p => o.removed.mem_walk
  have ha : ∀ p, p ∈ o.added.walk (config.toFinset \ h.currentIpcs) ↔
      p ∈ config.toFinset \ h.currentIpcs := fun p => o.added.mem_walk
  ext ⟨typ, url⟩
  rw [mem_currentIpcs, List.mem_toFinset]
  constructor
  · rintro ⟨task, hl, rfl⟩
    exact listed_cleanup_register hr ha hl
  · intro hin
    obtain ⟨task, hl⟩ := Finmap.mem_iff.1 (mem_cleanup_register hr ha hin)
    exact ⟨task, hl, hst url _ _ (listed_cleanup_register hr ha hl) hin⟩

/-- An event that reads what the map has changes nothing. -/
theorem handleEvent_of_current (hcur : h.currentIpcs = config.toFinset) (hc : e.config = some config) :
    (h.handleEvent o e).2 = h := by
  rw [handleEvent_snd, hc]
  dsimp only
  have hempty : ∀ order : HashSet.Order IpcBasicRepr, order.walk ∅ = [] := fun order =>
    List.eq_nil_iff_forall_not_mem.2 fun p hp => Finset.notMem_empty p (order.mem_walk.1 hp)
  rw [hcur, sdiff_self, Finset.bot_eq_empty, hempty, hempty]
  rfl

/-- An event that creates no task finds the whole configuration in the map. -/
theorem subset_currentIpcs (hc : e.config = some config)
    (hsame : (h.handleEvent o e).2.created = h.created) : config.toFinset ⊆ h.currentIpcs := by
  rw [handleEvent_snd, hc] at hsame
  dsimp only at hsame
  have hcleanup : (h.cleanup (o.removed.walk (h.currentIpcs \ config.toFinset))).created = h.created :=
    Pool.created_stopAll (K := ipcTask) _ h
  have hregister : ∀ (l : List IpcBasicRepr) (h : DynamicConfigHandler),
      (h.register l).created = h.created + l.length := Pool.created_spawnAll newTask id
  rw [hregister, hcleanup] at hsame
  have hnil : o.added.walk (config.toFinset \ h.currentIpcs) = [] :=
    List.eq_nil_of_length_eq_zero (by omega)
  intro p hp
  by_contra hnot
  have hadd : p ∈ o.added.walk (config.toFinset \ h.currentIpcs) :=
    o.added.mem_walk.2 (Finset.mem_sdiff.2 ⟨hp, hnot⟩)
  rw [hnil] at hadd
  cases hadd

/-- A configuration that is in the map gives each url one type. -/
theorem singleTyped_of_subset (hsub : config.toFinset ⊆ h.currentIpcs) : SingleTyped config := by
  intro url t t' ht ht'
  have hin := hsub (List.mem_toFinset.2 ht)
  have hin' := hsub (List.mem_toFinset.2 ht')
  exact currentIpcs_inj hin hin'

/-- The events that read the configuration, after one that did. -/
def Renotified (h : DynamicConfigHandler) (config : List IpcBasicRepr) : Prop :=
  ∀ o e, e.config = some config → ∀ es, (∀ e' ∈ es, e'.config = some config) →
    ∀ h', Run Step (h.handleEvent o e).2 es h' → h' = (h.handleEvent o e).2

theorem singleTyped_of_renotified (hre : Renotified h config) : SingleTyped config := by
  have hc : (changeTo config).config = some config := rfl
  have hsame := hre ⟨default, default, default⟩ (changeTo config) hc [changeTo config] (by simpa using hc) _
    (Run.single ⟨⟨default, default, default⟩, rfl⟩)
  exact singleTyped_of_subset (subset_currentIpcs hc (congrArg Pool.created hsame))

/-- **Re-notification.** From any state of the handler: after an event that reads the
configuration, any number of events that read the same creates no task, aborts no task and
leaves the map as it is, if and only if the configuration gives each url one type. -/
theorem renotified_iff (h : DynamicConfigHandler) (config : List IpcBasicRepr) :
    Renotified h config ↔ SingleTyped config := by
  constructor
  · exact singleTyped_of_renotified
  · intro hst o e hc es hes h' hrun
    have hcur := currentIpcs_of_singleTyped (h := h) (o := o) hst hc
    have hsame : (∀ e' ∈ es, e'.config = some config) → h' = (h.handleEvent o e).2 := by
      refine Run.hist_inv (P := fun es h' => (∀ e' ∈ es, e'.config = some config) →
        h' = (h.handleEvent o e).2) (fun _ => rfl) ?_ hrun
      rintro es h₁ e' h₂ - ih ⟨o', rfl⟩ hes
      have h1 := ih fun e'' he => hes e'' (List.mem_append_left _ he)
      rw [h1]
      exact handleEvent_of_current hcur (hes e' (by simp))
    exact hsame hes

/-- A url with two types. -/
def twoTypes : List IpcBasicRepr :=
  [(1, "ipc:///tmp/binance_spot_trade_BTCUSDT.ipc"), (2, "ipc:///tmp/binance_spot_trade_BTCUSDT.ipc")]

/-- **With two types of a url** every event of one save replaces a task. -/
theorem not_renotified_twoTypes : ¬ Renotified .new twoTypes := by
  intro hre
  have htypes := singleTyped_of_renotified hre "ipc:///tmp/binance_spot_trade_BTCUSDT.ipc" 1 2
    (by simp [twoTypes]) (by simp [twoTypes])
  exact absurd htypes (by decide)

end CryptoMarket.Multicast
