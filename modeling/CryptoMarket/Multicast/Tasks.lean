import CryptoMarket.Lib.Run
import CryptoMarket.Multicast.Config

/-!
# Multicast server: the tasks follow the configuration

* `handleEvent_snd`: what an event does to the handler, in one line.
* `held_run`: along every run, every entry of `ipcs_map` holds a live task for its type
  and url.
* `noOrphan_handleEvent`: an event leaves no task outside the map exactly when none was
  there and the configuration read gives each url one type.
* `matched_iff`: after a run the live tasks correspond to the entries one to one exactly
  when the first configuration repeats no url and no later one gives a url two types.
-/

namespace CryptoMarket.Multicast

/-- The configuration gives each url one type (an entry may be repeated). -/
def SingleTyped (config : List IpcBasicRepr) : Prop :=
  ∀ url t t', (t, url) ∈ config → (t', url) ∈ config → t = t'

variable {h h' : DynamicConfigHandler} {e : Notification} {o : Orders} {config : List IpcBasicRepr}

theorem mem_currentIpcs {typ : IpcType} {url : IpcUrl} : (typ, url) ∈ h.currentIpcs ↔
    ∃ t, h.map.lookup url = some t ∧ t.ipcType = typ := by
  simp only [DynamicConfigHandler.currentIpcs, Multiset.mem_toFinset, Multiset.mem_map,
    Prod.mk.injEq]
  constructor
  · rintro ⟨⟨u, t⟩, hm, rfl, rfl⟩
    exact ⟨t, Finmap.lookup_eq_some_iff.2 hm, rfl⟩
  · rintro ⟨t, hl, rfl⟩
    exact ⟨⟨url, t⟩, Finmap.lookup_eq_some_iff.1 hl, rfl, rfl⟩

/-- A url has one type in the map. -/
theorem currentIpcs_inj {t t' : IpcType} {url : IpcUrl} (ht : (t, url) ∈ h.currentIpcs)
    (ht' : (t', url) ∈ h.currentIpcs) : t = t' := by
  obtain ⟨task, hl, rfl⟩ := mem_currentIpcs.1 ht
  obtain ⟨task', hl', rfl⟩ := mem_currentIpcs.1 ht'
  rw [hl] at hl'
  rw [Option.some.inj hl']

theorem diff_eq (order : HashSet.Order IpcBasicRepr) (config : List IpcBasicRepr) :
    h.diff order config = some ⟨config.toFinset \ h.currentIpcs, h.currentIpcs \ config.toFinset⟩ := by
  have hw : (order.walk h.currentIpcs).toFinset = h.currentIpcs := by
    ext p; rw [List.mem_toFinset, order.mem_walk]
  rw [DynamicConfigHandler.diff, diffIpc_eq (order.nodup_walk _), hw]

/-- **What an event does**: nothing if it reads no configuration, else the tasks of the
pairs that are gone are aborted and tasks for the new pairs are created. -/
theorem handleEvent_snd : (h.handleEvent o e).2 =
    match e.config with
    | none => h
    | some config => (h.cleanup (o.removed.walk (h.currentIpcs \ config.toFinset))).register
        (o.added.walk (config.toFinset \ h.currentIpcs)) := by
  unfold DynamicConfigHandler.handleEvent Notification.config
  rcases e.event with _ | ⟨kind, paths⟩
  · rfl
  · by_cases hk : kind = .modify
    · subst hk
      rcases paths with _ | ⟨dir, paths⟩
      · rfl
      · simp only [if_true]
        cases e.disk dir with
        | none => rfl
        | some config => simp only [diff_eq]
    · simp only [if_neg hk]
      cases kind <;> first | rfl | exact absurd rfl hk

/-! ## Every entry holds its task -/

theorem held_register (hh : h.Held ipcTask) (l : List IpcBasicRepr) : (h.register l).Held ipcTask :=
  Pool.held_spawnAll newTask id (fun _ _ => rfl) (fun _ _ => rfl) l h hh

theorem held_cleanup (hh : h.Held ipcTask) (l : List IpcBasicRepr) : (h.cleanup l).Held ipcTask :=
  Pool.held_stopAll l h hh

theorem held_handleEvent (hh : h.Held ipcTask) : (h.handleEvent o e).2.Held ipcTask := by
  rw [handleEvent_snd]
  cases e.config with
  | none => exact hh
  | some config => exact held_register (held_cleanup hh _) _

theorem held_run {es : List Notification} (hh : h.Held ipcTask) (hr : Run Step h es h') :
    h'.Held ipcTask := by
  refine Run.inv (P := fun h => h.Held ipcTask) hh ?_ hr
  rintro h e h' hh ⟨o, rfl⟩
  exact held_handleEvent hh

/-! ## No task outside the map -/

theorem noOrphan_register (hh : h.Held ipcTask) (l : List IpcBasicRepr) :
    (h.register l).NoOrphan ipcTask ↔
      h.NoOrphan ipcTask ∧ (l.map Prod.snd).Nodup ∧ ∀ p ∈ l, p.2 ∉ h.map :=
  Pool.noOrphan_spawnAll newTask id (fun _ _ => rfl) (fun _ _ => rfl) l h hh

/-- The urls of the new pairs are distinct and free once the old pairs are gone, exactly
when the configuration gives each url one type. -/
theorem fresh_iff_singleTyped {removed added : List IpcBasicRepr}
    (hr : ∀ p, p ∈ removed ↔ p ∈ h.currentIpcs \ config.toFinset)
    (ha : ∀ p, p ∈ added ↔ p ∈ config.toFinset \ h.currentIpcs) (hnd : added.Nodup) :
    ((added.map Prod.snd).Nodup ∧ ∀ p ∈ added, p.2 ∉ (h.cleanup removed).map) ↔
      SingleTyped config := by
  simp only [Finset.mem_sdiff, List.mem_toFinset] at hr ha
  have hmap : ∀ url, url ∈ (h.cleanup removed).map ↔ url ∈ h.map ∧ url ∉ removed.map Prod.snd :=
    fun url => Pool.mem_map_stopAll (K := ipcTask) (k := url) removed h
  constructor
  · rintro ⟨hurls, hfree⟩
    -- two types of one url are the same if both are new, and if one is in the map
    have hboth : ∀ url t t', (t, url) ∈ added → (t', url) ∈ added → t = t' := by
      intro url t t' ht ht'
      have := List.inj_on_of_nodup_map hurls ht ht' rfl
      exact (Prod.mk.inj this).1
    have hmixed : ∀ url t t', (t, url) ∈ config → (t', url) ∈ config →
        (t, url) ∈ h.currentIpcs → (t', url) ∈ h.currentIpcs := by
      intro url t t' ht ht' hc
      by_contra hc'
      have hnew : (t', url) ∈ added := (ha _).2 ⟨ht', hc'⟩
      obtain ⟨task, hl, -⟩ := mem_currentIpcs.1 hc
      have hgone : url ∈ removed.map Prod.snd := by
        by_contra hkept
        exact hfree _ hnew ((hmap url).2 ⟨Finmap.mem_of_lookup_eq_some hl, hkept⟩)
      obtain ⟨⟨t'', url'⟩, hrem, rfl⟩ := List.mem_map.1 hgone
      obtain ⟨hc'', hn''⟩ := (hr _).1 hrem
      obtain rfl := currentIpcs_inj hc hc''
      exact hn'' ht
    intro url t t' ht ht'
    by_cases hc : (t, url) ∈ h.currentIpcs
    · exact currentIpcs_inj hc (hmixed url t t' ht ht' hc)
    · by_cases hc' : (t', url) ∈ h.currentIpcs
      · exact absurd (hmixed url t' t ht' ht hc') hc
      · exact hboth url t t' ((ha _).2 ⟨ht, hc⟩) ((ha _).2 ⟨ht', hc'⟩)
  · intro hst
    constructor
    · refine (List.nodup_map_iff_inj_on hnd).2 ?_
      rintro ⟨t, url⟩ hp ⟨t', url'⟩ hp' heq
      simp only at heq
      subst heq
      rw [hst url t t' ((ha _).1 hp).1 ((ha _).1 hp').1]
    · rintro ⟨t, url⟩ hp hm
      obtain ⟨hin, hkept⟩ := (hmap url).1 hm
      obtain ⟨htc, htn⟩ := (ha _).1 hp
      obtain ⟨task, hl⟩ := Finmap.mem_iff.1 hin
      have hcur : (task.ipcType, url) ∈ h.currentIpcs := mem_currentIpcs.2 ⟨task, hl, rfl⟩
      -- the pair in the map is not in the configuration, so it was removed
      have hnc : (task.ipcType, url) ∉ config := by
        intro hc
        rw [hst url _ _ hc htc] at hcur
        exact htn hcur
      exact hkept (List.mem_map.2 ⟨_, (hr _).2 ⟨hcur, hnc⟩, rfl⟩)

/-- **One event.** -/
theorem noOrphan_handleEvent (hh : h.Held ipcTask) : (h.handleEvent o e).2.NoOrphan ipcTask ↔
    h.NoOrphan ipcTask ∧ ∀ config, e.config = some config → SingleTyped config := by
  rw [handleEvent_snd]
  cases e.config with
  | none => simp
  | some config =>
    simp only [Option.some.injEq, forall_eq']
    rw [noOrphan_register (held_cleanup hh _), DynamicConfigHandler.cleanup, Pool.noOrphan_stopAll,
      ← DynamicConfigHandler.cleanup]
    exact and_congr_right' (fresh_iff_singleTyped (fun p => o.removed.mem_walk)
      (fun p => o.added.mem_walk) (o.added.nodup_walk _))

theorem noOrphan_run {es : List Notification} (hh : h.Held ipcTask) (hr : Run Step h es h') :
    h'.NoOrphan ipcTask ↔
      h.NoOrphan ipcTask ∧ ∀ e ∈ es, ∀ config, e.config = some config → SingleTyped config := by
  refine Run.hist_inv (P := fun es h' => h'.NoOrphan ipcTask ↔ h.NoOrphan ipcTask ∧
    ∀ e ∈ es, ∀ config, e.config = some config → SingleTyped config) (by simp) ?_ hr
  rintro es h₁ e h₂ hr ih ⟨o, rfl⟩
  rw [noOrphan_handleEvent (held_run hh hr), ih]
  simp only [List.mem_append, List.mem_singleton, and_assoc, or_imp, forall_and, forall_eq]

/-- **No orphan tasks.** After `initiate` and any calls of `handle_event`, the live tasks
and the entries of `ipcs_map` correspond one to one if and only if the first
configuration repeats no url and no configuration read later gives a url two types. -/
theorem matched_iff {h₀ : DynamicConfigHandler} {es : List Notification}
    (h0 : DynamicConfigHandler.new.initiate (some config) = some h₀) (hr : Run Step h₀ es h') :
    h'.Matched ipcTask ↔ (config.map Prod.snd).Nodup ∧
      ∀ e ∈ es, ∀ config, e.config = some config → SingleTyped config := by
  obtain rfl : DynamicConfigHandler.new.register config = h₀ := Option.some.inj h0
  have hnew : DynamicConfigHandler.new.Held ipcTask := Pool.held_empty
  have hh := held_register hnew config
  have hfirst : (DynamicConfigHandler.new.register config).NoOrphan ipcTask ↔
      (config.map Prod.snd).Nodup := by
    rw [noOrphan_register hnew]
    exact ⟨fun h => h.2.1, fun h => ⟨Pool.noOrphan_empty, h, fun p _ => Finmap.notMem_empty⟩⟩
  rw [Pool.Matched, noOrphan_run hh hr, hfirst]
  exact and_iff_right (held_run hh hr)

/-- The configuration with one url twice. -/
def repeatedUrl : List IpcBasicRepr :=
  [(3, "ipc:///tmp/binance_spot_l2_topk_BTCUSDT.ipc"),
    (3, "ipc:///tmp/binance_spot_l2_topk_BTCUSDT.ipc")]

/-- A change of the file to the given configuration. -/
def changeTo (config : List IpcBasicRepr) : Notification :=
  ⟨some ⟨.modify, ["./conf/ipc.json"]⟩, fun _ => some config⟩

/-- A url that changes its type, and its url twice in the changed file. -/
theorem matched_change : ∃ h', Run Step (DynamicConfigHandler.new.register
    [(4, "ipc:///tmp/binance_spot_l2_topk_BTCUSDT.ipc")]) [changeTo repeatedUrl] h' ∧
      h'.Matched ipcTask := by
  refine ⟨_, Run.single ⟨⟨default, default, default⟩, rfl⟩, ?_⟩
  refine (matched_iff rfl (Run.single ⟨⟨default, default, default⟩, rfl⟩)).2 ⟨by decide, ?_⟩
  intro e he config hc
  rw [List.mem_singleton.1 he] at hc
  obtain rfl := Option.some.inj hc
  intro url t t' ht ht'
  simp only [repeatedUrl, List.mem_cons, Prod.mk.injEq, List.not_mem_nil, or_false, or_self] at ht ht'
  rw [ht.1, ht'.1]

/-- **A url listed twice at the start leaves a task that no entry holds.** -/
theorem not_matched_repeatedUrl :
    ∃ h₀, DynamicConfigHandler.new.initiate (some repeatedUrl) = some h₀ ∧
      h₀.live.lookup 0 = some (3, "ipc:///tmp/binance_spot_l2_topk_BTCUSDT.ipc") ∧
      (∀ url t, h₀.map.lookup url = some t → t.taskHandle = 1) ∧ ¬ h₀.Matched ipcTask := by
  have hlive : (DynamicConfigHandler.new.register repeatedUrl).live.lookup 0 =
      some (3, "ipc:///tmp/binance_spot_l2_topk_BTCUSDT.ipc") := by decide
  have hmap : ∀ url t, (DynamicConfigHandler.new.register repeatedUrl).map.lookup url = some t →
      t.taskHandle = 1 := by
    intro url t hl
    simp only [DynamicConfigHandler.register, repeatedUrl, List.foldl_cons, List.foldl_nil, Pool.spawn,
      HashMap.lookup_insert_eq] at hl
    split at hl
    · rw [← Option.some.inj hl]; rfl
    · simp [DynamicConfigHandler.new, Pool.empty] at hl
  refine ⟨_, rfl, hlive, hmap, fun hm => ?_⟩
  obtain ⟨url, t, hl, hid⟩ := hm.2 0 _ hlive
  have h1 : t.taskHandle = 1 := hmap url t hl
  have h0 : t.taskHandle = 0 := hid
  omega

end CryptoMarket.Multicast
