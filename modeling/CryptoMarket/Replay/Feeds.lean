import CryptoMarket.Replay.DynamicConfig
import CryptoMarket.Replay.Ledger

/-!
# Replay server: from the configuration to the clients

`msg_sub_handle` as a whole: the handler of the configuration, the tasks it creates and
aborts, which pass on what their subscribers yield, and the net of the hub and its sessions.
An abort takes effect where the task waits, for a message or for room in the data queue.

* `net_run`: a run of the whole, seen without configuration and tasks, is a run of the net.
* `feeds_in_order`: the hub gets what the tasks received, each task's messages in their
  order; only the message at hand of a task that is aborted is lost.
* `kept_entry`: the task of an entry that every configuration lists is never aborted.
* `client_feeds`: what a client is sent of the market are messages of listed entries, each at
  most once and in order.
-/

namespace CryptoMarket.Replay

/-- Where the task of an entry is. -/
inductive FeedAt where
  /-- At its subscriber. -/
  | waiting
  /-- At `data_tx.send`, with this message. -/
  | sending (data : Bytes)
  | ended

/-- The message at hand. -/
def FeedAt.held : FeedAt → List Bytes
  | .sending data => [data]
  | _ => []

/-- The server: the handler, the tasks and the net. -/
structure Feeds where
  handler : DynamicConfigHandler
  /-- The entry that each task was created for. -/
  argOf : ℕ → Option MarketDataArg
  task : ℕ → FeedAt
  net : Net

/-- The handler changes. -/
def Feeds.follow (s : Feeds) (handler : DynamicConfigHandler) : Feeds :=
  { s with handler, argOf := s.handler.origins handler s.argOf }

/-- A task moves. -/
def Feeds.goto (s : Feeds) (n : ℕ) (p : FeedAt) : Feeds := { s with task := Function.update s.task n p }

/-- `msg_sub_handle` after `new`. -/
def Feeds.start (handler : DynamicConfigHandler) : Feeds where
  handler := handler
  argOf n := handler.live.lookup n
  task _ := .waiting
  net := .init

inductive FeedLabel where
  /-- A call of `handle_event`. -/
  | update (u : Update)
  /-- The subscriber of a task yields a message. -/
  | receive (n : ℕ) (data : Bytes)
  /-- The task of an entry sends the message at hand into the data queue. -/
  | send (n : ℕ) (arg : MarketDataArg) (data : Bytes)
  /-- There is no subscriber, or it has come to its end or to an error. -/
  | stop (n : ℕ)
  /-- An aborted task is gone. -/
  | cancel (n : ℕ)
  /-- The hub, the sessions and their history tasks. -/
  | net (l : Label)

/-- A step that puts a message into the data queue. -/
def Label.Produces : Label → Prop
  | .produce _ _ _ => True
  | _ => False

/-- **The steps of the server.** -/
inductive FeedStep (x : Crates) (parse : Parse) (s : Feeds) : FeedLabel → Feeds → Prop
  | update {u : Update} (o : Orders) :
    FeedStep x parse s (.update u) (s.follow (s.handler.handleEvent parse o u))
  | receive {n : ℕ} {data : Bytes} : s.argOf n ≠ none → s.task n = .waiting →
    FeedStep x parse s (.receive n data) (s.goto n (.sending data))
  | send {n : ℕ} {arg : MarketDataArg} {data : Bytes} {net : Net} : s.argOf n = some arg →
    s.task n = .sending data → Step x s.net (.produce arg.toString arg.msgType data) net →
    FeedStep x parse s (.send n arg data) { s.goto n .waiting with net }
  | stop {n : ℕ} : s.argOf n ≠ none → s.task n = .waiting → FeedStep x parse s (.stop n) (s.goto n .ended)
  | cancel {n : ℕ} : s.argOf n ≠ none → s.handler.live.lookup n = none → s.task n ≠ .ended →
    FeedStep x parse s (.cancel n) (s.goto n .ended)
  | net {l : Label} {net : Net} : ¬ l.Produces → Step x s.net l net →
    FeedStep x parse s (.net l) { s with net }

/-- The step of the net, if it is one. -/
def FeedLabel.netLabel : FeedLabel → Option Label
  | .send _ arg data => some (.produce arg.toString arg.msgType data)
  | .net l => some l
  | _ => none

/-- The steps of the net in a run. -/
def netLabels (ls : List FeedLabel) : List Label := ls.filterMap FeedLabel.netLabel

/-- What a step does to the queues of the net. -/
def feedEvents (s : Feeds) (l : FeedLabel) : List NetEvent := l.netLabel.toList.flatMap (netEvents s.net)

/-- The runs of the server with the log of the net. -/
abbrev FeedRuns (x : Crates) (parse : Parse) (h₀ : DynamicConfigHandler) (ls : List FeedLabel)
    (log : List NetEvent) (s : Feeds) : Prop :=
  Run (Logged (FeedStep x parse) feedEvents) (Feeds.start h₀, []) ls (s, log)

/-- The calls of `handle_event`. -/
def updates (ls : List FeedLabel) : List Update :=
  ls.filterMap fun
    | .update u => some u
    | _ => none

/-- The configurations that were read, `first` by `new`. -/
def configs (parse : Parse) (first : List MarketDataArg) (ls : List FeedLabel) : List (List MarketDataArg) :=
  first :: (updates ls).filterMap (Update.config parse)

/-- What a task got from its subscriber. -/
def received (ls : List FeedLabel) (n : ℕ) : List Bytes :=
  ls.filterMap fun
    | .receive m data => if m = n then some data else none
    | _ => none

/-- What the tasks sent, each with its entry. -/
def sends (ls : List FeedLabel) : List (ℕ × MarketDataArg × Bytes) :=
  ls.filterMap fun
    | .send n arg data => some (n, arg, data)
    | _ => none

/-- What a task sent. -/
def sent (ls : List FeedLabel) (n : ℕ) : List Bytes := (tagged n (sends ls)).map Prod.snd

/-- The market message of a send. -/
def feedMsg (p : ℕ × MarketDataArg × Bytes) : HubMsg := .data p.2.1.toString p.2.1.msgType p.2.2

variable {x : Crates} {parse : Parse} {h h₀ : DynamicConfigHandler} {s s' : Feeds} {l : FeedLabel}
  {ls : List FeedLabel} {log : List NetEvent} {first : List MarketDataArg} {arg : MarketDataArg}
  {n i : ℕ} {u : Update} {o : Orders}

theorem netLabels_snoc (ls : List FeedLabel) (l : FeedLabel) :
    netLabels (ls ++ [l]) = netLabels ls ++ l.netLabel.toList := by
  rw [netLabels, List.filterMap_append]
  cases h : l.netLabel <;> simp [h, netLabels]

theorem updates_append (ls ms : List FeedLabel) : updates (ls ++ ms) = updates ls ++ updates ms :=
  List.filterMap_append

theorem configs_append (ls ms : List FeedLabel) :
    configs parse first (ls ++ ms) = configs parse first ls ++ (updates ms).filterMap (Update.config parse) := by
  rw [configs, updates_append, List.filterMap_append]
  rfl

theorem received_append (ls ms : List FeedLabel) : received (ls ++ ms) n = received ls n ++ received ms n :=
  List.filterMap_append

theorem sends_append (ls ms : List FeedLabel) : sends (ls ++ ms) = sends ls ++ sends ms :=
  List.filterMap_append

theorem sent_append (ls ms : List FeedLabel) : sent (ls ++ ms) n = sent ls n ++ sent ms n := by
  rw [sent, sends_append, tagged_append, List.map_append]
  rfl

@[simp] theorem follow_net (handler : DynamicConfigHandler) : (s.follow handler).net = s.net := rfl

@[simp] theorem goto_net (p : FeedAt) : (s.goto n p).net = s.net := rfl

@[simp] theorem goto_task (m : ℕ) (p : FeedAt) : (s.goto n p).task m = if m = n then p else s.task m := by
  simp [Feeds.goto, Function.update_apply]

/-! ## The net and the handler on their own -/

/-- **Without configuration and tasks** a run of the server is a run of the net. -/
theorem net_run (h : FeedRuns x parse h₀ ls log s) : NetRuns x (netLabels ls) log s.net := by
  refine Run.hist_inv (P := fun ls y => NetRuns x (netLabels ls) y.2 y.1.net) NetRuns.nil ?_ h
  rintro ls ⟨s, log⟩ l ⟨s', log'⟩ - ih ⟨hst, hlog⟩
  dsimp only at hst hlog ih ⊢
  rw [netLabels_snoc, hlog]
  cases hst with
  | send _ _ hst => simpa [feedEvents, FeedLabel.netLabel] using ih.snoc hst
  | net _ hst => simpa [feedEvents, FeedLabel.netLabel] using ih.snoc hst
  | _ => simpa [feedEvents, FeedLabel.netLabel] using ih

/-- **Without tasks and net** a run of the server is a run of the handler. -/
theorem config_run (h : Run (FeedStep x parse) (Feeds.start h₀) ls s) :
    Run (ConfigStep parse) h₀ (updates ls) s.handler := by
  induction h with
  | nil => exact Run.nil
  | @snoc ls s t l _ hst ih =>
    rw [updates_append]
    cases hst with
    | @update u o =>
      have hstep : ConfigStep parse s.handler u (s.handler.handleEvent parse o u) := ⟨o, rfl⟩
      exact ih.snoc hstep
    | _ => simpa [updates, Feeds.goto] using ih

/-! ## The tasks -/

/-- What a task at `p` got is sent, at hand or, if it was aborted there, missed. -/
def Accounted (ls : List FeedLabel) (p : FeedAt) (n : ℕ) : Prop :=
  ∃ missed, received ls n = sent ls n ++ p.held ++ missed ∧ missed.length ≤ 1 ∧
    (missed ≠ [] → p = .ended ∧ .cancel n ∈ ls)

/-- **The books of the tasks.** -/
structure FeedsOK (parse : Parse) (first : List MarketDataArg) (ls : List FeedLabel) (s : Feeds) : Prop where
  held : s.handler.Held subTask
  known : s.handler.Known s.argOf
  listed : ∀ n arg, s.argOf n = some arg → ∃ c ∈ configs parse first ls, arg ∈ c
  senders : ∀ p ∈ sends ls, s.argOf p.1 = some p.2.1
  receivers : ∀ n, received ls n ≠ [] → s.argOf n ≠ none
  books : ∀ n, Accounted ls (s.task n) n

/-- A live task after a call was live before, or is new and of the configuration that was
read. -/
theorem live_handleEvent (hlive : (h.handleEvent parse o u).live.lookup n = some arg) :
    h.live.lookup n = some arg ∨ h.created ≤ n ∧ ∃ c, u.config parse = some c ∧ arg ∈ c := by
  rw [handleEvent_eq] at hlive
  cases hc : u.config parse with
  | none =>
    rw [hc] at hlive
    exact Or.inl hlive
  | some c =>
    rw [hc] at hlive
    refine (Pool.live_spawnAll_stopAll (K := subTask) (fun _ => id) id _ _ h hlive).imp_right ?_
    rintro ⟨hle, b, hb, rfl⟩
    exact ⟨hle, c, rfl, List.mem_toFinset.1 (o.ipcs.mem_walk.1 (List.mem_filter.1 hb).1)⟩

theorem created_handleEvent : h.created ≤ (h.handleEvent parse o u).created := by
  rw [handleEvent_eq]
  cases u.config parse with
  | none => exact le_rfl
  | some c =>
    have hregister : ∀ (l : List MarketDataArg) (h : DynamicConfigHandler),
        (h.register l).created = h.created + l.length := Pool.created_spawnAll (fun _ => id) id
    have hcleanup : ∀ l : List MarketDataArg, (h.cleanup l).created = h.created := fun l =>
      Pool.created_stopAll (K := subTask) l h
    dsimp only
    rw [DynamicConfigHandler.follow, hregister, hcleanup]
    exact Nat.le_add_right ..

theorem held_handleEvent (hh : h.Held subTask) : (h.handleEvent parse o u).Held subTask := by
  rw [handleEvent_eq]
  cases u.config parse with
  | none => exact hh
  | some c => exact held_register (held_cleanup hh _) _

theorem held_run {us : List Update} (hh : h₀.Held subTask) (hr : Run (ConfigStep parse) h₀ us h) :
    h.Held subTask := by
  refine Run.inv (P := fun h => h.Held subTask) hh ?_ hr
  rintro h u h' hh ⟨o, rfl⟩
  exact held_handleEvent hh

/-- A step that is not one of the task. -/
theorem Accounted.other {p : FeedAt} (hacc : Accounted ls p n) (hr : received [l] n = [])
    (hs : sent [l] n = []) : Accounted (ls ++ [l]) p n := by
  obtain ⟨missed, hgot, hone, hend⟩ := hacc
  refine ⟨missed, ?_, hone, fun hm => ⟨(hend hm).1, List.mem_append_left _ (hend hm).2⟩⟩
  rw [received_append, sent_append, hr, hs, List.append_nil, List.append_nil, hgot]

/-- A task that has not ended has missed nothing. -/
theorem Accounted.of_ne_ended {p : FeedAt} (hacc : Accounted ls p n) (hp : p ≠ .ended) :
    received ls n = sent ls n ++ p.held := by
  obtain ⟨missed, hgot, -, hend⟩ := hacc
  by_cases hm : missed = []
  · rw [hgot, hm, List.append_nil]
  · exact absurd (hend hm).1 hp

/-- **What one step does** to the books of a task. -/
theorem accounted_step (hacc : Accounted ls (s.task n) n) (hst : FeedStep x parse s l s') :
    Accounted (ls ++ [l]) (s'.task n) n := by
  cases hst with
  | update o => exact hacc.other rfl rfl
  | net hl hst => exact hacc.other rfl rfl
  | @receive m data hm hp =>
    rw [goto_task]
    split
    · next heq =>
      subst heq
      have hgot := hacc.of_ne_ended (by simp [hp])
      refine ⟨[], ?_, by simp, fun hm => absurd rfl hm⟩
      rw [received_append, sent_append, hgot, hp]
      simp [received, sent, sends, FeedAt.held]
    · next hne => exact hacc.other (by simp [received, Ne.symm hne]) rfl
  | @send m arg data net ha hp hst =>
    rw [show ({ s.goto m .waiting with net } : Feeds).task n = (s.goto m .waiting).task n from rfl, goto_task]
    split
    · next heq =>
      subst heq
      have hgot := hacc.of_ne_ended (by simp [hp])
      refine ⟨[], ?_, by simp, fun hm => absurd rfl hm⟩
      rw [received_append, sent_append, hgot, hp]
      simp [received, sent, sends, FeedAt.held]
    · next hne => exact hacc.other rfl (by simp [sent, sends, Ne.symm hne])
  | @stop m hm hp =>
    rw [goto_task]
    split
    · next heq =>
      subst heq
      have hgot := hacc.of_ne_ended (by simp [hp])
      refine ⟨[], ?_, by simp, fun hm => absurd rfl hm⟩
      rw [received_append, sent_append, hgot, hp]
      simp [received, sent, sends, FeedAt.held]
    · exact hacc.other rfl rfl
  | @cancel m hm hdead hp =>
    rw [goto_task]
    split
    · next heq =>
      subst heq
      have hgot := hacc.of_ne_ended hp
      -- the message at hand is missed
      refine ⟨(s.task n).held, ?_, ?_, fun _ => ⟨rfl, by simp⟩⟩
      · rw [received_append, sent_append, hgot]
        simp [received, sent, sends, FeedAt.held]
      · cases s.task n <;> simp [FeedAt.held]
    · exact hacc.other rfl rfl

theorem feedsOK_start (hh : h₀.Held subTask) (hlist : ∀ arg, arg ∈ h₀.map ↔ arg ∈ first)
    (hm : h₀.NoOrphan subTask) : FeedsOK parse first [] (Feeds.start h₀) where
  held := hh
  known := by
    refine ⟨fun _ _ hl => hl, fun n hn => ?_⟩
    obtain ⟨arg, ha⟩ := Option.ne_none_iff_exists'.1 hn
    exact hh.fresh n arg ha
  listed n arg hl := by
    obtain ⟨k, t, hk, rfl⟩ := hm n arg hl
    have htask := hh.held k t hk
    obtain rfl : k = arg := Option.some.inj (htask.symm.trans hl)
    exact ⟨first, List.mem_cons_self, (hlist k).1 (Finmap.mem_of_lookup_eq_some hk)⟩
  senders p hp := by cases hp
  receivers n hn := absurd rfl hn
  books n := ⟨[], rfl, by simp, fun hm => absurd rfl hm⟩

/-- **One step.** -/
theorem feedsOK_step (hok : FeedsOK parse first ls s) (hst : FeedStep x parse s l s') :
    FeedsOK parse first (ls ++ [l]) s' := by
  have hbooks : ∀ n, Accounted (ls ++ [l]) (s'.task n) n := fun n => accounted_step (hok.books n) hst
  have hlisted : ∀ n arg, s.argOf n = some arg → ∃ c ∈ configs parse first (ls ++ [l]), arg ∈ c := by
    intro n arg ha
    obtain ⟨c, hc, harg⟩ := hok.listed n arg ha
    rw [configs_append]
    exact ⟨c, List.mem_append_left _ hc, harg⟩
  cases hst with
  | @update u o =>
    have hheld : (s.handler.handleEvent parse o u).Held subTask := held_handleEvent hok.held
    have hknown : (s.handler.handleEvent parse o u).Known (s.follow (s.handler.handleEvent parse o u)).argOf :=
      hok.known.origins hheld.fresh created_handleEvent fun n arg hlt hlive =>
        (live_handleEvent hlive).resolve_right fun hnew => absurd hnew.1 (not_le.2 hlt)
    have hkeep : ∀ {n}, s.argOf n ≠ none → (s.follow (s.handler.handleEvent parse o u)).argOf n = s.argOf n :=
      fun hn => if_pos (hok.known.created _ hn)
    refine ⟨hheld, hknown, fun n arg ha => ?_, fun p hp => ?_, fun n hn => ?_, hbooks⟩
    · by_cases hlt : n < s.handler.created
      · exact hlisted n arg ((if_pos hlt).symm.trans ha)
      · rcases live_handleEvent ((if_neg hlt).symm.trans ha) with hlive | ⟨-, c, hc, harg⟩
        · exact absurd (hok.held.fresh n arg hlive) hlt
        · rw [configs_append]
          exact ⟨c, List.mem_append_right _ (by simp [updates, hc]), harg⟩
    · rw [sends_append, List.mem_append] at hp
      have ha := hok.senders p (hp.resolve_right (by simp [sends]))
      rw [hkeep (by simp [ha]), ha]
    · have ha := hok.receivers n (by simpa [received_append, received] using hn)
      rwa [hkeep ha]
  | @receive m data hm hp =>
    refine ⟨hok.held, hok.known, hlisted, fun p hp => ?_, fun n hn => ?_, hbooks⟩
    · exact hok.senders p (by simpa [sends_append, sends] using hp)
    · by_cases hnm : m = n
      · exact hnm ▸ hm
      · exact hok.receivers n (by simpa [received_append, received, hnm] using hn)
  | @send m arg data net ha hp hst =>
    refine ⟨hok.held, hok.known, hlisted, fun p hp => ?_, fun n hn => ?_, hbooks⟩
    · rw [sends_append, List.mem_append] at hp
      rcases hp with hp | hp
      · exact hok.senders p hp
      · obtain rfl : p = (m, arg, data) := by simpa [sends] using hp
        exact ha
    · exact hok.receivers n (by simpa [received_append, received] using hn)
  | stop hm hp =>
    exact ⟨hok.held, hok.known, hlisted, fun p hp => hok.senders p (by simpa [sends_append, sends] using hp),
      fun n hn => hok.receivers n (by simpa [received_append, received] using hn), hbooks⟩
  | cancel hm hdead hp =>
    exact ⟨hok.held, hok.known, hlisted, fun p hp => hok.senders p (by simpa [sends_append, sends] using hp),
      fun n hn => hok.receivers n (by simpa [received_append, received] using hn), hbooks⟩
  | net hl hst =>
    exact ⟨hok.held, hok.known, hlisted, fun p hp => hok.senders p (by simpa [sends_append, sends] using hp),
      fun n hn => hok.receivers n (by simpa [received_append, received] using hn), hbooks⟩

/-- The books of the tasks after `new`. -/
theorem feedsOK_new {content : Option String} (hnew : DynamicConfigHandler.new parse o content = some h₀)
    (hr : Run (FeedStep x parse) (Feeds.start h₀) ls s) :
    ∃ first, content.bind parse = some first ∧ FeedsOK parse first ls s := by
  obtain ⟨first, hfirst, hm, hkeys⟩ := mirrors_new hnew Run.nil
  refine ⟨first, hfirst, ?_⟩
  exact Run.hist_inv (P := FeedsOK parse first) (feedsOK_start hm.1 hkeys hm.2)
    (fun _ _ _ _ _ hok hst => feedsOK_step hok hst) hr

/-- Only the tasks put something into the data queue. -/
theorem produced_run (h : Run (FeedStep x parse) (Feeds.start h₀) ls s) :
    produced (netLabels ls) = (sends ls).map feedMsg := by
  induction h with
  | nil => rfl
  | @snoc ls s t l _ hst ih =>
    rw [netLabels_snoc, produced, List.filterMap_append, ← produced, ih, sends_append, List.map_append]
    congr 1
    cases hst with
    | @net l net hl hst =>
      cases l with
      | produce => exact absurd trivial hl
      | _ => rfl
    | _ => rfl

/-! ## What the hub gets -/

/-- The hub's messages are those of the tasks. -/
theorem hub_run (h : FeedRuns x parse h₀ ls log s) :
    (processed log).filterMap HubMsg.market ++ s.net.data.map (fun d => .data d.1 d.2.1 d.2.2) =
      (sends ls).map feedMsg := by
  rw [← produced_run (Run.of_logged h)]
  exact (requests_run (net_run h)).market

/-- A task that has sent something was created for an entry of a configuration. -/
theorem FeedsOK.sender (hok : FeedsOK parse first ls s) {p : ℕ × MarketDataArg × Bytes} (hp : p ∈ sends ls) :
    s.argOf p.1 = some p.2.1 ∧ ∃ c ∈ configs parse first ls, p.2.1 ∈ c :=
  ⟨hok.senders p hp, hok.listed _ _ (hok.senders p hp)⟩

/-- **What the tasks receive reaches the hub, in order.** In every run, whatever the
configurations, the tasks, the hub and the sessions do: the market messages that the hub has
processed and those in its queue are what the tasks sent; a task has sent all that it has
received but the one at hand, and if it was aborted it has missed one at most; and every task
that has sent something was created for an entry of a configuration that was read. -/
theorem feeds_in_order {content : Option String} (hnew : DynamicConfigHandler.new parse o content = some h₀)
    (h : FeedRuns x parse h₀ ls log s) :
    (processed log).filterMap HubMsg.market ++ s.net.data.map (fun d => .data d.1 d.2.1 d.2.2) =
        (sends ls).map feedMsg ∧
      (∀ n, Accounted ls (s.task n) n) ∧
      ∃ first, content.bind parse = some first ∧
        ∀ p ∈ sends ls, s.argOf p.1 = some p.2.1 ∧ ∃ c ∈ configs parse first ls, p.2.1 ∈ c := by
  obtain ⟨first, hfirst, hok⟩ := feedsOK_new hnew (Run.of_logged h)
  exact ⟨hub_run h, hok.books, first, hfirst, fun p hp => hok.sender hp⟩

/-- Every text is the configuration with one entry. -/
def oneEntry : Parse := fun _ => some [btcTrade]

/-- A run of the net without producers is one of the server. -/
theorem feeds_of_net {net net' : Net} {ms : List Label} {log' : List NetEvent}
    (h : Run (Logged (Step x) netEvents) (net, log) ms (net', log')) (hms : ∀ m ∈ ms, ¬ m.Produces) :
    Run (Logged (FeedStep x parse) feedEvents) ({ s with net }, log) (ms.map .net)
      ({ s with net := net' }, log') := by
  refine Run.hist_inv (P := fun ms y => (∀ m ∈ ms, ¬ m.Produces) →
    Run (Logged (FeedStep x parse) feedEvents) ({ s with net }, log) (ms.map .net)
      ({ s with net := y.1 }, y.2)) (fun _ => Run.nil) ?_ h hms
  rintro ms ⟨m, log₁⟩ l ⟨m', log₂⟩ - ih ⟨hst, hlog⟩ hall
  dsimp only at hst hlog ih ⊢
  have hnet : FeedStep x parse { s with net := m } (.net l) { s with net := m' } :=
    .net (hall l (by simp)) hst
  have hevents : feedEvents { s with net := m } (.net l) = netEvents m l := List.flatMap_singleton _ _
  have hstep : Logged (FeedStep x parse) feedEvents ({ s with net := m }, log₁) (.net l)
      ({ s with net := m' }, log₂) := ⟨hnet, by rw [hlog, hevents]⟩
  rw [List.map_append]
  exact (ih fun m hm => hall m (List.mem_append_left _ hm)).snoc hstep

/-- The task of the entry has a trade at hand while the configuration is read again; then it sends
it, a client subscribes, and one more trade goes all the way to the client. -/
def feedLabels (n : ℕ) (data : Bytes) : List FeedLabel :=
  [.receive n [1], .update ⟨.modify, some ""⟩, .send n btcTrade [1]] ++ subscribeLabels.map .net ++
    [.receive n data, .send n btcTrade data] ++ (tradeLabels data).map .net

theorem feed_logged (data : Bytes) : ∃ h₀ n s,
    DynamicConfigHandler.new oneEntry ⟨default, default⟩ (some "") = some h₀ ∧
      h₀.map.lookup btcTrade = some n ∧
      FeedRuns tradeCrates oneEntry h₀ (feedLabels n data) (clientLog data) s ∧
      s.net = clientNet tradeHub [] [] [] ⟨.select, [], false⟩ := by
  obtain ⟨h₀, hnew⟩ : ∃ h₀, DynamicConfigHandler.new oneEntry ⟨default, default⟩ (some "") = some h₀ := ⟨_, rfl⟩
  obtain ⟨first, hfirst, hm, hkeys⟩ := mirrors_new hnew Run.nil
  obtain rfl : [btcTrade] = first := Option.some.inj hfirst
  obtain ⟨n, hn⟩ := Finmap.mem_iff.1 ((hkeys btcTrade).2 (by simp [lastGood]))
  have harg : (Feeds.start h₀).argOf n = some btcTrade := hm.1.held btcTrade n hn
  have hcreated : n < h₀.created := hm.1.fresh n btcTrade harg
  set s₁ := (Feeds.start h₀).goto n (.sending [1]) with hs₁
  have hreceive : FeedStep tradeCrates oneEntry (Feeds.start h₀) (.receive n [1]) s₁ :=
    .receive (by simp [harg]) rfl
  set s₂ := s₁.follow (s₁.handler.handleEvent oneEntry ⟨default, default⟩ ⟨.modify, some ""⟩) with hs₂
  have hupdate : FeedStep tradeCrates oneEntry s₁ (.update ⟨.modify, some ""⟩) s₂ :=
    .update ⟨default, default⟩
  have harg₂ : s₂.argOf n = some btcTrade := (if_pos hcreated).trans harg
  have htask₂ : s₂.task n = .sending [1] := (goto_task n (.sending [1])).trans (if_pos rfl)
  set s₃ := s₂.goto n .waiting with hs₃
  have htask₃ : s₃.task n = .waiting := (goto_task n .waiting).trans (if_pos rfl)
  set net₁ : Net := { Net.init with data := [(btcTrade.toString, "trade", [1])] } with hnet₁
  have hsend : FeedStep tradeCrates oneEntry s₂ (.send n btcTrade [1]) { s₃ with net := net₁ } :=
    .send harg₂ htask₂ (.produce (show 0 < dataCap by decide))
  -- the client has subscribed
  set net := clientNet tradeHub [] [] [] ⟨.select, [], false⟩ with hnet
  set s₄ := { s₃ with net }.goto n (.sending data) with hs₄
  have hreceive₂ : FeedStep tradeCrates oneEntry { s₃ with net } (.receive n data) s₄ :=
    .receive (by simp [show s₃.argOf n = some btcTrade from harg₂]) htask₃
  have htask₄ : s₄.task n = .sending data := (goto_task n (.sending data)).trans (if_pos rfl)
  set s₅ := s₄.goto n .waiting with hs₅
  set net₂ := clientNet tradeHub [] [] [(btcTrade.toString, "trade", data)] ⟨.select, [], false⟩ with hnet₂
  have hsend₂ : FeedStep tradeCrates oneEntry s₄ (.send n btcTrade data) { s₅ with net := net₂ } :=
    .send harg₂ htask₄ (.produce (show 0 < dataCap by decide))
  have hsubscribe : Run (Logged (FeedStep tradeCrates oneEntry) feedEvents) ({ s₃ with net := net₁ }, [])
      (subscribeLabels.map .net) ({ s₃ with net }, subscribeLog [1]) :=
    feeds_of_net (subscribe_run [1] []) (by simp [subscribeLabels, Label.Produces])
  have htrade : Run (Logged (FeedStep tradeCrates oneEntry) feedEvents)
      ({ s₅ with net := net₂ }, subscribeLog [1]) ((tradeLabels data).map .net) ({ s₅ with net }, clientLog data) :=
    feeds_of_net (trade_run data (subscribeLog [1])) (by simp [tradeLabels, Label.Produces])
  have hfirst : Run (Logged (FeedStep tradeCrates oneEntry) feedEvents) (Feeds.start h₀, [])
      [.receive n [1], .update ⟨.modify, some ""⟩, .send n btcTrade [1]] ({ s₃ with net := net₁ }, []) := by
    have h₁ : Logged (FeedStep tradeCrates oneEntry) feedEvents (Feeds.start h₀, []) (.receive n [1]) (s₁, []) :=
      ⟨hreceive, rfl⟩
    have h₂ : Logged (FeedStep tradeCrates oneEntry) feedEvents (s₁, []) (.update ⟨.modify, some ""⟩) (s₂, []) :=
      ⟨hupdate, rfl⟩
    have h₃ : Logged (FeedStep tradeCrates oneEntry) feedEvents (s₂, []) (.send n btcTrade [1])
        ({ s₃ with net := net₁ }, []) := ⟨hsend, rfl⟩
    exact Run.cons h₁ (Run.cons h₂ (Run.single h₃))
  have hsecond : Run (Logged (FeedStep tradeCrates oneEntry) feedEvents) ({ s₃ with net }, subscribeLog [1])
      [.receive n data, .send n btcTrade data] ({ s₅ with net := net₂ }, subscribeLog [1]) := by
    have h₁ : Logged (FeedStep tradeCrates oneEntry) feedEvents ({ s₃ with net }, subscribeLog [1])
        (.receive n data) (s₄, subscribeLog [1]) := ⟨hreceive₂, rfl⟩
    have h₂ : Logged (FeedStep tradeCrates oneEntry) feedEvents (s₄, subscribeLog [1])
        (.send n btcTrade data) ({ s₅ with net := net₂ }, subscribeLog [1]) := ⟨hsend₂, rfl⟩
    exact Run.cons h₁ (Run.single h₂)
  exact ⟨h₀, n, { s₅ with net }, hnew, hn, ((hfirst.append hsubscribe).append hsecond).append htrade, rfl⟩

/-- Both trades reach the hub. -/
theorem feeds_in_order_btc : ∃ h₀ n s, FeedRuns tradeCrates oneEntry h₀ (feedLabels n [2]) (clientLog [2]) s ∧
    (processed (clientLog [2])).filterMap HubMsg.market ++ s.net.data.map (fun d => .data d.1 d.2.1 d.2.2) =
      [.data btcTrade.toString "trade" [1], .data btcTrade.toString "trade" [2]] := by
  obtain ⟨h₀, n, s, hnew, -, h, -⟩ := feed_logged [2]
  exact ⟨h₀, n, s, h, (feeds_in_order hnew h).1⟩

/-! ## Entries that stay -/

/-- **The task of an entry that stays** stays. -/
theorem kept_run (h : Run (FeedStep x parse) (Feeds.start h₀) ls s) (hm : h₀.Matched subTask)
    (hl : h₀.map.lookup arg = some n) :
    (∀ u ∈ updates ls, ∀ c, u.config parse = some c → arg ∈ c) →
      s.handler.map.lookup arg = some n ∧ s.handler.live.lookup n = some arg ∧ .cancel n ∉ ls := by
  refine Run.hist_inv (P := fun ls s => (∀ u ∈ updates ls, ∀ c, u.config parse = some c → arg ∈ c) →
    s.handler.map.lookup arg = some n ∧ s.handler.live.lookup n = some arg ∧ .cancel n ∉ ls)
    (fun _ => ⟨hl, hm.1.held arg n hl, List.not_mem_nil⟩) ?_ h
  intro ls s l s' hrun ih hst hlist
  obtain ⟨-, hlive, hno⟩ := ih fun u hu => hlist u (by rw [updates_append]; exact List.mem_append_left _ hu)
  have hconfig := config_run (hrun.snoc hst)
  have hmap := lookup_run hl hlist hconfig
  refine ⟨hmap, (held_run hm.1 hconfig).held arg n hmap, ?_⟩
  rw [List.mem_append, not_or]
  refine ⟨hno, fun hc => ?_⟩
  obtain rfl := List.mem_singleton.1 hc
  cases hst with
  | cancel hk hdead hp =>
    rw [hlive] at hdead
    cases hdead

/-- A task that has ended stopped or was aborted. -/
theorem stop_of_ended (h : Run (FeedStep x parse) (Feeds.start h₀) ls s) (hended : s.task n = .ended) :
    .stop n ∈ ls ∨ .cancel n ∈ ls := by
  induction h with
  | nil => cases hended
  | @snoc ls s s' l _ hst ih =>
    have hbefore : s.task n = .ended → .stop n ∈ ls ++ [l] ∨ .cancel n ∈ ls ++ [l] := fun hs =>
      (ih hs).imp (List.mem_append_left _) (List.mem_append_left _)
    cases hst with
    | update o => exact hbefore hended
    | net hl hst => exact hbefore hended
    | receive hm hp =>
      rw [goto_task] at hended
      split at hended
      · cases hended
      · exact hbefore hended
    | @send m arg data net ha hp hst =>
      have htask : (s.goto m .waiting).task n = .ended := hended
      rw [goto_task] at htask
      split at htask
      · cases htask
      · exact hbefore htask
    | @stop m hm hp =>
      rw [goto_task] at hended
      split at hended
      · next heq => exact Or.inl (by simp [heq])
      · exact hbefore hended
    | @cancel m hm hdead hp =>
      rw [goto_task] at hended
      split at hended
      · next heq => exact Or.inr (by simp [heq])
      · exact hbefore hended

/-- **An entry that stays is never interrupted.** If every configuration that is read lists an
entry, one task serves it from the start: it stays in the map and alive and is never aborted.
If its subscriber does not come to an end, it has not ended, and what it has received is, in
this order, what the hub has processed, what is in the hub's queue, both as the tasks sent it,
and the message at hand. -/
theorem kept_entry {content : Option String} (hnew : DynamicConfigHandler.new parse o content = some h₀)
    (h : FeedRuns x parse h₀ ls log s)
    (hlist : ∀ first, content.bind parse = some first → ∀ c ∈ configs parse first ls, arg ∈ c) :
    ∃ n, h₀.map.lookup arg = some n ∧ s.handler.map.lookup arg = some n ∧
      s.handler.live.lookup n = some arg ∧ .cancel n ∉ ls ∧
      (.stop n ∉ ls → s.task n ≠ .ended ∧ ∃ done queued, done ++ queued = sends ls ∧
        (processed log).filterMap HubMsg.market = done.map feedMsg ∧
          s.net.data.map (fun d => .data d.1 d.2.1 d.2.2) = queued.map feedMsg ∧
          received ls n = (tagged n done).map Prod.snd ++ (tagged n queued).map Prod.snd ++ (s.task n).held) := by
  have hrun : Run (FeedStep x parse) (Feeds.start h₀) ls s := Run.of_logged h
  obtain ⟨first, hfirst, hm, hkeys⟩ := mirrors_new hnew Run.nil
  have hall := hlist first hfirst
  obtain ⟨n, hn⟩ := Finmap.mem_iff.1 ((hkeys arg).2 (hall first List.mem_cons_self))
  have hread : ∀ u ∈ updates ls, ∀ c, u.config parse = some c → arg ∈ c := fun u hu c hc =>
    hall c (List.mem_cons_of_mem _ (List.mem_filterMap.2 ⟨u, hu, hc⟩))
  obtain ⟨hmap, hlive, hcancel⟩ := kept_run hrun hm hn hread
  refine ⟨n, hn, hmap, hlive, hcancel, fun hstop => ?_⟩
  have hended : s.task n ≠ .ended := fun he => (stop_of_ended hrun he).elim hstop hcancel
  obtain ⟨_, -, hok⟩ := feedsOK_new hnew hrun
  obtain ⟨done, queued, hsends, hdone, hqueued⟩ := List.map_eq_append_iff.1 (hub_run h).symm
  refine ⟨hended, done, queued, hsends.symm, hdone.symm, hqueued.symm, ?_⟩
  rw [(hok.books n).of_ne_ended hended, sent, hsends, tagged_append, List.map_append]

/-- **An entry that stays** has had one task only. -/
theorem one_task {m : ℕ} (h : Run (FeedStep x parse) (Feeds.start h₀) ls s) (hm : h₀.Matched subTask)
    (hkeys : ∀ arg, arg ∈ h₀.map ↔ arg ∈ first) (hl : h₀.map.lookup arg = some n) :
    (∀ u ∈ updates ls, ∀ c, u.config parse = some c → arg ∈ c) → s.argOf m = some arg → m = n := by
  refine Run.hist_inv (P := fun ls s => (∀ u ∈ updates ls, ∀ c, u.config parse = some c → arg ∈ c) →
    s.argOf m = some arg → m = n) (fun _ hlive => hm.live_inj hlive (hm.1.held arg n hl)) ?_ h
  intro ls s l s' hrun ih hst hlist harg
  have hbefore : s.argOf m = some arg → m = n := ih fun u hu =>
    hlist u (by rw [updates_append]; exact List.mem_append_left _ hu)
  obtain ⟨-, hlive, -⟩ := kept_run (hrun.snoc hst) hm hl hlist
  obtain ⟨hmatched, -⟩ := mirrors_run hm hkeys (config_run (hrun.snoc hst))
  cases hst with
  | update o =>
    by_cases hlt : m < s.handler.created
    · exact hbefore ((if_pos hlt).symm.trans harg)
    · -- a new task would be a second one
      exact hmatched.live_inj ((if_neg hlt).symm.trans harg) hlive
  | _ => exact hbefore harg

/-- **The task of a name.** If every configuration that is read lists an entry, and no other one
with its name, one task serves it, and no other task sends under the name. -/
theorem name_task {content : Option String} (hnew : DynamicConfigHandler.new parse o content = some h₀)
    (h : Run (FeedStep x parse) (Feeds.start h₀) ls s)
    (hlist : ∀ first, content.bind parse = some first → ∀ c ∈ configs parse first ls,
      arg ∈ c ∧ ∀ arg' ∈ c, arg'.toString = arg.toString → arg' = arg) :
    ∃ n, s.argOf n = some arg ∧ (∀ p ∈ sends ls, p.2.1.toString = arg.toString ↔ p.1 = n) ∧
      ∀ p ∈ sends ls, p.1 = n → p.2.1 = arg := by
  obtain ⟨first, hfirst, hm, hkeys⟩ := mirrors_new hnew Run.nil
  have hall := hlist first hfirst
  have hread : ∀ u ∈ updates ls, ∀ c, u.config parse = some c → arg ∈ c :=
    fun u hu c hc => (hall c (List.mem_cons_of_mem _ (List.mem_filterMap.2 ⟨u, hu, hc⟩))).1
  obtain ⟨n, hn⟩ := Finmap.mem_iff.1 ((hkeys arg).2 (hall first List.mem_cons_self).1)
  obtain ⟨first', hfirst', hok⟩ := feedsOK_new hnew h
  obtain rfl : first = first' := Option.some.inj (hfirst.symm.trans hfirst')
  have harg : s.argOf n = some arg :=
    hok.known.live n arg (hok.held.held arg n (kept_run h hm hn hread).1)
  have hown : ∀ p ∈ sends ls, p.1 = n → p.2.1 = arg := by
    intro p hp heq
    have hp' := hok.senders p hp
    rw [heq, harg] at hp'
    exact (Option.some.inj hp').symm
  refine ⟨n, harg, fun p hp => ⟨fun hsame => ?_, fun heq => congrArg _ (hown p hp heq)⟩, hown⟩
  obtain ⟨hp', c, hc, hpc⟩ := hok.sender hp
  rw [(hall c hc).2 _ hpc hsame] at hp'
  exact one_task h hm hkeys hn hread hp'

/-- Every configuration in that run lists the entry and no other. -/
theorem configs_feedLabels {c : List MarketDataArg} {data : Bytes} (hfirst : (some "").bind oneEntry = some first)
    (hc : c ∈ configs oneEntry first (feedLabels n data)) : c = [btcTrade] := by
  obtain rfl : [btcTrade] = first := Option.some.inj hfirst
  simpa [configs, updates, feedLabels, subscribeLabels, tradeLabels, Update.config, oneEntry] using hc

/-- The entry is listed again while its task has a trade at hand; both trades are processed. -/
theorem kept_entry_btc : ∃ h₀ n s, FeedRuns tradeCrates oneEntry h₀ (feedLabels n [2]) (clientLog [2]) s ∧
    s.handler.map.lookup btcTrade = some n ∧ s.task n ≠ .ended ∧
      ∃ done queued, done ++ queued = [(n, btcTrade, [1]), (n, btcTrade, [2])] ∧
        (processed (clientLog [2])).filterMap HubMsg.market = done.map feedMsg := by
  obtain ⟨h₀, n, s, hnew, hn, h, -⟩ := feed_logged [2]
  obtain ⟨m, hm, hmap, -, -, hstay⟩ := kept_entry hnew h fun first hfirst c hc => by
    rw [configs_feedLabels hfirst hc]
    exact List.mem_singleton_self _
  obtain rfl : n = m := Option.some.inj (hn.symm.trans hm)
  obtain ⟨hended, done, queued, hsends, hdone, -⟩ := hstay (by simp [feedLabels])
  exact ⟨h₀, n, s, h, hmap, hended, done, queued, hsends, hdone⟩

/-! ## What a client is sent -/

/-- Why the hub sends something to a session. -/
inductive Given where
  /-- The reply to an action of the session. -/
  | reply (msg : String)
  /-- A market message, processed after these messages. -/
  | push (before : List HubMsg) (symbol msgType : String) (data : Bytes)

/-- The text that is sent. -/
def Given.text (x : Crates) : Given → String
  | .reply msg => msg
  | .push _ _ msgType data => x.marketMessage msgType data

/-- The reply, if it is one. -/
def Given.replyText : Given → Option String
  | .reply msg => some msg
  | .push _ _ _ _ => none

/-- The market message, if it is one. -/
def Given.market : Given → Option HubMsg
  | .reply _ => none
  | .push _ s mt d => some (.data s mt d)

/-- What the hub gives to session `i` for a message, after the messages `before`. -/
def givenFor (x : Crates) (i : ℕ) (before : List HubMsg) : HubMsg → List Given
  | .action a => (tagged ⟨i⟩ (actionHandle a.id a.action (Hub.run x before)).2.toList).map .reply
  | .data s mt d => if ((Hub.run x before).channel i s).isSome then [.push before s mt d] else []

/-- What the hub gives to session `i` for these messages, after the messages `before`. -/
def givensFrom (x : Crates) (i : ℕ) : List HubMsg → List HubMsg → List Given
  | _, [] => []
  | before, m :: ms => givenFor x i before m ++ givensFrom x i (before ++ [m]) ms

/-- What the hub gives to session `i` in a run from empty maps. -/
def givens (x : Crates) (ms : List HubMsg) (i : ℕ) : List Given := givensFrom x i [] ms

theorem givens_snoc (ms : List HubMsg) (m : HubMsg) :
    givens x (ms ++ [m]) i = givens x ms i ++ givenFor x i ms m := by
  have hfrom : ∀ (ms before : List HubMsg), givensFrom x i before (ms ++ [m]) =
      givensFrom x i before ms ++ givenFor x i (before ++ ms) m := by
    intro ms
    induction ms with
    | nil => intro before; simp [givensFrom]
    | cons m' ms ih => intro before; simp [givensFrom, ih]
  exact hfrom ms []

/-- What the hub gives to session `i` over these messages: texts that are replies, at most one for
each action of the session, or market messages, each at most once and in order, of topics to
which the session is subscribed. -/
structure GivenOK (x : Crates) (ms : List HubMsg) (i : ℕ) (given : List Given) : Prop where
  text : given.map (Given.text x) = outputs x ms i
  replies : (given.filterMap Given.replyText).length ≤ (ms.filterMap (HubMsg.ownAction i)).length
  market : (given.filterMap Given.market).Sublist (ms.filterMap HubMsg.market)
  pushes : ∀ before s mt d, .push before s mt d ∈ given →
    before ++ [.data s mt d] <+: ms ∧ Subscribed (answered x before) i s

/-- One more message. -/
theorem GivenOK.snoc {ms : List HubMsg} {m : HubMsg} {given more : List Given} (hok : GivenOK x ms i given)
    (htext : more.map (Given.text x) = (Hub.run x ms).gives x i m)
    (hreplies : (more.filterMap Given.replyText).length ≤ ([m].filterMap (HubMsg.ownAction i)).length)
    (hmarket : (more.filterMap Given.market).Sublist ([m].filterMap HubMsg.market))
    (hpushes : ∀ before s mt d, .push before s mt d ∈ more →
      before = ms ∧ m = .data s mt d ∧ Subscribed (answered x ms) i s) :
    GivenOK x (ms ++ [m]) i (given ++ more) where
  text := by rw [List.map_append, hok.text, htext, outputs_snoc]
  replies := by
    rw [List.filterMap_append, List.filterMap_append, List.length_append, List.length_append]
    exact Nat.add_le_add hok.replies hreplies
  market := by
    rw [List.filterMap_append, List.filterMap_append]
    exact hok.market.append hmarket
  pushes before s mt d hg := by
    rcases List.mem_append.1 hg with hg | hg
    · obtain ⟨hpre, hsub⟩ := hok.pushes before s mt d hg
      exact ⟨hpre.trans (List.prefix_append _ _), hsub⟩
    · obtain ⟨rfl, rfl, hsub⟩ := hpushes before s mt d hg
      exact ⟨List.prefix_refl _, hsub⟩

theorem givenOK_givens (x : Crates) (ms : List HubMsg) (i : ℕ) : GivenOK x ms i (givens x ms i) := by
  induction ms using List.reverseRecOn with
  | nil => exact ⟨rfl, le_rfl, List.Sublist.refl [], fun _ _ _ _ h => absurd h List.not_mem_nil⟩
  | append_singleton ms m ih =>
    rw [givens_snoc]
    cases m with
    | action a =>
      have htexts : ∀ l : List String, (l.map Given.reply).map (Given.text x) = l ∧
          (l.map Given.reply).filterMap Given.replyText = l ∧
          (l.map Given.reply).filterMap Given.market = [] := by
        intro l
        induction l with
        | nil => exact ⟨rfl, rfl, rfl⟩
        | cons msg l ih => simpa [Given.text, Given.replyText, Given.market] using ih
      obtain ⟨htext, hreply, hmarket⟩ :=
        htexts (tagged ⟨i⟩ (actionHandle a.id a.action (Hub.run x ms)).2.toList)
      refine ih.snoc htext ?_ ?_ fun before s mt d h => ?_
      · rw [givenFor, hreply]
        -- a reply goes to the session of the action
        cases hr : (actionHandle a.id a.action (Hub.run x ms)).2 with
        | none => exact Nat.zero_le _
        | some reply =>
          have hown := (reply_own ms a hr).1
          by_cases hid : a.id = i <;> simp [HubMsg.ownAction, hown, hid]
      · rw [givenFor, hmarket]
        exact List.nil_sublist _
      · obtain ⟨msg, -, hmsg⟩ := List.mem_map.1 h
        cases hmsg
    | data s mt d =>
      by_cases hc : ((Hub.run x ms).channel i s).isSome
      · obtain ⟨tx, htx⟩ := Option.isSome_iff_exists.1 hc
        rw [givenFor, if_pos hc]
        refine ih.snoc (if_pos hc).symm (Nat.zero_le _) (List.Sublist.refl _) fun before s' mt' d' h => ?_
        cases List.mem_singleton.1 h
        exact ⟨rfl, rfl, (hubOK_run x ms).sound i s tx htx⟩
      · rw [givenFor, if_neg hc]
        exact ih.snoc (if_neg hc).symm (Nat.zero_le _) (List.nil_sublist _)
          fun _ _ _ _ h => absurd h List.not_mem_nil

/-- The market messages that the hub gives to a session are sends of the tasks. -/
theorem market_givens (h : FeedRuns x parse h₀ ls log s) (i : ℕ) :
    ((givens x (processed log) i).filterMap Given.market).Sublist ((sends ls).map feedMsg) := by
  rw [← hub_run h]
  exact (givenOK_givens x (processed log) i).market.trans (List.sublist_append_left _ _)

/-- **What a client is sent.** In every run, what the client of a session has got, the item of a
failed send and what is in the session's queue interleave what the hub, the session's task and
its history tasks put there and the answers to its binary frames. The hub's part is what it has
given to the session, but what it has still to send and what it gave after the session had
ended: replies, at most one for each action that the session has asked for, and market messages,
which tasks of listed entries sent, each at most once, in the order in which they were sent, and
while the session was subscribed to the entry's name. -/
theorem client_feeds {content : Option String} (hnew : DynamicConfigHandler.new parse o content = some h₀)
    (h : FeedRuns x parse h₀ ls log s) (i : ℕ) :
    (∃ hub own, Served x (netLabels ls) log s.net i hub own (historyMsgs (netLabels ls) i)) ∧
      (givens x (processed log) i).map (Given.text x) = outputs x (processed log) i ∧
      ((givens x (processed log) i).filterMap Given.replyText).length ≤
        (requested x (netLabels ls) i).length ∧
      ((givens x (processed log) i).filterMap Given.market).Sublist ((sends ls).map feedMsg) ∧
      ∀ before symbol mt d, .push before symbol mt d ∈ givens x (processed log) i →
        Subscribed (answered x before) i symbol ∧
          ∃ first, content.bind parse = some first ∧
            ∃ c ∈ configs parse first ls, ∃ arg ∈ c, arg.toString = symbol ∧ arg.msgType = mt := by
  obtain ⟨first, hfirst, hfeeds⟩ := feedsOK_new hnew (Run.of_logged h)
  have hok := givenOK_givens x (processed log) i
  have hmarket := market_givens h i
  have hnet := net_run h
  refine ⟨⟨_, _, served_run hnet i⟩, hok.text, ?_, hmarket, fun before symbol mt d hg => ?_⟩
  · rw [← (requests_run hnet).actions i, List.append_assoc, List.length_append]
    exact hok.replies.trans (Nat.le_add_right _ _)
  · have hmem : HubMsg.data symbol mt d ∈ (sends ls).map feedMsg :=
      hmarket.subset (List.mem_filterMap.2 ⟨_, hg, rfl⟩)
    obtain ⟨p, hp, heq⟩ := List.mem_map.1 hmem
    obtain ⟨-, c, hc, harg⟩ := hfeeds.sender hp
    have hnames : p.2.1.toString = symbol ∧ p.2.1.msgType = mt ∧ p.2.2 = d := by simpa [feedMsg] using heq
    exact ⟨(hok.pushes before symbol mt d hg).2, first, hfirst, c, hc, p.2.1, harg, hnames.1, hnames.2.1⟩

/-- The client has got the reply, the refusal of its binary frame and the second trade; the hub
has given it the reply and the trade. -/
theorem client_feeds_btc : ∃ h₀ n s, FeedRuns tradeCrates oneEntry h₀ (feedLabels n [2]) (clientLog [2]) s ∧
    frames (clientLog [2]) 1 = [success, binaryError, tradeCrates.marketMessage "trade" [2]] ∧
    ∃ hub own, Interleaves (frames (clientLog [2]) 1) (bySource hub own [] [binaryError]) ∧
      hub = [success, tradeCrates.marketMessage "trade" [2]] ∧
      own = ownReplies tradeCrates (netLabels (feedLabels n [2])) 1 := by
  obtain ⟨h₀, n, s, hnew, -, h, hnet⟩ := feed_logged [2]
  obtain ⟨⟨hub, own, hserved⟩, htext, -⟩ := client_feeds hnew h 1
  rw [hnet] at hserved
  have hil := hserved.order
  have hown := hserved.replies
  have hhub := hserved.hub.trans htext.symm
  rw [clientNet_session] at hil hown
  have hgot : frames (clientLog [2]) 1 ++ [] ++ [] = frames (clientLog [2]) 1 := by rw [List.append_nil, List.append_nil]
  have hall : hub ++ [] ++ [] = [success, tradeCrates.marketMessage "trade" [2]] := hhub
  have hnone : own ++ [] = ownReplies tradeCrates (netLabels (feedLabels n [2])) 1 := hown
  rw [List.append_nil] at hnone
  rw [List.append_nil, List.append_nil] at hall
  exact ⟨h₀, n, s, h, rfl, hub, own, hgot ▸ hil, hall, hnone⟩

end CryptoMarket.Replay
