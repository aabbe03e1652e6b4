import CryptoMarket.Multicast.Converge
import CryptoMarket.Multicast.Forward

/-!
# Multicast server: changes of the configuration while messages are forwarded

`server` (`lib.rs`) as a whole: the handler of the configuration, the tasks it creates and
aborts, which run `receive_data`, and the loop that sends. An abort takes effect at a task's
next wait for a message, so what the task has received by then it still sends. The network
loses no datagram and keeps their order, as in `Forward`; the client cuts each message at 1600
bytes.

* `forward_run`: a run of the server, seen without the handler, is a run of `Forward`.
* `delivered_through_changes`: so no change loses, doubles or reorders what the tasks have
  received; and the tasks were all created for pairs of some configuration.
* `kept_feed`: the task of a url that every configuration lists with one type is never
  stopped by a change.
-/

namespace CryptoMarket.Multicast

/-- The server: the handler, the tasks and the way of their messages. -/
structure Server where
  handler : DynamicConfigHandler
  /-- The type and the url that each task was created for. -/
  ipcOf : ℕ → Option IpcBasicRepr
  forward : Forward.State ℕ

/-- The handler changes; the new tasks are those with new numbers. -/
def Server.follow (s : Server) (handler : DynamicConfigHandler) : Server :=
  { s with handler, ipcOf := fun i => if i < s.handler.created then s.ipcOf i else handler.live.lookup i }

/-- `server` before the watcher runs, with this configuration in the file. -/
def Server.start (config : List IpcBasicRepr) : Server where
  handler := DynamicConfigHandler.new.register config
  ipcOf i := (DynamicConfigHandler.new.register config).live.lookup i
  forward := .init

inductive ServerLabel where
  /-- A call of `handle_event`. -/
  | event (e : Notification)
  /-- An aborted task is gone. -/
  | cancel (i : ℕ)
  | forward (l : Forward.Label ℕ)

/-- **The steps of the server.** -/
inductive ServerStep (s : Server) : ServerLabel → Server → Prop
  | event {e : Notification} (o : Orders) :
    ServerStep s (.event e) (s.follow (s.handler.handleEvent o e).2)
  | cancel {i : ℕ} {forward : Forward.State ℕ} : s.ipcOf i ≠ none → s.handler.live.lookup i = none →
    Forward.Step s.forward (.stop i) forward → ServerStep s (.cancel i) { s with forward }
  /-- Only a task that was created receives something. -/
  | forward {l : Forward.Label ℕ} {forward : Forward.State ℕ} :
    (∀ i message, l = .receive i message → s.ipcOf i ≠ none) → Forward.Step s.forward l forward →
    ServerStep s (.forward l) { s with forward }

/-- The step of the tasks and the loops, if it is one. -/
def ServerLabel.forwarding : ServerLabel → Option (Forward.Label ℕ)
  | .event _ => none
  | .cancel i => some (.stop i)
  | .forward l => some l

/-- The steps of the tasks and the loops in a run. -/
def forwarding (ls : List ServerLabel) : List (Forward.Label ℕ) := ls.filterMap ServerLabel.forwarding

/-- The configuration that a step reads. -/
def ServerLabel.config : ServerLabel → Option (List IpcBasicRepr)
  | .event e => e.config
  | _ => none

/-- The configurations of a run: the one at the start and those read later. -/
def configs (config : List IpcBasicRepr) (ls : List ServerLabel) : List (List IpcBasicRepr) :=
  config :: ls.filterMap ServerLabel.config

variable {s s' : Server} {l : ServerLabel} {ls : List ServerLabel} {config : List IpcBasicRepr}
  {typ : IpcType} {url : IpcUrl} {i : ℕ}

theorem forwarding_snoc (ls : List ServerLabel) (l : ServerLabel) :
    forwarding (ls ++ [l]) = forwarding ls ++ l.forwarding.toList := by
  rw [forwarding, List.filterMap_append]
  cases h : l.forwarding <;> simp [h, forwarding]

theorem configs_snoc (ls : List ServerLabel) (l : ServerLabel) :
    configs config (ls ++ [l]) = configs config ls ++ l.config.toList := by
  rw [configs, List.filterMap_append, configs, List.cons_append]
  cases h : l.config <;> simp [h]

theorem ipcOf_follow {handler : DynamicConfigHandler} (hi : i < s.handler.created) :
    (s.follow handler).ipcOf i = s.ipcOf i := if_pos hi

/-- **Without the handler** a run of the server is a run of the tasks and the loops. -/
theorem forward_run (h : Run ServerStep (Server.start config) ls s) :
    Run Forward.Step Forward.State.init (forwarding ls) s.forward := by
  induction h with
  | nil => exact Run.nil
  | @snoc ls s t l _ hst ih =>
    rw [forwarding_snoc]
    cases hst with
    | event o =>
      rw [show (ServerLabel.event _).forwarding.toList = [] from rfl, List.append_nil]
      exact ih
    | cancel _ _ hst => exact ih.snoc hst
    | forward _ hst => exact ih.snoc hst

/-! ## Where the tasks come from -/

/-- What is known of the tasks in a run. -/
structure TasksOK (config : List IpcBasicRepr) (ls : List ServerLabel) (s : Server) : Prop where
  held : s.handler.Held ipcTask
  known : s.handler.Known s.ipcOf
  listed : ∀ i p, s.ipcOf i = some p → ∃ c ∈ configs config ls, p ∈ c
  received : ∀ i message, .receive i message ∈ forwarding ls → s.ipcOf i ≠ none

variable {h : DynamicConfigHandler} {o : Orders} {e : Notification} {p : IpcBasicRepr}

/-- A live task after an event was live before, or is new and of the configuration that was
read. -/
theorem live_handleEvent (hlive : (h.handleEvent o e).2.live.lookup i = some p) :
    h.live.lookup i = some p ∨ h.created ≤ i ∧ ∃ c, e.config = some c ∧ p ∈ c := by
  rw [handleEvent_snd] at hlive
  cases hc : e.config with
  | none =>
    rw [hc] at hlive
    exact Or.inl hlive
  | some c =>
    rw [hc] at hlive
    refine (Pool.live_spawnAll_stopAll (K := ipcTask) newTask id _ _ h hlive).imp_right ?_
    rintro ⟨hle, p', hp, rfl⟩
    have hadded := o.added.mem_walk.1 hp
    exact ⟨hle, c, rfl, List.mem_toFinset.1 (Finset.mem_sdiff.1 hadded).1⟩

theorem created_handleEvent : h.created ≤ (h.handleEvent o e).2.created := by
  rw [handleEvent_snd]
  cases e.config with
  | none => exact le_rfl
  | some c =>
    have hregister : ∀ (l : List IpcBasicRepr) (h : DynamicConfigHandler),
        (h.register l).created = h.created + l.length := Pool.created_spawnAll newTask id
    have hcleanup : ∀ l : List IpcBasicRepr, (h.cleanup l).created = h.created := fun l =>
      Pool.created_stopAll l h
    dsimp only
    rw [hregister, hcleanup]
    exact Nat.le_add_right ..

theorem tasksOK_start (config : List IpcBasicRepr) : TasksOK config [] (Server.start config) where
  held := held_register Pool.held_empty config
  known := by
    refine ⟨fun _ _ h => h, fun i h => ?_⟩
    obtain ⟨p, hp⟩ := Option.ne_none_iff_exists'.1 h
    exact (held_register Pool.held_empty config).fresh i p hp
  listed i p h := by
    refine ⟨config, List.mem_cons_self, ?_⟩
    rcases Pool.live_spawnAll_cases newTask id config DynamicConfigHandler.new h with h | ⟨p', hp, rfl⟩
    · simp [DynamicConfigHandler.new, Pool.empty] at h
    · exact hp
  received i message h := by cases h

/-- A step that only moves tasks and loops. -/
theorem TasksOK.move {forward : Forward.State ℕ} (hok : TasksOK config ls s)
    (hl : ∀ i message, .receive i message ∈ l.forwarding.toList → s.ipcOf i ≠ none) :
    TasksOK config (ls ++ [l]) { s with forward } where
  held := hok.held
  known := hok.known
  listed i p hp := by
    obtain ⟨c, hc, hpc⟩ := hok.listed i p hp
    rw [configs_snoc]
    exact ⟨c, List.mem_append_left _ hc, hpc⟩
  received i message hm := by
    rw [forwarding_snoc, List.mem_append] at hm
    exact hm.elim (hok.received i message) (hl i message)

/-- **One step.** -/
theorem tasksOK_step (hok : TasksOK config ls s) (hst : ServerStep s l s') :
    TasksOK config (ls ++ [l]) s' := by
  cases hst with
  | @event e o =>
    have hheld := held_handleEvent (o := o) (e := e) hok.held
    have hknown : (s.handler.handleEvent o e).2.Known (s.follow (s.handler.handleEvent o e).2).ipcOf :=
      hok.known.origins hheld.fresh created_handleEvent fun i p hlt hlive =>
        (live_handleEvent hlive).resolve_right fun hnew => absurd hnew.1 (not_le.2 hlt)
    refine ⟨hheld, hknown, fun i p hi => ?_, fun i message hm => ?_⟩
    · rw [configs_snoc]
      by_cases hlt : i < s.handler.created
      · rw [ipcOf_follow hlt] at hi
        obtain ⟨c, hc, hpc⟩ := hok.listed i p hi
        exact ⟨c, List.mem_append_left _ hc, hpc⟩
      · rcases live_handleEvent ((if_neg hlt).symm.trans hi) with hlive | ⟨-, c, hc, hpc⟩
        · exact absurd (hok.held.fresh i p hlive) hlt
        · exact ⟨c, List.mem_append_right _ (by simp [ServerLabel.config, hc]), hpc⟩
    · rw [forwarding_snoc, show (ServerLabel.event e).forwarding.toList = [] from rfl,
        List.append_nil] at hm
      have hi := hok.received i message hm
      rwa [ipcOf_follow (hok.known.created i hi)]
  | cancel hi hdead hst => exact hok.move fun j message hm => by simp [ServerLabel.forwarding] at hm
  | forward hcreated hst =>
    refine hok.move fun j message hm => hcreated j message ?_
    simpa [ServerLabel.forwarding, eq_comm] using hm

theorem tasksOK_run (h : Run ServerStep (Server.start config) ls s) : TasksOK config ls s :=
  Run.hist_inv (tasksOK_start config) (fun _ _ _ _ _ hok hst => tasksOK_step hok hst) h

/-- **Changes of the configuration lose nothing.** In every run of the server whose messages
fit into a datagram, whatever is changed in between: what is delivered and what is in flight
is an interleaving of what the tasks sent, every task has sent all that it has received, the
one at hand apart, also if it was aborted; and only tasks that were created for a pair of some
configuration have received anything. -/
theorem delivered_through_changes (h : Run ServerStep (Server.start config) ls s)
    (hlen : ∀ i message, .receive i message ∈ forwarding ls → message.length ≤ Forward.maxPayload) :
    (∃ delivered sent, s.forward.output = delivered.map Forward.cut ∧
      (∀ i, Forward.received (forwarding ls) i = sent i ++ (s.forward.tasks i).held) ∧
      Interleaves (delivered ++ s.forward.network ++ s.forward.channel) sent) ∧
    ∀ i message, .receive i message ∈ forwarding ls →
      ∃ p, s.ipcOf i = some p ∧ ∃ c ∈ configs config ls, p ∈ c := by
  obtain ⟨delivered, hout, sent, hsent, hil⟩ := (Forward.forwarded_run (forward_run h) hlen).inFlight
  refine ⟨⟨delivered, sent, hout, hsent, hil⟩, fun i message hm => ?_⟩
  have hok := tasksOK_run h
  obtain ⟨p, hp⟩ := Option.ne_none_iff_exists'.1 (hok.received i message hm)
  exact ⟨p, hp, hok.listed i p hp⟩

/-- The configuration with one url. -/
def oneUrl : List IpcBasicRepr := [(3, "ipc:///tmp/a.ipc")]

/-- Its task has a message at hand. -/
def oneReceived : Server :=
  { Server.start oneUrl with
    forward := { (Forward.State.init : Forward.State ℕ) with
      tasks := Function.update (fun _ => .waiting) 0 (.sending [1]) } }

theorem ipcOf_oneUrl : (Server.start oneUrl).ipcOf 0 = some (3, "ipc:///tmp/a.ipc") := by decide

theorem receive_oneUrl : ServerStep (Server.start oneUrl) (.forward (.receive 0 [1])) oneReceived := by
  refine .forward (fun i message hl => ?_) (.receive rfl)
  cases hl
  rw [ipcOf_oneUrl]
  exact Option.some_ne_none _

/-- The message gets to the client. -/
theorem delivered_oneUrl : ∃ s, Run ServerStep (Server.start oneUrl)
    [.forward (.receive 0 [1]), .forward (.send 0), .forward .sendTo, .forward .recvFrom] s ∧
    s.forward.output = [[1]] ∧ s.forward.network = [] ∧ s.forward.channel = [] ∧ s.forward.tasks 0 = .waiting := by
  have hat : oneReceived.forward.tasks 0 = .sending [1] := by simp [oneReceived]
  set f := oneReceived.forward
  set f₁ : Forward.State ℕ := { f with tasks := Function.update f.tasks 0 .waiting, channel := [[1]] }
  set f₂ : Forward.State ℕ := { f₁ with channel := [], network := [[1]] }
  have hlen : ([1] : Bytes).length ≤ Forward.maxPayload := by decide
  have hsend : ServerStep oneReceived (.forward (.send 0)) { oneReceived with forward := f₁ } :=
    .forward (fun i message hl => by cases hl) (.send hat rfl)
  have hsendTo : ServerStep { oneReceived with forward := f₁ } (.forward .sendTo)
      { oneReceived with forward := f₂ } :=
    .forward (fun i message hl => by cases hl) (.sendTo rfl rfl hlen)
  have hrecv : ServerStep { oneReceived with forward := f₂ } (.forward .recvFrom) _ :=
    .forward (fun i message hl => by cases hl) (.recvFrom rfl)
  refine ⟨_, Run.cons receive_oneUrl (Run.cons hsend (Run.cons hsendTo (Run.single hrecv))), ?_, rfl, rfl, ?_⟩
  · have hbuffer : Forward.zeroBuffer.length = 1600 := List.length_replicate
    have hcut := (Forward.recvFrom_eq [1] hbuffer).1
    exact congrArg (fun message => [message]) hcut
  · show Function.update f.tasks 0 .waiting 0 = .waiting
    rw [Function.update_self]

/-- A url is dropped while its task has a message at hand. -/
theorem delivered_through_removal : ∃ s, Run ServerStep (Server.start oneUrl)
    [.forward (.receive 0 [1]), .event (changeTo []), .forward (.send 0), .cancel 0] s ∧
    ∃ delivered sent, s.forward.output = delivered.map Forward.cut ∧
      (∀ i, Forward.received [.receive 0 [1], .send 0, .stop 0] i = sent i ++ (s.forward.tasks i).held) ∧
      Interleaves (delivered ++ s.forward.network ++ s.forward.channel) sent := by
  have hentry : (Server.start oneUrl).handler.map.lookup "ipc:///tmp/a.ipc" = some ⟨3, 0⟩ := by decide
  have hheld := (tasksOK_start oneUrl).held
  set o : Orders := ⟨default, default, default⟩
  set f₂ : Forward.State ℕ := { oneReceived.forward with
    tasks := Function.update oneReceived.forward.tasks 0 .waiting
    channel := oneReceived.forward.channel ++ [[1]] }
  set s₂ : Server := oneReceived.follow (oneReceived.handler.handleEvent o (changeTo [])).2
  set s₃ : Server := { s₂ with forward := f₂ }
  have h₂ : ServerStep oneReceived (.event (changeTo [])) s₂ := .event o
  have h₃ : ServerStep s₂ (.forward (.send 0)) s₃ := by
    have hs : oneReceived.forward.tasks 0 = .sending [1] := by simp [oneReceived]
    exact .forward (fun i message hl => by cases hl) (.send hs rfl)
  -- the task of the url is aborted
  have hdead : s₃.handler.live.lookup 0 = none := by
    show (oneReceived.handler.handleEvent o (changeTo [])).2.live.lookup 0 = none
    rw [handleEvent_snd]
    exact (follows_cleanup_register hheld (fun p => o.removed.mem_walk) fun p => o.added.mem_walk).aborted
      "ipc:///tmp/a.ipc" ⟨3, 0⟩ hentry (by simp)
  have hipc : s₃.ipcOf 0 ≠ none := by
    have hkept : s₂.ipcOf 0 = oneReceived.ipcOf 0 := ipcOf_follow (by decide)
    have hsame : s₂.ipcOf 0 = some (3, "ipc:///tmp/a.ipc") := hkept.trans ipcOf_oneUrl
    exact hsame ▸ Option.some_ne_none _
  have h₄ : ServerStep s₃ (.cancel 0) _ := .cancel hipc hdead (.stop (by simp [s₃, f₂]))
  have hrun := Run.cons receive_oneUrl (Run.cons h₂ (Run.cons h₃ (Run.single h₄)))
  refine ⟨_, hrun, (delivered_through_changes hrun ?_).1⟩
  intro i message hm
  have hone : (Forward.Label.receive i message) = .receive 0 [1] := by simpa [forwarding,
    ServerLabel.forwarding] using hm
  cases hone
  decide

/-! ## A url that stays -/

/-- The task of a url that is listed from the start. -/
theorem lookup_start (hlist : ListedAs config typ url) :
    ∃ i, (Server.start config).handler.map.lookup url = some ⟨typ, i⟩ := by
  rcases lookup_register config .new url with ⟨hnot, -⟩ | ⟨t, hc, i, -, hl⟩
  · exact absurd (List.mem_map.2 ⟨_, hlist.1, rfl⟩) hnot
  · obtain rfl := hlist.2 t hc
    exact ⟨i, hl⟩

/-- **The task of a url that stays** stays. -/
theorem lookup_run (h : Run ServerStep (Server.start config) ls s)
    (hl : ∀ c ∈ configs config ls, ListedAs c typ url)
    (hstart : (Server.start config).handler.map.lookup url = some ⟨typ, i⟩) :
    s.handler.map.lookup url = some ⟨typ, i⟩ ∧ .cancel i ∉ ls := by
  induction h with
  | nil => exact ⟨hstart, List.not_mem_nil⟩
  | @snoc ls s t l hrun hst ih =>
    obtain ⟨hmap, hno⟩ := ih fun c hc => hl c (by rw [configs_snoc]; exact List.mem_append_left _ hc)
    have hheld := (tasksOK_run hrun).held
    cases hst with
    | @event e o =>
      refine ⟨?_, by simp [hno]⟩
      show (s.handler.handleEvent o e).2.map.lookup url = _
      rw [handleEvent_snd]
      cases hc : e.config with
      | none => exact hmap
      | some c =>
        have hlist : ListedAs c typ url := hl c (by rw [configs_snoc]; simp [ServerLabel.config, hc])
        exact ((follows_cleanup_register hheld (fun p => o.removed.mem_walk)
          (fun p => o.added.mem_walk)).kept url ⟨typ, i⟩ hmap hlist).1
    | @cancel j forward hj hdead hst =>
      refine ⟨hmap, ?_⟩
      have hlive := hheld.held url _ hmap
      have hij : i ≠ j := by
        rintro rfl
        rw [show s.handler.live.lookup i = some _ from hlive] at hdead
        cases hdead
      simp [hno, hij]
    | forward hcreated hst => exact ⟨hmap, by simp [hno]⟩

/-- A task that has ended was stopped, as long as the server sends. -/
theorem stop_of_ended {fls : List (Forward.Label ℕ)} {f : Forward.State ℕ}
    (h : Run Forward.Step Forward.State.init fls f)
    (hlen : ∀ i message, .receive i message ∈ fls → message.length ≤ Forward.maxPayload)
    (hended : f.tasks i = .ended) : .stop i ∈ fls := by
  induction h with
  | nil => cases hended
  | @snoc fls f f' fl hrun hst ih =>
    have hlen' : ∀ i message, .receive i message ∈ fls → message.length ≤ Forward.maxPayload :=
      fun j message hm => hlen j message (List.mem_append_left _ hm)
    have hserving := (Forward.forwarded_run hrun hlen').serving
    have hbefore : f.tasks i = .ended → .stop i ∈ fls ++ [fl] := fun hf =>
      List.mem_append_left _ (ih hlen' hf)
    have hupdate : ∀ {j : ℕ} {r : Forward.ReceiveData}, r ≠ .ended →
        Function.update f.tasks j r i = .ended → f.tasks i = .ended := by
      intro j r hr hup
      by_cases hij : i = j
      · rw [hij, Function.update_self] at hup
        exact absurd hup hr
      · rwa [Function.update_of_ne hij] at hup
    cases hst with
    | receive hw => exact hbefore (hupdate (by simp) hended)
    | send hs hsv => exact hbefore (hupdate (by simp) hended)
    | sendError hs hsv =>
      rw [hserving] at hsv
      cases hsv
    | @stop j hw =>
      by_cases hij : i = j
      · exact List.mem_append_right _ (by simp [hij])
      · simp only [Function.update_of_ne hij] at hended
        exact hbefore hended
    | sendTo hsv hc hle => exact hbefore hended
    | sendToError hsv hc hlt => exact hbefore hended
    | recvFrom hn => exact hbefore hended

theorem stop_mem_forwarding : .stop i ∈ forwarding ls ↔ .cancel i ∈ ls ∨ .forward (.stop i) ∈ ls := by
  unfold forwarding
  rw [List.mem_filterMap]
  constructor
  · rintro ⟨l, hl, heq⟩
    cases l with
    | event e => cases heq
    | cancel j =>
      cases heq
      exact Or.inl hl
    | forward fl =>
      cases heq
      exact Or.inr hl
  · rintro (h | h)
    · exact ⟨_, h, rfl⟩
    · exact ⟨_, h, rfl⟩

/-- **A url that stays is never interrupted.** If every configuration of a run lists a url
with one type, one task serves it from the start: it stays in the map and alive, and no change
stops it. If it does not stop by itself, it has not ended, and all it has received, the message
at hand apart, is delivered or in flight in its order. -/
theorem kept_feed (h : Run ServerStep (Server.start config) ls s)
    (hlen : ∀ i message, .receive i message ∈ forwarding ls → message.length ≤ Forward.maxPayload)
    (hl : ∀ c ∈ configs config ls, ListedAs c typ url) :
    ∃ i, (Server.start config).handler.map.lookup url = some ⟨typ, i⟩ ∧
      s.handler.map.lookup url = some ⟨typ, i⟩ ∧ s.handler.live.lookup i = some (typ, url) ∧
      .cancel i ∉ ls ∧
      (.forward (.stop i) ∉ ls → s.forward.tasks i ≠ .ended ∧
        ∃ sent, Forward.received (forwarding ls) i = sent ++ (s.forward.tasks i).held ∧
          (sent.map Forward.cut).Sublist
            (s.forward.output ++ (s.forward.network ++ s.forward.channel).map Forward.cut)) := by
  obtain ⟨i, hstart⟩ := lookup_start (hl config List.mem_cons_self)
  obtain ⟨hmap, hcancel⟩ := lookup_run h hl hstart
  have hf := Forward.forwarded_run (forward_run h) hlen
  refine ⟨i, hstart, hmap, (tasksOK_run h).held.held url _ hmap, hcancel, fun hstop => ⟨?_, ?_⟩⟩
  · intro hended
    exact (stop_mem_forwarding.1 (stop_of_ended (forward_run h) hlen hended)).elim hcancel hstop
  · obtain ⟨delivered, hout, sent, hsent, hil⟩ := hf.inFlight
    refine ⟨sent i, hsent i, ?_⟩
    have hsub := (hil.sublist i).map Forward.cut
    rwa [List.append_assoc, List.map_append, ← hout] at hsub

/-- Two urls. -/
def twoUrls : List IpcBasicRepr := [(3, "ipc:///tmp/a.ipc"), (4, "ipc:///tmp/b.ipc")]

/-- A second url comes while the task of the first has a message at hand. -/
theorem kept_feed_addition : ∃ s, Run ServerStep (Server.start oneUrl)
    [.forward (.receive 0 [1]), .event (changeTo twoUrls)] s ∧
    ∃ i, s.handler.map.lookup "ipc:///tmp/a.ipc" = some ⟨3, i⟩ ∧ s.forward.tasks i ≠ .ended := by
  have hrun := Run.cons receive_oneUrl (Run.single (ServerStep.event ⟨default, default, default⟩ (e := changeTo twoUrls)))
  have hlist : ∀ c ∈ configs oneUrl [.forward (.receive 0 [1]), .event (changeTo twoUrls)],
      ListedAs c 3 "ipc:///tmp/a.ipc" := by
    intro c hc
    have hcases : c = oneUrl ∨ c = twoUrls := by
      simpa [configs, ServerLabel.config, changeTo, Notification.config, eq_comm] using hc
    unfold ListedAs
    rcases hcases with rfl | rfl
    · simp [oneUrl]
    · simp [twoUrls]
  obtain ⟨i, -, hmap, -, -, hstay⟩ := kept_feed hrun (fun i message hm => by
    have hone : (Forward.Label.receive i message) = .receive 0 [1] := by
      simpa [forwarding, ServerLabel.forwarding] using hm
    cases hone
    decide) hlist
  exact ⟨_, hrun, i, hmap, (hstay (by simp)).1⟩

end CryptoMarket.Multicast
