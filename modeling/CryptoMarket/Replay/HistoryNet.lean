import CryptoMarket.Replay.HistoryHandle
import CryptoMarket.Replay.Ledger

/-!
# Replay server: the history tasks

The net together with the tasks that `history` commands spawn. A task shares the JSON queue of
its session with the hub and the session's own task, and outlives the session.

* `history_run`: in every run the tasks of a session are those that its texts asked for, and
  each does what `historyHandle` does.
* `history_in_order`: what a client gets of its history commands, in every run.
-/

namespace CryptoMarket.Replay

variable {x : Crates} {checks : Bool} {p : HistoryAt}

/-! ## The tasks beside the net -/

/-- A spawned `history_handle`. -/
structure HistoryTask where
  session : ℕ
  command : HistoryCommand
  point : HistoryAt

/-- The task moves. -/
def HistoryTask.goto (t : HistoryTask) (p : HistoryAt) : HistoryTask := { t with point := p }

/-- The net and the history tasks, in the order in which they were spawned. -/
structure HistoryNet where
  net : Net
  tasks : List HistoryTask

def HistoryNet.init : HistoryNet := ⟨Net.init, []⟩

/-- What the tasks were spawned for, each by its session. -/
def HistoryNet.origins (s : HistoryNet) : List (ℕ × HistoryCommand) :=
  s.tasks.map fun t => (t.session, t.command)

/-- The session of a task. -/
def HistoryNet.owner (s : HistoryNet) (k : ℕ) : Option ℕ := s.origins[k]?.map Prod.fst

/-- The net moves, and a task. -/
def HistoryNet.move (s : HistoryNet) (net : Net) (k : ℕ) (t : HistoryTask) : HistoryNet :=
  ⟨net, s.tasks.set k t⟩

/-- The command, if the operation spawns a task. -/
def Op.command : Op → Option HistoryCommand
  | .spawn start stop args => some ⟨start, stop, args⟩
  | _ => none

/-- The operations left in a phase. -/
def Phase.ops : Phase → List Op
  | .handling ops _ => ops
  | _ => []

/-- The operation of session `i` that a step does. -/
def Net.does (n : Net) (i : ℕ) : Label → List Op
  | .op j => if j = i then (n.session i).phase.ops.take 1 else []
  | _ => []

/-- The tasks that a step spawns. -/
def Net.spawns (n : Net) : Label → List HistoryTask
  | .op i => ((n.does i (.op i)).filterMap Op.command).map fun c => ⟨i, c, .day c.start c.args⟩
  | _ => []

inductive HistoryLabel where
  /-- The hub, the sessions and the clients. -/
  | net (l : Label)
  /-- Task `k`, of session `i`, goes on. -/
  | task (k i : ℕ) (ev : Option HistoryEvent)
  /-- A send of task `k` finds no receiver. -/
  | fail (k : ℕ)

/-- A step of a history task, as the net alone has it. -/
def Label.OfHistory : Label → Prop
  | .history _ _ => True
  | _ => False

/-- **The steps of the net with its history tasks.** -/
inductive HistoryStep (x : Crates) (checks : Bool) (s : HistoryNet) : HistoryLabel → HistoryNet → Prop
  | net {l : Label} {n : Net} : ¬ l.OfHistory → Step x s.net l n →
    HistoryStep x checks s (.net l) ⟨n, s.tasks ++ s.net.spawns l⟩
  | quiet {k : ℕ} {t : HistoryTask} {ev : Option HistoryEvent} {p : HistoryAt} : s.tasks[k]? = some t →
    historyNext x checks t.command t.point = some (ev, p) → ev.bind HistoryEvent.msg = none →
    HistoryStep x checks s (.task k t.session ev) (s.move s.net k (t.goto p))
  | send {k : ℕ} {t : HistoryTask} {msg : String} {p : HistoryAt} {n : Net} : s.tasks[k]? = some t →
    historyNext x checks t.command t.point = some (some (.send msg), p) →
    Step x s.net (.history t.session msg) n →
    HistoryStep x checks s (.task k t.session (some (.send msg))) (s.move n k (t.goto p))
  | fail {k : ℕ} {t : HistoryTask} {msg : String} {p : HistoryAt} : s.tasks[k]? = some t →
    historyNext x checks t.command t.point = some (some (.send msg), p) →
    ¬ (s.net.session t.session).IsOpen →
    HistoryStep x checks s (.fail k) (s.move s.net k (t.goto .gone))

/-- The step of the net, if it is one. -/
def HistoryLabel.netLabel : HistoryLabel → Option Label
  | .net l => some l
  | .task _ i ev => (ev.bind HistoryEvent.msg).map (.history i)
  | .fail _ => none

/-- The steps of the net in a run. -/
def netSteps (ls : List HistoryLabel) : List Label := ls.filterMap HistoryLabel.netLabel

/-- The runs of the net with its history tasks, and with the log of the net. -/
abbrev HistoryRuns (x : Crates) (checks : Bool) (ls : List HistoryLabel) (log : List NetEvent)
    (s : HistoryNet) : Prop :=
  Run (Logged (HistoryStep x checks) fun s l => l.netLabel.toList.flatMap (netEvents s.net))
    (HistoryNet.init, []) ls (s, log)

/-- What task `k` did in a run. -/
def eventsOf (ls : List HistoryLabel) (k : ℕ) : List HistoryEvent :=
  ls.filterMap fun
    | .task m _ ev => if m = k then ev else none
    | _ => none

/-- What task `k` sent in a run. -/
def messagesOf (ls : List HistoryLabel) (k : ℕ) : List String := (eventsOf ls k).filterMap HistoryEvent.msg

/-- The operations of session `i` that a step asks for. -/
def Label.ops (x : Crates) (i : ℕ) : Label → List Op
  | .text j json => if j = i then (jsonHandle x json i).1 else []
  | _ => []

/-- The history commands that the texts of session `i` ask for. -/
def commanded (x : Crates) (ls : List HistoryLabel) (i : ℕ) : List HistoryCommand :=
  (netSteps ls).flatMap fun l => (l.ops x i).filterMap Op.command

/-- The commands of the tasks of session `i`. -/
def HistoryNet.commands (s : HistoryNet) (i : ℕ) : List HistoryCommand := tagged i s.origins

variable {n n' : Net} {l : Label} {i : ℕ}

/-- The end of a request is a day from 0 on, since its text has no sign. -/
theorem command_jsonHandle {json : String} {c : HistoryCommand}
    (h : c ∈ (jsonHandle x json i).1.filterMap Op.command) : 0 ≤ c.stop := by
  obtain ⟨op, hop, hc⟩ := List.mem_filterMap.1 h
  cases op with
  | send a => cases hc
  | reply msg => cases hc
  | spawn start stop args =>
    obtain rfl := Option.some.inj hc
    unfold jsonHandle at hop
    cases hp : x.fromStr json with
    | none => simp [hp] at hop
    | some params =>
      simp only [hp] at hop
      split at hop
      · simp at hop
      · split at hop <;> simp at hop
      · split at hop
        · next a b hstart hstop =>
          obtain ⟨rfl, rfl, rfl⟩ : start = a ∧ stop = b ∧ args = params.args := by
            simp only [List.mem_append, List.mem_singleton, Op.spawn.injEq] at hop
            refine hop.resolve_left fun herror => ?_
            split at herror <;> simp at herror
          -- no piece of the text has a sign, and neither has what stands in for one
          have hpiece : ∀ (t : String) (l : List String), l ⊆ split '-' t →
              ∀ d : String, '-' ∉ d.toList → '-' ∉ (l.headD d).toList := by
            intro t l hl d hd
            cases l with
            | nil => exact hd
            | cons a l => exact (mem_split (d := 'x') (hl List.mem_cons_self)).1
          refine parseI64_nonneg (hpiece _ _ (List.tail_subset _) _ ?_) hstop
          exact hpiece _ _ (List.Subset.refl _) _ (by decide)
        · simp at hop
      · simp at hop

/-- What a step does at a session: the operations it does and asks for, and what stays. -/
structure SessionStep (did asked : List Op) (c c' : Session) : Prop where
  ops : did ++ c'.phase.ops = c.phase.ops ++ asked
  spawned : c.spawned = true ∨ did.filterMap Op.command ≠ [] → c'.spawned = true
  present : c.phase ≠ .absent → c'.phase ≠ .absent
  ended : c.phase = .ended → c'.phase = .ended

theorem SessionStep.refl (c : Session) : SessionStep [] [] c c :=
  ⟨(List.append_nil _).symm, fun h => h.resolve_right fun h => h rfl, id, id⟩

/-- A step of session `j`. -/
theorem SessionStep.of_set {j : ℕ} {c : Session} (hsession : n'.session = (n.set j c).session)
    (hself : SessionStep (n.does j l) (l.ops x j) (n.session j) c)
    (hother : ∀ i, i ≠ j → n.does i l = [] ∧ l.ops x i = []) :
    SessionStep (n.does i l) (l.ops x i) (n.session i) (n'.session i) := by
  rw [hsession, Net.session_set]
  split
  · next heq => subst heq; exact hself
  · next hne =>
    obtain ⟨hdid, hasked⟩ := hother i hne
    rw [hdid, hasked]
    exact SessionStep.refl _

/-- A step that neither does an operation nor asks for one. -/
theorem SessionStep.idle {j : ℕ} {c : Session} (hsession : n'.session = (n.set j c).session)
    (hdid : ∀ i, n.does i l = []) (hasked : ∀ i, l.ops x i = [])
    (hops : c.phase.ops = (n.session j).phase.ops) (hspawned : c.spawned = (n.session j).spawned)
    (hpresent : (n.session j).phase ≠ .absent → c.phase ≠ .absent)
    (hended : (n.session j).phase = .ended → c.phase = .ended) :
    SessionStep (n.does i l) (l.ops x i) (n.session i) (n'.session i) := by
  refine SessionStep.of_set hsession ?_ fun i _ => ⟨hdid i, hasked i⟩
  rw [hdid, hasked]
  refine ⟨?_, fun h => ?_, hpresent, hended⟩
  · rw [List.append_nil, hops]
    rfl
  · rw [hspawned]
    exact h.resolve_right fun h => h rfl

/-- The operation at hand is done. -/
theorem SessionStep.op {j : ℕ} {op : Op} {ops : List Op} {ok : Bool} {c : Session}
    (hsession : n'.session = (n.set j c).session) (hp : (n.session j).phase = .handling (op :: ops) ok)
    (hops : c.phase = .handling ops ok)
    (hspawned : (n.session j).spawned = true ∨ op.command ≠ none → c.spawned = true) :
    SessionStep (n.does i (.op j)) (Label.ops x i (.op j)) (n.session i) (n'.session i) := by
  refine SessionStep.of_set hsession ?_ fun i hne => ⟨if_neg (Ne.symm hne), rfl⟩
  have hdid : n.does j (.op j) = [op] := by simp [Net.does, hp, Phase.ops]
  rw [hdid]
  refine ⟨?_, fun h => hspawned (h.imp_right ?_), ?_, ?_⟩
  · simp [hp, hops, Phase.ops, Label.ops]
  · rintro hne hnone
    simp [hnone] at hne
  · simp [hops]
  · simp [hp]

/-- **What a step of the net does at a session.** -/
theorem session_step (hst : Step x n l n') (i : ℕ) :
    SessionStep (n.does i l) (l.ops x i) (n.session i) (n'.session i) := by
  cases hst with
  | connect hp =>
    exact SessionStep.idle rfl (fun _ => rfl) (fun _ => rfl) (by simp [hp, Phase.ops]) rfl (by simp)
      (by simp [hp])
  | @text j json hp =>
    refine SessionStep.of_set rfl ?_ fun i hne => ⟨rfl, if_neg (Ne.symm hne)⟩
    refine ⟨?_, fun h => h.resolve_right fun h => h rfl, by simp, by simp [hp]⟩
    simp [Net.does, Label.ops, hp, Phase.ops]
  | frame hp => exact SessionStep.refl _
  | binary hp => exact SessionStep.refl _
  | leave hp =>
    exact SessionStep.idle rfl (fun _ => rfl) (fun _ => rfl) (by simp [hp, Phase.ops]) rfl (by simp)
      (by simp [hp])
  | crash hp =>
    exact SessionStep.idle rfl (fun _ => rfl) (fun _ => rfl) (by simp [hp, Phase.ops]) rfl (by simp)
      (by simp)
  | sendAction hp hlt => exact SessionStep.op rfl hp rfl fun h => h.resolve_right fun h => h rfl
  | @reply j msg ops ok hp hlt =>
    rw [Net.pushJson_goto]
    exact SessionStep.op rfl hp rfl fun h => h.resolve_right fun h => h rfl
  | spawn hp => exact SessionStep.op rfl hp rfl fun _ => rfl
  | @finish j ok hp =>
    exact SessionStep.idle rfl (fun _ => rfl) (fun _ => rfl) (by cases ok <;> simp [hp, Phase.ops]) rfl
      (by cases ok <;> simp) (by simp [hp])
  | bye hp hlt =>
    exact SessionStep.idle rfl (fun _ => rfl) (fun _ => rfl) (by simp [hp, Phase.ops]) rfl (by simp)
      (by simp)
  | pop hp hq => exact SessionStep.idle rfl (fun _ => rfl) (fun _ => rfl) rfl rfl id id
  | miss hp hq =>
    exact SessionStep.idle rfl (fun _ => rfl) (fun _ => rfl) (by simp [hp, Phase.ops]) rfl (by simp)
      (by simp [hp])
  | produce hlt => exact SessionStep.refl _
  | takeAction hs ha => exact SessionStep.refl _
  | takeData hs hd ho => exact SessionStep.refl _
  | push hs ho hlt => exact SessionStep.idle rfl (fun _ => rfl) (fun _ => rfl) rfl rfl id id
  | drop hs ho => exact SessionStep.refl _
  | history hsp ho hlt => exact SessionStep.idle rfl (fun _ => rfl) (fun _ => rfl) rfl rfl id id

/-! ## The books of the tasks -/

variable {s s' : HistoryNet} {hl : HistoryLabel} {ls : List HistoryLabel} {log : List NetEvent} {k : ℕ}
  {t : HistoryTask}

theorem netSteps_snoc (ls : List HistoryLabel) (hl : HistoryLabel) :
    netSteps (ls ++ [hl]) = netSteps ls ++ hl.netLabel.toList := by
  rw [netSteps, List.filterMap_append]
  cases h : hl.netLabel <;> simp [h, netSteps]

theorem commanded_snoc (ls : List HistoryLabel) (hl : HistoryLabel) (i : ℕ) : commanded x (ls ++ [hl]) i =
    commanded x ls i ++ hl.netLabel.toList.flatMap fun l => (l.ops x i).filterMap Op.command := by
  rw [commanded, netSteps_snoc, List.flatMap_append]
  rfl

theorem eventsOf_append (ls ms : List HistoryLabel) (k : ℕ) :
    eventsOf (ls ++ ms) k = eventsOf ls k ++ eventsOf ms k := List.filterMap_append

@[simp] theorem eventsOf_task (k i : ℕ) (ev : Option HistoryEvent) :
    eventsOf [.task k i ev] k = ev.toList := by
  cases ev <;> simp [eventsOf]

theorem eventsOf_task_of_ne {m i : ℕ} {ev : Option HistoryEvent} (hne : m ≠ k) :
    eventsOf [.task m i ev] k = [] := by
  simp [eventsOf, hne]

theorem HistoryRuns.snoc {e : List NetEvent} (h : HistoryRuns x checks ls log s)
    (hst : HistoryStep x checks s hl s') (he : hl.netLabel.toList.flatMap (netEvents s.net) = e) :
    HistoryRuns x checks (ls ++ [hl]) (log ++ e) s' := by
  subst he
  have hlogged : Logged (HistoryStep x checks) (fun s l => l.netLabel.toList.flatMap (netEvents s.net))
      (s, log) hl (s', log ++ hl.netLabel.toList.flatMap (netEvents s.net)) := ⟨hst, rfl⟩
  exact Run.snoc h hlogged

/-- **Without the points of the tasks** a run is a run of the net. -/
theorem historyNet_run (h : HistoryRuns x checks ls log s) : NetRuns x (netSteps ls) log s.net := by
  refine Run.hist_inv (P := fun ls y => NetRuns x (netSteps ls) y.2 y.1.net) NetRuns.nil ?_ h
  rintro ls ⟨s, log⟩ l ⟨s', log'⟩ - ih ⟨hst, hlog⟩
  dsimp only at hst hlog ih ⊢
  rw [netSteps_snoc, hlog]
  cases hst with
  | net hl hst => simpa [HistoryLabel.netLabel] using ih.snoc hst
  | quiet ht hnext hev => simpa [HistoryLabel.netLabel, hev, HistoryNet.move] using ih
  | send ht hnext hst => simpa [HistoryLabel.netLabel, HistoryEvent.msg, HistoryNet.move] using ih.snoc hst
  | fail ht hnext ho => simpa [HistoryLabel.netLabel, HistoryNet.move] using ih

/-- The task of a session is known there. -/
structure HistoryTask.Placed (t : HistoryTask) (n : Net) : Prop where
  spawned : (n.session t.session).spawned = true
  present : (n.session t.session).phase ≠ .absent
  gone : t.point = .gone → (n.session t.session).phase = .ended

/-- **The books of the tasks.** Those of a session are for the commands of its texts; each has done
what `historyHandle` does, as far as it has come. -/
structure HistoryOK (x : Crates) (checks : Bool) (ls : List HistoryLabel) (s : HistoryNet) : Prop where
  commands : ∀ i, s.commands i ++ (s.net.session i).phase.ops.filterMap Op.command = commanded x ls i
  named : ∀ k i ev, .task k i ev ∈ ls → s.owner k = some i
  follows : ∀ (k : ℕ) (t : HistoryTask), s.tasks[k]? = some t →
    t.point.Follows x checks t.command (eventsOf ls k)
  placed : ∀ t ∈ s.tasks, t.Placed s.net

theorem HistoryTask.Placed.step (h : t.Placed n) (hst : Step x n l n') : t.Placed n' := by
  have hsession := session_step hst t.session
  exact ⟨hsession.spawned (Or.inl h.spawned), hsession.present h.present,
    fun hp => hsession.ended (h.gone hp)⟩

/-- What a step spawns. -/
theorem mem_spawns (ht : t ∈ n.spawns l) : ∃ i, l = .op i ∧ t.session = i ∧
    t.command ∈ (n.does i l).filterMap Op.command ∧ t.point = .day t.command.start t.command.args := by
  cases l with
  | op i =>
    obtain ⟨c, hc, rfl⟩ := List.mem_map.1 ht
    exact ⟨i, rfl, rfl, hc, rfl⟩
  | _ => cases ht

/-- A spawned task is where it belongs. -/
theorem placed_spawns (hst : Step x n l n') (ht : t ∈ n.spawns l) : t.Placed n' := by
  obtain ⟨i, rfl, rfl, hc, hp⟩ := mem_spawns ht
  have hsession := session_step hst t.session
  have hne := List.ne_nil_of_mem hc
  refine ⟨hsession.spawned (Or.inr hne), hsession.present fun habsent => hne ?_, fun hgone => ?_⟩
  · simp [Net.does, habsent, Phase.ops]
  · rw [hp] at hgone
    cases hgone

/-- The commands of the tasks that a step spawns. -/
theorem spawns_commands (n : Net) (l : Label) (i : ℕ) :
    tagged i ((n.spawns l).map fun t => (t.session, t.command)) = (n.does i l).filterMap Op.command := by
  cases l with
  | op j =>
    simp only [Net.spawns, List.map_map, tagged, List.filterMap_map, Function.comp_def]
    by_cases hj : j = i
    · subst hj
      simp
    · simp [Net.does, hj]
  | _ => rfl

theorem move_origins {net : Net} {p : HistoryAt} (ht : s.tasks[k]? = some t) :
    (s.move net k (t.goto p)).origins = s.origins := by
  obtain ⟨hlt, hget⟩ := List.getElem?_eq_some_iff.1 ht
  have hlen : k < s.origins.length := by simpa [HistoryNet.origins]
  have hsame : ((t.goto p).session, (t.goto p).command) = s.origins[k] := by
    simp [HistoryNet.origins, hget, HistoryTask.goto]
  rw [HistoryNet.origins, HistoryNet.move, List.map_set, hsame]
  exact List.set_getElem_self _

theorem owner_of_task (ht : s.tasks[k]? = some t) : s.owner k = some t.session := by
  rw [HistoryNet.owner, HistoryNet.origins, List.getElem?_map, ht]
  rfl

/-- A task that moves keeps its session and its command. -/
theorem HistoryOK.move {net : Net} {p : HistoryAt} (hok : HistoryOK x checks ls s) (ht : s.tasks[k]? = some t)
    (hcommands : ∀ i, (net.session i).phase.ops.filterMap Op.command =
      (s.net.session i).phase.ops.filterMap Op.command)
    (hcommanded : ∀ i, commanded x (ls ++ [hl]) i = commanded x ls i)
    (hnamed : ∀ m i ev, hl = .task m i ev → m = k ∧ i = t.session)
    (hfollows : p.Follows x checks t.command (eventsOf (ls ++ [hl]) k))
    (hother : ∀ m, m ≠ k → eventsOf [hl] m = [])
    (hplaced : ∀ t ∈ s.tasks, t.Placed net) (hgone : p = .gone → (net.session t.session).phase = .ended) :
    HistoryOK x checks (ls ++ [hl]) (s.move net k (t.goto p)) := by
  have hlt : k < s.tasks.length := (List.getElem?_eq_some_iff.1 ht).1
  refine ⟨fun i => ?_, fun m i ev hm => ?_, fun m u hu => ?_, fun u hu => ?_⟩
  · rw [hcommanded, ← hok.commands, HistoryNet.commands, move_origins ht, ← hcommands]
    rfl
  · rw [HistoryNet.owner, move_origins ht]
    rcases List.mem_append.1 hm with hm | hm
    · exact hok.named m i ev hm
    · obtain ⟨rfl, rfl⟩ := hnamed m i ev (List.mem_singleton.1 hm).symm
      exact owner_of_task ht
  · simp only [HistoryNet.move, List.getElem?_set, if_pos hlt] at hu
    split at hu
    · next heq =>
      subst heq
      obtain rfl := Option.some.inj hu
      exact hfollows
    · next hne =>
      rw [eventsOf_append, hother m (Ne.symm hne), List.append_nil]
      exact hok.follows m u hu
  · rcases List.mem_or_eq_of_mem_set hu with hu | rfl
    · exact hplaced u hu
    · obtain ⟨hspawned, hpresent, -⟩ := hplaced t (List.mem_of_getElem? ht)
      exact ⟨hspawned, hpresent, hgone⟩

theorem historyOK_init : HistoryOK x checks [] HistoryNet.init where
  commands _ := rfl
  named _ _ _ hm := by cases hm
  follows _ _ ht := by simp [HistoryNet.init] at ht
  placed _ ht := by cases ht

/-- **A step keeps the books of the tasks.** -/
theorem historyOK_step (hok : HistoryOK x checks ls s) (hst : HistoryStep x checks s hl s') :
    HistoryOK x checks (ls ++ [hl]) s' := by
  cases hst with
  | @net l n hl hst =>
    have horigins : (⟨n, s.tasks ++ s.net.spawns l⟩ : HistoryNet).origins =
        s.origins ++ (s.net.spawns l).map fun t => (t.session, t.command) := List.map_append
    refine ⟨fun i => ?_, fun k i ev hm => ?_, fun k t ht => ?_, fun t ht => ?_⟩
    · rw [HistoryNet.commands, horigins, tagged_append, spawns_commands, List.append_assoc,
        ← List.filterMap_append, (session_step hst i).ops, List.filterMap_append, ← List.append_assoc,
        commanded_snoc, ← hok.commands]
      simp [HistoryLabel.netLabel, HistoryNet.commands]
    · have hold := hok.named k i ev (by simpa using hm)
      rw [HistoryNet.owner] at hold ⊢
      obtain ⟨p, hp, hfst⟩ := Option.map_eq_some_iff.1 hold
      rw [horigins, List.getElem?_append_left (List.getElem?_eq_some_iff.1 hp).1, hp]
      exact congrArg some hfst
    · rw [eventsOf_append, show eventsOf [.net l] k = [] from rfl, List.append_nil]
      rcases Nat.lt_or_ge k s.tasks.length with hlt | hge
      · exact hok.follows k t (by rwa [List.getElem?_append_left hlt] at ht)
      · -- a new task has done nothing yet
        have hnone : s.owner k = none := by
          rw [HistoryNet.owner, HistoryNet.origins, List.getElem?_map, List.getElem?_eq_none hge]
          rfl
        have hnew : eventsOf ls k = [] := by
          rw [eventsOf, List.filterMap_eq_nil_iff]
          intro m hm
          cases m with
          | task m i ev =>
            refine if_neg ?_
            rintro rfl
            rw [hok.named m i ev hm] at hnone
            cases hnone
          | _ => rfl
        rw [List.getElem?_append_right hge] at ht
        obtain ⟨i, -, -, -, hp⟩ := mem_spawns (List.mem_of_getElem? ht)
        rw [hp, hnew]
        exact follows_start
    · rcases List.mem_append.1 ht with ht | ht
      · exact (hok.placed t ht).step hst
      · exact placed_spawns hst ht
  | @quiet k t ev p ht hnext hev =>
    refine hok.move ht (fun _ => rfl) (fun i => ?_) ?_ ?_ ?_ hok.placed ?_
    · rw [commanded_snoc, HistoryLabel.netLabel, hev]
      exact List.append_nil _
    · rintro m i ev' hm
      cases hm
      exact ⟨rfl, rfl⟩
    · rw [eventsOf_append, eventsOf_task]
      exact follows_step (hok.follows k t ht) hnext
    · exact fun m hm => eventsOf_task_of_ne (Ne.symm hm)
    · exact fun hp => absurd hp (historyNext_ne_gone hnext)
  | @send k t msg p n ht hnext hst =>
    have hsession := session_step hst
    refine hok.move ht (fun i => ?_) (fun i => ?_) ?_ ?_ ?_ (fun u hu => (hok.placed u hu).step hst) ?_
    · have hops := (hsession i).ops
      rw [show Net.does s.net i (.history t.session msg) = [] from rfl,
        show Label.ops x i (.history t.session msg) = [] from rfl, List.nil_append, List.append_nil] at hops
      rw [hops]
    · rw [commanded_snoc]
      exact List.append_nil _
    · rintro m i ev' hm
      cases hm
      exact ⟨rfl, rfl⟩
    · rw [eventsOf_append, eventsOf_task]
      exact follows_step (hok.follows k t ht) hnext
    · exact fun m hm => eventsOf_task_of_ne (Ne.symm hm)
    · exact fun hp => absurd hp (historyNext_ne_gone hnext)
  | @fail k t msg p ht hnext ho =>
    refine hok.move ht (fun _ => rfl) (fun i => ?_) ?_ ?_ (fun _ _ => rfl) hok.placed fun _ => ?_
    · rw [commanded_snoc]
      exact List.append_nil _
    · rintro m i ev' hm
      cases hm
    · rw [eventsOf_append]
      exact follows_gone (by simpa [eventsOf] using hok.follows k t ht)
    · -- the session has been there, so it has ended
      by_contra hne
      exact ho ⟨(hok.placed t (List.mem_of_getElem? ht)).present, hne⟩

/-- **The books of the tasks** along every run. -/
theorem history_run (h : HistoryRuns x checks ls log s) : HistoryOK x checks ls s := by
  refine Run.hist_inv (P := fun ls y => HistoryOK x checks ls y.1) historyOK_init ?_ h
  rintro ls ⟨s, log⟩ l ⟨s', log'⟩ - hok ⟨hst, -⟩
  exact historyOK_step hok hst

/-! ## What the client gets -/

/-- What the tasks of session `i` sent, each message with its task. -/
def told (ls : List HistoryLabel) (i : ℕ) : List (ℕ × String) :=
  ls.filterMap fun
    | .task k j (some (.send msg)) => if j = i then some (k, msg) else none
    | _ => none

/-- What task `k` sent, if it is one of session `i`. -/
def HistoryNet.share (s : HistoryNet) (ls : List HistoryLabel) (i k : ℕ) : List String :=
  if s.owner k = some i then messagesOf ls k else []

/-- No history task is hidden among the steps of the net. -/
theorem net_alone (h : HistoryRuns x checks ls log s) : ∀ l, .net l ∈ ls → ¬ l.OfHistory := by
  refine Run.hist_inv (P := fun ls _ => ∀ l, .net l ∈ ls → ¬ l.OfHistory) (fun _ hm => by cases hm) ?_ h
  rintro ls ⟨s, log⟩ hl ⟨s', log'⟩ - ih ⟨hst, -⟩ l hm
  rcases List.mem_append.1 hm with hm | hm
  · exact ih l hm
  · obtain rfl := List.mem_singleton.1 hm
    cases hst with
    | net hl _ => exact hl

theorem told_messages (halone : ∀ l, .net l ∈ ls → ¬ l.OfHistory) (i : ℕ) :
    (told ls i).map Prod.snd = historyMsgs (netSteps ls) i := by
  rw [told, historyMsgs, netSteps, List.map_filterMap, List.filterMap_filterMap]
  refine List.filterMap_congr fun hl hm => ?_
  cases hl with
  | net l =>
    cases l with
    | history j msg => exact absurd trivial (halone _ hm)
    | _ => rfl
  | task k j ev =>
    cases ev with
    | none => rfl
    | some ev =>
      cases ev with
      | opens symbol day => rfl
      | send msg => by_cases hj : j = i <;> simp [HistoryLabel.netLabel, HistoryEvent.msg, hj]
  | fail k => rfl

/-- What a task told a session. -/
theorem tagged_told (hok : HistoryOK x checks ls s) : tagged k (told ls i) = s.share ls i k := by
  have hshare : s.share ls i k = ls.filterMap fun hl => if s.owner k = some i then
      match hl with
      | .task m _ ev => if m = k then ev.bind HistoryEvent.msg else none
      | _ => none
      else none := by
    rw [HistoryNet.share]
    split
    · rw [messagesOf, eventsOf, List.filterMap_filterMap]
      refine List.filterMap_congr fun hl _ => ?_
      cases hl with
      | task m j ev => by_cases hm : m = k <;> simp [hm]
      | _ => rfl
    · simp
  rw [hshare, tagged, told, List.filterMap_filterMap]
  refine List.filterMap_congr fun hl hm => ?_
  cases hl with
  | net l => simp
  | fail m => simp
  | task m j ev =>
    have howner := hok.named m j ev hm
    by_cases hmk : m = k
    · subst hmk
      cases ev with
      | none => simp
      | some ev => cases ev <;> by_cases hj : j = i <;> simp [howner, hj, HistoryEvent.msg]
    · cases ev with
      | none => simp [hmk]
      | some ev => cases ev <;> by_cases hj : j = i <;> simp [hmk, hj]

/-- The tasks of a session share its queue. -/
theorem history_interleaves (h : HistoryRuns x checks ls log s) (i : ℕ) :
    Interleaves (historyMsgs (netSteps ls) i) (s.share ls i) := by
  have htags := Interleaves.of_tags (told ls i)
  rw [told_messages (net_alone h)] at htags
  convert htags using 1
  funext k
  exact (tagged_told (history_run h)).symm

/-- **A task replays its command**: from some fuel on `historyHandle` does what the task did, first
of all; and nothing else, if the task has ended or its count has overflowed. -/
def HistoryTask.Replays (x : Crates) (checks : Bool) (t : HistoryTask) (evs : List HistoryEvent) : Prop :=
  ∃ N, ∀ fuel, N ≤ fuel →
    evs <+: (historyHandle x checks fuel t.command.start t.command.stop t.command.args).1 ∧
      (t.point = .done →
        historyHandle x checks fuel t.command.start t.command.stop t.command.args = (evs, .done)) ∧
      (t.point = .panicked →
        historyHandle x checks fuel t.command.start t.command.stop t.command.args = (evs, .panicked))

theorem HistoryOK.replays {t : HistoryTask} (hok : HistoryOK x checks ls s) (ht : s.tasks[k]? = some t) :
    t.Replays x checks (eventsOf ls k) := by
  obtain ⟨q, hq, hfuel⟩ := hok.follows k t ht
  obtain ⟨N, hN⟩ := hfuel 0
  refine ⟨N, fun fuel hle => ?_⟩
  obtain ⟨f, -, -, heq⟩ := hN fuel hle
  rw [heq]
  refine ⟨List.prefix_append _ _, fun hdone => ?_, fun hpanicked => ?_⟩
  · obtain rfl := hq.resolve_right (by simp [hdone])
    simp [hdone, HistoryAt.rest]
  · obtain rfl := hq.resolve_right (by simp [hpanicked])
    simp [hpanicked, HistoryAt.rest]

/-! ## One command -/

/-- One record on disk, of day 6; every text asks for days 6 to 1. -/
def replayCrates : Crates :=
  ⟨flatJson, fun _ => some ⟨"history@6-1", [btcTrade]⟩, fun _ => "AQID",
    fun _ day => if day = 6 then some [[1, 2, 3]] else none⟩

/-- The record, as it is sent. -/
def dayRecord : String := replayCrates.marketMessage "trade" [1, 2, 3]

/-- What is said of day 7. -/
def noDay : String := replayCrates.noHistory btcTrade 7

theorem jsonHandle_replay : jsonHandle replayCrates "" 1 = ([.spawn 6 1 [btcTrade]], true) := by
  have hp : replayCrates.fromStr "" = some ⟨"history@6-1", [btcTrade]⟩ := rfl
  have hs : split '@' "history@6-1" = ["history", "6-1"] := by decide
  have hr : split '-' "6-1" = ["6", "1"] := by decide
  have h6 : parseI64 "6" = some 6 := by decide
  have h1 : parseI64 "1" = some 1 := by decide
  simp [jsonHandle, hp, hs, hr, h6, h1]

/-- Session 1 alone. -/
def oneNet (c : Session) : Net := Net.init.set 1 c

@[simp] theorem oneNet_session (c : Session) : (oneNet c).session 1 = c := by
  rw [oneNet, Net.session_set, if_pos rfl]

@[simp] theorem oneNet_set (c c' : Session) : (oneNet c).set 1 c' = oneNet c' := by
  simp [oneNet, Net.set]

@[simp] theorem oneNet_goto (c : Session) (p : Phase) :
    (oneNet c).goto 1 p = oneNet ⟨p, c.rxJson, c.spawned⟩ := by
  rw [Net.goto, oneNet_set, oneNet_session]

@[simp] theorem oneNet_pushJson (c : Session) (msg : String) :
    (oneNet c).pushJson 1 msg = oneNet ⟨c.phase, c.rxJson ++ [msg], c.spawned⟩ := by
  rw [Net.pushJson, oneNet_set, oneNet_session]

/-- Session 1 in its loop and the task of its command. -/
def replayAt (queue : List String) (p : HistoryAt) : HistoryNet :=
  ⟨oneNet ⟨.select, queue, true⟩, [⟨1, ⟨6, 1, [btcTrade]⟩, p⟩]⟩

/-- The command spawns its task. -/
theorem replay_spawned : HistoryRuns replayCrates true
    [.net (.connect 1), .net (.text 1 ""), .net (.op 1), .net (.finish 1)] []
    (replayAt [] (.day 6 [btcTrade])) := by
  have hconnect : Step replayCrates Net.init (.connect 1) (oneNet ⟨.select, [], false⟩) :=
    Step.connect rfl
  have htext : Step replayCrates (oneNet ⟨.select, [], false⟩) (.text 1 "")
      ((oneNet _).goto 1 (.handling _ _)) := Step.text (by rw [oneNet_session])
  rw [jsonHandle_replay, oneNet_goto] at htext
  have hop : Step replayCrates (oneNet ⟨.handling [.spawn 6 1 [btcTrade]] true, [], false⟩) (.op 1)
      ((oneNet _).set 1 _) := Step.spawn (by rw [oneNet_session])
  rw [oneNet_set, oneNet_session] at hop
  have hfinish : Step replayCrates (oneNet ⟨.handling [] true, [], true⟩) (.finish 1)
      ((oneNet _).goto 1 _) := Step.finish (by rw [oneNet_session])
  rw [oneNet_goto] at hfinish
  have hspawns : (oneNet ⟨.handling [.spawn 6 1 [btcTrade]] true, [], false⟩).spawns (.op 1) =
      [⟨1, ⟨6, 1, [btcTrade]⟩, .day 6 [btcTrade]⟩] := by
    simp [Net.spawns, Net.does, Phase.ops, Op.command]
  have h₀ : HistoryRuns replayCrates true [] [] HistoryNet.init := Run.nil
  have h₁ := h₀.snoc (HistoryStep.net id hconnect) rfl
  have h₂ := h₁.snoc (HistoryStep.net (s := ⟨_, []⟩) id htext) rfl
  have h₃ := h₂.snoc (e := []) (HistoryStep.net (s := ⟨_, []⟩) id hop)
    (by simp [HistoryLabel.netLabel, netEvents])
  rw [hspawns] at h₃
  exact h₃.snoc (HistoryStep.net id hfinish) rfl

/-- The task goes on without a send. -/
theorem replay_quiet {q : List String} {p p' : HistoryAt} {ev : Option HistoryEvent}
    (hnext : historyNext replayCrates true ⟨6, 1, [btcTrade]⟩ p = some (ev, p'))
    (hev : ev.bind HistoryEvent.msg = none) :
    HistoryStep replayCrates true (replayAt q p) (.task 0 1 ev) (replayAt q p') := by
  have ht : (replayAt q p).tasks[0]? = some ⟨1, ⟨6, 1, [btcTrade]⟩, p⟩ := rfl
  exact HistoryStep.quiet ht hnext hev

/-- The task sends. -/
theorem replay_send {q : List String} {p p' : HistoryAt} {msg : String}
    (hnext : historyNext replayCrates true ⟨6, 1, [btcTrade]⟩ p = some (some (.send msg), p'))
    (hlt : q.length < jsonCap) : HistoryStep replayCrates true (replayAt q p)
      (.task 0 1 (some (.send msg))) (replayAt (q ++ [msg]) p') := by
  have ht : (replayAt q p).tasks[0]? = some ⟨1, ⟨6, 1, [btcTrade]⟩, p⟩ := rfl
  have hst : Step replayCrates (oneNet ⟨.select, q, true⟩) (.history 1 msg) ((oneNet _).pushJson 1 msg) :=
    Step.history (by rw [oneNet_session]) (by simp [Session.IsOpen]) (by rwa [oneNet_session])
  rw [oneNet_pushJson] at hst
  exact HistoryStep.send ht hnext hst

/-- The client gets an item. -/
theorem replay_pop (msg : String) (q : List String) (p : HistoryAt) :
    HistoryStep replayCrates true (replayAt (msg :: q) p) (.net (.pop 1)) (replayAt q p) ∧
      netEvents (replayAt (msg :: q) p).net (.pop 1) = [.frame 1 msg] := by
  have hst : Step replayCrates (oneNet ⟨.select, msg :: q, true⟩) (.pop 1) ((oneNet _).set 1 _) :=
    Step.pop (by rw [oneNet_session]) (by rw [oneNet_session])
  rw [oneNet_set, oneNet_session] at hst
  exact ⟨HistoryStep.net id hst, by simp [netEvents, replayAt]⟩

/-- The client is told that it accepts no binary data. -/
theorem replay_binary (p : HistoryAt) :
    HistoryStep replayCrates true (replayAt [] p) (.net (.binary 1)) (replayAt [] p) := by
  have hst : Step replayCrates (oneNet ⟨.select, [], true⟩) (.binary 1) _ :=
    Step.binary (by rw [oneNet_session])
  exact HistoryStep.net id hst

/-- The steps of the command, and then of a binary frame. -/
def replayLabels : List HistoryLabel :=
  [.net (.connect 1), .net (.text 1 ""), .net (.op 1), .net (.finish 1),
    .task 0 1 (some (.opens btcTrade.toString 6)), .task 0 1 (some (.send dayRecord)), .task 0 1 none,
    .task 0 1 (some (.opens btcTrade.toString 7)), .task 0 1 (some (.send noDay)), .task 0 1 none,
    .net (.pop 1), .net (.pop 1), .net (.binary 1)]

/-- What they do to the queues. -/
def replayLog : List NetEvent :=
  [.queued 1 .history dayRecord, .queued 1 .history noDay, .frame 1 dayRecord, .frame 1 noDay, .refused 1]

/-- **The whole of a command**: its task replays day 6 and finds no day 7. -/
theorem replay_logged : HistoryRuns replayCrates true replayLabels replayLog (replayAt [] .done) := by
  have hopens : historyNext replayCrates true ⟨6, 1, [btcTrade]⟩ (.day 6 [btcTrade]) =
      some (some (.opens btcTrade.toString 6), .records 6 btcTrade [[1, 2, 3]] []) := rfl
  have hrecord : historyNext replayCrates true ⟨6, 1, [btcTrade]⟩ (.records 6 btcTrade [[1, 2, 3]] []) =
      some (some (.send dayRecord), .records 6 btcTrade [] []) := rfl
  have hnext : historyNext replayCrates true ⟨6, 1, [btcTrade]⟩ (.records 6 btcTrade [] []) =
      some (none, .day 7 [btcTrade]) := rfl
  have hmissing : historyNext replayCrates true ⟨6, 1, [btcTrade]⟩ (.day 7 [btcTrade]) =
      some (some (.opens btcTrade.toString 7), .missing 7 btcTrade []) := rfl
  have htold : historyNext replayCrates true ⟨6, 1, [btcTrade]⟩ (.missing 7 btcTrade []) =
      some (some (.send noDay), .day 6 []) := rfl
  have hend : historyNext replayCrates true ⟨6, 1, [btcTrade]⟩ (.day 6 []) = some (none, .done) := rfl
  have hsent : HistoryRuns replayCrates true _ _ _ :=
    (((((replay_spawned.snoc (replay_quiet hopens rfl) rfl).snoc (replay_send hrecord (by decide)) rfl).snoc
      (replay_quiet hnext rfl) rfl).snoc (replay_quiet hmissing rfl) rfl).snoc
        (replay_send htold (by decide)) rfl).snoc (replay_quiet hend rfl) rfl
  obtain ⟨hfirst, hframe⟩ := replay_pop dayRecord [noDay] .done
  obtain ⟨hsecond, hframe'⟩ := replay_pop noDay [] .done
  exact ((hsent.snoc hfirst ((List.append_nil _).trans hframe)).snoc hsecond
    ((List.append_nil _).trans hframe')).snoc (replay_binary .done) rfl

/-! ## The result -/

/-- **What a client gets of its history commands.** In every run of the net with its history tasks:
the tasks of a session are those of the commands of its texts, in order, and the rest is still to
be spawned; what its client got, the item of a failed send, after which the session gets nothing
more, and what is in its queue interleave what the hub, its own task and its history tasks put
there and the answers to its binary frames; the history tasks' part interleaves what each of them
sent; and a task does what `historyHandle` does, unless the session has ended. -/
theorem history_in_order (h : HistoryRuns x checks ls log s) (i : ℕ) :
    s.commands i ++ (s.net.session i).phase.ops.filterMap Op.command = commanded x ls i ∧
      (∀ (k : ℕ) (t : HistoryTask), s.tasks[k]? = some t → t.session = i →
        t.Replays x checks (eventsOf ls k) ∧ (t.point = .gone → (s.net.session i).phase = .ended)) ∧
      ∃ sent own history, Served x (netSteps ls) log s.net i sent own history ∧
        Interleaves history (s.share ls i) := by
  have hok := history_run h
  refine ⟨hok.commands i, ?_, ?_⟩
  · rintro k t ht rfl
    exact ⟨hok.replays ht, (hok.placed t (List.mem_of_getElem? ht)).gone⟩
  · exact ⟨_, _, _, served_run (historyNet_run h) i, history_interleaves h i⟩

/-- The client has the record and what is said of day 7, both of its one history task. -/
theorem history_in_order_replay :
    [⟨6, 1, [btcTrade]⟩] = commanded replayCrates replayLabels 1 ∧ ∃ sent own history,
      Interleaves [dayRecord, noDay, binaryError] (bySource sent own history [binaryError]) ∧
      sent = [] ∧ own = ownReplies replayCrates (netSteps replayLabels) 1 ∧
      Interleaves history ((replayAt [] .done).share replayLabels 1) := by
  obtain ⟨hcommands, -, sent, own, history, hserved, hshare⟩ := history_in_order replay_logged 1
  have hil := hserved.order
  have hown := hserved.replies
  have hsession : (replayAt [] .done).net.session 1 = ⟨.select, [], true⟩ := by simp [replayAt]
  rw [hsession] at hcommands hil hown
  have hhub : sent ++ [] ++ [] = [] := hserved.hub
  have hnone : own ++ [] = ownReplies replayCrates (netSteps replayLabels) 1 := hown
  rw [List.append_nil] at hnone
  rw [List.append_nil, List.append_nil] at hhub
  exact ⟨hcommands, sent, own, history, hil, hhub, hnone, hshare⟩

end CryptoMarket.Replay
